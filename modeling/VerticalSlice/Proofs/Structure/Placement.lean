import Mathlib.Data.List.ProdSigma
import VerticalSlice.Proofs.Feature.Program
import VerticalSlice.Proofs.Text.Utf8
import VerticalSlice.Proofs.Tree.Order
import VerticalSlice.Rule.Structure

/-!
# What the check of the structure tells

The check lists the features and asks for four files of each, and then lists the sources of the
application and asks of each whether it does something that its place does not allow.
`violations_exact` says what comes out, without the listings: the features are the folders in the
folder of features, in the order of their names and whether ignored or not; the files that are missing
are those of the pairs of a feature and a kind where nothing is; and the sources are those outside
ignored folders, in the order of the ways to them. What is told of one source depends on its way and
its bytes alone (`PlacementTold`).
-/

namespace VerticalSlice.Structure

open FileTree Syntax

variable {context : Context} {tree : FileTree}

/-! ## What a source does -/

/-- Some static import is of the module of the HTTP client, and some identifier is its name. -/
def UsesHttpClient (root : Node) : Prop :=
  (∃ reference ∈ root.staticImports, reference.specifier = "@angular/common/http".toList) ∧
    ∃ node ∈ root.preorder, node.isIdentifier = true ∧ node.text = "HttpClient".toList

/-- Some identifier is the name of a scope of provision, and some literal names the whole
application. -/
def ProvidesInRoot (root : Node) : Prop :=
  (∃ node ∈ root.preorder, node.isIdentifier = true ∧ node.text = "providedIn".toList) ∧
    ∃ node ∈ root.preorder, node.stringValue? = some "root".toList

theorem containsIdentifier_iff {root : Node} {name : Text} :
    root.containsIdentifier name = true ↔
      ∃ node ∈ root.preorder, node.isIdentifier = true ∧ node.text = name := by
  rw [Node.containsIdentifier, Node.find?, List.find?_isSome, Node.walk_eq_preorder]
  simp only [Bool.and_eq_true, decide_eq_true_eq]

theorem containsString_iff {root : Node} {value : Text} :
    root.containsString value = true ↔ ∃ node ∈ root.preorder, node.stringValue? = some value := by
  rw [Node.containsString, Node.find?, List.find?_isSome, Node.walk_eq_preorder]
  simp only [decide_eq_true_eq]

theorem usesHttpClient_iff {root : Node} : usesHttpClient root = true ↔ UsesHttpClient root := by
  rw [usesHttpClient, Bool.and_eq_true, containsIdentifier_iff, List.any_eq_true]
  simp only [decide_eq_true_eq]
  rfl

theorem providesInRoot_iff {root : Node} : providesInRoot root = true ↔ ProvidesInRoot root := by
  rw [providesInRoot, Bool.and_eq_true, containsIdentifier_iff, containsString_iff]
  rfl

/-! ## One source -/

/-- The path of what is at these names below the folder of the application. -/
def pathBelow (context : Context) (way : List Text) : Path :=
  ⟨context.appFolder.anchor, context.appFolder.names ++ way⟩

/-- The name of the file does not allow it to reach the back end itself. -/
def Restricted (way : List Text) : Prop :=
  ∃ suffix ∈ [".page.ts".toList, ".state.ts".toList, ".guard.ts".toList, ".guards.ts".toList],
    suffix <:+ way.getLastD []

/-- The file lies below the folder of features. -/
def InFeatures (way : List Text) : Prop := ∃ below, way = "features".toList :: below

/-- The list has this one element if the condition holds, and none if it does not. -/
def OnceIf {α : Type} (condition : Prop) (element : α) (list : List α) : Prop :=
  (condition → list = [element]) ∧ (¬condition → list = [])

/-- What is told of the source at these names below the folder of the application, which has these
bytes: nothing if the rules do not concern it, and that it cannot be read if it cannot. Else it is told
if it uses the HTTP client and must not, and after that if it lies in a feature and provides a service
for the whole application. -/
structure PlacementTold (context : Context) (way : List Text) (bytes : List UInt8)
    (told : List Violation) : Prop where
  unconcerned : ¬Restricted way → ¬InFeatures way → told = []
  unreadable : Restricted way ∨ InFeatures way → (∀ raw, Text.Utf8.encode raw ≠ bytes) →
    ∃ fault, told = [Violation.unreadable (context.relative (pathBelow context way)) fault]
  readable : Restricted way ∨ InFeatures way → ∀ raw root, Text.Utf8.encode raw = bytes →
    root = (SyntaxTree.ofText (Text.normalizeNewlines raw) (pathBelow context way).extension).root →
      ∃ http provision, told = http ++ provision ∧
        OnceIf (Restricted way ∧ UsesHttpClient root)
          (Breach.httpClient.inFile (some (context.relative (pathBelow context way)))) http ∧
        OnceIf (InFeatures way ∧ ProvidesInRoot root)
          (Breach.providedInRoot.inFile (some (context.relative (pathBelow context way)))) provision

theorem isRestricted_pathBelow {way : List Text} (h : way ≠ []) :
    isRestricted (pathBelow context way) = true ↔ Restricted way := by
  have hname : (pathBelow context way).fileName = way.getLastD [] := by
    rw [Path.fileName, pathBelow, List.getLastD_eq_getLast?, List.getLastD_eq_getLast?,
      List.getLast?_append_of_ne_nil _ h]
  rw [isRestricted, hname, hasSuffix, List.any_eq_true, Restricted]
  simp only [List.isSuffixOf_iff_suffix]
  rfl

theorem isBelow_pathBelow {way : List Text} :
    context.featuresFolder.isBelow (pathBelow context way) = true ↔ InFeatures way := by
  have hnames : context.featuresFolder.names = context.appFolder.names ++ ["features".toList] := rfl
  rw [Path.isBelow, Option.isSome_iff_exists, InFeatures]
  refine exists_congr fun below => ?_
  rw [Path.namesBelow?_eq_some_iff, pathBelow, hnames, List.append_assoc,
    List.append_cancel_left_eq]
  exact and_iff_right rfl

theorem onceIf_ite {α : Type} {condition : Prop} {test : Bool} {element : α}
    (h : test = true ↔ condition) : OnceIf condition element (if test then [element] else []) := by
  refine ⟨fun hcondition => if_pos (h.2 hcondition), fun hnot => if_neg fun htest => ?_⟩
  exact hnot (h.1 htest)

/-- What is told of one source. -/
theorem placementTold {way : List Text} {bytes : List UInt8} (hway : way ≠ [])
    (hread : tree.read (pathBelow context way) = .ok bytes) :
    PlacementTold context way bytes (placementIn context tree (pathBelow context way)) := by
  have hconcerns : concerns context (pathBelow context way) = true ↔ Restricted way ∨ InFeatures way := by
    rw [concerns, Bool.or_eq_true, isRestricted_pathBelow hway, isBelow_pathBelow]
  refine ⟨fun hrestricted hfeatures => ?_, fun hconcerned hnone => ?_,
    fun hconcerned raw root hraw hroot => ?_⟩
  · rw [placementIn, if_neg]
    rw [hconcerns, not_or]
    exact ⟨hrestricted, hfeatures⟩
  · obtain ⟨fault, hfault⟩ := exists_readText_eq_error hread hnone
    rw [placementIn, if_pos (hconcerns.2 hconcerned), readSource, hfault]
    exact ⟨_, rfl⟩
  · rw [placementIn, if_pos (hconcerns.2 hconcerned), readSource, readText_of_read hread hraw]
    dsimp only
    rw [← hroot, misplaced, List.map_append]
    refine ⟨_, _, rfl, ?_, ?_⟩
    · rw [apply_ite (List.map _), List.map_singleton, List.map_nil]
      refine onceIf_ite ?_
      rw [Bool.and_eq_true, isRestricted_pathBelow hway, usesHttpClient_iff]
    · rw [apply_ite (List.map _), List.map_singleton, List.map_nil]
      refine onceIf_ite ?_
      rw [Bool.and_eq_true, isBelow_pathBelow, providesInRoot_iff]

/-! ## The files of features -/

/-- The kinds of files that a feature has, in order. -/
def kinds : List Text := ["routes", "page", "data", "state"]

/-- The path of the file of this kind of a feature. -/
def requiredPath (context : Context) (pair : Text × Text) : Path :=
  (context.featuresFolder.child pair.1).child (pair.1 ++ "." ++ pair.2 ++ ".ts")

/-- What is told of a feature that lacks the file of this kind. -/
def missingViolation (context : Context) (pair : Text × Text) : Violation :=
  (Breach.missingFile pair.1 (context.relative (requiredPath context pair))).inFile
    (some (context.relative (requiredPath context pair)))

theorem missingFiles_eq (feature : Text) :
    missingFiles context tree feature =
      ((kinds.map (Prod.mk feature)).filter fun pair => !tree.hasEntry (requiredPath context pair)).map
        (missingViolation context) := by
  have hpath : ∀ kind : Text, (context.featuresFolder.child feature).child
      (Text.concat [feature, ".", kind, ".ts"]) = requiredPath context (feature, kind) := by
    intro kind
    rw [requiredPath, Text.concat]
    simp only [List.flatten_cons, List.flatten_nil, List.append_nil, List.append_assoc]
  have hkinds : requiredKinds = kinds := rfl
  rw [missingFiles, requiredFiles, hkinds, List.filterMap_map]
  induction kinds with
  | nil => rfl
  | cons kind rest ih =>
    rw [List.filterMap_cons, List.map_cons, List.filter_cons, Function.comp_apply]
    dsimp only
    rw [hpath]
    cases tree.hasEntry (requiredPath context (feature, kind)) with
    | true => exact ih
    | false => exact congrArg _ ih

/-- The files that features lack are those of the pairs of a feature and a kind where nothing is. -/
theorem flatMap_missingFiles (names : List Text) :
    names.flatMap (missingFiles context tree) =
      ((names ×ˢ kinds).filter fun pair => !tree.hasEntry (requiredPath context pair)).map
        (missingViolation context) := by
  induction names with
  | nil => rfl
  | cons name names ih =>
    rw [List.flatMap_cons, ih, missingFiles_eq, List.product_cons, List.filter_append, List.map_append]

/-! ## The whole check -/

/-- Without the folder of the application or that of the features this alone is told. Else it is told
if there are no features; then, for each feature in the order of their names and each kind of file in
its order, if the feature lacks the file; then, for each source outside ignored folders in the order of
the ways to them, what is wrong with its place. -/
theorem violations_exact (hwf : tree.WellFormed) :
    (tree.hasFolder context.appFolder = false → violations context tree =
      [(Breach.noAppFolder (context.relative context.appFolder)).inFile none]) ∧
    (tree.hasFolder context.appFolder = true → tree.hasFolder context.featuresFolder = false →
      violations context tree =
        [(Breach.noFeaturesFolder (context.relative context.featuresFolder)).inFile none]) ∧
    (tree.hasFolder context.appFolder = true → tree.hasFolder context.featuresFolder = true →
      ∃ (names : List Text) (ways : List (List Text)) (missing : List (Text × Text)),
        (names.Pairwise Text.Before ∧
          ∀ name, name ∈ names ↔
            IsName name ∧ tree.hasFolder (context.featuresFolder.child name) = true) ∧
        (ways.Pairwise WayBefore ∧
          ∀ way, way ∈ ways ↔ ∃ application, tree.entry? context.appFolder = some application ∧
            Lists [".ts"] context.settings.ignoredFolders application way) ∧
        missing = ((names ×ˢ kinds).filter fun pair => !tree.hasEntry (requiredPath context pair)) ∧
        violations context tree =
          (if names = [] then
            [(Breach.noFeatures (context.relative context.featuresFolder)).inFile none] else []) ++
            missing.map (missingViolation context) ++
            ways.flatMap (fun way => placementIn context tree (pathBelow context way)) ∧
        ∀ way ∈ ways, ∃ bytes, tree.read (pathBelow context way) = .ok bytes ∧
          PlacementTold context way bytes (placementIn context tree (pathBelow context way))) := by
  refine ⟨fun happ => ?_, fun happ hfeatures => ?_, fun happ hfeatures => ?_⟩
  · rw [violations, happ]
    rfl
  · rw [violations, happ, hfeatures]
    rfl
  obtain ⟨place, entries, hplace, hfolder⟩ := locate_of_hasFolder hfeatures
  obtain ⟨above, inside, habove, hinside⟩ := locate_of_hasFolder happ
  have happlication : tree.entry? context.appFolder = some (.folder inside) := by
    rw [entry?_eq_of_locate habove, hinside]
  have hinsidewf := wellFormed_of_entry? hwf happlication
  have hlists : ∀ way, way ∈ filesWithin [".ts"] context.settings.ignoredFolders
      (folder inside).sorted ↔ ∃ application, tree.entry? context.appFolder = some application ∧
        Lists [".ts"] context.settings.ignoredFolders application way := by
    intro way
    rw [mem_filesWithin_sorted_iff hinsidewf, happlication]
    simp only [Option.some.injEq, exists_eq_left']
  refine ⟨tree.folderNames context.featuresFolder,
    filesWithin [".ts"] context.settings.ignoredFolders (folder inside).sorted, _,
    ⟨pairwise_folderNames hwf _, fun name => ?_⟩, ⟨pairwise_filesWithin _ _ hinsidewf, hlists⟩, rfl,
    ?_, fun way hway => ?_⟩
  · rw [mem_folderNames_iff hwf hplace hfolder]
    constructor
    · intro h
      obtain ⟨entry, hentry, -⟩ := (Option.any_eq_true _ _).1 h
      have hname := isName_of_get? hwf hentry name (by simp)
      exact ⟨hname, (hasFolder_child hplace hname).trans h⟩
    · rintro ⟨hname, h⟩
      rwa [hasFolder_child hplace hname] at h
  · rw [violations, happ, hfeatures]
    show violationsWithin context tree = _
    rw [violationsWithin, features, flatMap_missingFiles, sourceFiles, collectFiles, happlication]
    dsimp only
    rw [List.flatMap_map]
    simp only [List.isEmpty_iff]
    rfl
  · obtain ⟨application, happlication, hlisted⟩ := (hlists way).1 hway
    obtain ⟨-, bytes, -, -, -, hread⟩ := exists_read_of_lists hwf happlication hlisted
    exact ⟨bytes, hread, placementTold hlisted.1 hread⟩

/-! ## A small workspace -/

/-- A page that reaches the back end itself. -/
def httpText : Text := "import \x7b HttpClient \x7d from '@angular/common/http';\n"

/-- A feature with that page and nothing else. -/
def httpTree : FileTree :=
  .folder [("src", .folder [("app", .folder [("features", .folder [("a", .folder [
    ("a.page.ts", .file (Text.Utf8.encode httpText))])])])])]

/-- The workspace around it, at the root of the file system. -/
def httpContext : Context := ⟨⟨.root, []⟩, ⟨[]⟩, [], [], ⟨.root, ["src"]⟩, {}⟩

/-- The names of the page below the folder of the application. -/
def httpWay : List Text := ["features", "a", "a.page.ts"]

theorem ofText_httpText : SyntaxTree.ofText (Text.normalizeNewlines httpText)
    (pathBelow httpContext httpWay).extension =
      SyntaxTree.ofTokens false (place (Feature.lexemesOf httpText)) := by
  have hmarkup : SyntaxTree.hasMarkup (pathBelow httpContext httpWay).extension = false := by decide
  rw [Text.normalizeNewlines_eq_self (by decide +kernel), SyntaxTree.ofText, hmarkup,
    SyntaxTree.tokens, Feature.lexemesOf_eq]

theorem readSource_httpWay : httpTree.readSource (pathBelow httpContext httpWay) =
    .ok (SyntaxTree.ofTokens false (place (Feature.lexemesOf httpText))) := by
  have hread : httpTree.read (pathBelow httpContext httpWay) = .ok (Text.Utf8.encode httpText) := rfl
  rw [readSource, readText_of_read hread rfl]
  dsimp only
  rw [ofText_httpText]

/-- In the small workspace it is told that the page uses the HTTP client. -/
theorem violations_exact_httpTree : httpTree.WellFormed ∧
    httpTree.hasFolder httpContext.appFolder = true ∧
    httpTree.hasFolder httpContext.featuresFolder = true ∧
    Breach.httpClient.inFile (some "src/app/features/a/a.page.ts".toList) ∈
      violations httpContext httpTree := by
  have hwf : httpTree.WellFormed := by decide
  have happ : httpTree.hasFolder httpContext.appFolder = true := rfl
  have hfeatures : httpTree.hasFolder httpContext.featuresFolder = true := rfl
  refine ⟨hwf, happ, hfeatures, ?_⟩
  obtain ⟨names, ways, missing, -, ⟨-, hways⟩, -, hviolations, hplaces⟩ :=
    (violations_exact hwf).2.2 happ hfeatures
  have hway : httpWay ∈ ways := (hways httpWay).2 ⟨_, rfl, by rw [FileTree.Lists]; decide⟩
  obtain ⟨bytes, hread, htold⟩ := hplaces httpWay hway
  have hbytes : Text.Utf8.encode httpText = bytes := Except.ok.inj hread
  have hrestricted : Restricted httpWay := ⟨".page.ts", by simp, ⟨"a", rfl⟩⟩
  obtain ⟨http, provision, htold, hhttp, -⟩ :=
    htold.readable (.inl hrestricted) httpText _ hbytes rfl
  have huses : UsesHttpClient (SyntaxTree.ofText (Text.normalizeNewlines httpText)
      (pathBelow httpContext httpWay).extension).root := by
    rw [ofText_httpText]
    exact usesHttpClient_iff.1 (by decide +kernel)
  rw [hviolations]
  refine List.mem_append_right _ (List.mem_flatMap.2 ⟨httpWay, hway, ?_⟩)
  rw [htold, hhttp.1 ⟨hrestricted, huses⟩]
  exact List.mem_append_left _ (List.mem_singleton.2 rfl)

/-- The page lies below the folder of features and can be read, and yet it is not told that it provides
a service for the whole application, since it does not. -/
theorem silent_in_features : httpTree.hasFolder httpContext.appFolder = true ∧
    httpTree.hasFolder httpContext.featuresFolder = true ∧
    sourceFiles httpContext httpTree = [pathBelow httpContext httpWay] ∧
    httpContext.featuresFolder.isBelow (pathBelow httpContext httpWay) = true ∧
    (∃ source, httpTree.readSource (pathBelow httpContext httpWay) = .ok source) ∧
    Breach.providedInRoot.inFile (some "src/app/features/a/a.page.ts".toList) ∉
      violations httpContext httpTree := by
  have hsuffix : hasSuffix [".ts"] "a.page.ts" = true := by decide
  have hkept : ∀ name ∈ ["features".toList, "a".toList],
      httpContext.settings.ignoredFolders.contains name = false := by decide
  have hsources : sourceFiles httpContext httpTree = [pathBelow httpContext httpWay] := by
    have happ : httpTree.entry? httpContext.appFolder = some (.folder [("features", .folder [
        ("a", .folder [("a.page.ts", .file (Text.Utf8.encode httpText))])])]) := rfl
    rw [sourceFiles, collectFiles, happ]
    simp only [sorted, sortedEach, List.mergeSort_singleton, filesWithin, filesAmong, hsuffix,
      hkept "features".toList (by simp), hkept "a".toList (by simp)]
    rfl
  have hnames : features httpContext httpTree = ["a".toList] := by
    have hentry : httpTree.entry? httpContext.featuresFolder = some (.folder [
        ("a", .folder [("a.page.ts", .file (Text.Utf8.encode httpText))])]) := rfl
    rw [features, folderNames, sortedEntries, hentry]
    simp only [FileTree.entries, List.mergeSort_singleton]
    rfl
  have hplacement : placementIn httpContext httpTree (pathBelow httpContext httpWay) =
      [Breach.httpClient.inFile (some "src/app/features/a/a.page.ts")] := by
    rw [placementIn, readSource_httpWay]
    decide +kernel
  refine ⟨rfl, rfl, hsources, by decide, ⟨_, readSource_httpWay⟩, ?_⟩
  have hviolations : violations httpContext httpTree =
      (missingFiles httpContext httpTree "a") ++
        [Breach.httpClient.inFile (some "src/app/features/a/a.page.ts")] := by
    show violationsWithin httpContext httpTree = _
    rw [violationsWithin, hnames, hsources, List.flatMap_singleton, List.flatMap_singleton, hplacement]
    rfl
  rw [hviolations]
  decide +kernel

end VerticalSlice.Structure
