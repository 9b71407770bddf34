import Mathlib.Data.List.Basic
import VerticalSlice.Proofs.Feature.Program
import VerticalSlice.Proofs.FeatureImports.Destination
import VerticalSlice.Proofs.Path.Normalize
import VerticalSlice.Proofs.Tree.Order

/-!
# How the source root is written

The folder of features is named after the source root as the manifest writes it, and where a specifier
leads is a path with nothing to turn back in it. So the two can only meet if the source root does not
turn back either (`crossing?_eq_none_of_turnsBack`): a source root such as `libs/../src` hides all that
one feature imports from another. Two ways to write one folder tell the same of a workspace exactly if
both turn back, or neither, or there is nothing of the kind to tell of (`told_eq_iff`).
-/

namespace VerticalSlice

namespace FileTree

variable {tree : FileTree} {here names place : List Text}

/-- What can be read does not depend on the way to it. -/
theorem toOption_readText_eq {path other : Path} (h : tree.locate path = tree.locate other) :
    (tree.readText path).toOption = (tree.readText other).toOption := by
  rw [readText, readText, read, read, h]
  cases tree.locate other with
  | error problem => rfl
  | ok place =>
    dsimp only
    cases tree.get? place with
    | none => rfl
    | some entry => cases entry <;> rfl

theorem toOption_readSource_eq {path other : Path} (h : tree.locate path = tree.locate other)
    (hname : path.fileName = other.fileName) :
    (tree.readSource path).toOption = (tree.readSource other).toOption := by
  have hsource : ∀ path : Path, (tree.readSource path).toOption =
      (tree.readText path).toOption.map fun text =>
        Syntax.SyntaxTree.ofText text (Path.extensionOf path.fileName) := by
    intro path
    rw [readSource, Path.extension]
    cases tree.readText path <;> rfl
  rw [hsource, hsource, toOption_readText_eq h, hname]

end FileTree

namespace FeatureImports

open FileTree Syntax

variable {context context' : Context} {tree : FileTree} {place : List Text}

/-- Does the way to the sources turn back anywhere? -/
def TurnsBack (context : Context) : Prop := parentName ∈ context.sourceRoot.names

instance : DecidablePred TurnsBack := fun context =>
  inferInstanceAs (Decidable (parentName ∈ context.sourceRoot.names))

/-- What a violation tells besides the file and the words: the line and the two features. -/
def told (violation : Violation) : Option Int × Option Text × Option Text :=
  (violation.line, violation.fromFeature, violation.toFeature)

theorem featuresFolder_names (context : Context) :
    context.featuresFolder.names = context.sourceRoot.names ++ ["app".toList, "features".toList] :=
  List.append_assoc ..

/-! ## Imports -/

/-- A relative import leads to a way with nothing to turn back in it. -/
theorem resolve_cons {file : Path} (habsolute : file.anchor ≠ .relative) (rest : Text) :
    resolve file ('.' :: rest) = some ⟨file.anchor,
      Path.fold true (file.parent.names ++ Path.namesOfText ('.' :: rest))⟩ := by
  have hjoin : file.parent.join (Path.ofText ('.' :: rest)) =
      ⟨file.anchor, file.parent.names ++ Path.namesOfText ('.' :: rest)⟩ := rfl
  rw [resolve, hjoin, Path.normalize]
  dsimp only
  rw [decide_eq_true habsolute, Path.fold]

/-- Below a folder whose way turns back no import is found to lead anywhere. -/
theorem crossing?_eq_none_of_turnsBack {features file : Path} {own : Text}
    {reference : ImportReference} (habsolute : file.anchor ≠ .relative)
    (h : parentName ∈ features.names) : crossing? features file own reference = none := by
  unfold crossing?
  cases htarget : resolve file reference.specifier with
  | none => rfl
  | some target =>
    cases hother : featureOf features target with
    | none => rw [Option.bind_eq_bind, Option.bind_some, hother]; rfl
    | some other =>
      exfalso
      obtain ⟨-, rest, hnames⟩ := featureOf_eq_some_iff.1 hother
      have hnormal : Path.IsNormal true target.names := by
        cases hspecifier : reference.specifier with
        | nil => rw [hspecifier] at htarget; cases htarget
        | cons c more =>
          rw [hspecifier] at htarget
          by_cases hdot : c = '.'
          · rw [hdot, resolve_cons habsolute] at htarget
            rw [← Option.some.inj htarget]
            exact Path.isNormal_fold true _
          · unfold resolve at htarget
            split at htarget
            · next heq => exact absurd (List.cons.inj heq).1 hdot
            · cases htarget
      exact (hnames ▸ hnormal).of_append.parentName_notMem h

/-- Where an import leads is a matter of names: both kinds of root are alike. -/
theorem crossing?_congr {anchor anchor' : Anchor} (h : anchor ≠ .relative)
    (h' : anchor' ≠ .relative) (features names : List Text) (own : Text)
    (reference : ImportReference) :
    crossing? ⟨anchor, features⟩ ⟨anchor, names⟩ own reference =
      crossing? ⟨anchor', features⟩ ⟨anchor', names⟩ own reference := by
  have hfeature : ∀ target, featureOf ⟨anchor, features⟩ ⟨anchor, target⟩ =
      featureOf ⟨anchor', features⟩ ⟨anchor', target⟩ := by
    intro target
    rw [featureOf, featureOf, Path.namesBelow?, Path.namesBelow?, decide_eq_true rfl,
      decide_eq_true rfl]
  unfold crossing?
  cases hspecifier : reference.specifier with
  | nil => rfl
  | cons c more =>
    by_cases hdot : c = '.'
    · have hparent : ∀ anchor, (Path.mk anchor names).parent.names = names.dropLast := fun _ => rfl
      rw [hdot, resolve_cons h, resolve_cons h', hparent, hparent, Option.bind_eq_bind,
        Option.bind_eq_bind, Option.bind_some, Option.bind_some, hfeature]
    · have hnone : ∀ file, resolve file (c :: more) = none := by
        intro file
        unfold resolve
        split
        · next heq => exact absurd (List.cons.inj heq).1 hdot
        · rfl
      rw [hnone, hnone]
      rfl

/-! ## Files -/

/-- What is told of an import that crosses over. -/
def Crossing.told (crossing : Crossing) : Option Int × Option Text × Option Text :=
  (some (Int.ofNat crossing.line), some crossing.fromFeature, some crossing.toFeature)

/-- The path of the file at these names below the folder of features. -/
def fileBelow (context : Context) (names : List Text) : Path :=
  ⟨context.featuresFolder.anchor, context.featuresFolder.names ++ names⟩

theorem fileName_fileBelow (context : Context) (own : Text) (below : List Text) :
    (fileBelow context (own :: below)).fileName = (own :: below).getLast (List.cons_ne_nil _ _) := by
  rw [Path.fileName, fileBelow, List.getLastD_eq_getLast?, List.getLast?_append,
    List.getLast?_eq_some_getLast (List.cons_ne_nil _ _)]
  rfl

/-- What is told of the file at these names below the folder of features. -/
def tellings (context : Context) (tree : FileTree) (names : List Text) :
    List (Option Int × Option Text × Option Text) :=
  (violationsIn context tree (fileBelow context names)).map told

/-- What is told of that file if none of its imports crosses over. -/
def silence (context : Context) (tree : FileTree) : List Text →
    List (Option Int × Option Text × Option Text)
  | [] => []
  | own :: below =>
    (tree.readSource (fileBelow context (own :: below))).toOption.elim [(none, none, none)] fun _ => []

theorem tellings_nil (context : Context) (tree : FileTree) : tellings context tree [] = [] := by
  have hbelow : context.featuresFolder.namesBelow? (fileBelow context []) = some [] :=
    Path.namesBelow?_eq_some_iff.2 ⟨rfl, rfl⟩
  have hfeature : featureOf context.featuresFolder (fileBelow context []) = none := by
    rw [featureOf, hbelow]
    rfl
  rw [tellings, violationsIn, hfeature]
  rfl

theorem tellings_cons (context : Context) (tree : FileTree) (own : Text) (below : List Text) :
    tellings context tree (own :: below) =
      (tree.readSource (fileBelow context (own :: below))).toOption.elim [(none, none, none)]
        fun source => (crossings context.featuresFolder (fileBelow context (own :: below)) own
          source.root).map Crossing.told := by
  have hfeature : featureOf context.featuresFolder (fileBelow context (own :: below)) = some own :=
    featureOf_eq_some_iff.2 ⟨rfl, below, rfl⟩
  rw [tellings, violationsIn, hfeature]
  dsimp only
  cases tree.readSource (fileBelow context (own :: below)) with
  | error fault => rfl
  | ok source =>
    show List.map told (List.map _ _) = List.map _ _
    rw [List.map_map]
    rfl

theorem tellings_eq_silence_iff (context : Context) (tree : FileTree) (names : List Text) :
    tellings context tree names = silence context tree names ↔
      ∀ telling ∈ tellings context tree names, telling.2.2 = none := by
  cases names with
  | nil => simp [tellings_nil, silence]
  | cons own below =>
    rw [tellings_cons, silence]
    cases (tree.readSource (fileBelow context (own :: below))).toOption with
    | none => simp
    | some source =>
      simp only [Option.elim_some, List.map_eq_nil_iff, List.forall_mem_map, Crossing.told,
        reduceCtorEq, imp_false]
      exact List.eq_nil_iff_forall_not_mem

theorem tellings_of_turnsBack (habsolute : context.sourceRoot.anchor ≠ .relative)
    (h : TurnsBack context) (names : List Text) :
    tellings context tree names = silence context tree names := by
  cases names with
  | nil => exact tellings_nil context tree
  | cons own below =>
    have hdots : parentName ∈ context.featuresFolder.names := by
      rw [featuresFolder_names]
      exact List.mem_append_left _ h
    have hnone : ∀ root, crossings context.featuresFolder (fileBelow context (own :: below)) own root =
        [] := by
      intro root
      rw [crossings, List.filterMap_eq_nil_iff]
      exact fun reference _ => crossing?_eq_none_of_turnsBack habsolute hdots
    rw [tellings_cons, silence]
    simp only [hnone, List.map_nil]

/-! ## Two ways to one folder -/

section

variable (hplace : tree.locate context.sourceRoot = .ok place)
  (hplace' : tree.locate context'.sourceRoot = .ok place)

include hplace hplace'

theorem toOption_readSource_fileBelow {own : Text} {below : List Text}
    (hnames : ∀ name ∈ own :: below, IsName name) :
    (tree.readSource (fileBelow context (own :: below))).toOption =
      (tree.readSource (fileBelow context' (own :: below))).toOption := by
  have hall : ∀ name ∈ "app".toList :: "features".toList :: own :: below, IsName name := by
    rw [List.forall_mem_cons, List.forall_mem_cons]
    exact ⟨by decide, by decide, hnames⟩
  have hpath : ∀ context, fileBelow context (own :: below) = ⟨context.sourceRoot.anchor,
      context.sourceRoot.names ++ "app".toList :: "features".toList :: own :: below⟩ := by
    intro context
    rw [fileBelow, featuresFolder_names, List.append_assoc]
    rfl
  refine toOption_readSource_eq ?_ (by rw [fileName_fileBelow, fileName_fileBelow])
  rw [hpath, hpath, locate_append hplace hall, locate_append hplace' hall]

theorem silence_eq {names : List Text} (hnames : ∀ name ∈ names, IsName name) :
    silence context tree names = silence context' tree names := by
  cases names with
  | nil => rfl
  | cons own below =>
    rw [silence, silence, toOption_readSource_fileBelow hplace hplace' hnames]

/-- Where neither way turns back, the names of the two are the same. -/
theorem tellings_eq_of_straight (habsolute : context.sourceRoot.anchor ≠ .relative)
    (habsolute' : context'.sourceRoot.anchor ≠ .relative) (h : ¬TurnsBack context)
    (h' : ¬TurnsBack context') {names : List Text} (hnames : ∀ name ∈ names, IsName name) :
    tellings context tree names = tellings context' tree names := by
  cases names with
  | nil => rw [tellings_nil, tellings_nil]
  | cons own below =>
    have hsame : context.featuresFolder.names = context'.featuresFolder.names := by
      rw [featuresFolder_names, featuresFolder_names, names_eq_of_locate hplace h,
        names_eq_of_locate hplace' h']
    have hcrossings : ∀ root, crossings context.featuresFolder (fileBelow context (own :: below)) own root =
        crossings context'.featuresFolder (fileBelow context' (own :: below)) own root := by
      intro root
      rw [crossings, crossings]
      congr 1
      funext reference
      have hfeatures : context'.featuresFolder =
          ⟨context'.featuresFolder.anchor, context.featuresFolder.names⟩ := by rw [hsame]
      rw [fileBelow, fileBelow, hfeatures]
      exact crossing?_congr habsolute habsolute' context.featuresFolder.names
        (context.featuresFolder.names ++ own :: below) own reference
    rw [tellings_cons, tellings_cons, toOption_readSource_fileBelow hplace hplace' hnames]
    simp only [hcrossings]

end

/-- The names that lead to the source files below the folder of features. -/
def sourceNames (context : Context) (tree : FileTree) : List (List Text) :=
  let found := tree.entry? context.featuresFolder
  found.elim [] fun features => filesWithin [".ts"] context.settings.ignoredFolders features.sorted

theorem map_told_violations (context : Context) (tree : FileTree) :
    (check context tree).violations.map told =
      (sourceNames context tree).flatMap (tellings context tree) := by
  have hviolations : (check context tree).violations =
      if tree.hasFolder context.featuresFolder then
        (sourceFiles context tree).flatMap (violationsIn context tree) else [] := rfl
  rw [hviolations, sourceNames, hasFolder, sourceFiles, collectFiles]
  cases tree.entry? context.featuresFolder with
  | none => rfl
  | some entry =>
    cases entry with
    | file bytes => rfl
    | folder entries =>
      rw [Option.any_some, isFolder, if_pos rfl, List.map_flatMap, List.flatMap_map]
      rfl

theorem isName_of_mem_sourceNames (hwf : tree.WellFormed) {names : List Text}
    (h : names ∈ sourceNames context tree) : ∀ name ∈ names, IsName name := by
  rw [sourceNames] at h
  cases hentry : tree.entry? context.featuresFolder with
  | none => rw [hentry] at h; cases h
  | some entry =>
    rw [hentry] at h
    exact isName_of_mem_filesWithin ( wellFormed_of_entry? hwf hentry) h

theorem forall_told_iff {violations : List Violation} :
    (∀ telling ∈ violations.map told, telling.2.2 = none) ↔
      ∀ violation ∈ violations, violation.toFeature = none := by
  rw [List.forall_mem_map]
  exact Iff.rfl

/-- No import between features is told of exactly if every file is told of as if it had none. -/
theorem forall_toFeature_eq_none_iff (context : Context) (tree : FileTree) :
    (∀ violation ∈ (check context tree).violations, violation.toFeature = none) ↔
      ∀ names ∈ sourceNames context tree, tellings context tree names = silence context tree names := by
  rw [← forall_told_iff, map_told_violations, List.forall_mem_flatMap]
  simp only [tellings_eq_silence_iff]

theorem toFeature_eq_none_of_turnsBack (tree : FileTree) (habsolute : context.sourceRoot.anchor ≠ .relative)
    (h : TurnsBack context) :
    ∀ violation ∈ (check context tree).violations, violation.toFeature = none :=
  (forall_toFeature_eq_none_iff context tree).2 fun names _ =>
    tellings_of_turnsBack habsolute h names

theorem select_eq_ok {root : Path} {manifest : Manifest} {settings : Settings} {asked : Option Text}
    (hroot : root.anchor ≠ .relative)
    (h : Workspace.select root manifest settings asked = .ok context) :
    context.sourceRoot.anchor ≠ .relative ∧ context.settings = settings := by
  unfold Workspace.select at h
  split at h
  · cases h
  · split at h
    · cases h
    · rw [← Except.ok.inj h]
      refine ⟨?_, rfl⟩
      unfold Path.join
      split
      · exact hroot
      · next hanchor => exact hanchor

/-- What the check tells by either of two ways to write one source root is the same exactly if both
turn back or neither does, or there is no import between features to tell of. -/
theorem told_eq_iff {root : Path} {manifest manifest' : Manifest} {settings : Settings}
    {asked : Option Text} (hwf : tree.WellFormed) (hroot : root.anchor ≠ .relative)
    (h : Workspace.select root manifest settings asked = .ok context)
    (h' : Workspace.select root manifest' settings asked = .ok context')
    (hplace : tree.locate context.sourceRoot = .ok place)
    (hplace' : tree.locate context'.sourceRoot = .ok place) :
    (check context tree).violations.map told = (check context' tree).violations.map told ↔
      (TurnsBack context ↔ TurnsBack context') ∨
        ∀ violation ∈ (check context tree).violations ++ (check context' tree).violations,
          violation.toFeature = none := by
  obtain ⟨habsolute, hsettings⟩ := select_eq_ok hroot h
  obtain ⟨habsolute', hsettings'⟩ := select_eq_ok hroot h'
  have hsources : sourceNames context tree = sourceNames context' tree := by
    have hnames : ∀ name ∈ ["app".toList, "features".toList], IsName name := by decide
    have hpath : ∀ context : Context, context.featuresFolder = ⟨context.sourceRoot.anchor,
        context.sourceRoot.names ++ ["app".toList, "features".toList]⟩ := by
      intro context
      rw [← featuresFolder_names]
      rfl
    have hentry : tree.entry? context.featuresFolder = tree.entry? context'.featuresFolder := by
      rw [hpath, hpath context', entry?_append hplace hnames, entry?_append hplace' hnames]
    rw [sourceNames, sourceNames, hentry, hsettings, hsettings']
  -- where nothing is told of imports, the same is told of the files that cannot be read
  have hsilent : (∀ violation ∈ (check context tree).violations, violation.toFeature = none) →
      (∀ violation ∈ (check context' tree).violations, violation.toFeature = none) →
      (check context tree).violations.map told = (check context' tree).violations.map told := by
    rw [forall_toFeature_eq_none_iff, forall_toFeature_eq_none_iff, map_told_violations,
      map_told_violations, hsources]
    intro htold htold'
    refine List.flatMap_congr fun names hnames => ?_
    rw [htold names hnames, htold' names hnames,
      silence_eq hplace hplace' (isName_of_mem_sourceNames hwf hnames)]
  have hback := toFeature_eq_none_of_turnsBack tree habsolute
  have hback' := toFeature_eq_none_of_turnsBack tree habsolute'
  rw [List.forall_mem_append]
  constructor
  · intro heq
    have hboth : (∀ violation ∈ (check context tree).violations, violation.toFeature = none) ↔
        ∀ violation ∈ (check context' tree).violations, violation.toFeature = none := by
      rw [← forall_told_iff, heq, forall_told_iff]
    by_cases hturns : TurnsBack context
    · exact .inr ⟨hback hturns, hboth.1 (hback hturns)⟩
    · by_cases hturns' : TurnsBack context'
      · exact .inr ⟨hboth.2 (hback' hturns'), hback' hturns'⟩
      · exact .inl (iff_of_false hturns hturns')
  · rintro (hiff | ⟨htold, htold'⟩)
    · by_cases hturns : TurnsBack context
      · exact hsilent (hback hturns) (hback' (hiff.1 hturns))
      · rw [map_told_violations, map_told_violations, hsources]
        exact List.flatMap_congr fun names hnames =>
          tellings_eq_of_straight hplace hplace' habsolute habsolute' hturns (mt hiff.2 hturns)
            (isName_of_mem_sourceNames hwf hnames)
    · exact hsilent htold htold'

/-! ## A detour -/

/-- A manifest of one application with this source root. -/
def manifestWith (sourceRoot : Text) : Manifest :=
  ⟨[("projects", .object [("demo", .object
    [("projectType", .text "application"), ("sourceRoot", .text sourceRoot)])])]⟩

/-- The source of a feature that imports from another one. -/
def crossingText : Text := "import '../shop/shop.state';\n"

/-- The folder of features with that one file. -/
def crossingFeatures : FileTree :=
  .folder [("cart", .folder [("cart.page.ts", .file (Text.Utf8.encode crossingText))])]

/-- The sources with those features, and another folder beside them. -/
def detourTree : FileTree :=
  .folder [("libs", empty), ("src", .folder [("app", .folder [("features", crossingFeatures)])])]

/-- The workspace with this source root. -/
def contextWith (sourceRoot : Text) : Context :=
  { root := ⟨.root, []⟩
    manifest := manifestWith sourceRoot
    projectName := "demo"
    project := [("projectType", .text "application"), ("sourceRoot", .text sourceRoot)]
    sourceRoot := Path.join ⟨.root, []⟩ (Path.ofText sourceRoot)
    settings := {} }

theorem told_detourTree {context : Context}
    (hentry : detourTree.entry? context.featuresFolder = some crossingFeatures)
    (hbytes : detourTree.read (fileBelow context ["cart".toList, "cart.page.ts".toList]) =
      .ok (Text.Utf8.encode crossingText))
    (hkept : context.settings.ignoredFolders.contains "cart".toList = false) :
    (check context detourTree).violations.map told =
      (crossings context.featuresFolder (fileBelow context ["cart".toList, "cart.page.ts".toList])
        "cart" (SyntaxTree.ofTokens false (Syntax.place (Feature.lexemesOf crossingText))).root).map
          Crossing.told := by
  have hsuffix : hasSuffix [".ts"] "cart.page.ts" = true := by decide
  have hnames : sourceNames context detourTree = [["cart".toList, "cart.page.ts".toList]] := by
    rw [sourceNames, hentry, crossingFeatures]
    simp only [Option.elim_some, sorted, sortedEach, List.mergeSort_singleton, filesWithin, filesAmong,
      hsuffix, hkept]
    rfl
  have hread : detourTree.readSource (fileBelow context ["cart".toList, "cart.page.ts".toList]) =
      .ok (SyntaxTree.ofTokens false (Syntax.place (Feature.lexemesOf crossingText))) := by
    have hmarkup : SyntaxTree.hasMarkup
        (fileBelow context ["cart".toList, "cart.page.ts".toList]).extension = false := by
      rw [Path.extension, fileName_fileBelow]
      decide
    rw [readSource, readText, hbytes, Feature.lexemesOf_eq]
    dsimp only
    rw [Text.ofBytes_encode (by decide)]
    dsimp only
    rw [SyntaxTree.ofText, hmarkup, SyntaxTree.tokens]
  rw [map_told_violations, hnames, List.flatMap_singleton, tellings_cons, hread]
  rfl

theorem told_src : (check (contextWith "src") detourTree).violations.map told =
    [(some 1, some "cart".toList, some "shop".toList)] := by
  rw [told_detourTree rfl rfl (by decide)]
  decide +kernel

/-- One of the two ways turns back, and there is an import to tell of. -/
theorem told_eq_iff_detour : ¬(check (contextWith "src") detourTree).violations.map told =
    (check (contextWith "libs/../src") detourTree).violations.map told := by
  have hselect : Workspace.select ⟨.root, []⟩ (manifestWith "src") {} none =
      .ok (contextWith "src") := rfl
  have hselect' : Workspace.select ⟨.root, []⟩ (manifestWith "libs/../src") {} none =
      .ok (contextWith "libs/../src") := rfl
  have hplace : detourTree.locate (contextWith "src").sourceRoot = .ok ["src".toList] := rfl
  have hplace' : detourTree.locate (contextWith "libs/../src").sourceRoot = .ok ["src".toList] := rfl
  rw [told_eq_iff (by decide) (by decide) hselect hselect' hplace hplace']
  rintro (hiff | hnone)
  · exact absurd (hiff.2 (by decide)) (by decide)
  · have htold := forall_told_iff.2 fun violation h => hnone violation (List.mem_append_left _ h)
    rw [told_src] at htold
    cases htold _ (List.mem_singleton_self _)

/-- The import is told of if the source root is written straight, and not if it turns back. -/
theorem told_ne_of_detour : ∃ context context',
    Workspace.select ⟨.root, []⟩ (manifestWith "src") {} none = .ok context ∧
      Workspace.select ⟨.root, []⟩ (manifestWith "libs/../src") {} none = .ok context' ∧
      detourTree.locate context.sourceRoot = .ok ["src".toList] ∧
      detourTree.locate context'.sourceRoot = .ok ["src".toList] ∧
      (detourTree.get? ["src".toList]).any isFolder = true ∧
      (check context detourTree).violations.map told =
        [(some 1, some "cart".toList, some "shop".toList)] ∧
      (check context' detourTree).violations.map told = [] := by
  refine ⟨contextWith "src", contextWith "libs/../src", rfl, rfl, rfl, rfl, rfl, told_src, ?_⟩
  rw [told_detourTree rfl rfl (by decide)]
  decide +kernel

end FeatureImports

end VerticalSlice
