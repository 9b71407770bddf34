import VerticalSlice.Proofs.Text.Utf8
import VerticalSlice.Proofs.Tree.Listing
import VerticalSlice.Rule.FeatureImports

/-!
# Where a relative import leads

`resolve` puts the specifier behind the folder of the file, as a path, and normalizes the whole.
`destination` says the same by one fold over the segments of the specifier, one step for each:
`follow` stays where it is, goes back or goes down. `resolve_eq_destination` is the agreement of the
two for absolute paths without `..` in them, and from it `violationFor_eq_some_iff` says exactly
which import of a file is a violation of the boundaries: one that leads below the folder of features
into another feature than the file's own.
-/

namespace VerticalSlice.FeatureImports

open Syntax

/-- One step along a segment of a specifier. At the root there is nothing to go back to. -/
def follow (way : List Text) (segment : Text) : List Text :=
  if segment = [] ∨ segment = ['.'] then way
  else if segment = parentName then way.dropLast
  else way ++ [segment]

/-- The way that a specifier leads to from a folder. -/
def destination (folder : List Text) (specifier : Text) : List Text :=
  (Text.splitOn '/' specifier).foldl follow folder

/-- A relative specifier in `file` leads below the folder of features, to the feature `other`. -/
def LeadsInto (features file : Path) (specifier other : Text) : Prop :=
  specifier.head? = some '.' ∧
    ∃ rest, destination file.parent.names specifier = features.names ++ other :: rest

/-- The violation that the check makes of an import in a file of the feature `own`, if it makes
one. -/
def violationFor (context : Context) (path : Path) (own : Text) (reference : ImportReference) :
    Option Violation :=
  (crossing? context.featuresFolder path own reference).map (·.inFile (context.relative path))

/-! ## One fold for the whole way -/

theorem foldl_follow_filter (folder : List Text) (segments : List Text) :
    (segments.filter fun name => name ≠ [] && name ≠ ['.']).foldl follow folder =
      segments.foldl follow folder := by
  induction segments generalizing folder with
  | nil => rfl
  | cons segment segments ih =>
    by_cases hskip : segment = [] ∨ segment = ['.']
    · rw [List.filter_cons_of_neg (by rcases hskip with h | h <;> simp [h]), ih, List.foldl_cons,
        follow, if_pos hskip]
    · rw [not_or] at hskip
      rw [List.filter_cons_of_pos (by simp [hskip]), List.foldl_cons, List.foldl_cons, ih]

/-- On an absolute way without `..` one step of normalizing is one step along a segment. -/
theorem step_eq_follow {way : List Text} {name : Text} (hway : parentName ∉ way)
    (hname : name ≠ [] ∧ name ≠ ['.']) : Path.step true way name = follow way name := by
  unfold Path.step follow
  rw [if_neg (by simp [hname] : ¬(name = [] ∨ name = ['.']))]
  by_cases hparent : name = parentName
  · rw [if_neg (by simp [hparent]), if_pos hparent]
    split
    · next hnil => simp [hnil]
    · split
      · next hlast => exact absurd (List.mem_of_getLast? hlast) hway
      · rfl
  · rw [if_pos hparent, if_neg hparent]

theorem parentName_notMem_follow {way : List Text} (hway : parentName ∉ way) (name : Text) :
    parentName ∉ follow way name := by
  unfold follow
  split
  · exact hway
  · split
    · exact fun h => hway (List.dropLast_subset way h)
    · next hne =>
      rw [List.mem_append, List.mem_singleton, not_or]
      exact ⟨hway, fun h => hne h.symm⟩

theorem foldl_step_eq {names : List Text} :
    ∀ {way : List Text}, parentName ∉ way → (∀ name ∈ names, name ≠ [] ∧ name ≠ ['.']) →
      names.foldl (Path.step true) way = names.foldl follow way := by
  induction names with
  | nil => intro way _ _; rfl
  | cons name names ih =>
    intro way hway hnames
    rw [List.foldl_cons, List.foldl_cons,
      step_eq_follow hway (hnames name (List.mem_cons_self ..))]
    exact ih (parentName_notMem_follow hway name)
      fun other hother => hnames other (List.mem_cons_of_mem _ hother)

/-- Normalizing leaves an absolute way alone that has no `..` in it. -/
theorem foldl_step_self {names : List Text} :
    ∀ {way : List Text}, parentName ∉ names → names.foldl (Path.step true) way = way ++ names := by
  induction names with
  | nil => intro way _; simp
  | cons name names ih =>
    intro way h
    rw [List.mem_cons, not_or] at h
    rw [List.foldl_cons, Path.step, if_pos (Ne.symm h.1), ih h.2, List.append_assoc,
      List.singleton_append]

/-- A relative specifier leads where the fold over its segments leads. -/
theorem resolve_eq_destination {file : Path} {specifier : Text} (hroot : file.anchor ≠ .relative)
    (hdots : parentName ∉ file.parent.names) (hdot : specifier.head? = some '.') :
    resolve file specifier = some ⟨file.anchor, destination file.parent.names specifier⟩ := by
  obtain ⟨rest, rfl⟩ : ∃ rest, specifier = '.' :: rest := by
    cases specifier with
    | nil => simp at hdot
    | cons c rest => exact ⟨rest, by simpa using hdot⟩
  have hnames : ∀ name ∈ Path.namesOfText ('.' :: rest), name ≠ [] ∧ name ≠ ['.'] := by
    intro name hname
    simpa [Path.namesOfText] using (List.mem_filter.1 hname).2
  have hjoin : file.parent.join (Path.ofText ('.' :: rest)) =
      ⟨file.anchor, file.parent.names ++ Path.namesOfText ('.' :: rest)⟩ := rfl
  rw [resolve, hjoin, Path.normalize]
  dsimp only
  rw [decide_eq_true hroot, List.foldl_append, foldl_step_self hdots, List.nil_append,
    foldl_step_eq hdots hnames, Path.namesOfText, foldl_follow_filter]
  rfl

/-! ## Which import is a violation -/

theorem featureOf_eq_some_iff {features path : Path} {feature : Text} :
    featureOf features path = some feature ↔
      features.anchor = path.anchor ∧ ∃ rest, path.names = features.names ++ feature :: rest := by
  constructor
  · intro h
    obtain ⟨names, hnames, hhead⟩ := Option.bind_eq_some_iff.1 h
    obtain ⟨hanchor, hpath⟩ := Path.namesBelow?_eq_some_iff.1 hnames
    cases names with
    | nil => simp at hhead
    | cons first rest =>
      rw [List.head?_cons, Option.some.injEq] at hhead
      exact ⟨hanchor, rest, hhead ▸ hpath⟩
  · rintro ⟨hanchor, rest, hpath⟩
    rw [featureOf, Path.namesBelow?_eq_some_iff.2 ⟨hanchor, hpath⟩]
    rfl

/-- An import is a violation exactly if it leads into another feature. -/
theorem violationFor_eq_some_iff {context : Context} {path : Path} {own : Text}
    {reference : ImportReference} {violation : Violation} (hroot : path.anchor ≠ .relative)
    (hdots : parentName ∉ path.parent.names)
    (hanchor : context.featuresFolder.anchor = path.anchor) :
    violationFor context path own reference = some violation ↔
      ∃ other, LeadsInto context.featuresFolder path reference.specifier other ∧ other ≠ own ∧
        violation = {
          file := some (context.relative path)
          message := (Crossing.mk reference.specifier reference.line own other).message
          line := some (Int.ofNat reference.line)
          fromFeature := some own
          toFeature := some other } := by
  by_cases hdot : reference.specifier.head? = some '.'
  · rw [violationFor, crossing?, resolve_eq_destination hroot hdots hdot]
    simp only [Option.bind_eq_bind, Option.bind_some, Option.map_eq_some_iff,
      Option.bind_eq_some_iff, featureOf_eq_some_iff]
    constructor
    · rintro ⟨crossing, ⟨other, ⟨-, hrest⟩, hcrossing⟩, rfl⟩
      split at hcrossing
      · simp at hcrossing
      · next hne =>
        rw [Option.some.injEq] at hcrossing
        exact ⟨other, ⟨hdot, hrest⟩, hne, by rw [← hcrossing]; rfl⟩
    · rintro ⟨other, ⟨-, hrest⟩, hne, rfl⟩
      exact ⟨_, ⟨other, ⟨hanchor, hrest⟩, if_neg hne⟩, rfl⟩
  · have hnone : resolve path reference.specifier = none := by
      unfold resolve
      split
      · next heq => simp [heq] at hdot
      · rfl
    rw [violationFor, crossing?, hnone]
    constructor
    · intro h
      simp at h
    · rintro ⟨other, ⟨h, -⟩, -⟩
      exact absurd h hdot

/-! ## Imports that stay inside -/

/-- Going back at most as far as the way down leads does not leave the way before it. -/
theorem foldl_follow_replicate {start down : List Text} :
    ∀ {count : Nat}, count ≤ down.length →
      (List.replicate count parentName).foldl follow (start ++ down) =
        start ++ down.take (down.length - count) := by
  intro count
  induction count generalizing down with
  | zero => intro _; simp
  | succ count ih =>
    intro hcount
    have hne : down ≠ [] := by
      intro hnil
      simp [hnil] at hcount
    have hstep : follow (start ++ down) parentName = start ++ down.dropLast := by
      rw [follow, if_neg (by decide), if_pos rfl, List.dropLast_append_of_ne_nil hne]
    rw [List.replicate_succ, List.foldl_cons, hstep, ih (by rw [List.length_dropLast]; omega),
      List.length_dropLast, List.dropLast_eq_take, List.take_take]
    congr 2
    omega

/-- Segments other than `..` only lead further down. -/
theorem foldl_follow_down {start : List Text} {segments : List Text} :
    ∀ (down : List Text), parentName ∉ segments →
      ∃ further, segments.foldl follow (start ++ down) = start ++ further := by
  induction segments with
  | nil => intro down _; exact ⟨down, rfl⟩
  | cons segment segments ih =>
    intro down h
    rw [List.mem_cons, not_or] at h
    rw [List.foldl_cons, follow]
    split
    · exact ih down h.2
    · rw [if_neg (Ne.symm h.1), List.append_assoc]
      exact ih _ h.2

/-- A specifier that goes back at most as many folders as lie between the folder of the feature and
the file, and only at its start, stays in the feature. -/
theorem not_leadsInto_of_shallow {features file : Path} {own name specifier other : Text}
    {folders segments : List Text} {count : Nat}
    (hfile : file.names = features.names ++ own :: folders ++ [name])
    (hcount : count ≤ folders.length) (hsegments : parentName ∉ segments)
    (hspecifier : (Text.splitOn '/' specifier).filter (fun name => name ≠ [] && name ≠ ['.']) =
      List.replicate count parentName ++ segments)
    (hother : other ≠ own) : ¬LeadsInto features file specifier other := by
  rintro ⟨-, rest, hrest⟩
  have hparent : file.parent.names = (features.names ++ [own]) ++ folders := by
    rw [Path.parent, hfile, List.dropLast_concat, List.append_assoc, List.singleton_append]
  rw [destination, ← foldl_follow_filter, hspecifier, List.foldl_append, hparent,
    foldl_follow_replicate hcount] at hrest
  obtain ⟨further, hfurther⟩ := foldl_follow_down (folders.take (folders.length - count)) hsegments
  rw [hfurther, List.append_assoc, List.append_cancel_left_eq] at hrest
  exact hother (List.cons.inj hrest).1.symm

/-! ## The check as a whole -/

theorem violations_check {context : Context} {tree : FileTree}
    (h : tree.hasFolder context.featuresFolder = true) :
    (check context tree).violations =
      (sourceFiles context tree).flatMap (violationsIn context tree) := by
  unfold check
  rw [h]
  rfl

/-- The check looks at every source file below the folder of features on its own. For a file that
can be read it goes through the imports and re-exports in order, and makes a violation of exactly
those that lead into another feature than the one that the file lies in; the violation names both.
In particular an import that goes back no further than the folder of its feature is none. -/
theorem check_violations_exact {context : Context} {tree features : FileTree} {own : Text}
    {below : List Text} {path : Path} {source : SyntaxTree} (hwf : tree.WellFormed)
    (hroot : context.featuresFolder.anchor ≠ .relative)
    (hdots : parentName ∉ context.featuresFolder.names)
    (hfeatures : tree.entry? context.featuresFolder = some features)
    (hfile : FileTree.Lists [".ts"] context.settings.ignoredFolders features (own :: below))
    (hpath : path =
      ⟨context.featuresFolder.anchor, context.featuresFolder.names ++ own :: below⟩)
    (hread : tree.readSource path = .ok source) :
    (path ∈ sourceFiles context tree ∧
        (check context tree).violations =
          (sourceFiles context tree).flatMap (violationsIn context tree) ∧
        violationsIn context tree path =
          (source.root.importReferences true).filterMap (violationFor context path own)) ∧
      (∀ reference violation, violationFor context path own reference = some violation ↔
        ∃ other, LeadsInto context.featuresFolder path reference.specifier other ∧ other ≠ own ∧
          violation = {
            file := some (context.relative path)
            message := (Crossing.mk reference.specifier reference.line own other).message
            line := some (Int.ofNat reference.line)
            fromFeature := some own
            toFeature := some other }) ∧
      ∀ reference folders name count segments, below = folders ++ [name] →
        count ≤ folders.length → parentName ∉ segments →
        (Text.splitOn '/' reference.specifier).filter (fun name => name ≠ [] && name ≠ ['.']) =
          List.replicate count parentName ++ segments →
        violationFor context path own reference = none := by
  have hlisted : path ∈ sourceFiles context tree :=
    (FileTree.mem_collectFiles_iff hwf).2 ⟨features, own :: below, hfeatures, hfile, hpath⟩
  have hfound : tree.hasFolder context.featuresFolder = true := by
    rw [FileTree.hasFolder, hfeatures]
    exact FileTree.isFolder_of_lists hfile
  subst hpath
  have hinside := FileTree.wellFormed_of_entry? hwf hfeatures
  have hproper := FileTree.isName_of_lists hinside hfile
  have hparent : parentName ∉ (Path.parent ⟨context.featuresFolder.anchor,
      context.featuresFolder.names ++ own :: below⟩).names := by
    intro h
    rcases List.mem_append.1 (List.dropLast_subset _ h) with h | h
    · exact hdots h
    · exact (hproper _ h).2.2.1 rfl
  have hexact := fun reference violation =>
    @violationFor_eq_some_iff context ⟨context.featuresFolder.anchor,
      context.featuresFolder.names ++ own :: below⟩ own reference violation hroot hparent rfl
  have hown : featureOf context.featuresFolder ⟨context.featuresFolder.anchor,
      context.featuresFolder.names ++ own :: below⟩ = some own :=
    featureOf_eq_some_iff.2 ⟨rfl, below, rfl⟩
  refine ⟨⟨hlisted, violations_check hfound, ?_⟩, hexact, ?_⟩
  · rw [violationsIn, hown]
    simp only [hread, crossings, List.map_filterMap]
    rfl
  · intro reference folders name count segments hbelow hcount hsegments hspecifier
    rw [Option.eq_none_iff_forall_ne_some]
    intro violation hviolation
    obtain ⟨other, hleads, hother, -⟩ := (hexact reference violation).1 hviolation
    exact not_leadsInto_of_shallow
      (by rw [hbelow]; exact (List.append_assoc _ (own :: folders) [name]).symm)
      hcount hsegments hspecifier hother hleads

/-! ## A small workspace -/

/-- A workspace at the root of the file system with the sources in `src`. -/
def smallContext : Context := ⟨⟨.root, []⟩, ⟨[]⟩, [], [], ⟨.root, ["src"]⟩, {}⟩

/-- A feature with one file that imports from another feature. -/
def smallTree : FileTree :=
  .folder [("src", .folder [("app", .folder [("features", .folder [("cart", .folder [
    ("cart.page.ts", .file (Text.Utf8.encode "import '../shop/shop.state';"))])])])])]

/-- In the file the import of the other feature is a violation, and one that goes down and back
again is none. -/
theorem check_violations_exact_smallTree :
    (violationFor smallContext ⟨.root, ["src", "app", "features", "cart", "cart.page.ts"]⟩ "cart"
        ⟨"../shop/shop.state", 1, .static⟩).isSome ∧
      violationFor smallContext ⟨.root, ["src", "app", "features", "cart", "cart.page.ts"]⟩ "cart"
        ⟨"./pages/../cart.state", 2, .static⟩ = none := by
  have hbytes : smallTree.read ⟨.root, ["src", "app", "features", "cart", "cart.page.ts"]⟩ =
      .ok (Text.Utf8.encode "import '../shop/shop.state';") := rfl
  have hread : smallTree.readSource
      ⟨.root, ["src", "app", "features", "cart", "cart.page.ts"]⟩ =
        .ok (SyntaxTree.ofText "import '../shop/shop.state';" ".ts") := by
    rw [FileTree.readSource, FileTree.readText, hbytes]
    dsimp only
    rw [Text.ofBytes_encode (by decide)]
    rfl
  have h := @check_violations_exact smallContext smallTree
    (.folder [("cart", .folder [
      ("cart.page.ts", .file (Text.Utf8.encode "import '../shop/shop.state';"))])])
    "cart" ["cart.page.ts"] _ _ (by decide) (by decide) (by decide) rfl
    ⟨by decide, rfl, by decide, by decide⟩ rfl hread
  constructor
  · rw [Option.isSome_iff_exists]
    exact ⟨_, (h.2.1 _ _).2 ⟨"shop", ⟨rfl, ["shop.state"], by decide⟩, by decide, rfl⟩⟩
  · rw [Option.eq_none_iff_forall_ne_some]
    intro violation hviolation
    obtain ⟨other, ⟨-, rest, hrest⟩, hother, -⟩ := (h.2.1 _ _).1 hviolation
    have hplace : destination ["src", "app", "features", "cart"] "./pages/../cart.state" =
        (["src", "app", "features", "cart", "cart.state"] : List Text) := by decide
    exact hother (List.cons.inj (List.cons.inj (List.cons.inj (List.cons.inj
      (hplace.symm.trans hrest)).2).2).2).1.symm

end VerticalSlice.FeatureImports
