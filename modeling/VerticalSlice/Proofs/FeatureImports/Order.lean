import VerticalSlice.Proofs.Check.Unreadable
import VerticalSlice.Proofs.Syntax.Lines
import VerticalSlice.Proofs.Tree.Collection

/-!
# The order of cross-feature imports

Imports from one feature into another are told file by file and down each file (`violations_inOrder`). The files
come in the order of the names that lead to them, which is not that of the paths as they are written: `a/b.ts`
comes before `a-b.ts`. In a file the order is that of the walk through its tree, and the walk goes down the text,
however imports, exports and calls of `import` are nested in one another. A file that cannot be read has one
violation, which has no line, and so nothing else is told of it.

The names are those of the path that leads to the file. What is shown of it is as good, as long as the folder of
features lies in the workspace; otherwise the workspace may lie in one of the features, and then some files are
shown from its root and others are not.
-/

namespace VerticalSlice

open FileTree

variable {context : Context} {tree : FileTree} {path : Path}

/-- The path of the file that is shown like this. -/
def Context.pathOf (context : Context) (file : Text) : Path := context.root.join (Path.ofText file)

/-- The one violation comes before the other: by the names that lead to their files, and in one file by lines. -/
inductive Violation.InOrder (names : Text → List Text) (first second : Violation) : Prop
  | files {file other : Text} (hfirst : first.file = some file) (hsecond : second.file = some other)
    (hnames : WayBefore (names file) (names other))
  | lines {line later : Int} (hfile : first.file = second.file) (hfirst : first.line = some line)
    (hsecond : second.line = some later) (hlines : line ≤ later)

/-- If one element of a list gives just what is kept, and no other gives any of it, that is all that is kept. -/
theorem filter_flatMap_eq {α β : Type} {list : List α} {look : α → List β} {keep : β → Bool} {a : α}
    (hnodup : list.Nodup) (ha : a ∈ list) (hkept : ∀ b ∈ look a, keep b = true)
    (hleft : ∀ other ∈ list, other ≠ a → ∀ b ∈ look other, keep b = false) :
    (list.flatMap look).filter keep = look a := by
  obtain ⟨front, back, rfl⟩ := List.append_of_mem ha
  rw [List.nodup_middle, List.nodup_cons, List.mem_append, not_or] at hnodup
  have hnone : ∀ part : List α, part ⊆ front ++ a :: back → a ∉ part → (part.flatMap look).filter keep = [] := by
    intro part hpart hnot
    rw [List.filter_eq_nil_iff]
    intro b hb
    obtain ⟨other, hother, hb⟩ := List.mem_flatMap.1 hb
    rw [hleft other (hpart hother) (fun heq => hnot (heq ▸ hother)) b hb]
    exact Bool.false_ne_true
  rw [List.flatMap_append, List.flatMap_cons, List.filter_append, List.filter_append,
    hnone front (List.subset_append_left ..) hnodup.1.1,
    hnone back (fun _ h => List.mem_append_right _ (List.mem_cons_of_mem _ h)) hnodup.1.2,
    List.filter_eq_self.2 hkept, List.nil_append, List.append_nil]

namespace Syntax.Node

theorem line_of_importReference? {includeDeferred : Bool} {node : Node} {reference : ImportReference}
    (h : node.importReference? includeDeferred = some reference) : reference.line = node.line := by
  unfold importReference? at h
  repeat' split at h
  all_goals first
    | cases h
    | obtain ⟨specifier, -, rfl⟩ := Option.map_eq_some_iff.1 h
      rfl

/-- Where the walk goes down the lines, so do the imports that are met on it. -/
theorem pairwise_line_importReferences {root : Node} (h : (root.walk.map Node.line).Pairwise (· ≤ ·))
    (includeDeferred : Bool) :
    (root.importReferences includeDeferred).Pairwise fun first second => first.line ≤ second.line := by
  refine (List.pairwise_map.1 h).filterMap _ fun node other hle reference hreference later hlater => ?_
  rw [line_of_importReference? hreference, line_of_importReference? hlater]
  exact hle

end Syntax.Node

namespace FeatureImports

open Syntax

theorem line_of_crossing? {features file : Path} {own : Text} {reference : ImportReference} {crossing : Crossing}
    (h : crossing? features file own reference = some crossing) : crossing.line = reference.line := by
  obtain ⟨target, -, h⟩ := Option.bind_eq_some_iff.1 h
  obtain ⟨other, -, h⟩ := Option.bind_eq_some_iff.1 h
  split at h
  · cases h
  · rw [← Option.some.inj h]

theorem pairwise_line_crossings {root : Node} (h : (root.walk.map Node.line).Pairwise (· ≤ ·))
    (features file : Path) (own : Text) : (crossings features file own root).Pairwise fun first second => first.line ≤ second.line := by
  refine (Node.pairwise_line_importReferences h true).filterMap _ fun reference other hle crossing hcrossing
    later hlater => ?_
  rw [line_of_crossing? hcrossing, line_of_crossing? hlater]
  exact hle

/-! ## One file -/

/-- All that is told of one file has a line, unless it is the only thing, and the lines go down the file. -/
theorem pairwise_violationsIn (context : Context) (tree : FileTree) (path : Path) (names : Text → List Text) :
    (violationsIn context tree path).Pairwise (Violation.InOrder names) := by
  unfold violationsIn
  split
  · exact .nil
  · next own hown =>
    dsimp only
    cases hsource : tree.readSource path with
    | error fault => exact List.pairwise_singleton _ _
    | ok source =>
      have hwalk : (source.root.walk.map Node.line).Pairwise (· ≤ ·) := by
        unfold readSource at hsource
        split at hsource
        · cases hsource
        · next text htext =>
          rw [← Except.ok.inj hsource]
          exact pairwise_line_walk text path.extension
      refine List.pairwise_map.2 ((pairwise_line_crossings hwalk context.featuresFolder path own).imp ?_)
      exact fun hle => .lines rfl rfl rfl (Int.ofNat_le.2 hle)

/-- Nothing else is told of a file that cannot be read. -/
theorem violationsIn_of_unreadable {own : Text} {fault : ReadFault}
    (hown : featureOf context.featuresFolder path = some own) (h : tree.readSource path = .error fault) :
    violationsIn context tree path = [Violation.unreadable (context.relative path) fault] := by
  rw [violationsIn, hown]
  dsimp only
  rw [h]

/-- Only of a file that cannot be read something is told without a line. -/
theorem exists_fault_of_line_eq_none {violation : Violation} (h : violation ∈ violationsIn context tree path)
    (hline : violation.line = none) : ∃ fault, tree.readSource path = .error fault := by
  unfold violationsIn at h
  split at h
  · cases h
  · dsimp only at h
    split at h
    · next fault hfault => exact ⟨fault, hfault⟩
    · obtain ⟨crossing, -, rfl⟩ := List.mem_map.1 h
      cases hline

/-! ## All files -/

theorem mem_sourceFiles_iff (hwf : tree.WellFormed) :
    path ∈ sourceFiles context tree ↔ IsListed context tree context.featuresFolder [".ts"] path :=
  mem_collectFiles_iff hwf

/-- Where there are files of features, there is a folder of features. -/
theorem violations_of_mem_sourceFiles (hwf : tree.WellFormed) (h : path ∈ sourceFiles context tree) :
    (check context tree).violations = (sourceFiles context tree).flatMap (violationsIn context tree) :=
  if_pos ((mem_sourceFiles_iff hwf).1 h).hasFolder

theorem exists_file_of_mem_violations {violation : Violation} (h : violation ∈ (check context tree).violations) :
    ∃ path ∈ sourceFiles context tree, violation ∈ violationsIn context tree path := by
  dsimp only [check] at h
  split at h
  · exact List.mem_flatMap.1 h
  · cases h

theorem isSource_of_mem_sourceFiles (hwf : tree.WellFormed) (h : path ∈ sourceFiles context tree) :
    context.IsSource path :=
  ((mem_sourceFiles_iff hwf).1 h).isSource hwf (Context.isSource_featuresFolder context)

theorem isBelow_of_mem_sourceFiles (hwf : tree.WellFormed) {root : Path}
    (hbelow : root.isBelow context.featuresFolder = true) (h : path ∈ sourceFiles context tree) :
    root.isBelow path = true := by
  obtain ⟨found, way, -, -, rfl⟩ := (mem_sourceFiles_iff hwf).1 h
  obtain ⟨names, hnames⟩ := Option.isSome_iff_exists.1 hbelow
  obtain ⟨hanchor, hsplit⟩ := Path.namesBelow?_eq_some_iff.1 hnames
  refine Option.isSome_iff_exists.2 ⟨names ++ way, Path.namesBelow?_eq_some_iff.2 ⟨hanchor, ?_⟩⟩
  rw [hsplit, List.append_assoc]

/-- The files come in the order of the names that lead to them. -/
theorem pairwise_names_sourceFiles (hwf : tree.WellFormed) :
    (sourceFiles context tree).Pairwise fun first second => WayBefore first.names second.names := by
  obtain ⟨ways, hways, hsorted⟩ := exists_ways_collectFiles hwf context.featuresFolder [".ts"]
    context.settings.ignoredFolders
  rw [sourceFiles, hways, List.pairwise_map]
  exact hsorted.imp fun h => List.Lex.append_left _ h _

/-- If the files are in order, so is what is told of them. -/
theorem pairwise_violations {names : Text → List Text}
    (h : (sourceFiles context tree).Pairwise fun first second =>
      WayBefore (names (context.relative first)) (names (context.relative second))) :
    (check context tree).violations.Pairwise (Violation.InOrder names) := by
  show (if tree.hasFolder context.featuresFolder = true then
    (sourceFiles context tree).flatMap (violationsIn context tree) else []).Pairwise _
  split
  · refine List.pairwise_flatMap.2 ⟨fun path _ => pairwise_violationsIn context tree path names, ?_⟩
    exact h.imp fun hnames _ hfirst _ hsecond =>
      .files (file_of_mem_violationsIn hfirst) (file_of_mem_violationsIn hsecond) hnames
  · exact .nil

variable {here start : Path} {asked : Option Text}

/-- Violations tell of source files. They come in the order of the names that lead to the files, and in each file
in the order of the lines; the names that are shown are in the same order if the features lie in the workspace.
Of a file that cannot be read just that is told, without a line. -/
theorem violations_inOrder (hwf : tree.WellFormed)
    (hcontext : Workspace.context tree here start asked = .ok context) :
    (∀ violation ∈ (check context tree).violations, ∃ path ∈ sourceFiles context tree,
      violation.file = some (context.relative path) ∧ context.pathOf (context.relative path) = path ∧
      (violation.line = none → ∃ fault, tree.readSource path = .error fault)) ∧
    (check context tree).violations.Pairwise (Violation.InOrder fun file => (context.pathOf file).names) ∧
    (context.root.isBelow context.featuresFolder = true →
      (check context tree).violations.Pairwise (Violation.InOrder Path.namesOfText)) ∧
    ∀ path ∈ sourceFiles context tree, ∀ fault, tree.readSource path = .error fault →
      ((check context tree).violations.filter fun violation => violation.file = some (context.relative path)) =
        [Violation.unreadable (context.relative path) fault] := by
  have hrooted := Workspace.isRooted_of_context hcontext
  have hshown : ∀ path ∈ sourceFiles context tree, context.pathOf (context.relative path) = path := by
    intro path hpath
    obtain ⟨more, hmore, rfl⟩ := isSource_of_mem_sourceFiles hwf hpath
    exact hrooted.join_ofText_relative hmore
  have hfiles := @pairwise_names_sourceFiles context tree hwf
  refine ⟨fun violation hviolation => ?_, ?_, fun hbelow => ?_, fun path hpath fault hfault => ?_⟩
  · obtain ⟨path, hpath, htold⟩ := exists_file_of_mem_violations hviolation
    exact ⟨path, hpath, file_of_mem_violationsIn htold, hshown path hpath, exists_fault_of_line_eq_none htold⟩
  · refine pairwise_violations (hfiles.imp_of_mem fun hfirst hsecond h => ?_)
    rwa [hshown _ hfirst, hshown _ hsecond]
  · -- all files are shown from the root, and so the names in front are the same
    refine pairwise_violations (hfiles.imp_of_mem fun {first second} hfirst hsecond h => ?_)
    have hnames : ∀ path ∈ sourceFiles context tree,
        path.names = context.root.names ++ Path.namesOfText (context.relative path) := fun path hpath =>
      hrooted.names_eq_append (isSource_of_mem_sourceFiles hwf hpath) (isBelow_of_mem_sourceFiles hwf hbelow hpath)
    rw [hnames first hfirst, hnames second hsecond] at h
    exact h.of_append_left
  · obtain ⟨own, hown⟩ := ((mem_sourceFiles_iff hwf).1 hpath).exists_featureOf
    rw [violations_of_mem_sourceFiles hwf hpath, ← violationsIn_of_unreadable hown hfault]
    refine filter_flatMap_eq (nodup_collectFiles hwf _ _ _) hpath (fun violation hviolation => ?_) ?_
    · exact decide_eq_true (file_of_mem_violationsIn hviolation)
    · intro other hother hne violation hviolation
      rw [file_of_mem_violationsIn hviolation, decide_eq_false_iff_not, Option.some.injEq]
      intro heq
      exact hne (hrooted.eq_of_isSource (isSource_of_mem_sourceFiles hwf hother)
        (isSource_of_mem_sourceFiles hwf hpath) heq)

/-! ## Features that reach into one another -/

/-- An import, a call of `import` inside a declaration, and an export. -/
def nestedSource : Text :=
  "import x from '../a-b/x';\nexport const go = () =>\n  import('../c/y');\nexport * from '../index';\n"

/-- Two features and a file beside them, which is a feature of its own, and a file that is no text. -/
def nestedTree : FileTree :=
  .folder [("angular.json", .file (Text.Utf8.encode pageManifest)),
    ("src", .folder [("app", .folder [("features", .folder [
      ("index.ts", .file (Text.Utf8.encode "export * from './a/one';\n")),
      ("a-b", .folder [("x.ts", .file (Text.Utf8.encode "import '../a/one';\n"))]),
      ("a", .folder [("one.ts", .file (Text.Utf8.encode nestedSource)), ("broken.ts", .file [0xff])])])])])]

/-- The path of the file that is no text. -/
def brokenPath : Path := ⟨.root, ["src", "app", "features", "a", "broken.ts"]⟩

/-- The files of the features, in order. -/
def nestedFiles : List Path :=
  [brokenPath, ⟨.root, ["src", "app", "features", "a", "one.ts"]⟩,
    ⟨.root, ["src", "app", "features", "a-b", "x.ts"]⟩, ⟨.root, ["src", "app", "features", "index.ts"]⟩]

/-- Where the imports are told, in order. -/
def nestedPlaces : List (Option Text × Option Int) :=
  [("src/app/features/a/broken.ts".toList, none), ("src/app/features/a/one.ts".toList, some 1),
    ("src/app/features/a/one.ts".toList, some 3), ("src/app/features/a/one.ts".toList, some 4),
    ("src/app/features/a-b/x.ts".toList, some 1), ("src/app/features/index.ts".toList, some 1)]

/-- In the file the call inside the declaration comes between the import and the export; of the file that is no
text only that is told. -/
theorem violations_inOrder_nestedTree : nestedTree.WellFormed ∧
    Workspace.context nestedTree ⟨.root, []⟩ ⟨.root, []⟩ none = .ok pageContext ∧
    (check pageContext nestedTree).violations.map (fun violation => (violation.file, violation.line)) =
      nestedPlaces ∧
    (check pageContext nestedTree).violations.Pairwise (Violation.InOrder Path.namesOfText) ∧
    ∃ path ∈ sourceFiles pageContext nestedTree, ∃ fault, nestedTree.readSource path = .error fault ∧
      ((check pageContext nestedTree).violations.filter fun violation =>
          violation.file = some (pageContext.relative path)) =
        [Violation.unreadable (pageContext.relative path) fault] := by
  have hwf : nestedTree.WellFormed := by decide +kernel
  have hcontext : Workspace.context nestedTree ⟨.root, []⟩ ⟨.root, []⟩ none = .ok pageContext :=
    context_eq_pageContext (toOption_eq_some (by decide +kernel)) (toOption_eq_some (by decide +kernel))
      (by decide +kernel)
  have hfiles : sourceFiles pageContext nestedTree = nestedFiles := by cbv
  have hfolder : nestedTree.hasFolder pageContext.featuresFolder = true := by decide +kernel
  have hplaces : (check pageContext nestedTree).violations.map
      (fun violation => (violation.file, violation.line)) = nestedPlaces := by
    show (if nestedTree.hasFolder pageContext.featuresFolder = true then
      (sourceFiles pageContext nestedTree).flatMap (violationsIn pageContext nestedTree) else []).map _ = _
    rw [if_pos hfolder, hfiles]
    decide +kernel
  obtain ⟨-, -, hshown, hunreadable⟩ := violations_inOrder hwf hcontext
  have hbroken : brokenPath ∈ sourceFiles pageContext nestedTree := by
    rw [hfiles]
    exact List.mem_cons_self ..
  refine ⟨hwf, hcontext, hplaces, hshown (by decide +kernel), _, hbroken, ?_⟩
  cases hread : nestedTree.readSource brokenPath with
  | error fault => exact ⟨fault, rfl, hunreadable _ hbroken fault hread⟩
  | ok source =>
    have hnone : (nestedTree.readSource brokenPath).toOption.isNone = true := by decide +kernel
    rw [hread] at hnone
    cases hnone

end FeatureImports

end VerticalSlice
