import Mathlib
import VerticalSlice.Proofs.Tree.Order

/-!
# The files below a folder, in order

A listing goes through a folder entry by entry and puts the files of a folder inside where the folder
stands among the entries. So the ways to the files come in the order in which ways are compared name
by name (`pairwise_filesWithin`), which is not that of the written paths: what lies in `a` comes
before `a.ts`, although the slash comes behind the dot.

`collectFiles_exact` says what a listing is in terms of the paths below the folder: which of them it
holds, that it holds none of them twice, and in which order they come.
-/

namespace VerticalSlice.FileTree

variable {tree : FileTree} {base path : Path} {names place : List Text} {suffixes ignored : List Text}

theorem hasSuffix_eq_true_iff {name : Text} :
    hasSuffix suffixes name = true ↔ ∃ suffix ∈ suffixes, suffix <:+ name := by
  unfold hasSuffix
  rw [List.any_eq_true]
  simp only [List.isSuffixOf_iff_suffix]

/-- A way that goes on from a folder without turning back ends below the place of the folder. -/
theorem exists_of_locate_append (h : tree.locate ⟨base.anchor, base.names ++ names⟩ = .ok place)
    (hdots : parentName ∉ names) :
    ∃ outer, tree.locate base = .ok outer ∧ place = outer ++ names := by
  unfold locate at h ⊢
  split at h
  · cases h
  · next hnul =>
    rw [List.any_append, Bool.or_eq_true, not_or] at hnul
    rw [if_neg hnul.1]
    rw [walk_append] at h
    cases houter : tree.walk [] base.names with
    | error problem =>
      rw [houter] at h
      cases h
    | ok outer =>
      rw [houter] at h
      exact ⟨outer, rfl, eq_append_of_walk h hdots⟩

theorem fileName_append (hne : names ≠ []) :
    (Path.mk base.anchor (base.names ++ names)).fileName = names.getLastD [] := by
  show (base.names ++ names).getLastD [] = _
  rw [List.getLastD_eq_getLast?, List.getLastD_eq_getLast?, List.getLast?_append,
    List.getLast?_eq_some_getLast hne, Option.some_or]

/-- A file below a folder is found from the folder along the names that lead to it. -/
theorem exists_get?_of_hasFile (h : tree.hasFile ⟨base.anchor, base.names ++ names⟩ = true)
    (hdots : parentName ∉ names) :
    ∃ found, tree.entry? base = some found ∧ (found.get? names).any isFile = true := by
  obtain ⟨entry, hentry, hfile⟩ := (Option.any_eq_true _ _).1 h
  rw [entry?_eq] at hentry
  obtain ⟨below, hbelow, hget⟩ := Option.bind_eq_some_iff.1 hentry
  cases hlocate : tree.locate ⟨base.anchor, base.names ++ names⟩ with
  | error problem =>
    rw [hlocate] at hbelow
    cases hbelow
  | ok located =>
    rw [hlocate] at hbelow
    obtain rfl := Option.some.inj hbelow
    obtain ⟨place, hplace, rfl⟩ := exists_of_locate_append hlocate hdots
    rw [get?_append] at hget
    obtain ⟨found, hfound, hinside⟩ := Option.bind_eq_some_iff.1 hget
    refine ⟨found, ?_, ?_⟩
    · rw [entry?_eq_of_locate hplace, hfound]
    · rw [hinside]
      exact hfile

/-- What a listing holds, in terms of the paths below the folder. -/
theorem mem_collectFiles_iff_hasFile (hwf : tree.WellFormed) :
    path ∈ tree.collectFiles base suffixes ignored ↔
      ∃ names, names ≠ [] ∧ parentName ∉ names ∧ path = ⟨base.anchor, base.names ++ names⟩ ∧
        tree.hasFile path = true ∧ (∃ suffix ∈ suffixes, suffix <:+ path.fileName) ∧
        ∀ folder ∈ names.dropLast, folder ∉ ignored := by
  rw [mem_collectFiles_iff hwf]
  constructor
  · rintro ⟨found, names, hfound, hlists, rfl⟩
    have hinside : found.WellFormed := wellFormed_of_entry? hwf hfound
    have hnames := isName_of_lists hinside hlists
    obtain ⟨place, bytes, hplace, -, hget, -⟩ := exists_read_of_lists hwf hfound hlists
    refine ⟨names, hlists.1, fun hmem => (hnames _ hmem).2.2.1 rfl, rfl, ?_, ?_, hlists.2.2.2⟩
    · rw [hasFile, entry?_append hplace hnames, hget]
      rfl
    · rw [fileName_append hlists.1]
      exact hasSuffix_eq_true_iff.1 hlists.2.2.1
  · rintro ⟨names, hne, hdots, rfl, hfile, hsuffix, hkept⟩
    obtain ⟨found, hfound, hinside⟩ := exists_get?_of_hasFile hfile hdots
    rw [fileName_append hne] at hsuffix
    exact ⟨found, names, hfound, ⟨hne, hinside, hasSuffix_eq_true_iff.2 hsuffix, hkept⟩, rfl⟩

/-- The ways to the collected files are strictly increasing. -/
theorem exists_ways_collectFiles (hwf : tree.WellFormed) (base : Path) (suffixes ignored : List Text) :
    ∃ ways : List (List Text),
      tree.collectFiles base suffixes ignored =
        ways.map (fun names => ⟨base.anchor, base.names ++ names⟩) ∧
      ways.Pairwise WayBefore := by
  unfold collectFiles
  cases hfound : tree.entry? base with
  | none => exact ⟨[], rfl, List.Pairwise.nil⟩
  | some found =>
    have hinside : found.WellFormed := wellFormed_of_entry? hwf hfound
    exact ⟨_, rfl, pairwise_filesWithin suffixes ignored hinside⟩

/-- The collected files are the files below the folder whose names end in one of the suffixes and that
lie in no ignored folder below it, each of them once, in the order of the ways that lead from the
folder to them, compared name by name. -/
theorem collectFiles_exact (hwf : tree.WellFormed) (base : Path) (suffixes ignored : List Text) :
    (∀ path, path ∈ tree.collectFiles base suffixes ignored ↔
      ∃ names, names ≠ [] ∧ parentName ∉ names ∧ path = ⟨base.anchor, base.names ++ names⟩ ∧
        tree.hasFile path = true ∧ (∃ suffix ∈ suffixes, suffix <:+ path.fileName) ∧
        ∀ folder ∈ names.dropLast, folder ∉ ignored) ∧
    (tree.collectFiles base suffixes ignored).Nodup ∧
    ∃ ways : List (List Text),
      tree.collectFiles base suffixes ignored =
        ways.map (fun names => ⟨base.anchor, base.names ++ names⟩) ∧
      ways.Pairwise WayBefore :=
  ⟨fun _ => mem_collectFiles_iff_hasFile hwf, nodup_collectFiles hwf base suffixes ignored,
    exists_ways_collectFiles hwf base suffixes ignored⟩

/-- Folders whose names begin alike beside a file, with a folder inside one of them that is left out. -/
def sourceTree : FileTree :=
  .folder [("src", .folder [
    ("a.ts", .file []),
    ("node_modules", .folder [("x.ts", .file [])]),
    ("a-b", .folder [("x.ts", .file []), ("notes.md", .file [])]),
    ("a", .folder [
      ("z.ts", .file []),
      ("dist", .folder [("y.ts", .file [])]),
      ("b", .folder [("dist", .file []), ("c.ts", .file [])])])])]

/-- The ways to the sources below the folder, in order. -/
def sourceWays : List (List Text) := [["a", "b", "c.ts"], ["a", "z.ts"], ["a-b", "x.ts"], ["a.ts"]]

/-- The files of the folders come before the file, and none comes from the folders left out. -/
theorem collectFiles_exact_sourceTree :
    sourceTree.WellFormed ∧
      sourceTree.collectFiles ⟨.root, ["src"]⟩ [".ts"] ["node_modules", "dist"] =
        sourceWays.map (fun names => ⟨.root, "src".toList :: names⟩) ∧
      sourceWays.Pairwise WayBefore ∧
      ⟨.root, ["src", "a", "dist", "y.ts"]⟩ ∉
        sourceTree.collectFiles ⟨.root, ["src"]⟩ [".ts"] ["node_modules", "dist"] := by
  have hwf : sourceTree.WellFormed := by decide
  obtain ⟨hmem, -, ways, hways, hsorted⟩ :=
    collectFiles_exact hwf ⟨.root, ["src"]⟩ [".ts"] ["node_modules", "dist"]
  have hlist : sourceTree.collectFiles ⟨.root, ["src"]⟩ [".ts"] ["node_modules", "dist"] =
      sourceWays.map (fun names => ⟨.root, "src".toList :: names⟩) := by
    cbv
  refine ⟨hwf, hlist, ?_, ?_⟩
  · -- the ways are known from the paths, since the folder in front of them is
    have hinjective : ∀ first second : List Text,
        Path.mk .root ("src".toList :: first) = ⟨.root, "src".toList :: second⟩ → first = second := by
      intro first second heq
      exact (List.cons.inj (congrArg Path.names heq)).2
    have heq : sourceWays = ways := (List.map_inj_right hinjective).1 (hlist.symm.trans hways)
    rw [heq]
    exact hsorted
  · intro h
    obtain ⟨names, -, -, hpath, -, -, hkept⟩ := (hmem _).1 h
    have hnames : ["a".toList, "dist".toList, "y.ts".toList] = names :=
      (List.cons.inj (congrArg Path.names hpath)).2
    exact hkept "dist" (by rw [← hnames]; decide) (by decide)

end VerticalSlice.FileTree
