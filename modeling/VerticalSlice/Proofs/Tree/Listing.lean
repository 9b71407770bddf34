import VerticalSlice.Proofs.Tree.WellFormed
import VerticalSlice.Workspace.Listing

/-!
# What a listing holds

A listing goes through the sorted entries of a folder, and each entry contributes what `filesAt`
says: a file itself, a folder what lies in it. `mem_collectFiles_iff` says which files that makes:
those whose name ends in one of the suffixes and that lie in no ignored folder.
-/

namespace VerticalSlice.FileTree

/-- What one entry of a folder contributes to a listing of the folder. -/
def filesAt (suffixes ignored : List Text) (pair : Text × FileTree) : List (List Text) :=
  if pair.2.isFile then if hasSuffix suffixes pair.1 then [[pair.1]] else []
  else if ignored.contains pair.1 then []
  else (filesWithin suffixes ignored pair.2).map (pair.1 :: ·)

theorem filesAmong_eq_flatMap (suffixes ignored : List Text) (entries : List (Text × FileTree)) :
    filesAmong suffixes ignored entries = entries.flatMap (filesAt suffixes ignored) := by
  induction entries with
  | nil => simp [filesAmong]
  | cons pair rest ih =>
    obtain ⟨name, entry⟩ := pair
    cases entry with
    | file bytes =>
      rw [filesAmong, List.flatMap_cons, ih, filesAt]
      by_cases h : hasSuffix suffixes name = true <;> simp [h, isFile, isFolder]
    | folder inner =>
      rw [filesAmong, List.flatMap_cons, ih, filesAt]
      by_cases h : ignored.contains name = true <;>
        simp only [h, isFile, isFolder, filesWithin] <;> simp

theorem mem_filesAt_iff {suffixes ignored : List Text} {pair : Text × FileTree}
    {names : List Text} :
    names ∈ filesAt suffixes ignored pair ↔
      ∃ rest, names = pair.1 :: rest ∧
        (rest = [] ∧ pair.2.isFile = true ∧ hasSuffix suffixes pair.1 = true ∨
          pair.2.isFile = false ∧ pair.1 ∉ ignored ∧ rest ∈ filesWithin suffixes ignored pair.2) := by
  unfold filesAt
  split
  · next hfile =>
    by_cases hsuffix : hasSuffix suffixes pair.1 = true <;> simp [hfile, hsuffix]
  · next hfile =>
    rw [Bool.not_eq_true] at hfile
    by_cases hignored : pair.1 ∈ ignored
    · simp [hfile, hignored]
    · rw [if_neg (by simpa using hignored), List.mem_map]
      constructor
      · rintro ⟨rest, hrest, rfl⟩
        exact ⟨rest, rfl, .inr ⟨hfile, hignored, hrest⟩⟩
      · rintro ⟨rest, rfl, ⟨-, hcontra, -⟩ | ⟨-, -, hrest⟩⟩
        · rw [hfile] at hcontra
          cases hcontra
        · exact ⟨rest, hrest, rfl⟩

/-! ## Sorted trees -/

theorem sortedEach_eq_map (entries : List (Text × FileTree)) :
    sortedEach entries = entries.map fun pair => (pair.1, pair.2.sorted) := by
  induction entries with
  | nil => rfl
  | cons pair rest ih => simp [sortedEach, ih]

theorem isFile_sorted (tree : FileTree) : tree.sorted.isFile = tree.isFile := by
  cases tree <;> rfl

theorem mem_sorted_entries_iff {entries : List (Text × FileTree)} {pair : Text × FileTree} :
    pair ∈ (folder entries).sorted.entries ↔ ∃ old ∈ entries, (old.1, old.2.sorted) = pair := by
  rw [sorted, FileTree.entries, List.mem_mergeSort, sortedEach_eq_map, List.mem_map]

theorem filesWithin_sorted_folder (suffixes ignored : List Text)
    (entries : List (Text × FileTree)) :
    filesWithin suffixes ignored (folder entries).sorted =
      (folder entries).sorted.entries.flatMap (filesAt suffixes ignored) := by
  rw [sorted, filesWithin, FileTree.entries, filesAmong_eq_flatMap]

/-- Does the way lead to a file with one of the suffixes, past no ignored folder? -/
def Lists (suffixes ignored : List Text) (tree : FileTree) (names : List Text) : Prop :=
  names ≠ [] ∧ (tree.get? names).any isFile = true ∧
    hasSuffix suffixes (names.getLastD []) = true ∧ ∀ name ∈ names.dropLast, name ∉ ignored

/-- The files within a sorted tree are those of the tree itself that have one of the suffixes and
that lie in no ignored folder. -/
theorem mem_filesWithin_sorted_iff {suffixes ignored : List Text} :
    ∀ {names : List Text} {tree : FileTree}, tree.WellFormed →
      (names ∈ filesWithin suffixes ignored tree.sorted ↔ Lists suffixes ignored tree names)
  | [], tree, _ => by
    cases tree with
    | file bytes => simp [sorted, filesWithin, Lists]
    | folder entries => simp [filesWithin_sorted_folder, mem_filesAt_iff, Lists]
  | name :: rest, .file bytes, _ => by
    simp [sorted, filesWithin, Lists, get?, FileTree.entries]
  | name :: rest, .folder entries, hwf => by
    rw [wellFormed_folder_iff] at hwf
    -- the entry of this name decides: it is the file itself, or the folder that the rest lies in
    have hentry : name :: rest ∈ filesWithin suffixes ignored (folder entries).sorted ↔
        ∃ entry, entries.lookup name = some entry ∧
          (rest = [] ∧ entry.isFile = true ∧ hasSuffix suffixes name = true ∨
            entry.isFile = false ∧ name ∉ ignored ∧
              rest ∈ filesWithin suffixes ignored entry.sorted) := by
      rw [filesWithin_sorted_folder, List.mem_flatMap]
      constructor
      · rintro ⟨pair, hpair, hnames⟩
        obtain ⟨old, hold, rfl⟩ := mem_sorted_entries_iff.1 hpair
        obtain ⟨below, heq, hcases⟩ := mem_filesAt_iff.1 hnames
        obtain ⟨rfl, rfl⟩ := List.cons.inj heq
        rw [isFile_sorted] at hcases
        exact ⟨old.2, (lookup_eq_some_iff hwf.1).2 hold, hcases⟩
      · rintro ⟨entry, hlookup, hcases⟩
        refine ⟨(name, entry.sorted),
          mem_sorted_entries_iff.2 ⟨(name, entry), mem_of_lookup hlookup, rfl⟩,
          mem_filesAt_iff.2 ⟨rest, rfl, ?_⟩⟩
        rw [isFile_sorted]
        exact hcases
    rw [hentry, Lists, get?, FileTree.entries]
    cases hlookup : entries.lookup name with
    | none => simp
    | some entry =>
      have hentrywf := (hwf.2 _ (mem_of_lookup hlookup)).2
      cases rest with
      | nil =>
        have hnil : [] ∈ filesWithin suffixes ignored entry.sorted ↔
            Lists suffixes ignored entry [] := mem_filesWithin_sorted_iff hentrywf
        simp [get?, hnil, Lists]
      | cons second rest =>
        have hrest : second :: rest ∈ filesWithin suffixes ignored entry.sorted ↔
            Lists suffixes ignored entry (second :: rest) := mem_filesWithin_sorted_iff hentrywf
        cases entry with
        | file bytes => simp [get?, FileTree.entries, isFile, isFolder]
        | folder inner =>
          simp only [Option.some.injEq, exists_eq_left', hrest, Lists, Option.bind_some,
            List.dropLast_cons_cons, List.forall_mem_cons]
          simp [isFile, isFolder, and_left_comm]

/-- The collected files are those below the folder that have one of the suffixes and that lie in no
ignored folder. -/
theorem mem_collectFiles_iff {tree : FileTree} {base path : Path} {suffixes ignored : List Text}
    (hwf : tree.WellFormed) :
    path ∈ tree.collectFiles base suffixes ignored ↔
      ∃ found names, tree.entry? base = some found ∧ Lists suffixes ignored found names ∧
        path = ⟨base.anchor, base.names ++ names⟩ := by
  unfold collectFiles
  cases hfound : tree.entry? base with
  | none => simp
  | some found =>
    have hfoundwf := wellFormed_of_entry? hwf hfound
    rw [List.mem_map]
    constructor
    · rintro ⟨names, hnames, rfl⟩
      exact ⟨found, names, rfl, (mem_filesWithin_sorted_iff hfoundwf).1 hnames, rfl⟩
    · rintro ⟨other, names, hother, hnames, rfl⟩
      rw [← Option.some.inj hother] at hnames
      exact ⟨names, (mem_filesWithin_sorted_iff hfoundwf).2 hnames, rfl⟩

/-- Only a folder has files in it. -/
theorem isFolder_of_lists {suffixes ignored names : List Text} {tree : FileTree}
    (h : Lists suffixes ignored tree names) : tree.isFolder = true := by
  cases tree with
  | folder entries => rfl
  | file bytes =>
    obtain ⟨first, rest, rfl⟩ := List.exists_cons_of_ne_nil h.1
    simp [Lists, get?, FileTree.entries] at h

/-- The way to a listed file consists of proper names. -/
theorem isName_of_lists {suffixes ignored names : List Text} {tree : FileTree}
    (hwf : tree.WellFormed) (h : Lists suffixes ignored tree names) :
    ∀ name ∈ names, IsName name := by
  obtain ⟨entry, hentry, -⟩ := (Option.any_eq_true _ _).1 h.2.1
  exact isName_of_get? hwf hentry

end VerticalSlice.FileTree
