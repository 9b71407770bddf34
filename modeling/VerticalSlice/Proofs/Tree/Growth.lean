import VerticalSlice.Proofs.Tree.WellFormed
import VerticalSlice.TextFile

/-!
# Growing file trees

A tree grows when entries are put where nothing was. `Grows` says so place by place: at a new place
nothing was before, and at any other place there is what was there before. Then every path that led
somewhere leads to the same place as before (`Grows.locate_eq`), where the same can be read
(`Grows.readText_eq`). Putting an entry that holds nothing where nothing was makes a tree grow
(`grows_put`).
-/

namespace VerticalSlice.FileTree

/-- The bytes of a file; a folder has none. -/
def bytes? : FileTree → Option (List UInt8)
  | .file bytes => some bytes
  | .folder _ => none

/-- What is to be seen at the end of the names: nothing, a folder, or a file with its bytes. -/
def sight (tree : FileTree) (names : List Text) : Option (Option (List UInt8)) :=
  (tree.get? names).map bytes?

/-- At the new places nothing was before, and at the others there is what was there before. -/
structure Grows (isNew : List Text → Prop) (tree changed : FileTree) : Prop where
  absent : ∀ names, isNew names → tree.get? names = none
  same : ∀ names, ¬isNew names → changed.sight names = tree.sight names

variable {tree changed later : FileTree} {names : List Text}

theorem sight_eq_none_iff : tree.sight names = none ↔ tree.get? names = none :=
  Option.map_eq_none_iff

theorem sight_eq_file_iff {bytes : List UInt8} :
    tree.sight names = some (some bytes) ↔ tree.get? names = some (.file bytes) := by
  rw [sight]
  cases tree.get? names with
  | none => simp
  | some entry => cases entry <;> simp [bytes?]

theorem sight_eq_folder_iff :
    tree.sight names = some none ↔ ∃ entries, tree.get? names = some (.folder entries) := by
  rw [sight]
  cases tree.get? names with
  | none => simp
  | some entry => cases entry <;> simp [bytes?]

theorem any_isFolder_eq (tree : FileTree) (names : List Text) :
    (tree.get? names).any isFolder = (tree.sight names).any Option.isNone := by
  rw [sight]
  cases tree.get? names with
  | none => rfl
  | some entry => cases entry <;> rfl

theorem any_isFile_eq (tree : FileTree) (names : List Text) :
    (tree.get? names).any isFile = (tree.sight names).any Option.isSome := by
  rw [sight]
  cases tree.get? names with
  | none => rfl
  | some entry => cases entry <;> rfl

theorem grows_refl (tree : FileTree) : Grows (fun _ => False) tree tree where
  absent _ h := h.elim
  same _ _ := rfl

theorem Grows.trans {isNew isLater : List Text → Prop} (h : Grows isNew tree changed)
    (hlater : Grows isLater changed later) :
    Grows (fun names => isNew names ∨ isLater names) tree later where
  absent names hnames := by
    rcases hnames with hnames | hnames
    · exact h.absent names hnames
    · by_cases hnew : isNew names
      · exact h.absent names hnew
      · rw [← sight_eq_none_iff, ← h.same names hnew, sight_eq_none_iff]
        exact hlater.absent names hnames
  same names hnames := by
    rw [not_or] at hnames
    rw [hlater.same names hnames.2, h.same names hnames.1]

theorem Grows.congr {isNew isNew' : List Text → Prop} (h : Grows isNew tree changed)
    (hiff : ∀ names, isNew names ↔ isNew' names) : Grows isNew' tree changed where
  absent names hnames := h.absent names ((hiff names).2 hnames)
  same names hnames := h.same names (mt (hiff names).1 hnames)

section

variable {isNew : List Text → Prop}

/-- What was somewhere is still there. -/
theorem Grows.sight_eq_of_some (h : Grows isNew tree changed) {seen : Option (List UInt8)}
    (hseen : tree.sight names = some seen) : changed.sight names = some seen := by
  rw [h.same names, hseen]
  intro hnew
  rw [sight_eq_none_iff.2 (h.absent names hnew)] at hseen
  cases hseen

theorem Grows.get?_file (h : Grows isNew tree changed) {bytes : List UInt8}
    (hfile : tree.get? names = some (.file bytes)) : changed.get? names = some (.file bytes) :=
  sight_eq_file_iff.1 (h.sight_eq_of_some (sight_eq_file_iff.2 hfile))

theorem Grows.get?_folder (h : Grows isNew tree changed) {entries : List (Text × FileTree)}
    (hfolder : tree.get? names = some (.folder entries)) :
    ∃ entries, changed.get? names = some (.folder entries) :=
  sight_eq_folder_iff.1 (h.sight_eq_of_some (sight_eq_folder_iff.2 ⟨entries, hfolder⟩))

/-- A walk ends as before, unless an entry was missing on the way. -/
theorem Grows.walk_eq (h : Grows isNew tree changed) {here : List Text}
    (hwalk : tree.walk here names ≠ .error .missing) :
    changed.walk here names = tree.walk here names := by
  induction names generalizing here with
  | nil => rfl
  | cons name names ih =>
    rw [walk] at hwalk ⊢
    rw [walk]
    split at hwalk
    · exact absurd rfl hwalk
    · next bytes hfile => rw [h.get?_file hfile]
    · next entries hfolder =>
      obtain ⟨others, hothers⟩ := h.get?_folder hfolder
      rw [hothers]
      exact ih hwalk

theorem Grows.locate_eq (h : Grows isNew tree changed) {path : Path}
    (hlocate : tree.locate path ≠ .error .missing) :
    changed.locate path = tree.locate path := by
  unfold locate at hlocate ⊢
  split
  · rfl
  · next hnul =>
    rw [if_neg hnul] at hlocate
    exact h.walk_eq hlocate

theorem Grows.locate_eq_ok (h : Grows isNew tree changed) {path : Path} {place : List Text}
    (hlocate : tree.locate path = .ok place) : changed.locate path = .ok place := by
  rw [h.locate_eq (by rw [hlocate]; exact fun h => by cases h), hlocate]

end

/-! ## Reading -/

/-- What can be read at a place is what is to be seen there. -/
theorem read_congr {path : Path} {place : List Text} (htree : tree.locate path = .ok place)
    (hchanged : changed.locate path = .ok place) (hsight : changed.sight place = tree.sight place) :
    changed.read path = tree.read path := by
  rw [read, read, htree, hchanged]
  dsimp only
  cases hold : tree.get? place with
  | none =>
    rw [sight_eq_none_iff.2 hold, sight_eq_none_iff] at hsight
    rw [hsight]
  | some entry =>
    cases entry with
    | file bytes =>
      rw [sight_eq_file_iff.2 hold, sight_eq_file_iff] at hsight
      rw [hsight]
    | folder entries =>
      rw [sight_eq_folder_iff.2 ⟨entries, hold⟩, sight_eq_folder_iff] at hsight
      obtain ⟨others, hothers⟩ := hsight
      rw [hothers]

theorem readText_congr {path : Path} {place : List Text} (htree : tree.locate path = .ok place)
    (hchanged : changed.locate path = .ok place) (hsight : changed.sight place = tree.sight place) :
    changed.readText path = tree.readText path := by
  rw [readText, readText, read_congr htree hchanged hsight]

/-- Where bytes can be read there is a file with them. -/
theorem locate_of_read {path : Path} {bytes : List UInt8} (h : tree.read path = .ok bytes) :
    ∃ place, tree.locate path = .ok place ∧ tree.get? place = some (.file bytes) := by
  rw [read] at h
  cases hlocate : tree.locate path with
  | error problem => rw [hlocate] at h; cases h
  | ok place =>
    rw [hlocate] at h
    dsimp only at h
    cases hentry : tree.get? place with
    | none => rw [hentry] at h; cases h
    | some entry =>
      rw [hentry] at h
      cases entry with
      | folder entries => cases h
      | file others => exact ⟨place, rfl, by rw [hentry, Except.ok.inj h]⟩

theorem entry?_eq_of_locate {path : Path} {place : List Text} (h : tree.locate path = .ok place) :
    tree.entry? path = tree.get? place := by
  unfold entry?
  rw [h]

theorem hasFile_eq_of_locate {path : Path} {place : List Text} (h : tree.locate path = .ok place) :
    tree.hasFile path = (tree.sight place).any Option.isSome := by
  rw [hasFile, entry?_eq_of_locate h, any_isFile_eq]

theorem hasFolder_eq_of_locate {path : Path} {place : List Text}
    (h : tree.locate path = .ok place) :
    tree.hasFolder path = (tree.sight place).any Option.isNone := by
  rw [hasFolder, entry?_eq_of_locate h, any_isFolder_eq]

theorem hasEntry_eq_of_locate {path : Path} {place : List Text} (h : tree.locate path = .ok place) :
    tree.hasEntry path = (tree.sight place).isSome := by
  rw [hasEntry, entry?_eq_of_locate h, sight, Option.isSome_map]

theorem locate_of_hasFile {path : Path} (h : tree.hasFile path = true) :
    ∃ place bytes, tree.locate path = .ok place ∧ tree.get? place = some (.file bytes) := by
  rw [hasFile, entry?] at h
  cases hlocate : tree.locate path with
  | error problem => rw [hlocate] at h; cases h
  | ok place =>
    rw [hlocate] at h
    obtain ⟨entry, hentry, hfile⟩ := (Option.any_eq_true _ _).1 h
    cases entry with
    | folder entries => cases hfile
    | file bytes => exact ⟨place, bytes, rfl, hentry⟩

theorem locate_of_hasFolder {path : Path} (h : tree.hasFolder path = true) :
    ∃ place entries, tree.locate path = .ok place ∧ tree.get? place = some (.folder entries) := by
  rw [hasFolder, entry?] at h
  cases hlocate : tree.locate path with
  | error problem => rw [hlocate] at h; cases h
  | ok place =>
    rw [hlocate] at h
    obtain ⟨entry, hentry, hfolder⟩ := (Option.any_eq_true _ _).1 h
    cases entry with
    | file bytes => cases hfolder
    | folder entries => exact ⟨place, entries, rfl, hentry⟩

theorem locate_of_hasEntry {path : Path} (h : tree.hasEntry path = true) :
    ∃ place entry, tree.locate path = .ok place ∧ tree.get? place = some entry := by
  rw [hasEntry, entry?] at h
  cases hlocate : tree.locate path with
  | error problem => rw [hlocate] at h; cases h
  | ok place =>
    rw [hlocate] at h
    obtain ⟨entry, hentry⟩ := Option.isSome_iff_exists.1 h
    exact ⟨place, entry, rfl, hentry⟩

/-! ## Putting an entry where nothing was -/

theorem map_fst_setEntry (name : Text) (entry : FileTree) (entries : List (Text × FileTree)) :
    (setEntry name entry entries).map (·.1) =
      if name ∈ entries.map (·.1) then entries.map (·.1) else entries.map (·.1) ++ [name] := by
  induction entries with
  | nil => rfl
  | cons pair rest ih =>
    obtain ⟨other, old⟩ := pair
    have hmem : name ∈ ((other, old) :: rest).map (·.1) ↔ name = other ∨ name ∈ rest.map (·.1) := by
      rw [List.map_cons, List.mem_cons]
    rw [setEntry]
    by_cases h : other = name
    · rw [if_pos h, if_pos (hmem.2 (.inl h.symm)), List.map_cons, List.map_cons, h]
    · rw [if_neg h, List.map_cons, ih]
      by_cases hrest : name ∈ rest.map (·.1)
      · rw [if_pos hrest, if_pos (hmem.2 (.inr hrest)), List.map_cons]
      · rw [if_neg hrest, if_neg (by rw [hmem, not_or]; exact ⟨Ne.symm h, hrest⟩), List.map_cons,
          List.cons_append]

theorem mem_setEntry {name : Text} {entry : FileTree} {entries : List (Text × FileTree)}
    {pair : Text × FileTree} (h : pair ∈ setEntry name entry entries) :
    pair = (name, entry) ∨ pair ∈ entries := by
  induction entries with
  | nil => exact .inl (List.mem_singleton.1 h)
  | cons old rest ih =>
    rw [setEntry] at h
    split at h
    · exact (List.mem_cons.1 h).imp id (List.mem_cons_of_mem _)
    · rcases List.mem_cons.1 h with rfl | h
      · exact .inr (List.mem_cons_self ..)
      · exact (ih h).imp id (List.mem_cons_of_mem _)

theorem wellFormed_setEntry {name : Text} {entry : FileTree} {entries : List (Text × FileTree)}
    (hwf : (folder entries).WellFormed) (hname : IsName name) (hentry : entry.WellFormed) :
    (folder (setEntry name entry entries)).WellFormed := by
  rw [wellFormed_folder_iff] at hwf ⊢
  refine ⟨?_, fun pair hpair => ?_⟩
  · rw [map_fst_setEntry]
    split
    · exact hwf.1
    · next hnew =>
      refine List.nodup_append.2 ⟨hwf.1, by simp, fun other hother last hlast => ?_⟩
      rintro rfl
      exact hnew (List.mem_singleton.1 hlast ▸ hother)
  · rcases mem_setEntry hpair with rfl | hold
    · exact ⟨hname, hentry⟩
    · exact hwf.2 pair hold

/-- A folder on the way to a folder, with the entry that the way goes on to. -/
theorem exists_entry_of_get?_cons {first : Text} {entry : FileTree}
    (h : tree.get? (first :: names) = some entry) :
    ∃ entries next, tree = .folder entries ∧ entries.lookup first = some next ∧
      next.get? names = some entry := by
  rw [get?] at h
  obtain ⟨next, hnext, hrest⟩ := Option.bind_eq_some_iff.1 h
  cases tree with
  | file bytes => cases hnext
  | folder entries => exact ⟨entries, next, rfl, hnext, hrest⟩

section

variable {outer : List Text} {name : Text} {entry : FileTree} {inside : List (Text × FileTree)}

theorem put_cons {first : Text} {entries : List (Text × FileTree)} {next : FileTree}
    (h : entries.lookup first = some next) :
    (folder entries).put (first :: names) entry =
      .folder (setEntry first (next.put names entry) entries) := by
  rw [put, h]
  rfl

theorem get?_put_self (h : tree.get? outer = some (.folder inside)) :
    (tree.put (outer ++ [name]) entry).get? (outer ++ [name]) = some entry := by
  induction outer generalizing tree with
  | nil =>
    obtain rfl := Option.some.inj h
    rw [List.nil_append, put, get?, entries, lookup_setEntry_self]
    cases inside.lookup name <;> rfl
  | cons first outer ih =>
    obtain ⟨entries, next, rfl, hnext, hrest⟩ := exists_entry_of_get?_cons h
    rw [List.cons_append, put_cons hnext, get?, FileTree.entries, lookup_setEntry_self]
    exact ih hrest

theorem sight_put (h : tree.get? outer = some (.folder inside))
    (hleaf : ∀ old, tree.get? (outer ++ [name]) = some old → old.entries = [])
    (hentry : entry.entries = []) (hne : names ≠ outer ++ [name]) :
    (tree.put (outer ++ [name]) entry).sight names = tree.sight names := by
  induction outer generalizing tree names with
  | nil =>
    obtain rfl := Option.some.inj h
    rw [List.nil_append, put]
    cases names with
    | nil => rfl
    | cons other rest =>
      rw [sight, sight, get?, get?, entries, entries]
      by_cases hother : other = name
      · subst hother
        rw [lookup_setEntry_self]
        cases rest with
        | nil => exact absurd rfl hne
        | cons third rest =>
          -- nothing is below the new entry, and nothing was below the old one
          have hnew : ((inside.lookup other).getD empty).put [] entry = entry := by
            cases inside.lookup other <;> rfl
          have hbelow : ∀ {old : FileTree}, old.entries = [] → old.get? (third :: rest) = none := by
            intro old hold
            rw [get?, hold]
            rfl
          rw [hnew, Option.bind_some, hbelow hentry]
          cases hlookup : inside.lookup other with
          | none => rfl
          | some old =>
            have hold : (folder inside).get? ([] ++ [other]) = some old := by
              rw [List.nil_append, get?, entries, hlookup]
              rfl
            rw [Option.bind_some, hbelow (hleaf old hold)]
      · rw [lookup_setEntry_of_ne hother]
  | cons first outer ih =>
    obtain ⟨entries, next, rfl, hnext, hrest⟩ := exists_entry_of_get?_cons h
    rw [List.cons_append, put_cons hnext]
    cases names with
    | nil => rfl
    | cons other rest =>
      rw [sight, sight, get?, get?, FileTree.entries, FileTree.entries]
      by_cases hother : other = first
      · subst hother
        rw [List.cons_append, get?, FileTree.entries, hnext] at hleaf
        rw [lookup_setEntry_self, hnext]
        exact ih hrest hleaf fun heq => hne (by rw [heq]; rfl)
      · rw [lookup_setEntry_of_ne hother]

theorem wellFormed_put (hwf : tree.WellFormed) (h : tree.get? outer = some (.folder inside))
    (hname : IsName name) (hentry : entry.WellFormed) :
    (tree.put (outer ++ [name]) entry).WellFormed := by
  induction outer generalizing tree with
  | nil =>
    obtain rfl := Option.some.inj h
    rw [List.nil_append, put]
    refine wellFormed_setEntry hwf hname ?_
    cases inside.lookup name <;> exact hentry
  | cons first outer ih =>
    obtain ⟨entries, next, rfl, hnext, hrest⟩ := exists_entry_of_get?_cons h
    rw [List.cons_append, put_cons hnext]
    have hold := (wellFormed_folder_iff.1 hwf).2 _ (mem_of_lookup hnext)
    exact wellFormed_setEntry hwf hold.1 (ih hold.2 hrest)

/-- A tree grows by an entry that holds nothing itself. -/
theorem grows_put (h : tree.get? outer = some (.folder inside))
    (habsent : tree.get? (outer ++ [name]) = none) (hentry : entry.entries = []) :
    Grows (· = outer ++ [name]) tree (tree.put (outer ++ [name]) entry) where
  absent _ hother := hother ▸ habsent
  same _ hother := sight_put h (fun _ hold => by rw [habsent] at hold; cases hold) hentry hother

end

end VerticalSlice.FileTree
