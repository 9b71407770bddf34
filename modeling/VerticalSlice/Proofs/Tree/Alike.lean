import VerticalSlice.Proofs.Tree.Order

/-!
# Trees that differ in one file

Two trees that have the same names everywhere and the same bytes in every file but one are walked alike,
and so every path leads to the same place in both (`AlikeBut.locate_eq`). They have the same listings
(`AlikeBut.collectFiles_eq`, `AlikeBut.folderNames_eq`), and what is read differs at most for the
paths that lead to the one file (`AlikeBut.readText_eq`).
-/

namespace VerticalSlice

/-- Two lists that are sorted strictly and have the same elements are equal. -/
theorem eq_of_pairwise {α : Type} {r : α → α → Prop} {first second : List α}
    (hasymm : ∀ a b, r a b → ¬r b a) (hfirst : first.Pairwise r) (hsecond : second.Pairwise r)
    (h : ∀ a, a ∈ first ↔ a ∈ second) : first = second := by
  have hfilter := @eq_filter_of_pairwise α r first second (fun _ => true) hasymm hfirst hsecond
    fun a => by rw [h, and_iff_left rfl]
  rwa [List.filter_eq_self.2 fun _ _ => rfl] at hfilter

namespace FileTree

/-- The same is at every place but this one, where both trees have a file. -/
structure AlikeBut (place : List Text) (tree changed : FileTree) : Prop where
  file : ∃ bytes, tree.get? place = some (.file bytes)
  changedFile : ∃ bytes, changed.get? place = some (.file bytes)
  same : ∀ names, names ≠ place → changed.sight names = tree.sight names

variable {place names : List Text} {tree changed : FileTree} {path base : Path}

/-- Whether there is a file or a folder somewhere is the same in both trees. -/
theorem AlikeBut.map_isSome_eq (h : AlikeBut place tree changed) (names : List Text) :
    (changed.sight names).map Option.isSome = (tree.sight names).map Option.isSome := by
  by_cases hnames : names = place
  · obtain ⟨bytes, hfile⟩ := h.file
    obtain ⟨other, hother⟩ := h.changedFile
    rw [hnames, sight_eq_file_iff.2 hfile, sight_eq_file_iff.2 hother]
    rfl
  · rw [h.same names hnames]

theorem AlikeBut.isSome_eq (h : AlikeBut place tree changed) (names : List Text) :
    (changed.sight names).isSome = (tree.sight names).isSome := by
  have hmap := congrArg Option.isSome (h.map_isSome_eq names)
  rwa [Option.isSome_map, Option.isSome_map] at hmap

theorem AlikeBut.any_isFile_eq (h : AlikeBut place tree changed) (names : List Text) :
    (changed.get? names).any isFile = (tree.get? names).any isFile := by
  have hfile : ∀ seen : Option (Option (List UInt8)),
      seen.any Option.isSome = (seen.map Option.isSome).any id := fun seen => by cases seen <;> rfl
  rw [FileTree.any_isFile_eq, FileTree.any_isFile_eq, hfile, hfile, h.map_isSome_eq]

theorem AlikeBut.any_isFolder_eq (h : AlikeBut place tree changed) (names : List Text) :
    (changed.get? names).any isFolder = (tree.get? names).any isFolder := by
  have hfolder : ∀ seen : Option (Option (List UInt8)),
      seen.any Option.isNone = (seen.map Option.isSome).any (!·) := by
    rintro (_ | _ | _) <;> rfl
  rw [FileTree.any_isFolder_eq, FileTree.any_isFolder_eq, hfolder, hfolder, h.map_isSome_eq]

/-- Putting a file in place of another one changes its bytes only. -/
theorem alikeBut_put {outer : List Text} {name : Text} {inside : List (Text × FileTree)}
    {old : List UInt8} (h : tree.get? outer = some (.folder inside))
    (hfile : tree.get? (outer ++ [name]) = some (.file old)) (bytes : List UInt8) :
    AlikeBut (outer ++ [name]) tree (tree.put (outer ++ [name]) (.file bytes)) where
  file := ⟨old, hfile⟩
  changedFile := ⟨bytes, get?_put_self h⟩
  same _ hne := sight_put h (fun entry hentry => by
    rw [hfile] at hentry
    rw [← Option.some.inj hentry]
    rfl) rfl hne

/-! ## Ways -/

theorem AlikeBut.walk_eq (h : AlikeBut place tree changed) (here : List Text) :
    changed.walk here names = tree.walk here names := by
  induction names generalizing here with
  | nil => rfl
  | cons name names ih =>
    have hfolder := h.any_isFolder_eq here
    have hpresent := h.isSome_eq here
    rw [sight, sight, Option.isSome_map, Option.isSome_map] at hpresent
    rw [walk, walk]
    -- whether the way goes on here hangs on what is here, and that is the same
    cases hold : tree.get? here with
    | none =>
      rw [hold, Option.isSome_none, Option.isSome_eq_false_iff, Option.isNone_iff_eq_none] at hpresent
      rw [hpresent]
    | some old =>
      cases hnew : changed.get? here with
      | none => rw [hold, hnew] at hpresent; cases hpresent
      | some new =>
        rw [hold, hnew] at hfolder
        cases old <;> cases new
        · rfl
        · cases hfolder
        · cases hfolder
        · exact ih _

theorem AlikeBut.locate_eq (h : AlikeBut place tree changed) (path : Path) :
    changed.locate path = tree.locate path := by
  rw [locate, locate, h.walk_eq]

theorem AlikeBut.hasFile_eq (h : AlikeBut place tree changed) (path : Path) :
    changed.hasFile path = tree.hasFile path := by
  rw [hasFile, hasFile, entry?_eq, entry?_eq, h.locate_eq]
  cases (tree.locate path).toOption with
  | none => rfl
  | some names => exact h.any_isFile_eq names

theorem AlikeBut.hasFolder_eq (h : AlikeBut place tree changed) (path : Path) :
    changed.hasFolder path = tree.hasFolder path := by
  rw [hasFolder, hasFolder, entry?_eq, entry?_eq, h.locate_eq]
  cases (tree.locate path).toOption with
  | none => rfl
  | some names => exact h.any_isFolder_eq names

theorem AlikeBut.hasEntry_eq (h : AlikeBut place tree changed) (path : Path) :
    changed.hasEntry path = tree.hasEntry path := by
  rw [hasEntry, hasEntry, entry?_eq, entry?_eq, h.locate_eq]
  cases (tree.locate path).toOption with
  | none => rfl
  | some names =>
    have hpresent := h.isSome_eq names
    rwa [sight, sight, Option.isSome_map, Option.isSome_map] at hpresent

/-- What is read is the same, unless the path leads to the one file. -/
theorem AlikeBut.readText_eq (h : AlikeBut place tree changed)
    (hpath : tree.locate path ≠ .ok place) : changed.readText path = tree.readText path := by
  cases hlocate : tree.locate path with
  | error problem => rw [readText, readText, read, read, h.locate_eq, hlocate]
  | ok names =>
    have hother : names ≠ place := fun heq => hpath (heq ▸ hlocate)
    exact readText_congr hlocate ((h.locate_eq path).trans hlocate) (h.same names hother)

/-! ## Listings -/

theorem AlikeBut.collectFiles_eq (h : AlikeBut place tree changed) (hwf : tree.WellFormed)
    (hchanged : changed.WellFormed) (base : Path) (suffixes ignored : List Text) :
    changed.collectFiles base suffixes ignored = tree.collectFiles base suffixes ignored := by
  rw [collectFiles, collectFiles]
  cases hlocate : tree.locate base with
  | error problem => rw [entry?_eq, entry?_eq, h.locate_eq, hlocate]; rfl
  | ok there =>
    rw [entry?_eq_of_locate hlocate, entry?_eq_of_locate ((h.locate_eq base).trans hlocate)]
    have hpresent := h.isSome_eq there
    rw [sight, sight, Option.isSome_map, Option.isSome_map] at hpresent
    cases hold : tree.get? there with
    | none =>
      rw [hold, Option.isSome_none, Option.isSome_eq_false_iff, Option.isNone_iff_eq_none] at hpresent
      rw [hpresent]
    | some old =>
      cases hnew : changed.get? there with
      | none => rw [hold, hnew] at hpresent; cases hpresent
      | some new =>
        have hinside : ∀ names, (new.get? names).any isFile = (old.get? names).any isFile := by
          intro names
          have hany := h.any_isFile_eq (there ++ names)
          rwa [get?_append, get?_append, hold, hnew] at hany
        have hwfOld := wellFormed_of_get? hwf hold
        have hwfNew := wellFormed_of_get? hchanged hnew
        dsimp only
        rw [eq_of_pairwise (fun _ _ hbefore => WayBefore.asymm hbefore)
          (pairwise_filesWithin suffixes ignored hwfNew) (pairwise_filesWithin suffixes ignored hwfOld)]
        intro names
        rw [mem_filesWithin_sorted_iff hwfNew, mem_filesWithin_sorted_iff hwfOld, Lists, Lists, hinside]

theorem folderNames_eq_nil (h : tree.hasFolder base = false) : tree.folderNames base = [] := by
  rw [hasFolder] at h
  rw [folderNames, sortedEntries]
  cases hentry : tree.entry? base with
  | none => rfl
  | some found =>
    cases found with
    | file bytes =>
      dsimp only [FileTree.entries]
      rw [List.mergeSort_nil]
      rfl
    | folder entries => rw [hentry] at h; cases h

theorem AlikeBut.folderNames_eq (h : AlikeBut place tree changed) (hwf : tree.WellFormed)
    (hchanged : changed.WellFormed) (base : Path) :
    changed.folderNames base = tree.folderNames base := by
  cases hbase : tree.hasFolder base with
  | false => rw [folderNames_eq_nil hbase, folderNames_eq_nil ((h.hasFolder_eq base).trans hbase)]
  | true =>
    obtain ⟨there, entries, hthere, hfolder⟩ := locate_of_hasFolder hbase
    obtain ⟨other, others, hother, hothers⟩ := locate_of_hasFolder ((h.hasFolder_eq base).trans hbase)
    obtain rfl : there = other := Except.ok.inj (hthere.symm.trans ((h.locate_eq base).symm.trans hother))
    refine eq_of_pairwise (fun _ _ hbefore => hbefore.asymm) (pairwise_folderNames hchanged base)
      (pairwise_folderNames hwf base) fun name => ?_
    rw [mem_folderNames_iff hchanged hother hothers, mem_folderNames_iff hwf hthere hfolder,
      h.any_isFolder_eq]

end FileTree

end VerticalSlice
