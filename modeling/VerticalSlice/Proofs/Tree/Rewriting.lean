import VerticalSlice.Proofs.Text.Utf8
import VerticalSlice.Proofs.Tree.Growth

/-!
# Rewriting file trees

A program that fails half-way leaves what it did before. `Alters` says of a change which places it
may have touched: every folder is still there, and at the other places there is what was there
before. So every path that led somewhere leads to the same place as before
(`KeepsFolders.locate_eq_ok`). Writing a file touches the place of the file, also where a file was
before (`exists_of_write`), and what is written can be read again (`readText_of_writeText`). Making
the folders on the way to a path touches only places on this way where nothing was
(`alters_makeFolders`).
-/

namespace VerticalSlice.FileTree

variable {tree changed later : FileTree}

/-- Where a folder was there is a folder. -/
def KeepsFolders (tree changed : FileTree) : Prop :=
  ∀ names, tree.sight names = some none → changed.sight names = some none

/-- Folders stay, and places that are not among these ones are as before. -/
structure Alters (isAltered : List Text → Prop) (tree changed : FileTree) : Prop where
  folder : KeepsFolders tree changed
  same : ∀ names, ¬isAltered names → changed.sight names = tree.sight names

theorem alters_refl (tree : FileTree) : Alters (fun _ => False) tree tree where
  folder _ h := h
  same _ _ := rfl

theorem Alters.trans {isAltered isAlteredLater : List Text → Prop} (h : Alters isAltered tree changed)
    (hlater : Alters isAlteredLater changed later) :
    Alters (fun names => isAltered names ∨ isAlteredLater names) tree later where
  folder names hfolder := hlater.folder names (h.folder names hfolder)
  same names hnames := by
    rw [not_or] at hnames
    rw [hlater.same names hnames.2, h.same names hnames.1]

theorem Alters.mono {isAltered isAltered' : List Text → Prop} (h : Alters isAltered tree changed)
    (himp : ∀ names, isAltered names → isAltered' names) : Alters isAltered' tree changed where
  folder := h.folder
  same names hnames := h.same names (mt (himp names) hnames)

theorem KeepsFolders.get?_folder (h : KeepsFolders tree changed) {names : List Text}
    {entries : List (Text × FileTree)} (hfolder : tree.get? names = some (.folder entries)) :
    ∃ entries, changed.get? names = some (.folder entries) :=
  sight_eq_folder_iff.1 (h names (sight_eq_folder_iff.2 ⟨entries, hfolder⟩))

/-- A walk that ends somewhere goes through folders, and these stay. -/
theorem KeepsFolders.walk_eq_ok (h : KeepsFolders tree changed) {here names place : List Text}
    (hwalk : tree.walk here names = .ok place) : changed.walk here names = .ok place := by
  induction names generalizing here with
  | nil => exact hwalk
  | cons name names ih =>
    rw [walk] at hwalk ⊢
    split at hwalk
    · cases hwalk
    · cases hwalk
    · next entries hfolder =>
      obtain ⟨others, hothers⟩ := h.get?_folder hfolder
      rw [hothers]
      exact ih hwalk

theorem KeepsFolders.locate_eq_ok (h : KeepsFolders tree changed) {path : Path} {place : List Text}
    (hlocate : tree.locate path = .ok place) : changed.locate path = .ok place := by
  unfold locate at hlocate ⊢
  split at hlocate
  · cases hlocate
  · next hnul =>
    rw [if_neg hnul]
    exact h.walk_eq_ok hlocate

/-! ## One entry -/

/-- An entry that holds nothing itself takes the place of such an entry, or of nothing. -/
theorem alters_put {outer : List Text} {name : Text} {entry : FileTree}
    {inside : List (Text × FileTree)} (h : tree.get? outer = some (.folder inside))
    (hleaf : ∀ old, tree.get? (outer ++ [name]) = some old → old.isFolder = false)
    (hentry : entry.entries = []) :
    Alters (· = outer ++ [name]) tree (tree.put (outer ++ [name]) entry) := by
  have hsame : ∀ names, names ≠ outer ++ [name] →
      (tree.put (outer ++ [name]) entry).sight names = tree.sight names := fun names hne =>
    sight_put h (fun old hold => by
      cases old with
      | file bytes => rfl
      | folder entries => cases hleaf _ hold) hentry hne
  refine ⟨fun names hfolder => ?_, hsame⟩
  rw [hsame names, hfolder]
  rintro rfl
  obtain ⟨entries, hentries⟩ := sight_eq_folder_iff.1 hfolder
  cases hleaf _ hentries

/-- What is put in place of something that is no folder goes into a folder. -/
theorem exists_concat_of_get?_dropLast {place : List Text} {inside : List (Text × FileTree)}
    (h : tree.get? place.dropLast = some (.folder inside))
    (hleaf : ∀ old, tree.get? place = some old → old.isFolder = false) :
    ∃ outer name, place = outer ++ [name] ∧ tree.get? outer = some (.folder inside) := by
  have hne : place ≠ [] := by
    rintro rfl
    cases hleaf _ h
  exact ⟨place.dropLast, place.getLast hne, (List.dropLast_concat_getLast hne).symm, h⟩

/-- Writing a file touches its place only. -/
theorem exists_of_write {path : Path} {bytes : List UInt8} (h : tree.write path bytes = .ok changed) :
    ∃ place, tree.locate path = .ok place ∧ changed.get? place = some (.file bytes) ∧
      Alters (· = place) tree changed := by
  rw [write] at h
  cases hlocate : tree.locate path with
  | error problem => rw [hlocate] at h; cases h
  | ok place =>
    rw [hlocate] at h
    dsimp only at h
    have hleaf : ∀ old, tree.get? place = some old → old.isFolder = false := by
      rintro (bytes | entries) hold
      · rfl
      · rw [hold] at h; cases h
    split at h
    · cases h
    · split at h
      · next inside hinside =>
        obtain rfl := Except.ok.inj h
        obtain ⟨outer, name, rfl, houter⟩ := exists_concat_of_get?_dropLast hinside hleaf
        exact ⟨_, rfl, get?_put_self houter, alters_put houter hleaf rfl⟩
      · cases h
      · cases h

/-- Making a folder touches its place only, where nothing was. -/
theorem exists_of_makeFolder {path : Path} (h : tree.makeFolder path = .ok changed) :
    ∃ place, tree.locate path = .ok place ∧ tree.get? place = none ∧
      changed.get? place = some empty ∧ Alters (· = place) tree changed := by
  rw [makeFolder] at h
  cases hlocate : tree.locate path with
  | error problem => rw [hlocate] at h; cases h
  | ok place =>
    rw [hlocate] at h
    dsimp only at h
    split at h
    · cases h
    · next habsent =>
      have hleaf : ∀ old, tree.get? place = some old → old.isFolder = false := by
        intro old hold
        rw [habsent] at hold
        cases hold
      split at h
      · next inside hinside =>
        obtain rfl := Except.ok.inj h
        obtain ⟨outer, name, rfl, houter⟩ := exists_concat_of_get?_dropLast hinside hleaf
        exact ⟨_, rfl, habsent, get?_put_self houter, alters_put houter hleaf rfl⟩
      · cases h
      · cases h

/-! ## The folders on a way -/

/-- A folder is at the place where nothing was, and a front part of the path leads there. -/
def IsNewFolder (tree changed : FileTree) (path : Path) (place : List Text) : Prop :=
  tree.sight place = none ∧ changed.sight place = some none ∧
    ∃ way, way <+: path.names ∧ changed.locate ⟨path.anchor, way⟩ = .ok place

theorem IsNewFolder.mono {path longer : Path} {place : List Text}
    (h : IsNewFolder tree changed path place) (hlater : KeepsFolders changed later)
    (hanchor : longer.anchor = path.anchor) (hnames : path.names <+: longer.names) :
    IsNewFolder tree later longer place := by
  obtain ⟨hnone, hfolder, way, hway, hlocate⟩ := h
  exact ⟨hnone, hlater _ hfolder, way, hway.trans hnames, hanchor ▸ hlater.locate_eq_ok hlocate⟩

/-- Where new folders were made and more of them are made, nothing was before. -/
theorem Alters.trans_newFolder {path : Path}
    (h : Alters (IsNewFolder tree changed path) tree changed)
    (hlater : Alters (IsNewFolder changed later path) changed later) :
    Alters (IsNewFolder tree later path) tree later := by
  refine (h.trans hlater).mono fun place hplace => ?_
  rcases hplace with hplace | ⟨hnone, hfolder, hway⟩
  · exact hplace.mono hlater.folder rfl (List.prefix_refl _)
  · refine ⟨?_, hfolder, hway⟩
    by_cases hnew : IsNewFolder tree changed path place
    · exact hnew.1
    · rwa [h.same place hnew] at hnone

theorem alters_tolerate {path : Path} {result : Except FileFault Unit}
    (h : tolerate tree path (tree.makeFolder path) = (changed, result)) :
    Alters (IsNewFolder tree changed path) tree changed := by
  cases hmake : tree.makeFolder path with
  | ok made =>
    rw [hmake] at h
    obtain ⟨rfl, -⟩ := Prod.mk.inj h
    obtain ⟨place, hlocate, habsent, hmade, halters⟩ := exists_of_makeFolder hmake
    refine halters.mono fun names hnames => ?_
    subst hnames
    exact ⟨sight_eq_none_iff.2 habsent, sight_eq_folder_iff.2 ⟨[], hmade⟩, path.names,
      List.prefix_refl _, halters.folder.locate_eq_ok hlocate⟩
  | error fault =>
    have hsame : changed = tree := by
      rw [hmake, tolerate] at h
      split at h
      · exact (Prod.mk.inj h).1.symm
      · exact (Prod.mk.inj h).1.symm
    rw [hsame]
    exact (alters_refl tree).mono fun _ => False.elim

/-- Making the folders on a way touches only places on this way where nothing was, also if it
fails. -/
theorem alters_makeFoldersRev {anchor : Anchor} {names : List Text} {result : Except FileFault Unit}
    (h : tree.makeFoldersRev anchor names = (changed, result)) :
    Alters (IsNewFolder tree changed ⟨anchor, names.reverse⟩) tree changed := by
  induction names generalizing changed result with
  | nil => exact alters_tolerate h
  | cons name outer ih =>
    rw [makeFoldersRev] at h
    have hlonger : outer.reverse <+: (name :: outer).reverse := by
      rw [List.reverse_cons]
      exact List.prefix_append _ _
    split at h
    · -- the folder around it is missing, and is made first
      split at h
      · next made hmade =>
        have hlast := alters_tolerate h
        refine Alters.trans_newFolder ((ih hmade).mono fun place hplace => ?_) hlast
        exact hplace.mono (fun _ hfolder => hfolder) rfl hlonger
      · exact (ih h).mono fun place hplace => hplace.mono (fun _ hfolder => hfolder) rfl hlonger
    · exact alters_tolerate h

theorem alters_makeFolders {path : Path} {result : Except FileFault Unit}
    (h : tree.makeFolders path = (changed, result)) :
    Alters (IsNewFolder tree changed path) tree changed := by
  have hnames := alters_makeFoldersRev h
  rwa [List.reverse_reverse] at hnames

/-! ## Reading what was written -/

theorem hasFile_of_readText {path : Path} {text : Text} (h : tree.readText path = .ok text) :
    tree.hasFile path = true := by
  rw [readText, read] at h
  cases hlocate : tree.locate path with
  | error problem => rw [hlocate] at h; cases h
  | ok place =>
    rw [hlocate] at h
    rw [hasFile, entry?_eq_of_locate hlocate]
    dsimp only at h
    cases hentry : tree.get? place with
    | none => rw [hentry] at h; cases h
    | some entry =>
      cases entry with
      | folder entries => rw [hentry] at h; cases h
      | file bytes => rfl

/-- A text that was written can be read again, with one form of line ends. -/
theorem readText_of_writeText {path : Path} {text : Text}
    (h : tree.writeText path text = .ok changed) :
    changed.readText path = .ok (Text.normalizeNewlines text) := by
  obtain ⟨place, hlocate, hfile, halters⟩ := exists_of_write h
  rw [readText, read, halters.folder.locate_eq_ok hlocate]
  dsimp only
  rw [hfile]
  dsimp only
  rw [Text.ofBytes_encode_eq]

end VerticalSlice.FileTree
