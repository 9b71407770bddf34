import VerticalSlice.Proofs.Tree.Growth
import VerticalSlice.Proofs.Tree.Listing

/-!
# The order of a listing

A listing is strictly sorted: ways are compared name by name, and two entries of one folder have
different names (`pairwise_filesWithin`). A strictly sorted list is known by what is in it. So when
files are added to a tree, the listing from before is what is left of the new one without them
(`collectFiles_eq_filter`), and the same goes for the folders inside a folder
(`folderNames_eq_filter`).
-/

namespace VerticalSlice

/-! ## Strictly sorted lists -/

section

variable {α : Type} {r : α → α → Prop}

/-- A strictly sorted list whose elements are some of those of another one is a part of it. -/
theorem eq_filter_of_pairwise {first second : List α} {p : α → Bool}
    (hasymm : ∀ a b, r a b → ¬r b a) (hfirst : first.Pairwise r) (hsecond : second.Pairwise r)
    (h : ∀ a, a ∈ first ↔ a ∈ second ∧ p a = true) : first = second.filter p := by
  have hirrefl : ∀ a, ¬r a a := fun a haa => hasymm a a haa haa
  have hnodup : ∀ {list : List α}, list.Pairwise r → list.Nodup := fun hlist =>
    hlist.imp fun {a b} (hab : r a b) (heq : a = b) => hirrefl b (heq ▸ hab)
  have hfilter := hsecond.filter p
  refine List.Perm.eq_of_pairwise (fun a b _ _ hab hba => absurd hba (hasymm a b hab)) hfirst hfilter
    ((List.perm_ext_iff_of_nodup (hnodup hfirst) (hnodup hfilter)).2 fun a => ?_)
  rw [h, List.mem_filter]

end

/-- The order of names, where they differ. -/
def Text.Before (a b : Text) : Prop := List.lt a b

theorem Text.before_of_le_of_ne {a b : Text} (hle : Text.le a b = true) (hne : a ≠ b) :
    Text.Before a b :=
  (List.le_iff_lt_or_eq.1 (of_decide_eq_true hle)).resolve_right hne

theorem Text.Before.asymm {a b : Text} (h : Text.Before a b) : ¬Text.Before b a := List.lt_asymm h

/-- The order of ways, which are compared name by name. -/
def WayBefore : List Text → List Text → Prop := List.Lex Text.Before

theorem WayBefore.asymm {first second : List Text} (h : WayBefore first second) :
    ¬WayBefore second first :=
  @List.lt_asymm _ ⟨Text.Before⟩ ⟨fun _ _ => Text.Before.asymm⟩ first second h

theorem WayBefore.of_append_left {front first second : List Text}
    (h : WayBefore (front ++ first) (front ++ second)) : WayBefore first second := by
  induction front with
  | nil => exact h
  | cons name front ih =>
    cases h with
    | cons h => exact ih h
    | rel hname => exact absurd hname hname.asymm

namespace FileTree

/-- Sorting entries with different names sorts the names strictly. -/
theorem pairwise_mergeSort_entries {entries : List (Text × FileTree)}
    (h : (entries.map (·.1)).Nodup) :
    (entries.mergeSort fun a b => Text.le a.1 b.1).Pairwise fun a b =>
      Text.Before a.1 b.1 := by
  have hsorted := @List.pairwise_mergeSort _ (fun a b : Text × FileTree => Text.le a.1 b.1)
    (fun a b c hab hbc =>
      decide_eq_true (List.le_trans (of_decide_eq_true hab) (of_decide_eq_true hbc)))
    (fun a b => by
      rw [Text.le, Text.le, Bool.or_eq_true, decide_eq_true_eq, decide_eq_true_eq]
      exact List.le_total a.1 b.1) entries
  have hnames : (entries.mergeSort fun a b => Text.le a.1 b.1).Pairwise fun a b => a.1 ≠ b.1 :=
    List.pairwise_map.1 (((List.mergeSort_perm entries _).map Prod.fst).nodup_iff.2 h)
  exact hsorted.imp₂ (fun _ _ => Text.before_of_le_of_ne) hnames

mutual

theorem pairwise_filesWithin (suffixes ignored : List Text) : ∀ {tree : FileTree},
    tree.WellFormed → (filesWithin suffixes ignored tree.sorted).Pairwise WayBefore
  | .file bytes, _ => List.Pairwise.nil
  | .folder entries, hwf => by
    rw [filesWithin_sorted_folder, List.pairwise_flatMap]
    have heach := wellFormed_folder_iff.1 hwf
    constructor
    · intro pair hpair
      obtain ⟨old, hold, rfl⟩ := mem_sorted_entries_iff.1 hpair
      have hinside := pairwise_filesWithin_of_mem suffixes ignored
        (wellFormedEach_iff.2 heach.2) hold
      unfold filesAt
      split
      · split
        · exact List.pairwise_singleton _ _
        · exact List.Pairwise.nil
      · split
        · exact List.Pairwise.nil
        · exact List.pairwise_map.2 (hinside.imp fun h => List.Lex.cons h)
    · have hnames : (sortedEach entries).map (·.1) = entries.map (·.1) := by
        rw [sortedEach_eq_map, List.map_map]
        rfl
      have hsorted := pairwise_mergeSort_entries (hnames ▸ heach.1)
      rw [sorted, FileTree.entries]
      refine hsorted.imp fun hlt first hfirst second hsecond => ?_
      obtain ⟨rest, rfl, -⟩ := mem_filesAt_iff.1 hfirst
      obtain ⟨other, rfl, -⟩ := mem_filesAt_iff.1 hsecond
      exact List.Lex.rel hlt

theorem pairwise_filesWithin_of_mem (suffixes ignored : List Text) :
    ∀ {entries : List (Text × FileTree)} {pair : Text × FileTree}, WellFormedEach entries →
      pair ∈ entries → (filesWithin suffixes ignored pair.2.sorted).Pairwise WayBefore
  | [], _, _, h => by cases h
  | (name, entry) :: rest, pair, hwf, h => by
    rcases List.mem_cons.1 h with rfl | h
    · exact pairwise_filesWithin suffixes ignored hwf.2.1
    · exact pairwise_filesWithin_of_mem suffixes ignored hwf.2.2 h

end

/-! ## Places below a folder -/

variable {tree changed : FileTree} {base : Path} {place names : List Text}

theorem get?_append (tree : FileTree) (first second : List Text) :
    tree.get? (first ++ second) = (tree.get? first).bind (·.get? second) := by
  induction first generalizing tree with
  | nil => rfl
  | cons name first ih =>
    rw [List.cons_append, get?, get?, Option.bind_assoc]
    congr 1
    exact funext ih

theorem walk_append (tree : FileTree) (here first second : List Text) :
    tree.walk here (first ++ second) = (tree.walk here first).bind fun there =>
      tree.walk there second := by
  induction first generalizing here with
  | nil => rfl
  | cons name first ih =>
    rw [List.cons_append, walk, walk]
    split
    · rfl
    · rfl
    · exact ih _

/-- Proper names lead straight down, as far as there are folders. -/
theorem get?_of_walk (tree : FileTree) {here : List Text} (h : ∀ name ∈ names, IsName name) :
    (tree.walk here names).toOption.bind tree.get? = tree.get? (here ++ names) := by
  induction names generalizing here with
  | nil =>
    rw [walk, List.append_nil]
    rfl
  | cons name names ih =>
    have hname := (h name (List.mem_cons_self ..)).2.2.1
    have hrest := @ih (here ++ [name]) fun other hother => h other (List.mem_cons_of_mem _ hother)
    rw [List.append_assoc, List.singleton_append] at hrest
    rw [walk, ← hrest, if_neg hname]
    cases hhere : tree.get? here with
    | none =>
      rw [hrest, get?_append, hhere]
      rfl
    | some entry =>
      cases entry with
      | folder entries => rfl
      | file bytes =>
        rw [hrest, get?_append, hhere]
        rfl

theorem entry?_eq (tree : FileTree) (path : Path) :
    tree.entry? path = (tree.locate path).toOption.bind tree.get? := by
  unfold entry?
  cases tree.locate path <;> rfl

theorem locate_append (hbase : tree.locate base = .ok place) (h : ∀ name ∈ names, IsName name) :
    tree.locate ⟨base.anchor, base.names ++ names⟩ = tree.walk place names := by
  unfold locate at hbase ⊢
  split at hbase
  · cases hbase
  · next hnul =>
    have hnames : (names.any fun name => name.contains '\x00') = false := by
      rw [List.any_eq_false]
      intro name hname
      simpa using (h name hname).2.2.2.2
    rw [List.any_append, hnames, Bool.or_false, if_neg hnul, walk_append, hbase]
    rfl

/-- What is at a path below a folder is what is at the place below that of the folder. -/
theorem entry?_append (hbase : tree.locate base = .ok place) (h : ∀ name ∈ names, IsName name) :
    tree.entry? ⟨base.anchor, base.names ++ names⟩ = tree.get? (place ++ names) := by
  rw [entry?_eq, locate_append hbase h, get?_of_walk tree h]

theorem hasFolder_child (hbase : tree.locate base = .ok place) {name : Text} (h : IsName name) :
    tree.hasFolder (base.child name) = (tree.get? (place ++ [name])).any isFolder := by
  have hnames : ∀ other ∈ [name], IsName other := by simpa using h
  have hentry := entry?_append hbase hnames
  rw [hasFolder, Path.child, hentry]

/-- A walk that never turns back ends where its names lead. -/
theorem eq_append_of_walk {here : List Text} (h : tree.walk here names = .ok place)
    (hdots : parentName ∉ names) : place = here ++ names := by
  induction names generalizing here with
  | nil =>
    rw [List.append_nil]
    exact (Except.ok.inj h).symm
  | cons name names ih =>
    rw [List.mem_cons, not_or] at hdots
    rw [walk] at h
    split at h
    · cases h
    · cases h
    · rw [if_neg (Ne.symm hdots.1)] at h
      rw [ih h hdots.2, List.append_assoc, List.singleton_append]

theorem names_eq_of_locate {path : Path} (h : tree.locate path = .ok place)
    (hdots : parentName ∉ path.names) : path.names = place := by
  unfold locate at h
  split at h
  · cases h
  · exact (eq_append_of_walk h hdots).symm

theorem walk_eq_ok_of_get? {here : List Text} (hdots : parentName ∉ names) {entry : FileTree}
    (hentry : tree.get? (here ++ names) = some entry) :
    tree.walk here names = .ok (here ++ names) := by
  induction names generalizing here with
  | nil => rw [walk, List.append_nil]
  | cons name names ih =>
    rw [List.mem_cons, not_or] at hdots
    rw [get?_append] at hentry
    obtain ⟨next, hnext, hrest⟩ := Option.bind_eq_some_iff.1 hentry
    obtain ⟨entries, below, rfl, -⟩ := exists_entry_of_get?_cons hrest
    rw [walk, hnext]
    dsimp only
    rw [if_neg (Ne.symm hdots.1), ih hdots.2, List.append_assoc, List.singleton_append]
    rw [List.append_assoc, List.singleton_append, get?_append, hnext]
    exact hrest

/-- Below a folder a path leads to the place below that of the folder, if anything is there. -/
theorem locate_eq_ok_append (hbase : tree.locate base = .ok place)
    (h : ∀ name ∈ names, IsName name) {entry : FileTree}
    (hentry : tree.get? (place ++ names) = some entry) :
    tree.locate ⟨base.anchor, base.names ++ names⟩ = .ok (place ++ names) := by
  rw [locate_append hbase h, walk_eq_ok_of_get? (fun hmem => (h _ hmem).2.2.1 rfl) hentry]

/-- A listed file is there to be read. -/
theorem exists_read_of_lists {suffixes ignored : List Text} {found : FileTree} (hwf : tree.WellFormed)
    (hfound : tree.entry? base = some found) (h : Lists suffixes ignored found names) :
    ∃ place bytes, tree.locate base = .ok place ∧
      tree.locate ⟨base.anchor, base.names ++ names⟩ = .ok (place ++ names) ∧
      tree.get? (place ++ names) = some (.file bytes) ∧
      tree.read ⟨base.anchor, base.names ++ names⟩ = .ok bytes := by
  cases hplace : tree.locate base with
  | error problem =>
    rw [entry?_eq, hplace] at hfound
    cases hfound
  | ok place =>
    rw [entry?_eq_of_locate hplace] at hfound
    obtain ⟨entry, hentry, hfile⟩ := (Option.any_eq_true _ _).1 h.2.1
    cases entry with
    | folder entries => cases hfile
    | file bytes =>
      have hget : tree.get? (place ++ names) = some (.file bytes) := by
        rw [get?_append, hfound]
        exact hentry
      have hlocate := locate_eq_ok_append hplace
        (isName_of_lists (wellFormed_of_get? hwf hfound) h) hget
      refine ⟨place, bytes, rfl, hlocate, hget, ?_⟩
      rw [read, hlocate]
      dsimp only
      rw [hget]

/-! ## Listings of a tree that grows -/

theorem isName_of_mem_filesWithin {suffixes ignored : List Text} (hwf : tree.WellFormed)
    (h : names ∈ filesWithin suffixes ignored tree.sorted) : ∀ name ∈ names, IsName name :=
  isName_of_lists hwf ((mem_filesWithin_sorted_iff hwf).1 h)

variable {isNew : List Text → Prop}

/-- The files from before are those of the present ones that were there before. -/
theorem collectFiles_eq_filter (hgrows : Grows isNew tree changed) (hwf : tree.WellFormed)
    (hchanged : changed.WellFormed) (hbase : tree.hasFolder base = true)
    (suffixes ignored : List Text) :
    tree.collectFiles base suffixes ignored =
      (changed.collectFiles base suffixes ignored).filter tree.hasFile := by
  obtain ⟨place, entries, hplace, hfolder⟩ := locate_of_hasFolder hbase
  obtain ⟨others, hothers⟩ := hgrows.get?_folder hfolder
  have hlater := hgrows.locate_eq_ok hplace
  have hinside : ∀ names, (folder entries).get? names = tree.get? (place ++ names) := by
    intro names
    rw [get?_append, hfolder]
    rfl
  have hinsideLater : ∀ names, (folder others).get? names = changed.get? (place ++ names) := by
    intro names
    rw [get?_append, hothers]
    rfl
  have hwfInside := wellFormed_of_get? hwf hfolder
  have hwfLater := wellFormed_of_get? hchanged hothers
  have hhasFile : ∀ names, (∀ name ∈ names, IsName name) →
      tree.hasFile ⟨base.anchor, base.names ++ names⟩ = (tree.get? (place ++ names)).any isFile := by
    intro names hnames
    rw [hasFile, entry?_append hplace hnames]
  rw [collectFiles, collectFiles, entry?_eq_of_locate hplace, entry?_eq_of_locate hlater, hfolder,
    hothers]
  dsimp only
  rw [List.filter_map]
  congr 1
  refine eq_filter_of_pairwise (fun _ _ h => WayBefore.asymm h)
    (pairwise_filesWithin suffixes ignored hwfInside)
    (pairwise_filesWithin suffixes ignored hwfLater) fun names => ?_
  rw [mem_filesWithin_sorted_iff hwfInside, mem_filesWithin_sorted_iff hwfLater,
    Function.comp_apply]
  constructor
  · rintro ⟨hne, hfile, hrest⟩
    rw [hinside] at hfile
    obtain ⟨entry, hentry, hisFile⟩ := (Option.any_eq_true _ _).1 hfile
    cases entry with
    | folder inner => cases hisFile
    | file bytes =>
      have hnames := isName_of_get? hwfInside ((hinside names).trans hentry)
      refine ⟨⟨hne, ?_, hrest⟩, ?_⟩
      · rw [hinsideLater, hgrows.get?_file hentry]
        rfl
      · rw [hhasFile names hnames, hfile]
  · rintro ⟨hlists, hfile⟩
    rw [hhasFile names (isName_of_lists hwfLater hlists)] at hfile
    exact ⟨hlists.1, by rw [hinside, hfile], hlists.2.2⟩

theorem mem_folderNames_iff (hwf : tree.WellFormed) (hplace : tree.locate base = .ok place)
    {entries : List (Text × FileTree)} (hfolder : tree.get? place = some (.folder entries))
    {name : Text} :
    name ∈ tree.folderNames base ↔ (tree.get? (place ++ [name])).any isFolder = true := by
  have hnodup := (wellFormed_folder_iff.1 (wellFormed_of_get? hwf hfolder)).1
  rw [folderNames, sortedEntries, entry?_eq_of_locate hplace, hfolder, get?_append, hfolder]
  dsimp only
  rw [List.mem_map]
  constructor
  · rintro ⟨pair, hpair, rfl⟩
    rw [List.mem_filter, List.mem_mergeSort] at hpair
    rw [Option.bind_some, get?, FileTree.entries, (lookup_eq_some_iff hnodup).2 hpair.1]
    exact hpair.2
  · intro h
    obtain ⟨entry, hentry, hisFolder⟩ := (Option.any_eq_true _ _).1 h
    rw [Option.bind_some, get?] at hentry
    obtain ⟨next, hnext, heq⟩ := Option.bind_eq_some_iff.1 hentry
    obtain rfl := Option.some.inj heq
    exact ⟨(name, next), List.mem_filter.2 ⟨List.mem_mergeSort.2 (mem_of_lookup hnext), hisFolder⟩,
      rfl⟩

theorem pairwise_folderNames (hwf : tree.WellFormed) (base : Path) :
    (tree.folderNames base).Pairwise Text.Before := by
  rw [folderNames, sortedEntries]
  cases hentry : tree.entry? base with
  | none => exact List.Pairwise.nil
  | some found =>
    have hfound := wellFormed_of_entry? hwf hentry
    have hnodup : (found.entries.map (·.1)).Nodup := by
      cases found with
      | file bytes => exact List.nodup_nil
      | folder entries => exact (wellFormed_folder_iff.1 hfound).1
    exact List.pairwise_map.2 ((pairwise_mergeSort_entries hnodup).filter _)

/-! ## Listings name nothing twice -/

theorem nodup_folderNames (hwf : tree.WellFormed) (base : Path) : (tree.folderNames base).Nodup :=
  (pairwise_folderNames hwf base).imp fun hlt heq => by
    subst heq
    exact Text.Before.asymm hlt hlt

theorem nodup_collectFiles (hwf : tree.WellFormed) (base : Path) (suffixes ignored : List Text) :
    (tree.collectFiles base suffixes ignored).Nodup := by
  rw [collectFiles]
  cases hentry : tree.entry? base with
  | none => exact List.nodup_nil
  | some found =>
    have hways := pairwise_filesWithin suffixes ignored ( wellFormed_of_entry? hwf hentry)
    refine List.pairwise_map.2 (hways.imp fun {first second} hlt heq => ?_)
    obtain rfl := List.append_cancel_left (congrArg Path.names heq)
    exact WayBefore.asymm hlt hlt

/-- The folders from before are those of the present ones that were there before. -/
theorem folderNames_eq_filter (hgrows : Grows isNew tree changed) (hwf : tree.WellFormed)
    (hchanged : changed.WellFormed) (hbase : tree.hasFolder base = true) :
    tree.folderNames base =
      (changed.folderNames base).filter fun name => tree.hasFolder (base.child name) := by
  obtain ⟨place, entries, hplace, hfolder⟩ := locate_of_hasFolder hbase
  obtain ⟨others, hothers⟩ := hgrows.get?_folder hfolder
  have hlater := hgrows.locate_eq_ok hplace
  refine eq_filter_of_pairwise (fun _ _ h => h.asymm) (pairwise_folderNames hwf base)
    (pairwise_folderNames hchanged base) fun name => ?_
  rw [mem_folderNames_iff hwf hplace hfolder, mem_folderNames_iff hchanged hlater hothers]
  constructor
  · intro h
    obtain ⟨entry, hentry, hisFolder⟩ := (Option.any_eq_true _ _).1 h
    cases entry with
    | file bytes => cases hisFolder
    | folder inner =>
      obtain ⟨more, hmore⟩ := hgrows.get?_folder hentry
      have hname := isName_of_get? hwf hentry name (by simp)
      rw [hasFolder_child hplace hname, hmore, h]
      exact ⟨rfl, rfl⟩
  · rintro ⟨hpresent, hold⟩
    obtain ⟨entry, hentry, -⟩ := (Option.any_eq_true _ _).1 hpresent
    have hname := isName_of_get? hchanged hentry name (by simp)
    rwa [hasFolder_child hplace hname] at hold

end FileTree

end VerticalSlice
