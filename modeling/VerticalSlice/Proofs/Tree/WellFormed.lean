import VerticalSlice.FileTree

/-!
# Well-formed file trees

A file tree is a value, and a value may hold what no file system holds: two entries of one name in
one folder, or a name such as `..` that means something else on a way. `WellFormed` leaves these out.
It holds of every entry of a well-formed tree (`wellFormed_of_get?`), and a way to an entry consists
of proper names (`isName_of_get?`).
-/

namespace VerticalSlice

/-- Can an entry of a folder have this name? Empty names and the two names with a meaning of their
own on a way are left out, and so are slashes and the character that ends names. -/
def IsName (name : Text) : Prop :=
  name ≠ [] ∧ name ≠ ['.'] ∧ name ≠ parentName ∧ '/' ∉ name ∧ '\x00' ∉ name

instance : DecidablePred IsName := fun name =>
  inferInstanceAs (Decidable
    (name ≠ [] ∧ name ≠ ['.'] ∧ name ≠ parentName ∧ '/' ∉ name ∧ '\x00' ∉ name))

/-- A proper name goes on with anything that has no slash in it. -/
theorem isName_append {name rest : Text} (h : IsName name) (hlong : 2 ≤ rest.length)
    (hslash : '/' ∉ rest) (hnul : '\x00' ∉ rest) : IsName (name ++ rest) := by
  have hpositive := List.length_pos_iff.2 h.1
  have hlength : ∀ other : Text, other.length ≤ 2 → name ++ rest ≠ other := by
    intro other hother heq
    have := congrArg List.length heq
    rw [List.length_append] at this
    omega
  refine ⟨hlength _ (by decide), hlength _ (by decide), hlength _ (by decide), ?_, ?_⟩
  · rw [List.mem_append, not_or]
    exact ⟨h.2.2.2.1, hslash⟩
  · rw [List.mem_append, not_or]
    exact ⟨h.2.2.2.2, hnul⟩

theorem Text.splitOn_of_notMem {separator : Char} {text : Text} (h : separator ∉ text) :
    splitOn separator text = [text] := by
  induction text with
  | nil => rfl
  | cons c rest ih =>
    rw [List.mem_cons, not_or] at h
    rw [splitOn, if_neg (Ne.symm h.1), ih h.2]

/-- A proper name, read as a path, is that name. -/
theorem Path.ofText_of_isName {name : Text} (h : IsName name) :
    Path.ofText name = ⟨.relative, [name]⟩ := by
  have hanchor : Anchor.ofText name = .relative := by
    obtain ⟨c, rest, rfl⟩ := List.exists_cons_of_ne_nil h.1
    have hslash : c ≠ '/' := fun heq => h.2.2.2.1 (heq ▸ List.mem_cons_self ..)
    unfold Anchor.ofText
    split
    · next heq => exact absurd (List.cons.inj heq).1 hslash
    · next heq => exact absurd (List.cons.inj heq).1 hslash
    · next heq => exact absurd (List.cons.inj heq).1 hslash
    · rfl
  rw [ofText, hanchor, namesOfText, Text.splitOn_of_notMem h.2.2.2.1,
    List.filter_cons_of_pos (by simp [h.1, h.2.1]), List.filter_nil]

/-! ## Named entries -/

/-- What a look-up finds is one of the entries. -/
theorem mem_of_lookup {α : Type} {name : Text} {entry : α} {entries : List (Text × α)}
    (h : entries.lookup name = some entry) : (name, entry) ∈ entries := by
  induction entries with
  | nil => simp at h
  | cons pair rest ih =>
    obtain ⟨other, old⟩ := pair
    rw [List.lookup_cons] at h
    cases hname : name == other with
    | true =>
      rw [hname, Option.some.injEq] at h
      rw [eq_of_beq hname, h]
      exact List.mem_cons_self ..
    | false =>
      rw [hname] at h
      exact List.mem_cons_of_mem _ (ih h)

/-- Among entries with different names, a look-up finds each entry. -/
theorem lookup_eq_some_iff {α : Type} {name : Text} {entry : α} {entries : List (Text × α)}
    (h : (entries.map (·.1)).Nodup) :
    entries.lookup name = some entry ↔ (name, entry) ∈ entries := by
  refine ⟨mem_of_lookup, ?_⟩
  induction entries with
  | nil => intro hmem; cases hmem
  | cons pair rest ih =>
    intro hmem
    rw [List.map_cons, List.nodup_cons] at h
    rw [List.lookup_cons]
    rcases List.mem_cons.1 hmem with rfl | hmem
    · simp
    · have hne : name ≠ pair.1 := by
        intro heq
        exact h.1 (heq ▸ List.mem_map_of_mem hmem)
      rw [beq_eq_false_iff_ne.2 hne]
      exact ih h.2 hmem

/-! ## Well-formed trees -/

namespace FileTree

mutual

/-- Every folder has entries with different and proper names. -/
def WellFormed : FileTree → Prop
  | .file _ => True
  | .folder entries => (entries.map (·.1)).Nodup ∧ WellFormedEach entries

def WellFormedEach : List (Text × FileTree) → Prop
  | [] => True
  | (name, entry) :: rest => IsName name ∧ WellFormed entry ∧ WellFormedEach rest

end

mutual

def decideWellFormed : (tree : FileTree) → Decidable tree.WellFormed
  | .file _ => .isTrue trivial
  | .folder entries =>
    have := decideWellFormedEach entries
    inferInstanceAs (Decidable ((entries.map (·.1)).Nodup ∧ WellFormedEach entries))

def decideWellFormedEach : (entries : List (Text × FileTree)) → Decidable (WellFormedEach entries)
  | [] => .isTrue trivial
  | (name, entry) :: rest =>
    have := decideWellFormed entry
    have := decideWellFormedEach rest
    inferInstanceAs (Decidable (IsName name ∧ WellFormed entry ∧ WellFormedEach rest))

end

instance : DecidablePred WellFormed := decideWellFormed

theorem wellFormedEach_iff {entries : List (Text × FileTree)} :
    WellFormedEach entries ↔ ∀ pair ∈ entries, IsName pair.1 ∧ pair.2.WellFormed := by
  induction entries with
  | nil => simp [WellFormedEach]
  | cons pair rest ih => simp [WellFormedEach, ih, and_assoc]

theorem wellFormed_folder_iff {entries : List (Text × FileTree)} :
    (folder entries).WellFormed ↔
      (entries.map (·.1)).Nodup ∧ ∀ pair ∈ entries, IsName pair.1 ∧ pair.2.WellFormed := by
  rw [WellFormed, wellFormedEach_iff]

theorem wellFormed_file (bytes : List UInt8) : (file bytes).WellFormed := by
  rw [WellFormed]
  trivial

theorem wellFormed_empty : empty.WellFormed := by decide

/-- Whatever lies in a well-formed tree is well-formed. -/
theorem wellFormed_of_get? {tree entry : FileTree} {names : List Text} (hwf : tree.WellFormed)
    (h : tree.get? names = some entry) : entry.WellFormed := by
  induction names generalizing tree with
  | nil =>
    rw [get?, Option.some.injEq] at h
    exact h ▸ hwf
  | cons name names ih =>
    rw [get?] at h
    obtain ⟨next, hnext, hrest⟩ := Option.bind_eq_some_iff.1 h
    cases tree with
    | file bytes => simp [entries] at hnext
    | folder entries =>
      rw [wellFormed_folder_iff] at hwf
      exact ih (hwf.2 _ (mem_of_lookup hnext)).2 hrest

theorem wellFormed_of_entry? {tree entry : FileTree} {path : Path} (hwf : tree.WellFormed)
    (h : tree.entry? path = some entry) : entry.WellFormed := by
  unfold entry? at h
  split at h
  · exact wellFormed_of_get? hwf h
  · simp at h

/-- The names on the way to an entry of a well-formed tree are proper ones. -/
theorem isName_of_get? {tree entry : FileTree} {names : List Text} (hwf : tree.WellFormed)
    (h : tree.get? names = some entry) : ∀ name ∈ names, IsName name := by
  induction names generalizing tree with
  | nil => intro name hname; cases hname
  | cons first names ih =>
    rw [get?] at h
    obtain ⟨next, hnext, hrest⟩ := Option.bind_eq_some_iff.1 h
    cases tree with
    | file bytes => simp [entries] at hnext
    | folder entries =>
      rw [wellFormed_folder_iff] at hwf
      have hfirst := hwf.2 _ (mem_of_lookup hnext)
      intro name hname
      rcases List.mem_cons.1 hname with rfl | hname
      · exact hfirst.1
      · exact ih hfirst.2 hrest name hname

end FileTree

end VerticalSlice
