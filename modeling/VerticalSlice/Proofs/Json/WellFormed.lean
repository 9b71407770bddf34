import VerticalSlice.Json.Reader

/-!
# Well-formed JSON values

An object is a list of members, and a list may hold one name twice. `WellFormed` leaves this out, at every
depth. The reader sets a member again that it has already met, so whatever it reads is well-formed
(`wellFormed_ofText`).
-/

namespace VerticalSlice.Json

mutual

/-- No object in the value has two members of one name. -/
def WellFormed : Json → Prop
  | .list items => WellFormedItems items
  | .object members => (members.map (·.1)).Nodup ∧ WellFormedMembers members
  | _ => True

def WellFormedItems : List Json → Prop
  | [] => True
  | item :: rest => WellFormed item ∧ WellFormedItems rest

def WellFormedMembers : List (Text × Json) → Prop
  | [] => True
  | (_, value) :: rest => WellFormed value ∧ WellFormedMembers rest

end

theorem wellFormed_list_iff {items : List Json} : (list items).WellFormed ↔ ∀ item ∈ items, item.WellFormed := by
  rw [WellFormed]
  induction items with
  | nil => simp [WellFormedItems]
  | cons item rest ih => simp [WellFormedItems, ih]

theorem wellFormedMembers_iff {members : List (Text × Json)} :
    WellFormedMembers members ↔ ∀ member ∈ members, member.2.WellFormed := by
  induction members with
  | nil => simp [WellFormedMembers]
  | cons member rest ih => simp [WellFormedMembers, ih]

theorem wellFormed_object_nil : (object []).WellFormed := by
  rw [WellFormed]
  exact ⟨List.nodup_nil, trivial⟩

theorem wellFormed_list_nil : (list []).WellFormed := by
  rw [WellFormed]
  trivial

theorem wellFormed_object_iff {members : List (Text × Json)} :
    (object members).WellFormed ↔ (members.map (·.1)).Nodup ∧ ∀ member ∈ members, member.2.WellFormed := by
  rw [WellFormed, wellFormedMembers_iff]

/-! ## Setting a member -/

section

variable {name : Text} {value : Json} {members : List (Text × Json)}

/-- A member that is set is the only one that is new. -/
theorem mem_of_mem_setMember {member : Text × Json} (h : member ∈ setMember name value members) :
    member = (name, value) ∨ member ∈ members := by
  induction members with
  | nil => exact .inl (List.mem_singleton.1 h)
  | cons first rest ih =>
    rw [setMember] at h
    split at h
    · exact (List.mem_cons.1 h).imp_right (List.mem_cons_of_mem _)
    · rcases List.mem_cons.1 h with rfl | h
      · exact .inr (List.mem_cons_self ..)
      · exact (ih h).imp_right (List.mem_cons_of_mem _)

theorem nodup_setMember (h : (members.map (·.1)).Nodup) : ((setMember name value members).map (·.1)).Nodup := by
  induction members with
  | nil => simp [setMember]
  | cons first rest ih =>
    obtain ⟨other, old⟩ := first
    rw [List.map_cons, List.nodup_cons] at h
    rw [setMember]
    split
    · next heq =>
      obtain rfl : other = name := heq
      exact List.nodup_cons.2 h
    · next hne =>
      refine List.nodup_cons.2 ⟨fun hmem => ?_, ih h.2⟩
      obtain ⟨member, hmember, heq⟩ := List.mem_map.1 hmem
      rcases mem_of_mem_setMember hmember with rfl | hmember
      · exact hne heq.symm
      · have hold := List.mem_map_of_mem (f := (·.1)) hmember
        rw [heq] at hold
        exact h.1 hold

theorem wellFormed_setMember (hmembers : (object members).WellFormed) (hvalue : value.WellFormed) :
    (object (setMember name value members)).WellFormed := by
  rw [wellFormed_object_iff] at hmembers ⊢
  refine ⟨nodup_setMember hmembers.1, fun member hmember => ?_⟩
  rcases mem_of_mem_setMember hmember with rfl | hmember
  · exact hvalue
  · exact hmembers.2 member hmember

end

/-! ## What is read -/

theorem wellFormed_of_find?_words {accept : Text × Json → Bool} {word : Text × Json}
    (h : words.find? accept = some word) : word.2.WellFormed := by
  have hall : ∀ word ∈ words, word.2.WellFormed := by simp [words, WellFormed]
  exact hall word (List.mem_of_find?_eq_some h)

theorem wellFormed_readNumber {cursor after : Cursor} {value : Json}
    (h : readNumber cursor = .ok (value, after)) : value.WellFormed := by
  rw [readNumber] at h
  split at h
  extract_lets at h
  split at h
  · cases h
  · split at h
    · obtain ⟨rfl, -⟩ := Prod.mk.inj (Except.ok.inj h)
      trivial
    · obtain ⟨rfl, -⟩ := Prod.mk.inj (Except.ok.inj h)
      trivial

/-- With this fuel each of the three readers gives what is well-formed, if what it has done so far is. -/
structure ReadsWellFormed (fuel : Nat) : Prop where
  value : ∀ {cursor value after}, readValue fuel cursor = .ok (value, after) → value.WellFormed
  members : ∀ {done cursor value after}, (object done).WellFormed →
    readMembers fuel done cursor = .ok (value, after) → value.WellFormed
  items : ∀ {done cursor value after}, (list done).WellFormed →
    readItems fuel done cursor = .ok (value, after) → value.WellFormed

/-- The readers call one another with less fuel, so that one induction does for all three. -/
theorem readsWellFormed (fuel : Nat) : ReadsWellFormed fuel := by
  induction fuel with
  | zero =>
    constructor
    · intro cursor value after h
      simp [readValue, Cursor.fail] at h
    · intro done cursor value after _ h
      simp [readMembers, Cursor.fail] at h
    · intro done cursor value after _ h
      simp [readItems, Cursor.fail] at h
  | succ fuel ih =>
    constructor
    · intro cursor value after h
      rw [readValue] at h
      split at h
      · split at h
        · cases h; trivial
        · cases h
      · dsimp only at h
        split at h
        · cases h; exact wellFormed_object_nil
        · exact ih.members wellFormed_object_nil h
      · dsimp only at h
        split at h
        · cases h; exact wellFormed_list_nil
        · exact ih.items wellFormed_list_nil h
      · split at h
        · next hfind => cases h; exact wellFormed_of_find?_words hfind
        · exact wellFormed_readNumber h
    · intro done cursor value after hdone h
      rw [readMembers] at h
      split at h
      · split at h
        · cases h
        · dsimp only at h
          split at h
          · split at h
            · cases h
            · next hvalue =>
              have hnext := fun name => @wellFormed_setMember name _ _ hdone (ih.value hvalue)
              split at h
              · cases h; exact hnext _
              · exact ih.members (hnext _) h
              · cases h
          · cases h
      · cases h
    · intro done cursor value after hdone h
      rw [readItems] at h
      split at h
      · cases h
      · next item _ hitem =>
        have hnext : (list (item :: done)).WellFormed := by
          rw [wellFormed_list_iff] at hdone ⊢
          exact List.forall_mem_cons.2 ⟨ih.value hitem, hdone⟩
        dsimp only at h
        split at h
        · cases h
          rw [wellFormed_list_iff] at hnext ⊢
          exact fun other hother => hnext other (List.mem_reverse.1 hother)
        · exact ih.items hnext h
        · cases h

/-- A value that is read is well-formed. -/
theorem wellFormed_ofText {text : Text} {value : Json} (h : ofText text = .ok value) : value.WellFormed := by
  unfold ofText at h
  split at h
  · cases h
  · split at h
    · cases h
    · next hread =>
      dsimp only at h
      split at h
      · cases h; exact (readsWellFormed _).value hread
      · cases h

end VerticalSlice.Json
