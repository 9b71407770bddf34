import Mathlib.Data.List.Basic
import VerticalSlice.Text.Occurrences

/-!
# The places of a pattern

The search for the occurrences of a pattern goes on behind each one that it finds. It loses nothing if
nothing begins inside an occurrence (`occurrences_eq_places`): then the occurrences are all the places where
something begins, which `mem_places_iff` describes without a search. The occurrences of several patterns that
are sorted together are in the order of their offsets, and none is lost or doubled (`perm_sortByOffset`).
-/

namespace VerticalSlice.Text

variable {α : Type} {pattern : Pattern α} {before text : Text} {skip offset : Nat} {found : Nat × α}

/-! ## Places -/

theorem mem_placesFrom_iff : found ∈ placesFrom pattern before offset text ↔
    ∃ front tail length, text = front ++ tail ∧ tail ≠ [] ∧ found.1 = offset + front.length ∧
      pattern (front.reverse ++ before) tail = some (found.2, length) := by
  induction text generalizing before offset with
  | nil =>
    rw [placesFrom]
    refine ⟨nofun, ?_⟩
    rintro ⟨front, tail, length, h, hne, -⟩
    exact absurd (List.append_eq_nil_iff.1 h.symm).2 hne
  | cons c rest ih =>
    have hrest : found ∈ placesFrom pattern (c :: before) (offset + 1) rest ↔
        ∃ front tail length, c :: rest = c :: front ++ tail ∧ tail ≠ [] ∧
          found.1 = offset + (c :: front).length ∧
          pattern ((c :: front).reverse ++ before) tail = some (found.2, length) := by
      rw [ih]
      simp only [List.cons_append, List.cons.injEq, true_and, List.length_cons, List.reverse_cons,
        List.append_assoc, List.nil_append, Nat.add_assoc, Nat.add_comm 1]
    have hsplit : (∃ front tail length, c :: rest = front ++ tail ∧ tail ≠ [] ∧
          found.1 = offset + front.length ∧ pattern (front.reverse ++ before) tail = some (found.2, length)) ↔
        (found.1 = offset ∧ ∃ length, pattern before (c :: rest) = some (found.2, length)) ∨
          found ∈ placesFrom pattern (c :: before) (offset + 1) rest := by
      rw [hrest]
      constructor
      · rintro ⟨front, tail, length, htext, hne, hoffset, hfound⟩
        cases front with
        | nil =>
          obtain rfl : c :: rest = tail := htext
          exact .inl ⟨hoffset, length, hfound⟩
        | cons d front =>
          obtain ⟨rfl, -⟩ := List.cons.inj htext
          exact .inr ⟨front, tail, length, htext, hne, hoffset, hfound⟩
      · rintro (⟨hoffset, length, hfound⟩ | ⟨front, tail, length, htext, hne, hoffset, hfound⟩)
        · exact ⟨[], c :: rest, length, rfl, List.cons_ne_nil _ _, hoffset, hfound⟩
        · exact ⟨c :: front, tail, length, htext, hne, hoffset, hfound⟩
    rw [hsplit, placesFrom]
    cases hpattern : pattern before (c :: rest) with
    | none => simp
    | some first =>
      obtain ⟨value, length⟩ := first
      rw [List.mem_cons]
      refine or_congr_left ⟨fun h => ⟨by rw [h], length, by rw [h]⟩, ?_⟩
      rintro ⟨hoffset, _, hvalue⟩
      exact Prod.ext hoffset (Prod.mk.inj (Option.some.inj hvalue)).1.symm

/-- Something begins at an offset if the pattern finds it there. -/
theorem mem_places_iff : found ∈ places pattern text ↔
    ∃ front tail length, text = front ++ tail ∧ tail ≠ [] ∧ front.length = found.1 ∧
      pattern front.reverse tail = some (found.2, length) := by
  rw [places, mem_placesFrom_iff]
  simp only [Nat.zero_add, List.append_nil, eq_comm (a := found.1)]

theorem pairwise_placesFrom : (placesFrom pattern before offset text).Pairwise fun first later =>
    first.1 < later.1 := by
  induction text generalizing before offset with
  | nil => exact .nil
  | cons c rest ih =>
    rw [placesFrom]
    split
    · refine .cons (fun later hlater => ?_) ih
      obtain ⟨front, _, _, -, -, hoffset, -⟩ := mem_placesFrom_iff.1 hlater
      rw [hoffset]
      exact Nat.lt_add_right _ (Nat.lt_succ_self _)
    · exact ih

/-- The places are in the order of their offsets. -/
theorem pairwise_places : (places pattern text).Pairwise fun first later => first.1 < later.1 :=
  pairwise_placesFrom

/-- At one offset one thing begins. -/
theorem eq_of_mem_places {other : Nat × α} (hfound : found ∈ places pattern text)
    (hother : other ∈ places pattern text) (hoffset : found.1 = other.1) : found = other := by
  obtain ⟨front, tail, length, htext, -, hfront, hpattern⟩ := mem_places_iff.1 hfound
  obtain ⟨front', tail', length', htext', -, hfront', hpattern'⟩ := mem_places_iff.1 hother
  obtain ⟨rfl, rfl⟩ := List.append_inj (htext.symm.trans htext') (by rw [hfront, hfront', hoffset])
  rw [hpattern] at hpattern'
  exact Prod.ext hoffset (Prod.mk.inj (Option.some.inj hpattern')).1

theorem nodup_places : (places pattern text).Nodup :=
  pairwise_places.imp fun hlt => ne_of_apply_ne Prod.fst (Nat.ne_of_lt hlt)

/-! ## Occurrences -/

/-- Nothing begins inside what begins at a place. -/
def Pattern.Apart (pattern : Pattern α) : Prop :=
  ∀ {before front tail value length}, pattern before (front ++ tail) = some (value, length) → front ≠ [] →
    front.length < length → pattern (front.reverse ++ before) tail = none

/-- The search skips nothing if nothing begins in the characters that are skipped. -/
theorem occurrencesFrom_eq_placesFrom (hpattern : pattern.Apart)
    (hskip : ∀ front tail, text = front ++ tail → front.length < skip →
      pattern (front.reverse ++ before) tail = none) :
    occurrencesFrom pattern before skip offset text = placesFrom pattern before offset text := by
  induction text generalizing before skip offset with
  | nil => rfl
  | cons c rest ih =>
    cases skip with
    | succ skip =>
      have hnone : pattern before (c :: rest) = none := hskip [] (c :: rest) rfl (Nat.zero_lt_succ _)
      rw [occurrencesFrom, placesFrom, hnone]
      refine ih fun front tail hrest hlength => ?_
      have hinside := hskip (c :: front) tail (hrest ▸ rfl) (Nat.succ_lt_succ hlength)
      rwa [List.reverse_cons, List.append_assoc] at hinside
    | zero =>
      rw [occurrencesFrom, placesFrom]
      cases hfound : pattern before (c :: rest) with
      | none => exact ih fun _ _ _ hlength => absurd hlength (Nat.not_lt_zero _)
      | some first =>
        obtain ⟨value, length⟩ := first
        dsimp only
        congr 1
        refine ih fun front tail hrest hlength => ?_
        rw [hrest, ← List.cons_append] at hfound
        have hinside := hpattern hfound (List.cons_ne_nil _ _) (by rw [List.length_cons]; omega)
        rwa [List.reverse_cons, List.append_assoc] at hinside

/-- Where nothing begins inside an occurrence, no place is lost. -/
theorem occurrences_eq_places (hpattern : pattern.Apart) : occurrences pattern text = places pattern text :=
  occurrencesFrom_eq_placesFrom hpattern fun _ _ _ hlength => absurd hlength (Nat.not_lt_zero _)

/-- What is found at all begins at a place. -/
theorem mem_placesFrom_of_mem_occurrencesFrom (h : found ∈ occurrencesFrom pattern before skip offset text) :
    found ∈ placesFrom pattern before offset text := by
  induction text generalizing before skip offset with
  | nil => exact h
  | cons c rest ih =>
    have hrest : ∀ {skip}, found ∈ occurrencesFrom pattern (c :: before) skip (offset + 1) rest →
        found ∈ placesFrom pattern before offset (c :: rest) := by
      intro skip h
      rw [placesFrom]
      split
      · exact List.mem_cons_of_mem _ (ih h)
      · exact ih h
    cases skip with
    | succ skip => exact hrest h
    | zero =>
      rw [occurrencesFrom] at h
      split at h
      · next value length hpattern =>
        rcases List.mem_cons.1 h with rfl | h
        · rw [placesFrom, hpattern]
          exact List.mem_cons_self ..
        · exact hrest h
      · exact hrest h

theorem exists_of_mem_occurrences (h : found ∈ occurrences pattern text) : ∃ front tail length,
    text = front ++ tail ∧ front.length = found.1 ∧ pattern front.reverse tail = some (found.2, length) := by
  obtain ⟨front, tail, length, htext, -, hoffset, hpattern⟩ :=
    mem_places_iff.1 (mem_placesFrom_of_mem_occurrencesFrom h)
  exact ⟨front, tail, length, htext, hoffset, hpattern⟩

/-- In the text that begins behind `before`, something is found behind `front`, or in front of it and over it. -/
def FoundOver (pattern : Pattern α) (before front text : Text) (skip offset : Nat) : Prop :=
  ∃ front' tail' value length, text = front' ++ tail' ∧
    (offset + front'.length, value) ∈ occurrencesFrom pattern before skip offset text ∧
    pattern (front'.reverse ++ before) tail' = some (value, length) ∧
    (front' = front ∨ front'.length < front.length ∧ front.length < front'.length + length)

theorem FoundOver.cons {front rest : Text} {c : Char} {next : Nat}
    (h : FoundOver pattern (c :: before) front rest next (offset + 1))
    (hrest : ∀ found ∈ occurrencesFrom pattern (c :: before) next (offset + 1) rest,
      found ∈ occurrencesFrom pattern before skip offset (c :: rest)) :
    FoundOver pattern before (c :: front) (c :: rest) skip offset := by
  obtain ⟨front', tail', value, length, rfl, hmem, hfound, hplace⟩ := h
  refine ⟨c :: front', tail', value, length, rfl, hrest _ ?_, ?_, ?_⟩
  · rwa [List.length_cons, ← Nat.add_assoc, Nat.add_right_comm]
  · rwa [List.reverse_cons, List.append_assoc]
  · simp only [List.cons.injEq, true_and, List.length_cons]
    exact hplace.imp_right fun hplace => by omega

/-- Where something begins the search skips it, or finds it, or finds something else that goes on over it. -/
theorem foundOver_of_pattern {front tail : Text} {value : α} {length : Nat} (htext : text = front ++ tail)
    (hne : tail ≠ []) (h : pattern (front.reverse ++ before) tail = some (value, length)) :
    front.length < skip ∨ FoundOver pattern before front text skip offset := by
  induction text generalizing front before skip offset with
  | nil => exact absurd (List.append_eq_nil_iff.1 htext.symm).2 hne
  | cons c rest ih =>
    cases front with
    | nil =>
      obtain rfl : c :: rest = tail := htext
      cases skip with
      | succ skip => exact .inl (Nat.zero_lt_succ _)
      | zero =>
        rw [List.reverse_nil, List.nil_append] at h
        refine .inr ⟨[], c :: rest, value, length, rfl, ?_, h, .inl rfl⟩
        rw [occurrencesFrom, h]
        exact List.mem_cons_self ..
    | cons d front =>
      obtain ⟨rfl, hinner⟩ := List.cons.inj htext
      rw [List.reverse_cons, List.append_assoc] at h
      have hnext : ∀ next, front.length < next ∨ FoundOver pattern (c :: before) front rest next (offset + 1) :=
        fun next => ih hinner h
      cases skip with
      | succ skip => exact (hnext skip).imp Nat.succ_lt_succ fun hover => hover.cons fun _ hmem => hmem
      | zero =>
        right
        cases hfirst : pattern before (c :: rest) with
        | none =>
          refine ((hnext 0).resolve_left (Nat.not_lt_zero _)).cons fun _ hmem => ?_
          rwa [occurrencesFrom, hfirst]
        | some first =>
          obtain ⟨value', length'⟩ := first
          rcases hnext (length' - 1) with hskipped | hover
          · refine ⟨[], c :: rest, value', length', rfl, ?_, hfirst, .inr ?_⟩
            · rw [occurrencesFrom, hfirst]
              exact List.mem_cons_self ..
            · simp only [List.length_nil, List.length_cons]
              omega
          · refine hover.cons fun _ hmem => ?_
            rw [occurrencesFrom, hfirst]
            exact List.mem_cons_of_mem _ hmem

/-- Where something begins the search has found it, or something else that begins before and goes on over it. -/
theorem exists_occurrence_over {front tail : Text} {value : α} {length : Nat}
    (h : pattern front.reverse tail = some (value, length)) (hne : tail ≠ []) :
    ∃ front' tail' value' length', front ++ tail = front' ++ tail' ∧
      (front'.length, value') ∈ occurrences pattern (front ++ tail) ∧
      pattern front'.reverse tail' = some (value', length') ∧
      (front' = front ∨ front'.length < front.length ∧ front.length < front'.length + length') := by
  have hover : FoundOver pattern [] front (front ++ tail) 0 0 :=
    (foundOver_of_pattern rfl hne (by rwa [List.append_nil])).resolve_left (Nat.not_lt_zero _)
  simpa only [FoundOver, occurrences, Nat.zero_add, List.append_nil] using hover

/-! ## Sorting -/

variable {found : Nat × α} {all : List (Nat × α)}

theorem perm_insertByOffset : (insertByOffset found all).Perm (found :: all) := by
  induction all with
  | nil => exact .refl _
  | cons first rest ih =>
    rw [insertByOffset]
    split
    · exact .refl _
    · exact (ih.cons first).trans (.swap found first rest)

/-- Sorting loses nothing and doubles nothing. -/
theorem perm_sortByOffset : (sortByOffset all).Perm all := by
  induction all with
  | nil => exact .refl _
  | cons first rest ih => exact perm_insertByOffset.trans (ih.cons first)

theorem pairwise_insertByOffset (h : all.Pairwise fun first later => first.1 ≤ later.1) :
    (insertByOffset found all).Pairwise fun first later => first.1 ≤ later.1 := by
  induction all with
  | nil => exact .cons nofun .nil
  | cons first rest ih =>
    obtain ⟨hfirst, hrest⟩ := List.pairwise_cons.1 h
    rw [insertByOffset]
    split
    · next hle =>
      refine .cons (List.forall_mem_cons.2 ⟨hle, fun later hlater => ?_⟩) h
      exact Nat.le_trans hle (hfirst later hlater)
    · next hlt =>
      refine .cons (fun later hlater => ?_) (ih hrest)
      rcases List.mem_cons.1 (perm_insertByOffset.mem_iff.1 hlater) with rfl | hlater
      · exact Nat.le_of_lt (Nat.lt_of_not_le hlt)
      · exact hfirst later hlater

theorem pairwise_sortByOffset : (sortByOffset all).Pairwise fun first later => first.1 ≤ later.1 := by
  induction all with
  | nil => exact .nil
  | cons first rest ih => exact pairwise_insertByOffset ih

end VerticalSlice.Text
