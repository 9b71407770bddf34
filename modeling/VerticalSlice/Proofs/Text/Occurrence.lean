import VerticalSlice.Text.Search

/-!
# Occurrences in composed texts

What occurs in two texts put together occurs in one of them or reaches across the seam
(`infix_append_iff`). A text is split at its last occurrence of another one: that is where it goes on
with it, and behind the start of this occurrence there is no other (`not_infix_of_splitAtLast`).
-/

namespace VerticalSlice.Text

variable {word before after text : Text}

theorem infix_append_iff :
    word <:+: before ++ after ↔ word <:+: before ∨ word <:+: after ∨
      ∃ first second, word = first ++ second ∧ first ≠ [] ∧ second ≠ [] ∧ first <:+ before ∧
        second <+: after := by
  constructor
  · rintro ⟨left, right, h⟩
    rw [List.append_assoc, List.append_eq_append_iff] at h
    rcases h with ⟨rest, hbefore, hword⟩ | ⟨rest, -, hafter⟩
    · rw [List.append_eq_append_iff] at hword
      rcases hword with ⟨more, hrest, -⟩ | ⟨second, hsplit, hafter⟩
      · exact .inl ⟨left, more, by rw [hbefore, hrest, List.append_assoc]⟩
      · by_cases hfirst : rest = []
        · rw [hfirst, List.nil_append] at hsplit
          exact .inr (.inl (hafter ▸ hsplit ▸ (List.prefix_append _ _).isInfix))
        · by_cases hsecond : second = []
          · rw [hsecond, List.append_nil] at hsplit
            exact .inl (hbefore ▸ hsplit ▸ (List.suffix_append _ _).isInfix)
          · exact .inr (.inr ⟨rest, second, hsplit, hfirst, hsecond,
              hbefore ▸ List.suffix_append _ _, hafter ▸ List.prefix_append _ _⟩)
    · exact .inr (.inl ⟨rest, right, by rw [hafter, List.append_assoc]⟩)
  · rintro (h | h | ⟨first, second, rfl, -, -, ⟨left, rfl⟩, right, rfl⟩)
    · exact h.trans (List.prefix_append _ _).isInfix
    · exact h.trans (List.suffix_append _ _).isInfix
    · exact ⟨left, right, by simp only [List.append_assoc]⟩

/-- A text splits in one way at the first occurrence of a character. -/
theorem split_unique {c : Char} {first first' second second' : Text} (hfirst : c ∉ first)
    (hfirst' : c ∉ first') (h : first ++ c :: second = first' ++ c :: second') :
    first = first' ∧ second = second' := by
  induction first generalizing first' with
  | nil =>
    cases first' with
    | nil => exact ⟨rfl, (List.cons.inj h).2⟩
    | cons d first' => exact absurd ((List.cons.inj h).1 ▸ List.mem_cons_self ..) hfirst'
  | cons d first ih =>
    cases first' with
    | nil => exact absurd ((List.cons.inj h).1 ▸ List.mem_cons_self ..) hfirst
    | cons d' first' =>
      rw [List.mem_cons, not_or] at hfirst hfirst'
      obtain ⟨rfl, hrest⟩ := List.cons.inj h
      obtain ⟨rfl, hsecond⟩ := ih hfirst.2 hfirst'.2 hrest
      exact ⟨rfl, hsecond⟩

/-- The last character of a text is in every text that it ends with. -/
theorem mem_of_suffix {c : Char} (h : word <:+ text) (hne : word ≠ [])
    (hlast : text.getLast? = some c) : c ∈ word := by
  obtain ⟨front, rfl⟩ := h
  rw [List.getLast?_append, List.getLast?_eq_some_getLast hne, Option.some_or] at hlast
  exact Option.some.inj hlast ▸ List.getLast_mem hne

/-- The first character of a text is in every text that it begins with. -/
theorem mem_of_prefix {c : Char} (h : word <+: text) (hne : word ≠ [])
    (hhead : text.head? = some c) : c ∈ word := by
  obtain ⟨d, rest, rfl⟩ := List.exists_cons_of_ne_nil hne
  obtain ⟨more, rfl⟩ := h
  rw [← Option.some.inj hhead]
  exact List.mem_cons_self ..

theorem splitAtFirst_eq_none_iff : splitAtFirst word text = none ↔ ¬word <:+: text := by
  rw [← occursIn_iff_infix, occursIn, Bool.not_eq_true, Option.isSome_eq_false_iff, Option.isNone_iff_eq_none]

/-- A text is split at the first occurrence: it goes on with the word there, and at no place before. -/
theorem splitAtFirst_eq_some_iff (hne : word ≠ []) : splitAtFirst word text = some (before, after) ↔
    text = before ++ after ∧ word <+: after ∧
      ∀ front tail, before = front ++ tail → tail ≠ [] → ¬word <+: tail ++ after := by
  induction text generalizing before with
  | nil =>
    rw [splitAtFirst, if_neg (by rwa [List.isEmpty_iff])]
    constructor
    · intro h
      cases h
    · rintro ⟨h, hword, -⟩
      rw [(List.append_eq_nil_iff.1 h.symm).2, List.prefix_nil] at hword
      exact absurd hword hne
  | cons c rest ih =>
    rw [splitAtFirst]
    by_cases hfirst : word.isPrefixOf (c :: rest) = true
    · rw [if_pos hfirst]
      rw [List.isPrefixOf_iff_prefix] at hfirst
      constructor
      · intro h
        obtain ⟨rfl, rfl⟩ := Prod.mk.inj (Option.some.inj h)
        exact ⟨rfl, hfirst, fun front tail hnil htail => absurd (List.append_eq_nil_iff.1 hnil.symm).2 htail⟩
      · rintro ⟨htext, -, hbefore⟩
        cases before with
        | nil => rw [htext, List.nil_append]
        | cons d before => exact absurd (htext ▸ hfirst) (hbefore [] _ rfl (List.cons_ne_nil _ _))
    · rw [if_neg hfirst, Option.map_eq_some_iff]
      rw [List.isPrefixOf_iff_prefix] at hfirst
      constructor
      · rintro ⟨⟨front, back⟩, hrest, heq⟩
        obtain ⟨rfl, rfl⟩ := Prod.mk.inj heq
        obtain ⟨rfl, hword, hbefore⟩ := ih.1 hrest
        refine ⟨rfl, hword, fun first tail hsplit htail => ?_⟩
        cases first with
        | nil =>
          rw [List.nil_append] at hsplit
          rwa [← hsplit]
        | cons d first => exact hbefore first tail (List.cons.inj hsplit).2 htail
      · rintro ⟨htext, hword, hbefore⟩
        cases before with
        | nil => exact absurd (htext ▸ hword) hfirst
        | cons d before =>
          obtain ⟨rfl, hrest⟩ := List.cons.inj htext
          refine ⟨(before, after), ih.2 ⟨hrest, hword, fun front tail hsplit => ?_⟩, rfl⟩
          exact hbefore (c :: front) tail (by rw [hsplit, List.cons_append])


theorem splitAtLast_eq_none_iff : splitAtLast word text = none ↔ ¬word <:+: text := by
  induction text with
  | nil =>
    rw [splitAtLast, List.infix_nil]
    cases word <;> simp
  | cons c rest ih =>
    rw [splitAtLast, List.infix_cons_iff, not_or]
    cases hrest : splitAtLast word rest with
    | some parts =>
      have hfound : ¬¬word <:+: rest := fun h => by
        rw [ih.2 h] at hrest
        cases hrest
      dsimp only
      exact iff_of_false (fun h => by cases h) fun h => hfound h.2
    | none =>
      dsimp only
      rw [and_iff_left (ih.1 hrest), ← List.isPrefixOf_iff_prefix]
      cases word.isPrefixOf (c :: rest) <;> simp

theorem not_infix_of_splitAtLast (hne : word ≠ []) (h : splitAtLast word text = some (before, after)) :
    word <+: after ∧ ¬word <:+: after.tail := by
  induction text generalizing before with
  | nil =>
    rw [splitAtLast, if_neg (by simpa using hne)] at h
    cases h
  | cons c rest ih =>
    rw [splitAtLast] at h
    cases hrest : splitAtLast word rest with
    | some parts =>
      rw [hrest] at h
      obtain ⟨rfl, rfl⟩ := Prod.mk.inj (Option.some.inj h)
      exact ih hrest
    | none =>
      rw [hrest] at h
      dsimp only at h
      split at h
      · next hprefix =>
        obtain ⟨rfl, rfl⟩ := Prod.mk.inj (Option.some.inj h)
        exact ⟨List.isPrefixOf_iff_prefix.1 hprefix, splitAtLast_eq_none_iff.1 hrest⟩
      · cases h

end VerticalSlice.Text
