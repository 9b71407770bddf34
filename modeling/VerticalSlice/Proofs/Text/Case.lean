import VerticalSlice.Proofs.Text.Letters
import VerticalSlice.Text.Case

/-!
# Letter case letter by letter

The small form of a text is taken letter by letter, but for the capital sigma, which looks at its
neighbours. On characters of ASCII, and on the few others that are their own small forms, it is the
small form of ASCII (`lower_eq_map`).
-/

namespace VerticalSlice.Text

variable {text : Text} {c : Char}

theorem val_lt_of_isAlphanum (h : c.isAlphanum = true) : c.val < 128 := by
  rw [isAlphanum_iff, isUpper_iff, isLower_iff, isDigit_iff] at h
  rw [UInt32.lt_iff_toNat_lt]
  show c.toNat < 128
  omega

/-- A property of the characters of ASCII is checked on each of them. -/
theorem forall_ascii {p : Char → Bool} (h : ∀ n < 128, p (Char.ofNat n) = true) (hc : c.val < 128) :
    p c = true := by
  have := h c.toNat (by rw [UInt32.lt_iff_toNat_lt] at hc; exact hc)
  rwa [Char.ofNat_toNat] at this

theorem isLower_toLower (h : c.isAlpha = true) : c.toLower.isLower = true := by
  have hlt : c.val < 128 := val_lt_of_isAlphanum (by rw [Char.isAlphanum, h, Bool.true_or])
  have hall := forall_ascii (p := fun c => !c.isAlpha || c.toLower.isLower) (by decide) hlt
  rwa [h, Bool.not_true, Bool.false_or] at hall

theorem lowerChar_ascii (h : c.val < 128) : lowerChar c = [c.toLower] := if_pos h

theorem upperChar_ascii (h : c.val < 128) : upperChar c = [c.toUpper] := if_pos h

/-- The small form of the character is that of ASCII, whatever stands next to it. -/
structure LowersAlone (c : Char) : Prop where
  ne_sigma : c ≠ capitalSigma
  lowerChar_eq : lowerChar c = [c.toLower]

theorem lowersAlone_ascii (h : c.val < 128) : LowersAlone c where
  ne_sigma := by
    rintro rfl
    exact absurd h (by decide)
  lowerChar_eq := lowerChar_ascii h

theorem lowerFrom_eq_map (h : ∀ c ∈ text, LowersAlone c) (before : Text) :
    lowerFrom before text = text.map Char.toLower := by
  induction text generalizing before with
  | nil => rfl
  | cons c rest ih =>
    rw [List.forall_mem_cons] at h
    rw [lowerFrom, if_neg h.1.ne_sigma, h.1.lowerChar_eq, ih h.2]
    rfl

theorem lower_eq_map (h : ∀ c ∈ text, LowersAlone c) : lower text = text.map Char.toLower :=
  lowerFrom_eq_map h []

theorem lower_ascii (h : ∀ c ∈ text, c.val < 128) : lower text = text.map Char.toLower :=
  lower_eq_map fun c hc => lowersAlone_ascii (h c hc)

theorem upper_ascii (h : ∀ c ∈ text, c.val < 128) : upper text = text.map Char.toUpper := by
  induction text with
  | nil => rfl
  | cons c rest ih =>
    rw [upper, List.flatMap_cons, upperChar_ascii (h c (List.mem_cons_self ..)), ← upper,
      ih fun d hd => h d (List.mem_cons_of_mem _ hd)]
    rfl

/-- A character that is no letter is the small form of itself alone. -/
theorem toLower_eq_iff {mark : Char} (h : mark.isAlpha = false) : c.toLower = mark ↔ c = mark := by
  have hself : ∀ {d : Char}, d.isUpper = false → d.toLower = d := by
    intro d hd
    unfold Char.toLower
    rw [dif_neg]
    intro hupper
    exact Bool.false_ne_true (hd.symm.trans (decide_eq_true hupper))
  rw [isAlpha_eq_false_iff, not_or, Bool.not_eq_true, Bool.not_eq_true] at h
  by_cases hc : c.isUpper = true
  · have hlower := @isLower_toLower c (Bool.or_eq_true_iff.2 (.inl hc))
    refine iff_of_false ?_ ?_
    · rintro rfl
      exact absurd hlower (by rw [h.2]; exact Bool.false_ne_true)
    · rintro rfl
      exact absurd hc (by rw [h.1]; exact Bool.false_ne_true)
  · rw [hself (Bool.not_eq_true _ ▸ hc)]

end VerticalSlice.Text
