import VerticalSlice.Text.Basic

/-!
# Finding one text inside another

Texts that are scanned are lists of characters. Splitting a text around an occurrence of another
text loses nothing: the parts put together again are the text.
-/

namespace VerticalSlice.Text

/-- The text split at the first occurrence of `needle`: what stands before it, and the rest, which
begins with it. -/
def splitAtFirst (needle : Text) : Text → Option (Text × Text)
  | [] => if needle.isEmpty then some ([], []) else none
  | c :: rest =>
    if needle.isPrefixOf (c :: rest) then some ([], c :: rest)
    else (splitAtFirst needle rest).map fun (before, after) => (c :: before, after)

/-- The text split at the last occurrence of `needle`. -/
def splitAtLast (needle : Text) : Text → Option (Text × Text)
  | [] => if needle.isEmpty then some ([], []) else none
  | c :: rest =>
    match splitAtLast needle rest with
    | some (before, after) => some (c :: before, after)
    | none => if needle.isPrefixOf (c :: rest) then some ([], c :: rest) else none

/-- Does `needle` stand anywhere in the text? -/
def occursIn (needle text : Text) : Bool := (splitAtFirst needle text).isSome

/-- The pieces between the separators; there is one more of them than separators. -/
def splitOn (separator : Char) : Text → List Text
  | [] => [[]]
  | c :: rest =>
    if c = separator then [] :: splitOn separator rest
    else
      match splitOn separator rest with
      | [] => [[c]]
      | piece :: pieces => (c :: piece) :: pieces

/-- The pieces with `glue` between neighbours. -/
def joinWith (glue : Text) (pieces : List Text) : Text :=
  (pieces.intersperse glue).flatten

theorem splitAtFirst_append {needle text before after : Text}
    (h : splitAtFirst needle text = some (before, after)) : before ++ after = text := by
  induction text generalizing before after with
  | nil =>
    simp only [splitAtFirst] at h
    split at h <;> simp_all
  | cons c rest ih =>
    simp only [splitAtFirst] at h
    split at h
    · simp_all
    · obtain ⟨⟨b, a⟩, hb, he⟩ := Option.map_eq_some_iff.1 h
      simp only [Prod.mk.injEq] at he
      obtain ⟨rfl, rfl⟩ := he
      simp [ih hb]

/-- A text is found exactly where it stands without a gap. -/
theorem occursIn_iff_infix (needle text : Text) :
    occursIn needle text = true ↔ needle <:+: text := by
  induction text with
  | nil => simp [occursIn, splitAtFirst, List.isEmpty_iff]
  | cons c rest ih =>
    simp only [occursIn, splitAtFirst] at ih ⊢
    by_cases h : needle.isPrefixOf (c :: rest) = true
    · simpa [h] using (List.isPrefixOf_iff_prefix.1 h).isInfix
    · rw [List.infix_cons_iff]
      simp only [h, Bool.false_eq_true, if_false, Option.isSome_map, ih]
      exact ⟨Or.inr, fun found => found.resolve_left fun start =>
        h (List.isPrefixOf_iff_prefix.2 start)⟩

theorem splitAtLast_append {needle text before after : Text}
    (h : splitAtLast needle text = some (before, after)) : before ++ after = text := by
  induction text generalizing before after with
  | nil =>
    simp only [splitAtLast] at h
    split at h <;> simp_all
  | cons c rest ih =>
    simp only [splitAtLast] at h
    split at h
    · next b a hb =>
      simp only [Option.some.injEq, Prod.mk.injEq] at h
      obtain ⟨rfl, rfl⟩ := h
      simp [ih hb]
    · split at h <;> simp_all

end VerticalSlice.Text
