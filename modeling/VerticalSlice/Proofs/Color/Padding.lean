import Mathlib.Data.List.TakeWhile
import VerticalSlice.Proofs.Color.Colorless
import VerticalSlice.Proofs.Text.Blanks

/-!
# Colours between blanks

Blanks around a text neither make nor break a colour: they are part of no word and no number, and so
they may stand next to a colour wherever the text may begin or end. The colours of a text with blanks
around it are those of the text, moved by the blanks in front (`locate_padded`).
-/

namespace VerticalSlice

namespace Color

open Text (Blank)

variable {lead trail text before : Text} {c : Char}

/-- The characters that a colour in hexadecimal looks for next to it. -/
theorem isBlank_facts (h : Text.isBlank c = true) :
    Text.isWordChar c = false ∧ isHexDigit c = false ∧ isPropertyChar c = false ∧
      endsPiece c = false ∧ c ≠ '#' ∧ c ≠ '&' ∧ c ≠ ':' := by
  have hall := @Text.of_isBlank (fun c => !Text.isWordChar c && !isHexDigit c && !isPropertyChar c &&
    !endsPiece c && c != '#' && c != '&' && c != ':') (by decide +kernel) c h
  simpa only [Bool.and_eq_true, Bool.not_eq_true', bne_iff_ne, and_assoc] using hall

/-- No letter in the name of a function is a blank. -/
theorem sameLetter_blank (h : Text.isBlank c = true) {name : Text} (hname : name ∈ functionNames) :
    ∀ letter ∈ name, sameLetter letter c = false := by
  have hall := @Text.of_isBlank (fun c => functionNames.all fun name =>
    name.all fun letter => !sameLetter letter c) (by decide +kernel) c h
  intro letter hletter
  have hthis := List.all_eq_true.1 (List.all_eq_true.1 hall name hname) letter hletter
  rwa [Bool.not_eq_true'] at hthis

theorem beginsWithWord_append_blank {word : Text} (h : Blank trail)
    (hword : ∀ c, Text.isBlank c = true → ∀ letter ∈ word, sameLetter letter c = false) :
    beginsWithWord word (text ++ trail) = beginsWithWord word text := by
  induction word generalizing text with
  | nil => rfl
  | cons letter word ih =>
    cases text with
    | cons c rest =>
      rw [List.cons_append, beginsWithWord, beginsWithWord,
        ih fun c hc other hother => hword c hc other (List.mem_cons_of_mem _ hother)]
    | nil =>
      cases trail with
      | nil => rfl
      | cons c rest =>
        rw [List.nil_append, beginsWithWord, beginsWithWord,
          hword c (h c (List.mem_cons_self ..)) letter (List.mem_cons_self ..), Bool.false_and]

theorem mayBegin_blank (h : Text.isBlank c = true) (rest : Text) : mayBegin (c :: rest) = false := by
  rw [mayBegin, Bool.or_eq_false_iff]
  constructor
  · unfold opensHex
    split
    · next heq => exact absurd (List.cons.inj heq).1 (isBlank_facts h).2.2.2.2.1
    · rfl
  · rw [callsFunction, List.any_eq_false]
    intro name hname
    cases name with
    | nil => exact absurd hname (by decide)
    | cons letter name =>
      rw [beginsWithWord, sameLetter_blank h hname letter (List.mem_cons_self ..), Bool.false_and,
        Bool.false_and]
      exact Bool.false_ne_true

theorem colorless_of_blank (h : Blank text) : Colorless text := by
  rintro tail ⟨front, rfl⟩
  cases tail with
  | nil => rfl
  | cons c rest => exact mayBegin_blank (h c (List.mem_append_right _ (List.mem_cons_self ..))) rest

/-! ## Blanks behind a text -/

theorem startsWithAny_append_blank {p : Char → Bool} (hp : ∀ c, Text.isBlank c = true → p c = false)
    (h : Blank trail) : startsWithAny p (text ++ trail) = startsWithAny p text := by
  cases text with
  | cons c rest => rfl
  | nil =>
    cases trail with
    | nil => rfl
    | cons c rest => exact hp c (h c (List.mem_cons_self ..))

theorem takeWhile_append_blank {p : Char → Bool} (hp : ∀ c, Text.isBlank c = true → p c = false)
    (h : Blank trail) : (text ++ trail).takeWhile p = text.takeWhile p := by
  induction text with
  | nil =>
    cases trail with
    | nil => rfl
    | cons c rest =>
      rw [List.nil_append, List.takeWhile_cons, hp c (h c (List.mem_cons_self ..))]
      rfl
  | cons c rest ih => rw [List.cons_append, List.takeWhile_cons, List.takeWhile_cons, ih]

theorem endsDigits_append_blank (h : Blank trail) : EndsDigits (text ++ trail) ↔ EndsDigits text := by
  have hend : ∀ c, Text.isBlank c = true → (Text.isWordChar c || c == '-') = false :=
    fun c hc => (isBlank_facts hc).2.2.1
  rw [← endsDigits_iff, ← endsDigits_iff, startsWithAny_append_blank hend h]

theorem dropWhile_append_blank {p : Char → Bool} (hp : ∀ c, Text.isBlank c = true → p c = false)
    (h : Blank trail) : (text ++ trail).dropWhile p = text.dropWhile p ++ trail := by
  induction text with
  | nil =>
    cases trail with
    | nil => rfl
    | cons c rest =>
      rw [List.nil_append, List.dropWhile_cons, hp c (h c (List.mem_cons_self ..))]
      rfl
  | cons c rest ih =>
    rw [List.cons_append, List.dropWhile_cons, List.dropWhile_cons, ih]
    split <;> rfl

theorem hexDigits?_append_blank (h : Blank trail) : hexDigits? (text ++ trail) = hexDigits? text := by
  have hdigit : ∀ c, Text.isBlank c = true → isHexDigit c = false := fun c hc => (isBlank_facts hc).2.1
  simp only [hexDigits?_eq, takeWhile_append_blank hdigit h, dropWhile_append_blank hdigit h,
    endsDigits_append_blank h]

theorem drop_length_takeWhile (p : Char → Bool) (text : Text) :
    text.drop (text.takeWhile p).length = text.dropWhile p := by
  conv => lhs; arg 2; rw [← List.takeWhile_append_dropWhile (p := p) (l := text)]
  exact List.drop_left

/-- The arguments end at the first parenthesis, which has to close them. -/
theorem argumentsLength?_open (rest : Text) :
    argumentsLength? ('(' :: rest) =
      if (rest.dropWhile isArgumentChar).head? = some ')' then
        some ((rest.takeWhile isArgumentChar).length + 2)
      else none := by
  have hdrop := drop_length_takeWhile isArgumentChar rest
  unfold isArgumentChar at hdrop ⊢
  rw [argumentsLength?, hdrop]
  split
  · next heq => rw [heq, if_pos List.head?_cons]
  · next hnot =>
    rw [if_neg]
    intro hhead
    obtain ⟨more, hmore⟩ := List.head?_eq_some_iff.1 hhead
    exact hnot more hmore

theorem argumentsLength?_of_ne (hc : c ≠ '(') (rest : Text) : argumentsLength? (c :: rest) = none := by
  rw [argumentsLength?]
  rintro other heq
  exact hc (List.cons.inj heq).1

theorem isArgumentChar_blank (h : Text.isBlank c = true) : isArgumentChar c = true :=
  Text.of_isBlank (by decide +kernel) h

theorem argumentsLength?_append_blank (h : Blank trail) :
    argumentsLength? (text ++ trail) = argumentsLength? text := by
  cases text with
  | nil =>
    cases trail with
    | nil => rfl
    | cons c rest =>
      refine argumentsLength?_of_ne ?_ rest
      rintro rfl
      exact absurd (isArgumentChar_blank (h _ (List.mem_cons_self ..))) (by decide)
  | cons c rest =>
    rw [List.cons_append]
    by_cases hc : c = '('
    · subst hc
      rw [argumentsLength?_open, argumentsLength?_open, List.dropWhile_append]
      cases hrest : rest.dropWhile isArgumentChar with
      | nil =>
        have htrail := List.dropWhile_eq_nil_iff.2 fun d hd => isArgumentChar_blank (h d hd)
        rw [List.isEmpty_nil, if_pos rfl, htrail]
        rfl
      | cons d more =>
        -- the first parenthesis is in the text, and so nothing behind the text matters
        have hinside : (rest ++ trail).takeWhile isArgumentChar = rest.takeWhile isArgumentChar := by
          rw [List.takeWhile_append, if_neg]
          intro hall
          rw [(List.takeWhile_prefix _).eq_of_length hall |> List.takeWhile_eq_self_iff.1 |>
            List.dropWhile_eq_nil_iff.2] at hrest
          cases hrest
        rw [hinside]
        rfl
    · rw [argumentsLength?_of_ne hc, argumentsLength?_of_ne hc]

theorem length_le_of_argumentsLength? {length : Nat} (h : argumentsLength? text = some length) :
    length ≤ text.length := by
  cases text with
  | nil => cases h
  | cons c rest =>
    by_cases hc : c = '('
    · subst hc
      rw [argumentsLength?_open] at h
      split at h
      · next hclose =>
        rw [← Option.some.inj h]
        obtain ⟨more, hmore⟩ := List.head?_eq_some_iff.1 hclose
        have hrest := congrArg List.length (@List.takeWhile_append_dropWhile _ isArgumentChar rest)
        rw [hmore, List.length_append, List.length_cons] at hrest
        rw [List.length_cons]
        omega
      · cases h
    · rw [argumentsLength?_of_ne hc] at h
      cases h

theorem length_le_of_functionLength? {length : Nat} (h : functionLength? text = some length) :
    length ≤ text.length := by
  obtain ⟨name, -, hname⟩ := List.exists_of_findSome?_eq_some h
  split at hname
  · next hword =>
    obtain ⟨inside, hinside, rfl⟩ := Option.map_eq_some_iff.1 hname
    have hle := length_le_of_argumentsLength? hinside
    rw [List.length_drop] at hle
    have := length_le_of_beginsWithWord hword
    omega
  · cases hname

theorem findSome?_congr {α β : Type} {list : List α} {f g : α → Option β}
    (h : ∀ a ∈ list, f a = g a) : list.findSome? f = list.findSome? g := by
  induction list with
  | nil => rfl
  | cons a rest ih =>
    rw [List.findSome?_cons, List.findSome?_cons, h a (List.mem_cons_self ..),
      ih fun b hb => h b (List.mem_cons_of_mem _ hb)]

theorem functionLength?_append_blank (h : Blank trail) :
    functionLength? (text ++ trail) = functionLength? text := by
  refine findSome?_congr fun name hname => ?_
  rw [beginsWithWord_append_blank h fun c hc => sameLetter_blank hc hname]
  cases hword : beginsWithWord name text with
  | false => rfl
  | true =>
    rw [List.drop_append_of_le_length (length_le_of_beginsWithWord hword),
      argumentsLength?_append_blank h]

/-- What begins at a place does not depend on the blanks behind the text. -/
theorem pattern_append_blank (h : Blank trail) (hne : text ≠ []) :
    pattern before (text ++ trail) = pattern before text := by
  obtain ⟨c, rest, rfl⟩ := List.exists_cons_of_ne_nil hne
  by_cases hc : c = '#'
  · subst hc
    rw [List.cons_append, pattern, pattern, hexPattern, hexPattern, hexDigits?_append_blank h]
  · rw [List.cons_append, pattern, pattern, ← List.cons_append, functionPattern, functionPattern,
      functionLength?_append_blank h]
    · cases hlength : functionLength? (c :: rest) with
      | none => rfl
      | some length =>
        rw [Option.map_some, Option.map_some,
          List.take_append_of_le_length (length_le_of_functionLength? hlength)]
    · exact fun other heq => hc (List.cons.inj heq).1
    · exact fun other heq => hc (List.cons.inj heq).1

theorem placesFrom_append_blank (h : Blank trail) (before : Text) (offset : Nat) :
    Text.placesFrom pattern before offset (text ++ trail) =
      Text.placesFrom pattern before offset text := by
  induction text generalizing before offset with
  | nil => exact (colorless_of_blank h).placesFrom_eq_nil before offset
  | cons c rest ih =>
    rw [Text.placesFrom, List.cons_append, Text.placesFrom, ← List.cons_append,
      pattern_append_blank h (List.cons_ne_nil c rest), ih]

/-! ## Blanks in front of a text -/

theorem isPrefixOf_append_blank {word : Text} (hword : ∀ c ∈ word, Text.isBlank c = false)
    (h : Blank lead) : word.isPrefixOf (before ++ lead) = word.isPrefixOf before := by
  induction word generalizing before with
  | nil => rw [List.isPrefixOf_nil_left, List.isPrefixOf_nil_left]
  | cons letter word ih =>
    have hrest := fun c hc => hword c (List.mem_cons_of_mem letter hc)
    cases before with
    | cons c before =>
      rw [List.cons_append, List.isPrefixOf_cons_cons, List.isPrefixOf_cons_cons, ih hrest]
    | nil =>
      cases lead with
      | nil => rfl
      | cons c lead =>
        have hne : (letter == c) = false := by
          rw [beq_eq_false_iff_ne]
          rintro rfl
          exact Bool.false_ne_true
            ((hword letter (List.mem_cons_self ..)).symm.trans (h letter (List.mem_cons_self ..)))
        rw [List.nil_append, List.isPrefixOf_cons_cons, hne, Bool.false_and]
        rfl

theorem mayPrecedeHex_append_blank (h : Blank lead) :
    mayPrecedeHex (before ++ lead) = mayPrecedeHex before := by
  have hstart : ∀ c, Text.isBlank c = true → (c == '&' || Text.isWordChar c) = false := by
    intro c hc
    rw [(isBlank_facts hc).1, Bool.or_false, beq_eq_false_iff_ne]
    exact (isBlank_facts hc).2.2.2.2.2.1
  have hall : ∀ reversed ∈ documentPart,
      (reversed.all fun c => decide (Text.isBlank c = false)) = true := by decide
  have hplain : ∀ reversed ∈ documentPart, ∀ c ∈ reversed, Text.isBlank c = false :=
    fun reversed hreversed => Text.forall_mem (hall reversed hreversed)
  have hpart : (documentPart.any fun reversed => reversed.isPrefixOf (before ++ lead)) =
      documentPart.any fun reversed => reversed.isPrefixOf before := by
    rw [Bool.eq_iff_iff, List.any_eq_true, List.any_eq_true]
    refine exists_congr fun reversed => and_congr_right fun hreversed => ?_
    rw [isPrefixOf_append_blank (hplain reversed hreversed) h]
  rw [mayPrecedeHex, mayPrecedeHex, startsWithAny_append_blank hstart h, hpart]

theorem pattern_behind_blank (h : Blank lead) :
    pattern (before ++ lead) text = pattern before text := by
  have hword := @startsWithAny_append_blank lead before Text.isWordChar
    (fun c hc => (isBlank_facts hc).1) h
  unfold pattern hexPattern functionPattern
  rw [mayPrecedeHex_append_blank h, hword]

theorem placesFrom_behind_blank (h : Blank lead) (before : Text) (offset : Nat) :
    Text.placesFrom pattern (before ++ lead) offset text =
      Text.placesFrom pattern before offset text := by
  induction text generalizing before offset with
  | nil => rfl
  | cons c rest ih =>
    rw [Text.placesFrom, Text.placesFrom, pattern_behind_blank h, ← List.cons_append, ih]

theorem placesFrom_add {α : Type} (p : Text.Pattern α) (before : Text) (count offset : Nat) :
    Text.placesFrom p before (count + offset) text =
      (Text.placesFrom p before offset text).map fun found => (count + found.1, found.2) := by
  induction text generalizing before offset with
  | nil => rfl
  | cons c rest ih =>
    rw [Text.placesFrom, Text.placesFrom, Nat.add_assoc, ih]
    split <;> rfl

theorem placesFrom_blank_append (h : Blank lead) (before : Text) (offset : Nat) :
    Text.placesFrom pattern before offset (lead ++ text) =
      Text.placesFrom pattern (lead.reverse ++ before) (offset + lead.length) text := by
  induction lead generalizing before offset with
  | nil => rfl
  | cons c lead ih =>
    have hc := h c (List.mem_cons_self ..)
    rw [List.cons_append, Text.placesFrom, pattern_eq_none (mayBegin_blank hc _)]
    dsimp only
    rw [ih fun d hd => h d (List.mem_cons_of_mem _ hd), List.reverse_cons, List.append_assoc,
      List.length_cons, Nat.add_right_comm]
    rfl

/-- The colours of a text with blanks around it are those of the text, moved by the blanks in front. -/
theorem locate_padded (hlead : Blank lead) (htrail : Blank trail) :
    locate (lead ++ text ++ trail) =
      (locate text).map fun found => (lead.length + found.1, found.2) := by
  rw [locate_eq_places, locate_eq_places, Text.places, Text.places, placesFrom_append_blank htrail,
    placesFrom_blank_append hlead, List.append_nil, Nat.zero_add, ← Nat.add_zero lead.length,
    placesFrom_add, ← List.nil_append lead.reverse,
    placesFrom_behind_blank fun c hc => hlead c (List.mem_reverse.1 hc)]
  rfl

end Color

end VerticalSlice
