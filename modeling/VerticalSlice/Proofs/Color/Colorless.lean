import VerticalSlice.Color.Source
import VerticalSlice.Proofs.Color.Parts

/-!
# Texts without colours

A text in which no colour can begin has none, and no part of it has: neither the values of its
declarations, nor the brackets of its classes, nor the styles of its markup (`inLiteral_eq_nil`).
-/

namespace VerticalSlice

namespace Color

/-- Does one of the functions that give colours begin here, with its opening parenthesis? -/
def callsFunction (text : Text) : Bool :=
  functionNames.any fun name => beginsWithWord name text && (text.drop name.length).head? = some '('

/-- Does a `#` stand here with a hexadecimal digit behind it? -/
def opensHex : Text → Bool
  | '#' :: c :: _ => isHexDigit c
  | _ => false

/-- Does something stand here that can begin a colour? -/
def mayBegin (text : Text) : Bool := opensHex text || callsFunction text

/-- No colour can begin anywhere in the text. -/
def Colorless (text : Text) : Prop := ∀ tail, tail <:+ text → mayBegin tail = false

theorem beginsWithWord_append {word text rest : Text} (h : beginsWithWord word text = true) :
    beginsWithWord word (text ++ rest) = true := by
  induction word generalizing text with
  | nil => rfl
  | cons letter word ih =>
    cases text with
    | nil => cases h
    | cons c text =>
      rw [beginsWithWord, Bool.and_eq_true] at h
      rw [List.cons_append, beginsWithWord, h.1, ih h.2]
      rfl

theorem length_le_of_beginsWithWord {word text : Text} (h : beginsWithWord word text = true) :
    word.length ≤ text.length := by
  induction word generalizing text with
  | nil => exact Nat.zero_le _
  | cons letter word ih =>
    cases text with
    | nil => cases h
    | cons c text =>
      rw [beginsWithWord, Bool.and_eq_true] at h
      exact Nat.succ_le_succ (ih h.2)

theorem callsFunction_append {text rest : Text} (h : callsFunction text = true) :
    callsFunction (text ++ rest) = true := by
  rw [callsFunction, List.any_eq_true] at h ⊢
  obtain ⟨name, hname, h⟩ := h
  rw [Bool.and_eq_true, decide_eq_true_eq] at h
  refine ⟨name, hname, ?_⟩
  rw [Bool.and_eq_true, decide_eq_true_eq, List.drop_append_of_le_length
    (length_le_of_beginsWithWord h.1)]
  refine ⟨beginsWithWord_append h.1, ?_⟩
  rw [List.head?_append, h.2]
  rfl

theorem mayBegin_append {text : Text} (h : mayBegin text = true) (rest : Text) :
    mayBegin (text ++ rest) = true := by
  rw [mayBegin, Bool.or_eq_true] at h ⊢
  refine h.imp (fun hhex => ?_) callsFunction_append
  unfold opensHex at hhex
  split at hhex
  · exact hhex
  · cases hhex

/-- A part of a text without colours has no colours. -/
theorem Colorless.of_infix {part text : Text} (h : Colorless text) (hpart : part <:+: text) :
    Colorless part := by
  rintro tail ⟨front, rfl⟩
  obtain ⟨before, after, rfl⟩ := hpart
  cases hbegins : mayBegin tail with
  | false => rfl
  | true =>
    have hlonger := mayBegin_append hbegins after
    rw [h (tail ++ after) ⟨before ++ front, by simp⟩] at hlonger
    cases hlonger

/-- Without its opening parenthesis no function gives a colour. -/
theorem functionLength?_eq_none {text : Text} (h : callsFunction text = false) :
    functionLength? text = none := by
  rw [functionLength?, List.findSome?_eq_none_iff]
  intro name hname
  split
  · next hword =>
    have hopen := List.any_eq_false.1 h name hname
    rw [Bool.and_eq_true, decide_eq_true_eq, not_and] at hopen
    have harguments : argumentsLength? (text.drop name.length) = none := by
      unfold argumentsLength?
      split
      · next heq => exact absurd (by rw [heq]; rfl) (hopen hword)
      · rfl
    rw [harguments]
    rfl
  · rfl

theorem hexDigits?_eq_none {text : Text} (h : opensHex ('#' :: text) = false) :
    hexDigits? text = none := by
  have hdigits : text.takeWhile isHexDigit = [] := by
    cases text with
    | nil => rfl
    | cons c rest => rw [List.takeWhile_cons, if_neg (Bool.not_eq_true _ ▸ h)]
  rw [hexDigits?_eq, hdigits, if_neg fun hcount => absurd hcount.1 (by decide)]

/-- No colour stands where none can begin. -/
theorem pattern_eq_none {text : Text} (h : mayBegin text = false) (before : Text) :
    pattern before text = none := by
  rw [mayBegin, Bool.or_eq_false_iff] at h
  unfold pattern
  split
  · rw [hexPattern, hexDigits?_eq_none h.1]
    split <;> rfl
  · rw [functionPattern, functionLength?_eq_none h.2]
    split <;> rfl

theorem Colorless.pattern_eq_none {text : Text} (h : Colorless text) (before : Text) :
    pattern before text = none :=
  Color.pattern_eq_none (h text (List.suffix_refl _)) before

theorem Colorless.placesFrom_eq_nil {text : Text} (h : Colorless text) (before : Text)
    (offset : Nat) : Text.placesFrom pattern before offset text = [] := by
  induction text generalizing before offset with
  | nil => rfl
  | cons c rest ih =>
    rw [Text.placesFrom, h.pattern_eq_none]
    exact ih (h.of_infix (List.suffix_cons c rest).isInfix) _ _

theorem Colorless.locate_eq_nil {text : Text} (h : Colorless text) : locate text = [] := by
  rw [locate_eq_places]
  exact h.placesFrom_eq_nil [] 0

theorem Colorless.find_eq_nil {text : Text} (h : Colorless text) : find text = [] := by
  rw [find, h.locate_eq_nil]
  rfl

/-! ## Style sheets -/

theorem Colorless.sightingsIn_eq_nil {part : Text} (h : Colorless part) (text : Text)
    (firstLine offset : Nat) : sightingsIn text firstLine offset part = [] := by
  rw [sightingsIn, h.locate_eq_nil]
  rfl

theorem Colorless.inBrackets_eq_nil {text : Text} (h : Colorless text) (firstLine : Nat) :
    inBrackets text firstLine = [] := by
  rw [inBrackets, List.flatMap_eq_nil_iff]
  rintro ⟨offset, value⟩ hfound
  obtain ⟨front, tail, length, rfl, -, hpattern⟩ := Text.exists_of_mem_occurrences hfound
  obtain ⟨rest, rfl⟩ := exists_of_bracketPattern hpattern
  exact (h.of_infix ⟨front ++ ['-', '['], ']' :: rest, by simp⟩).sightingsIn_eq_nil _ _ _

theorem Colorless.inDeclarations_eq_nil {text : Text} (h : Colorless text) (firstLine : Nat) :
    inDeclarations text firstLine = [] := by
  rw [inDeclarations, List.flatMap_eq_nil_iff]
  rintro ⟨offset, piece⟩ hpiece
  obtain ⟨front, rest, rfl, -, -⟩ := exists_of_mem_pieces hpiece
  dsimp only
  split
  · next inside value hdeclaration =>
    obtain ⟨head, rfl, -, -, -⟩ := exists_of_declaration? hdeclaration
    exact (h.of_infix ⟨front ++ head, rest, by simp⟩).sightingsIn_eq_nil _ _ _
  · rfl

/-- Nothing in the text begins a comment of a style sheet. -/
def Uncommented (text : Text) : Prop := ¬['/', '*'] <:+: text

theorem Uncommented.of_infix {part text : Text} (h : Uncommented text) (hpart : part <:+: text) :
    Uncommented part := fun hcomment => h (hcomment.trans hpart)

theorem Uncommented.withoutComments_eq {text : Text} (h : Uncommented text) :
    withoutComments text = text := by
  rw [withoutComments]
  induction text with
  | nil => rfl
  | cons c rest ih =>
    have hrest := ih (h.of_infix (List.suffix_cons c rest).isInfix)
    unfold dropComments
    dsimp only
    split
    · next body => exact absurd ⟨[], body, rfl⟩ h
    · rw [hrest]

theorem inStylesheet_eq_nil {text : Text} (h : Colorless text) (hcomments : Uncommented text)
    (firstLine : Nat) : inStylesheet text firstLine = [] := by
  rw [inStylesheet, hcomments.withoutComments_eq, h.inDeclarations_eq_nil, h.inBrackets_eq_nil]
  rfl

/-! ## Markup and literals -/

theorem inMarkup_eq_nil {text : Text} (h : Colorless text) (hcomments : Uncommented text) :
    inMarkup text = [] := by
  have hpart : ∀ {front value back : Text}, text = front ++ (value ++ back) → value <:+: text := by
    rintro front value back rfl
    exact ⟨front, back, by simp⟩
  have hstyle : ∀ {value : Text}, value <:+: text → ∀ line, inStylesheet value line = [] :=
    fun hvalue => inStylesheet_eq_nil (h.of_infix hvalue) (hcomments.of_infix hvalue)
  rw [inMarkup, List.append_eq_nil_iff, List.append_eq_nil_iff, List.flatMap_eq_nil_iff,
    List.flatMap_eq_nil_iff, List.flatMap_eq_nil_iff]
  refine ⟨⟨?_, ?_⟩, ?_⟩
  · rintro ⟨offset, value⟩ hvalue
    obtain ⟨front, back, htext, -, -⟩ := isAttribute_of_mem_parts hvalue
    exact hstyle (hpart htext) _
  · rintro ⟨offset, contents⟩ hcontents
    obtain ⟨front, back, htext, -, -⟩ := isElement_of_mem_parts hcontents
    exact hstyle (hpart htext) _
  · rintro ⟨offset, value⟩ hvalue
    obtain ⟨front, back, htext, -, -⟩ := isAttribute_of_mem_parts hvalue
    exact (h.of_infix (hpart htext)).inBrackets_eq_nil _

theorem infix_trim (text : Text) : Text.trim text <:+: text := by
  have hinner : (Text.trim text) <+: text.dropWhile Text.isBlank := by
    rw [Text.trim]
    have h := List.dropWhile_suffix (l := (text.dropWhile Text.isBlank).reverse) Text.isBlank
    simpa using List.reverse_prefix.2 h
  exact hinner.isInfix.trans (List.dropWhile_suffix _).isInfix

/-- A literal without colours and comments has no colours, in whichever way it is looked through. -/
theorem inLiteral_eq_nil {contents : Text} (h : Colorless contents)
    (hcomments : Uncommented contents) (line : Nat) : inLiteral contents line = [] := by
  have hwhole : isWhole contents = false := by
    rw [isWhole, (h.of_infix (infix_trim contents)).pattern_eq_none]
  rw [inLiteral, hwhole, if_neg Bool.false_ne_true, inStylesheet_eq_nil h hcomments,
    inMarkup_eq_nil h hcomments]
  split <;> rfl

end Color

end VerticalSlice
