import Mathlib.Data.List.Forall2
import VerticalSlice.Color.Basic
import VerticalSlice.Proofs.Text.Letters
import VerticalSlice.Proofs.Text.Places

/-!
# Which colours are found

`IsColorAt` says without any search where a colour stands in a text. The colours are searched for sort by sort,
and each search goes on behind the colour before. None is lost by that: there is no `#` among the digits of a
colour, and no function can be called among arguments without parentheses (`hexPattern_apart`,
`functionPattern_apart`). So what is found is just what is there, in the order of the text (`locate_exact`).
-/

namespace VerticalSlice.Color

/-! ## What a colour is -/

/-- Is the text the word in letters of any case? -/
def Spells (word name : Text) : Prop := List.Forall₂ (fun small c => sameLetter small c = true) word name

/-- May the character stand inside the arguments? -/
def isArgumentChar (c : Char) : Bool := c ≠ '(' && c ≠ ')'

/-- May a hexadecimal colour be followed by this text? -/
def EndsDigits (after : Text) : Prop := ∀ c ∈ after.head?, Text.isWordChar c = false ∧ c ≠ '-'

/-- The colour stands in the text at the offset: a `#` with a whole run of digits, of which there may be three,
four, six or eight, or the name of a function that begins a word, with its arguments. -/
inductive IsColorAt (text : Text) (offset : Nat) : Text → Prop
  | hex {before digits after : Text} (htext : text = before ++ ('#' :: digits ++ after))
    (hoffset : before.length = offset) (hdigits : ∀ c ∈ digits, isHexDigit c = true)
    (hcount : digits.length ∈ [3, 4, 6, 8]) (hafter : EndsDigits after)
    (hbefore : ∀ c ∈ before.getLast?, c ≠ '&' ∧ Text.isWordChar c = false)
    (hpart : ∀ opening ∈ (["url(", "url(\"", "url('"] : List Text), ¬opening <:+ before) :
    IsColorAt text offset ('#' :: digits)
  | function {before word name arguments after : Text}
    (htext : text = before ++ (name ++ '(' :: (arguments ++ [')']) ++ after)) (hoffset : before.length = offset)
    (hword : word ∈ (["rgb", "rgba", "hsl", "hsla"] : List Text)) (hname : Spells word name)
    (harguments : ∀ c ∈ arguments, isArgumentChar c = true)
    (hbefore : ∀ c ∈ before.getLast?, Text.isWordChar c = false) :
    IsColorAt text offset (name ++ '(' :: (arguments ++ [')']))

/-! ## Hexadecimal colours -/

variable {text before color : Text} {length : Nat}

theorem isHexDigit_iff {c : Char} : isHexDigit c = true ↔ ((48 ≤ c.toNat ∧ c.toNat ≤ 57) ∨
    (97 ≤ c.toNat ∧ c.toNat ≤ 102)) ∨ (65 ≤ c.toNat ∧ c.toNat ≤ 70) := by
  simp only [isHexDigit, Bool.or_eq_true, Bool.and_eq_true, decide_eq_true_eq, Text.isDigit_iff, Char.le_def,
    UInt32.le_iff_toNat_le]
  exact Iff.rfl

theorem isWordChar_of_isAlphanum {c : Char} (h : c.isAlphanum = true) : Text.isWordChar c = true := by
  have hascii : c.toNat < 128 := by
    rw [Text.isAlphanum_iff, Text.isUpper_iff, Text.isLower_iff, Text.isDigit_iff] at h
    omega
  rw [Text.isWordChar_ascii (UInt32.lt_iff_toNat_lt.2 hascii), h, Bool.true_or]

theorem isWordChar_of_isHexDigit {c : Char} (h : isHexDigit c = true) : Text.isWordChar c = true := by
  refine isWordChar_of_isAlphanum ?_
  rw [isHexDigit_iff] at h
  rw [Text.isAlphanum_iff, Text.isUpper_iff, Text.isLower_iff, Text.isDigit_iff]
  omega

theorem startsWithAny_eq_false_iff {p : Char → Bool} :
    startsWithAny p text = false ↔ ∀ c ∈ text.head?, p c = false := by
  cases text with
  | nil => simp [startsWithAny]
  | cons c rest => simp [startsWithAny]

theorem endsDigits_iff :
    (!startsWithAny (fun c => Text.isWordChar c || c == '-') text) = true ↔ EndsDigits text := by
  rw [Bool.not_eq_true', startsWithAny_eq_false_iff, EndsDigits]
  simp only [Bool.or_eq_false_iff, beq_eq_false_iff_ne]

instance : DecidablePred EndsDigits := fun _ => decidable_of_iff _ endsDigits_iff

/-- Digits with no word behind them are a whole run of digits. -/
theorem takeWhile_eq_of_endsDigits {digits after : Text} (hdigits : ∀ c ∈ digits, isHexDigit c = true)
    (hafter : EndsDigits after) : (digits ++ after).takeWhile isHexDigit = digits := by
  rw [List.takeWhile_append_of_pos hdigits]
  cases after with
  | nil => exact List.append_nil _
  | cons c rest =>
    have hc : isHexDigit c = false := by
      by_contra h
      have hword := (hafter c rfl).1
      rw [isWordChar_of_isHexDigit (Bool.not_eq_false _ ▸ h)] at hword
      cases hword
    rw [List.takeWhile_cons, hc]
    exact List.append_nil _

theorem leadingDigits?_eq_some_iff {count : Nat} {digits : Text} : leadingDigits? text count = some digits ↔
    digits.length = count ∧ (∀ c ∈ digits, isHexDigit c = true) ∧
      ∃ after, text = digits ++ after ∧ EndsDigits after := by
  rw [leadingDigits?, Option.ite_none_right_eq_some, Bool.and_eq_true, Bool.and_eq_true, decide_eq_true_eq,
    endsDigits_iff,
    List.all_eq_true]
  constructor
  · rintro ⟨⟨⟨hlength, hdigits⟩, hafter⟩, hsome⟩
    obtain rfl := Option.some.inj hsome
    exact ⟨hlength, hdigits, text.drop count, (List.take_append_drop count text).symm, hafter⟩
  · rintro ⟨rfl, hdigits, after, rfl, hafter⟩
    rw [List.take_left, List.drop_left]
    exact ⟨⟨⟨rfl, hdigits⟩, hafter⟩, rfl⟩

/-- The digits of a colour are a whole run, which is as long as a colour can be. -/
theorem hexDigits?_eq_some_iff {digits : Text} : hexDigits? text = some digits ↔
    digits.length ∈ digitCounts ∧ (∀ c ∈ digits, isHexDigit c = true) ∧
      ∃ after, text = digits ++ after ∧ EndsDigits after := by
  rw [hexDigits?]
  constructor
  · intro h
    obtain ⟨count, hcount, hdigits⟩ := List.exists_of_findSome?_eq_some h
    obtain ⟨rfl, hrest⟩ := leadingDigits?_eq_some_iff.1 hdigits
    exact ⟨hcount, hrest⟩
  · rintro ⟨hcount, hdigits, after, htext, hafter⟩
    have hfound := leadingDigits?_eq_some_iff.2 ⟨rfl, hdigits, after, htext, hafter⟩
    cases hfirst : digitCounts.findSome? (leadingDigits? text) with
    | none =>
      rw [List.findSome?_eq_none_iff.1 hfirst _ hcount] at hfound
      cases hfound
    | some other =>
      obtain ⟨_, -, hother⟩ := List.exists_of_findSome?_eq_some hfirst
      obtain ⟨-, hdigits', after', htext', hafter'⟩ := leadingDigits?_eq_some_iff.1 hother
      rw [← takeWhile_eq_of_endsDigits hdigits hafter, ← htext, htext',
        takeWhile_eq_of_endsDigits hdigits' hafter']

/-- The digits are the run at the front of the text, if a colour can have so many. -/
theorem hexDigits?_eq : hexDigits? text =
    if (text.takeWhile isHexDigit).length ∈ digitCounts ∧ EndsDigits (text.dropWhile isHexDigit) then
      some (text.takeWhile isHexDigit)
    else none := by
  ext digits
  rw [hexDigits?_eq_some_iff, Option.ite_none_right_eq_some, Option.some.injEq]
  constructor
  · rintro ⟨hcount, hdigits, after, rfl, hafter⟩
    have hrun := takeWhile_eq_of_endsDigits hdigits hafter
    have hrest := List.takeWhile_append_dropWhile (p := isHexDigit) (l := digits ++ after)
    rw [hrun] at hrest ⊢
    rw [List.append_cancel_left hrest]
    exact ⟨⟨hcount, hafter⟩, rfl⟩
  · rintro ⟨⟨hcount, hafter⟩, rfl⟩
    exact ⟨hcount, List.all_eq_true.1 List.all_takeWhile, _, List.takeWhile_append_dropWhile.symm, hafter⟩

/-- What may stand in front of a hexadecimal colour. -/
theorem mayPrecedeHex_reverse_iff : mayPrecedeHex before.reverse = true ↔
    (∀ c ∈ before.getLast?, c ≠ '&' ∧ Text.isWordChar c = false) ∧
      ∀ opening ∈ (["url(", "url(\"", "url('"] : List Text), ¬opening <:+ before := by
  have hopenings : documentPart = (["url(", "url(\"", "url('"] : List Text).map List.reverse := by decide
  rw [mayPrecedeHex, Bool.and_eq_true, Bool.not_eq_true', Bool.not_eq_true', startsWithAny_eq_false_iff,
    List.head?_reverse, hopenings, List.any_eq_false]
  simp only [Bool.or_eq_false_iff, beq_eq_false_iff_ne, List.forall_mem_map, List.isPrefixOf_iff_prefix,
    List.reverse_prefix]

theorem hexPattern_eq_some_iff : hexPattern before text = some (color, length) ↔
    ∃ digits after, text = '#' :: digits ++ after ∧ color = '#' :: digits ∧ length = digits.length + 1 ∧
      mayPrecedeHex before = true ∧ digits.length ∈ digitCounts ∧ (∀ c ∈ digits, isHexDigit c = true) ∧
      EndsDigits after := by
  unfold hexPattern
  split
  · next rest =>
    simp only [List.cons_append, List.cons.injEq, true_and, Option.ite_none_right_eq_some,
      Option.map_eq_some_iff, Prod.mk.injEq, hexDigits?_eq_some_iff]
    constructor
    · rintro ⟨hbefore, digits, ⟨hcount, hdigits, after, rfl, hafter⟩, rfl, rfl⟩
      exact ⟨digits, after, rfl, rfl, rfl, hbefore, hcount, hdigits, hafter⟩
    · rintro ⟨digits, after, rfl, rfl, rfl, hbefore, hcount, hdigits, hafter⟩
      exact ⟨hbefore, digits, ⟨hcount, hdigits, after, rfl, hafter⟩, rfl, rfl⟩
  · next hne =>
    refine ⟨nofun, ?_⟩
    rintro ⟨digits, after, rfl, -⟩
    exact absurd rfl (hne _)

/-- There is no `#` among the digits of a colour. -/
theorem hexPattern_apart : hexPattern.Apart := by
  intro before front tail value length hfound hne hlength
  obtain ⟨digits, after, htext, -, rfl, -, -, hdigits, -⟩ := hexPattern_eq_some_iff.1 hfound
  rw [Option.eq_none_iff_forall_ne_some]
  rintro ⟨color, length'⟩ hinside
  obtain ⟨digits', after', rfl, -⟩ := hexPattern_eq_some_iff.1 hinside
  obtain ⟨c, front, rfl⟩ := List.exists_cons_of_ne_nil hne
  replace htext := List.cons.inj htext
  have hmem : '#' ∈ digits := by
    rw [List.length_cons, Nat.succ_lt_succ_iff] at hlength
    rcases List.append_eq_append_iff.1 htext.2 with ⟨rest, rfl, htail⟩ | ⟨rest, rfl, -⟩
    · cases rest with
      | nil => simp at hlength
      | cons d rest =>
        obtain ⟨rfl, -⟩ := List.cons.inj htail
        simp
    · rw [List.length_append] at hlength
      omega
  exact absurd (hdigits _ hmem) (by decide)

/-! ## Functional colours -/

theorem isAlpha_of_toLower {small c : Char} (hsmall : small.isLower = true) (h : c.toLower = small) :
    c.isAlpha = true := by
  unfold Char.toLower at h
  refine Bool.or_eq_true_iff.2 ?_
  rw [Text.isUpper_iff]
  split at h
  · next hupper => exact .inl ⟨UInt32.le_iff_toNat_le.1 hupper.1, UInt32.le_iff_toNat_le.1 hupper.2⟩
  · exact .inr (h ▸ hsmall)

/-- A letter of a name is a character of words and no parenthesis. -/
theorem isWordChar_of_sameLetter {small c : Char} (hsmall : small.isLower = true)
    (h : sameLetter small c = true) : Text.isWordChar c = true ∧ isArgumentChar c = true := by
  rw [sameLetter, Bool.or_eq_true, Bool.and_eq_true, beq_iff_eq, beq_iff_eq, beq_iff_eq] at h
  rcases h with h | ⟨-, rfl⟩
  · have halpha := isAlpha_of_toLower hsmall h
    refine ⟨isWordChar_of_isAlphanum (by rw [Char.isAlphanum, halpha, Bool.true_or]), ?_⟩
    rw [isArgumentChar, Bool.and_eq_true, decide_eq_true_eq, decide_eq_true_eq]
    constructor <;>
    · rintro rfl
      exact absurd halpha (by decide)
  · decide

theorem forall_of_spells {word name : Text} (hsmall : ∀ small ∈ word, small.isLower = true)
    (h : Spells word name) : ∀ c ∈ name, Text.isWordChar c = true ∧ isArgumentChar c = true := by
  induction h with
  | nil => exact nofun
  | cons hletter _ ih =>
    rw [List.forall_mem_cons] at hsmall ⊢
    exact ⟨isWordChar_of_sameLetter hsmall.1 hletter, ih hsmall.2⟩

theorem beginsWithWord_iff {word : Text} : beginsWithWord word text = true ↔
    ∃ name rest, text = name ++ rest ∧ name.length = word.length ∧ Spells word name := by
  induction word generalizing text with
  | nil => exact ⟨fun _ => ⟨[], text, rfl, rfl, .nil⟩, fun _ => by rw [beginsWithWord]⟩
  | cons small word ih =>
    cases text with
    | nil =>
      refine ⟨nofun, ?_⟩
      rintro ⟨name, rest, h, hlength, -⟩
      rw [(List.append_eq_nil_iff.1 h.symm).1] at hlength
      cases hlength
    | cons c text =>
      rw [beginsWithWord, Bool.and_eq_true, ih]
      constructor
      · rintro ⟨hletter, name, rest, rfl, hlength, hname⟩
        exact ⟨c :: name, rest, rfl, congrArg (· + 1) hlength, .cons hletter hname⟩
      · rintro ⟨name, rest, h, hlength, hname⟩
        cases hname with
        | cons hletter hname =>
          obtain ⟨rfl, rfl⟩ := List.cons.inj h
          exact ⟨hletter, _, rest, rfl, Nat.succ.inj hlength, hname⟩

/-- Arguments end with the first parenthesis. -/
theorem takeWhile_arguments {arguments after : Text} {closing : Char}
    (harguments : ∀ c ∈ arguments, isArgumentChar c = true) (hclosing : isArgumentChar closing = false) :
    (arguments ++ closing :: after).takeWhile isArgumentChar = arguments := by
  rw [List.takeWhile_append_of_pos harguments, List.takeWhile_cons, hclosing]
  exact List.append_nil _

theorem argumentsLength?_eq_some_iff : argumentsLength? text = some length ↔
    ∃ arguments after, text = '(' :: (arguments ++ ')' :: after) ∧ (∀ c ∈ arguments, isArgumentChar c = true) ∧
      length = arguments.length + 2 := by
  unfold argumentsLength?
  split
  · next rest =>
    dsimp only
    rw [show (fun c : Char => c ≠ '(' && c ≠ ')') = isArgumentChar from rfl]
    constructor
    · intro h
      split at h
      · next after hdrop =>
        refine ⟨rest.takeWhile isArgumentChar, after, ?_, List.all_eq_true.1 List.all_takeWhile,
          (Option.some.inj h).symm⟩
        rw [← hdrop, List.prefix_iff_eq_take.1 (List.takeWhile_prefix isArgumentChar), List.length_take,
          Nat.min_eq_left (List.takeWhile_prefix isArgumentChar).length_le, List.take_append_drop]
      · cases h
    · rintro ⟨arguments, after, h, harguments, rfl⟩
      obtain rfl := (List.cons.inj h).2
      rw [takeWhile_arguments harguments (by decide), List.drop_left]
      rfl
  · next hne =>
    constructor
    · intro h
      cases h
    · rintro ⟨arguments, after, rfl, -⟩
      exact absurd rfl (hne _)

theorem isLower_of_mem_functionNames {word : Text} (hword : word ∈ functionNames) :
    ∀ small ∈ word, small.isLower = true := by
  have hall : functionNames.all (fun word => word.all Char.isLower) = true := by decide
  exact List.all_eq_true.1 (List.all_eq_true.1 hall word hword)

/-- The length of a name with its arguments, if the text begins with them. -/
theorem functionLength?_eq_some_iff : functionLength? text = some length ↔
    ∃ word name arguments after, word ∈ functionNames ∧ Spells word name ∧
      text = name ++ '(' :: (arguments ++ ')' :: after) ∧ (∀ c ∈ arguments, isArgumentChar c = true) ∧
      length = name.length + (arguments.length + 2) := by
  have hone : ∀ {word : Text} {length : Nat}, (if beginsWithWord word text then
        (argumentsLength? (text.drop word.length)).map (word.length + ·) else none) = some length ↔
      ∃ name arguments after, Spells word name ∧ text = name ++ '(' :: (arguments ++ ')' :: after) ∧
        (∀ c ∈ arguments, isArgumentChar c = true) ∧ length = name.length + (arguments.length + 2) := by
    intro word length
    rw [Option.ite_none_right_eq_some, beginsWithWord_iff, Option.map_eq_some_iff]
    simp only [argumentsLength?_eq_some_iff]
    constructor
    · rintro ⟨⟨name, rest, rfl, hlength, hname⟩, _, ⟨arguments, after, hdrop, harguments, rfl⟩, rfl⟩
      rw [← hlength, List.drop_left] at hdrop
      exact ⟨name, arguments, after, hname, by rw [hdrop], harguments, by rw [hlength]⟩
    · rintro ⟨name, arguments, after, hname, rfl, harguments, rfl⟩
      have hlength : name.length = word.length := hname.length_eq.symm
      refine ⟨⟨name, _, rfl, hlength, hname⟩, _, ⟨arguments, after, ?_, harguments, rfl⟩, by rw [hlength]⟩
      rw [← hlength, List.drop_left]
  rw [functionLength?]
  constructor
  · intro h
    obtain ⟨word, hword, hfound⟩ := List.exists_of_findSome?_eq_some h
    obtain ⟨name, arguments, after, hname, hrest⟩ := hone.1 hfound
    exact ⟨word, name, arguments, after, hword, hname, hrest⟩
  · rintro ⟨word, name, arguments, after, hword, hname, htext, harguments, hlength⟩
    have hfound := hone.2 ⟨name, arguments, after, hname, htext, harguments, hlength⟩
    cases hfirst : functionNames.findSome? fun word => if beginsWithWord word text then
        (argumentsLength? (text.drop word.length)).map (word.length + ·) else none with
    | none =>
      rw [List.findSome?_eq_none_iff.1 hfirst word hword] at hfound
      cases hfound
    | some other =>
      -- two names end with the same parenthesis, and so do their arguments
      obtain ⟨word', hword', hother⟩ := List.exists_of_findSome?_eq_some hfirst
      obtain ⟨name', arguments', after', hname', htext', harguments', rfl⟩ := hone.1 hother
      have hnames : name' = name := by
        have hinside : ∀ {word name : Text}, word ∈ functionNames → Spells word name →
            ∀ c ∈ name, isArgumentChar c = true := fun hword hname c hc =>
          (forall_of_spells (isLower_of_mem_functionNames hword) hname c hc).2
        have hsame := congrArg (List.takeWhile isArgumentChar) (htext.symm.trans htext')
        rw [takeWhile_arguments (hinside hword hname) (by decide),
          takeWhile_arguments (hinside hword' hname') (by decide)] at hsame
        exact hsame.symm
      subst hnames
      have hsame := List.append_cancel_left (htext.symm.trans htext')
      replace hsame := congrArg (List.takeWhile isArgumentChar) (List.cons.inj hsame).2
      rw [takeWhile_arguments harguments (by decide), takeWhile_arguments harguments' (by decide)] at hsame
      rw [hlength, hsame]

theorem functionPattern_eq_some_iff : functionPattern before text = some (color, length) ↔
    ∃ word name arguments after, word ∈ functionNames ∧ Spells word name ∧
      text = name ++ '(' :: (arguments ++ [')']) ++ after ∧ (∀ c ∈ arguments, isArgumentChar c = true) ∧
      color = name ++ '(' :: (arguments ++ [')']) ∧ length = color.length ∧
      startsWithAny Text.isWordChar before = false := by
  rw [functionPattern, Option.ite_none_left_eq_some, Option.map_eq_some_iff, Bool.not_eq_true]
  simp only [functionLength?_eq_some_iff, Prod.mk.injEq]
  constructor
  · rintro ⟨hbefore, _, ⟨word, name, arguments, after, hword, hname, rfl, harguments, rfl⟩, rfl, rfl⟩
    have hcolor : name ++ '(' :: (arguments ++ ')' :: after) =
        name ++ '(' :: (arguments ++ [')']) ++ after := by simp
    have hlength : name.length + (arguments.length + 2) = (name ++ '(' :: (arguments ++ [')'])).length := by
      simp
    rw [hcolor, hlength, List.take_left]
    exact ⟨word, name, arguments, after, hword, hname, rfl, harguments, rfl, rfl, hbefore⟩
  · rintro ⟨word, name, arguments, after, hword, hname, rfl, harguments, rfl, rfl, hbefore⟩
    refine ⟨hbefore, _, ⟨word, name, arguments, after, hword, hname, by simp, harguments, rfl⟩, ?_, by simp⟩
    have hlength : name.length + (arguments.length + 2) = (name ++ '(' :: (arguments ++ [')'])).length := by
      simp
    rw [hlength, List.take_left]

/-- Inside a name no word begins, and behind it there is no other opening parenthesis up to the end of the
arguments. -/
theorem functionPattern_apart : functionPattern.Apart := by
  intro before front tail value length hfound hne hlength
  obtain ⟨word, name, arguments, after, hword, hname, htext, harguments, rfl, rfl, -⟩ :=
    functionPattern_eq_some_iff.1 hfound
  rw [Option.eq_none_iff_forall_ne_some]
  rintro ⟨color, length'⟩ hinside
  obtain ⟨word', name', arguments', after', hword', hname', rfl, -, -, -, hbefore⟩ :=
    functionPattern_eq_some_iff.1 hinside
  have hletters := forall_of_spells (isLower_of_mem_functionNames hword) hname
  have hletters' := forall_of_spells (isLower_of_mem_functionNames hword') hname'
  replace htext : front ++ (name' ++ '(' :: (arguments' ++ ')' :: after')) =
      name ++ '(' :: (arguments ++ ')' :: after) := by simpa using htext
  by_cases hinName : front.length ≤ name.length
  · -- in front of the place there is a letter of the name
    have hfront : front <+: name :=
      List.prefix_of_prefix_length_le ⟨_, htext⟩ (List.prefix_append _ _) hinName
    obtain ⟨last, hlast⟩ := Option.isSome_iff_exists.1 (List.getLast?_isSome.2 hne)
    have hletter := (hletters last (hfront.subset (List.mem_of_getLast? hlast))).1
    rw [startsWithAny_eq_false_iff, List.head?_append, List.head?_reverse, hlast] at hbefore
    rw [hbefore last rfl] at hletter
    cases hletter
  · -- the next parenthesis is the one that closes the arguments
    obtain ⟨inner, rfl⟩ : name <+: front :=
      List.prefix_of_prefix_length_le ⟨_, htext.symm⟩ (List.prefix_append _ _) (Nat.le_of_not_le hinName)
    rw [List.append_assoc] at htext
    replace htext := List.append_cancel_left htext
    cases inner with
    | nil => exact hinName (by simp)
    | cons opening inner =>
      replace htext : inner ++ (name' ++ '(' :: (arguments' ++ ')' :: after')) = arguments ++ ')' :: after :=
        (List.cons.inj htext).2
      simp only [List.length_append, List.length_cons, List.length_nil] at hlength
      have hinner : inner <+: arguments :=
        List.prefix_of_prefix_length_le ⟨_, htext⟩ (List.prefix_append _ _) (by omega)
      have hskipped : ∀ c ∈ inner ++ name', isArgumentChar c = true := by
        intro c hc
        rcases List.mem_append.1 hc with hc | hc
        · exact harguments c (hinner.subset hc)
        · exact (hletters' c hc).2
      rw [← List.append_assoc] at htext
      have hsame := congrArg (List.takeWhile isArgumentChar) htext
      rw [takeWhile_arguments hskipped (by decide), takeWhile_arguments harguments (by decide)] at hsame
      rw [hsame] at htext
      exact absurd (List.cons.inj (List.append_cancel_left htext)).1 (by decide)

/-! ## All the colours of a text -/

/-- No name begins with a `#`. -/
theorem ne_hash_of_spells {word name rest tail : Text} (hword : word ∈ functionNames) (hname : Spells word name) :
    name ++ rest ≠ '#' :: tail := by
  intro h
  have hletters := forall_of_spells (isLower_of_mem_functionNames hword) hname
  cases hname with
  | nil => exact absurd hword (by decide)
  | cons _ _ =>
    obtain ⟨rfl, -⟩ := List.cons.inj h
    exact absurd (hletters _ (List.mem_cons_self ..)).1 (by decide)

theorem pattern_eq_some_iff {found : Text × Nat} : pattern before text = some found ↔
    hexPattern before text = some found ∨ functionPattern before text = some found := by
  unfold pattern
  split
  · next rest =>
    have hname : functionPattern before ('#' :: rest) = none := by
      rw [Option.eq_none_iff_forall_ne_some]
      rintro ⟨color, length⟩ h
      obtain ⟨word, name, _, _, hword, hname, htext, -⟩ := functionPattern_eq_some_iff.1 h
      rw [List.append_assoc] at htext
      exact ne_hash_of_spells hword hname htext.symm
    rw [hname]
    exact ⟨.inl, fun h => h.resolve_right nofun⟩
  · next hne =>
    have hhex : hexPattern before text = none := by
      unfold hexPattern
      split
      · exact absurd rfl (hne _)
      · rfl
    rw [hhex]
    exact ⟨.inr, fun h => h.resolve_left nofun⟩

/-- The two searches find every place where a colour begins. -/
theorem locate_eq_places : locate text = Text.places pattern text := by
  have hmem : ∀ found, found ∈ locate text ↔ found ∈ Text.places pattern text := by
    intro found
    rw [locate, Text.perm_sortByOffset.mem_iff, List.mem_append, Text.occurrences_eq_places hexPattern_apart,
      Text.occurrences_eq_places functionPattern_apart]
    simp only [Text.mem_places_iff, pattern_eq_some_iff]
    constructor
    · rintro (⟨front, tail, length, htext, hne, hoffset, h⟩ | ⟨front, tail, length, htext, hne, hoffset, h⟩)
      · exact ⟨front, tail, length, htext, hne, hoffset, .inl h⟩
      · exact ⟨front, tail, length, htext, hne, hoffset, .inr h⟩
    · rintro ⟨front, tail, length, htext, hne, hoffset, h | h⟩
      · exact .inl ⟨front, tail, length, htext, hne, hoffset, h⟩
      · exact .inr ⟨front, tail, length, htext, hne, hoffset, h⟩
  -- no colour is of both sorts, since only one sort begins with a `#`
  have hnodup : (locate text).Nodup := by
    rw [locate, Text.perm_sortByOffset.nodup_iff, Text.occurrences_eq_places hexPattern_apart,
      Text.occurrences_eq_places functionPattern_apart]
    refine List.nodup_append.2 ⟨Text.nodup_places, Text.nodup_places, ?_⟩
    rintro found hhex _ hfunction rfl
    obtain ⟨_, _, _, -, -, -, hhex⟩ := Text.mem_places_iff.1 hhex
    obtain ⟨_, _, _, -, -, -, hfunction⟩ := Text.mem_places_iff.1 hfunction
    obtain ⟨digits, _, -, hcolor, -⟩ := hexPattern_eq_some_iff.1 hhex
    obtain ⟨_, _, _, _, hword, hname, -, -, hcolor', -⟩ := functionPattern_eq_some_iff.1 hfunction
    exact ne_hash_of_spells hword hname (hcolor'.symm.trans hcolor)
  have hperm := (List.perm_ext_iff_of_nodup hnodup Text.nodup_places).2 hmem
  refine List.Perm.eq_of_pairwise (fun found other hfound hother hle hge => ?_) Text.pairwise_sortByOffset
    (Text.pairwise_places.imp Nat.le_of_lt) hperm
  exact Text.eq_of_mem_places ((hmem found).1 hfound) hother (Nat.le_antisymm hle hge)

theorem mem_digitCounts_iff {count : Nat} : count ∈ digitCounts ↔ count ∈ [3, 4, 6, 8] := by
  simp only [digitCounts, List.mem_cons, List.not_mem_nil, or_false]
  omega

theorem mem_functionNames_iff {word : Text} :
    word ∈ functionNames ↔ word ∈ (["rgb", "rgba", "hsl", "hsla"] : List Text) := by
  have hthere : ∀ word ∈ functionNames, word ∈ (["rgb", "rgba", "hsl", "hsla"] : List Text) := by decide
  have hback : ∀ word ∈ (["rgb", "rgba", "hsl", "hsla"] : List Text), word ∈ functionNames := by decide
  exact ⟨hthere word, hback word⟩

/-- A colour begins where the pattern finds it. -/
theorem isColorAt_iff {offset : Nat} : IsColorAt text offset color ↔
    ∃ before tail length, text = before ++ tail ∧ tail ≠ [] ∧ before.length = offset ∧
      pattern before.reverse tail = some (color, length) := by
  simp only [pattern_eq_some_iff, hexPattern_eq_some_iff, functionPattern_eq_some_iff, mem_digitCounts_iff,
    mem_functionNames_iff, mayPrecedeHex_reverse_iff, startsWithAny_eq_false_iff, List.head?_reverse]
  constructor
  · rintro (⟨htext, hoffset, hdigits, hcount, hafter, hbefore, hpart⟩ |
      ⟨htext, hoffset, hword, hname, harguments, hbefore⟩)
    · exact ⟨_, _, _, by rw [htext], by simp, hoffset,
        .inl ⟨_, _, rfl, rfl, rfl, ⟨hbefore, hpart⟩, hcount, hdigits, hafter⟩⟩
    · exact ⟨_, _, _, by rw [htext, List.append_assoc], by simp, hoffset,
        .inr ⟨_, _, _, _, hword, hname, rfl, harguments, rfl, rfl, hbefore⟩⟩
  · rintro ⟨before, tail, length, rfl, -, hoffset,
      ⟨digits, after, rfl, rfl, -, ⟨hbefore, hpart⟩, hcount, hdigits, hafter⟩ |
      ⟨word, name, arguments, after, hword, hname, rfl, harguments, rfl, -, hbefore⟩⟩
    · exact .hex rfl hoffset hdigits hcount hafter hbefore hpart
    · exact .function rfl hoffset hword hname harguments hbefore

/-- The colours that are located are those that the text has, each one once and in the order of the text. -/
theorem locate_exact : ((locate text).Pairwise fun first later => first.1 < later.1) ∧
    ∀ offset color, (offset, color) ∈ locate text ↔ IsColorAt text offset color := by
  rw [locate_eq_places]
  refine ⟨Text.pairwise_places, fun offset color => ?_⟩
  rw [Text.mem_places_iff, isColorAt_iff]

/-- The search finds the colours that the text has and nothing else, in the order in which they begin. -/
theorem find_exact (text : Text) : ∃ found : List (Nat × Text), find text = found.map (·.2) ∧
    (found.Pairwise fun first later => first.1 < later.1) ∧
    ∀ offset color, (offset, color) ∈ found ↔ IsColorAt text offset color :=
  ⟨locate text, rfl, locate_exact⟩

end VerticalSlice.Color
