import Mathlib.Data.List.Find
import VerticalSlice.Proofs.Syntax.Substitution
import VerticalSlice.Proofs.Text.Letters

/-!
# The lexemes of a filled text

Cutting the filled text and cutting the text with holes go hand in hand: the states are the same but
for the last token, and every lexeme is the filled one (`lexemesFrom_text`). `tameWithin` computes
whether that is so, from the text with holes alone.
-/

namespace VerticalSlice.Syntax

/-- Can the word mean something wherever it stands? It has no holes and begins with no capital. -/
def isPlainWord (word : Text) : Bool := isFilled word && !word.head?.any isCapital

namespace Substitution

variable (σ : Substitution)

/-! ## States -/

theorem text_eq_iff {text word : Text} (htext : isSettled text = true)
    (hword : isPlainWord word = true) : σ.text text = word ↔ text = word := by
  rw [isPlainWord, Bool.and_eq_true, Bool.not_eq_true'] at hword
  rw [isSettled, Bool.or_eq_true] at htext
  rcases htext with hfilled | hname
  · rw [text_of_isFilled σ hfilled]
  · cases text with
    | nil => simp at hname
    | cons c rest =>
      have hc : isNameHole c = true := by simpa using hname
      obtain ⟨d, image, hd⟩ := List.exists_cons_of_ne_nil (σ.image_ne_nil c)
      have hupper := σ.isCapital_head c hc d (by rw [hd]; rfl)
      rw [text_cons, hd]
      constructor
      · rintro rfl
        simp [hupper] at hword
      · rintro rfl
        simp [isFilled, isHole_of_isNameHole hc] at hword

theorem contains_text {words : List Text} {text : Text} (htext : isSettled text = true)
    (hwords : words.all isPlainWord = true) : words.contains (σ.text text) = words.contains text := by
  rw [Bool.eq_iff_iff, List.contains_iff_mem, List.contains_iff_mem]
  rw [List.all_eq_true] at hwords
  constructor
  · intro h
    rw [(text_eq_iff σ htext (hwords _ h)).1 rfl]
    exact h
  · intro h
    rwa [(text_eq_iff σ htext (hwords _ h)).2 rfl]

/-- The state behind the filled text. -/
def state (state : LexState) : LexState := { state with last := σ.text state.last }

theorem afterWord_text {state : LexState} {word : Text} (hlast : isSettled state.last = true)
    (hword : isSettled word = true) :
    σ.state (state.afterWord word) = (σ.state state).afterWord (σ.text word) := by
  have hoperator : operatorWords.contains (σ.text word) = operatorWords.contains word :=
    contains_text σ hword (by decide)
  unfold LexState.afterWord Substitution.state
  dsimp only
  rw [hoperator, decide_eq_decide.2 (text_eq_iff σ hlast (by decide)),
    decide_eq_decide.2 (text_eq_iff σ hlast (by decide))]

theorem afterMark_text {state : LexState} {mark : Text} (hlast : isSettled state.last = true)
    (hmark : isFilled mark = true) :
    σ.state (state.afterMark mark) = (σ.state state).afterMark mark := by
  have hhead : headWords.contains (σ.text state.last) = headWords.contains state.last :=
    contains_text σ hlast (by decide)
  have hblock : opensBlock (σ.text state.last) = opensBlock state.last :=
    contains_text σ hlast (by decide)
  have htext := text_of_isFilled σ hmark
  unfold LexState.afterMark
  split <;> simp only [Substitution.state, hhead, hblock, htext]
  all_goals split <;> simp_all

/-! ## Marks and numbers -/

theorem isPrefixOf_text {word : Text} (hword : word.all (fun c => !isCapital c) = true) :
    ∀ {text : Text},
      (text.take word.length).all (fun c => !isHole c || isNameHole c) = true →
        word.isPrefixOf (σ.text text) = word.isPrefixOf text := by
  induction word with
  | nil => intro text _; simp
  | cons w word ih =>
    intro text htext
    rw [List.all_cons, Bool.and_eq_true, Bool.not_eq_true'] at hword
    obtain ⟨hcapital, hword⟩ := hword
    have hw : isHole w = false := (Bool.or_eq_false_iff.1 hcapital).2
    cases text with
    | nil => rfl
    | cons c rest =>
      rw [List.length_cons, List.take_succ_cons, List.all_cons, Bool.and_eq_true] at htext
      cases hole : isHole c with
      | false =>
        rw [text_cons_of_not_hole σ hole, List.isPrefixOf_cons_cons, List.isPrefixOf_cons_cons,
          ih hword htext.2]
      | true =>
        have hname : isNameHole c = true := by simpa [hole] using htext.1
        obtain ⟨d, image, hd⟩ := List.exists_cons_of_ne_nil (σ.image_ne_nil c)
        have hdcapital := σ.isCapital_head c hname d (by rw [hd]; rfl)
        have hwc : (w == c) = false := beq_eq_false_iff_ne.2 (ne_of_isHole hole hw).symm
        have hwd : (w == d) = false := by
          rw [beq_eq_false_iff_ne]
          rintro rfl
          rw [hcapital] at hdcapital
          cases hdcapital
        rw [text_cons, hd, List.cons_append, List.isPrefixOf_cons_cons, List.isPrefixOf_cons_cons, hwc, hwd,
          Bool.false_and, Bool.false_and]

/-- The lexeme that the mark at the front of the text is. -/
theorem markLength_text {c : Char} {rest : Text} (hc : isHole c = false) (hquestion : c ≠ '?')
    (hrest : (rest.take 2).all (fun d => !isHole d || isNameHole d) = true) :
    markLength (c :: σ.text rest) = markLength (c :: rest) := by
  have hfind : longMarks.find? (·.isPrefixOf (c :: σ.text rest)) =
      longMarks.find? (·.isPrefixOf (c :: rest)) := by
    have hlong : ∀ long ∈ longMarks,
        long.all (fun c => !isCapital c) = true ∧ long.length ≤ 3 := by decide
    have hpred : ∀ long ∈ longMarks,
        long.isPrefixOf (c :: σ.text rest) = long.isPrefixOf (c :: rest) := by
      intro long hmem
      rw [← text_cons_of_not_hole σ hc]
      refine isPrefixOf_text σ (hlong long hmem).1 ?_
      rw [List.all_eq_true] at hrest ⊢
      intro d hd
      have hd' : d ∈ (c :: rest).take 3 :=
        (List.take_subset_take_left _ (hlong long hmem).2) hd
      rw [List.take_succ_cons, List.mem_cons] at hd'
      rcases hd' with rfl | hd'
      · simp [hc]
      · exact hrest d hd'
    exact List.find?_congr hpred
  have hmark : ∀ rest, markLength (c :: rest) =
      ((longMarks.find? (·.isPrefixOf (c :: rest))).map List.length).getD 1 := by
    intro rest
    unfold markLength
    split
    · next heq => exact absurd (List.cons.inj heq).1 hquestion
    · cases longMarks.find? (·.isPrefixOf (c :: rest)) <;> rfl
  rw [hmark, hmark, hfind]

end Substitution

/-! ## Tame texts -/

/-- Are all holes of the text for names? -/
def holdsNames (text : Text) : Bool := text.all fun c => !isHole c || isNameHole c

/-- Does the word at the front of the text end where its filled form ends, and mean as little? -/
def tameWord (text : Text) : Bool :=
  let word := text.takeWhile isNameChar
  holdsNames word && isSettled word && (text.drop word.length).head? != some '\\'

/-- Is the number at the front of the text a plain row of digits? -/
def tameNumber (text : Text) : Bool :=
  (text.drop (text.takeWhile Char.isDigit).length).head?.all fun c =>
    !isHole c && !c.isAlphanum && c != '_' && c != '.'

/-- Is the mark that begins with this character the same when the text is filled? -/
def tameMark (c : Char) (rest : Text) : Bool :=
  plainMarks.contains c && c != '?' && !(c == '.' && rest.head?.any Char.isDigit) &&
    holdsNames (rest.take 2)

/-- Is the lexeme at the front of a text of code the filled one when the text is filled? -/
def tameCode : Text → Bool
  | [] => false
  | c :: rest =>
    if c = '/' then rest.head? = some '/'
    else if c = '`' then true
    else if c = '"' || c = '\'' then (quotedLength? c false false rest).isSome
    else if isNameStart c then tameWord (c :: rest)
    else if c.isDigit then tameNumber (c :: rest)
    else tameMark c rest

theorem take_length_takeWhile (p : Char → Bool) (text : Text) :
    text.take (text.takeWhile p).length = text.takeWhile p :=
  (List.prefix_iff_eq_take.1 (List.takeWhile_prefix p)).symm

theorem head?_drop_takeWhile {p : Char → Bool} {text : Text} {c : Char}
    (h : c ∈ (text.drop (text.takeWhile p).length).head?) : p c = false := by
  induction text with
  | nil => simp at h
  | cons d rest ih =>
    rw [List.takeWhile_cons] at h
    split at h
    · exact ih h
    · next hd =>
      obtain rfl := Option.some.inj h
      simpa using hd

namespace Substitution

variable (σ : Substitution)

/-- A lexeme of a text with holes and the lexeme of the filled text belong together. -/
def CutsAlike (cut : LexState → Text → Cut) (state : LexState) (code : Text) : Prop :=
  ∃ sort length after, cut state code = (sort, length, after) ∧ 0 < length ∧
    cut (σ.state state) (σ.text code) = (sort, (σ.text (code.take length)).length, σ.state after)

theorem lineLength_text (text : Text) :
    lineLength (σ.text text) = (σ.text (text.take (lineLength text))).length := by
  have hpasses : σ.Passes fun c => c ≠ '\n' && c ≠ '\r' && !isLineBreak c := by
    intro c hole
    have hline : ∀ d, isSpace d = false →
        (decide (d ≠ '\n') && decide (d ≠ '\r') && !isLineBreak d) = true := by
      intro d hd
      have hne : ∀ e, isSpace e = true → d ≠ e := by
        rintro e he rfl
        rw [he] at hd
        cases hd
      simp [isLineBreak, hne '\n' (by decide), hne '\r' (by decide), hne '\u2028' (by decide),
        hne '\u2029' (by decide)]
    exact .inl ⟨hline c (isSpace_eq_false_of_isHole hole), fun d hd =>
      hline d (isHarmless_iff.1 (σ.isHarmless_of_mem c hole d hd)).1⟩
  rw [lineLength, lineLength, takeWhile_text σ hpasses, take_length_takeWhile]

theorem cutsAlike_comment (state : LexState) (rest : Text) :
    σ.CutsAlike (cutCode false) state ('/' :: '/' :: rest) := by
  refine ⟨_, _, _, rfl, Nat.add_pos_left (by decide) _, ?_⟩
  rw [text_cons_of_not_hole σ (by decide), text_cons_of_not_hole σ (by decide)]
  show (TokenClass.comment, 2 + lineLength (σ.text rest), σ.state state) = _
  rw [Nat.add_comm 2, Nat.add_comm 2, List.take_succ_cons, List.take_succ_cons,
    text_cons_of_not_hole σ (by decide), text_cons_of_not_hole σ (by decide), lineLength_text]
  rfl

theorem cutsAlike_backquote (state : LexState) (rest : Text) :
    σ.CutsAlike (cutCode false) state ('`' :: rest) := by
  refine ⟨_, _, _, rfl, Nat.one_pos, ?_⟩
  have hquote : σ.text ['`'] = ['`'] := text_of_isFilled σ (by decide)
  rw [text_cons_of_not_hole σ (by decide), List.take_succ_cons, List.take_zero, hquote]
  simp only [Substitution.state, hquote]
  rfl

theorem cutsAlike_string {quote : Char} (hquote : quote = '"' ∨ quote = '\'') (state : LexState)
    {rest : Text} (h : (quotedLength? quote false false rest).isSome = true) :
    σ.CutsAlike (cutCode false) state (quote :: rest) := by
  obtain ⟨length, hlength⟩ := Option.isSome_iff_exists.1 h
  have hole : isHole quote = false := by rcases hquote with rfl | rfl <;> decide
  refine ⟨_, _, _, cutCode_string hquote hlength, Nat.succ_pos _, ?_⟩
  rw [text_cons_of_not_hole σ hole, cutCode_string hquote (quotedLength?_text σ hquote hlength),
    List.take_succ_cons, text_cons_of_not_hole σ hole]
  refine Prod.ext rfl (Prod.ext rfl ?_)
  have hfilled : isFilled [quote] = true := by rcases hquote with rfl | rfl <;> decide
  simp only [LexState.afterOperand, Substitution.state, text_of_isFilled σ hfilled]

theorem isDigit_eq_false_of_isCapital {c : Char} (h : isCapital c = true) : c.isDigit = false := by
  rw [isCapital, Bool.or_eq_true] at h
  rcases h with h | h
  swap
  · exact isDigit_eq_false_of_isHole h
  rw [Bool.eq_false_iff]
  intro hdigit
  rw [Text.isUpper_iff] at h
  rw [Text.isDigit_iff] at hdigit
  omega

theorem isNameStart_head_text {c : Char} {rest : Text} (hc : isNameStart c = true)
    (hname : isHole c = true → isNameHole c = true) :
    ∃ d more, σ.text (c :: rest) = d :: more ∧ isNameStart d = true := by
  cases hole : isHole c with
  | false => exact ⟨c, σ.text rest, text_cons_of_not_hole σ hole rest, hc⟩
  | true =>
    obtain ⟨d, image, hd⟩ := List.exists_cons_of_ne_nil (σ.image_ne_nil c)
    have hmem : d ∈ σ.image c := hd ▸ List.mem_cons_self ..
    have hupper := σ.isCapital_head c (hname hole) d (by rw [hd]; rfl)
    refine ⟨d, image ++ σ.text rest, by rw [text_cons, hd, List.cons_append], ?_⟩
    rw [isNameStart, σ.isNameChar_of_mem c (hname hole) d hmem, isDigit_eq_false_of_isCapital hupper]
    rfl

theorem cutsAlike_word {state : LexState} {c : Char} {rest : Text}
    (hlast : isSettled state.last = true) (hc : isNameStart c = true)
    (h : tameWord (c :: rest) = true) : σ.CutsAlike (cutCode false) state (c :: rest) := by
  rw [tameWord, Bool.and_eq_true, Bool.and_eq_true, bne_iff_ne] at h
  obtain ⟨⟨hnames, hsettled⟩, hbackslash⟩ := h
  have hsplit : (c :: rest).takeWhile isNameChar ++
      (c :: rest).drop ((c :: rest).takeWhile isNameChar).length = c :: rest :=
    takeWhile_append_drop _ _
  have hhead : (c :: rest).takeWhile isNameChar = c :: rest.takeWhile isNameChar := by
    rw [List.takeWhile_cons, if_pos (isNameChar_of_isNameStart hc).1]
  have hwordChars : ∀ d ∈ (c :: rest).takeWhile isNameChar, isNameChar d = true :=
    List.all_eq_true.1 List.all_takeWhile
  have hbehind : ∀ d ∈ ((c :: rest).drop ((c :: rest).takeWhile isNameChar).length).head?,
      isNameChar d = false ∧ d ≠ '\\' := by
    intro d hd
    refine ⟨head?_drop_takeWhile hd, ?_⟩
    rintro rfl
    exact hbackslash hd
  generalize hword : (c :: rest).takeWhile isNameChar = word at *
  generalize hbehind' : (c :: rest).drop word.length = behind at *
  have hlength : nameLength (c :: rest) = word.length := by
    rw [nameLength, ← hsplit]
    exact nameLengthFrom_append hwordChars hbehind
  have hfilledLength : nameLength (σ.text (c :: rest)) = (σ.text word).length := by
    rw [nameLength, ← hsplit, text_append]
    refine nameLengthFrom_append (fun d hd => ?_) fun d hd => ?_
    · obtain ⟨e, he, hd⟩ := List.mem_flatMap.1 hd
      have hname := List.all_eq_true.1 hnames e he
      cases hole : isHole e with
      | false =>
        rw [σ.image_of_not_hole e hole, List.mem_singleton] at hd
        rw [hd]
        exact hwordChars e he
      | true => exact σ.isNameChar_of_mem e (by simpa [hole] using hname) d hd
    · cases behind with
      | nil => simp at hd
      | cons e more =>
        have he := hbehind e rfl
        have hole : isHole e = false := by
          cases hole : isHole e with
          | false => rfl
          | true => rw [isNameChar_of_isHole hole] at he; cases he.1
        rw [text_cons_of_not_hole σ hole] at hd
        obtain rfl := Option.some.inj hd
        exact he
  have htake : (c :: rest).take word.length = word := by
    rw [← hsplit, List.take_left]
  have hname : isHole c = true → isNameHole c = true := by
    intro hole
    have := List.all_eq_true.1 hnames c (hhead ▸ List.mem_cons_self ..)
    simpa [hole] using this
  obtain ⟨d, more, hd, hstart⟩ := isNameStart_head_text σ hc hname
  refine ⟨.word, word.length, state.afterWord word, ?_, ?_, ?_⟩
  · rw [cutCode_word hc, hlength, htake]
  · rw [hhead]
    exact Nat.succ_pos _
  · have htakeFilled : (σ.text (c :: rest)).take (σ.text word).length = σ.text word := by
      rw [← hsplit, text_append, List.take_left]
    rw [htake, afterWord_text σ hlast hsettled]
    rw [hd] at hfilledLength htakeFilled ⊢
    rw [cutCode_word hstart, hfilledLength, htakeFilled]

end Substitution

/-! ## Numbers and marks in front of anything -/

theorem digitsLength_append {digits rest : Text} (hdigits : ∀ c ∈ digits, c.isDigit = true)
    (hrest : ∀ c ∈ rest.head?, (c.isAlphanum || c == '_') = false) :
    digitsLength (digits ++ rest) = digits.length := by
  have hpasses : ∀ c ∈ digits, (c.isAlphanum || c == '_') = true := fun c hc => by
    simp [Char.isAlphanum, hdigits c hc]
  rw [digitsLength, List.takeWhile_append_of_pos hpasses]
  cases rest with
  | nil => simp
  | cons c rest =>
    rw [List.takeWhile_cons, if_neg (by simp [hrest c rfl]), List.append_nil]

theorem numberLength_append {digits rest : Text} (hne : digits ≠ [])
    (hdigits : ∀ c ∈ digits, c.isDigit = true)
    (hrest : ∀ c ∈ rest.head?, (c.isAlphanum || c == '_') = false ∧ c ≠ '.') :
    numberLength (digits ++ rest) = digits.length := by
  have hwhole := digitsLength_append hdigits fun c hc => (hrest c hc).1
  have hplain : numberLength.plain (digits ++ rest) = digits.length := by
    have hfraction : fractionLength rest = 0 := by
      unfold fractionLength
      split
      · exact absurd rfl (hrest '.' rfl).2
      · rfl
    have hexponent : exponentLength digits rest = 0 := by
      unfold exponentLength
      split
      · next e sign more hlast =>
        have hdigit := hdigits e (List.mem_of_getLast? hlast)
        have he : e ≠ 'e' ∧ e ≠ 'E' := by
          constructor <;>
          · rintro rfl
            exact absurd hdigit (by decide)
        simp [he]
      · rfl
    rw [numberLength.plain, hwhole, List.drop_left, hfraction, Nat.add_zero, List.take_left, List.drop_left, hexponent,
      Nat.add_zero]
  unfold numberLength
  split
  · next base more heq =>
    have hbase : base.isAlpha = false := by
      cases digits with
      | nil => exact absurd rfl hne
      | cons zero digits =>
        rw [List.cons_append] at heq
        have hmore := (List.cons.inj heq).2
        cases digits with
        | nil =>
          have := (hrest base (by rw [← List.nil_append rest, hmore]; rfl)).1
          simp [Char.isAlphanum] at this
          exact this.1.1
        | cons second digits =>
          obtain rfl := (List.cons.inj hmore).1
          have hdigit := hdigits second (by simp)
          rw [Text.isDigit_iff] at hdigit
          rw [Text.isAlpha_eq_false_iff, Text.isUpper_iff, Text.isLower_iff]
          omega
    rw [if_neg (by simp [hbase])]
    exact hplain
  · exact hplain

namespace Substitution

variable (σ : Substitution)

theorem isHole_eq_false_of_isDigit {c : Char} (h : c.isDigit = true) : isHole c = false := by
  cases hole : isHole c with
  | false => rfl
  | true => rw [isDigit_eq_false_of_isHole hole] at h; cases h

theorem cutsAlike_number {state : LexState} {c : Char} {rest : Text} (hc : c.isDigit = true)
    (h : tameNumber (c :: rest) = true) : σ.CutsAlike (cutCode false) state (c :: rest) := by
  have hsplit : (c :: rest).takeWhile Char.isDigit ++
      (c :: rest).drop ((c :: rest).takeWhile Char.isDigit).length = c :: rest :=
    takeWhile_append_drop _ _
  have hhead : (c :: rest).takeWhile Char.isDigit = c :: rest.takeWhile Char.isDigit := by
    rw [List.takeWhile_cons, if_pos hc]
  have hdigits : ∀ d ∈ (c :: rest).takeWhile Char.isDigit, d.isDigit = true :=
    List.all_eq_true.1 List.all_takeWhile
  rw [tameNumber] at h
  generalize (c :: rest).takeWhile Char.isDigit = digits at *
  generalize (c :: rest).drop digits.length = behind at *
  have hne : digits ≠ [] := by rw [hhead]; exact List.cons_ne_nil _ _
  have hbehind : ∀ d ∈ behind.head?,
      isHole d = false ∧ (d.isAlphanum || d == '_') = false ∧ d ≠ '.' := by
    intro d hd
    rw [Option.all_eq_true] at h
    have := h d hd
    simp only [Bool.and_eq_true, Bool.not_eq_true', bne_iff_ne] at this
    exact ⟨this.1.1.1, by simp [this.1.1.2, this.1.2], this.2⟩
  have hfilled : isFilled digits = true := by
    rw [isFilled, List.all_eq_true]
    intro d hd
    rw [isHole_eq_false_of_isDigit (hdigits d hd)]
    rfl
  have hlength : numberLength (c :: rest) = digits.length := by
    rw [← hsplit]
    exact numberLength_append hne hdigits fun d hd => (hbehind d hd).2
  have hfilledLength : numberLength (σ.text (c :: rest)) = digits.length := by
    rw [← hsplit, text_append, text_of_isFilled σ hfilled]
    refine numberLength_append hne hdigits fun d hd => ?_
    cases behind with
    | nil => simp at hd
    | cons e more =>
      have he := hbehind e rfl
      rw [text_cons_of_not_hole σ he.1] at hd
      obtain rfl := Option.some.inj hd
      exact he.2
  have hpos : 0 < digits.length := List.length_pos_iff.2 hne
  have hmax : max 1 digits.length = digits.length := by omega
  refine ⟨_, _, _, cutCode_number hc, by omega, ?_⟩
  have htake : (c :: rest).take digits.length = digits := by rw [← hsplit, List.take_left]
  rw [text_cons_of_not_hole σ (isHole_eq_false_of_isDigit hc)] at hfilledLength ⊢
  rw [cutCode_number hc, hlength, hfilledLength, hmax, htake, text_of_isFilled σ hfilled]
  have hzero : σ.text ['0'] = ['0'] := text_of_isFilled σ (by decide)
  simp only [LexState.afterOperand, Substitution.state, hzero]

/-- A mark is one of the long ones, or a single character. -/
theorem markLength_cases {c : Char} (rest : Text) (hquestion : c ≠ '?') :
    (∃ long ∈ longMarks, long <+: c :: rest ∧ markLength (c :: rest) = long.length) ∨
      markLength (c :: rest) = 1 := by
  unfold markLength
  split
  · next heq => exact absurd (List.cons.inj heq).1 hquestion
  · split
    · next long hfind =>
      have hprefix := List.find?_some hfind
      exact .inl ⟨long, List.mem_of_find?_eq_some hfind, List.isPrefixOf_iff_prefix.1 hprefix, rfl⟩
    · exact .inr rfl

/-- A mark at the front of a text has no holes, and the text is long enough for it. -/
theorem isFilled_mark {c : Char} (rest : Text) (hc : isHole c = false) (hquestion : c ≠ '?') :
    isFilled ((c :: rest).take (markLength (c :: rest))) = true ∧
      markLength (c :: rest) ≤ (c :: rest).length := by
  rcases markLength_cases rest hquestion with ⟨long, hmem, hprefix, hlength⟩ | hlength
  · have hlong : ∀ long ∈ longMarks, isFilled long = true := by decide
    rw [hlength, ← List.prefix_iff_eq_take.1 hprefix]
    exact ⟨hlong long hmem, hprefix.length_le⟩
  · rw [hlength]
    exact ⟨by simp [isFilled, hc], by simp⟩

theorem cutsAlike_mark {state : LexState} {c : Char} {rest : Text}
    (hlast : isSettled state.last = true) (h : tameMark c rest = true) :
    σ.CutsAlike (cutCode false) state (c :: rest) := by
  simp only [tameMark, Bool.and_eq_true, List.contains_iff_mem, bne_iff_ne, Bool.not_eq_true',
    Bool.and_eq_false_imp, beq_iff_eq] at h
  obtain ⟨⟨⟨hplain, hquestion⟩, hpoint⟩, hnames⟩ := h
  have hole := isHole_eq_false_of_mem_markChars (mem_markChars_of_plain hplain)
  have hpoint' : c = '.' → (σ.text rest).head?.any Char.isDigit = false := by
    intro hdot
    have hnot := hpoint hdot
    cases rest with
    | nil => rfl
    | cons d more =>
      cases holed : isHole d with
      | false => rw [text_cons_of_not_hole σ holed]; exact hnot
      | true =>
        have hname : isNameHole d = true := by
          have := List.all_eq_true.1 hnames d (by simp)
          simpa [holed] using this
        obtain ⟨e, image, he⟩ := List.exists_cons_of_ne_nil (σ.image_ne_nil d)
        have hupper := σ.isCapital_head d hname e (by rw [he]; rfl)
        rw [text_cons, he]
        exact isDigit_eq_false_of_isCapital hupper
  refine ⟨_, _, _, cutCode_mark hplain hpoint, markLength_pos, ?_⟩
  obtain ⟨hfilled, hle⟩ := isFilled_mark rest hole hquestion
  have hlength := markLength_text σ hole hquestion hnames
  have htake := take_text σ (c :: rest) (markLength (c :: rest))
  rw [text_of_isFilled σ hfilled] at htake ⊢
  rw [text_cons_of_not_hole σ hole] at htake ⊢
  rw [afterMark_text σ hlast hfilled, cutCode_mark hplain hpoint', hlength]
  have hmarkLength : ((c :: rest).take (markLength (c :: rest))).length = markLength (c :: rest) :=
    List.length_take_of_le hle
  rw [hmarkLength] at htake ⊢
  rw [htake]

end Substitution

/-! ## Whole texts -/

/-- Is the lexeme at the front of a text, in this state, the filled one when the text is filled? -/
def isTame (state : LexState) (code : Text) : Bool :=
  isSettled state.last &&
    match state.stack with
    | .template :: _ => true
    | .contents :: _ | .tag _ :: _ => false
    | _ => tameCode code

/-- Are all lexemes of the text the filled ones when the text is filled? At most `count` are looked
at. -/
def tameWithin : Nat → LexState → Text → Bool
  | 0, _, _ => false
  | count + 1, state, text =>
    match text.drop (leadingBlanks state.stack text).length with
    | [] => true
    | c :: rest =>
      let (_, length, after) := cut false state (c :: rest)
      isTame state (c :: rest) && tameWithin count after ((c :: rest).drop length)

namespace Substitution

variable (σ : Substitution)

theorem cutsAlike_code {state : LexState} {code : Text} (hlast : isSettled state.last = true)
    (h : tameCode code = true) : σ.CutsAlike (cutCode false) state code := by
  cases code with
  | nil => cases h
  | cons c rest =>
    rw [tameCode] at h
    split at h
    · next hslash =>
      subst hslash
      obtain ⟨more, rfl⟩ : ∃ more, rest = '/' :: more := by
        cases rest with
        | nil => simp at h
        | cons d more => exact ⟨more, by simpa using h⟩
      exact cutsAlike_comment σ state more
    · split at h
      · next hquote =>
        subst hquote
        exact cutsAlike_backquote σ state rest
      · split at h
        · next hquote => exact cutsAlike_string σ (by simpa using hquote) state h
        · split at h
          · next hstart => exact cutsAlike_word σ hlast hstart h
          · split at h
            · next hdigit => exact cutsAlike_number σ hdigit h
            · exact cutsAlike_mark σ hlast h

theorem cutsAlike_template {state : LexState} {code : Text} (hne : code ≠ []) :
    σ.CutsAlike cutTemplate state code := by
  obtain ⟨c, rest, rfl⟩ := List.exists_cons_of_ne_nil hne
  have hlength := templateLength_text σ (c :: rest) false
  cases hraw : templateLength false (c :: rest) with
  | succ length =>
    have hpos : 0 < (σ.text ((c :: rest).take (length + 1))).length :=
      List.length_pos_iff.2 (text_ne_nil σ (by simp))
    obtain ⟨filled, hfilled⟩ : ∃ n, (σ.text ((c :: rest).take (length + 1))).length = n + 1 :=
      ⟨_, (Nat.sub_add_cancel hpos).symm⟩
    refine ⟨.template, length + 1, state, ?_, Nat.succ_pos _, ?_⟩
    · unfold cutTemplate
      rw [hraw]
      rfl
    · rw [hraw, hfilled] at hlength
      unfold cutTemplate
      rw [hlength, hfilled]
      rfl
  | zero =>
    rw [hraw] at hlength
    have hend : c = '`' ∨ (c = '$' ∧ rest.head? = some '\x7b') := by
      rw [templateLength, if_neg Bool.false_ne_true] at hraw
      split at hraw
      · cases hraw
      · split at hraw
        · next h => simpa using h
        · cases hraw
    have hlast : ∀ text, isFilled text = true → σ.text text = text := fun _ =>
      text_of_isFilled σ
    rcases hend with rfl | ⟨rfl, hbrace⟩
    · refine ⟨.mark, 1, ⟨state.stack.drop 1, true, ['`']⟩, rfl, Nat.one_pos, ?_⟩
      rw [text_cons_of_not_hole σ (by decide), List.take_succ_cons, List.take_zero,
        hlast ['`'] (by decide)]
      show (TokenClass.mark, 1, (⟨state.stack.drop 1, true, ['`']⟩ : LexState)) = _
      simp only [Substitution.state, hlast ['`'] (by decide)]
      rfl
    · obtain ⟨more, rfl⟩ : ∃ more, rest = '\x7b' :: more := by
        cases rest with
        | nil => simp at hbrace
        | cons d more => exact ⟨more, by simpa using hbrace⟩
      refine ⟨.mark, 2, ⟨.substitution :: state.stack, false, ['$', '\x7b']⟩, rfl, by decide, ?_⟩
      rw [text_cons_of_not_hole σ (by decide), text_cons_of_not_hole σ (by decide)]
      show (TokenClass.mark, 2, (⟨.substitution :: state.stack, false, ['$', '\x7b']⟩ : LexState)) = _
      simp only [List.take_succ_cons, List.take_zero, Substitution.state,
        hlast ['$', '\x7b'] (by decide)]
      rfl

theorem cutsAlike_of_isTame {state : LexState} {code : Text} (hne : code ≠ [])
    (h : isTame state code = true) : σ.CutsAlike (cut false) state code := by
  rw [isTame, Bool.and_eq_true] at h
  obtain ⟨hlast, h⟩ := h
  obtain ⟨stack, operandEnded, last⟩ := state
  dsimp only at h
  split at h
  · exact cutsAlike_template σ hne
  · cases h
  · cases h
  · next htemplate hcontents htag =>
    obtain ⟨sort, length, after, hcut, hpos, hfilled⟩ := cutsAlike_code σ hlast h
    have hcode : ∀ last code, cut false ⟨stack, operandEnded, last⟩ code =
        cutCode false ⟨stack, operandEnded, last⟩ code := by
      intro last code
      unfold cut
      split
      · next heq => exact absurd heq (htemplate _)
      · next heq => exact absurd heq (hcontents _)
      · next heq => exact absurd heq (htag _ _)
      · rfl
    exact ⟨sort, length, after, (hcode _ _).trans hcut, hpos, (hcode _ _).trans hfilled⟩

/-- The lexeme with its holes filled. -/
def lexeme (lexeme : Lexeme) : Lexeme := { lexeme with text := σ.text lexeme.text }

theorem leadingBlanks_text (stack : List Context) (text : Text) :
    leadingBlanks stack (σ.text text) = leadingBlanks stack text ∧
      (σ.text text).drop (leadingBlanks stack text).length =
        σ.text (text.drop (leadingBlanks stack text).length) := by
  unfold leadingBlanks
  split
  · exact ⟨rfl, rfl⟩
  · have hblanks : isFilled (text.takeWhile isSpace) = true := by
      rw [isFilled, List.all_eq_true]
      intro c hc
      have hspace := List.all_eq_true.1 List.all_takeWhile c hc
      cases hole : isHole c with
      | false => rfl
      | true => rw [isSpace_eq_false_of_isHole hole] at hspace; cases hspace
    have htext := text_of_isFilled σ hblanks
    refine ⟨by rw [takeWhile_text σ (passes_isSpace σ), htext], ?_⟩
    have hdrop := drop_text σ text (text.takeWhile isSpace).length
    rwa [take_length_takeWhile, htext] at hdrop

/-- The lexemes of a filled text are the filled lexemes. -/
theorem lexemesFrom_text :
    ∀ {count : Nat} {state : LexState} {text : Text}, tameWithin count state text = true →
      lexemesFrom false (σ.state state) (σ.text text) =
        (lexemesFrom false state text).map σ.lexeme := by
  intro count
  induction count with
  | zero => intro state text h; cases h
  | succ count ih =>
    intro state text h
    obtain ⟨hblanks, hdrop⟩ := leadingBlanks_text σ state.stack text
    rw [tameWithin] at h
    split at h
    · next hcode =>
      have hfilled : (σ.text text).drop (leadingBlanks (σ.state state).stack (σ.text text)).length =
          [] := by
        show (σ.text text).drop (leadingBlanks state.stack (σ.text text)).length = []
        rw [hblanks, hdrop, hcode, text_nil]
      rw [lexemesFrom_end hcode, lexemesFrom_end hfilled]
      show (if leadingBlanks state.stack (σ.text text) = [] then _
        else [Lexeme.mk .comment (leadingBlanks state.stack (σ.text text)) []]) = _
      rw [hblanks]
      split <;> rfl
    · next c rest hcode =>
      rw [Bool.and_eq_true] at h
      obtain ⟨sort, length, after, hcut, hpos, hfilledCut⟩ :=
        cutsAlike_of_isTame σ (List.cons_ne_nil c rest) h.1
      have hfilled : (σ.text text).drop (leadingBlanks (σ.state state).stack (σ.text text)).length =
          σ.text (c :: rest) := by
        show (σ.text text).drop (leadingBlanks state.stack (σ.text text)).length = _
        rw [hblanks, hdrop, hcode]
      have hlength : 0 < (σ.text ((c :: rest).take length)).length := by
        refine List.length_pos_iff.2 (text_ne_nil σ ?_)
        obtain ⟨n, rfl⟩ : ∃ n, length = n + 1 := ⟨length - 1, by omega⟩
        simp
      rw [lexemesFrom_step hcode (List.cons_ne_nil c rest) hcut hpos,
        lexemesFrom_step hfilled (text_ne_nil σ (List.cons_ne_nil c rest)) hfilledCut hlength,
        take_text, drop_text, List.map_cons]
      have hrest := h.2
      rw [hcut] at hrest
      rw [ih hrest]
      refine congrArg (· :: _) ?_
      show Lexeme.mk sort (leadingBlanks state.stack (σ.text text)) _ = _
      rw [hblanks]
      rfl

end Substitution

end VerticalSlice.Syntax
