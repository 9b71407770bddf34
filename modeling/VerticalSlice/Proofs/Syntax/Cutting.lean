import VerticalSlice.Syntax.Lexeme

/-!
# How single lexemes are cut

What a lexeme is depends on its first character and on little of what comes behind it. This file says
so for the lexemes of ordinary code, and it gives the cutting of a whole text step by step
(`lexemesFrom_step`) and as a computation with a count of steps (`lexemesWithin`).
-/

namespace VerticalSlice.Syntax

/-! ## Step by step -/

theorem lexemesFrom_cons {markup : Bool} {state : LexState} {text rest : Text} {c : Char}
    (hcode : text.drop (leadingBlanks state.stack text).length = c :: rest) :
    lexemesFrom markup state text =
      ⟨(cut markup state (c :: rest)).1, leadingBlanks state.stack text,
          c :: rest.take ((cut markup state (c :: rest)).2.1 - 1)⟩ ::
        lexemesFrom markup (cut markup state (c :: rest)).2.2
          (rest.drop ((cut markup state (c :: rest)).2.1 - 1)) := by
  rw [lexemesFrom]
  split
  · next h => rw [hcode] at h; cases h
  · next c' rest' h =>
    rw [hcode] at h
    obtain ⟨rfl, rfl⟩ := List.cons.inj h
    rfl

/-- The text behind the blanks is cut once, and then what is left. -/
theorem lexemesFrom_step {markup : Bool} {state after : LexState} {text code : Text}
    {sort : TokenClass} {length : Nat}
    (hcode : text.drop (leadingBlanks state.stack text).length = code) (hne : code ≠ [])
    (hcut : cut markup state code = (sort, length, after)) (hlength : 0 < length) :
    lexemesFrom markup state text =
      ⟨sort, leadingBlanks state.stack text, code.take length⟩ ::
        lexemesFrom markup after (code.drop length) := by
  obtain ⟨c, rest, rfl⟩ := List.exists_cons_of_ne_nil hne
  obtain ⟨length, rfl⟩ : ∃ n, length = n + 1 := ⟨length - 1, by omega⟩
  rw [lexemesFrom_cons hcode, hcut]
  rfl

theorem lexemesFrom_end {markup : Bool} {state : LexState} {text : Text}
    (hcode : text.drop (leadingBlanks state.stack text).length = []) :
    lexemesFrom markup state text =
      if leadingBlanks state.stack text = [] then []
      else [⟨.comment, leadingBlanks state.stack text, []⟩] := by
  rw [lexemesFrom]
  split
  · rfl
  · next h => rw [hcode] at h; cases h

/-- The lexemes of the text, at most `count` of them. -/
def lexemesWithin (markup : Bool) : Nat → LexState → Text → List Lexeme
  | 0, _, _ => []
  | count + 1, state, text =>
    let blanks := leadingBlanks state.stack text
    match text.drop blanks.length with
    | [] => if blanks = [] then [] else [⟨.comment, blanks, []⟩]
    | c :: rest =>
      let (sort, length, after) := cut markup state (c :: rest)
      ⟨sort, blanks, c :: rest.take (length - 1)⟩ ::
        lexemesWithin markup count after (rest.drop (length - 1))

theorem lexemesWithin_eq {markup : Bool} :
    ∀ {count : Nat} {state : LexState} {text : Text}, text.length < count →
      lexemesWithin markup count state text = lexemesFrom markup state text := by
  intro count
  induction count with
  | zero => intro _ _ h; exact absurd h (Nat.not_lt_zero _)
  | succ count ih =>
    intro state text hcount
    rw [lexemesWithin]
    dsimp only
    split
    · next h => rw [lexemesFrom_end h]
    · next c rest h =>
      have hlength := congrArg List.length h
      rw [List.length_drop, List.length_cons] at hlength
      rw [lexemesFrom_cons h, ih (by rw [List.length_drop]; omega)]

/-! ## Classes of characters -/

/-- The marks of ordinary code that begin no comment, literal or private name. -/
def plainMarks : Text := "\x7b\x7d()[],;:.=@|&<>!+-*%^~?"

theorem isNameChar_eq_false_of_mem {c : Char} (h : c ∈ markChars) : isNameChar c = false := by
  have hall : ∀ c ∈ markChars, isNameChar c = false := Text.forall_mem (by decide)
  exact hall c h

theorem mem_markChars_of_plain {c : Char} (h : c ∈ plainMarks) : c ∈ markChars := by
  have hall : ∀ c ∈ plainMarks, c ∈ markChars := Text.forall_mem (by decide)
  exact hall c h

theorem isNameChar_of_isNameStart {c : Char} (h : isNameStart c = true) :
    isNameChar c = true ∧ c.isDigit = false := by
  simpa [isNameStart] using h

theorem ne_of_isNameChar {c d : Char} (hc : isNameChar c = true) (hd : d ∈ markChars) : c ≠ d := by
  rintro rfl
  rw [isNameChar_eq_false_of_mem hd] at hc
  cases hc

/-! ## Names -/

theorem nameLengthFrom_append {word rest : Text} (hword : ∀ c ∈ word, isNameChar c = true)
    (hrest : ∀ c ∈ rest.head?, isNameChar c = false ∧ c ≠ '\\') :
    nameLengthFrom 0 (word ++ rest) = word.length := by
  induction word with
  | nil =>
    cases rest with
    | nil => rfl
    | cons c rest =>
      have hc := hrest c rfl
      rw [List.nil_append, nameLengthFrom, if_neg (by simp [hc.1])]
      have hescape : nameEscapeLength (c :: rest) = 0 := by
        unfold nameEscapeLength
        split
        · next heq => exact absurd (List.cons.inj heq).1 hc.2
        · next heq => exact absurd (List.cons.inj heq).1 hc.2
        · rfl
      rw [hescape]
      rfl
  | cons c word ih =>
    rw [List.cons_append, nameLengthFrom, if_pos (hword c (List.mem_cons_self ..)),
      ih fun d hd => hword d (List.mem_cons_of_mem _ hd)]
    rfl

/-! ## Lexemes of code -/

theorem cutCode_eq {markup : Bool} {state : LexState} {c : Char} {rest : Text}
    (hne : ∀ d ∈ ("/`#" : Text), c ≠ d) :
    cutCode markup state (c :: rest) = cutBegunWith markup state c rest := by
  unfold cutCode
  split
  · next heq => exact absurd (List.cons.inj heq).1 (hne _ (by decide))
  · next heq => exact absurd (List.cons.inj heq).1 (hne _ (by decide))
  · next heq => exact absurd (List.cons.inj heq).1 (hne _ (by decide))
  · next heq => exact absurd (List.cons.inj heq).1 (hne _ (by decide))
  · next heq => exact absurd (List.cons.inj heq).1 (hne _ (by decide))
  · next heq =>
    obtain ⟨rfl, rfl⟩ := List.cons.inj heq
    rfl
  · next heq => cases heq

theorem cutCode_word {markup : Bool} {state : LexState} {c : Char} {rest : Text}
    (hc : isNameStart c = true) :
    cutCode markup state (c :: rest) =
      (.word, nameLength (c :: rest),
        state.afterWord ((c :: rest).take (nameLength (c :: rest)))) := by
  obtain ⟨hname, hdigit⟩ := isNameChar_of_isNameStart hc
  have hne : ∀ d ∈ markChars, c ≠ d := fun d hd => ne_of_isNameChar hname hd
  have hlength : 0 < nameLength (c :: rest) := by
    rw [nameLength, nameLengthFrom]
    simp [hname]
  rw [cutCode_eq (by simp [hne _ (show '/' ∈ markChars by decide),
      hne _ (show '`' ∈ markChars by decide), hne _ (show '#' ∈ markChars by decide)]),
    cutBegunWith, if_neg (by simp [hne '"' (by decide), hne '\'' (by decide)]),
    if_neg (by simp [hdigit, hne '.' (by decide)]), if_pos hlength]

theorem cutCode_string {markup : Bool} {state : LexState} {quote : Char} {rest : Text} {length : Nat}
    (hquote : quote = '"' ∨ quote = '\'')
    (hlength : quotedLength? quote false false rest = some length) :
    cutCode markup state (quote :: rest) = (.string, length + 1, state.afterOperand [quote]) := by
  have hne : ∀ d ∈ ("/`#" : Text), quote ≠ d := by
    rcases hquote with rfl | rfl <;> exact Text.forall_mem (by decide)
  rw [cutCode_eq hne, cutBegunWith, if_pos (by simpa using hquote), hlength]

theorem cutCode_number {markup : Bool} {state : LexState} {c : Char} {rest : Text}
    (hc : c.isDigit = true) :
    cutCode markup state (c :: rest) =
      (.number, max 1 (numberLength (c :: rest)), state.afterOperand ['0']) := by
  have hname : isNameChar c = true := by simp [isNameChar, Char.isAlphanum, hc]
  have hne : ∀ d ∈ markChars, c ≠ d := fun d hd => ne_of_isNameChar hname hd
  rw [cutCode_eq (by simp [hne _ (show '/' ∈ markChars by decide),
      hne _ (show '`' ∈ markChars by decide), hne _ (show '#' ∈ markChars by decide)]),
    cutBegunWith, if_neg (by simp [hne '"' (by decide), hne '\'' (by decide)]),
    if_pos (by simp [hc])]

theorem nameLength_eq_zero {c : Char} {rest : Text} (hname : isNameChar c = false)
    (hescape : c ≠ '\\') : nameLength (c :: rest) = 0 := by
  have hword : ∀ d ∈ ([] : Text), isNameChar d = true := by simp
  have hrest : ∀ d ∈ (c :: rest).head?, isNameChar d = false ∧ d ≠ '\\' := by
    simp [hname, hescape]
  exact nameLengthFrom_append hword hrest

theorem cutCode_mark {state : LexState} {c : Char} {rest : Text} (hc : c ∈ plainMarks)
    (hpoint : c = '.' → rest.head?.any Char.isDigit = false) :
    cutCode false state (c :: rest) =
      (.mark, markLength (c :: rest),
        state.afterMark ((c :: rest).take (markLength (c :: rest)))) := by
  have hname := isNameChar_eq_false_of_mem (mem_markChars_of_plain hc)
  have hall : ∀ c ∈ plainMarks, c ∉ ("/`#\"'\\" : Text) := Text.forall_mem (by decide)
  have hne : ∀ d ∈ ("/`#\"'\\" : Text), c ≠ d := by
    rintro d hd rfl
    exact absurd hd (hall c hc)
  have hdigit : c.isDigit = false := by
    cases h : c.isDigit with
    | false => rfl
    | true => simp [isNameChar, Char.isAlphanum, h] at hname
  have hnumber : ¬(c.isDigit || (c = '.' && rest.head?.any Char.isDigit)) = true := by
    rw [hdigit, Bool.false_or, Bool.and_eq_true, decide_eq_true_eq]
    rintro ⟨hdot, hnext⟩
    rw [hpoint hdot] at hnext
    cases hnext
  rw [cutCode_eq fun d hd => hne d (List.mem_append_left _ hd), cutBegunWith,
    if_neg (by simp [hne '"' (by decide), hne '\'' (by decide)]), if_neg hnumber,
    if_neg (by rw [nameLength_eq_zero hname (hne _ (by decide))]; decide), if_neg (by simp),
    if_neg (by simp [hne '/' (by decide)])]

theorem markLength_pos {c : Char} {rest : Text} : 0 < markLength (c :: rest) := by
  unfold markLength
  split
  · split <;> decide
  · split
    · next long hfind =>
      have hlong : ∀ long ∈ longMarks, 0 < long.length := by decide
      exact hlong long (List.mem_of_find?_eq_some hfind)
    · decide

end VerticalSlice.Syntax
