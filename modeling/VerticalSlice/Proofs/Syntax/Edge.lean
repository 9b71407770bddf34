import Mathlib.Data.List.Find
import VerticalSlice.Proofs.Syntax.Cutting
import VerticalSlice.Proofs.Text.Letters

/-!
# Lexemes that end before an edge

Blanks, opening braces and closing brackets are edges: no name, number or mark of several characters goes on with
one. So a lexeme that ends in front of an edge is cut the same in front of another (`cut_edge`), if it is not a line
comment whose end the edge is, and if no literal without an end is closed behind one of the two.
-/

namespace VerticalSlice.Syntax

/-- Is the character a blank, an opening brace or a closing bracket? -/
def isEdge (c : Char) : Bool := c == '\x7b' || c == ']' || isSpace c

/-- Does the character end a line comment? -/
def endsLine (c : Char) : Bool := c == '\n' || c == '\r' || isLineBreak c

/-- The marks that are no edges. -/
def innerMarks : Text := "/`#\"'\\.+-=*<>&|?!^%~$_\x7d"

theorem ne_of_isEdge {c d : Char} (hc : isEdge c = true) (hd : d ∈ innerMarks) : c ≠ d := by
  rintro rfl
  have hall : ∀ c ∈ innerMarks, isEdge c = false := Text.forall_mem (by decide)
  rw [hall c hd] at hc
  cases hc

theorem isAlphanum_eq_false_of_isEdge {c : Char} (h : isEdge c = true) : c.isAlphanum = false := by
  rw [← Bool.not_eq_true]
  intro halpha
  rw [Text.isAlphanum_iff, Text.isUpper_iff, Text.isLower_iff, Text.isDigit_iff] at halpha
  rw [isEdge, Bool.or_eq_true, Bool.or_eq_true, beq_iff_eq, beq_iff_eq] at h
  rcases h with (rfl | rfl) | h
  · exact absurd halpha (by decide)
  · exact absurd halpha (by decide)
  · simp only [isSpace, Bool.or_eq_true, Bool.and_eq_true, beq_iff_eq, decide_eq_true_eq] at h
    omega

theorem isDigit_eq_false_of_isEdge {c : Char} (h : isEdge c = true) : c.isDigit = false := by
  have halpha := isAlphanum_eq_false_of_isEdge h
  rw [Char.isAlphanum, Bool.or_eq_false_iff] at halpha
  exact halpha.2

theorem isAlpha_eq_false_of_isEdge {c : Char} (h : isEdge c = true) : c.isAlpha = false := by
  have halpha := isAlphanum_eq_false_of_isEdge h
  rw [Char.isAlphanum, Bool.or_eq_false_iff] at halpha
  exact halpha.1

theorem isNameChar_eq_false_of_isEdge {c : Char} (h : isEdge c = true) : isNameChar c = false := by
  have hmark := h
  rw [isEdge, Bool.or_eq_true, Bool.or_eq_true, beq_iff_eq, beq_iff_eq] at hmark
  rcases hmark with (rfl | rfl) | hspace
  · decide
  · decide
  · simp [isNameChar, isAlphanum_eq_false_of_isEdge h, ne_of_isEdge h (show '_' ∈ innerMarks by decide),
      ne_of_isEdge h (show '$' ∈ innerMarks by decide), hspace]

/-- Two texts that come behind the same one. Both begin with edges, the second with a blank; they end a
line comment both or neither. -/
structure Alike (behind behind' : Text) : Prop where
  edge : ∃ c rest, behind = c :: rest ∧ isEdge c = true
  blank : ∃ c rest, behind' = c :: rest ∧ isSpace c = true
  line : behind.head?.any endsLine = behind'.head?.any endsLine

/-- No literal goes on into the text and is closed in it. -/
structure Unquoted (text : Text) : Prop where
  quoted : ∀ quote, quote = '"' ∨ quote = '\'' → ∀ escaped, quotedLength? quote false escaped text = none
  regex : ∀ inClass escaped, regexLength? inClass escaped text = none

theorem isEdge_of_isSpace {c : Char} (h : isSpace c = true) : isEdge c = true := by
  rw [isEdge, h, Bool.or_true]

theorem Alike.edges {behind behind' : Text} (h : Alike behind behind') :
    ∃ c rest c' rest', behind = c :: rest ∧ behind' = c' :: rest' ∧ isEdge c = true ∧
      isSpace c' = true ∧ endsLine c = endsLine c' := by
  obtain ⟨c, rest, rfl, hc⟩ := h.edge
  obtain ⟨c', rest', rfl, hc'⟩ := h.blank
  refine ⟨c, rest, c', rest', rfl, rfl, hc, hc', ?_⟩
  simpa using h.line

/-! ## Runs of characters -/

section

variable {behind behind' : Text}

theorem takeWhile_append_edge {p : Char → Bool} (hp : ∀ c ∈ behind.head?, p c = false) (text : Text) :
    (text ++ behind).takeWhile p = text.takeWhile p := by
  induction text with
  | nil =>
    cases behind with
    | nil => rfl
    | cons c rest => rw [List.nil_append, List.takeWhile_cons, if_neg (by simp [hp c rfl]), List.takeWhile_nil]
  | cons c text ih =>
    rw [List.cons_append, List.takeWhile_cons, List.takeWhile_cons, ih]

theorem lineLength_edge (h : Alike behind behind') {text : Text}
    (hlength : lineLength (text ++ behind) ≤ text.length) :
    lineLength (text ++ behind') = lineLength (text ++ behind) := by
  obtain ⟨c, rest, c', rest', rfl, rfl, -, -, hline⟩ := h.edges
  have hends : ∀ d, (d ≠ '\n' && d ≠ '\r' && !isLineBreak d) = !endsLine d := by
    intro d
    simp [endsLine, Bool.not_or]
    rfl
  simp only [lineLength, hends] at hlength ⊢
  induction text with
  | nil =>
    rw [List.nil_append, List.nil_append, List.takeWhile_cons, List.takeWhile_cons, hline]
    rw [List.nil_append, List.takeWhile_cons] at hlength
    cases hend : endsLine c with
    | true => rw [← hline, hend]; rfl
    | false => simp [hend] at hlength
  | cons d text ih =>
    rw [List.cons_append, List.cons_append, List.takeWhile_cons, List.takeWhile_cons]
    rw [List.cons_append, List.takeWhile_cons] at hlength
    split
    · next hd =>
      rw [if_pos hd] at hlength
      rw [List.length_cons, List.length_cons, ih (by simpa using hlength)]
    · rfl

theorem blockCommentLength_edge (h : Alike behind behind') :
    ∀ {text : Text}, blockCommentLength (text ++ behind) ≤ text.length →
      blockCommentLength (text ++ behind') = blockCommentLength (text ++ behind) := by
  obtain ⟨c, rest, c', rest', rfl, rfl, hc, hc', -⟩ := h.edges
  have hslash : ∀ {e : Char}, isEdge e = true → e ≠ '/' := fun he => ne_of_isEdge he (by decide)
  intro text
  induction text with
  | nil =>
    intro hlength
    rw [List.nil_append] at hlength
    unfold blockCommentLength at hlength
    split at hlength
    · next heq => cases heq
    · exact absurd hlength (by decide)
    · exact absurd hlength (Nat.not_succ_le_zero _)
  | cons d text ih =>
    intro hlength
    by_cases hstar : d = '*' ∧ text.head? = some '/'
    · obtain ⟨rfl, hnext⟩ := hstar
      cases text with
      | nil => cases hnext
      | cons e text =>
        obtain rfl := Option.some.inj hnext
        rfl
    · have hstep : ∀ {e : Char} {more : Text}, isEdge e = true →
          blockCommentLength (d :: (text ++ e :: more)) =
            blockCommentLength (text ++ e :: more) + 1 := by
        intro e more he
        rw [blockCommentLength]
        rintro more' rfl heq
        cases text with
        | nil => exact hslash he (List.cons.inj heq).1
        | cons f text =>
          obtain rfl := (List.cons.inj heq).1
          exact hstar ⟨rfl, rfl⟩
      rw [List.cons_append, hstep hc] at hlength
      rw [List.cons_append, List.cons_append, hstep hc, hstep (isEdge_of_isSpace hc'),
        ih (Nat.le_of_succ_le_succ hlength)]

/-! ## Names -/

theorem le_nameLengthFrom (skip : Nat) (text : Text) :
    min skip text.length ≤ nameLengthFrom skip text := by
  induction text generalizing skip with
  | nil => exact Nat.min_le_right ..
  | cons c text ih =>
    cases skip with
    | zero => exact Nat.le_trans (Nat.min_le_left ..) (Nat.zero_le _)
    | succ skip =>
      have hrest := ih skip
      rw [nameLengthFrom, List.length_cons]
      omega

/-- Four letters or digits do not go on into an edge. -/
theorem all_take_append_edge {count : Nat} {text : Text} (hedge : ∃ c rest, behind = c :: rest ∧
    isEdge c = true) (hlength : text.length < count) :
    ((text ++ behind).take count).all Char.isAlphanum = false := by
  obtain ⟨c, rest, rfl, hc⟩ := hedge
  rw [List.all_eq_false]
  refine ⟨c, ?_, by rw [isAlphanum_eq_false_of_isEdge hc]; exact Bool.false_ne_true⟩
  rw [List.take_append, List.mem_append]
  right
  obtain ⟨n, hn⟩ : ∃ n, count - text.length = n + 1 := ⟨count - text.length - 1, by omega⟩
  rw [hn, List.take_succ_cons]
  exact List.mem_cons_self ..

theorem nameEscapeLength_of_ne {c : Char} (hc : c ≠ '\\') (text : Text) :
    nameEscapeLength (c :: text) = 0 := by
  unfold nameEscapeLength
  split
  · next heq => exact absurd (List.cons.inj heq).1 hc
  · next heq => exact absurd (List.cons.inj heq).1 hc
  · rfl

theorem nameEscapeLength_of_ne_u {c : Char} (hc : c ≠ 'u') (text : Text) :
    nameEscapeLength ('\\' :: c :: text) = 0 := by
  unfold nameEscapeLength
  split
  · next heq => exact absurd (List.cons.inj (List.cons.inj heq).2).1 hc
  · next heq => exact absurd (List.cons.inj (List.cons.inj heq).2).1 hc
  · rfl

theorem nameEscapeLength_digits {c : Char} (hc : c ≠ '\x7b') (text : Text) :
    nameEscapeLength ('\\' :: 'u' :: c :: text) =
      if ((c :: text).take 4).all Char.isAlphanum && 4 ≤ (c :: text).length then 6 else 0 := by
  rw [nameEscapeLength]
  rintro rest heq
  exact hc (List.cons.inj heq).1

/-- An escape with braces does not go on into an edge behind its opening brace. -/
theorem nameEscapeLength_braces_append {c : Char} (hc : isEdge c = true) (text rest : Text) :
    nameEscapeLength ('\\' :: 'u' :: '\x7b' :: (text ++ c :: rest)) =
      nameEscapeLength ('\\' :: 'u' :: '\x7b' :: text) := by
  have htake : (text ++ c :: rest).takeWhile Char.isAlphanum = text.takeWhile Char.isAlphanum := by
    refine takeWhile_append_edge (fun d hd => ?_) text
    rw [← Option.some.inj hd, isAlphanum_eq_false_of_isEdge hc]
  have hle : (text.takeWhile Char.isAlphanum).length ≤ text.length :=
    (List.takeWhile_prefix _).length_le
  have hclose : c ≠ '\x7d' := ne_of_isEdge hc (by decide)
  simp only [nameEscapeLength, htake]
  rw [List.drop_append_of_le_length hle, List.head?_append]
  cases text.drop (text.takeWhile Char.isAlphanum).length with
  | nil => simp [hclose]
  | cons d more => rfl

/-- An escape with four digits does not go on into an edge behind the first of them. -/
theorem nameEscapeLength_digits_append {c d : Char} (hc : isEdge c = true) (hd : d ≠ '\x7b')
    (text rest : Text) :
    nameEscapeLength ('\\' :: 'u' :: d :: (text ++ c :: rest)) =
      nameEscapeLength ('\\' :: 'u' :: d :: text) := by
  rw [nameEscapeLength_digits hd, nameEscapeLength_digits hd, ← List.cons_append]
  by_cases hlength : (d :: text).length < 4
  · rw [all_take_append_edge ⟨c, rest, rfl, hc⟩ hlength, Bool.false_and, if_neg Bool.false_ne_true,
      if_neg (by simp only [Bool.and_eq_true, decide_eq_true_eq]; omega)]
  · have hlength : 4 ≤ (d :: text).length := Nat.le_of_not_lt hlength
    rw [List.take_append_of_le_length hlength, List.length_append, decide_eq_true hlength,
      decide_eq_true (Nat.le_add_right_of_le hlength)]

/-- An escape goes on into an edge only if it begins just in front of it, and then it ends behind it. -/
theorem nameEscapeLength_edge (h : Alike behind behind') {text : Text} (hne : text ≠ [])
    (hlength : nameEscapeLength (text ++ behind) ≤ text.length) :
    nameEscapeLength (text ++ behind') = nameEscapeLength (text ++ behind) := by
  obtain ⟨c, rest, c', rest', rfl, rfl, hc, hc', -⟩ := h.edges
  have hedge' := isEdge_of_isSpace hc'
  have hu : ∀ {e : Char}, isEdge e = true → e ≠ 'u' := by
    rintro e he rfl
    cases he
  have hzero : ∀ {e : Char} {more : Text}, isEdge e = true → e ≠ '\x7b' →
      nameEscapeLength ('\\' :: 'u' :: e :: more) = 0 := by
    intro e more he hbrace
    have halpha := isAlphanum_eq_false_of_isEdge he
    rw [nameEscapeLength_digits hbrace, List.take_succ_cons, List.all_cons, halpha]
    rfl
  obtain ⟨d, text, rfl⟩ := List.exists_cons_of_ne_nil hne
  by_cases hd : d = '\\'
  · subst hd
    cases text with
    | nil =>
      rw [List.cons_append, List.cons_append, List.nil_append, List.nil_append,
        nameEscapeLength_of_ne_u (hu hc), nameEscapeLength_of_ne_u (hu hedge')]
    | cons e text =>
      simp only [List.cons_append] at hlength ⊢
      by_cases he : e = 'u'
      · subst he
        cases text with
        | nil =>
          have hbrace : c' ≠ '\x7b' := by
            rintro rfl
            cases hc'
          rw [List.nil_append, hzero hedge' hbrace]
          by_cases hopen : c = '\x7b'
          · subst hopen
            simp only [List.nil_append, nameEscapeLength] at hlength ⊢
            split at hlength
            · exact absurd hlength (by simp)
            · next hnot => rw [if_neg hnot]
          · rw [List.nil_append, hzero hc hopen]
        | cons f text =>
          by_cases hf : f = '\x7b'
          · subst hf
            rw [List.cons_append, List.cons_append, nameEscapeLength_braces_append hc,
              nameEscapeLength_braces_append hedge']
          · rw [List.cons_append, List.cons_append, nameEscapeLength_digits_append hc hf,
              nameEscapeLength_digits_append hedge' hf]
      · rw [nameEscapeLength_of_ne_u he, nameEscapeLength_of_ne_u he]
  · rw [List.cons_append, List.cons_append, nameEscapeLength_of_ne hd, nameEscapeLength_of_ne hd]

theorem nameLengthFrom_edge (h : Alike behind behind') :
    ∀ {text : Text} {skip : Nat}, nameLengthFrom skip (text ++ behind) ≤ text.length →
      nameLengthFrom skip (text ++ behind') = nameLengthFrom skip (text ++ behind) := by
  intro text
  induction text with
  | nil =>
    obtain ⟨c, rest, c', rest', rfl, rfl, hc, hc', -⟩ := h.edges
    intro skip hlength
    have hstop : ∀ {e : Char} {more : Text}, isEdge e = true → nameLengthFrom 0 (e :: more) = 0 := by
      intro e more he
      exact nameLength_eq_zero (isNameChar_eq_false_of_isEdge he) (ne_of_isEdge he (by decide))
    cases skip with
    | zero =>
      rw [List.nil_append, List.nil_append, hstop hc, hstop (isEdge_of_isSpace hc')]
    | succ skip => exact absurd hlength (Nat.not_succ_le_zero _)
  | cons d text ih =>
    intro skip hlength
    cases skip with
    | succ skip =>
      rw [List.cons_append, nameLengthFrom] at hlength
      rw [List.cons_append, List.cons_append, nameLengthFrom, nameLengthFrom,
        ih (Nat.le_of_succ_le_succ hlength)]
    | zero =>
      rw [List.cons_append, nameLengthFrom] at hlength
      rw [List.cons_append, List.cons_append, nameLengthFrom, nameLengthFrom]
      split
      · next hname =>
        rw [if_pos hname] at hlength
        rw [ih (Nat.le_of_succ_le_succ hlength)]
      · next hname =>
        rw [if_neg hname] at hlength
        have hescape : nameEscapeLength (d :: (text ++ behind')) =
            nameEscapeLength (d :: (text ++ behind)) := by
          refine nameEscapeLength_edge h (List.cons_ne_nil d text) ?_
          rw [List.cons_append]
          cases hlen : nameEscapeLength (d :: (text ++ behind)) with
          | zero => exact Nat.zero_le _
          | succ length =>
            rw [hlen] at hlength
            have hle := le_nameLengthFrom length (text ++ behind)
            have hbehind : 0 < behind.length := by
              obtain ⟨c, rest, rfl, -⟩ := h.edge
              exact Nat.succ_pos _
            rw [List.length_append] at hle
            rw [List.length_cons] at hlength ⊢
            dsimp only at hlength
            omega
        rw [hescape]
        cases hlen : nameEscapeLength (d :: (text ++ behind)) with
        | zero => rfl
        | succ length =>
          rw [hlen] at hlength
          dsimp only at hlength ⊢
          rw [ih (Nat.le_of_succ_le_succ hlength)]

/-! ## Literals -/

theorem quotedLength?_pos {quote : Char} {multiline escaped : Bool} {text : Text} {length : Nat}
    (h : quotedLength? quote multiline escaped text = some length) : 0 < length := by
  have hmap : ∀ {rest : Option Nat}, rest.map (· + 1) = some length → 0 < length := by
    intro rest hrest
    obtain ⟨_, -, rfl⟩ := Option.map_eq_some_iff.1 hrest
    exact Nat.succ_pos _
  cases text with
  | nil => cases h
  | cons c rest =>
    rw [quotedLength?] at h
    split at h
    · exact hmap h
    · split at h
      · rw [← Option.some.inj h]
        exact Nat.one_pos
      · split at h
        · exact hmap h
        · split at h
          · cases h
          · exact hmap h

/-- A literal that is closed in a text is closed there whatever comes behind it. -/
theorem quotedLength?_append_of_some {quote : Char} {multiline : Bool} :
    ∀ {text : Text} {escaped : Bool} {length : Nat},
      quotedLength? quote multiline escaped (text ++ behind) = some length →
        length ≤ text.length →
          quotedLength? quote multiline escaped (text ++ behind') = some length := by
  intro text
  induction text with
  | nil =>
    intro escaped length hlength hle
    exact absurd hle (Nat.not_le_of_lt (quotedLength?_pos hlength))
  | cons c text ih =>
    intro escaped length hlength hle
    have hrest : ∀ {next : Bool},
        (quotedLength? quote multiline next (text ++ behind)).map (· + 1) = some length →
          (quotedLength? quote multiline next (text ++ behind')).map (· + 1) = some length := by
      intro next hsome
      obtain ⟨before, hbefore, rfl⟩ := Option.map_eq_some_iff.1 hsome
      rw [ih hbefore (Nat.le_of_succ_le_succ hle)]
      rfl
    rw [List.cons_append, quotedLength?] at hlength ⊢
    split
    · next hescaped => rw [if_pos hescaped] at hlength; exact hrest hlength
    · next hescaped =>
      rw [if_neg hescaped] at hlength
      split
      · next hquote => rwa [if_pos hquote] at hlength
      · next hquote =>
        rw [if_neg hquote] at hlength
        split
        · next hback => rw [if_pos hback] at hlength; exact hrest hlength
        · next hback =>
          rw [if_neg hback] at hlength
          split
          · next hline => rw [if_pos hline] at hlength; cases hlength
          · next hline => rw [if_neg hline] at hlength; exact hrest hlength

/-- A literal that is not closed in a text is not closed behind it either, if nothing is closed there. -/
theorem quotedLength?_append_eq_none {quote : Char} {multiline : Bool}
    (hbehind : ∀ escaped, quotedLength? quote multiline escaped behind' = none) :
    ∀ {text : Text} {escaped : Bool},
      quotedLength? quote multiline escaped (text ++ behind) = none →
        quotedLength? quote multiline escaped (text ++ behind') = none := by
  intro text
  induction text with
  | nil => intro escaped _; exact hbehind escaped
  | cons c text ih =>
    intro escaped hnone
    have hrest : ∀ {next : Bool},
        (quotedLength? quote multiline next (text ++ behind)).map (· + 1) = none →
          (quotedLength? quote multiline next (text ++ behind')).map (· + 1) = none := fun h =>
      Option.map_eq_none_iff.2 (ih (Option.map_eq_none_iff.1 h))
    rw [List.cons_append, quotedLength?] at hnone ⊢
    split
    · next hescaped => rw [if_pos hescaped] at hnone; exact hrest hnone
    · next hescaped =>
      rw [if_neg hescaped] at hnone
      split
      · next hquote => rw [if_pos hquote] at hnone; cases hnone
      · next hquote =>
        rw [if_neg hquote] at hnone
        split
        · next hback => rw [if_pos hback] at hnone; exact hrest hnone
        · next hback =>
          rw [if_neg hback] at hnone
          split
          · rfl
          · next hline => rw [if_neg hline] at hnone; exact hrest hnone

theorem regexLength?_pos {inClass escaped : Bool} {text : Text} {length : Nat}
    (h : regexLength? inClass escaped text = some length) : 0 < length := by
  have hmap : ∀ {rest : Option Nat}, rest.map (· + 1) = some length → 0 < length := by
    intro rest hrest
    obtain ⟨_, -, rfl⟩ := Option.map_eq_some_iff.1 hrest
    exact Nat.succ_pos _
  cases text with
  | nil => cases h
  | cons c rest =>
    rw [regexLength?] at h
    split at h
    · cases h
    · split at h
      · exact hmap h
      · split at h
        · exact hmap h
        · split at h
          · exact hmap h
          · split at h
            · exact hmap h
            · split at h
              · rw [← Option.some.inj h]
                exact Nat.lt_of_lt_of_le Nat.one_pos (Nat.le_add_right ..)
              · exact hmap h

/-- A regular expression that is closed in a text in front of an edge is closed there in front of any
other. -/
theorem regexLength?_append_of_some (h : Alike behind behind') :
    ∀ {text : Text} {inClass escaped : Bool} {length : Nat},
      regexLength? inClass escaped (text ++ behind) = some length → length ≤ text.length →
        regexLength? inClass escaped (text ++ behind') = some length := by
  have hflags : ∀ text : Text, (text ++ behind').takeWhile Char.isAlpha =
      (text ++ behind).takeWhile Char.isAlpha := by
    obtain ⟨c, rest, c', rest', rfl, rfl, hc, hc', -⟩ := h.edges
    have hedge : ∀ {e : Char} {more : Text}, isEdge e = true →
        ∀ d ∈ (e :: more).head?, d.isAlpha = false := by
      intro e more he d hd
      rw [← Option.some.inj hd, isAlpha_eq_false_of_isEdge he]
    intro text
    rw [takeWhile_append_edge (hedge (isEdge_of_isSpace hc')), takeWhile_append_edge (hedge hc)]
  intro text
  induction text with
  | nil =>
    intro inClass escaped length hlength hle
    exact absurd hle (Nat.not_le_of_lt (regexLength?_pos hlength))
  | cons c text ih =>
    intro inClass escaped length hlength hle
    have hrest : ∀ {inClass escaped : Bool},
        (regexLength? inClass escaped (text ++ behind)).map (· + 1) = some length →
          (regexLength? inClass escaped (text ++ behind')).map (· + 1) = some length := by
      intro inClass escaped hsome
      obtain ⟨before, hbefore, rfl⟩ := Option.map_eq_some_iff.1 hsome
      rw [ih hbefore (Nat.le_of_succ_le_succ hle)]
      rfl
    rw [List.cons_append, regexLength?] at hlength ⊢
    rw [hflags]
    split
    · next hline => rwa [if_pos hline] at hlength
    · next hline =>
      rw [if_neg hline] at hlength
      split
      · next hescaped => rw [if_pos hescaped] at hlength; exact hrest hlength
      · next hescaped =>
        rw [if_neg hescaped] at hlength
        split
        · next hback => rw [if_pos hback] at hlength; exact hrest hlength
        · next hback =>
          rw [if_neg hback] at hlength
          split
          · next hopen => rw [if_pos hopen] at hlength; exact hrest hlength
          · next hopen =>
            rw [if_neg hopen] at hlength
            split
            · next hclose => rw [if_pos hclose] at hlength; exact hrest hlength
            · next hclose =>
              rw [if_neg hclose] at hlength
              split
              · next hslash => rwa [if_pos hslash] at hlength
              · next hslash => rw [if_neg hslash] at hlength; exact hrest hlength

theorem regexLength?_append_eq_none
    (hbehind : ∀ inClass escaped, regexLength? inClass escaped behind' = none) :
    ∀ {text : Text} {inClass escaped : Bool},
      regexLength? inClass escaped (text ++ behind) = none →
        regexLength? inClass escaped (text ++ behind') = none := by
  intro text
  induction text with
  | nil => intro inClass escaped _; exact hbehind inClass escaped
  | cons c text ih =>
    intro inClass escaped hnone
    have hrest : ∀ {inClass escaped : Bool},
        (regexLength? inClass escaped (text ++ behind)).map (· + 1) = none →
          (regexLength? inClass escaped (text ++ behind')).map (· + 1) = none := fun h =>
      Option.map_eq_none_iff.2 (ih (Option.map_eq_none_iff.1 h))
    rw [List.cons_append, regexLength?] at hnone ⊢
    split
    · rfl
    · next hline =>
      rw [if_neg hline] at hnone
      split
      · next hescaped => rw [if_pos hescaped] at hnone; exact hrest hnone
      · next hescaped =>
        rw [if_neg hescaped] at hnone
        split
        · next hback => rw [if_pos hback] at hnone; exact hrest hnone
        · next hback =>
          rw [if_neg hback] at hnone
          split
          · next hopen => rw [if_pos hopen] at hnone; exact hrest hnone
          · next hopen =>
            rw [if_neg hopen] at hnone
            split
            · next hclose => rw [if_pos hclose] at hnone; exact hrest hnone
            · next hclose =>
              rw [if_neg hclose] at hnone
              split
              · next hslash => rw [if_pos hslash] at hnone; cases hnone
              · next hslash => rw [if_neg hslash] at hnone; exact hrest hnone

/-- A piece of a template goes on into an edge, unless that is the brace of a substitution. -/
theorem templateLength_edge (h : Alike behind behind') :
    ∀ {text : Text} {escaped : Bool}, templateLength escaped (text ++ behind) ≤ text.length →
      templateLength escaped (text ++ behind') = templateLength escaped (text ++ behind) ∨
        text.drop (templateLength escaped (text ++ behind)) = ['$'] := by
  obtain ⟨c, rest, c', rest', rfl, rfl, hc, hc', -⟩ := h.edges
  intro text
  induction text with
  | nil =>
    intro escaped hlength
    rw [List.nil_append, templateLength] at hlength
    split at hlength
    · exact absurd hlength (Nat.not_succ_le_zero _)
    · split at hlength
      · exact absurd hlength (Nat.not_succ_le_zero _)
      · split at hlength
        · next hstop =>
          simp [ne_of_isEdge hc (show '`' ∈ innerMarks by decide),
            ne_of_isEdge hc (show '$' ∈ innerMarks by decide)] at hstop
        · exact absurd hlength (Nat.not_succ_le_zero _)
  | cons d text ih =>
    intro escaped hlength
    have hstep : ∀ {next : Bool},
        templateLength next (text ++ c :: rest) + 1 ≤ (d :: text).length →
        templateLength next (text ++ c' :: rest') + 1 = templateLength next (text ++ c :: rest) + 1 ∨
          (d :: text).drop (templateLength next (text ++ c :: rest) + 1) = ['$'] := by
      intro next hle
      rw [List.drop_succ_cons]
      exact (ih (Nat.le_of_succ_le_succ hle)).imp_left (congrArg (· + 1))
    rw [List.cons_append, templateLength] at hlength
    rw [List.cons_append, List.cons_append, templateLength, templateLength]
    split
    · next hescaped => rw [if_pos hescaped] at hlength; exact hstep hlength
    · next hescaped =>
      rw [if_neg hescaped] at hlength
      split
      · next hback => rw [if_pos hback] at hlength; exact hstep hlength
      · next hback =>
        rw [if_neg hback] at hlength
        have hbrace : c' ≠ '\x7b' := by
          rintro rfl
          cases hc'
        cases text with
        | cons e text =>
          have hhead : (e :: text ++ c' :: rest').head? = (e :: text ++ c :: rest).head? := rfl
          rw [hhead]
          by_cases hstop :
              (d = '`' || (d = '$' && (e :: text ++ c :: rest).head? = some '\x7b')) = true
          · exact .inl (by rw [if_pos hstop, if_pos hstop])
          · rw [if_neg hstop] at hlength
            rw [if_neg hstop, if_neg hstop]
            exact hstep hlength
        | nil =>
          simp only [List.nil_append, List.head?_cons, Option.some.injEq, hbrace, decide_false,
            Bool.and_false, Bool.or_false, decide_eq_true_eq] at hlength hstep ⊢
          by_cases hquote : d = '`'
          · simp [hquote]
          · rw [if_neg hquote]
            by_cases hstop : (d = '`' || (d = '$' && c = '\x7b')) = true
            · have hdollar : d = '$' ∧ c = '\x7b' := by simpa [hquote] using hstop
              rw [if_pos hstop, hdollar.1]
              exact .inr rfl
            · rw [if_neg hstop] at hlength ⊢
              exact hstep hlength

end

/-! ## Numbers and marks

They end in front of an edge as they end at the end of the text. -/

section

variable {c : Char} {rest : Text}

theorem digitsLength_append_edge (hc : isEdge c = true) (text : Text) :
    digitsLength (text ++ c :: rest) = digitsLength text := by
  rw [digitsLength, takeWhile_append_edge (fun d hd => ?_), digitsLength]
  rw [← Option.some.inj hd, isAlphanum_eq_false_of_isEdge hc, Bool.false_or, beq_eq_false_iff_ne]
  exact ne_of_isEdge hc (by decide)

theorem fractionLength_append_edge (hc : isEdge c = true) (text : Text) :
    fractionLength (text ++ c :: rest) = fractionLength text := by
  cases text with
  | nil =>
    unfold fractionLength
    split
    · next heq => exact absurd (List.cons.inj heq).1 (ne_of_isEdge hc (by decide))
    · rfl
  | cons d text =>
    by_cases hd : d = '.'
    · subst hd
      rw [List.cons_append, fractionLength, fractionLength, digitsLength_append_edge hc]
    · unfold fractionLength
      split
      · next heq => exact absurd (List.cons.inj heq).1 hd
      · split
        · next heq => exact absurd (List.cons.inj heq).1 hd
        · rfl

theorem exponentLength_append_edge (hc : isEdge c = true) (before text : Text) :
    exponentLength before (text ++ c :: rest) = exponentLength before text := by
  unfold exponentLength
  cases before.getLast? with
  | none => rfl
  | some e =>
    cases text with
    | nil =>
      simp [ne_of_isEdge hc (show '+' ∈ innerMarks by decide),
        ne_of_isEdge hc (show '-' ∈ innerMarks by decide)]
    | cons sign digits =>
      have hhead : (digits ++ c :: rest).head?.any Char.isDigit = digits.head?.any Char.isDigit := by
        cases digits with
        | nil => exact isDigit_eq_false_of_isEdge hc
        | cons d digits => rfl
      simp only [List.cons_append, hhead, digitsLength_append_edge hc]

theorem plain_append_edge (hc : isEdge c = true) (text : Text) :
    numberLength.plain (text ++ c :: rest) = numberLength.plain text := by
  have hwhole : digitsLength text ≤ text.length := (List.takeWhile_prefix _).length_le
  have hfraction : ∀ text : Text, fractionLength text ≤ text.length := by
    intro text
    unfold fractionLength
    split
    · next rest =>
      have hdigits : digitsLength rest ≤ rest.length := (List.takeWhile_prefix _).length_le
      rw [List.length_cons]
      omega
    · exact Nat.zero_le _
  have hlength : digitsLength text + fractionLength (text.drop (digitsLength text)) ≤ text.length := by
    have hrest := hfraction (text.drop (digitsLength text))
    rw [List.length_drop] at hrest
    omega
  rw [numberLength.plain, numberLength.plain, digitsLength_append_edge hc,
    List.drop_append_of_le_length hwhole, fractionLength_append_edge hc,
    List.take_append_of_le_length hlength, List.drop_append_of_le_length hlength,
    exponentLength_append_edge hc]

theorem numberLength_cons_cons (d e : Char) (text : Text) :
    numberLength (d :: e :: text) =
      if d = '0' ∧ e.isAlpha = true then digitsLength (d :: e :: text)
      else numberLength.plain (d :: e :: text) := by
  unfold numberLength
  split
  · next base more heq =>
    obtain ⟨rfl, hrest⟩ := List.cons.inj heq
    obtain ⟨rfl, rfl⟩ := List.cons.inj hrest
    simp only [true_and]
  · next hzero =>
    rw [if_neg]
    rintro ⟨rfl, -⟩
    exact hzero _ _ rfl

theorem numberLength_append_edge (hc : isEdge c = true) {text : Text} (hne : text ≠ []) :
    numberLength (text ++ c :: rest) = numberLength text := by
  obtain ⟨d, text, rfl⟩ := List.exists_cons_of_ne_nil hne
  cases text with
  | nil =>
    have hsingle : numberLength [d] = numberLength.plain [d] := by
      unfold numberLength
      split
      · next heq => cases (List.cons.inj heq).2
      · rfl
    rw [hsingle, List.singleton_append, numberLength_cons_cons,
      if_neg (by simp [isAlpha_eq_false_of_isEdge hc]), ← List.singleton_append,
      plain_append_edge hc]
  | cons e text =>
    have hdigits : digitsLength (d :: e :: (text ++ c :: rest)) = digitsLength (d :: e :: text) :=
      digitsLength_append_edge hc (d :: e :: text)
    have hplain : numberLength.plain (d :: e :: (text ++ c :: rest)) =
        numberLength.plain (d :: e :: text) :=
      plain_append_edge hc (d :: e :: text)
    rw [numberLength_cons_cons, ← hdigits, ← hplain]
    exact numberLength_cons_cons d e _

theorem isPrefixOf_append_edge (hc : isEdge c = true) {word : Text}
    (hword : ∀ d ∈ word, isEdge d = false) (text : Text) :
    word.isPrefixOf (text ++ c :: rest) = word.isPrefixOf text := by
  induction word generalizing text with
  | nil => rfl
  | cons d word ih =>
    cases text with
    | nil =>
      have hne : (d == c) = false := by
        rw [beq_eq_false_iff_ne]
        rintro rfl
        rw [hword d (List.mem_cons_self ..)] at hc
        cases hc
      rw [List.nil_append, List.isPrefixOf_cons_cons, hne]
      rfl
    | cons e text =>
      rw [List.cons_append, List.isPrefixOf_cons_cons, List.isPrefixOf_cons_cons,
        ih fun d hd => hword d (List.mem_cons_of_mem _ hd)]

/-- A mark is cut the same in front of every edge. -/
theorem markLength_append_edge (hc : isEdge c = true) {text : Text} (hne : text ≠ []) :
    markLength (text ++ c :: rest) = markLength (text ++ [' ']) := by
  have hall : ∀ long ∈ longMarks, (long.all fun d => decide (isEdge d = false)) = true := by
    decide
  have hlong : ∀ long ∈ longMarks, ∀ d ∈ long, isEdge d = false := fun long hmem =>
    Text.forall_mem (hall long hmem)
  have hblank : isEdge ' ' = true := by decide
  by_cases hpoint : ∃ more, text = '?' :: '.' :: more
  · obtain ⟨more, rfl⟩ := hpoint
    cases more with
    | nil =>
      show (if c.isDigit = true then 1 else 2) = _
      rw [isDigit_eq_false_of_isEdge hc]
      rfl
    | cons d more => rfl
  · have hmark : ∀ {e : Char} {more : Text}, isEdge e = true → markLength (text ++ e :: more) =
        (longMarks.find? (·.isPrefixOf text)).elim 1 List.length := by
      intro e more he
      have hfind : longMarks.find? (·.isPrefixOf (text ++ e :: more)) =
          longMarks.find? (·.isPrefixOf text) :=
        List.find?_congr fun long hmem => isPrefixOf_append_edge he (hlong long hmem) text
      rw [← hfind]
      unfold markLength
      split
      · next d behind heq =>
        exfalso
        obtain ⟨f, text, rfl⟩ := List.exists_cons_of_ne_nil hne
        rw [List.cons_append, List.cons.injEq] at heq
        obtain ⟨rfl, heq⟩ := heq
        cases text with
        | nil =>
          have hdot : e = '.' := (List.cons.inj heq).1
          exact ne_of_isEdge he (by decide) hdot
        | cons g text =>
          rw [List.cons_append, List.cons.injEq] at heq
          obtain ⟨rfl, -⟩ := heq
          exact hpoint ⟨text, rfl⟩
      · cases longMarks.find? (·.isPrefixOf (text ++ e :: more)) <;> rfl
    rw [hmark hc, hmark hblank]

end

end VerticalSlice.Syntax
