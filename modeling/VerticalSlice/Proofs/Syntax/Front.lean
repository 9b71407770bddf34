import VerticalSlice.Proofs.Syntax.Edge

/-!
# The front of a text

`Cuts` says that a text is cut into some lexemes when another text comes behind it. That text can be
exchanged for one that is alike (`Cuts.exchange`): nothing in front of an edge depends on what comes behind
it, but for literals that are never closed.
-/

namespace VerticalSlice.Syntax

/-! ## One lexeme -/

/-- Is the construct one of code, and not of markup? -/
def Context.isCode : Context → Bool
  | .tag _ | .contents => false
  | _ => true

/-- Does the lexeme, in front of an edge, not depend on how a literal goes on behind it? -/
def isClosed (sort : TokenClass) (c : Char) : Bool :=
  sort != .unknown && !(sort == .mark && c == '/')

section

variable {behind behind' : Text} {state after : LexState} {c : Char} {rest : Text} {sort : TokenClass}
  {length : Nat}

/-- The mark that begins with the character is cut the same in front of another edge. -/
theorem cutMark_edge (h : Alike behind behind')
    (hlength : markLength (c :: (rest ++ behind)) ≤ rest.length + 1) :
    markLength (c :: (rest ++ behind')) = markLength (c :: (rest ++ behind)) ∧
      (c :: (rest ++ behind')).take (markLength (c :: (rest ++ behind))) =
        (c :: (rest ++ behind)).take (markLength (c :: (rest ++ behind))) := by
  obtain ⟨e, more, e', more', rfl, rfl, he, he', -⟩ := h.edges
  have hmark : ∀ {d : Char} {other : Text}, isEdge d = true →
      markLength (c :: (rest ++ d :: other)) = markLength (c :: rest ++ [' ']) := fun hd =>
    markLength_append_edge hd (List.cons_ne_nil c rest)
  refine ⟨(hmark (isEdge_of_isSpace he')).trans (hmark he).symm, ?_⟩
  rw [← List.cons_append, ← List.cons_append, List.take_append_of_le_length hlength,
    List.take_append_of_le_length hlength]

theorem cutBegunWith_edge (h : Alike behind behind')
    (hcut : cutBegunWith false state c (rest ++ behind) = (sort, length, after))
    (hlength : length ≤ rest.length + 1) (hclosed : Unquoted behind' ∨ isClosed sort c = true) :
    cutBegunWith false state c (rest ++ behind') = (sort, length, after) := by
  obtain ⟨e, more, e', more', hbehind, hbehind', he, he', -⟩ := h.edges
  have hedge' := isEdge_of_isSpace he'
  have hpoint : (rest ++ behind').head?.any Char.isDigit = (rest ++ behind).head?.any Char.isDigit := by
    rw [hbehind, hbehind']
    cases rest with
    | nil => exact (isDigit_eq_false_of_isEdge hedge').trans (isDigit_eq_false_of_isEdge he).symm
    | cons d rest => rfl
  rw [cutBegunWith] at hcut ⊢
  rw [hpoint]
  split
  · next hquote =>
    rw [if_pos hquote] at hcut
    cases hquoted : quotedLength? c false false (rest ++ behind) with
    | some inside =>
      rw [hquoted] at hcut
      obtain ⟨rfl, rfl, rfl⟩ := hcut
      rw [quotedLength?_append_of_some hquoted (Nat.le_of_succ_le_succ hlength)]
    | none =>
      rw [hquoted] at hcut
      obtain ⟨rfl, rfl, rfl⟩ := hcut
      have hunquoted := hclosed.resolve_right (by simp [isClosed])
      rw [quotedLength?_append_eq_none (hunquoted.quoted c (by simpa using hquote)) hquoted]
  · next hquote =>
    rw [if_neg hquote] at hcut
    split
    · next hdigit =>
      rw [if_pos hdigit, hbehind, ← List.cons_append,
        numberLength_append_edge he (List.cons_ne_nil c rest)] at hcut
      rw [hbehind', ← List.cons_append,
        numberLength_append_edge hedge' (List.cons_ne_nil c rest), hcut]
    · next hdigit =>
      rw [if_neg hdigit] at hcut
      have hle : nameLength (c :: (rest ++ behind)) ≤ rest.length + 1 := by
        by_cases hpos : 0 < nameLength (c :: (rest ++ behind))
        · rw [if_pos hpos] at hcut
          obtain ⟨-, rfl, -⟩ := hcut
          exact hlength
        · omega
      have hname : nameLength (c :: (rest ++ behind')) = nameLength (c :: (rest ++ behind)) :=
        @nameLengthFrom_edge behind behind' h (c :: rest) 0 hle
      have htake : (c :: (rest ++ behind')).take (nameLength (c :: (rest ++ behind))) =
          (c :: (rest ++ behind)).take (nameLength (c :: (rest ++ behind))) := by
        rw [← List.cons_append, ← List.cons_append, List.take_append_of_le_length hle,
          List.take_append_of_le_length hle]
      rw [hname]
      split
      · next hpos =>
        rw [if_pos hpos] at hcut
        dsimp only at hcut ⊢
        rw [htake, hcut]
      · next hpos =>
        rw [if_neg hpos, Bool.false_and, Bool.false_and, if_neg Bool.false_ne_true] at hcut
        rw [Bool.false_and, Bool.false_and, if_neg Bool.false_ne_true]
        have hmark : markLength (c :: (rest ++ behind)) = length →
            (TokenClass.mark, markLength (c :: (rest ++ behind)),
              state.afterMark ((c :: (rest ++ behind)).take (markLength (c :: (rest ++ behind))))) =
              (sort, length, after) →
            (TokenClass.mark, markLength (c :: (rest ++ behind')),
              state.afterMark ((c :: (rest ++ behind')).take (markLength (c :: (rest ++ behind'))))) =
              (sort, length, after) := by
          rintro hlen heq
          obtain ⟨hsame, htake⟩ := cutMark_edge h (hlen ▸ hlength)
          rw [hsame, htake, heq]
        by_cases hslash : (c = '/' && !state.operandEnded) = true
        · rw [if_pos hslash] at hcut ⊢
          cases hregex : regexLength? false false (rest ++ behind) with
          | some inside =>
            rw [hregex] at hcut
            obtain ⟨rfl, rfl, rfl⟩ := hcut
            rw [regexLength?_append_of_some h hregex (Nat.le_of_succ_le_succ hlength)]
          | none =>
            rw [hregex] at hcut
            have hsort : sort = .mark := (congrArg Prod.fst hcut).symm
            have hc : c = '/' := by simpa using (Bool.and_eq_true_iff.1 hslash).1
            have hunquoted := hclosed.resolve_right (by simp [isClosed, hsort, hc])
            rw [regexLength?_append_eq_none hunquoted.regex hregex]
            exact hmark (congrArg (fun cut : Cut => cut.2.1) hcut) hcut
        · rw [if_neg hslash] at hcut ⊢
          exact hmark (congrArg (fun cut : Cut => cut.2.1) hcut) hcut

theorem cutCode_slash {markup : Bool} {state : LexState} {rest : Text}
    (hline : rest.head? ≠ some '/') (hblock : rest.head? ≠ some '*') :
    cutCode markup state ('/' :: rest) = cutBegunWith markup state '/' rest := by
  unfold cutCode
  split
  · next heq => exact absurd (congrArg List.head? (List.cons.inj heq).2) hline
  · next heq => exact absurd (congrArg List.head? (List.cons.inj heq).2) hblock
  · next heq => exact absurd (List.cons.inj heq).1 (by decide)
  · next heq => exact absurd (List.cons.inj heq).1 (by decide)
  · next heq => exact absurd (List.cons.inj heq).1 (by decide)
  · next heq =>
    obtain ⟨rfl, rfl⟩ := List.cons.inj heq
    rfl
  · next heq => cases heq

theorem cutCode_hash {markup : Bool} {state : LexState} {rest : Text}
    (hline : rest.head? ≠ some '!') :
    cutCode markup state ('#' :: rest) =
      (.privateName, 1 + nameLength rest, state.afterOperand ['#']) := by
  unfold cutCode
  split
  · next heq => exact absurd (List.cons.inj heq).1 (by decide)
  · next heq => exact absurd (List.cons.inj heq).1 (by decide)
  · next heq => exact absurd (List.cons.inj heq).1 (by decide)
  · next heq => exact absurd (congrArg List.head? (List.cons.inj heq).2) hline
  · next heq =>
    obtain ⟨-, rfl⟩ := List.cons.inj heq
    rfl
  · next hhash heq => exact absurd heq (by rintro ⟨⟩; exact hhash rfl)
  · next heq => cases heq

/-- The character behind the first one is another one in front of an edge if it is one. -/
theorem head?_append_edge (h : Alike behind behind') {d : Char} (hd : d ∈ innerMarks) (text : Text) :
    ((text ++ behind).head? = some d ↔ text.head? = some d) ∧
      ((text ++ behind').head? = some d ↔ text.head? = some d) := by
  obtain ⟨e, more, e', more', rfl, rfl, he, he', -⟩ := h.edges
  cases text with
  | nil => simp [ne_of_isEdge he hd, ne_of_isEdge (isEdge_of_isSpace he') hd]
  | cons f text => simp

theorem cutCode_edge (h : Alike behind behind')
    (hcut : cutCode false state (c :: (rest ++ behind)) = (sort, length, after))
    (hlength : length ≤ rest.length + 1) (hclosed : Unquoted behind' ∨ isClosed sort c = true) :
    cutCode false state (c :: (rest ++ behind')) = (sort, length, after) := by
  by_cases hslash : c = '/'
  · subst hslash
    by_cases hline : rest.head? = some '/'
    · obtain ⟨rest, rfl⟩ := List.head?_eq_some_iff.1 hline
      have hcomment : (TokenClass.comment, 2 + lineLength (rest ++ behind), state) =
          (sort, length, after) := hcut
      obtain ⟨rfl, rfl, rfl⟩ := hcomment
      have hle : lineLength (rest ++ behind) ≤ rest.length := by
        rw [List.length_cons] at hlength
        omega
      show (TokenClass.comment, 2 + lineLength (rest ++ behind'), state) = _
      rw [lineLength_edge h hle]
    · by_cases hblock : rest.head? = some '*'
      · obtain ⟨rest, rfl⟩ := List.head?_eq_some_iff.1 hblock
        have hcomment : (TokenClass.comment, 2 + blockCommentLength (rest ++ behind), state) =
            (sort, length, after) := hcut
        obtain ⟨rfl, rfl, rfl⟩ := hcomment
        have hle : blockCommentLength (rest ++ behind) ≤ rest.length := by
          rw [List.length_cons] at hlength
          omega
        show (TokenClass.comment, 2 + blockCommentLength (rest ++ behind'), state) = _
        rw [blockCommentLength_edge h hle]
      · have hline' := head?_append_edge h (show '/' ∈ innerMarks by decide) rest
        have hblock' := head?_append_edge h (show '*' ∈ innerMarks by decide) rest
        rw [cutCode_slash (fun hd => hline (hline'.1.1 hd)) fun hd => hblock (hblock'.1.1 hd)] at hcut
        rw [cutCode_slash (fun hd => hline (hline'.2.1 hd)) fun hd => hblock (hblock'.2.1 hd)]
        exact cutBegunWith_edge h hcut hlength hclosed
  · by_cases hquote : c = '`'
    · subst hquote
      exact hcut
    · by_cases hhash : c = '#'
      · subst hhash
        by_cases hline : rest.head? = some '!'
        · obtain ⟨rest, rfl⟩ := List.head?_eq_some_iff.1 hline
          by_cases hstart : state = .start
          · subst hstart
            have hcomment : (TokenClass.comment, 2 + lineLength (rest ++ behind), LexState.start) =
                (sort, length, after) := hcut
            obtain ⟨rfl, rfl, rfl⟩ := hcomment
            have hle : lineLength (rest ++ behind) ≤ rest.length := by
              rw [List.length_cons] at hlength
              omega
            show (TokenClass.comment, 2 + lineLength (rest ++ behind'), LexState.start) = _
            rw [lineLength_edge h hle]
          · rw [List.cons_append, cutCode, if_neg hstart] at hcut ⊢
            exact hcut
        · have hline' := head?_append_edge h (show '!' ∈ innerMarks by decide) rest
          rw [cutCode_hash fun hd => hline (hline'.1.1 hd)] at hcut
          rw [cutCode_hash fun hd => hline (hline'.2.1 hd)]
          obtain ⟨rfl, rfl, rfl⟩ := hcut
          have hle : nameLengthFrom 0 (rest ++ behind) ≤ rest.length := by
            rw [nameLength] at hlength
            omega
          rw [nameLength, nameLengthFrom_edge h hle, nameLength]
      · have hne : ∀ d ∈ ("/`#" : Text), c ≠ d := by simp [hslash, hquote, hhash]
        rw [cutCode_eq hne] at hcut ⊢
        exact cutBegunWith_edge h hcut hlength hclosed

theorem cutTemplate_of_zero (h : templateLength false (c :: rest) = 0) :
    cutTemplate state (c :: rest) =
      if c = '`' then (.mark, 1, ⟨state.stack.drop 1, true, ['`']⟩)
      else (.mark, 2, ⟨.substitution :: state.stack, false, ['$', '\x7b']⟩) := by
  unfold cutTemplate
  rw [h]
  split
  · split
    · next heq => rw [(List.cons.inj heq).1, if_pos rfl]
    · next hquote => rw [if_neg fun hc => hquote rest (by rw [hc])]
  · next hnot => exact absurd rfl hnot

theorem cutTemplate_of_succ {inside : Nat} (h : templateLength false (c :: rest) = inside + 1) :
    cutTemplate state (c :: rest) = (.template, inside + 1, state) := by
  unfold cutTemplate
  rw [h]
  rfl

/-- The lexeme at the front of a text that ends before an edge is cut the same in front of another edge,
unless the edge is the brace of a substitution. -/
theorem cut_edge (h : Alike behind behind') (hcode : state.stack.all Context.isCode = true)
    (hcut : cut false state (c :: (rest ++ behind)) = (sort, length, after))
    (hlength : length ≤ rest.length + 1) (hclosed : Unquoted behind' ∨ isClosed sort c = true) :
    cut false state (c :: (rest ++ behind')) = (sort, length, after) ∨
      (∃ stack, after.stack = .template :: stack) ∧ rest.drop (length - 1) = ['$'] := by
  obtain ⟨stack, operandEnded, last⟩ := state
  unfold cut at hcut ⊢
  dsimp only at hcut hcode ⊢
  split at hcut
  · next stack =>
    cases hpiece : templateLength false (c :: (rest ++ behind)) with
    | zero =>
      rw [cutTemplate_of_zero hpiece] at hcut
      have hle : templateLength false (c :: rest ++ behind) ≤ (c :: rest).length :=
        hpiece ▸ Nat.zero_le _
      rcases templateLength_edge h hle with hsame | hdollar
      · rw [List.cons_append, List.cons_append] at hsame
        rw [cutTemplate_of_zero (hsame.trans hpiece), hcut]
        exact .inl rfl
      · rw [List.cons_append, hpiece, List.drop_zero] at hdollar
        obtain ⟨rfl, rfl⟩ := List.cons.inj hdollar
        obtain ⟨-, rfl, -⟩ := hcut
        exact absurd hlength (by decide)
    | succ inside =>
      rw [cutTemplate_of_succ hpiece] at hcut
      obtain ⟨rfl, rfl, rfl⟩ := hcut
      have hle : templateLength false (c :: rest ++ behind) ≤ (c :: rest).length := hpiece ▸ hlength
      rcases templateLength_edge h hle with hsame | hdollar
      · rw [List.cons_append, List.cons_append] at hsame
        rw [cutTemplate_of_succ (hsame.trans hpiece)]
        exact .inl rfl
      · rw [List.cons_append, hpiece] at hdollar
        exact .inr ⟨⟨stack, rfl⟩, hdollar⟩
  · exact absurd hcode (by simp [Context.isCode])
  · exact absurd hcode (by simp [Context.isCode])
  · exact .inl (cutCode_edge h hcut hlength hclosed)

theorem isCode_afterMark (mark : Text) (hcode : state.stack.all Context.isCode = true) :
    (state.afterMark mark).stack.all Context.isCode = true := by
  unfold LexState.afterMark
  split <;> try split
  all_goals simp_all [Context.isCode]

theorem isCode_cutBegunWith (hcode : state.stack.all Context.isCode = true) :
    (cutBegunWith false state c rest).2.2.stack.all Context.isCode = true := by
  unfold cutBegunWith
  split
  · split <;> exact hcode
  · split
    · exact hcode
    · split
      · exact hcode
      · rw [Bool.false_and, Bool.false_and, if_neg Bool.false_ne_true]
        split
        · exact hcode
        · exact isCode_afterMark _ hcode

/-- Behind a lexeme of code no markup is open. -/
theorem isCode_cut (hcode : state.stack.all Context.isCode = true) :
    (cut false state (c :: rest)).2.2.stack.all Context.isCode = true := by
  unfold cut
  split
  · next stack hstack =>
    cases hpiece : templateLength false (c :: rest) with
    | zero =>
      rw [cutTemplate_of_zero hpiece]
      rw [hstack, List.all_cons] at hcode
      split
      · rw [hstack]
        exact hcode
      · rw [hstack]
        exact hcode
    | succ inside =>
      rw [cutTemplate_of_succ hpiece]
      exact hcode
  · next hstack => rw [hstack] at hcode; cases hcode
  · next hstack => rw [hstack] at hcode; cases hcode
  · unfold cutCode
    split
    · exact hcode
    · exact hcode
    · exact hcode
    · split <;> exact hcode
    · exact hcode
    · next heq => exact isCode_cutBegunWith hcode
    · exact hcode

end

/-! ## Many lexemes -/

/-- Where the blanks end does not depend on what comes behind the next character. -/
theorem leadingBlanks_append_cons {stack : List Context} {blanks rest : Text} {c : Char}
    (h : leadingBlanks stack (blanks ++ c :: rest) = blanks) (rest' : Text) :
    leadingBlanks stack (blanks ++ c :: rest') = blanks := by
  rw [leadingBlanks] at h ⊢
  split
  · next hkeeps => rwa [if_pos hkeeps] at h
  · next hkeeps =>
    rw [if_neg hkeeps] at h
    clear hkeeps
    induction blanks with
    | nil =>
      rw [List.nil_append, List.takeWhile_cons] at h ⊢
      split at h
      · cases h
      · next hspace => rw [if_neg hspace]
    | cons d blanks ih =>
      rw [List.cons_append, List.takeWhile_cons] at h ⊢
      split at h
      · next hspace => rw [if_pos hspace, ih (List.cons.inj h).2]
      · cases h

/-- With `behind` behind it, the text is cut into the lexemes, from the first state to the second. -/
inductive Cuts (behind : Text) : LexState → Text → List Lexeme → LexState → Prop
  | done {state : LexState} : Cuts behind state [] [] state
  | lexeme {state after last : LexState} {blanks rest : Text} {c : Char} {sort : TokenClass}
    {length : Nat} {lexemes : List Lexeme} :
    leadingBlanks state.stack (blanks ++ c :: (rest ++ behind)) = blanks →
      cut false state (c :: (rest ++ behind)) = (sort, length, after) → length ≤ rest.length + 1 →
        Cuts behind after (rest.drop (length - 1)) lexemes last →
          Cuts behind state (blanks ++ c :: rest)
            (⟨sort, blanks, c :: rest.take (length - 1)⟩ :: lexemes) last

/-- Does the lexeme, in front of an edge, not depend on how a literal goes on behind it? -/
def Lexeme.isClosed (lexeme : Lexeme) : Bool :=
  lexeme.text.head?.all (Syntax.isClosed lexeme.sort)

section

variable {behind behind' front : Text} {state last : LexState} {lexemes more : List Lexeme}

theorem Cuts.lexemesFrom (h : Cuts behind state front lexemes last) :
    lexemesFrom false state (front ++ behind) = lexemes ++ lexemesFrom false last behind := by
  induction h with
  | done => rfl
  | @lexeme state after last blanks rest c sort length lexemes hblanks hcut hlength _ ih =>
    have htext : blanks ++ c :: rest ++ behind = blanks ++ c :: (rest ++ behind) := by
      rw [List.append_assoc, List.cons_append]
    have hcode : (blanks ++ c :: (rest ++ behind)).drop
        (leadingBlanks state.stack (blanks ++ c :: (rest ++ behind))).length =
        c :: (rest ++ behind) := by
      rw [hblanks, List.drop_left]
    have hle : length - 1 ≤ rest.length := by omega
    rw [htext, lexemesFrom_cons hcode, hcut, hblanks, List.cons_append]
    dsimp only
    rw [List.take_append_of_le_length hle, List.drop_append_of_le_length hle, ih]

theorem lexemesFrom_nil (markup : Bool) (state : LexState) :
    Syntax.lexemesFrom markup state [] = [] := by
  have hblanks : leadingBlanks state.stack [] = [] := by
    rw [leadingBlanks]
    split <;> rfl
  rw [lexemesFrom_end List.drop_nil, if_pos hblanks]

/-- If some lexemes of a text make up its front, this is cut into them. -/
theorem cuts_of_lexemesFrom (hmore : more ≠ [])
    (hfront : lexemes.flatMap (fun lexeme => lexeme.blanks ++ lexeme.text) = front)
    (h : lexemesFrom false state (front ++ behind) = lexemes ++ more) :
    ∃ last, Cuts behind state front lexemes last ∧ lexemesFrom false last behind = more := by
  induction lexemes generalizing state front with
  | nil =>
    obtain rfl : [] = front := hfront
    exact ⟨state, .done, h⟩
  | cons lexeme lexemes ih =>
    cases hcode : (front ++ behind).drop (leadingBlanks state.stack (front ++ behind)).length with
    | nil =>
      rw [lexemesFrom_end hcode] at h
      have hlength := congrArg List.length h
      have hpos : 0 < more.length := List.length_pos_iff.2 hmore
      rw [List.length_append, List.length_cons] at hlength
      split at hlength
      · rw [List.length_nil] at hlength
        omega
      · rw [List.length_singleton] at hlength
        omega
    | cons c code =>
      rw [lexemesFrom_cons hcode, List.cons_append, List.cons.injEq] at h
      obtain ⟨rfl, hrest⟩ := h
      rcases hcut : cut false state (c :: code) with ⟨sort, length, after⟩
      rw [hcut] at hfront hrest
      dsimp only at hfront hrest
      rw [List.flatMap_cons, List.append_assoc] at hfront
      have hsplit := leadingBlanks_append_drop state.stack (front ++ behind)
      rw [hcode] at hsplit
      generalize hblanks : leadingBlanks state.stack (front ++ behind) = blanks at *
      -- something is left behind the lexeme, so the lexeme has all of its length
      have hle : length - 1 ≤ code.length := by
        refine Nat.le_of_not_lt fun hlt => hmore ?_
        rw [List.drop_eq_nil_of_le (Nat.le_of_lt hlt), lexemesFrom_nil] at hrest
        exact (List.append_eq_nil_iff.1 hrest.symm).2
      have htake : (code.take (length - 1)).length = length - 1 := List.length_take_of_le hle
      generalize hrestText : lexemes.flatMap (fun lexeme => lexeme.blanks ++ lexeme.text) = restText
        at hfront
      have hdrop : code.drop (length - 1) = restText ++ behind := by
        rw [← hfront, List.append_assoc, List.append_cancel_left_eq, List.cons_append,
          List.cons_append, List.cons.injEq, List.append_assoc] at hsplit
        have hcode := hsplit.2
        conv at hcode => lhs; rw [← List.take_append_drop (length - 1) code]
        exact List.append_cancel_left hcode
      rw [hdrop] at hrest
      obtain ⟨last, hcuts, hlast⟩ := ih hrestText hrest
      have hall : code = code.take (length - 1) ++ restText ++ behind := by
        rw [List.append_assoc, ← hdrop, List.take_append_drop]
      have hcuts' : Cuts behind after ((code.take (length - 1) ++ restText).drop (length - 1))
          lexemes last := by
        rwa [List.drop_left' htake]
      have hfirst : Cuts behind state (blanks ++ c :: (code.take (length - 1) ++ restText))
          (⟨sort, blanks, c :: (code.take (length - 1) ++ restText).take (length - 1)⟩ :: lexemes)
          last :=
        .lexeme (by rw [← hall, hsplit, hblanks]) (by rw [← hall, hcut])
          (by rw [List.length_append, htake]; omega) hcuts'
      rw [List.take_left' htake] at hfirst
      rw [← hfront]
      exact ⟨last, hfirst, hlast⟩

/-- Behind a piece of a template that ends in front of a dollar sign an edge does not come next. -/
theorem not_cuts_dollar (h : Alike behind behind') {stack : List Context}
    (hstack : state.stack = .template :: stack) : ¬Cuts behind state ['$'] lexemes last := by
  obtain ⟨e, more, -, -, rfl, -, he, -, -⟩ := h.edges
  have hpos : 0 < templateLength false (e :: more) := by
    rw [templateLength, if_neg Bool.false_ne_true]
    split
    · exact Nat.succ_pos _
    · rw [if_neg (by simp [ne_of_isEdge he (show '`' ∈ innerMarks by decide),
        ne_of_isEdge he (show '$' ∈ innerMarks by decide)])]
      exact Nat.succ_pos _
  intro hcuts
  generalize htext : ['$'] = text at hcuts
  cases hcuts with
  | done => cases htext
  | @lexeme _ after _ blanks rest c sort length lexemes hblanks hcut hlength _ =>
    obtain rfl : blanks = [] := by
      rw [← hblanks, leadingBlanks, hstack]
      rfl
    obtain ⟨rfl, rfl⟩ := List.cons.inj htext
    have htemplate : cutTemplate state ('$' :: e :: more) = (sort, length, after) := by
      rw [← hcut]
      unfold cut
      rw [hstack]
      rfl
    cases hpiece : templateLength false ('$' :: e :: more) with
    | zero =>
      rw [cutTemplate_of_zero hpiece] at htemplate
      obtain ⟨-, rfl, -⟩ := htemplate
      exact absurd hlength (by decide)
    | succ inside =>
      rw [cutTemplate_of_succ hpiece] at htemplate
      obtain ⟨-, rfl, -⟩ := htemplate
      rw [templateLength, if_neg Bool.false_ne_true, if_neg (by decide)] at hpiece
      split at hpiece
      · cases hpiece
      · rw [List.length_nil] at hlength
        omega

/-- What is cut in front of a text is cut in front of another that is alike. -/
theorem Cuts.exchange (h : Cuts behind state front lexemes last) (halike : Alike behind behind')
    (hcode : state.stack.all Context.isCode = true)
    (hclosed : Unquoted behind' ∨ ∀ lexeme ∈ lexemes, lexeme.isClosed = true) :
    Cuts behind' state front lexemes last := by
  induction h with
  | done => exact .done
  | @lexeme state after last blanks rest c sort length lexemes hblanks hcut hlength hrest ih =>
    have hafter : (cut false state (c :: (rest ++ behind))).2.2.stack.all Context.isCode = true :=
      isCode_cut hcode
    rw [hcut] at hafter
    have hfirst : Unquoted behind' ∨ isClosed sort c = true :=
      hclosed.imp_right fun hall => hall _ (List.mem_cons_self ..)
    rcases cut_edge halike hcode hcut hlength hfirst with hcut' | ⟨⟨stack, hstack⟩, hdollar⟩
    · refine .lexeme ?_ hcut' hlength (ih hafter (hclosed.imp_right fun hall lexeme hmem =>
        hall lexeme (List.mem_cons_of_mem _ hmem)))
      exact leadingBlanks_append_cons hblanks _
    · rw [hdollar] at hrest
      exact absurd hrest (not_cuts_dollar halike hstack)

end

end VerticalSlice.Syntax
