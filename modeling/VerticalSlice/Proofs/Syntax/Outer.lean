import VerticalSlice.Proofs.Syntax.FilledFront

/-!
# Cutting inside what is open

What is cut from a text does not depend on what is open around it, as long as nothing is closed that was
opened in front of it. `aboveWithin` computes whether that is so, and then the text is cut the same inside
any constructs of code (`Cuts.over`).
-/

namespace VerticalSlice.Syntax

/-- The same state inside constructs that are open. -/
def LexState.over (outer : List Context) (state : LexState) : LexState :=
  { state with stack := state.stack ++ outer }

/-- Is the innermost of the constructs one in which code is cut? -/
def isOpenCode : List Context → Bool
  | .template :: _ | .contents :: _ | .tag _ :: _ => false
  | _ => true

/-- Does what the character begins look at the innermost of the open constructs only, and not at any if none
is known? -/
def staysAbove (state : LexState) (c : Char) : Bool :=
  !state.stack.isEmpty || !(")]\x7d#" : Text).contains c

theorem cut_eq_cutCode {markup : Bool} {state : LexState} (h : isOpenCode state.stack = true)
    (text : Text) : cut markup state text = cutCode markup state text := by
  unfold cut
  split
  · next hstack => rw [hstack] at h; cases h
  · next hstack => rw [hstack] at h; cases h
  · next hstack => rw [hstack] at h; cases h
  · rfl

section

variable {outer : List Context} {state : LexState} {c : Char} {rest : Text}

theorem leadingBlanks_over (houter : isOpenCode outer = true) (stack : List Context) (text : Text) :
    leadingBlanks (stack ++ outer) text = leadingBlanks stack text := by
  cases stack with
  | nil =>
    rw [List.nil_append, leadingBlanks, leadingBlanks]
    have hkeeps : keepsBlanks outer = false := by
      unfold isOpenCode at houter
      unfold keepsBlanks
      split at houter <;> simp_all
    rw [hkeeps]
    rfl
  | cons context stack => cases context <;> rfl

/-- The marks that close what is open. -/
def closingMarks : List Text := [[')'], [']'], ['\x7d']]

theorem afterMark_over {mark : Text} (h : state.stack ≠ [] ∨ mark ∉ closingMarks) :
    (state.over outer).afterMark mark = (state.afterMark mark).over outer := by
  obtain ⟨stack, operandEnded, last⟩ := state
  cases stack with
  | nil =>
    have hmark := h.resolve_left fun hne => hne rfl
    unfold LexState.afterMark
    split <;> first | rfl | exact absurd (by decide) hmark
  | cons context stack =>
    unfold LexState.afterMark
    split <;> first | rfl | (cases context <;> rfl)

theorem cutBegunWith_over (h : state.stack ≠ [] ∨ c ∉ (")]\x7d" : Text)) :
    cutBegunWith false (state.over outer) c rest =
      ((cutBegunWith false state c rest).1, (cutBegunWith false state c rest).2.1,
        (cutBegunWith false state c rest).2.2.over outer) := by
  have hmark : (state.over outer).afterMark ((c :: rest).take (markLength (c :: rest))) =
      (state.afterMark ((c :: rest).take (markLength (c :: rest)))).over outer := by
    refine afterMark_over (h.imp_right fun hc hmem => hc ?_)
    obtain ⟨length, hlength⟩ : ∃ length, markLength (c :: rest) = length + 1 :=
      Nat.exists_eq_succ_of_ne_zero (Nat.ne_of_gt markLength_pos)
    rw [hlength, List.take_succ_cons] at hmem
    simp only [closingMarks, List.mem_cons, List.cons.injEq, List.not_mem_nil, or_false] at hmem
    rcases hmem with ⟨rfl, -⟩ | ⟨rfl, -⟩ | ⟨rfl, -⟩ <;> decide
  unfold cutBegunWith
  dsimp only
  rw [hmark]
  split
  · split <;> rfl
  · split
    · rfl
    · split
      · rfl
      · have hended : (state.over outer).operandEnded = state.operandEnded := rfl
        simp only [Bool.false_and, Bool.false_eq_true, if_false, hended]
        cases (if (decide (c = '/') && !state.operandEnded) = true then regexLength? false false rest
          else none) <;> rfl

theorem cutCode_over (h : staysAbove state c = true) :
    cutCode false (state.over outer) (c :: rest) =
      ((cutCode false state (c :: rest)).1, (cutCode false state (c :: rest)).2.1,
        (cutCode false state (c :: rest)).2.2.over outer) := by
  have hcases : state.stack ≠ [] ∨ c ∉ (")]\x7d#" : Text) := by
    rw [staysAbove, Bool.or_eq_true] at h
    simpa using h
  have hclosing : state.stack ≠ [] ∨ c ∉ (")]\x7d" : Text) :=
    hcases.imp_right fun hc hmem => hc (List.mem_append_left ['#'] hmem)
  unfold cutCode
  split
  · rfl
  · rfl
  · rfl
  · next heq =>
    obtain ⟨rfl, -⟩ := List.cons.inj heq
    have hstack := hcases.resolve_right (by decide)
    have hne : ∀ {other : LexState}, other.stack ≠ [] → other ≠ .start := by
      rintro _ hother rfl
      exact hother rfl
    rw [if_neg (hne hstack),
      if_neg (hne (show state.stack ++ outer ≠ [] from List.append_ne_nil_of_left_ne_nil hstack _))]
  · rfl
  · next heq =>
    obtain ⟨rfl, rfl⟩ := List.cons.inj heq
    exact cutBegunWith_over hclosing
  · next heq => cases heq

theorem cut_over (houter : isOpenCode outer = true) (hcode : state.stack.all Context.isCode = true)
    (h : staysAbove state c = true) :
    cut false (state.over outer) (c :: rest) =
      ((cut false state (c :: rest)).1, (cut false state (c :: rest)).2.1,
        (cut false state (c :: rest)).2.2.over outer) := by
  have hplain := @cutCode_over outer state c rest h
  obtain ⟨stack, operandEnded, last⟩ := state
  cases stack with
  | nil =>
    rwa [@cut_eq_cutCode false (.over outer ⟨[], operandEnded, last⟩) houter, cut_eq_cutCode rfl]
  | cons context stack =>
    cases context with
    | tag | contents => cases hcode
    | template =>
      show cutTemplate _ _ = ((cutTemplate _ _).1, (cutTemplate _ _).2.1, (cutTemplate _ _).2.2.over outer)
      cases hpiece : templateLength false (c :: rest) with
      | zero =>
        rw [cutTemplate_of_zero hpiece, cutTemplate_of_zero hpiece]
        split <;> rfl
      | succ inside =>
        rw [cutTemplate_of_succ hpiece, cutTemplate_of_succ hpiece]
    | parentheses | brackets | braces | substitution => exact hplain

end

/-- Does nothing that is cut from the text look at what is open around it? At most `count` lexemes are looked
at. -/
def aboveWithin : Nat → LexState → Text → Bool
  | 0, _, _ => false
  | count + 1, state, text =>
    match text.drop (leadingBlanks state.stack text).length with
    | [] => true
    | c :: rest =>
      let (_, length, after) := cut false state (c :: rest)
      staysAbove state c && aboveWithin count after (rest.drop (length - 1))

section

variable {outer : List Context} {behind : Text}

/-- The text is cut the same inside what is open around it. -/
theorem Cuts.over (houter : isOpenCode outer = true) {state last : LexState} {text : Text}
    {lexemes : List Lexeme} (h : Cuts behind state text lexemes last)
    (hcode : state.stack.all Context.isCode = true) {count : Nat}
    (habove : aboveWithin count state (text ++ behind) = true) :
    Cuts behind (state.over outer) text lexemes (last.over outer) := by
  induction h generalizing count with
  | done => exact .done
  | @lexeme state after last blanks rest c sort length lexemes hblanks hcut hlength hrest ih =>
    cases count with
    | zero => cases habove
    | succ count =>
      have hdrop : (blanks ++ c :: rest ++ behind).drop
          (leadingBlanks state.stack (blanks ++ c :: rest ++ behind)).length = c :: (rest ++ behind) := by
        rw [List.append_assoc, List.cons_append, hblanks, List.drop_left]
      rw [aboveWithin, hdrop] at habove
      dsimp only at habove
      rw [Bool.and_eq_true, hcut] at habove
      have hafter := @isCode_cut state c (rest ++ behind) hcode
      rw [hcut] at hafter
      have hsame := @cut_over _ _ _ (rest ++ behind) houter hcode habove.1
      rw [hcut] at hsame
      have hmore : aboveWithin count after (rest.drop (length - 1) ++ behind) = true := by
        rw [← List.drop_append_of_le_length (by omega)]
        exact habove.2
      refine .lexeme ?_ hsame hlength (ih hafter hmore)
      show leadingBlanks (state.stack ++ outer) _ = _
      rw [leadingBlanks_over houter, hblanks]

theorem isTame_over (houter : isOpenCode outer = true) {state : LexState}
    (hcode : state.stack.all Context.isCode = true) (code : Text) :
    isTame (state.over outer) code = isTame state code := by
  obtain ⟨stack, operandEnded, last⟩ := state
  cases stack with
  | nil =>
    cases outer with
    | nil => rfl
    | cons context outer => cases context <;> first | rfl | cases houter
  | cons context stack => cases context <;> rfl

/-- A text is as tame inside what is open around it. -/
theorem tameWithin_over (houter : isOpenCode outer = true) :
    ∀ {count : Nat} {state : LexState} {text : Text}, state.stack.all Context.isCode = true →
      aboveWithin count state text = true → tameWithin count state text = true →
        tameWithin count (state.over outer) text = true := by
  intro count
  induction count with
  | zero => exact fun _ habove => by cases habove
  | succ count ih =>
    intro state text hcode habove htame
    rw [tameWithin]
    show (match text.drop (leadingBlanks (state.stack ++ outer) text).length with
      | [] => true
      | c :: rest => _) = true
    rw [leadingBlanks_over houter]
    rw [tameWithin] at htame
    rw [aboveWithin] at habove
    split
    · rfl
    · next c rest hdrop =>
      rw [hdrop] at htame habove
      dsimp only at htame habove ⊢
      rw [Bool.and_eq_true] at htame habove
      obtain ⟨sort, length, after, hcut, hpos, -⟩ :=
        Substitution.identity.cutsAlike_of_isTame (List.cons_ne_nil c rest) htame.1
      have hsame := @cut_over _ _ _ rest houter hcode habove.1
      have hafter := @isCode_cut state c rest hcode
      rw [hcut] at hsame htame habove hafter
      obtain ⟨length, rfl⟩ : ∃ n, length = n + 1 := ⟨length - 1, by omega⟩
      rw [hsame, isTame_over houter hcode, htame.1, Bool.true_and]
      exact ih hafter habove.2 htame.2

end

end VerticalSlice.Syntax
