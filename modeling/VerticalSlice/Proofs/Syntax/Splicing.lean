import VerticalSlice.Proofs.Syntax.Outer
import VerticalSlice.Proofs.Syntax.Places
import VerticalSlice.Text.Blank

/-!
# One more item in the text of an array

In front of an item of an array the text is in a state that only depends on what is open there
(`LexState.Awaits`), and a whole item with its comma leads back to that state. So when an item is put into the
blanks in front of an object or of the end of the array, it is cut into its own lexemes, and what is around it is
cut as before (`lexemes_splice`).
-/

namespace VerticalSlice.Syntax

/-! ## In front of an item -/

/-- A new item may begin here, in an array or behind a comma. -/
structure LexState.Awaits (state : LexState) : Prop where
  isCode : state.stack.all Context.isCode = true
  isOpenCode : isOpenCode state.stack = true
  operandEnded_eq : state.operandEnded = false
  last_eq : state.last = ['['] ∨ state.last = [',']

/-- Is the lexeme the bracket of an array or a comma? -/
def Lexeme.isBound (lexeme : Lexeme) : Bool :=
  lexeme.sort == .mark && (lexeme.text == ['['] || lexeme.text == [','])

/-- The row ends with the bracket of an array or a comma, and perhaps with comments behind it. -/
def EndsBound (lexemes : List Lexeme) : Prop :=
  ∃ head bound comments, lexemes = head ++ bound :: comments ∧ bound.isBound = true ∧
    ∀ lexeme ∈ comments, lexeme.sort = .comment

section

variable {behind text : Text} {state after last : LexState} {c : Char} {rest : Text} {length : Nat}
  {lexemes : List Lexeme}

theorem keepsBlanks_of_isOpenCode {stack : List Context} (h : isOpenCode stack = true) :
    keepsBlanks stack = false := by
  unfold isOpenCode at h
  unfold keepsBlanks
  split at h <;> simp_all

theorem isOpenCode_of_isCode (hcode : state.stack.all Context.isCode = true)
    (hpiece : templateLength false (c :: rest) ≠ 0) {sort : TokenClass}
    (hcut : cut false state (c :: rest) = (sort, length, after)) (hsort : sort ≠ .template) :
    isOpenCode state.stack = true := by
  obtain ⟨stack, operandEnded, last⟩ := state
  cases stack with
  | nil => rfl
  | cons context stack =>
    cases context with
    | template =>
      obtain ⟨inside, hinside⟩ := Nat.exists_eq_succ_of_ne_zero hpiece
      have htemplate : cutTemplate _ (c :: rest) = _ := hcut
      rw [cutTemplate_of_succ hinside] at htemplate
      exact absurd (congrArg Prod.fst htemplate).symm hsort
    | tag | contents => cases hcode
    | _ => rfl

theorem templateLength_ne_zero (hquote : c ≠ '`') (hdollar : c ≠ '$') :
    templateLength false (c :: rest) ≠ 0 := by
  rw [templateLength, if_neg Bool.false_ne_true]
  split
  · exact Nat.succ_ne_zero _
  · rw [if_neg (by simp [hquote, hdollar])]
    exact Nat.succ_ne_zero _

/-- Behind a bracket or a comma an item is awaited. -/
theorem awaits_of_cut (hcode : state.stack.all Context.isCode = true) (hc : c = '[' ∨ c = ',')
    (hcut : cut false state (c :: rest) = (.mark, length, after)) : after.Awaits := by
  have hne : c ≠ '`' ∧ c ≠ '$' := by rcases hc with rfl | rfl <;> decide
  have hopen := isOpenCode_of_isCode hcode (templateLength_ne_zero hne.1 hne.2) hcut (by decide)
  have hafter := @isCode_cut state c rest hcode
  rw [hcut] at hafter
  rw [cut_eq_cutCode hopen] at hcut
  rcases hc with rfl | rfl
  · rw [cutCode_mark (by decide) (fun h => absurd h (by decide))] at hcut
    obtain ⟨-, -, rfl⟩ := hcut
    exact ⟨hafter, rfl, rfl, .inl rfl⟩
  · rw [cutCode_mark (by decide) (fun h => absurd h (by decide))] at hcut
    obtain ⟨-, -, rfl⟩ := hcut
    exact ⟨hafter, hopen, rfl, .inr rfl⟩

/-- An object opens with the character, or an array ends with it. -/
def IsAhead (c : Char) : Prop := c = '\x7b' ∨ c = ']'

/-- Where an item is awaited, an object opens and the array ends in one way. -/
theorem LexState.Awaits.cut_ahead (h : state.Awaits) (hc : IsAhead c) (rest : Text) :
    cut false state (c :: rest) = (.mark, 1, LexState.afterMark ⟨state.stack, false, [',']⟩ [c]) := by
  have hopen := h.isOpenCode
  obtain ⟨stack, operandEnded, last⟩ := state
  obtain rfl : operandEnded = false := h.operandEnded_eq
  rcases hc with rfl | rfl
  · rw [cut_eq_cutCode hopen, cutCode_mark (by decide) (fun h => absurd h (by decide))]
    rcases h.last_eq with hlast | hlast <;> obtain rfl : last = _ := hlast <;> rfl
  · rw [cut_eq_cutCode hopen, cutCode_mark (by decide) (fun h => absurd h (by decide))]
    rfl

theorem Cuts.isCode (h : Cuts behind state text lexemes last)
    (hcode : state.stack.all Context.isCode = true) : last.stack.all Context.isCode = true := by
  induction h with
  | done => exact hcode
  | @lexeme state after last blanks rest c sort length lexemes _ hcut _ _ ih =>
    have hafter := @isCode_cut state c (rest ++ behind) hcode
    rw [hcut] at hafter
    exact ih hafter

/-- The cut of a text that is one lexeme. -/
theorem Cuts.exists_cut {lexeme : Lexeme} (h : Cuts behind state text [lexeme] last) :
    ∃ c rest length, lexeme.text = c :: rest ∧ length ≤ rest.length + 1 ∧
      cut false state (c :: (rest ++ behind)) = (lexeme.sort, length, last) := by
  generalize hall : [lexeme] = lexemes at h
  cases h with
  | done => cases hall
  | @lexeme _ after _ blanks rest c sort length lexemes _ hcut hlength hrest =>
    obtain ⟨rfl, rfl⟩ := List.cons.inj hall
    generalize hdrop : rest.drop (length - 1) = more at hrest
    cases hrest
    exact ⟨c, rest, length, congrArg _ (List.take_of_length_le (List.drop_eq_nil_iff.1 hdrop)), hlength, hcut⟩

theorem Cuts.text_ne (h : Cuts behind state text lexemes last) : ∀ lexeme ∈ lexemes, lexeme.text ≠ [] := by
  induction h with
  | done => exact fun _ h => by cases h
  | lexeme _ _ _ _ ih => exact List.forall_mem_cons.2 ⟨List.cons_ne_nil _ _, ih⟩

/-- Blanks in front of a text are those of its first lexeme. -/
theorem Cuts.blanks {blanks : Text} (hblanks : blanks.all isSpace = true)
    (hopen : Syntax.isOpenCode state.stack = true) {lexeme : Lexeme}
    (h : Cuts behind state text (lexeme :: lexemes) last) :
    Cuts behind state (blanks ++ text) ({ lexeme with blanks := blanks ++ lexeme.blanks } :: lexemes)
      last := by
  generalize hall : lexeme :: lexemes = row at h
  cases h with
  | done => cases hall
  | @lexeme _ after _ own rest c sort length lexemes hown hcut hlength hrest =>
    obtain ⟨rfl, rfl⟩ := List.cons.inj hall
    rw [← List.append_assoc]
    refine .lexeme ?_ hcut hlength hrest
    rw [leadingBlanks, keepsBlanks_of_isOpenCode hopen, if_neg Bool.false_ne_true] at hown ⊢
    rw [List.append_assoc, List.takeWhile_append_of_pos (List.all_eq_true.1 hblanks), hown]

end

/-! ## Comments -/

/-- No line begins in the text from which on there are only blanks. -/
def IsAnchored (text : Text) : Prop :=
  ∀ first second, text = first ++ second → second.all Text.isBlank = true →
    first ≠ [] ∧ first.getLast? ≠ some '\n'

theorem IsAnchored.append {text : Text} (h : IsAnchored text) (more : Text) : IsAnchored (more ++ text) := by
  intro first second heq hblank
  rcases List.append_eq_append_iff.1 heq with ⟨rest, rfl, htext⟩ | ⟨rest, hmore, rfl⟩
  · obtain ⟨hne, hlast⟩ := h rest second htext hblank
    refine ⟨List.append_ne_nil_of_right_ne_nil _ hne, ?_⟩
    rw [List.getLast?_append]
    cases hrest : rest.getLast? with
    | none => exact absurd (List.getLast?_eq_none_iff.1 hrest) hne
    | some c => rwa [Option.some_or, ← hrest]
  · rw [List.all_append, Bool.and_eq_true] at hblank
    exact absurd rfl (h [] text rfl hblank.2).1

/-- A text in one line that begins with no blank. -/
theorem isAnchored_of_line {c : Char} {rest : Text} (hc : Text.isBlank c = false) (hrest : '\n' ∉ c :: rest) :
    IsAnchored (c :: rest) := by
  intro first second heq hblank
  cases first with
  | nil =>
    obtain rfl : c :: rest = second := heq
    rw [List.all_cons, hc] at hblank
    cases hblank
  | cons d first =>
    refine ⟨List.cons_ne_nil _ _, fun hlast => hrest ?_⟩
    rw [heq]
    exact List.mem_append_left _ (List.mem_of_getLast? hlast)

/-- A text that ends with no blank. -/
theorem isAnchored_concat {front : Text} {c : Char} (hc : Text.isBlank c = false) : IsAnchored (front ++ [c]) := by
  refine IsAnchored.append (isAnchored_of_line hc ?_) front
  rw [List.mem_singleton]
  rintro rfl
  exact absurd hc (by decide)

theorem lineFeed_notMem_line (text : Text) : '\n' ∉ text.take (lineLength text) := by
  rw [lineLength, take_length_takeWhile]
  intro hmem
  have := List.all_eq_true.1 List.all_takeWhile _ hmem
  simp at this

/-- A block comment that does not go to the end of the text is closed. -/
theorem exists_blockComment {text : Text} (h : blockCommentLength text < text.length) :
    ∃ inside, text.take (blockCommentLength text) = inside ++ ['/'] := by
  fun_induction blockCommentLength text with
  | case1 => cases h
  | case2 rest => exact ⟨['*'], rfl⟩
  | case3 c rest _ ih =>
    obtain ⟨inside, hinside⟩ := ih (Nat.lt_of_succ_lt_succ h)
    exact ⟨c :: inside, by rw [List.take_succ_cons, hinside, List.cons_append]⟩

theorem ne_comment_of_cutBegunWith {markup : Bool} {state after : LexState} {c : Char} {rest : Text}
    {length : Nat} : cutBegunWith markup state c rest ≠ (.comment, length, after) := by
  unfold cutBegunWith
  intro h
  split at h
  · split at h <;> cases h
  · split at h
    · cases h
    · split at h
      · cases h
      · split at h
        · cases h
        · split at h <;> cases h

theorem ne_comment_of_cutTemplate {state after : LexState} {c : Char} {rest : Text} {length : Nat} :
    cutTemplate state (c :: rest) ≠ (.comment, length, after) := by
  intro h
  cases hpiece : templateLength false (c :: rest) with
  | zero =>
    rw [cutTemplate_of_zero hpiece] at h
    split at h <;> cases h
  | succ inside =>
    rw [cutTemplate_of_succ hpiece] at h
    cases h

/-- A comment changes no state, and if something is behind it, it ends where no line begins. -/
theorem comment_of_cut {state after : LexState} {c : Char} {rest : Text} {length : Nat}
    (hcode : state.stack.all Context.isCode = true)
    (hcut : cut false state (c :: rest) = (.comment, length, after)) (hlength : length < rest.length + 1) :
    after = state ∧ IsAnchored ((c :: rest).take length) := by
  have hline : ∀ {first second : Char} {text : Text}, Text.isBlank first = false → second ≠ '\n' →
      IsAnchored ((first :: second :: text).take (2 + lineLength text)) := by
    intro first second text hfirst hsecond
    rw [Nat.add_comm, List.take_succ_cons, List.take_succ_cons]
    refine isAnchored_of_line hfirst ?_
    rw [List.mem_cons, List.mem_cons, not_or, not_or]
    refine ⟨?_, hsecond.symm, lineFeed_notMem_line text⟩
    rintro rfl
    exact absurd hfirst (by decide)
  have hplain : cutCode false state (c :: rest) = (.comment, length, after) →
      after = state ∧ IsAnchored ((c :: rest).take length) := by
    intro h
    unfold cutCode at h
    split at h
    · next text heq =>
      rw [heq]
      obtain ⟨-, rfl, rfl⟩ := h
      exact ⟨rfl, hline (by decide) (by decide)⟩
    · next text heq =>
      rw [heq]
      obtain ⟨-, rfl, rfl⟩ := h
      have hshort : blockCommentLength text < text.length := by
        have hall := congrArg List.length heq
        rw [List.length_cons, List.length_cons, List.length_cons] at hall
        omega
      obtain ⟨inside, hinside⟩ := exists_blockComment hshort
      rw [Nat.add_comm, List.take_succ_cons, List.take_succ_cons, hinside]
      exact ⟨rfl, @isAnchored_concat ('/' :: '*' :: inside) '/' (by decide)⟩
    · cases h
    · next text heq =>
      split at h
      · rw [heq]
        obtain ⟨-, rfl, rfl⟩ := h
        exact ⟨rfl, hline (by decide) (by decide)⟩
      · cases h
    · cases h
    · next heq => exact absurd h ne_comment_of_cutBegunWith
    · cases h
  unfold cut at hcut
  split at hcut
  · exact absurd hcut ne_comment_of_cutTemplate
  · next hstack => rw [hstack] at hcode; cases hcode
  · next hstack => rw [hstack] at hcode; cases hcode
  · exact hplain hcut

section

variable {behind text : Text} {state last : LexState} {lexemes : List Lexeme}

/-- Comments change no state. -/
theorem Cuts.eq_of_comments (hbehind : behind ≠ []) (h : Cuts behind state text lexemes last)
    (hcode : state.stack.all Context.isCode = true) (hcomments : ∀ lexeme ∈ lexemes, lexeme.sort = .comment) :
    last = state := by
  induction h with
  | done => rfl
  | @lexeme state after last blanks rest c sort length lexemes _ hcut hlength _ ih =>
    rw [List.forall_mem_cons] at hcomments
    obtain rfl : sort = .comment := hcomments.1
    have hpos := List.length_pos_iff.2 hbehind
    obtain ⟨rfl, -⟩ := comment_of_cut hcode hcut (by rw [List.length_append]; omega)
    exact ih hcode hcomments.2

theorem Cuts.isAnchored_of_comments (hbehind : behind ≠ []) (h : Cuts behind state text lexemes last)
    (hcode : state.stack.all Context.isCode = true) (hcomments : ∀ lexeme ∈ lexemes, lexeme.sort = .comment) :
    ∀ lexeme ∈ lexemes, IsAnchored lexeme.text := by
  induction h with
  | done => exact fun _ h => by cases h
  | @lexeme state after last blanks rest c sort length lexemes _ hcut hlength _ ih =>
    rw [List.forall_mem_cons] at hcomments ⊢
    obtain rfl : sort = .comment := hcomments.1
    have hpos := List.length_pos_iff.2 hbehind
    obtain ⟨rfl, hanchored⟩ := comment_of_cut hcode hcut (by rw [List.length_append]; omega)
    refine ⟨?_, ih hcode hcomments.2⟩
    cases length with
    | zero => exact absurd rfl (hanchored [] [] rfl rfl).1
    | succ length =>
      rwa [List.take_succ_cons, List.take_append_of_le_length (by omega)] at hanchored

theorem Cuts.append {second : Text} {more : List Lexeme} {middle : LexState}
    (h : Cuts (second ++ behind) state text lexemes middle) (hsecond : Cuts behind middle second more last) :
    Cuts behind state (text ++ second) (lexemes ++ more) last := by
  generalize hall : second ++ behind = whole at h
  induction h with
  | done => exact hsecond
  | @lexeme state after last blanks rest c sort length lexemes hblanks hcut hlength _ ih =>
    subst hall
    have hle : length - 1 ≤ rest.length := by omega
    have hrest := ih hsecond
    rw [← List.drop_append_of_le_length hle] at hrest
    rw [List.append_assoc, List.cons_append, List.cons_append, ← List.take_append_of_le_length hle]
    exact .lexeme (by rwa [List.append_assoc]) (by rwa [List.append_assoc])
      (by rw [List.length_append]; omega) hrest

end

/-! ## The item -/

/-- The text of an item with its comma: it begins with a blank, no literal goes on behind its first line, and
where an item is awaited and a line ends behind it, it is cut into these lexemes, and another item is awaited
then. -/
structure IsItemText (entry : Text) (lexemes : List Lexeme) : Prop where
  opens : ∃ line more, entry = ' ' :: line ++ '\n' :: more ∧ ∀ c ∈ line, c ∉ ("/\"'\\" : Text)
  cuts : ∀ state : LexState, state.Awaits → ∀ behind,
    Cuts ('\n' :: behind) state entry lexemes ⟨state.stack, false, [',']⟩

section

variable {line : Text} (hline : ∀ c ∈ line, c ∉ ("/\"'\\" : Text)) (more : Text)

include hline

theorem quotedLength?_line {quote : Char} (hquote : quote = '"' ∨ quote = '\'') :
    quotedLength? quote false false (line ++ '\n' :: more) = none := by
  have hmem : quote ∈ ("/\"'\\" : Text) := by rcases hquote with rfl | rfl <;> decide
  induction line with
  | nil =>
    have hne : ('\n' : Char) ≠ quote := by rcases hquote with rfl | rfl <;> decide
    rw [List.nil_append, quotedLength?, if_neg Bool.false_ne_true, if_neg hne, if_neg (by decide),
      if_pos (by decide)]
  | cons c line ih =>
    rw [List.forall_mem_cons] at hline
    have hne : c ≠ quote := fun hc => hline.1 (hc ▸ hmem)
    have hescape : c ≠ '\\' := fun hc => hline.1 (hc ▸ by decide)
    rw [List.cons_append, quotedLength?, if_neg Bool.false_ne_true, if_neg hne, if_neg hescape,
      ih hline.2]
    split <;> rfl

theorem regexLength?_line (inClass escaped : Bool) :
    regexLength? inClass escaped (line ++ '\n' :: more) = none := by
  induction line generalizing inClass escaped with
  | nil => rw [List.nil_append, regexLength?, if_pos rfl]
  | cons c line ih =>
    rw [List.forall_mem_cons] at hline
    have hslash : c ≠ '/' := fun hc => hline.1 (hc ▸ by decide)
    rw [List.cons_append, regexLength?]
    simp only [ih hline.2, hslash, Option.map_none, decide_false, Bool.false_and, Bool.false_eq_true,
      if_false, ite_self]

theorem unquoted_of_line (hne : line ≠ []) : Unquoted (line ++ '\n' :: more) where
  quoted quote hquote escaped := by
    cases escaped with
    | false => exact quotedLength?_line hline more hquote
    | true =>
      obtain ⟨c, line, rfl⟩ := List.exists_cons_of_ne_nil hne
      rw [List.cons_append, quotedLength?, if_pos rfl,
        quotedLength?_line (fun d hd => hline d (List.mem_cons_of_mem _ hd)) more hquote]
      rfl
  regex inClass escaped := regexLength?_line hline more inClass escaped

end

/-! ## The splice -/

theorem lexemesFrom_ahead {state : LexState} (h : state.Awaits) {c : Char} (hc : IsAhead c) {blanks : Text}
    (hblanks : blanks.all isSpace = true) (rest : Text) :
    lexemesFrom false state (blanks ++ c :: rest) =
      ⟨.mark, blanks, [c]⟩ ::
        lexemesFrom false (LexState.afterMark ⟨state.stack, false, [',']⟩ [c]) rest := by
  have hsolid : isSpace c = false := by rcases hc with rfl | rfl <;> decide
  have hleading : leadingBlanks state.stack (blanks ++ c :: rest) = blanks := by
    rw [leadingBlanks, keepsBlanks_of_isOpenCode h.isOpenCode, if_neg Bool.false_ne_true,
      List.takeWhile_append_of_pos (List.all_eq_true.1 hblanks), List.takeWhile_cons_of_neg (by simp [hsolid]),
      List.append_nil]
  have hstep := @lexemesFrom_step false state _ (blanks ++ c :: rest) (c :: rest) _ _
    (by rw [hleading, List.drop_left]) (List.cons_ne_nil _ _) (h.cut_ahead hc rest) Nat.one_pos
  rw [hleading] at hstep
  exact hstep

/-- Where a row of lexemes ends with a bracket or a comma and comments, no line begins with blanks only. -/
theorem isAnchored_spelled {head comments : List Lexeme} {bound : Lexeme} (hbound : bound.isBound = true)
    (hcomments : ∀ lexeme ∈ comments, IsAnchored lexeme.text) :
    IsAnchored (spelled (head ++ bound :: comments)) := by
  have hall : ∀ lexeme ∈ bound :: comments, IsAnchored lexeme.text := by
    refine List.forall_mem_cons.2 ⟨?_, hcomments⟩
    rw [Lexeme.isBound, Bool.and_eq_true, Bool.or_eq_true, beq_iff_eq, beq_iff_eq, beq_iff_eq] at hbound
    rcases hbound.2 with htext | htext <;> rw [htext] <;> exact isAnchored_of_line (by decide) (by decide)
  have hlast := hall _ (List.getLast_mem (List.cons_ne_nil bound comments))
  rw [← List.dropLast_concat_getLast (List.cons_ne_nil bound comments), ← List.append_assoc, spelled_append,
    spelled_cons]
  show IsAnchored (_ ++ (_ ++ _ ++ []))
  rw [List.append_nil, ← List.append_assoc]
  exact hlast.append _

/-- Behind a bracket or a comma an item is awaited. -/
theorem exists_cuts_of_bound {front more : List Lexeme} {behind : Text} (hfront : EndsBound front)
    (hmore : more ≠ []) (hbehind : behind ≠ [])
    (h : lexemes false (spelled front ++ behind) = front ++ more) :
    ∃ state : LexState, state.Awaits ∧ Cuts behind .start (spelled front) front state ∧
      lexemesFrom false state behind = more ∧ IsAnchored (spelled front) := by
  obtain ⟨head, bound, comments, rfl, hbound, hcomments⟩ := hfront
  rw [lexemes, spelled_append, List.append_assoc, List.append_assoc] at h
  obtain ⟨first, hfirst, hrest⟩ := cuts_of_lexemesFrom (by simp) rfl h
  have hsplit : spelled (bound :: comments) = spelled [bound] ++ spelled comments :=
    spelled_append [bound] comments
  have hcons : bound :: comments ++ more = [bound] ++ (comments ++ more) := rfl
  rw [hsplit, List.append_assoc, hcons] at hrest
  obtain ⟨state, hstate, hinside⟩ := cuts_of_lexemesFrom (by simp [hmore]) rfl hrest
  obtain ⟨last, hlast, hbehind'⟩ := cuts_of_lexemesFrom hmore rfl hinside
  have hcode : first.stack.all Context.isCode = true := hfirst.isCode rfl
  have hawaits : state.Awaits := by
    obtain ⟨c, rest, length, htext, -, hcut⟩ := hstate.exists_cut
    rw [Lexeme.isBound, Bool.and_eq_true, Bool.or_eq_true, beq_iff_eq, beq_iff_eq, beq_iff_eq, htext] at hbound
    rw [hbound.1] at hcut
    exact awaits_of_cut hcode (hbound.2.imp (fun h => (List.cons.inj h).1) fun h => (List.cons.inj h).1) hcut
  obtain rfl := hlast.eq_of_comments hbehind hawaits.isCode hcomments
  refine ⟨last, hawaits, ?_, hbehind',
    isAnchored_spelled hbound (hlast.isAnchored_of_comments hbehind hawaits.isCode hcomments)⟩
  rw [spelled_append]
  refine Cuts.append hfirst ?_
  rw [hsplit]
  exact Cuts.append hstate hlast

/-- An item that is put into the blanks in front of an object or of the end of the array, where these begin a line or
all of them are in front of the item, is cut into its lexemes, and what is around it as before. -/
theorem lexemes_splice {front second more : List Lexeme} {first : Lexeme} {blanks blanks' entry : Text}
    {c : Char} (hc : IsAhead c) (hends : EndsBound front) (hblanks : (blanks ++ blanks').all isSpace = true)
    (hne : blanks = [] → blanks' = [])
    (hentry : IsItemText entry (first :: more))
    (h : lexemes false (spelled front ++ (blanks ++ blanks' ++ c :: spelled second)) =
      front ++ ⟨.mark, blanks ++ blanks', [c]⟩ :: second) :
    lexemes false (spelled front ++ (blanks ++ entry ++ '\n' :: (blanks' ++ c :: spelled second))) =
      front ++ ({ first with blanks := blanks ++ first.blanks } :: more ++
        ⟨.mark, '\n' :: blanks', [c]⟩ :: second) := by
  obtain ⟨state, hawaits, hfront, hbehind, -⟩ :=
    exists_cuts_of_bound hends (List.cons_ne_nil _ _) (by simp) h
  rw [List.all_append, Bool.and_eq_true] at hblanks
  rw [lexemesFrom_ahead hawaits hc (by rw [List.all_append, hblanks.1, hblanks.2]; rfl), List.cons.injEq] at hbehind
  obtain ⟨line, others, hopens, hline⟩ := hentry.opens
  have hquiet : ∀ c ∈ blanks ++ ' ' :: line, c ∉ ("/\"'\\" : Text) := by
    have hspace : ∀ c ∈ ("/\"'\\" : Text), isSpace c = false := Text.forall_mem (by decide)
    rw [List.forall_mem_append, List.forall_mem_cons]
    refine ⟨fun c hc hmem => ?_, by decide, hline⟩
    have hblank := List.all_eq_true.1 hblanks.1 c hc
    rw [hspace c hmem] at hblank
    cases hblank
  have hunquoted : Unquoted (blanks ++ entry ++ '\n' :: (blanks' ++ c :: spelled second)) := by
    have := unquoted_of_line hquiet (others ++ '\n' :: (blanks' ++ c :: spelled second)) (by simp)
    rw [hopens]
    simpa using this
  have halike : Alike (blanks ++ blanks' ++ c :: spelled second)
      (blanks ++ entry ++ '\n' :: (blanks' ++ c :: spelled second)) := by
    cases blanks with
    | nil =>
      obtain rfl := hne rfl
      rw [hopens]
      rcases hc with rfl | rfl <;> exact ⟨⟨_, _, rfl, rfl⟩, ⟨_, _, rfl, rfl⟩, rfl⟩
    | cons d blanks =>
      have hd : isSpace d = true := List.all_eq_true.1 hblanks.1 d (List.mem_cons_self ..)
      exact ⟨⟨_, _, rfl, isEdge_of_isSpace hd⟩, ⟨_, _, rfl, hd⟩, rfl⟩
  have hnew := hfront.exchange halike rfl (.inl hunquoted)
  have hitem := (hentry.cuts state hawaits (blanks' ++ c :: spelled second)).blanks hblanks.1
    hawaits.isOpenCode
  have hcomma : LexState.Awaits ⟨state.stack, false, [',']⟩ :=
    ⟨hawaits.isCode, hawaits.isOpenCode, rfl, .inr rfl⟩
  have hahead := @lexemesFrom_ahead _ hcomma c hc ('\n' :: blanks')
    (by rw [List.all_cons, hblanks.2]; decide) (spelled second)
  rw [lexemes, hnew.lexemesFrom, hitem.lexemesFrom, ← List.cons_append, hahead, hbehind.2]

end VerticalSlice.Syntax
