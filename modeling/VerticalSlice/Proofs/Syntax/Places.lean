import VerticalSlice.Proofs.Syntax.Concatenation
import VerticalSlice.Proofs.Syntax.Cutting

/-!
# Items and their places

The items of a text come from its lexemes, in the same order. A row of items that is split at one of them
comes from a row of lexemes that is split at one of them (`exists_lexemes_of_items`), and the offsets of
items grow from each to the next (`pairwise_offset_items`).
-/

namespace VerticalSlice.Syntax

/-! ## Lexemes of a text -/

/-- In front of each lexeme there are blanks, and only a comment may be empty. -/
def Lexeme.IsCut (lexeme : Lexeme) : Prop :=
  lexeme.blanks.all isSpace = true ∧ (lexeme.sort ≠ .comment → lexeme.text ≠ [])

theorem all_isSpace_leadingBlanks (stack : List Context) (text : Text) :
    (leadingBlanks stack text).all isSpace = true := by
  rw [leadingBlanks]
  split
  · rfl
  · exact List.all_takeWhile

theorem isCut_of_mem_lexemesFrom {markup : Bool} {state : LexState} {text : Text} {lexeme : Lexeme}
    (h : lexeme ∈ lexemesFrom markup state text) : lexeme.IsCut := by
  fun_induction lexemesFrom markup state text with
  | case1 => cases h
  | case2 state text blanks =>
    rw [List.mem_singleton] at h
    subst h
    exact ⟨all_isSpace_leadingBlanks _ _, fun hsort => absurd rfl hsort⟩
  | case3 state text blanks c rest _ sort length after _ _ ih =>
    rcases List.mem_cons.1 h with rfl | hrest
    · exact ⟨all_isSpace_leadingBlanks _ _, fun _ => List.cons_ne_nil _ _⟩
    · exact ih hrest

/-! ## Splitting -/

theorem exists_tokens_of_items {tokens waiting : List Token} {front others : List Item}
    {comments : List Token} {token : Token}
    (h : (itemsFrom waiting tokens).1 = front ++ ⟨comments, token⟩ :: others) :
    ∃ first second, tokens = first ++ token :: second ∧ itemsFrom waiting first = (front, comments) ∧
      token.isComment = false ∧ itemsFrom [] second = (others, (itemsFrom waiting tokens).2) := by
  induction tokens generalizing waiting front with
  | nil =>
    rw [itemsFrom] at h
    exact absurd h.symm (List.append_ne_nil_of_right_ne_nil _ (List.cons_ne_nil _ _))
  | cons next rest ih =>
    rw [itemsFrom] at h ⊢
    by_cases hcomment : next.isComment = true
    · rw [if_pos hcomment] at h ⊢
      obtain ⟨first, second, rfl, hfirst, htoken, hsecond⟩ := ih h
      refine ⟨next :: first, second, rfl, ?_, htoken, hsecond⟩
      rw [itemsFrom, if_pos hcomment, hfirst]
    · rw [if_neg hcomment] at h ⊢
      cases front with
      | nil =>
        rw [List.nil_append, List.cons.injEq, Item.mk.injEq] at h
        obtain ⟨⟨rfl, rfl⟩, rfl⟩ := h
        exact ⟨[], rest, rfl, rfl, Bool.eq_false_iff.2 hcomment, rfl⟩
      | cons item front =>
        rw [List.cons_append, List.cons.injEq] at h
        obtain ⟨rfl, hrest⟩ := h
        obtain ⟨first, second, rfl, hfirst, htoken, hsecond⟩ := ih hrest
        refine ⟨next :: first, second, rfl, ?_, htoken, hsecond⟩
        rw [itemsFrom, if_neg hcomment, hfirst]

/-- The token of a lexeme at its place. -/
def Lexeme.tokenAt (lexeme : Lexeme) (offset line : Nat) (broken : Bool) : Token :=
  ⟨lexeme.sort, lexeme.blanks, lexeme.text, offset + lexeme.blanks.length,
    line + lexeme.blanks.count '\n', broken || lexeme.blanks.any isLineBreak⟩

theorem exists_lexemes_of_placeFrom {lexemes : List Lexeme} {offset line : Nat} {broken : Bool}
    {first second : List Token} {token : Token}
    (h : placeFrom offset line broken lexemes = first ++ token :: second) :
    ∃ front lexeme behind, lexemes = front ++ lexeme :: behind ∧
      first = placeFrom offset line broken front ∧
      token = lexeme.tokenAt (offset + (spelled front).length) (line + (spelled front).count '\n')
        (brokenBehind broken front) := by
  induction lexemes generalizing offset line broken first with
  | nil => exact absurd h.symm (List.append_ne_nil_of_right_ne_nil _ (List.cons_ne_nil _ _))
  | cons lexeme rest ih =>
    rw [placeFrom] at h
    cases first with
    | nil =>
      rw [List.nil_append, List.cons.injEq] at h
      exact ⟨[], lexeme, rest, rfl, rfl, h.1.symm⟩
    | cons other first =>
      rw [List.cons_append, List.cons.injEq] at h
      obtain ⟨rfl, hrest⟩ := h
      obtain ⟨front, found, behind, rfl, rfl, htoken⟩ := ih hrest
      refine ⟨lexeme :: front, found, behind, rfl, rfl, ?_⟩
      rw [htoken, spelled_cons, List.length_append, List.length_append, List.count_append,
        List.count_append, brokenBehind]
      simp only [Nat.add_assoc]

/-- A row of items of a text comes from its lexemes, and can be split where these are split. -/
theorem exists_lexemes_of_items {lexemes : List Lexeme} {front others : List Item}
    {comments : List Token} {token : Token}
    (h : (items (place lexemes)).1 = front ++ ⟨comments, token⟩ :: others) :
    ∃ first lexeme second, lexemes = first ++ lexeme :: second ∧
      items (place first) = (front, comments) ∧ lexeme.sort ≠ .comment ∧
      token = lexeme.tokenAt (spelled first).length (1 + (spelled first).count '\n')
        (brokenBehind false first) := by
  obtain ⟨tokens, later, htokens, hfront, hcomment, -⟩ := exists_tokens_of_items h
  obtain ⟨first, lexeme, second, hlexemes, rfl, htoken⟩ := exists_lexemes_of_placeFrom htokens
  rw [Nat.zero_add] at htoken
  refine ⟨first, lexeme, second, hlexemes, hfront, ?_, htoken⟩
  rw [htoken, Token.isComment, beq_eq_false_iff_ne] at hcomment
  exact hcomment

/-! ## Offsets and blanks -/

theorem le_offset_of_mem_placeFrom {lexemes : List Lexeme} {offset line : Nat} {broken : Bool}
    {token : Token} (h : token ∈ placeFrom offset line broken lexemes) : offset ≤ token.offset := by
  induction lexemes generalizing offset line broken with
  | nil => cases h
  | cons lexeme rest ih =>
    rw [placeFrom] at h
    rcases List.mem_cons.1 h with rfl | hrest
    · exact Nat.le_add_right _ _
    · have := ih hrest
      omega

theorem mem_of_mem_items {tokens waiting : List Token} {item : Item}
    (h : item ∈ (itemsFrom waiting tokens).1) :
    item.token ∈ tokens ∧ ∀ comment ∈ item.comments, comment ∈ waiting ∨ comment ∈ tokens := by
  induction tokens generalizing waiting with
  | nil => cases h
  | cons token rest ih =>
    rw [itemsFrom] at h
    split at h
    · obtain ⟨htoken, hcomments⟩ := ih h
      refine ⟨List.mem_cons_of_mem _ htoken, fun comment hcomment => ?_⟩
      rcases hcomments comment hcomment with hwaiting | hrest
      · rcases List.mem_append.1 hwaiting with hbefore | hnext
        · exact .inl hbefore
        · exact .inr (List.mem_singleton.1 hnext ▸ List.mem_cons_self ..)
      · exact .inr (List.mem_cons_of_mem _ hrest)
    · rcases List.mem_cons.1 h with rfl | hrest
      · exact ⟨List.mem_cons_self .., fun comment hcomment => .inl hcomment⟩
      · obtain ⟨htoken, hcomments⟩ := ih hrest
        exact ⟨List.mem_cons_of_mem _ htoken, fun comment hcomment =>
          .inr (List.mem_cons_of_mem _ ((hcomments comment hcomment).resolve_left (by simp)))⟩

/-- Each item is behind the one before it. -/
theorem pairwise_offset_items {lexemes : List Lexeme} (h : ∀ lexeme ∈ lexemes, lexeme.IsCut)
    (waiting : List Token) (offset line : Nat) (broken : Bool) :
    (itemsFrom waiting (placeFrom offset line broken lexemes)).1.Pairwise
      fun item later => item.token.offset < later.token.offset := by
  induction lexemes generalizing waiting offset line broken with
  | nil => exact .nil
  | cons lexeme rest ih =>
    rw [List.forall_mem_cons] at h
    rw [placeFrom, itemsFrom]
    split
    · exact ih h.2 _ _ _ _
    · next hcomment =>
      refine .cons (fun item hitem => ?_) (ih h.2 _ _ _ _)
      have hpos := List.length_pos_iff.2 (h.1.2 fun hsort => hcomment (by rw [Token.isComment, hsort]; rfl))
      have hle := le_offset_of_mem_placeFrom (mem_of_mem_items hitem).1
      dsimp only
      omega

theorem blanks_of_mem_placeFrom {lexemes : List Lexeme} (h : ∀ lexeme ∈ lexemes, lexeme.IsCut)
    {offset line : Nat} {broken : Bool} {token : Token}
    (htoken : token ∈ placeFrom offset line broken lexemes) : token.blanks.all isSpace = true := by
  induction lexemes generalizing offset line broken with
  | nil => cases htoken
  | cons lexeme rest ih =>
    rw [List.forall_mem_cons] at h
    rw [placeFrom] at htoken
    rcases List.mem_cons.1 htoken with rfl | hrest
    · exact h.1.1
    · exact ih h.2 hrest

/-- In front of items and of the comments between them there are blanks. -/
theorem blanks_of_mem_items {lexemes : List Lexeme} (h : ∀ lexeme ∈ lexemes, lexeme.IsCut) {item : Item}
    (hitem : item ∈ (items (place lexemes)).1) :
    (∀ comment ∈ item.comments, comment.blanks.all isSpace = true) ∧
      item.token.blanks.all isSpace = true := by
  obtain ⟨htoken, hcomments⟩ := mem_of_mem_items hitem
  exact ⟨fun comment hcomment =>
    blanks_of_mem_placeFrom h ((hcomments comment hcomment).resolve_left (by simp)),
    blanks_of_mem_placeFrom h htoken⟩

end VerticalSlice.Syntax
