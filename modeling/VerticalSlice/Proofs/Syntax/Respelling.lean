import VerticalSlice.Proofs.Syntax.Edge
import VerticalSlice.Proofs.Syntax.FilledQuery
import VerticalSlice.Proofs.Syntax.Lexical

/-!
# Tokens that are spelled in another way

A substitution puts harmless texts into holes. Between the quotes of a literal more may stand than that:
all that does not end the literal (`isQuotable`). So here a function says of whole tokens how they are
spelled instead. Steps do not look at the spelling of tokens, and rules look at little of it; so the same
nodes are built and seen, spelled in the other way (`translates_respelled`, `viewsFrom_respelled`).

Where the function is a substitution but for one literal, and the names and the other literals of a tree are
kept apart from that one, the questions about the tree are answered as after the substitution, and what the
literal says is its new contents (`relabels_spelling`).
-/

namespace VerticalSlice.Syntax

/-! ## What may stand between quotes -/

/-- May the text stand between single quotes? A backslash takes the next character with it; but for that
there is no quote in it, no line ends in it, and it does not end with a backslash. -/
def isQuotable : Text → Bool
  | [] => true
  | '\\' :: _ :: rest => isQuotable rest
  | c :: rest => c != '\'' && c != '\\' && c != '\n' && isQuotable rest

/-- The quote behind the text is the one that closes the literal. -/
theorem quotedLength?_eq_some_iff {text behind : Text} :
    quotedLength? '\'' false false (text ++ '\'' :: behind) = some (text.length + 1) ↔
      isQuotable text = true := by
  fun_induction isQuotable text with
  | case1 => simp [quotedLength?]
  | case2 c rest ih =>
    rw [← ih]
    simp [quotedLength?]
  | case3 c rest hescape ih =>
    rw [List.cons_append, quotedLength?, if_neg Bool.false_ne_true]
    by_cases hquote : c = '\''
    · subst hquote
      simp
    by_cases hbackslash : c = '\\'
    · -- the backslash is the last character and takes the quote with it
      obtain rfl : rest = [] := by
        cases rest with
        | nil => rfl
        | cons d rest => exact absurd hbackslash (fun h => hescape d rest h rfl)
      rw [if_neg hquote, if_pos hbackslash]
      refine iff_of_false (fun h => ?_) (by simp [hbackslash])
      obtain ⟨first, hfirst, hlength⟩ := Option.map_eq_some_iff.1 h
      rw [List.nil_append, quotedLength?, if_pos rfl] at hfirst
      obtain ⟨second, hsecond, rfl⟩ := Option.map_eq_some_iff.1 hfirst
      have hpos := quotedLength?_pos hsecond
      simp only [List.length_cons, List.length_nil] at hlength
      omega
    by_cases hbreak : c = '\n'
    · simp [hbreak]
    · rw [if_neg hquote, if_neg hbackslash, if_neg (by simp [hbreak]), Option.map_eq_some_iff]
      simp only [List.length_cons, Nat.add_right_cancel_iff, exists_eq_right, ih]
      simp [hquote, hbackslash, hbreak]

/-- Where nothing is escaped, only a quote and the end of a line cannot stand there. -/
theorem isQuotable_iff_of_notMem {text : Text} (h : '\\' ∉ text) :
    isQuotable text = true ↔ '\'' ∉ text ∧ '\n' ∉ text := by
  fun_induction isQuotable text with
  | case1 => simp
  | case2 c rest ih => exact absurd (List.mem_cons_self ..) h
  | case3 c rest hescape ih =>
    rw [List.mem_cons, not_or] at h
    have hbackslash : c ≠ '\\' := Ne.symm h.1
    simp only [Bool.and_eq_true, bne_iff_ne, ih h.2, List.mem_cons, not_or, ne_eq, hbackslash, not_false_eq_true,
      and_true, eq_comm (a := '\'') (b := c), eq_comm (a := '\n') (b := c)]
    tauto

/-! ## Other tokens -/

section

variable (spell : Text → Text)

/-- The lexeme, spelled in another way. -/
def Lexeme.respelled (lexeme : Lexeme) : Lexeme := { lexeme with text := spell lexeme.text }

/-- The token, spelled in another way, without its place. -/
def Token.respelled (token : Token) : Token :=
  { token with text := spell token.text, offset := 0, line := 1 }

/-- The label of a token that is spelled in another way, without its place. -/
def Label.respelled (label : Label) : Label :=
  { label with text := spell label.text, offset := 0, line := 1 }

variable {spell}

mutual

/-- Labels that are the same in a tree give the same tree. -/
theorem Node.relabel_congr {f g : Label → Label} : ∀ {node : Node},
    (∀ other ∈ node.preorder, f other.label = g other.label) → node.relabel f = node.relabel g
  | .mk label children, h => by
    rw [preorder, List.forall_mem_cons] at h
    rw [relabel, relabel, relabelEach_congr h.2]
    exact congrArg (Node.mk · _) h.1

theorem Node.relabelEach_congr {f g : Label → Label} : ∀ {nodes : List Node},
    (∀ other ∈ preorderAll nodes, f other.label = g other.label) → relabelEach f nodes = relabelEach g nodes
  | [], _ => rfl
  | node :: rest, h => by
    rw [preorderAll, List.forall_mem_append] at h
    rw [relabelEach, relabelEach, relabel_congr h.1, relabelEach_congr h.2]

end

theorem faithful_respelled : Faithful (Label.respelled spell) where
  kind_eq _ := rfl
  role_eq _ := rfl

/-- Steps build the same nodes, spelled in the other way. -/
theorem translates_respelled (hnil : spell [] = []) :
    Translates (Node.relabel (Label.respelled spell)) (Token.respelled spell) where
  kind_map := faithful_respelled.kind_relabel
  map_leaf kind token := by
    rw [Node.leaf, Node.relabel, Node.relabelEach]
    rfl
  map_branch kind children := by
    rw [Node.branch, Node.relabel, Node.relabelEach_eq_map, Label.respelled, hnil, Node.branch]
    cases children with
    | nil => rfl
    | cons child rest =>
      simp only [List.map_cons, List.head?_cons, Option.map_some, Node.label_relabel]
      rfl
  map_withRole role node := by
    cases node
    rw [Node.withRole, Node.relabel, Node.relabel, Node.withRole]
    rfl

variable {lexemes : List Lexeme}

/-- The tokens of the lexemes that are spelled in another way, but for their places. -/
theorem placeFrom_respelled (hplain : ∀ lexeme ∈ lexemes, lexeme.sort ≠ .comment)
    (offset line offset' line' : Nat) (broken : Bool) :
    (placeFrom offset line broken (lexemes.map (Lexeme.respelled spell))).map
        Substitution.identity.token =
      (placeFrom offset' line' broken lexemes).map (Token.respelled spell) := by
  induction lexemes generalizing offset line offset' line' broken with
  | nil => rfl
  | cons lexeme rest ih =>
    rw [List.forall_mem_cons] at hplain
    have hsort : (lexeme.sort == .comment) = false := beq_eq_false_iff_ne.2 hplain.1
    rw [List.map_cons, placeFrom, placeFrom, List.map_cons, List.map_cons]
    refine congrArg₂ _ ?_ ?_
    · show Token.mk lexeme.sort (Substitution.identity.text lexeme.blanks)
        (Substitution.identity.text (spell lexeme.text)) 0 1 _ =
          Token.mk lexeme.sort lexeme.blanks (spell lexeme.text) 0 1 _
      rw [Substitution.identity_text, Substitution.identity_text]
      rfl
    · dsimp only [Lexeme.respelled]
      rw [hsort, Bool.false_and, Bool.false_and]
      exact ih hplain.2 _ _ _ _ _

/-- Do rules see the lexeme as before? -/
def Lexeme.KeepsSign (spell : Text → Text) (lexeme : Lexeme) : Prop :=
  ∀ token : Token, token.sort = lexeme.sort → token.text = lexeme.text →
    View.signOf (token.respelled spell) = View.signOf token

/-- The same is seen of the lexemes, wherever they stand. -/
theorem viewsFrom_respelled (hsign : ∀ lexeme ∈ lexemes, lexeme.KeepsSign spell)
    (hplain : ∀ lexeme ∈ lexemes, lexeme.sort ≠ .comment) (apart broken : Bool)
    (offset line offset' line' : Nat) :
    viewsFrom apart ((placeFrom offset line broken (lexemes.map (Lexeme.respelled spell))).map (Item.mk [])) =
      viewsFrom apart ((placeFrom offset' line' broken lexemes).map (Item.mk [])) := by
  induction lexemes generalizing apart broken offset line offset' line' with
  | nil => rfl
  | cons lexeme rest ih =>
    rw [List.forall_mem_cons] at hsign hplain
    have hsort : (lexeme.sort == .comment) = false := beq_eq_false_iff_ne.2 hplain.1
    rw [List.map_cons, placeFrom, placeFrom, List.map_cons, List.map_cons, viewsFrom, viewsFrom]
    dsimp only [Lexeme.respelled]
    rw [hsort, Bool.false_and, Bool.false_and]
    have hview : ∀ offset' line', View.ofToken apart ⟨lexeme.sort, lexeme.blanks, spell lexeme.text,
        offset + lexeme.blanks.length, line + lexeme.blanks.count '\n',
        broken || lexeme.blanks.any isLineBreak⟩ =
        View.ofToken apart ⟨lexeme.sort, lexeme.blanks, lexeme.text, offset', line',
          broken || lexeme.blanks.any isLineBreak⟩ := by
      intro offset' line'
      have := hsign.1 ⟨lexeme.sort, lexeme.blanks, lexeme.text, offset', line',
        broken || lexeme.blanks.any isLineBreak⟩ rfl rfl
      exact congrArg (View.mk lexeme.sort · _ _) this
    rw [hview]
    exact congrArg (_ :: ·) (ih hsign.2 hplain.2 _ _ _ _ _ _)

end

/-! ## One literal with other contents -/

namespace Substitution

/-- The literal that holds nothing but a hole. -/
def literal (hole : Char) : Text := ['\'', hole, '\'']

/-- The filled text; but the literal of the hole, and what is between its quotes, say something else. -/
def spelling (σ : Substitution) (hole : Char) (contents text : Text) : Text :=
  if text = literal hole then '\'' :: (contents ++ ['\''])
  else if text = [hole] then contents
  else σ.text text

variable (σ : Substitution) {hole : Char} {contents : Text}

theorem inner_literal (text : Text) : inner ('\'' :: (text ++ ['\''])) = text := by
  rw [inner, List.drop_one, List.tail_cons, List.dropLast_concat]

theorem spelling_literal : σ.spelling hole contents (literal hole) = '\'' :: (contents ++ ['\'']) := if_pos rfl

theorem spelling_hole : σ.spelling hole contents [hole] = contents := by
  rw [spelling, if_neg (by simp [literal]), if_pos rfl]

/-- Is the text neither the literal nor what is between its quotes? -/
def isApart (hole : Char) (text : Text) : Bool := text != literal hole && text != [hole]

theorem spelling_of_isApart {text : Text} (h : isApart hole text = true) :
    σ.spelling hole contents text = σ.text text := by
  rw [isApart, Bool.and_eq_true, bne_iff_ne, bne_iff_ne] at h
  rw [spelling, if_neg h.1, if_neg h.2]

theorem spelling_nil : σ.spelling hole contents [] = [] := spelling_of_isApart σ (by simp [isApart, literal])

theorem respelled_of_isApart {lexeme : Lexeme} (h : isApart hole lexeme.text = true) :
    lexeme.respelled (σ.spelling hole contents) = σ.lexeme lexeme := by
  rw [Lexeme.respelled, spelling_of_isApart σ h, Substitution.lexeme]

/-- Rules see nothing of what a literal says. -/
theorem keepsSign_spelling {lexeme : Lexeme} (hsteady : lexeme.isSteady = true)
    (h : lexeme.sort = .string ∨ isApart hole lexeme.text = true) :
    lexeme.KeepsSign (σ.spelling hole contents) := by
  intro token hsort htext
  rcases h with hstring | hapart
  · have hrespelled : (token.respelled (σ.spelling hole contents)).sort = .string := hsort.trans hstring
    rw [View.signOf, View.signOf, hrespelled, hsort.trans hstring]
  · have hfilled : (token.respelled (σ.spelling hole contents)).text = (σ.token token).text :=
      spelling_of_isApart σ (htext ▸ hapart)
    have hsame : View.signOf (token.respelled (σ.spelling hole contents)) = View.signOf (σ.token token) := by
      rw [View.signOf, View.signOf, hfilled]
      rfl
    rw [hsame]
    refine signOf_token σ ?_
    rw [Lexeme.isSteady, Bool.and_eq_true] at hsteady
    have hsign := hsteady.2
    rw [hsort, htext]
    split at hsign
    · exact hsign
    · exact hsign
    · trivial

/-! ### Trees from which it is kept apart -/

/-- Is the node the token of the literal? -/
def isLiteral (hole : Char) : Node → Bool
  | .mk label [] => label.text == literal hole && label.blanks.all isSpace
  | _ => false

/-- Is the literal kept apart from the node? If it is a name or a literal, it is this one, or there is
nothing of this one in it; and this one is none of its keys. -/
def keepsApart (hole : Char) (node : Node) : Bool :=
  (!node.kind.isName || isLiteral hole node ||
    (isApart hole node.text && isApart hole (inner node.text) &&
      node.preorder.all fun other => isFilled other.label.blanks && isApart hole other.label.text)) &&
  node.pairs.all fun pair => pair.1.all (isApart hole)

variable {σ}

theorem relabel_of_isApart {node : Node}
    (h : ∀ other ∈ node.preorder, isFilled other.label.blanks = true ∧ isApart hole other.label.text = true) :
    node.relabel (Label.respelled (σ.spelling hole contents)) = σ.node node := by
  rw [node_eq_relabel]
  refine Node.relabel_congr fun other hother => ?_
  obtain ⟨hblanks, hapart⟩ := h other hother
  rw [Label.respelled, spelling_of_isApart σ hapart, label, text_of_isFilled σ hblanks]

theorem exists_label_of_isLiteral {node : Node} (h : isLiteral hole node = true) :
    ∃ label, node = .mk label [] ∧ label.text = literal hole ∧ label.blanks.all isSpace = true := by
  unfold isLiteral at h
  split at h
  · next label =>
    rw [Bool.and_eq_true, beq_iff_eq] at h
    exact ⟨label, rfl, h⟩
  · cases h

theorem text_of_isLiteral {node : Node} (h : isLiteral hole node = true) : node.text = literal hole := by
  obtain ⟨label, rfl, htext, hblanks⟩ := exists_label_of_isLiteral h
  rw [Node.Lexical.text_token, Node.Lexical.dropWhile_blanks hblanks, htext]
  rfl

theorem text_relabel_of_isLiteral {node : Node} (h : isLiteral hole node = true) :
    (node.relabel (Label.respelled (σ.spelling hole contents))).text = '\'' :: (contents ++ ['\'']) := by
  obtain ⟨label, rfl, htext, hblanks⟩ := exists_label_of_isLiteral h
  rw [Node.relabel, Node.relabelEach, Node.Lexical.text_token, Label.respelled,
    Node.Lexical.dropWhile_blanks hblanks, htext, spelling_literal]
  rfl

/-- A name or a literal of the tree is the literal, or is kept apart from it. -/
theorem literal_or_apart {node : Node} (h : keepsApart hole node = true) (hname : node.kind.isName = true) :
    isLiteral hole node = true ∨
      (isApart hole node.text = true ∧ isApart hole (inner node.text) = true ∧
        ∀ other ∈ node.preorder, isFilled other.label.blanks = true ∧ isApart hole other.label.text = true) := by
  rw [keepsApart, hname, Bool.not_true, Bool.false_or, Bool.and_eq_true, Bool.or_eq_true, Bool.and_eq_true,
    Bool.and_eq_true, List.all_eq_true] at h
  refine h.1.imp_right fun hall => ⟨hall.1.1, hall.1.2, fun other hother => ?_⟩
  exact Bool.and_eq_true_iff.1 (hall.2 other hother)

/-- The questions about a tree from which the literal is kept apart are answered as after filling, and
the literal says its new contents. -/
theorem relabels_spelling {root : Node} (h : σ.Regular root)
    (hapart : ∀ node ∈ root.preorder, keepsApart hole node = true) :
    Relabels (Label.respelled (σ.spelling hole contents)) (σ.spelling hole contents) root where
  toFaithful := faithful_respelled
  text_eq node hnode hname := by
    rcases literal_or_apart (hapart node hnode) hname with hliteral | ⟨htext, -, hinside⟩
    · rw [text_relabel_of_isLiteral hliteral, text_of_isLiteral hliteral, spelling_literal]
    · rw [relabel_of_isApart hinside, text_node, spelling_of_isApart σ htext]
  inner_eq node hnode hkind := by
    rcases literal_or_apart (hapart node hnode) (by rw [hkind]; rfl) with hliteral | ⟨htext, hinner, -⟩
    · have hinside : inner (literal hole) = [hole] := inner_literal [hole]
      rw [text_of_isLiteral hliteral, spelling_literal, inner_literal, hinside, spelling_hole]
    · rw [spelling_of_isApart σ htext, spelling_of_isApart σ hinner,
        h.inner_text node hnode (.inl hkind)]
  key_eq node hnode pair hpair key hkey := by
    have hall := (Bool.and_eq_true_iff.1 (hapart node hnode)).2
    have hkeys := List.all_eq_true.1 hall pair hpair
    rw [Option.mem_def.1 hkey] at hkeys
    rw [spelling_of_isApart σ hkeys, h.text_key node hnode pair hpair key hkey]

end Substitution

end VerticalSlice.Syntax
