import VerticalSlice.Proofs.Syntax.Concatenation
import VerticalSlice.Proofs.Syntax.Relabeling
import VerticalSlice.Proofs.Syntax.Translation

/-!
# Moving what stands behind a place

When something is put into a text, what stands behind it moves on by some characters and lines, and the
token next to it may get other blanks. A `Move` says so of tokens and of nodes. Building does not ask where
tokens are, so the nodes of moved tokens are the moved nodes (`Move.translates`).
-/

namespace VerticalSlice.Syntax

/-- Nothing in front of `start` moves, and what is behind goes on by `chars` characters and by `lines`
lines. The token at `start` has these blanks in front of it afterwards. -/
structure Move where
  start : Nat
  chars : Nat
  lines : Nat
  blanks : Text

namespace Move

variable (move : Move)

/-- Is this the token at the place? An empty comment at the end of a text may begin there as well. -/
def isAt (offset : Nat) (text : Text) : Bool := offset == move.start && !text.isEmpty

/-- The label of a moved node. -/
def label (label : Label) : Label :=
  if label.offset < move.start then label
  else
    { label with
      offset := label.offset + move.chars
      line := label.line + move.lines
      blanks := if move.isAt label.offset label.text then move.blanks else label.blanks }

/-- The moved token. -/
def token (token : Token) : Token :=
  if token.offset < move.start then token
  else
    { token with
      offset := token.offset + move.chars
      line := token.line + move.lines
      blanks := if move.isAt token.offset token.text then move.blanks else token.blanks
      afterBreak :=
        if move.isAt token.offset token.text then move.blanks.any isLineBreak else token.afterBreak }

/-- The moved tree. -/
def node (node : Node) : Node := node.relabel move.label

@[simp] theorem kind_label (label : Label) : (move.label label).kind = label.kind := by
  rw [Move.label]
  split <;> rfl

@[simp] theorem text_label (label : Label) : (move.label label).text = label.text := by
  rw [Move.label]
  split <;> rfl

/-- Where there is no token the blanks do not change. -/
theorem blanks_label {label : Label} (h : label.text = []) :
    (move.label label).blanks = label.blanks := by
  rw [Move.label, isAt, h, List.isEmpty_nil, Bool.not_true, Bool.and_false, if_neg Bool.false_ne_true]
  split <;> rfl

theorem all_isSpace_label (hmove : move.blanks.all isSpace = true) {label : Label}
    (h : label.blanks.all isSpace = true) : (move.label label).blanks.all isSpace = true := by
  rw [Move.label]
  split
  · exact h
  · dsimp only
    split
    · exact hmove
    · exact h

@[simp] theorem kind_node (node : Node) : (move.node node).kind = node.kind := by
  rw [Node.kind, Move.node, Node.label_relabel, kind_label]
  rfl

theorem offset_node (node : Node) :
    (move.node node).offset =
      if node.offset < move.start then node.offset else node.offset + move.chars := by
  rw [Node.offset, Move.node, Node.label_relabel, Move.label, Node.offset]
  split <;> rfl

theorem node_leaf (kind : Kind) (token : Token) :
    move.node (Node.leaf kind token) = Node.leaf kind (move.token token) := by
  rw [Move.node, Node.leaf, Node.relabel, Node.relabelEach, Move.label, Move.token]
  split <;> rfl

theorem node_branch (h : 0 < move.start) (kind : Kind) (children : List Node) :
    move.node (Node.branch kind children) = Node.branch kind (children.map move.node) := by
  rw [Move.node, Node.branch, Node.relabel, Node.relabelEach_eq_map, Node.branch]
  cases children with
  | nil =>
    have hempty : move.label ⟨kind, none, 0, 1, [], []⟩ = ⟨kind, none, 0, 1, [], []⟩ := if_pos h
    exact congrArg (Node.mk · []) hempty
  | cons child rest =>
    simp only [List.map_cons, List.head?_cons, Option.map_some, Option.getD_some]
    have hlabel : (move.node child).label = move.label child.label := Node.label_relabel _ child
    rw [hlabel, Move.label, Move.label]
    dsimp only
    split
    · rfl
    · rw [isAt, List.isEmpty_nil, Bool.not_true, Bool.and_false, if_neg Bool.false_ne_true]
      rfl

theorem node_withRole (role : Role) (node : Node) :
    move.node (node.withRole role) = (move.node node).withRole role := by
  cases node
  rw [Node.withRole, Move.node, Node.relabel, Move.node, Node.relabel, Node.withRole, Move.label,
    Move.label]
  split <;> rfl

theorem translates (h : 0 < move.start) : Translates move.node move.token where
  kind_map := kind_node move
  map_leaf := node_leaf move
  map_branch := node_branch move h
  map_withRole := node_withRole move

/-! ## Placing -/

theorem token_of_lt {token : Token} (h : token.offset < move.start) : move.token token = token :=
  if_pos h

/-- Tokens in front of the place do not move. -/
theorem map_placeFrom_front {lexemes : List Lexeme} (hne : ∀ lexeme ∈ lexemes, lexeme.text ≠ [])
    {offset : Nat} (h : offset + (spelled lexemes).length ≤ move.start) (line : Nat) (broken : Bool) :
    (placeFrom offset line broken lexemes).map move.token = placeFrom offset line broken lexemes := by
  induction lexemes generalizing offset line broken with
  | nil => rfl
  | cons lexeme rest ih =>
    have hpos := List.length_pos_iff.2 (hne lexeme (List.mem_cons_self ..))
    rw [spelled_cons, List.length_append, List.length_append] at h
    rw [placeFrom, List.map_cons, token_of_lt move (by dsimp only; omega),
      ih (fun other hother => hne other (List.mem_cons_of_mem _ hother)) (by omega)]

/-- Tokens behind the place move. -/
theorem map_placeFrom_behind {offset : Nat} (h : move.start < offset) (line : Nat) (broken : Bool)
    (lexemes : List Lexeme) :
    (placeFrom offset line broken lexemes).map move.token =
      placeFrom (offset + move.chars) (line + move.lines) broken lexemes := by
  induction lexemes generalizing offset line broken with
  | nil => rfl
  | cons lexeme rest ih =>
    have hoffset : ∀ length, offset + length + move.chars = offset + move.chars + length := by
      intro length
      omega
    have hline : ∀ count, line + count + move.lines = line + move.lines + count := by
      intro count
      omega
    have hat : move.isAt (offset + lexeme.blanks.length) lexeme.text = false := by
      rw [isAt, beq_eq_false_iff_ne.2 (by omega), Bool.false_and]
    rw [placeFrom, placeFrom, List.map_cons, ih (by omega), Move.token]
    dsimp only
    rw [if_neg (by omega), hat, if_neg Bool.false_ne_true, if_neg Bool.false_ne_true, hoffset, hline,
      Nat.add_assoc _ (lexeme.blanks.length) lexeme.text.length, hoffset, ← Nat.add_assoc,
      Nat.add_assoc _ (lexeme.blanks.count '\n') (lexeme.text.count '\n'), hline, ← Nat.add_assoc]

/-- The token at the place moves with all that is behind it, and has other blanks then. -/
theorem map_placeFrom_at {lexeme : Lexeme} (hne : lexeme.text ≠ []) (hsort : lexeme.sort ≠ .comment)
    {offset offset' line line' : Nat} (hstart : offset + lexeme.blanks.length = move.start)
    (hoffset : offset' + move.blanks.length = move.start + move.chars)
    (hline : line' + move.blanks.count '\n' = line + lexeme.blanks.count '\n' + move.lines)
    (broken : Bool) (rest : List Lexeme) :
    (placeFrom offset line broken (lexeme :: rest)).map move.token =
      placeFrom offset' line' false ({ lexeme with blanks := move.blanks } :: rest) := by
  have hpos := List.length_pos_iff.2 hne
  have hat : move.isAt move.start lexeme.text = true := by
    rw [isAt, beq_self_eq_true, Bool.true_and, Bool.not_eq_true', List.isEmpty_eq_false_iff]
    exact hne
  rw [placeFrom, placeFrom, List.map_cons, map_placeFrom_behind move (by omega), Move.token]
  dsimp only
  rw [hstart, hoffset, hline, if_neg (Nat.lt_irrefl _), hat, if_pos rfl, if_pos rfl,
    beq_eq_false_iff_ne.2 hsort, Bool.false_and, Bool.false_and, Bool.false_or,
    Nat.add_right_comm move.start, Nat.add_right_comm _ (lexeme.text.count '\n')]

end Move

end VerticalSlice.Syntax
