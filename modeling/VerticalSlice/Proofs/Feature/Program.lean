import VerticalSlice.Proofs.Feature.Holes
import VerticalSlice.Proofs.Syntax.FilledQuery

/-!
# Programs with holes

What is written for a feature is a program whatever stands in the holes, if its outline is one and
keeps the holes out of the way of the lexer and of the questions that rules ask. `isProgramWith` finds
that out and asks something of the tree of the outline besides; `exists_of_isProgramWith` then gives
the tree of what is written, which is the filled tree of the outline but for the places of its nodes.
-/

namespace VerticalSlice

open Syntax

/-! ## Regular trees -/

namespace Syntax

/-- Has the text two ends, and are these no holes? -/
def isQuoted : Text → Bool
  | first :: rest => !isHole first && rest.getLast?.any fun last => !isHole last
  | [] => false

/-- Are the quotes of the node, if it is a literal, and its keys, if it is an object, no holes? -/
def Node.isClear (node : Node) : Bool :=
  (node.kind ≠ .string && node.kind ≠ .templateString || isQuoted node.text) &&
    node.pairs.all fun pair => pair.1.all isFilled

/-- Are the quotes of all literals and the keys of all objects in the tree no holes? -/
def Node.isRegular (root : Node) : Bool := root.preorder.all isClear

namespace Substitution

variable (σ : Substitution)

theorem inner_text {text : Text} (h : isQuoted text = true) :
    inner (σ.text text) = σ.text (inner text) := by
  cases text with
  | nil => cases h
  | cons first rest =>
    rw [isQuoted, Bool.and_eq_true, Bool.not_eq_true', Option.any_eq_true] at h
    obtain ⟨hfirst, last, hlast, hnot⟩ := h
    rw [Bool.not_eq_true'] at hnot
    have hrest : rest = rest.dropLast ++ [last] := by
      rw [List.getLast?_eq_some_iff] at hlast
      obtain ⟨front, rfl⟩ := hlast
      rw [List.dropLast_concat]
    rw [text_cons_of_not_hole σ hfirst, inner, inner, List.drop_one, List.tail_cons, List.drop_one,
      List.tail_cons]
    conv => lhs; rw [hrest, text_append, text_cons_of_not_hole σ hnot, text_nil,
      List.dropLast_concat]

theorem regular_of_isRegular {root : Node} (h : root.isRegular = true) : σ.Regular root where
  inner_text node hnode hkind := by
    have hclear := List.all_eq_true.1 h node hnode
    rw [Node.isClear, Bool.and_eq_true, Bool.or_eq_true] at hclear
    rcases hclear.1 with hnot | hquoted
    · rcases hkind with hkind | hkind <;> simp [hkind] at hnot
    · exact inner_text σ hquoted
  text_key node hnode pair hpair key hkey := by
    have hclear := List.all_eq_true.1 h node hnode
    rw [Node.isClear, Bool.and_eq_true] at hclear
    have hfilled := List.all_eq_true.1 hclear.2 pair hpair
    rw [Option.mem_def.1 hkey] at hfilled
    exact text_of_isFilled σ hfilled

end Substitution

end Syntax

/-! ## Programs -/

namespace Feature

/-- The lexemes of a text, with as many steps as it has characters. -/
def lexemesOf (text : Text) : List Lexeme := lexemesWithin false (text.length + 1) .start text

theorem lexemesOf_eq (text : Text) : lexemesOf text = lexemes false text :=
  lexemesWithin_eq (Nat.lt_succ_self _)

/-- Are the pieces a program whose outline has a tree with the property, whatever stands in the
holes? -/
def isProgramWith (accept : Node → Bool) (pieces : List Piece) : Bool :=
  let text := outline pieces
  let found := lexemesOf text
  isPlain pieces && tameWithin text.length .start text && found.all Lexeme.isSteady &&
    (programNodes? false (place found)).any fun nodes =>
      let root := Node.branch .program nodes
      root.isRegular && accept root

/-- The tree of what is written is the filled tree of the outline, but for the places of nodes. -/
structure IsTreeOf (σ : Substitution) (filled raw : Node) : Prop where
  regular : σ.Regular raw
  node_eq : Substitution.identity.node filled = σ.node raw

theorem exists_of_isProgramWith {accept : Node → Bool} {pieces : List Piece}
    (h : isProgramWith accept pieces = true) {name : FeatureName} {route : Text}
    (hname : name.IsSpelling) (hroute : IsRoute route) :
    ∃ raw filled, accept raw = true ∧ IsTreeOf (filling name route hname hroute) filled raw ∧
      SyntaxTree.ofText (fill (holeValues name route) pieces) ".ts" = ⟨filled, true⟩ := by
  rw [isProgramWith] at h
  dsimp only at h
  rw [Bool.and_eq_true, Bool.and_eq_true, Bool.and_eq_true, lexemesOf_eq] at h
  obtain ⟨⟨⟨hplain, htame⟩, hsteady⟩, hprogram⟩ := h
  obtain ⟨nodes, hnodes, hroot⟩ := (Option.any_eq_true _ _).1 hprogram
  rw [Bool.and_eq_true] at hroot
  let σ := filling name route hname hroute
  obtain ⟨filled, hfilled, heq⟩ := Substitution.programNodes?_text σ htame hsteady hnodes
  refine ⟨Node.branch .program nodes, Node.branch .program filled, hroot.2,
    ⟨Substitution.regular_of_isRegular σ hroot.1, ?_⟩, ?_⟩
  · rw [Substitution.node_branch, Substitution.node_branch, heq]
  · have hmarkup : SyntaxTree.hasMarkup ".ts" = false := by decide
    rw [fill_eq_text hname hroute hplain, SyntaxTree.ofText, hmarkup, SyntaxTree.ofTokens, SyntaxTree.tokens, hfilled]

end Feature

end VerticalSlice
