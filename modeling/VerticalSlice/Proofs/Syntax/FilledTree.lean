import VerticalSlice.Proofs.Syntax.FilledLexemes
import VerticalSlice.Proofs.Syntax.Translation
import VerticalSlice.Syntax.Tree

/-!
# The tree of a filled text

The tree of a filled text is the filled tree, but for the places of its nodes
(`programNodes?_text`). Rules see the same views, so they take the same steps, and steps build the
same nodes whatever the tokens are called.

The substitution that fills no hole only forgets the places: two trees that it makes equal differ in
their places alone.
-/

namespace VerticalSlice.Syntax

/-- The substitution that leaves all holes as they are. -/
def Substitution.identity : Substitution where
  image c := [c]
  image_of_not_hole _ _ := rfl
  image_ne_nil c := List.cons_ne_nil c []
  isHarmless_of_mem c h d hd := by
    rw [List.mem_singleton] at hd
    rw [hd]
    exact Substitution.isHarmless_of_isHole h
  isNameChar_of_mem c h d hd := by
    rw [List.mem_singleton] at hd
    rw [hd]
    exact isNameChar_of_isHole (isHole_of_isNameHole h)
  isCapital_head c h d hd := by
    rw [← Option.some.inj hd, isCapital, isHole_of_isNameHole h, Bool.or_true]

@[simp] theorem Substitution.identity_text (text : Text) : identity.text text = text :=
  List.flatMap_singleton' text

namespace Substitution

variable (σ : Substitution)

/-! ## Filled tokens and nodes -/

/-- The filled token, without its place. -/
def token (token : Token) : Token :=
  { token with blanks := σ.text token.blanks, text := σ.text token.text, offset := 0, line := 1 }

/-- The filled token with the filled comments in front of it. -/
def item (item : Item) : Item := ⟨item.comments.map σ.token, σ.token item.token⟩

/-- The filled label, without its place. -/
def label (label : Label) : Label :=
  { label with blanks := σ.text label.blanks, text := σ.text label.text, offset := 0, line := 1 }

mutual

/-- The filled tree, without places. -/
def node : Node → Node
  | .mk label children => .mk (σ.label label) (nodeEach children)

def nodeEach : List Node → List Node
  | [] => []
  | child :: rest => node child :: nodeEach rest

end

theorem nodeEach_eq_map (nodes : List Node) : σ.nodeEach nodes = nodes.map σ.node := by
  induction nodes with
  | nil => rfl
  | cons node rest ih => rw [nodeEach, ih, List.map_cons]

@[simp] theorem label_node (node : Node) : (σ.node node).label = σ.label node.label := by
  cases node
  rw [Substitution.node]
  rfl

@[simp] theorem children_node (node : Node) :
    (σ.node node).children = node.children.map σ.node := by
  cases node
  rw [Substitution.node, nodeEach_eq_map]
  rfl

@[simp] theorem kind_node (node : Node) : (σ.node node).kind = node.kind := by
  rw [Node.kind, label_node]
  rfl

@[simp] theorem role_node (node : Node) : (σ.node node).role = node.role := by
  rw [Node.role, label_node]
  rfl

theorem node_leaf (kind : Kind) (token : Token) :
    σ.node (Node.leaf kind token) = Node.leaf kind (σ.token token) := by
  rw [Node.leaf, node, nodeEach]
  rfl

theorem node_branch (kind : Kind) (children : List Node) :
    σ.node (Node.branch kind children) = Node.branch kind (children.map σ.node) := by
  rw [Node.branch, node, nodeEach_eq_map, Node.branch]
  cases children with
  | nil => rfl
  | cons child rest =>
    simp only [List.map_cons, List.head?_cons, Option.map_some, label_node]
    rfl

theorem node_withRole (role : Role) (node : Node) :
    σ.node (node.withRole role) = (σ.node node).withRole role := by
  cases node
  rw [Node.withRole, Substitution.node, Substitution.node, Node.withRole]
  rfl

theorem translates : Translates σ.node σ.token where
  kind_map := kind_node σ
  map_leaf := node_leaf σ
  map_branch := node_branch σ
  map_withRole := node_withRole σ

/-- From filled tokens the same steps build the filled nodes. -/
theorem build_map (steps : List Step) (items : List Item) :
    build steps (items.map σ.item) = (build steps items).map σ.node :=
  (translates σ).build_map steps items

/-! ## Views -/

/-- Does filling leave open neither what the rules see of the token nor what stands before it? -/
def Steady (token : Token) : Prop :=
  View.signOf (σ.token token) = View.signOf token ∧ σ.text token.blanks = token.blanks

theorem viewsFrom_map {items : List Item} (h : ∀ item ∈ items, σ.Steady item.token) (apart : Bool) :
    viewsFrom apart (items.map σ.item) = viewsFrom apart items := by
  induction items generalizing apart with
  | nil => rfl
  | cons item rest ih =>
    have hview : View.ofToken apart (σ.token item.token) = View.ofToken apart item.token := by
      obtain ⟨hsign, hblanks⟩ := h item (List.mem_cons_self ..)
      rw [View.ofToken, hsign]
      show View.mk item.token.sort _ _ ((σ.text item.token.blanks).isEmpty && !apart) = _
      rw [hblanks]
      rfl
    rw [List.map_cons, viewsFrom, viewsFrom]
    show View.ofToken apart (σ.token item.token) ::
      viewsFrom (View.ofToken apart (σ.token item.token)).beginsItem (rest.map σ.item) = _
    rw [hview, ih fun item hmem => h item (List.mem_cons_of_mem _ hmem)]

theorem views_map {items : List Item} (h : ∀ item ∈ items, σ.Steady item.token) :
    views (items.map σ.item) = views items :=
  viewsFrom_map σ h false

theorem items_map (tokens : List Token) :
    items (tokens.map σ.token) =
      ((items tokens).1.map σ.item, (items tokens).2.map σ.token) :=
  @Syntax.items_map σ.token (fun _ => rfl) tokens

theorem mem_of_mem_itemsFrom {tokens waiting : List Token} {item : Item}
    (h : item ∈ (itemsFrom waiting tokens).1) : item.token ∈ tokens := by
  induction tokens generalizing waiting with
  | nil => cases h
  | cons token rest ih =>
    rw [itemsFrom] at h
    split at h
    · exact List.mem_cons_of_mem _ (ih h)
    · rcases List.mem_cons.1 h with rfl | h
      · exact List.mem_cons_self ..
      · exact List.mem_cons_of_mem _ (ih h)

/-- The program of filled tokens is the filled program. -/
theorem programNodes?_map {markup : Bool} {tokens : List Token} (h : ∀ t ∈ tokens, σ.Steady t) :
    programNodes? markup (tokens.map σ.token) =
      (programNodes? markup tokens).map (·.map σ.node) := by
  have hviews : views ((items tokens).1.map σ.item) = views (items tokens).1 :=
    views_map σ fun item hitem => h item.token (mem_of_mem_itemsFrom hitem)
  unfold programNodes?
  rw [items_map]
  dsimp only
  rw [hviews, Option.map_map]
  congr 1
  funext steps
  show build steps ((items tokens).1.map σ.item) ++ _ = _
  rw [build_map, List.map_map]
  show _ = List.map σ.node (build steps (items tokens).1 ++ _)
  rw [List.map_append, List.map_map]
  rfl

/-! ## Placing -/

theorem any_isLineBreak_text (text : Text) :
    (σ.text text).any isLineBreak = text.any isLineBreak := by
  have hspace : ∀ c, isLineBreak c = true → isSpace c = true := by
    intro c h
    simp only [isLineBreak, Bool.or_eq_true, beq_iff_eq] at h
    rcases h with (rfl | rfl) | rfl <;> decide
  have hnot : ∀ c, isSpace c = false → isLineBreak c = false := by
    intro c h
    cases hc : isLineBreak c with
    | false => rfl
    | true => rw [hspace c hc] at h; cases h
  induction text with
  | nil => rfl
  | cons c rest ih =>
    rw [text_cons, List.any_append, ih, List.any_cons]
    congr 1
    cases hole : isHole c with
    | false => rw [σ.image_of_not_hole c hole, List.any_cons, List.any_nil, Bool.or_false]
    | true =>
      rw [hnot c (isSpace_eq_false_of_isHole hole), List.any_eq_false]
      intro d hd
      rw [hnot d (isHarmless_iff.1 (σ.isHarmless_of_mem c hole d hd)).1]
      exact Bool.false_ne_true

theorem signOf_token {token : Token}
    (h : match token.sort with
      | .mark => isFilled token.text = true
      | .word => isSettled token.text = true
      | _ => True) :
    View.signOf (σ.token token) = View.signOf token := by
  have hsame : (σ.token token).sort = token.sort := rfl
  have htext : (σ.token token).text = σ.text token.text := rfl
  rw [View.signOf, View.signOf, hsame, htext]
  cases hsort : token.sort with
  | mark =>
    rw [hsort] at h
    exact text_of_isFilled σ h
  | word =>
    rw [hsort] at h
    dsimp only at h ⊢
    rw [contains_text σ h (by decide +kernel)]
    split
    · next hknown =>
      have hall : ∀ word ∈ knownWords, isFilled word = true := by decide +kernel
      exact text_of_isFilled σ (hall _ (by simpa using hknown))
    · rfl
  | _ => rfl

end Substitution

/-- Is the lexeme seen the same way when it is filled? -/
def Lexeme.isSteady (lexeme : Lexeme) : Bool :=
  isFilled lexeme.blanks &&
    match lexeme.sort with
    | .mark => isFilled lexeme.text
    | .word => isSettled lexeme.text
    | _ => true

namespace Substitution

variable (σ : Substitution)

theorem steady_of_mem_placeFrom {lexemes : List Lexeme}
    (h : lexemes.all Lexeme.isSteady = true) {offset line : Nat} {broken : Bool} {token : Token}
    (htoken : token ∈ placeFrom offset line broken lexemes) : σ.Steady token := by
  induction lexemes generalizing offset line broken with
  | nil => cases htoken
  | cons lexeme rest ih =>
    rw [List.all_cons, Bool.and_eq_true] at h
    rw [placeFrom] at htoken
    rcases List.mem_cons.1 htoken with rfl | htoken
    · have hlexeme := h.1
      rw [Lexeme.isSteady, Bool.and_eq_true] at hlexeme
      refine ⟨signOf_token σ ?_, text_of_isFilled σ hlexeme.1⟩
      have hsort := hlexeme.2
      dsimp only
      split at hsort
      · exact hsort
      · exact hsort
      · trivial
    · exact ih h.2 htoken

/-- The tokens of the filled text and those of the text with holes, both without their places. -/
theorem placeFrom_text {lexemes : List Lexeme} (h : lexemes.all Lexeme.isSteady = true)
    (offset line offset' line' : Nat) (broken : Bool) :
    (placeFrom offset line broken (lexemes.map σ.lexeme)).map identity.token =
      (placeFrom offset' line' broken lexemes).map σ.token := by
  induction lexemes generalizing offset line offset' line' broken with
  | nil => rfl
  | cons lexeme rest ih =>
    rw [List.all_cons, Bool.and_eq_true] at h
    have hblanks : σ.text lexeme.blanks = lexeme.blanks := by
      have hlexeme := h.1
      rw [Lexeme.isSteady, Bool.and_eq_true] at hlexeme
      exact text_of_isFilled σ hlexeme.1
    have hbreak := any_isLineBreak_text σ lexeme.text
    rw [List.map_cons, placeFrom, placeFrom, List.map_cons, List.map_cons]
    refine congrArg₂ _ ?_ ?_
    · show Token.mk lexeme.sort (identity.text lexeme.blanks) (identity.text (σ.text lexeme.text))
        0 1 _ = Token.mk lexeme.sort (σ.text lexeme.blanks) (σ.text lexeme.text) 0 1 _
      rw [identity_text, identity_text, hblanks]
      rfl
    · have hnext : (lexeme.sort == TokenClass.comment &&
          ((broken || lexeme.blanks.any isLineBreak) || (σ.text lexeme.text).any isLineBreak)) =
          (lexeme.sort == TokenClass.comment &&
            ((broken || lexeme.blanks.any isLineBreak) || lexeme.text.any isLineBreak)) := by
        rw [hbreak]
      rw [← hnext]
      exact ih h.2 _ _ _ _ _

theorem steady_identity (token : Token) : identity.Steady token := by
  have hsort : (identity.token token).sort = token.sort := rfl
  have htext : (identity.token token).text = token.text := identity_text _
  exact ⟨by rw [View.signOf, View.signOf, hsort, htext], identity_text _⟩

/-- A filled text is a program if the text with holes is one, and its tree is the filled tree, but for
the places of the nodes. -/
theorem programNodes?_text {count : Nat} {text : Text} {nodes : List Node}
    (htame : tameWithin count .start text = true)
    (hsteady : (lexemes false text).all Lexeme.isSteady = true)
    (h : programNodes? false (place (lexemes false text)) = some nodes) :
    ∃ filled, programNodes? false (place (lexemes false (σ.text text))) = some filled ∧
      filled.map identity.node = nodes.map σ.node := by
  have hlexemes : lexemes false (σ.text text) = (lexemes false text).map σ.lexeme :=
    lexemesFrom_text σ htame
  have hfilled : programNodes? false ((place (lexemes false text)).map σ.token) =
      (programNodes? false (place (lexemes false text))).map (·.map σ.node) :=
    programNodes?_map σ fun _ => steady_of_mem_placeFrom σ hsteady
  have hplaces : programNodes? false ((place (lexemes false (σ.text text))).map identity.token) =
      (programNodes? false (place (lexemes false (σ.text text)))).map (·.map identity.node) :=
    programNodes?_map identity fun token _ => steady_identity token
  have htokens : (place (lexemes false (σ.text text))).map identity.token =
      (place (lexemes false text)).map σ.token := by
    rw [hlexemes]
    exact placeFrom_text σ hsteady _ _ _ _ _
  rw [htokens, hfilled, h, Option.map_some] at hplaces
  cases hprogram : programNodes? false (place (lexemes false (σ.text text))) with
  | none => rw [hprogram] at hplaces; cases hplaces
  | some filled =>
    rw [hprogram, Option.map_some, Option.some.injEq] at hplaces
    exact ⟨filled, rfl, hplaces.symm⟩

end Substitution

end VerticalSlice.Syntax
