import VerticalSlice.Syntax.Build

/-!
# Building the same nodes from other tokens

A map of nodes that may be applied before or after a leaf is made, nodes are put into one and a role is
given (`Translates`) may be applied before or after building as a whole (`Translates.build_map`): steps
do not look at the tokens that they take.
-/

namespace VerticalSlice.Syntax

/-- The map of nodes goes with the map of tokens through everything that steps do. -/
structure Translates (φ : Node → Node) (τ : Token → Token) : Prop where
  kind_map : ∀ node : Node, (φ node).kind = node.kind
  map_leaf : ∀ (kind : Kind) (token : Token), φ (Node.leaf kind token) = Node.leaf kind (τ token)
  map_branch : ∀ (kind : Kind) (children : List Node),
    φ (Node.branch kind children) = Node.branch kind (children.map φ)
  map_withRole : ∀ (role : Role) (node : Node), φ (node.withRole role) = (φ node).withRole role

/-- The item with other tokens. -/
def Item.map (τ : Token → Token) (item : Item) : Item := ⟨item.comments.map τ, τ item.token⟩

/-- The place with other nodes. -/
def Site.map (φ : Node → Node) (site : Site) : Site := { site with nodes := site.nodes.map φ }

/-- The state of building with other nodes and tokens. -/
def Building.map (φ : Node → Node) (τ : Token → Token) (building : Building) : Building :=
  ⟨building.site.map φ, building.around.map (Site.map φ), building.items.map (Item.map τ)⟩

variable {φ : Node → Node} {τ : Token → Token}

theorem itemsFrom_map (hcomment : ∀ token, (τ token).isComment = token.isComment)
    (tokens waiting : List Token) :
    itemsFrom (waiting.map τ) (tokens.map τ) =
      ((itemsFrom waiting tokens).1.map (Item.map τ), (itemsFrom waiting tokens).2.map τ) := by
  induction tokens generalizing waiting with
  | nil => rfl
  | cons token rest ih =>
    rw [List.map_cons, itemsFrom, itemsFrom, hcomment]
    split
    · rw [← ih, List.map_append, List.map_singleton]
    · have hrest := ih []
      rw [List.map_nil] at hrest
      rw [hrest]
      rfl

/-- Tokens that are comments before and after give the corresponding items. -/
theorem items_map (hcomment : ∀ token, (τ token).isComment = token.isComment) (tokens : List Token) :
    items (tokens.map τ) = ((items tokens).1.map (Item.map τ), (items tokens).2.map τ) :=
  itemsFrom_map hcomment tokens []

namespace Translates

theorem isComment_map (h : Translates φ τ) (node : Node) : (φ node).isComment = node.isComment := by
  rw [Node.isComment, Node.isComment, h.kind_map]

theorem takeWhile_isComment_map (h : Translates φ τ) (nodes : List Node) :
    (nodes.map φ).takeWhile Node.isComment = (nodes.takeWhile Node.isComment).map φ := by
  rw [List.takeWhile_map]
  congr 2
  exact funext h.isComment_map

theorem dropWhile_isComment_map (h : Translates φ τ) (nodes : List Node) :
    (nodes.map φ).dropWhile Node.isComment = (nodes.dropWhile Node.isComment).map φ := by
  rw [List.dropWhile_map]
  congr 2
  exact funext h.isComment_map

theorem enclose_map (h : Translates φ τ) (kind : Kind) (nodes : List Node) :
    enclose kind (nodes.map φ) = (enclose kind nodes).map φ := by
  rw [enclose, h.takeWhile_isComment_map, h.dropWhile_isComment_map, ← h.map_branch, enclose,
    List.map_append, List.map_singleton]

theorem withFirstRole_map (h : Translates φ τ) (role : Role) (nodes : List Node) :
    withFirstRole role (nodes.map φ) = (withFirstRole role nodes).map φ := by
  rw [withFirstRole, h.takeWhile_isComment_map, h.dropWhile_isComment_map, withFirstRole,
    List.map_append]
  congr 1
  cases nodes.dropWhile Node.isComment with
  | nil => rfl
  | cons node rest =>
    show (φ node).withRole role :: rest.map φ = _
    rw [← h.map_withRole, List.map_cons]

theorem leaves_map (h : Translates φ τ) (kind : Kind) (item : Item) :
    (item.map τ).leaves kind = (item.leaves kind).map φ := by
  rw [Item.leaves, Item.leaves, List.map_append, List.map_singleton, h.map_leaf, List.map_map,
    Item.map, List.map_map]
  congr 2
  exact funext fun token => (h.map_leaf .comment token).symm

theorem result_map (h : Translates φ τ) (site : Site) : (site.map φ).result = site.result.map φ := by
  obtain ⟨kind, nodes⟩ := site
  cases kind with
  | none => rfl
  | some kind => exact h.enclose_map kind nodes

theorem addLeaf_map (h : Translates φ τ) (building : Building) (kind : Kind) :
    (building.map φ τ).addLeaf kind = (building.addLeaf kind).map φ τ := by
  obtain ⟨site, around, items⟩ := building
  cases items with
  | nil => rfl
  | cons item rest =>
    show Building.mk ⟨site.kind, site.nodes.map φ ++ (item.map τ).leaves kind⟩
      (around.map (Site.map φ)) (rest.map (Item.map τ)) = _
    rw [h.leaves_map, ← List.map_append]
    rfl

theorem step_map (h : Translates φ τ) (building : Building) (step : Step) :
    (building.map φ τ).step step = (building.step step).map φ τ := by
  cases step with
  | leaf kind => exact h.addLeaf_map building kind
  | bound kind => exact h.addLeaf_map building .mark
  | begin kind => rfl
  | finish =>
    obtain ⟨site, around, items⟩ := building
    cases around with
    | nil => rfl
    | cons outer around =>
      show Building.mk ⟨outer.kind, outer.nodes.map φ ++ (site.map φ).result⟩ _ _ = _
      rw [h.result_map, ← List.map_append]
      rfl
  | fold kind =>
    obtain ⟨site, around, items⟩ := building
    show Building.mk ⟨site.kind, enclose kind (site.nodes.map φ)⟩ _ _ = _
    rw [h.enclose_map]
    rfl
  | role role =>
    obtain ⟨site, around, items⟩ := building
    show Building.mk ⟨site.kind, withFirstRole role (site.nodes.map φ)⟩ _ _ = _
    rw [h.withFirstRole_map]
    rfl

theorem run_map (h : Translates φ τ) (steps : List Step) (building : Building) :
    (building.map φ τ).run steps = (building.run steps).map φ τ := by
  induction steps generalizing building with
  | nil => rfl
  | cons step rest ih =>
    rw [Building.run, List.foldl_cons, h.step_map, ← Building.run, ih, Building.run,
      Building.run, List.foldl_cons]

/-- From other tokens the same steps build the corresponding nodes. -/
theorem build_map (h : Translates φ τ) (steps : List Step) (items : List Item) :
    build steps (items.map (Item.map τ)) = (build steps items).map φ := by
  have hrun := h.run_map steps ⟨⟨none, []⟩, [], items⟩
  rw [build]
  show ((Building.map φ τ ⟨⟨none, []⟩, [], items⟩).run steps).site.nodes = _
  rw [hrun]
  rfl

end Translates

end VerticalSlice.Syntax
