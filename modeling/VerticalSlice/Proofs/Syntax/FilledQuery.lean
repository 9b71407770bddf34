import VerticalSlice.Proofs.Syntax.FilledTree
import VerticalSlice.Proofs.Syntax.Relabeling

/-!
# Questions about a filled tree

The answers to questions about a filled tree are the filled answers. That takes two things that
`Regular` asks for: the quotes of a literal are no holes, and neither are the keys of objects, which
questions compare with names of their own. The substitution that fills no hole answers every question
the way it is answered without it, so no answer but a line depends on the places of nodes.
-/

namespace VerticalSlice.Syntax

namespace Substitution

variable (σ : Substitution)

/-- The quotes of literals and the keys of objects are no holes. -/
structure Regular (root : Node) : Prop where
  inner_text : ∀ node ∈ root.preorder, node.kind = .string ∨ node.kind = .templateString →
    inner (σ.text node.text) = σ.text (inner node.text)
  text_key : ∀ node ∈ root.preorder, ∀ pair ∈ node.pairs, ∀ key ∈ pair.1, σ.text key = key

theorem regular_identity (root : Node) : identity.Regular root where
  inner_text _ _ _ := by rw [identity_text, identity_text]
  text_key _ _ _ _ _ _ := identity_text _

variable {σ} in
theorem Regular.of_mem {root node : Node} (h : σ.Regular root) (hnode : node ∈ root.preorder) :
    σ.Regular node where
  inner_text other hother := h.inner_text other (Node.mem_preorder_trans hother hnode)
  text_key other hother := h.text_key other (Node.mem_preorder_trans hother hnode)

variable {σ} in
theorem Regular.of_mem_children {node child : Node} (h : σ.Regular node)
    (hchild : child ∈ node.children) : σ.Regular child :=
  h.of_mem (Node.mem_preorder_of_mem_children hchild (Node.self_mem_preorder node))

/-! ## Filling as an exchange of labels -/

mutual

theorem node_eq_relabel : ∀ node : Node, σ.node node = node.relabel σ.label
  | .mk label children => by
    rw [Substitution.node, Node.relabel, nodeEach_eq_relabelEach children]

theorem nodeEach_eq_relabelEach : ∀ nodes : List Node,
    σ.nodeEach nodes = Node.relabelEach σ.label nodes
  | [] => rfl
  | node :: rest => by
    rw [nodeEach, Node.relabelEach, node_eq_relabel node, nodeEach_eq_relabelEach rest]

end

theorem node_eq : σ.node = Node.relabel σ.label := funext σ.node_eq_relabel

theorem faithful : Faithful σ.label where
  kind_eq _ := rfl
  role_eq _ := rfl

theorem walk_node (node : Node) : (σ.node node).walk = node.walk.map σ.node := by
  rw [node_eq, Node.walk_relabel]

theorem source_node (node : Node) : (σ.node node).source = σ.text node.source := by
  rw [Node.source, Node.source, walk_node, text, List.flatMap_map, List.flatMap_assoc]
  congr 1
  funext other
  rw [label_node, ← text, text_append]
  rfl

theorem dropWhile_text {p : Char → Bool} (hp : σ.Passes p) (text : Text) :
    (σ.text text).dropWhile p = σ.text (text.dropWhile p) := by
  have hdrop := drop_text σ text (text.takeWhile p).length
  rw [take_length_takeWhile, ← takeWhile_text σ hp] at hdrop
  have htake : ∀ text : Text, text.drop (text.takeWhile p).length = text.dropWhile p := by
    intro text
    have := List.takeWhile_append_dropWhile (p := p) (l := text)
    conv => lhs; rw [← this, List.drop_left' (by rw [this])]
  rw [← htake, hdrop, htake]

theorem text_node (node : Node) : (σ.node node).text = σ.text node.text := by
  rw [Node.text, source_node, dropWhile_text σ (passes_isSpace σ), Node.text]

variable {σ} in
theorem renames (root : Node) : Renames σ.label σ.text root where
  toFaithful := σ.faithful
  text_eq node _ _ := by rw [← node_eq_relabel, text_node]

variable {σ} in
theorem Regular.relabels {root : Node} (h : σ.Regular root) : Relabels σ.label σ.text root where
  toRenames := renames root
  inner_eq node hnode hkind := h.inner_text node hnode (.inl hkind)
  key_eq := h.text_key

theorem elements_node (node : Node) : (σ.node node).elements = node.elements.map σ.node := by
  rw [node_eq, σ.faithful.elements_relabel]

/-! ## Names and literals -/

theorem containsIdentifier_node (root : Node) (name : Text) :
    (σ.node root).containsIdentifier name =
      root.preorder.any fun node => node.isIdentifier && σ.text node.text = name := by
  rw [Node.containsIdentifier, Node.find?, walk_node, List.isSome_find?, List.any_map,
    Node.walk_eq_preorder]
  congr 1
  funext node
  rw [Function.comp_apply, text_node, node_eq, σ.faithful.isIdentifier_relabel]

variable {σ} in
theorem Regular.literal? {node : Node} (h : σ.Regular node) :
    (σ.node node).literal? = node.literal?.map σ.text := by
  rw [Node.literal?, Node.literal?, kind_node, text_node]
  split
  · next hkind =>
    rw [Option.map_some, h.inner_text node (Node.self_mem_preorder node) (by simpa using hkind)]
  · rfl

@[simp] theorem line_node (node : Node) : (σ.node node).line = 1 := by
  rw [Node.line, label_node]
  rfl

variable {σ} in
theorem Regular.literals {root : Node} (h : σ.Regular root) :
    (σ.node root).literals = root.literals.map fun literal => (σ.text literal.1, 1) := by
  rw [Node.literals, Node.literals, walk_node, List.filterMap_map, Node.walk_eq_preorder,
    List.map_filterMap]
  refine List.filterMap_congr fun node hnode => ?_
  rw [Function.comp_apply, (h.of_mem hnode).literal?, line_node, Option.map_map, Option.map_map]
  rfl

/-! ## Properties of objects -/

variable {σ} in
theorem Regular.hasProperty {object : Node} (h : σ.Regular object) (name : Text) :
    (σ.node object).hasProperty name = object.hasProperty name := by
  rw [node_eq, h.relabels.hasProperty]

variable {σ} in
theorem Regular.property? {object : Node} (h : σ.Regular object) (name : Text) :
    (σ.node object).property? name = (object.property? name).map σ.node := by
  rw [node_eq, h.relabels.property?]

variable {σ} in
theorem Regular.propertyString? {object : Node} (h : σ.Regular object) (name : Text) :
    (σ.node object).propertyString? name = (object.propertyString? name).map σ.text := by
  rw [node_eq, h.relabels.propertyString?]

/-! ## Imports -/

variable {σ} in
theorem Regular.deferredImports {root : Node} (h : σ.Regular root) :
    (σ.node root).deferredImports = root.deferredImports.map σ.text := by
  rw [node_eq, h.relabels.deferredImports]

/-- The reference with its specifier filled, without its line. -/
def reference (reference : ImportReference) : ImportReference :=
  ⟨σ.text reference.specifier, 1, reference.kind⟩

variable {σ} in
theorem Regular.importReference? {node : Node} (h : σ.Regular node) (includeDeferred : Bool) :
    (σ.node node).importReference? includeDeferred =
      (node.importReference? includeDeferred).map σ.reference := by
  have hsource : (((σ.node node).child? .source).bind Node.stringValue?) =
      ((node.child? .source).bind Node.stringValue?).map σ.text := by
    rw [node_eq, h.relabels.child?_relabel]
    cases hchild : node.child? .source with
    | none => rfl
    | some child => exact (h.relabels.of_mem_children (Node.mem_children_of_child? hchild)).stringValue?
  have htarget : (σ.node node).deferredTarget? = node.deferredTarget?.map σ.text := by
    rw [node_eq, h.relabels.deferredTarget?]
  unfold Node.importReference?
  rw [kind_node, hsource, htarget, line_node]
  split
  · rw [Option.map_map, Option.map_map]
    rfl
  · split
    · rw [Option.map_map, Option.map_map]
      rfl
    · split
      · rw [Option.map_map, Option.map_map]
        rfl
      · rfl

variable {σ} in
theorem Regular.importReferences {root : Node} (h : σ.Regular root) (includeDeferred : Bool) :
    (σ.node root).importReferences includeDeferred =
      (root.importReferences includeDeferred).map σ.reference := by
  rw [Node.importReferences, Node.importReferences, walk_node, List.filterMap_map,
    Node.walk_eq_preorder, List.map_filterMap]
  exact List.filterMap_congr fun node hnode => (h.of_mem hnode).importReference? includeDeferred

variable {σ} in
theorem Regular.staticImports {root : Node} (h : σ.Regular root) :
    (σ.node root).staticImports = root.staticImports.map σ.reference := by
  rw [Node.staticImports, h.importReferences, List.filter_map, Node.staticImports]
  rfl

/-! ## Exported arrays -/

/-- The filled array with its filled name. -/
def exportedArray (exported : ExportedArray) : ExportedArray :=
  ⟨σ.text exported.name, σ.node exported.array⟩

theorem exportedArrays_node (root : Node) :
    (σ.node root).exportedArrays = root.exportedArrays.map σ.exportedArray := by
  rw [node_eq, (renames root).exportedArrays]
  refine List.map_congr_left fun exported _ => ?_
  rw [exportedArray, node_eq]
  rfl

end Substitution

end VerticalSlice.Syntax
