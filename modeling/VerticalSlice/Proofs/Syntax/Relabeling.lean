import Mathlib.Data.List.Basic
import VerticalSlice.Proofs.Syntax.Focus
import VerticalSlice.Syntax.Query

/-!
# Questions about a tree with other labels

Questions ask for kinds and roles, and for what names and literals say. If each label of a tree is exchanged
for one of the same kind and role, the answers are those from before, as far as they are nodes with their
labels exchanged, and as far as they are texts with what has become of the names and literals (`Relabels`).
-/

namespace VerticalSlice.Syntax

/-! ## Nodes inside nodes -/

theorem Node.self_mem_preorder (node : Node) : node ∈ node.preorder := by
  cases node
  rw [preorder]
  exact List.mem_cons_self ..

theorem Node.mem_preorderAll_iff {nodes : List Node} {node : Node} :
    node ∈ preorderAll nodes ↔ ∃ child ∈ nodes, node ∈ child.preorder := by
  induction nodes with
  | nil => simp [preorderAll]
  | cons child rest ih => simp [preorderAll, ih]

theorem Node.mem_preorder_iff {node other : Node} :
    other ∈ node.preorder ↔ other = node ∨ ∃ child ∈ node.children, other ∈ child.preorder := by
  cases node
  rw [preorder, List.mem_cons, mem_preorderAll_iff, children]

mutual

/-- What is inside a node that is inside another is inside that other. -/
theorem Node.mem_preorder_trans {first second : Node} (h : second ∈ first.preorder) :
    ∀ {third : Node}, first ∈ third.preorder → second ∈ third.preorder
  | .mk label children, hfirst => by
    rw [preorder, List.mem_cons] at hfirst ⊢
    rcases hfirst with rfl | hfirst
    · rwa [preorder, List.mem_cons] at h
    · exact .inr (Node.mem_preorderAll_trans h hfirst)

theorem Node.mem_preorderAll_trans {first second : Node} (h : second ∈ first.preorder) :
    ∀ {nodes : List Node}, first ∈ preorderAll nodes → second ∈ preorderAll nodes
  | [], hfirst => by cases hfirst
  | child :: rest, hfirst => by
    rw [preorderAll, List.mem_append] at hfirst ⊢
    exact hfirst.imp (Node.mem_preorder_trans h) (Node.mem_preorderAll_trans h)

end

theorem Node.mem_preorder_of_mem_children {node child root : Node} (hchild : child ∈ node.children)
    (hnode : node ∈ root.preorder) : child ∈ root.preorder :=
  mem_preorder_trans (mem_preorder_iff.2 (.inr ⟨child, hchild, self_mem_preorder child⟩)) hnode

theorem Node.mem_children_of_child? {node child : Node} {role : Role}
    (h : node.child? role = some child) : child ∈ node.children :=
  List.mem_of_find?_eq_some h

theorem Node.mem_children_of_mem_namedChildren {node child : Node} (h : child ∈ node.namedChildren) :
    child ∈ node.children :=
  (List.mem_filter.1 h).1

theorem Node.mem_preorder_of_property? {object value : Node} {name : Text}
    (h : object.property? name = some value) : value ∈ object.preorder := by
  obtain ⟨pair, hpair, hvalue⟩ := Option.bind_eq_some_iff.1 h
  have hmem := List.mem_of_find?_eq_some hpair
  rw [Node.pairs, List.mem_map] at hmem
  obtain ⟨child, hchild, rfl⟩ := hmem
  have hinside := mem_preorder_of_mem_children
    (mem_children_of_mem_namedChildren (List.mem_filter.1 hchild).1) (self_mem_preorder object)
  exact mem_preorder_of_mem_children (mem_children_of_child? hvalue) hinside

/-! ## Other labels -/

mutual

/-- The tree with other labels. -/
def Node.relabel (f : Label → Label) : Node → Node
  | .mk label children => .mk (f label) (relabelEach f children)

def Node.relabelEach (f : Label → Label) : List Node → List Node
  | [] => []
  | node :: rest => relabel f node :: relabelEach f rest

end

namespace Node

variable (f : Label → Label)

theorem relabelEach_eq_map (nodes : List Node) : relabelEach f nodes = nodes.map (relabel f) := by
  induction nodes with
  | nil => rfl
  | cons node rest ih => rw [relabelEach, ih, List.map_cons]

@[simp] theorem label_relabel (node : Node) : (node.relabel f).label = f node.label := by
  cases node
  rw [relabel]
  rfl

@[simp] theorem children_relabel (node : Node) :
    (node.relabel f).children = node.children.map (relabel f) := by
  cases node
  rw [relabel, relabelEach_eq_map]
  rfl

mutual

theorem preorder_relabel : ∀ node : Node, (node.relabel f).preorder = node.preorder.map (relabel f)
  | .mk label children => by
    rw [relabel, preorder, preorder, preorderAll_relabelEach children, List.map_cons, relabel]

theorem preorderAll_relabelEach :
    ∀ nodes : List Node, preorderAll (relabelEach f nodes) = (preorderAll nodes).map (relabel f)
  | [] => rfl
  | node :: rest => by
    rw [relabelEach, preorderAll, preorderAll, preorder_relabel node, preorderAll_relabelEach rest,
      List.map_append]

end

theorem walk_relabel (node : Node) : (node.relabel f).walk = node.walk.map (relabel f) := by
  rw [walk_eq_preorder, walk_eq_preorder, preorder_relabel]

end Node

/-- The labels keep their kinds and their roles. -/
structure Faithful (f : Label → Label) : Prop where
  kind_eq : ∀ label, (f label).kind = label.kind
  role_eq : ∀ label, (f label).role = label.role

namespace Faithful

variable {f : Label → Label} (h : Faithful f)

include h

theorem kind_relabel (node : Node) : (node.relabel f).kind = node.kind := by
  rw [Node.kind, Node.label_relabel, h.kind_eq]
  rfl

theorem role_relabel (node : Node) : (node.relabel f).role = node.role := by
  rw [Node.role, Node.label_relabel, h.role_eq]
  rfl

theorem child?_relabel (node : Node) (role : Role) :
    (node.relabel f).child? role = (node.child? role).map (Node.relabel f) := by
  rw [Node.child?, Node.children_relabel, List.find?_map, Node.child?]
  congr 2
  funext child
  rw [Function.comp_apply, h.role_relabel]

theorem namedChildren_relabel (node : Node) :
    (node.relabel f).namedChildren = node.namedChildren.map (Node.relabel f) := by
  rw [Node.namedChildren, Node.children_relabel, List.filter_map, Node.namedChildren]
  congr 2
  funext child
  rw [Function.comp_apply, h.kind_relabel]

theorem elements_relabel (node : Node) :
    (node.relabel f).elements = node.elements.map (Node.relabel f) := by
  rw [Node.elements, h.namedChildren_relabel, List.filter_map, Node.elements]
  congr 2
  funext child
  rw [Function.comp_apply, h.kind_relabel]

theorem isIdentifier_relabel (node : Node) : (node.relabel f).isIdentifier = node.isIdentifier := by
  rw [Node.isIdentifier, h.kind_relabel, Node.isIdentifier]

end Faithful

/-! ## Names and literals -/

/-- The labels keep their kinds and roles, and the texts of names and literals go over into others. -/
structure Renames (f : Label → Label) (g : Text → Text) (root : Node) : Prop extends Faithful f where
  text_eq : ∀ node ∈ root.preorder, node.kind.isName = true → (node.relabel f).text = g node.text

/-- The contents of literals go over into others as well, and the names of keys are the same. -/
structure Relabels (f : Label → Label) (g : Text → Text) (root : Node) : Prop
    extends Renames f g root where
  inner_eq : ∀ node ∈ root.preorder, node.kind = .string → inner (g node.text) = g (inner node.text)
  key_eq : ∀ node ∈ root.preorder, ∀ pair ∈ node.pairs, ∀ key ∈ pair.1, g key = key

variable {f : Label → Label} {g : Text → Text} {root node object : Node}

namespace Renames

theorem of_mem (h : Renames f g root) (hnode : node ∈ root.preorder) : Renames f g node where
  toFaithful := h.toFaithful
  text_eq other hother := h.text_eq other (Node.mem_preorder_trans hother hnode)

theorem of_mem_children (h : Renames f g root) (hnode : node ∈ root.children) : Renames f g node :=
  h.of_mem (Node.mem_preorder_of_mem_children hnode (Node.self_mem_preorder root))

theorem text_self (h : Renames f g node) (hkind : node.kind.isName = true) :
    (node.relabel f).text = g node.text :=
  h.text_eq node (Node.self_mem_preorder node) hkind

/-! ### Exported arrays -/

/-- The array with other labels, and the name that has become of its name. -/
def exportedArray (f : Label → Label) (g : Text → Text) (exported : ExportedArray) : ExportedArray :=
  ⟨g exported.name, exported.array.relabel f⟩

theorem boundArray? (h : Renames f g node) :
    (node.relabel f).boundArray? = node.boundArray?.map (exportedArray f g) := by
  unfold Node.boundArray?
  rw [h.child?_relabel, h.child?_relabel, h.kind_relabel]
  cases hname : node.child? .name with
  | none => rfl
  | some name =>
    cases node.child? .value with
    | none => rfl
    | some value =>
      show (if node.kind = .variableDeclarator && (name.relabel f).kind = .identifier &&
        (value.relabel f).kind = .array then _ else none) = Option.map _ (if _ then _ else none)
      rw [h.kind_relabel, h.kind_relabel]
      split
      · next hkinds =>
        have hidentifier : name.kind.isName = true := by
          rw [Bool.and_eq_true, Bool.and_eq_true, decide_eq_true_eq, decide_eq_true_eq] at hkinds
          rw [hkinds.1.2]
          rfl
        rw [(h.of_mem_children (Node.mem_children_of_child? hname)).text_self hidentifier]
        rfl
      · rfl

theorem arraysOfExport (h : Renames f g node) :
    (node.relabel f).arraysOfExport = node.arraysOfExport.map (exportedArray f g) := by
  unfold Node.arraysOfExport
  rw [h.kind_relabel, h.child?_relabel]
  split
  · cases hchild : node.child? .declaration with
    | none => rfl
    | some declaration =>
      show (if (declaration.relabel f).kind = .lexicalDeclaration ||
        (declaration.relabel f).kind = .variableDeclaration then _ else []) =
          List.map _ (if _ then _ else [])
      rw [h.kind_relabel]
      split
      · rw [h.namedChildren_relabel, List.filterMap_map, List.map_filterMap]
        refine List.filterMap_congr fun declarator hdeclarator => ?_
        have hdeclaration := h.of_mem_children (Node.mem_children_of_child? hchild)
        exact (hdeclaration.of_mem_children
          (Node.mem_children_of_mem_namedChildren hdeclarator)).boundArray?
      · rfl
  · rfl

theorem exportedArrays (h : Renames f g root) :
    (root.relabel f).exportedArrays = root.exportedArrays.map (exportedArray f g) := by
  rw [Node.exportedArrays, Node.exportedArrays, Node.walk_relabel, List.flatMap_map, List.map_flatMap,
    Node.walk_eq_preorder]
  exact List.flatMap_congr fun node hnode => (h.of_mem hnode).arraysOfExport

end Renames

namespace Relabels

theorem of_mem (h : Relabels f g root) (hnode : node ∈ root.preorder) : Relabels f g node where
  toRenames := h.toRenames.of_mem hnode
  inner_eq other hother := h.inner_eq other (Node.mem_preorder_trans hother hnode)
  key_eq other hother := h.key_eq other (Node.mem_preorder_trans hother hnode)

theorem of_mem_children (h : Relabels f g root) (hnode : node ∈ root.children) : Relabels f g node :=
  h.of_mem (Node.mem_preorder_of_mem_children hnode (Node.self_mem_preorder root))

theorem stringValue? (h : Relabels f g node) :
    (node.relabel f).stringValue? = node.stringValue?.map g := by
  rw [Node.stringValue?, Node.stringValue?, h.kind_relabel]
  split
  · next hkind =>
    rw [h.text_self (by rw [hkind]; rfl), h.inner_eq node (Node.self_mem_preorder node) hkind]
    rfl
  · rfl

theorem propertyName? (h : Relabels f g node) :
    (node.relabel f).propertyName? = node.propertyName?.map g := by
  rw [Node.propertyName?, Node.propertyName?, h.kind_relabel]
  split
  · next hkind =>
    rw [h.text_self (by rw [hkind]; rfl)]
    rfl
  · exact h.stringValue?

/-! ### Properties of objects -/

theorem pairs_eq (h : Relabels f g object) :
    (object.relabel f).pairs = object.pairs.map fun pair => (pair.1, pair.2.map (Node.relabel f)) := by
  have hfilter : ((fun child : Node => decide (child.kind = Kind.pair)) ∘ Node.relabel f) =
      fun child => decide (child.kind = Kind.pair) := by
    funext child
    rw [Function.comp_apply, h.kind_relabel]
  have hkeys : ∀ pair ∈ object.pairs, pair.1.map g = pair.1 := by
    intro pair hpair
    cases hname : pair.1 with
    | none => rfl
    | some key =>
      rw [Option.map_some,
        h.key_eq object (Node.self_mem_preorder object) pair hpair key (by rw [hname]; rfl)]
  rw [Node.pairs, h.namedChildren_relabel, List.filter_map, List.map_map, hfilter]
  conv => rhs; rw [Node.pairs, List.map_map]
  refine List.map_congr_left fun pair hpair => ?_
  have hkey := hkeys _ (List.mem_map_of_mem hpair)
  have hchild := h.of_mem_children (Node.mem_children_of_mem_namedChildren (List.mem_filter.1 hpair).1)
  rw [Function.comp_apply, Function.comp_apply, h.child?_relabel, h.child?_relabel]
  dsimp only at hkey ⊢
  rw [← hkey]
  congr 1
  cases hname : pair.child? .key with
  | none => rfl
  | some key => exact (hchild.of_mem_children (Node.mem_children_of_child? hname)).propertyName?

theorem hasProperty (h : Relabels f g object) (name : Text) :
    (object.relabel f).hasProperty name = object.hasProperty name := by
  rw [Node.hasProperty, h.pairs_eq, List.any_map, Node.hasProperty]
  rfl

theorem property? (h : Relabels f g object) (name : Text) :
    (object.relabel f).property? name = (object.property? name).map (Node.relabel f) := by
  rw [Node.property?, h.pairs_eq, List.find?_map, Node.property?]
  show ((object.pairs.find? fun pair => decide (pair.1 = some name)).map _).bind _ = _
  cases object.pairs.find? fun pair => decide (pair.1 = some name) <;> rfl

theorem propertyString? (h : Relabels f g object) (name : Text) :
    (object.relabel f).propertyString? name = (object.propertyString? name).map g := by
  rw [Node.propertyString?, h.property?, Node.propertyString?]
  cases hvalue : object.property? name with
  | none => rfl
  | some value => exact (h.of_mem (Node.mem_preorder_of_property? hvalue)).stringValue?

/-! ### Imports -/

theorem deferredArgument? (h : Relabels f g node) :
    (node.relabel f).deferredArgument? = node.deferredArgument?.map (Node.relabel f) := by
  rw [Node.deferredArgument?, Node.deferredArgument?, h.kind_relabel]
  split
  · rw [h.child?_relabel]
    cases node.child? .function with
    | none => rfl
    | some function =>
      show (if (function.relabel f).kind = .importKeyword then _ else none) = _
      rw [h.kind_relabel]
      show _ = Option.map _ (if function.kind = .importKeyword then _ else none)
      split
      · rw [h.child?_relabel]
        cases node.child? .arguments with
        | none => rfl
        | some arguments =>
          show (arguments.relabel f).namedChildren.find? _ = (arguments.namedChildren.find? _).map _
          rw [h.namedChildren_relabel, List.find?_map]
          congr 2
          funext child
          rw [Function.comp_apply, h.kind_relabel]
      · rfl
  · rfl

theorem mem_preorder_of_deferredArgument? {argument : Node}
    (h : node.deferredArgument? = some argument) : argument ∈ node.preorder := by
  unfold Node.deferredArgument? at h
  split at h
  · obtain ⟨function, -, h⟩ := Option.bind_eq_some_iff.1 h
    split at h
    · obtain ⟨arguments, harguments, h⟩ := Option.bind_eq_some_iff.1 h
      exact Node.mem_preorder_of_mem_children
        (Node.mem_children_of_mem_namedChildren (List.mem_of_find?_eq_some h))
        (Node.mem_preorder_of_mem_children (Node.mem_children_of_child? harguments)
          (Node.self_mem_preorder node))
    · cases h
  · cases h

theorem deferredTarget? (h : Relabels f g node) :
    (node.relabel f).deferredTarget? = node.deferredTarget?.map g := by
  rw [Node.deferredTarget?, h.deferredArgument?, Node.deferredTarget?]
  cases hargument : node.deferredArgument? with
  | none => rfl
  | some argument => exact (h.of_mem (mem_preorder_of_deferredArgument? hargument)).stringValue?

theorem deferredImports (h : Relabels f g root) :
    (root.relabel f).deferredImports = root.deferredImports.map g := by
  rw [Node.deferredImports, Node.deferredImports, Node.walk_relabel, List.filterMap_map,
    Node.walk_eq_preorder, List.map_filterMap]
  exact List.filterMap_congr fun node hnode => (h.of_mem hnode).deferredTarget?

end Relabels

end VerticalSlice.Syntax
