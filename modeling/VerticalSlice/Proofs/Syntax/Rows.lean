import VerticalSlice.Proofs.FeatureRoutes.Filled
import VerticalSlice.Proofs.Syntax.Exports

/-!
# What a tree holds around an array

When the children of an array are exchanged, what is asked of the nodes around the array has the same answers,
if the question is not about the array itself or about what its neighbours hold. So a list of answers grows by
those for the new children, in their place (`Focused.exists_filterMap`).
-/

namespace VerticalSlice.Syntax

/-! ## Nodes in the order of the source -/

namespace Node

theorem sublist_preorderAll (nodes : List Node) : nodes.Sublist (preorderAll nodes) := by
  induction nodes with
  | nil => exact .slnil
  | cons node rest ih =>
    obtain ⟨label, children⟩ := node
    rw [preorderAll, preorder]
    exact (ih.trans (List.sublist_append_right _ _)).cons_cons _

mutual

/-- What is in a node stands together in the order of the source. -/
theorem preorder_sublist {node : Node} :
    ∀ {root : Node}, node ∈ root.preorder → node.preorder.Sublist root.preorder
  | .mk label children, h => by
    rw [preorder, List.mem_cons] at h
    rcases h with rfl | h
    · exact .refl _
    · rw [preorder]
      exact (preorder_sublist_all h).cons _

theorem preorder_sublist_all {node : Node} :
    ∀ {nodes : List Node}, node ∈ preorderAll nodes → node.preorder.Sublist (preorderAll nodes)
  | [], h => by cases h
  | child :: rest, h => by
    rw [preorderAll, List.mem_append] at h
    rw [preorderAll]
    rcases h with h | h
    · exact (preorder_sublist h).trans (List.sublist_append_left _ _)
    · exact (preorder_sublist_all h).trans (List.sublist_append_right _ _)

end

/-- The elements of an array in the order of the source. -/
theorem elements_sublist {root array : Node} (h : array ∈ root.preorder) :
    array.elements.Sublist root.preorder := by
  obtain ⟨label, children⟩ := array
  have hchildren : children.Sublist (Node.mk label children).preorder := by
    rw [preorder]
    exact (sublist_preorderAll children).cons _
  exact ((List.filter_sublist.trans List.filter_sublist).trans hchildren).trans (preorder_sublist h)

/-- If an exported array has only objects as elements, and the tree has no more of them, they are its objects. -/
theorem mem_elements_of_object {root node : Node} {exported : ExportedArray} (h : exported ∈ root.exportedArrays)
    (hobjects : ∀ element ∈ exported.array.elements, element.kind = .object)
    (hcount : root.preorder.countP (fun node => decide (node.kind = .object)) = exported.array.elements.length)
    (hnode : node ∈ root.preorder) (hkind : node.kind = .object) : node ∈ exported.array.elements := by
  have hsub := (elements_sublist (array_mem_preorder h)).filter fun node => decide (node.kind = .object)
  rw [List.filter_eq_self.2 fun element helement => decide_eq_true (hobjects element helement)] at hsub
  rw [List.countP_eq_length_filter] at hcount
  rw [hsub.eq_of_length hcount.symm]
  exact List.mem_filter.2 ⟨hnode, decide_eq_true hkind⟩

end Node

/-! ## Around an array -/

/-- Questions about a node whose answer does not depend on what is in an array in it. -/
structure Unaware {α : Type} (ask : Node → Option α) : Prop where
  array : ∀ (label : Label) (inner : List Node), label.kind = .array → ask (.mk label inner) = none
  around : ∀ (outer label : Label) (before behind : List Node), outer.kind.encloses = true →
    label.kind.encloses = true →
    ∃ answer, ∀ inner, ask (.mk outer (before ++ .mk label inner :: behind)) = answer

theorem Focused.exists_filterMap {α : Type} {ask : Node → Option α} (hask : Unaware ask)
    {rows : List Node → List Node} (h : Focused rows) :
    ∃ first second, ∀ inner, (Node.preorderAll (rows inner)).filterMap ask =
      first ++ (Node.preorderAll inner).filterMap ask ++ second := by
  have hsplit : ∀ (before behind : List Node) (node : Node),
      Node.preorderAll (before ++ node :: behind) =
        Node.preorderAll before ++ (node.preorder ++ Node.preorderAll behind) := by
    intro before behind node
    rw [Node.preorderAll_append, Node.preorderAll]
  induction h with
  | @here before label hkind behind =>
    refine ⟨(Node.preorderAll before).filterMap ask, (Node.preorderAll behind).filterMap ask, fun inner => ?_⟩
    rw [hsplit, Node.preorder, List.filterMap_append, List.filterMap_append,
      List.filterMap_cons_none (hask.array label inner hkind), List.append_assoc]
  | @within rows before label hkind hrows behind ih =>
    obtain ⟨first, second, hinner⟩ := ih
    obtain ⟨before', label', rows', behind', hlabel', rfl, -⟩ := hrows.exists_node
    obtain ⟨answer, hanswer⟩ := hask.around label label' before' behind' hkind hlabel'
    refine ⟨(Node.preorderAll before).filterMap ask ++ (answer.toList ++ first),
      second ++ (Node.preorderAll behind).filterMap ask, fun inner => ?_⟩
    have hcons : ∀ (node : Node) (rest : List Node),
        (node :: rest).filterMap ask = (ask node).toList ++ rest.filterMap ask := fun node rest => by
      rw [List.filterMap_cons]
      cases ask node <;> rfl
    rw [hsplit, Node.preorder, List.filterMap_append, List.filterMap_append, hcons, hanswer, hinner]
    simp only [List.append_assoc]

end VerticalSlice.Syntax
