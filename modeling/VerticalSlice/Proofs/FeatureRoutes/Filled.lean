import VerticalSlice.Proofs.Syntax.FilledQuery
import VerticalSlice.Rule.FeatureRoutes

/-!
# Feature routes with holes

A filled route table keeps the rules exactly if the table with holes does (`findings_node_eq_nil_iff`).
The rules look at kinds, at the names of properties and at whether a path is empty, which filling
leaves alone. What is loaded they look at itself, so of the deferred imports it is asked that filling
makes no page of what is none and the other way round.
-/

namespace VerticalSlice

open Syntax

namespace Syntax

theorem Node.deferredImports_subset {node root : Node} (h : node ∈ root.preorder) :
    node.deferredImports ⊆ root.deferredImports := by
  intro target htarget
  rw [deferredImports, walk_eq_preorder, List.mem_filterMap] at htarget ⊢
  obtain ⟨call, hcall, hfound⟩ := htarget
  exact ⟨call, mem_preorder_trans hcall h, hfound⟩

theorem Node.array_mem_preorder {root : Node} {exported : ExportedArray}
    (h : exported ∈ root.exportedArrays) : exported.array ∈ root.preorder := by
  rw [exportedArrays, walk_eq_preorder, List.mem_flatMap] at h
  obtain ⟨node, hnode, hexported⟩ := h
  unfold arraysOfExport at hexported
  split at hexported
  · split at hexported
    · next declaration hdeclaration =>
      split at hexported
      · obtain ⟨declarator, hdeclarator, hbound⟩ := List.mem_filterMap.1 hexported
        unfold boundArray? at hbound
        obtain ⟨name, hname, hbound⟩ := Option.bind_eq_some_iff.1 hbound
        obtain ⟨value, hvalue, hbound⟩ := Option.bind_eq_some_iff.1 hbound
        split at hbound
        · rw [← Option.some.inj hbound]
          have hinside := mem_preorder_of_mem_children
            (Node.mem_children_of_child? hdeclaration) hnode
          have hdeclared := mem_preorder_of_mem_children
            (Node.mem_children_of_mem_namedChildren hdeclarator) hinside
          exact mem_preorder_of_mem_children (Node.mem_children_of_child? hvalue) hdeclared
        · cases hbound
      · cases hexported
    · cases hexported
  · cases hexported

theorem Node.mem_preorder_of_mem_elements {array element root : Node}
    (h : element ∈ array.elements) (harray : array ∈ root.preorder) : element ∈ root.preorder :=
  mem_preorder_of_mem_children
    (Node.mem_children_of_mem_namedChildren (List.mem_filter.1 h).1) harray

end Syntax

namespace FeatureRoutes

variable {σ : Substitution}

theorem map_text_eq_some_nil_iff {value : Option Text} :
    value.map σ.text = some [] ↔ value = some [] := by
  cases value with
  | none => simp
  | some text =>
    cases text with
    | nil => simp
    | cons c rest => simpa using Substitution.text_ne_nil σ (List.cons_ne_nil c rest)

theorem firstRouteBreaches_node_eq_nil_iff {route : Node} (h : σ.Regular route)
    (table table' : Text) :
    firstRouteBreaches table (σ.node route) = [] ↔ firstRouteBreaches table' route = [] := by
  have hproviders : providerBreaches table (σ.node route) = [] ↔
      providerBreaches table' route = [] := by
    rw [providerBreaches, providerBreaches, h.property?]
    cases route.property? "providers" with
    | none => simp
    | some providers =>
      rw [Option.map_some]
      dsimp only
      rw [Substitution.kind_node, Substitution.elements_node, List.isEmpty_map]
      split <;> simp
  have hpath : (σ.node route).propertyString? "path" = some [] ↔
      route.propertyString? "path" = some [] := by
    rw [h.propertyString?, map_text_eq_some_nil_iff]
  rw [firstRouteBreaches, firstRouteBreaches, h.hasProperty, h.hasProperty]
  simp only [List.append_eq_nil_iff, hproviders, hpath]
  refine and_congr (and_congr ?_ Iff.rfl) ?_ <;> split <;> simp

theorem elementBreaches_node_eq_nil_iff {element : Node} (h : σ.Regular element)
    (table table' : Text) (index : Nat) :
    elementBreaches table index (σ.node element) = [] ↔
      elementBreaches table' index element = [] := by
  rw [elementBreaches, elementBreaches, Substitution.kind_node, h.hasProperty]
  split
  · simp
  · rw [List.append_eq_nil_iff, List.append_eq_nil_iff]
    refine and_congr ?_ ?_
    · split <;> simp
    · split
      · exact firstRouteBreaches_node_eq_nil_iff h table table'
      · simp

theorem elementFindings_map_eq_nil_iff {elements : List Node}
    (h : ∀ element ∈ elements, σ.Regular element) (table table' : Text) (index : Nat) :
    elementFindings table index (elements.map σ.node) = [] ↔
      elementFindings table' index elements = [] := by
  induction elements generalizing index with
  | nil => rfl
  | cons element rest ih =>
    rw [List.map_cons, elementFindings, elementFindings, List.append_eq_nil_iff,
      List.append_eq_nil_iff, List.map_eq_nil_iff, List.map_eq_nil_iff,
      elementBreaches_node_eq_nil_iff (h element (List.mem_cons_self ..)) table table',
      ih fun other hother => h other (List.mem_cons_of_mem _ hother)]

/-- Filling makes no page of a module that is none, and no other module of a page. -/
def KeepsPages (σ : Substitution) (root : Node) : Prop :=
  ∀ target ∈ root.deferredImports, isPage (σ.text target) = isPage target

theorem loadsForeign_node {root object : Node} (hregular : σ.Regular root)
    (hpages : KeepsPages σ root) (h : object ∈ root.preorder) :
    loadsForeign (σ.node object) = loadsForeign object := by
  have hobject := hregular.of_mem h
  rw [loadsForeign, loadsForeign, Substitution.kind_node, hobject.property?]
  cases hloader : object.property? "loadComponent" with
  | none => rfl
  | some loader =>
    have hinside := Node.mem_preorder_trans (Node.mem_preorder_of_property? hloader) h
    have htargets := Node.deferredImports_subset hinside
    rw [Option.map_some, Option.any_some, Option.any_some, Node.hasDeferredImport,
      (hregular.of_mem hinside).deferredImports, List.any_map, Node.hasDeferredImport]
    have hsame : (loader.deferredImports.any (isPage ∘ σ.text)) =
        loader.deferredImports.any isPage := by
      rw [Bool.eq_iff_iff, List.any_eq_true, List.any_eq_true]
      refine exists_congr fun target => and_congr_right fun htarget => ?_
      rw [Function.comp_apply, hpages target (htargets htarget)]
    rw [hsame]

theorem loaderFindings_eq_nil_iff {root : Node} {exported : ExportedArray}
    (hregular : σ.Regular root) (hpages : KeepsPages σ root)
    (h : exported ∈ root.exportedArrays) :
    loaderFindings (σ.exportedArray exported) = [] ↔ loaderFindings exported = [] := by
  rw [loaderFindings, loaderFindings, List.map_eq_nil_iff, List.map_eq_nil_iff,
    Substitution.exportedArray, Substitution.walk_node, List.filter_map, List.map_eq_nil_iff,
    Node.walk_eq_preorder]
  have hsame : ∀ object ∈ exported.array.preorder,
      (loadsForeign ∘ σ.node) object = loadsForeign object := fun object hobject =>
    loadsForeign_node hregular hpages
      (Node.mem_preorder_trans hobject (Node.array_mem_preorder h))
  rw [List.filter_congr hsame]

theorem tableFindings_eq_nil_iff {root : Node} {exported : ExportedArray}
    (hregular : σ.Regular root) (hpages : KeepsPages σ root)
    (h : exported ∈ root.exportedArrays) :
    tableFindings (σ.exportedArray exported) = [] ↔ tableFindings exported = [] := by
  have hloaders := loaderFindings_eq_nil_iff hregular hpages h
  have harray := Node.array_mem_preorder h
  have hinside : ∀ element ∈ exported.array.elements, σ.Regular element := fun element helement =>
    hregular.of_mem (Node.mem_preorder_of_mem_elements helement harray)
  have helements := elementFindings_map_eq_nil_iff hinside (σ.text exported.name) exported.name 0
  rw [tableFindings, tableFindings]
  have hfilled : (σ.exportedArray exported).array.elements = exported.array.elements.map σ.node :=
    Substitution.elements_node σ exported.array
  rw [hfilled]
  cases hlist : exported.array.elements with
  | nil => simp
  | cons element rest =>
    rw [hlist] at helements
    rw [List.map_cons] at helements ⊢
    dsimp only
    rw [List.append_eq_nil_iff, List.append_eq_nil_iff, hloaders]
    exact and_congr helements Iff.rfl

/-- A filled route table keeps the rules exactly if the table with holes does. -/
theorem findings_node_eq_nil_iff {root : Node} (hregular : σ.Regular root)
    (hpages : KeepsPages σ root) : findings (σ.node root) = [] ↔ findings root = [] := by
  have htables : ∀ exported ∈ root.exportedArrays,
      (tableFindings (σ.exportedArray exported) = [] ↔ tableFindings exported = []) :=
    fun exported => tableFindings_eq_nil_iff hregular hpages
  rw [findings, findings, Substitution.exportedArrays_node]
  cases hlist : root.exportedArrays with
  | nil => simp
  | cons exported rest =>
    rw [hlist] at htables
    rw [List.map_cons]
    dsimp only
    rw [← List.map_cons (f := σ.exportedArray), List.flatMap_map, List.flatMap_eq_nil_iff,
      List.flatMap_eq_nil_iff]
    exact forall₂_congr htables

end FeatureRoutes

end VerticalSlice
