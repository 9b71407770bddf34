import VerticalSlice.Proofs.Feature.Table
import VerticalSlice.Proofs.Syntax.Literals

/-!
# Routes that the table has already

A route is taken to be in the table where its mark stands anywhere in the text. What the mark says of the
table can be read off its quote: if that is where the path of an element begins, the element has the route
(`propertyString?_of_markedAt`), and if not, the mark says nothing of the table (`register_present_iff`).
-/

namespace VerticalSlice.Feature

open Syntax

/-- The mark of the route stands in the text, with its first quote at the offset. -/
def MarkedAt (text route : Text) (offset : Nat) : Prop := ∃ front back,
  text = front ++ ("path: ".toList ++ '\'' :: (route ++ '\'' :: back)) ∧ offset = (front ++ "path: ".toList).length

/-- The path of an element of the table is a literal with its first quote at the offset. -/
def PathAt (table : Node) (offset : Nat) : Prop := ∃ element ∈ table.elements, element.kind = .object ∧
  ∃ value, element.property? "path" = some value ∧ value.kind = .string ∧ value.offset = offset

variable {text route : Text}

theorem routeMark_infix_iff : routeMark route <:+: text ↔ ∃ offset, MarkedAt text route offset := by
  have hmark : ∀ back, routeMark route ++ back = "path: ".toList ++ '\'' :: (route ++ '\'' :: back) := by
    intro back
    rw [routeMark, Text.concat]
    simp
  constructor
  · rintro ⟨front, back, rfl⟩
    exact ⟨_, front, back, by rw [List.append_assoc, hmark], rfl⟩
  · rintro ⟨-, front, back, rfl, -⟩
    exact ⟨front, back, by rw [List.append_assoc, hmark]⟩

theorem isPlainIn_route (hroute : ∀ c ∈ route, isRouteChar c = true) : ∀ c ∈ route, IsPlainIn '\'' c := by
  have hmarks : ∀ d ∈ (['\'', '\\', '\n'] : Text), isRouteChar d = false := Text.forall_mem (by decide)
  intro c hc
  refine ⟨?_, ?_, ?_⟩ <;> rintro rfl <;> exact notMem_of_isRouteChar hroute (hmarks _ (by decide)) hc

/-- An element has the route if the mark stands at its path. -/
theorem propertyString?_of_markedAt (hroute : ∀ c ∈ route, isRouteChar c = true) {nodes : List Node}
    (h : programNodes? false (place (lexemes false text)) = some nodes) {element value : Node}
    (helement : element ∈ (Node.branch .program nodes).preorder) (hvalue : element.property? "path" = some value)
    (hkind : value.kind = .string) (hmark : MarkedAt text route value.offset) :
    element.propertyString? "path" = some route := by
  obtain ⟨front, back, rfl, hoffset⟩ := hmark
  rw [← List.append_assoc] at h
  have hmem := Node.mem_preorder_trans (Node.mem_preorder_of_property? hvalue) helement
  rw [Node.propertyString?, hvalue]
  exact stringValue?_of_offset h (.inr rfl) (isPlainIn_route hroute) hmem hkind hoffset

/-- A route is skipped if its mark stands in the text, wherever that is. -/
theorem register_present_iff_marked {tree : FileTree} {file : Path} {name : FeatureName}
    (htext : tree.readText file = .ok text) :
    register tree file route name = .ok (tree, true) ↔ routeMark route <:+: text := by
  constructor
  · intro h
    obtain ⟨text', htext', ⟨hmark, -⟩ | ⟨-, habsent, -⟩⟩ := register_ok_cases h
    · rw [htext] at htext'
      exact Except.ok.inj htext' ▸ hmark
    · cases habsent
  · exact register_of_marked htext

/-- A route is skipped just if some element of the table has it in single quotes behind `path: `, or if its
mark stands where no element of the table has its path. -/
theorem register_present_iff {context : Context} {tree : FileTree} {name : FeatureName} {table : ExportedArray}
    (hroute : ∀ c ∈ route, isRouteChar c = true) (htext : tree.readText context.appRoutes = .ok text)
    (hprogram : (SyntaxTree.ofText text ".ts").isProgram = true)
    (htable : (SyntaxTree.ofText text ".ts").root.exportedArray? AppRoutes.tableName = some table) :
    register tree context.appRoutes route name = .ok (tree, true) ↔
      (∃ element ∈ table.array.elements, element.kind = .object ∧ element.propertyString? "path" = some route ∧
        ∃ value, element.property? "path" = some value ∧ MarkedAt text route value.offset) ∨
      ∃ offset, MarkedAt text route offset ∧ ¬PathAt table.array offset := by
  rw [register_present_iff_marked htext, routeMark_infix_iff]
  constructor
  · rintro ⟨offset, hmark⟩
    by_cases hpath : PathAt table.array offset
    · obtain ⟨element, helement, hobject, value, hvalue, hkind, rfl⟩ := hpath
      obtain ⟨nodes, hnodes, htree⟩ := exists_nodes_of_isProgram hprogram
      rw [htree] at htable
      have hmem := Node.mem_preorder_of_mem_elements helement
        (Node.array_mem_preorder (List.mem_of_find?_eq_some htable))
      exact .inl ⟨element, helement, hobject, propertyString?_of_markedAt hroute hnodes hmem hvalue hkind hmark,
        value, hvalue, hmark⟩
    · exact .inr ⟨offset, hmark, hpath⟩
  · rintro (⟨-, -, -, -, value, -, hmark⟩ | ⟨offset, hmark, -⟩)
    · exact ⟨value.offset, hmark⟩
    · exact ⟨offset, hmark⟩

/-- A table with one route, in these quotes. -/
def quotedTable (quote : Char) : Text :=
  "export const routes = [\x7b path: ".toList ++ quote :: ("orders".toList ++ quote :: " \x7d];\n".toList)

theorem exists_element_quotedTable {quote : Char} (h : IsQuote quote) : ∃ table element value,
    (treeOf (quotedTable quote)).isProgram = true ∧
      (treeOf (quotedTable quote)).root.exportedArray? AppRoutes.tableName = some table ∧
      element ∈ table.array.elements ∧ element.kind = .object ∧
      element.propertyString? "path" = some "orders".toList ∧ element.property? "path" = some value ∧
      value.offset = 31 := by
  have hprogram : (treeOf (quotedTable quote)).isProgram = true := by
    rcases h with rfl | rfl <;> decide +kernel
  have hshape : ((treeOf (quotedTable quote)).root.exportedArray? AppRoutes.tableName).map (fun table =>
      table.array.elements.map fun element =>
        (element.kind, element.propertyString? "path", (element.property? "path").map (·.offset))) =
      some [(.object, some "orders".toList, some 31)] := by
    rcases h with rfl | rfl <;> decide +kernel
  obtain ⟨table, htable, helements⟩ := Option.map_eq_some_iff.1 hshape
  obtain ⟨element, rest, hsplit, helement, -⟩ := List.map_eq_cons_iff.1 helements
  simp only [Prod.mk.injEq, Option.map_eq_some_iff] at helement
  obtain ⟨hkind, hpath, value, hvalue, hoffset⟩ := helement
  exact ⟨table, element, value, hprogram, htable, hsplit ▸ List.mem_cons_self .., hkind, hpath, hvalue, hoffset⟩

/-- In single quotes the route is found. -/
theorem register_present_iff_quotedTable : register (treeWith (quotedTable '\'')) AppRoutes.tableContext.appRoutes
    "orders" ordersName = .ok (treeWith (quotedTable '\''), true) := by
  have hnormal : '\r' ∉ quotedTable '\'' := by decide
  obtain ⟨table, element, value, hprogram, htable, helement, hkind, hpath, hvalue, hoffset⟩ :=
    exists_element_quotedTable (.inr rfl)
  rw [← ofText_eq_treeOf] at hprogram htable
  refine (register_present_iff (Text.forall_mem (by decide)) (readText_treeWith hnormal) hprogram htable).2
    (.inl ⟨element, helement, hkind, hpath, value, hvalue, ?_⟩)
  rw [hoffset]
  exact ⟨"export const routes = [\x7b ".toList, " \x7d];\n".toList, by decide, by decide⟩

/-- In double quotes the route is not found, and is put into the table again. -/
theorem register_repeats_route : ∃ table element changed,
    (SyntaxTree.ofText (quotedTable '"') ".ts").isProgram = true ∧
      (SyntaxTree.ofText (quotedTable '"') ".ts").root.exportedArray? AppRoutes.tableName = some table ∧
      element ∈ table.array.elements ∧ element.kind = .object ∧
      element.propertyString? "path" = some "orders".toList ∧
      register (treeWith (quotedTable '"')) AppRoutes.tableContext.appRoutes "orders" ordersName =
        .ok (changed, false) := by
  have hnormal : '\r' ∉ quotedTable '"' := by decide
  obtain ⟨table, element, value, hprogram, htable, helement, hkind, hpath, -, -⟩ :=
    exists_element_quotedTable (.inl rfl)
  have hpoint : ∃ parts, insertionPoint? (quotedTable '"') = some parts := by
    rw [← Option.isSome_iff_exists, insertionPoint?, wildcardOffset?_eq]
    decide +kernel
  obtain ⟨⟨before, after⟩, hpoint⟩ := hpoint
  rw [ofText_eq_treeOf]
  exact ⟨table, element, _, hprogram, htable, helement, hkind, hpath,
    register_treeWith hnormal (by decide) hpoint⟩

end VerticalSlice.Feature
