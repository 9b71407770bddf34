import VerticalSlice.Proofs.AppRoutes.Composition
import VerticalSlice.Rule.FeatureRoutes

/-!
# What a well composed file of feature routes is

`FileKept` says what is asked of a file of feature routes: it exports tables, and each of them is
filled with objects, names no component, starts with a route that opens the feature (`FirstKept`) and
loads pages only, at any depth (`LoadsPage`). The check of a file finds nothing exactly in such a file
that is the encoding of a text (`violationsIn_exact`).

Two walks go through a table, one over its elements and one over all objects in it. The first finds
what is wrong with an element at its index (`elementFindings_eq_nil_iff`). The second makes one
violation for each object that loads something else than a page, and these are told apart from the
others by their words (`filter_tableViolations`).
-/

namespace VerticalSlice.FeatureRoutes

open AppRoutes (Lacks LoadsBelow hasProperty_eq_false_iff hasProperty_eq_true_iff)
open Syntax

/-! ## The rules -/

/-- What is asked of the first route of a table. -/
structure FirstKept (route : Node) : Prop where
  path : route.propertyString? "path" = some []
  providers : ∃ providers, route.property? "providers" = some providers ∧
    ¬(providers.kind = .array ∧ providers.elements = [])
  loader : ¬Lacks route "loadComponent" ∨ ¬Lacks route "loadChildren"

/-- If the object loads a component, it loads a page. -/
def LoadsPage (object : Node) : Prop :=
  object.property? "loadComponent" ≠ none →
    LoadsBelow object "loadComponent" fun target => ".page".toList <:+ target

/-- What is asked of a table. -/
structure TableKept (table : Node) : Prop where
  objects : ∀ element ∈ table.elements, element.kind = .object ∧ Lacks element "component"
  first : ∃ route rest, table.elements = route :: rest ∧ FirstKept route
  pages : ∀ object ∈ table.preorder, object.kind = .object → LoadsPage object

/-- What is asked of a file. -/
def FileKept (root : Node) : Prop :=
  root.exportedArrays ≠ [] ∧ ∀ exported ∈ root.exportedArrays, TableKept exported.array

/-! ## The elements of a table -/

theorem providerBreaches_eq_nil_iff {table : Text} {route : Node} :
    providerBreaches table route = [] ↔ ∃ providers, route.property? "providers" = some providers ∧
      ¬(providers.kind = .array ∧ providers.elements = []) := by
  rw [providerBreaches]
  cases route.property? "providers" with
  | none => simp
  | some providers => simp [List.isEmpty_iff]

/-- Nothing is wrong with a first route exactly if it keeps the rules. -/
theorem firstRouteBreaches_eq_nil_iff {table : Text} {route : Node} :
    firstRouteBreaches table route = [] ↔ FirstKept route := by
  have hpath : (if route.propertyString? "path" = some [] then [] else [Breach.firstPath table]) = [] ↔
      route.propertyString? "path" = some [] := by
    split <;> simp_all
  have hloader : (if route.hasProperty "loadComponent" || route.hasProperty "loadChildren" then []
      else [Breach.firstLoader table]) = [] ↔
        ¬Lacks route "loadComponent" ∨ ¬Lacks route "loadChildren" := by
    rw [← hasProperty_eq_true_iff, ← hasProperty_eq_true_iff, ← Bool.or_eq_true]
    split <;> simp_all
  rw [firstRouteBreaches, List.append_eq_nil_iff, List.append_eq_nil_iff, hpath,
    providerBreaches_eq_nil_iff, hloader]
  exact ⟨fun h => ⟨h.1.1, h.1.2, h.2⟩, fun h => ⟨⟨h.path, h.providers⟩, h.loader⟩⟩

theorem elementBreaches_eq_nil_iff {table : Text} {index : Nat} {element : Node} :
    elementBreaches table index element = [] ↔
      (element.kind = .object ∧ Lacks element "component") ∧ (index = 0 → FirstKept element) := by
  rw [elementBreaches]
  by_cases hobject : element.kind = .object
  · have hcomponent : (if element.hasProperty "component" then [Breach.component table] else []) = [] ↔
        Lacks element "component" := by
      rw [← hasProperty_eq_false_iff]
      split <;> simp_all
    rw [if_neg (not_not.2 hobject), List.append_eq_nil_iff, hcomponent]
    by_cases hindex : index = 0
    · rw [if_pos hindex, firstRouteBreaches_eq_nil_iff]
      simp [hobject, hindex]
    · simp [hobject, hindex]
  · simp [hobject]

/-- Nothing is wrong with the elements of a table exactly if each keeps the rules, and the first one
those for first routes, if the elements are counted from the start. -/
theorem elementFindings_eq_nil_iff {table : Text} {index : Nat} {elements : List Node} :
    elementFindings table index elements = [] ↔
      (∀ element ∈ elements, element.kind = .object ∧ Lacks element "component") ∧
        (index = 0 → ∀ route ∈ elements.head?, FirstKept route) := by
  induction elements generalizing index with
  | nil => simp [elementFindings]
  | cons element rest ih =>
    rw [elementFindings, List.append_eq_nil_iff, List.map_eq_nil_iff, elementBreaches_eq_nil_iff, ih,
      List.forall_mem_cons, List.head?_cons]
    simp only [Option.mem_some_iff, forall_eq', Nat.add_eq_zero_iff, Nat.succ_ne_self, and_false,
      false_implies, and_true]
    exact ⟨fun h => ⟨⟨h.1.1, h.2⟩, h.1.2⟩, fun h => ⟨⟨h.1.1, h.2⟩, h.1.2⟩⟩

/-! ## The objects at all depths -/

theorem isPage_iff {target : Text} : isPage target = true ↔ ".page".toList <:+ target :=
  List.isSuffixOf_iff_suffix

/-- The objects that are looked for are those that load something else than a page. -/
theorem loadsForeign_iff {object : Node} :
    loadsForeign object = true ↔ object.kind = .object ∧ ¬LoadsPage object := by
  rw [loadsForeign, Bool.and_eq_true, decide_eq_true_eq, LoadsPage, LoadsBelow]
  refine and_congr_right fun _ => ?_
  cases object.property? "loadComponent" with
  | none => simp
  | some loader =>
    have htargets : loader.hasDeferredImport isPage = true ↔
        ∃ call ∈ loader.preorder, ∃ target, call.deferredTarget? = some target ∧
          ".page".toList <:+ target := by
      simp only [Node.hasDeferredImport, Node.deferredImports, Node.walk_eq_preorder,
        List.any_eq_true, List.mem_filterMap, isPage_iff]
      constructor
      · rintro ⟨target, ⟨call, hcall, htarget⟩, hpage⟩
        exact ⟨call, hcall, target, htarget, hpage⟩
      · rintro ⟨call, hcall, target, htarget, hpage⟩
        exact ⟨target, ⟨call, hcall, htarget⟩, hpage⟩
    rw [Option.any_some, Bool.not_eq_true', ← Bool.not_eq_true, htargets]
    simp

theorem loaderFindings_eq_nil_iff_loadsPage {exported : ExportedArray} :
    loaderFindings exported = [] ↔
      ∀ object ∈ exported.array.preorder, object.kind = .object → LoadsPage object := by
  rw [loaderFindings, List.map_eq_nil_iff, List.filter_eq_nil_iff, Node.walk_eq_preorder]
  refine forall₂_congr fun object _ => ?_
  rw [loadsForeign_iff, not_and, not_not]

/-! ## Tables and files -/

/-- Nothing is wrong with a table exactly if it keeps the rules. -/
theorem tableFindings_eq_nil_iff_kept {exported : ExportedArray} :
    tableFindings exported = [] ↔ TableKept exported.array := by
  rw [tableFindings]
  cases hlist : exported.array.elements with
  | nil =>
    refine iff_of_false (List.cons_ne_nil _ _) fun h => ?_
    obtain ⟨route, rest, heq, -⟩ := h.first
    rw [hlist] at heq
    cases heq
  | cons route rest =>
    dsimp only
    rw [List.append_eq_nil_iff, elementFindings_eq_nil_iff, loaderFindings_eq_nil_iff_loadsPage,
      ← hlist]
    constructor
    · rintro ⟨⟨hobjects, hfirst⟩, hpages⟩
      exact ⟨hobjects, ⟨route, rest, hlist, hfirst rfl route (by rw [hlist]; rfl)⟩, hpages⟩
    · rintro ⟨hobjects, ⟨first, others, heq, hfirst⟩, hpages⟩
      refine ⟨⟨hobjects, fun _ other hother => ?_⟩, hpages⟩
      rw [heq, List.head?_cons, Option.mem_some_iff] at hother
      exact hother ▸ hfirst

/-- Nothing is wrong with a file exactly if it keeps the rules. -/
theorem findings_eq_nil_iff_kept {root : Node} : findings root = [] ↔ FileKept root := by
  rw [findings, FileKept]
  cases root.exportedArrays with
  | nil => simp
  | cons exported rest =>
    dsimp only
    rw [List.flatMap_eq_nil_iff, and_iff_right (List.cons_ne_nil _ _)]
    exact forall₂_congr fun table _ => tableFindings_eq_nil_iff_kept

/-! ## The violations by their words -/

/-- The violations of a table. -/
def tableViolations (file : Text) (exported : ExportedArray) : List Violation :=
  (tableFindings exported).map (·.inFile file)

/-- What is said of an object in a table of this name that loads something else than a page. -/
def foreignWords (table : Text) : Text :=
  Text.concat ["export \"", table, "\" has loadComponent not importing a *.page file"]

/-- What is said of an element is not what is said of an object that loads no page. -/
theorem message_ne_of_mem_elementBreaches {table : Text} {index : Nat} {element : Node}
    {breach : Breach} (h : breach ∈ elementBreaches table index element) :
    breach.message ≠ foreignWords table := by
  -- behind the name of the table the words differ at the latest in their seventh letter
  have hdiffer : ∀ {words rest : Text}, 7 ≤ words.length →
      words.take 7 ≠ ("\" has loadComponent not importing a *.page file".toList).take 7 →
        Text.concat ["export \"", table, words, rest] ≠ foreignWords table := by
    intro words rest hlength hne heq
    simp only [foreignWords, Text.concat, List.flatten_cons, List.flatten_nil, List.append_nil] at heq
    have hrest := List.append_cancel_left (List.append_cancel_left heq)
    have htake := congrArg (List.take 7) hrest
    rw [List.take_append_of_le_length hlength] at htake
    exact hne htake
  have hwords : ∀ {words : Text}, 7 ≤ words.length →
      words.take 7 ≠ ("\" has loadComponent not importing a *.page file".toList).take 7 →
        Text.concat ["export \"", table, words] ≠ foreignWords table := by
    intro words hlength hne
    have h := @hdiffer words [] hlength hne
    rwa [show Text.concat ["export \"".toList, table, words, []] =
      Text.concat ["export \"".toList, table, words] by simp [Text.concat]] at h
  have hfirst : ∀ {breach : Breach}, breach ∈ firstRouteBreaches table element →
      breach.message ≠ foreignWords table := by
    intro breach h
    rw [firstRouteBreaches, List.mem_append, List.mem_append] at h
    rcases h with (h | h) | h
    · split at h
      · cases h
      · rw [List.mem_singleton.1 h]
        exact hwords (by decide +kernel) (by decide +kernel)
    · unfold providerBreaches at h
      split at h
      · rw [List.mem_singleton.1 h]
        exact hwords (by decide +kernel) (by decide +kernel)
      · split at h
        · rw [List.mem_singleton.1 h]
          exact hwords (by decide +kernel) (by decide +kernel)
        · cases h
    · split at h
      · cases h
      · rw [List.mem_singleton.1 h]
        exact hwords (by decide +kernel) (by decide +kernel)
  rw [elementBreaches] at h
  split at h
  · rw [List.mem_singleton.1 h]
    have hindex := @hdiffer "\" has a non-object route at index " (Text.ofNat index ++ ['.'])
      (by decide +kernel) (by decide +kernel)
    intro heq
    refine hindex (Eq.trans ?_ heq)
    show _ = Text.concat ["export \"", table, "\" has a non-object route at index ", Text.ofNat index,
      "."]
    simp only [Text.concat, List.flatten_cons, List.flatten_nil, List.append_nil]
    rfl
  · rcases List.mem_append.1 h with h | h
    · split at h
      · rw [List.mem_singleton.1 h]
        exact hwords (by decide +kernel) (by decide +kernel)
      · cases h
    · split at h
      · exact hfirst h
      · cases h

theorem exists_of_mem_elementFindings {table : Text} {index : Nat} {elements : List Node}
    {finding : Finding} (h : finding ∈ elementFindings table index elements) :
    ∃ index element, finding.breach ∈ elementBreaches table index element := by
  induction elements generalizing index with
  | nil => cases h
  | cons element rest ih =>
    rw [elementFindings] at h
    rcases List.mem_append.1 h with h | h
    · obtain ⟨breach, hbreach, rfl⟩ := List.mem_map.1 h
      exact ⟨index, element, hbreach⟩
    · exact ih h

/-- Of a filled table one violation with these words is told for each object in it, at any depth, that
loads something else than a page, at the line of the object. -/
theorem filter_tableViolations {file : Text} {exported : ExportedArray}
    (h : exported.array.elements ≠ []) :
    ((tableViolations file exported).filter fun violation =>
        violation.message = foreignWords exported.name) =
      (exported.array.preorder.filter loadsForeign).map fun object =>
        { file := some file
          message := foreignWords exported.name
          line := some (Int.ofNat object.line) } := by
  obtain ⟨route, rest, hlist⟩ := List.exists_cons_of_ne_nil h
  have hothers : ((elementFindings exported.name 0 (route :: rest)).map (·.inFile file)).filter
      (fun violation => violation.message = foreignWords exported.name) = [] := by
    rw [List.filter_eq_nil_iff]
    intro violation hviolation
    obtain ⟨finding, hfinding, rfl⟩ := List.mem_map.1 hviolation
    obtain ⟨index, element, hbreach⟩ := exists_of_mem_elementFindings hfinding
    rw [decide_eq_true_eq]
    exact message_ne_of_mem_elementBreaches hbreach
  rw [tableViolations, tableFindings, hlist]
  dsimp only
  rw [List.map_append, List.filter_append, hothers, List.nil_append, loaderFindings, List.map_map,
    Node.walk_eq_preorder, List.filter_eq_self.2]
  · rfl
  · intro violation hviolation
    obtain ⟨object, -, rfl⟩ := List.mem_map.1 hviolation
    exact decide_eq_true rfl

/-- The check of a file of feature routes finds nothing exactly if the bytes of the file encode a text
and the text keeps the rules. What it finds in a text with tables it finds table by table; and in a
table that is not empty it tells once, at its line, of each object at any depth that loads something
else than a page. -/
theorem violationsIn_exact {tree : FileTree} {path : Path} {bytes : List UInt8} (file : Text)
    (hread : tree.read path = .ok bytes) :
    (violationsIn file (tree.readSource path) = [] ↔ ∃ raw, Text.Utf8.encode raw = bytes ∧
      FileKept (SyntaxTree.ofText (Text.normalizeNewlines raw) path.extension).root) ∧
    (∀ raw root, Text.Utf8.encode raw = bytes →
      root = (SyntaxTree.ofText (Text.normalizeNewlines raw) path.extension).root →
      root.exportedArrays ≠ [] →
        violationsIn file (tree.readSource path) =
          root.exportedArrays.flatMap (tableViolations file)) ∧
    ∀ exported : ExportedArray, exported.array.elements ≠ [] →
      ∃ foreign : List Node,
        foreign = exported.array.preorder.filter loadsForeign ∧
        (∀ object, object ∈ foreign ↔
          object ∈ exported.array.preorder ∧ object.kind = .object ∧ ¬LoadsPage object) ∧
        ((tableViolations file exported).filter fun violation =>
            violation.message = foreignWords exported.name) =
          foreign.map fun object =>
            { file := some file
              message := foreignWords exported.name
              line := some (Int.ofNat object.line) } := by
  have hsource : ∀ {raw : Text}, Text.Utf8.encode raw = bytes → tree.readSource path =
      .ok (SyntaxTree.ofText (Text.normalizeNewlines raw) path.extension) := by
    intro raw hraw
    rw [FileTree.readSource, FileTree.readText_of_read hread hraw]
  refine ⟨?_, ?_, ?_⟩
  · constructor
    · intro hnil
      by_cases hraw : ∃ raw, Text.Utf8.encode raw = bytes
      · obtain ⟨raw, hraw⟩ := hraw
        rw [hsource hraw, violationsIn, List.map_eq_nil_iff, findings_eq_nil_iff_kept] at hnil
        exact ⟨raw, hraw, hnil⟩
      · obtain ⟨fault, hfault⟩ := FileTree.exists_readText_eq_error hread fun raw h => hraw ⟨raw, h⟩
        rw [FileTree.readSource, hfault] at hnil
        cases hnil
    · rintro ⟨raw, hraw, hkept⟩
      rw [hsource hraw, violationsIn, findings_eq_nil_iff_kept.2 hkept, List.map_nil]
  · rintro raw root hraw rfl hsome
    rw [hsource hraw, violationsIn, findings]
    split
    · next hnone => exact absurd hnone hsome
    · rw [List.map_flatMap]
      rfl
  · intro exported hfilled
    refine ⟨_, rfl, fun object => ?_, filter_tableViolations hfilled⟩
    rw [List.mem_filter, loadsForeign_iff]

/-! ## A small file -/

/-- A table whose one route opens the feature, with a child that loads no page. -/
def childText : Text :=
  "export const A = [\n  \x7b path: '', providers: [x()], loadChildren: y,\n" ++
    "    children: [\x7b loadComponent: () => import('./a.state') \x7d] \x7d,\n];"

/-- A folder with that file. -/
def childTree : FileTree := .folder [("a.routes.ts", .file (Text.Utf8.encode childText))]

/-- Of the small file the child is told, at its line, so the file does not keep the rules. -/
theorem violationsIn_exact_childTree : ∃ source table,
    childTree.read ⟨.root, ["a.routes.ts"]⟩ = .ok (Text.Utf8.encode childText) ∧
      childTree.readSource ⟨.root, ["a.routes.ts"]⟩ = .ok source ∧
      source.root.exportedArrays = [table] ∧ table.array.elements ≠ [] ∧
      ¬FileKept source.root ∧
      ((violationsIn "a.routes.ts" (.ok source)).filter fun violation =>
          violation.message = foreignWords table.name) =
        [{ file := some "a.routes.ts".toList, message := foreignWords table.name, line := some 3 }] := by
  have hread : childTree.read ⟨.root, ["a.routes.ts"]⟩ = .ok (Text.Utf8.encode childText) := rfl
  have hsource : SyntaxTree.ofText (Text.normalizeNewlines childText)
      (Path.extension ⟨.root, ["a.routes.ts"]⟩) =
        SyntaxTree.ofTokens false (place (Feature.lexemesOf childText)) := by
    have hmarkup : SyntaxTree.hasMarkup (Path.extension ⟨.root, ["a.routes.ts"]⟩) = false := by decide
    rw [Text.normalizeNewlines_eq_self (by decide +kernel), SyntaxTree.ofText, hmarkup,
      SyntaxTree.tokens, Feature.lexemesOf_eq]
  have hreadSource : childTree.readSource ⟨.root, ["a.routes.ts"]⟩ =
      .ok (SyntaxTree.ofTokens false (place (Feature.lexemesOf childText))) := by
    rw [FileTree.readSource, FileTree.readText_of_read hread rfl, ← hsource]
  obtain ⟨hkept, htables, hforeign⟩ := violationsIn_exact "a.routes.ts" hread
  have hfacts : (SyntaxTree.ofTokens false (place (Feature.lexemesOf childText))).root.exportedArrays.map
      (fun table => (table.array.elements.length,
        (table.array.preorder.filter loadsForeign).map Node.line)) = [(1, [3])] := by
    decide +kernel
  obtain ⟨table, harrays, htable⟩ := List.map_eq_singleton_iff.1 hfacts
  obtain ⟨hlength, hlines⟩ := Prod.mk.inj htable
  have hfilled : table.array.elements ≠ [] := List.ne_nil_of_length_eq_add_one hlength
  obtain ⟨foreign, rfl, -, hwords⟩ := hforeign table hfilled
  have hviolations := htables childText _ rfl (congrArg SyntaxTree.root hsource.symm)
    (by rw [harrays]; exact List.cons_ne_nil _ _)
  rw [hreadSource, harrays, List.flatMap_singleton] at hviolations
  have hfound : ((violationsIn "a.routes.ts"
      (.ok (SyntaxTree.ofTokens false (place (Feature.lexemesOf childText))))).filter fun violation =>
        violation.message = foreignWords table.name) =
      [{ file := some "a.routes.ts".toList, message := foreignWords table.name, line := some 3 }] := by
    obtain ⟨object, hobject, hline⟩ := List.map_eq_singleton_iff.1 hlines
    rw [hviolations, hwords, hobject, List.map_singleton, hline]
    rfl
  refine ⟨_, table, hread, hreadSource, harrays, hfilled, fun hfile => ?_, hfound⟩
  have hnil := hkept.2 ⟨childText, rfl, hsource ▸ hfile⟩
  rw [hreadSource] at hnil
  rw [hnil] at hfound
  cases hfound

end VerticalSlice.FeatureRoutes
