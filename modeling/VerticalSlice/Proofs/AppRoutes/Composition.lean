import VerticalSlice.Proofs.Feature.Program
import VerticalSlice.Proofs.Text.Utf8
import VerticalSlice.Rule.AppRoutes

/-!
# What a well composed route table is

`WellComposed` says what is asked of a route table, without saying how it is found out: nothing that
is routed is imported statically, every element keeps the rules for its path (`RouteKept`), and one
element alone is the wildcard. The check finds nothing exactly in such a table, and when it finds
something it tells of it in the order of the source (`check_exact`).

Each element is judged on its own (`elementBreaches_eq_nil_iff`), and the wildcards are counted over
the whole table (`wildcards_eq_one_iff`).
-/

namespace VerticalSlice.AppRoutes

open Syntax

/-! ## The rules -/

/-- Below the value that the element gives to the property something is loaded that is accepted. -/
def LoadsBelow (element : Node) (name : Text) (Accepted : Text → Prop) : Prop :=
  ∃ loader, element.property? name = some loader ∧
    ∃ call ∈ loader.preorder, ∃ target, call.deferredTarget? = some target ∧ Accepted target

/-- Does the object give no value to the property? -/
def Lacks (element : Node) (name : Text) : Prop := ∀ pair ∈ element.pairs, pair.1 ≠ some name

/-- What is asked of an element with this path. -/
structure PathKept (element : Node) (path : Text) : Prop where
  redirect : path = [] → ¬Lacks element "redirectTo" ∧ ¬Lacks element "pathMatch"
  wildcard : path = "**".toList →
    LoadsBelow element "loadComponent" (· = "./shared/pages/not-found.page".toList)
  feature : path ≠ [] → path ≠ "**".toList →
    LoadsBelow element "loadChildren" fun target =>
      "./features/".toList <+: target ∧ ".routes".toList <:+ target

/-- What is asked of an element. -/
structure RouteKept (element : Node) : Prop where
  object : element.kind = .object
  noComponent : Lacks element "component"
  path : ∃ path, element.propertyString? "path" = some path ∧ PathKept element path

/-- Is the element an object with the path of the wildcard? -/
def IsWildcard (element : Node) : Prop :=
  element.kind = .object ∧ element.propertyString? "path" = some "**".toList

/-- Is a table with these elements well composed, in a file with this tree? -/
structure WellComposed (root : Node) (elements : List Node) : Prop where
  imports : ∀ reference ∈ root.staticImports,
    ¬".page".toList <:+: reference.specifier ∧ ¬".component".toList <:+: reference.specifier
  routes : ∀ element ∈ elements, RouteKept element
  wildcard : ∃ before element after, elements = before ++ element :: after ∧ IsWildcard element ∧
    ∀ other ∈ before ++ after, ¬IsWildcard other

/-- The violation of a number of wildcards other than one. -/
def countViolation (file : Text) (count : Nat) : Violation :=
  { file := some file
    message := Text.concat ["APP_ROUTES must contain exactly one wildcard '**' route (found ",
      Text.ofNat count, ")."] }

/-! ## One element -/

theorem hasProperty_eq_false_iff {element : Node} {name : Text} :
    element.hasProperty name = false ↔ Lacks element name := by
  simp [Node.hasProperty, Lacks]

theorem hasProperty_eq_true_iff {element : Node} {name : Text} :
    element.hasProperty name = true ↔ ¬Lacks element name := by
  rw [← hasProperty_eq_false_iff, Bool.not_eq_false]

theorem loads_iff {element : Node} {name : Text} {accept : Text → Bool} {Accepted : Text → Prop}
    (h : ∀ target, accept target = true ↔ Accepted target) :
    loads element name accept = true ↔ LoadsBelow element name Accepted := by
  simp only [loads, Option.any_eq_true, Node.hasDeferredImport, Node.deferredImports,
    Node.walk_eq_preorder, List.any_eq_true, List.mem_filterMap, LoadsBelow, h]
  constructor
  · rintro ⟨loader, hloader, target, ⟨call, hcall, htarget⟩, haccepted⟩
    exact ⟨loader, hloader, call, hcall, target, htarget, haccepted⟩
  · rintro ⟨loader, hloader, call, hcall, target, htarget, haccepted⟩
    exact ⟨loader, hloader, target, ⟨call, hcall, htarget⟩, haccepted⟩

theorem isFeatureRoutes_iff {target : Text} :
    isFeatureRoutes target = true ↔
      "./features/".toList <+: target ∧ ".routes".toList <:+ target := by
  rw [isFeatureRoutes, Bool.and_eq_true, List.isPrefixOf_iff_prefix, List.isSuffixOf_iff_suffix]
  rfl

/-- The way that a path asks for is the one that is looked for. -/
theorem loadingBreaches_eq_nil_iff {element : Node} {path : Text} :
    loadingBreaches element path = [] ↔ PathKept element path := by
  have hnotFound := @loads_iff element "loadComponent" (· = notFoundPage) (· = notFoundPage)
    fun target => decide_eq_true_iff
  have hfeature := @loads_iff element "loadChildren" isFeatureRoutes _ fun _ => isFeatureRoutes_iff
  rw [loadingBreaches]
  by_cases hempty : path = []
  · rw [if_pos hempty]
    have hkept : PathKept element path ↔
        ¬Lacks element "redirectTo" ∧ ¬Lacks element "pathMatch" := by
      subst hempty
      exact ⟨fun h => h.redirect rfl,
        fun h => ⟨fun _ => h, fun h => (nomatch h), fun h => absurd rfl h⟩⟩
    rw [hkept, ← hasProperty_eq_true_iff, ← hasProperty_eq_true_iff, ← Bool.and_eq_true]
    split <;> simp_all
  · rw [if_neg hempty]
    by_cases hwildcard : path = wildcardPath
    · rw [if_pos hwildcard]
      have hkept : PathKept element path ↔ LoadsBelow element "loadComponent" (· = notFoundPage) :=
        ⟨fun h => h.wildcard hwildcard,
          fun h => ⟨fun h => absurd h hempty, fun _ => h, fun _ h => absurd hwildcard h⟩⟩
      rw [hkept, ← hnotFound]
      split <;> simp_all
    · rw [if_neg hwildcard]
      have hkept : PathKept element path ↔ LoadsBelow element "loadChildren" fun target =>
          "./features/".toList <+: target ∧ ".routes".toList <:+ target :=
        ⟨fun h => h.feature hempty hwildcard,
          fun h => ⟨fun h => absurd h hempty, fun h => absurd h hwildcard, fun _ _ => h⟩⟩
      rw [hkept, ← hfeature]
      -- without a loader there is nothing below it
      by_cases hnone : (element.property? "loadChildren").isNone = true
      · have hloads : loads element "loadChildren" isFeatureRoutes = false := by
          rw [loads, Option.isNone_iff_eq_none.1 hnone]
          rfl
        rw [if_pos hnone, hloads]
        simp
      · rw [if_neg hnone]
        split <;> simp_all

/-- Nothing is wrong with an element exactly if it keeps the rules. -/
theorem elementBreaches_eq_nil_iff {element : Node} :
    elementBreaches element = [] ↔ RouteKept element := by
  rw [elementBreaches]
  by_cases hobject : element.kind = .object
  · rw [if_neg (not_not.2 hobject), List.append_eq_nil_iff]
    have hcomponent : (if element.hasProperty "component" = true then [Breach.component] else []) = [] ↔
        Lacks element "component" := by
      rw [← hasProperty_eq_false_iff]
      split <;> simp_all
    rw [hcomponent]
    constructor
    · rintro ⟨hlacks, hpath⟩
      cases hvalue : element.propertyString? "path" with
      | none => rw [hvalue] at hpath; cases hpath
      | some path =>
        rw [hvalue] at hpath
        exact ⟨hobject, hlacks, path, hvalue, loadingBreaches_eq_nil_iff.1 hpath⟩
    · rintro ⟨-, hlacks, path, hvalue, hkept⟩
      rw [hvalue]
      exact ⟨hlacks, loadingBreaches_eq_nil_iff.2 hkept⟩
  · rw [if_pos hobject]
    exact ⟨fun h => (nomatch h), fun h => absurd h.object hobject⟩

/-! ## The whole table -/

theorem isWildcard_iff {element : Node} : isWildcard element = true ↔ IsWildcard element := by
  rw [isWildcard, Bool.and_eq_true, decide_eq_true_eq, decide_eq_true_eq]
  rfl

/-- One element is counted exactly if it is the only one of its kind. -/
theorem wildcards_eq_one_iff {elements : List Node} :
    wildcards elements = 1 ↔ ∃ before element after, elements = before ++ element :: after ∧
      IsWildcard element ∧ ∀ other ∈ before ++ after, ¬IsWildcard other := by
  have hzero : ∀ {list : List Node}, list.countP isWildcard = 0 ↔ ∀ other ∈ list, ¬IsWildcard other := by
    intro list
    rw [List.countP_eq_zero]
    exact forall₂_congr fun other _ => not_congr isWildcard_iff
  constructor
  · intro h
    have hpos : 0 < elements.countP isWildcard := by
      rw [← wildcards, h]
      exact Nat.zero_lt_one
    obtain ⟨element, hmem, hwildcard⟩ := List.countP_pos_iff.1 hpos
    obtain ⟨before, after, rfl⟩ := List.append_of_mem hmem
    rw [wildcards, List.countP_append, List.countP_cons_of_pos hwildcard] at h
    have hbefore : before.countP isWildcard = 0 := by omega
    have hafter : after.countP isWildcard = 0 := by omega
    refine ⟨before, element, after, rfl, isWildcard_iff.1 hwildcard, fun other hother => ?_⟩
    rcases List.mem_append.1 hother with hother | hother
    · exact hzero.1 hbefore other hother
    · exact hzero.1 hafter other hother
  · rintro ⟨before, element, after, rfl, hwildcard, hothers⟩
    have hbefore := hzero.2 fun other hother => hothers other (List.mem_append_left after hother)
    have hafter := hzero.2 fun other hother => hothers other (List.mem_append_right before hother)
    rw [wildcards, List.countP_append, List.countP_cons_of_pos (isWildcard_iff.2 hwildcard), hbefore,
      hafter]

theorem isRouted_eq_false_iff {specifier : Text} :
    isRouted specifier = false ↔
      ¬".page".toList <:+: specifier ∧ ¬".component".toList <:+: specifier := by
  rw [isRouted, Bool.or_eq_false_iff, ← Bool.not_eq_true, ← Bool.not_eq_true,
    Text.occursIn_iff_infix, Text.occursIn_iff_infix]

theorem staticImportFindings_eq_nil_iff {root : Node} :
    staticImportFindings root = [] ↔ ∀ reference ∈ root.staticImports,
      ¬".page".toList <:+: reference.specifier ∧ ¬".component".toList <:+: reference.specifier := by
  rw [staticImportFindings, List.map_eq_nil_iff, List.filter_eq_nil_iff]
  refine forall₂_congr fun reference _ => ?_
  rw [Bool.not_eq_true, isRouted_eq_false_iff]

/-- Nothing is found exactly in a well composed table. -/
theorem findings_eq_nil_iff {root : Node} {elements : List Node} :
    findings root elements = [] ↔ WellComposed root elements := by
  have hcount : wildcardFindings (wildcards elements) = [] ↔ wildcards elements = 1 := by
    rw [wildcardFindings]
    split <;> simp_all
  have hroutes : (elements.flatMap fun element => (elementBreaches element).map fun breach =>
      Finding.mk breach (some element.line)) = [] ↔ ∀ element ∈ elements, RouteKept element := by
    rw [List.flatMap_eq_nil_iff]
    refine forall₂_congr fun element _ => ?_
    rw [List.map_eq_nil_iff, elementBreaches_eq_nil_iff]
  rw [findings, List.append_eq_nil_iff, List.append_eq_nil_iff, staticImportFindings_eq_nil_iff,
    hroutes, hcount, wildcards_eq_one_iff]
  exact ⟨fun h => ⟨h.1.1, h.1.2, h.2⟩, fun h => ⟨⟨h.imports, h.routes⟩, h.wildcard⟩⟩

/-! ## The verdict -/

/-- The violations of one element. -/
def routeViolations (file : Text) (element : Node) : List Violation :=
  (elementBreaches element).map fun breach => Finding.inFile file ⟨breach, some element.line⟩

/-- The violation of a static import. -/
def importViolation (file : Text) (reference : ImportReference) : Violation :=
  { file := some file
    message := Text.concat ["app.routes.ts must not statically import pages or components: '",
      reference.specifier, "'"]
    line := some (Int.ofNat reference.line) }

theorem map_findings (file : Text) (root : Node) (elements : List Node) :
    (findings root elements).map (·.inFile file) =
      (root.staticImports.filter fun reference => isRouted reference.specifier).map
          (importViolation file) ++
        elements.flatMap (routeViolations file) ++
        if wildcards elements = 1 then [] else [countViolation file (wildcards elements)] := by
  have hcount : (wildcardFindings (wildcards elements)).map (·.inFile file) =
      if wildcards elements = 1 then [] else [countViolation file (wildcards elements)] := by
    rw [wildcardFindings]
    split <;> rfl
  rw [findings, List.map_append, List.map_append, hcount, staticImportFindings, List.map_map,
    List.map_flatMap]
  simp only [List.map_map]
  rfl

theorem line_of_mem_routeViolations {file : Text} {element : Node} {violation : Violation}
    (h : violation ∈ routeViolations file element) : violation.line = some (Int.ofNat element.line) := by
  obtain ⟨breach, -, rfl⟩ := List.mem_map.1 h
  rfl

theorem countViolation_mem_iff {file : Text} {root : Node} {elements : List Node} :
    countViolation file (wildcards elements) ∈ (findings root elements).map (·.inFile file) ↔
      wildcards elements ≠ 1 := by
  rw [map_findings, List.mem_append, List.mem_append]
  constructor
  · rintro ((h | h) | h)
    · obtain ⟨reference, -, heq⟩ := List.mem_map.1 h
      cases congrArg Violation.line heq
    · obtain ⟨element, -, h⟩ := List.mem_flatMap.1 h
      cases line_of_mem_routeViolations h
    · intro hone
      rw [if_pos hone] at h
      cases h
  · intro h
    rw [if_neg h]
    exact .inr (List.mem_singleton_self _)

/-- On a file with a table the check comes to a verdict, with the findings in that table. -/
theorem exists_verdict {context : Context} {tree : FileTree} {source : SyntaxTree} {table : ExportedArray}
    (hfile : tree.hasFile context.appRoutes = true)
    (hread : tree.readSource context.appRoutes = .ok source)
    (htable : source.root.exportedArray? tableName = some table) :
    ∃ verdict, check context tree = .ok verdict ∧ verdict.violations =
      (findings source.root table.array.elements).map (·.inFile (context.relative context.appRoutes)) := by
  rw [check, readTable, hfile, hread, if_pos rfl]
  dsimp only
  rw [htable]
  exact ⟨_, rfl, rfl⟩

/-- The check of a route table finds nothing exactly if the table is well composed. Else it tells of
the static imports that are not allowed, in the order of the source, then of the elements that break
a rule, in the order of the table and each at its line, and at last of the number of wildcards,
exactly if that is not one. -/
theorem check_exact {context : Context} {tree : FileTree} {source : SyntaxTree} {table : ExportedArray}
    (hfile : tree.hasFile context.appRoutes = true)
    (hread : tree.readSource context.appRoutes = .ok source)
    (htable : source.root.exportedArray? "routes" = some table) :
    ∃ verdict file count, check context tree = .ok verdict ∧
      file = context.relative context.appRoutes ∧
      count = table.array.elements.countP isWildcard ∧
      (verdict.violations = [] ↔ WellComposed source.root table.array.elements) ∧
      (countViolation file count ∈ verdict.violations ↔ count ≠ 1) ∧
      verdict.violations =
        (source.root.staticImports.filter fun reference => isRouted reference.specifier).map
            (importViolation file) ++
          table.array.elements.flatMap (routeViolations file) ++
          (if count = 1 then [] else [countViolation file count]) ∧
      ∀ element, (routeViolations file element = [] ↔ RouteKept element) ∧
        ∀ violation ∈ routeViolations file element,
          violation.line = some (Int.ofNat element.line) := by
  obtain ⟨verdict, hrun, hviolations⟩ := exists_verdict hfile hread htable
  refine ⟨verdict, _, _, hrun, rfl, rfl, ?_, ?_, ?_, fun element => ⟨?_,
    fun violation hviolation => line_of_mem_routeViolations hviolation⟩⟩
  · rw [hviolations, List.map_eq_nil_iff, findings_eq_nil_iff]
  · rw [hviolations]
    exact countViolation_mem_iff
  · rw [hviolations]
    exact map_findings _ _ _
  · rw [routeViolations, List.map_eq_nil_iff, elementBreaches_eq_nil_iff]

/-! ## A small table -/

/-- A route table with a static import that is not allowed, a feature and no wildcard. -/
def tableText : Text :=
  "import \x7b X \x7d from './x.page';\nexport const routes = [\x7b path: 'a',\n" ++
    "loadChildren: () => import('./features/a/a.routes') \x7d];"

/-- A workspace with that table at the root of the file system. -/
def tableTree : FileTree :=
  .folder [("src", .folder [("app", .folder [
    ("app.routes.ts", .file (Text.Utf8.encode tableText))])])]

/-- The context of that workspace. -/
def tableContext : Context := ⟨⟨.root, []⟩, ⟨[]⟩, [], [], ⟨.root, ["src"]⟩, {}⟩

/-- In the small table the import and the number of wildcards are violations. -/
theorem check_exact_tableTree : ∃ source table verdict,
    tableTree.readSource tableContext.appRoutes = .ok source ∧
      source.root.exportedArray? "routes" = some table ∧
      check tableContext tableTree = .ok verdict ∧
      ¬WellComposed source.root table.array.elements ∧
      countViolation "src/app/app.routes.ts" 0 ∈ verdict.violations := by
  have hread : tableTree.readSource tableContext.appRoutes =
      .ok (SyntaxTree.ofTokens false (place (Feature.lexemesOf tableText))) := by
    have hbytes : tableTree.read tableContext.appRoutes = .ok (Text.Utf8.encode tableText) := rfl
    rw [FileTree.readSource, FileTree.readText, hbytes, Feature.lexemesOf_eq]
    dsimp only
    rw [Text.ofBytes_encode (by decide)]
    rfl
  have hcount : ((SyntaxTree.ofTokens false (place (Feature.lexemesOf tableText))).root.exportedArray?
      "routes").map (fun table => table.array.elements.countP isWildcard) = some 0 := by
    decide +kernel
  obtain ⟨table, htable, hzero⟩ := Option.map_eq_some_iff.1 hcount
  obtain ⟨verdict, file, count, hrun, rfl, rfl, hnil, hmem, -⟩ :=
    check_exact (by decide) hread htable
  rw [hzero] at hmem
  have hviolation := hmem.2 (by decide)
  refine ⟨_, table, verdict, hread, htable, hrun, fun hcomposed => ?_, hviolation⟩
  rw [hnil.2 hcomposed] at hviolation
  cases hviolation

end VerticalSlice.AppRoutes
