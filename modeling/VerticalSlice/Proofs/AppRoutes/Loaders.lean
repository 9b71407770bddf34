import VerticalSlice.Proofs.AppRoutes.Composition
import VerticalSlice.Proofs.Check.Report
import VerticalSlice.Proofs.Feature.Table
import VerticalSlice.Proofs.Path.Written

/-!
# Where the routes of a feature are loaded from

The rule for a route table asks that an element that leads to a feature loads
`./features/<feature>/<feature>.routes`, with the same name of one folder twice (`LoadsFeature`). The check
asks less: some module below the loader begins with `./features/` and ends with `.routes`, whatever stands
between. So it never complains of a loader that keeps the rule, and a table that passes keeps the rule
exactly where what stands between is one name on both sides of one slash (`loadsFeature_iff_of_passes`). A
table that loads the routes of a feature from another file passes too (`passes_with_other_routes`).
-/

namespace VerticalSlice.AppRoutes

open Syntax

/-! ## The rule -/

/-- The module with the routes of a feature. -/
def routesOf (feature : Text) : Text :=
  "./features/".toList ++ (feature ++ '/' :: feature) ++ ".routes".toList

/-- Has the element a path that is neither the empty one nor the wildcard? -/
def LeadsToFeature (element : Node) : Prop :=
  ∃ path, element.propertyString? "path" = some path ∧ path ≠ [] ∧ path ≠ "**".toList

/-- The element loads the routes of a feature whose name is that of one folder. -/
def LoadsFeature (element : Node) : Prop :=
  LoadsBelow element "loadChildren" fun target =>
    ∃ feature, feature ≠ [] ∧ '/' ∉ feature ∧ target = routesOf feature

/-- The element loads a module with this between the start and the end that are looked for. -/
def LoadsBetween (element : Node) (Between : Text → Prop) : Prop :=
  LoadsBelow element "loadChildren" fun target =>
    ∃ between, target = "./features/".toList ++ between ++ ".routes".toList ∧ Between between

variable {element : Node} {target : Text}

theorem LoadsBelow.mono {name : Text} {Accepted Accepted' : Text → Prop} (h : LoadsBelow element name Accepted)
    (himp : ∀ target, Accepted target → Accepted' target) : LoadsBelow element name Accepted' := by
  obtain ⟨loader, hloader, call, hcall, target, htarget, haccepted⟩ := h
  exact ⟨loader, hloader, call, hcall, target, htarget, himp target haccepted⟩

theorem loadsBelow_iff_of_deferredImports {name : Text} {Accepted : Text → Prop} {loader : Node}
    (hloader : element.property? name = some loader) (himports : loader.deferredImports = [target]) :
    LoadsBelow element name Accepted ↔ Accepted target := by
  have hmem : ∀ other, (∃ call ∈ loader.preorder, call.deferredTarget? = some other) ↔ other = target := by
    intro other
    rw [← List.mem_filterMap, ← Node.walk_eq_preorder, ← Node.deferredImports, himports, List.mem_singleton]
  constructor
  · rintro ⟨found, hfound, call, hcall, other, hother, haccepted⟩
    obtain rfl := Option.some.inj (hloader.symm.trans hfound)
    rwa [← (hmem other).1 ⟨call, hcall, hother⟩]
  · intro haccepted
    obtain ⟨call, hcall, htarget⟩ := (hmem target).2 rfl
    exact ⟨loader, hloader, call, hcall, target, htarget, haccepted⟩

/-! ## What stands between -/

/-- The start and the end that are looked for do not overlap: a slash ends the one, and the other has none. -/
theorem exists_between_iff : ("./features/".toList <+: target ∧ ".routes".toList <:+ target) ↔
    ∃ between, target = "./features/".toList ++ between ++ ".routes".toList := by
  constructor
  · rintro ⟨⟨back, rfl⟩, hsuffix⟩
    have hback : back <:+ "./features/".toList ++ back := List.suffix_append _ _
    rcases Nat.le_total ".routes".toList.length back.length with hlong | hshort
    · obtain ⟨between, rfl⟩ := List.suffix_of_suffix_length_le hsuffix hback hlong
      exact ⟨between, (List.append_assoc _ _ _).symm⟩
    · obtain ⟨overlap, hoverlap⟩ := List.suffix_of_suffix_length_le hback hsuffix hshort
      obtain ⟨front, hfront⟩ := hsuffix
      rw [← hoverlap, ← List.append_assoc] at hfront
      have hsplit := List.append_cancel_right hfront
      cases overlap using List.reverseRecOn with
      | nil =>
        rw [List.nil_append] at hoverlap
        exact ⟨[], by rw [hoverlap, List.append_nil]⟩
      | append_singleton rest c =>
        have hlast := congrArg List.getLast? hsplit
        rw [← List.append_assoc, List.getLast?_concat] at hlast
        have hc : c = '/' := Option.some.inj hlast
        have hmem : c ∈ ".routes".toList := by
          rw [← hoverlap]
          simp
        rw [hc] at hmem
        exact absurd hmem (by decide)
  · rintro ⟨between, rfl⟩
    refine ⟨?_, List.suffix_append _ _⟩
    rw [List.append_assoc]
    exact List.prefix_append _ _

theorem splitOn_eq_singleton {text name : Text} (h : Text.splitOn '/' text = [name]) :
    '/' ∉ text ∧ text = name := by
  by_cases hslash : '/' ∈ text
  · obtain ⟨first, second, rfl, hfirst⟩ := List.eq_append_cons_of_mem hslash
    rw [Text.splitOn_append_cons hfirst] at h
    exact absurd (List.cons.inj h).2 (Text.splitOn_ne_nil second)
  · rw [Text.splitOn_of_notMem hslash] at h
    exact ⟨hslash, (List.cons.inj h).1⟩

/-- A text that its slashes cut into the same name twice is this name on both sides of one slash. -/
theorem splitOn_eq_pair_iff {between name : Text} :
    Text.splitOn '/' between = [name, name] ↔ '/' ∉ name ∧ between = name ++ '/' :: name := by
  constructor
  · intro h
    by_cases hslash : '/' ∈ between
    · obtain ⟨first, second, rfl, hfirst⟩ := List.eq_append_cons_of_mem hslash
      rw [Text.splitOn_append_cons hfirst] at h
      obtain ⟨rfl, hrest⟩ := List.cons.inj h
      obtain ⟨-, rfl⟩ := splitOn_eq_singleton hrest
      exact ⟨hfirst, rfl⟩
    · rw [Text.splitOn_of_notMem hslash] at h
      exact nomatch (List.cons.inj h).2
  · rintro ⟨hname, rfl⟩
    rw [Text.splitOn_append_cons hname, Text.splitOn_of_notMem hname]

/-! ## The check -/

theorem loadsFeature_iff : LoadsFeature element ↔
    LoadsBetween element fun between => ∃ name, name ≠ [] ∧ Text.splitOn '/' between = [name, name] := by
  constructor
  · intro h
    refine h.mono fun target htarget => ?_
    obtain ⟨name, hne, hslash, rfl⟩ := htarget
    exact ⟨name ++ '/' :: name, rfl, name, hne, splitOn_eq_pair_iff.2 ⟨hslash, rfl⟩⟩
  · intro h
    refine h.mono fun target htarget => ?_
    obtain ⟨between, rfl, name, hne, hsplit⟩ := htarget
    obtain ⟨hslash, rfl⟩ := splitOn_eq_pair_iff.1 hsplit
    exact ⟨name, hne, hslash, rfl⟩

/-- What is asked of the loader of an element that leads to a feature. -/
theorem pathKept_iff {path : Text} (hne : path ≠ []) (hwildcard : path ≠ "**".toList) :
    PathKept element path ↔ LoadsBetween element fun _ => True := by
  constructor
  · intro h
    refine (h.feature hne hwildcard).mono fun target htarget => ?_
    obtain ⟨between, hbetween⟩ := exists_between_iff.1 htarget
    exact ⟨between, hbetween, trivial⟩
  · intro h
    refine ⟨fun hnil => absurd hnil hne, fun hstar => absurd hstar hwildcard, fun _ _ => ?_⟩
    refine h.mono fun target htarget => ?_
    obtain ⟨between, hbetween, -⟩ := htarget
    exact exists_between_iff.2 ⟨between, hbetween⟩

/-- An element that keeps the rule is an object without a component, or it is told of for another reason than
its loader. -/
theorem routeKept_iff_of_loadsFeature (hleads : LeadsToFeature element) (h : LoadsFeature element) :
    RouteKept element ↔ element.kind = .object ∧ Lacks element "component" := by
  obtain ⟨path, hpath, hne, hwildcard⟩ := hleads
  constructor
  · intro hkept
    exact ⟨hkept.object, hkept.noComponent⟩
  · rintro ⟨hobject, hlacks⟩
    refine ⟨hobject, hlacks, path, hpath, (pathKept_iff hne hwildcard).2 ?_⟩
    refine (loadsFeature_iff.1 h).mono fun target htarget => ?_
    obtain ⟨between, hbetween, -⟩ := htarget
    exact ⟨between, hbetween, trivial⟩

/-- On a table that passes, an element that leads to a feature loads some module that begins with
`./features/` and ends with `.routes`. It keeps the rule exactly if in one of these modules the text between is
the same name twice, with a slash in between. No element that keeps the rule is told of for its loader, in
whatever table. -/
theorem loadsFeature_iff_of_passes {context : Context} {tree : FileTree} {source : SyntaxTree}
    {table : ExportedArray} {verdict : Verdict} (hfile : tree.hasFile context.appRoutes = true)
    (hread : tree.readSource context.appRoutes = .ok source)
    (htable : source.root.exportedArray? "routes" = some table) (hcheck : check context tree = .ok verdict) :
    (verdict.violations = [] → ∀ element ∈ table.array.elements, LeadsToFeature element →
      LoadsBetween element (fun _ => True) ∧
      (LoadsFeature element ↔
        LoadsBetween element fun between => ∃ name, name ≠ [] ∧ Text.splitOn '/' between = [name, name])) ∧
    ∀ element ∈ table.array.elements, LeadsToFeature element → LoadsFeature element →
      (routeViolations (context.relative context.appRoutes) element = [] ↔
        element.kind = .object ∧ Lacks element "component") := by
  obtain ⟨result, hresult, hviolations⟩ := exists_verdict hfile hread htable
  obtain rfl := Except.ok.inj (hresult.symm.trans hcheck)
  constructor
  · intro hpass element helement hleads
    obtain ⟨path, hpath, hne, hwildcard⟩ := hleads
    rw [hviolations, List.map_eq_nil_iff, findings_eq_nil_iff] at hpass
    obtain ⟨other, hother, hkept⟩ := (hpass.routes element helement).path
    obtain rfl := Option.some.inj (hother.symm.trans hpath)
    exact ⟨(pathKept_iff hne hwildcard).1 hkept, loadsFeature_iff⟩
  · intro element _ hleads hloads
    rw [routeViolations, List.map_eq_nil_iff, elementBreaches_eq_nil_iff]
    exact routeKept_iff_of_loadsFeature hleads hloads

/-! ## A feature in a shop -/

/-- A redirect to a shop. -/
def shopRedirect : Text :=
  "export const routes = [\n  \x7b path: '', redirectTo: 'shop', pathMatch: 'full' \x7d,\n"

/-- The route to the shop up to its file. -/
def shopLoader : Text := "  \x7b path: 'shop', loadChildren: () => import('./features/shop/"

/-- What comes behind the file. -/
def shopWildcard : Text :=
  ".routes') \x7d,\n  \x7b path: '**', loadComponent: () => import('./shared/pages/not-found.page') \x7d,\n];\n"

/-- A table with one feature, whose routes are in this file of the folder of the shop. -/
def shopTable (file : Text) : Text := shopRedirect ++ shopLoader ++ file ++ shopWildcard

/-- In both tables nothing is found, and the route to the shop is the second element. -/
theorem shopTable_shape {file : Text} (h : file = "shop".toList ∨ file = "cart".toList) :
    '\r' ∉ shopTable file ∧ ∃ table element,
    (Feature.treeOf (shopTable file)).root.exportedArray? "routes" = some table ∧
      findings (Feature.treeOf (shopTable file)).root table.array.elements = [] ∧
      element ∈ table.array.elements ∧ element.propertyString? "path" = some "shop".toList ∧
      ∃ loader, element.property? "loadChildren" = some loader ∧
        loader.deferredImports = ["./features/shop/".toList ++ file ++ ".routes".toList] := by
  have hshape : '\r' ∉ shopTable file ∧
      ((Feature.treeOf (shopTable file)).root.exportedArray? "routes").map (fun table =>
        ((findings (Feature.treeOf (shopTable file)).root table.array.elements).isEmpty,
          (table.array.elements[1]?).any fun element =>
            element.propertyString? "path" = some ("shop" : Text) &&
              (element.property? "loadChildren").map Node.deferredImports =
                some ["./features/shop/".toList ++ file ++ ".routes".toList])) = some (true, true) := by
    -- the characters are written out, since the kernel would decode them from the bytes of the strings
    have hredirect : shopRedirect = _ := String.toList_ofList
    have hloader : shopLoader = _ := String.toList_ofList
    have hwildcard : shopWildcard = _ := String.toList_ofList
    rw [shopTable, hredirect, hloader, hwildcard]
    rcases h with rfl | rfl <;> decide +kernel
  obtain ⟨hnormal, hshape⟩ := hshape
  refine ⟨hnormal, ?_⟩
  obtain ⟨table, htable, hshape⟩ := Option.map_eq_some_iff.1 hshape
  obtain ⟨hfindings, hsecond⟩ := Prod.mk.inj hshape
  obtain ⟨element, helement, hsecond⟩ := (Option.any_eq_true _ _).1 hsecond
  rw [Bool.and_eq_true, decide_eq_true_eq, decide_eq_true_eq] at hsecond
  obtain ⟨loader, hloader, himports⟩ := Option.map_eq_some_iff.1 hsecond.2
  exact ⟨table, element, htable, List.isEmpty_iff.1 hfindings, List.mem_of_getElem? helement, hsecond.1, loader,
    hloader, himports⟩

/-- The check of such a table finds nothing. -/
theorem exists_check_shopTable {file : Text} (h : file = "shop".toList ∨ file = "cart".toList) :
    ∃ table element verdict,
      (Feature.treeWith (shopTable file)).readSource tableContext.appRoutes =
        .ok (Feature.treeOf (shopTable file)) ∧
      (Feature.treeOf (shopTable file)).root.exportedArray? "routes" = some table ∧
      check tableContext (Feature.treeWith (shopTable file)) = .ok verdict ∧ verdict.violations = [] ∧
      element ∈ table.array.elements ∧ LeadsToFeature element ∧
      (LoadsFeature element ↔ ∃ name, name ≠ [] ∧
        Text.splitOn '/' ("shop/".toList ++ file) = [name, name]) := by
  obtain ⟨hnormal, table, element, htable, hfindings, helement, hpath, loader, hloader, himports⟩ :=
    shopTable_shape h
  obtain ⟨verdict, hcheck, hviolations⟩ := Feature.exists_check_treeWith hnormal htable hfindings
  refine ⟨table, element, verdict, Feature.readSource_treeWith hnormal, htable, hcheck, hviolations, helement,
    ⟨_, hpath, by decide, by decide⟩, ?_⟩
  rw [loadsFeature_iff, LoadsBetween, loadsBelow_iff_of_deferredImports hloader himports]
  constructor
  · rintro ⟨between, heq, hname⟩
    have hbetween : "./features/".toList ++ ("shop/".toList ++ file) = "./features/".toList ++ between :=
      List.append_cancel_right heq
    rwa [List.append_cancel_left hbetween]
  · intro hname
    exact ⟨"shop/".toList ++ file, rfl, hname⟩

/-- Where the shop has its routes in the file of its own name, the rule is kept. -/
theorem loadsFeature_iff_of_passes_shopTable : ∃ table element verdict,
    (Feature.treeOf (shopTable "shop")).root.exportedArray? "routes" = some table ∧
      check tableContext (Feature.treeWith (shopTable "shop")) = .ok verdict ∧ verdict.violations = [] ∧
      element ∈ table.array.elements ∧ LeadsToFeature element ∧
      LoadsBetween element (fun _ => True) ∧ LoadsFeature element := by
  have hfile := FileTree.hasFile_of_readText (Feature.readText_treeWith (shopTable_shape (.inl rfl)).1)
  obtain ⟨table, element, verdict, hread, htable, hcheck, hpass, helement, hleads, hloads⟩ :=
    exists_check_shopTable (.inl rfl)
  obtain ⟨hbetween, -⟩ :=
    (loadsFeature_iff_of_passes hfile hread htable hcheck).1 hpass element helement hleads
  exact ⟨table, element, verdict, htable, hcheck, hpass, helement, hleads, hbetween,
    hloads.2 ⟨"shop", by decide, by decide⟩⟩

/-- Where the shop has its routes in another file, the table passes as well, and the rule is not kept. -/
theorem passes_with_other_routes : ∃ source table element verdict,
    (Feature.treeWith (shopTable "cart")).readSource tableContext.appRoutes = .ok source ∧
      source.root.exportedArray? "routes" = some table ∧
      check tableContext (Feature.treeWith (shopTable "cart")) = .ok verdict ∧ verdict.violations = [] ∧
      element ∈ table.array.elements ∧ LeadsToFeature element ∧ ¬LoadsFeature element := by
  obtain ⟨table, element, verdict, hread, htable, hcheck, hpass, helement, hleads, hloads⟩ :=
    exists_check_shopTable (.inr rfl)
  refine ⟨_, table, element, verdict, hread, htable, hcheck, hpass, helement, hleads, ?_⟩
  rw [hloads]
  rintro ⟨name, -, hsplit⟩
  have hpair : Text.splitOn '/' ("shop/".toList ++ "cart".toList) = ["shop".toList, "cart".toList] := by decide
  rw [hpair] at hsplit
  obtain ⟨rfl, hrest⟩ := List.cons.inj hsplit
  exact absurd (List.cons.inj hrest).1 (by decide)

end VerticalSlice.AppRoutes
