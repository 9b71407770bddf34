import Mathlib.Data.List.Infix
import VerticalSlice.Proofs.Color.Filled
import VerticalSlice.Proofs.Color.Joined
import VerticalSlice.Proofs.Feature.Table
import VerticalSlice.Proofs.Syntax.Located

/-!
# A table that grows route by route

A table begins as a redirect and a wildcard. Each call puts its route in front of the wildcard, so the table
always is the redirect, the routes of the calls in their order, and the wildcard (`IsRouting`). What one call
needs of the text, and what it keeps up, is named once (`IsTable`): the objects of the file are the elements of
its table, so that the wildcard is found, and no mark of a route is in the text but those of the calls.
-/

namespace VerticalSlice.Feature

open Syntax

variable {f : Label → Label} {node : Node}

/-! ## The elements -/

/-- The object leads from the empty path to another one. -/
structure RedirectsTo (target : Text) (node : Node) : Prop where
  kind_eq : node.kind = .object
  names_eq : node.pairs.map (·.1) = [some "path".toList, some "pathMatch".toList, some "redirectTo".toList]
  path_eq : node.propertyString? "path" = some []
  match_eq : node.propertyString? "pathMatch" = some "full".toList
  target_eq : node.propertyString? "redirectTo" = some target

/-- The object leads from the path of the wildcard to a page, which its loader loads. -/
structure LoadsPage (page : Text) (node : Node) : Prop where
  kind_eq : node.kind = .object
  names_eq : node.pairs.map (·.1) = [some "path".toList, some "loadComponent".toList]
  path_eq : node.propertyString? "path" = some AppRoutes.wildcardPath
  loader_eq : (node.property? "loadComponent").map Node.deferredImports = some [page]

instance (target : Text) (node : Node) : Decidable (RedirectsTo target node) :=
  decidable_of_iff (node.kind = .object ∧
      node.pairs.map (·.1) = [some "path".toList, some "pathMatch".toList, some "redirectTo".toList] ∧
      node.propertyString? "path" = some [] ∧ node.propertyString? "pathMatch" = some "full".toList ∧
      node.propertyString? "redirectTo" = some target)
    ⟨fun h => ⟨h.1, h.2.1, h.2.2.1, h.2.2.2.1, h.2.2.2.2⟩,
      fun h => ⟨h.kind_eq, h.names_eq, h.path_eq, h.match_eq, h.target_eq⟩⟩

instance (page : Text) (node : Node) : Decidable (LoadsPage page node) :=
  decidable_of_iff (node.kind = .object ∧
      node.pairs.map (·.1) = [some "path".toList, some "loadComponent".toList] ∧
      node.propertyString? "path" = some AppRoutes.wildcardPath ∧
      (node.property? "loadComponent").map Node.deferredImports = some [page])
    ⟨fun h => ⟨h.1, h.2.1, h.2.2.1, h.2.2.2⟩, fun h => ⟨h.kind_eq, h.names_eq, h.path_eq, h.loader_eq⟩⟩

theorem names_relabel {g : Text → Text} (h : Relabels f g node) :
    (node.relabel f).pairs.map (·.1) = node.pairs.map (·.1) := by
  rw [h.pairs_eq, List.map_map]
  rfl

theorem propertyString?_relabel (h : Relabels f id node) (name : Text) :
    (node.relabel f).propertyString? name = node.propertyString? name := by
  rw [h.propertyString?, Option.map_id]
  rfl

theorem RedirectsTo.relabel {target : Text} (h : RedirectsTo target node) (hlabels : Relabels f id node) :
    RedirectsTo target (node.relabel f) where
  kind_eq := (hlabels.kind_relabel node).trans h.kind_eq
  names_eq := (names_relabel hlabels).trans h.names_eq
  path_eq := (propertyString?_relabel hlabels _).trans h.path_eq
  match_eq := (propertyString?_relabel hlabels _).trans h.match_eq
  target_eq := (propertyString?_relabel hlabels _).trans h.target_eq

theorem LoadsPage.relabel {page : Text} (h : LoadsPage page node) (hlabels : Relabels f id node) :
    LoadsPage page (node.relabel f) where
  kind_eq := (hlabels.kind_relabel node).trans h.kind_eq
  names_eq := (names_relabel hlabels).trans h.names_eq
  path_eq := (propertyString?_relabel hlabels _).trans h.path_eq
  loader_eq := by
    rw [loader_relabel hlabels, h.loader_eq]
    rfl

/-! ### The rules for elements -/

theorem lacks_of_names {names : List (Option Text)} {name : Text} (h : node.pairs.map (·.1) = names)
    (hname : some name ∉ names) : AppRoutes.Lacks node name := by
  intro pair hpair heq
  rw [← h, ← heq] at hname
  exact hname (List.mem_map_of_mem hpair)

theorem not_lacks_of_names {names : List (Option Text)} {name : Text} (h : node.pairs.map (·.1) = names)
    (hname : some name ∈ names) : ¬AppRoutes.Lacks node name := by
  rw [← h, List.mem_map] at hname
  obtain ⟨pair, hpair, heq⟩ := hname
  exact fun hlacks => hlacks pair hpair heq

theorem loadsBelow_of_loader {name target : Text} {Accepted : Text → Prop}
    (h : (node.property? name).map Node.deferredImports = some [target]) (haccepted : Accepted target) :
    AppRoutes.LoadsBelow node name Accepted := by
  obtain ⟨loader, hloader, himports⟩ := Option.map_eq_some_iff.1 h
  have hmem : target ∈ loader.deferredImports := himports ▸ List.mem_singleton_self _
  rw [Node.deferredImports, Node.walk_eq_preorder, List.mem_filterMap] at hmem
  obtain ⟨call, hcall, htarget⟩ := hmem
  exact ⟨loader, hloader, call, hcall, target, htarget, haccepted⟩

theorem RedirectsTo.routeKept {target : Text} (h : RedirectsTo target node) : AppRoutes.RouteKept node where
  object := h.kind_eq
  noComponent := lacks_of_names h.names_eq (by decide)
  path := ⟨[], h.path_eq, ⟨fun _ => ⟨not_lacks_of_names h.names_eq (by decide),
    not_lacks_of_names h.names_eq (by decide)⟩, fun heq => (nomatch heq), fun hne => absurd rfl hne⟩⟩

theorem LoadsPage.routeKept (h : LoadsPage AppRoutes.notFoundPage node) : AppRoutes.RouteKept node where
  object := h.kind_eq
  noComponent := lacks_of_names h.names_eq (by decide)
  path := ⟨_, h.path_eq, ⟨fun heq => (nomatch heq), fun _ => loadsBelow_of_loader h.loader_eq rfl,
    fun _ hne => absurd rfl hne⟩⟩

/-- The path is neither the empty one nor that of the wildcard, for which there are rules of their own. -/
def IsOrdinary (route : Text) : Prop := route ≠ [] ∧ route ≠ AppRoutes.wildcardPath

theorem IsRoute.isOrdinary {route : Text} (h : IsRoute route) : IsOrdinary route := by
  refine ⟨h.1, ?_⟩
  rintro rfl
  exact absurd (h.2 '*' (by decide)) (by decide)

theorem LeadsTo.routeKept {route : Text} {kebab : Text} (hroute : IsOrdinary route)
    (h : LeadsTo route (routesModule kebab) node) : AppRoutes.RouteKept node where
  object := h.kind_eq
  noComponent := lacks_of_names h.names_eq (by decide)
  path := by
    refine ⟨route, h.path_eq, ⟨fun heq => absurd heq hroute.1, fun heq => absurd heq hroute.2,
      fun _ _ => loadsBelow_of_loader h.loader_eq ⟨?_, ?_⟩⟩⟩
    · exact ⟨kebab ++ "/".toList ++ kebab ++ ".routes".toList, by simp [routesModule, Text.concat]⟩
    · exact ⟨"./features/".toList ++ kebab ++ "/".toList ++ kebab, by simp [routesModule, Text.concat]⟩

/-! ## The table -/

/-- The elements are the redirect, the objects of the routes of these calls in their order, and the wildcard. -/
def IsRouting (calls : List Call) (elements : List Node) : Prop :=
  ∃ home entries wildcard, elements = home :: (entries ++ [wildcard]) ∧ RedirectsTo "home" home ∧
    List.Forall₂ (fun call entry => LeadsTo call.route (routesModule call.name.kebab) entry) calls entries ∧
    LoadsPage AppRoutes.notFoundPage wildcard

/-- The module that an import statement names. -/
def importedModule? (node : Node) : Option Text :=
  if node.kind = .importStatement then (node.child? .source).bind Node.stringValue? else none

/-- The tree exports a table with the routes of these calls, and it has no objects but the elements of the table.
Nothing that is routed is imported statically. -/
structure HasRouting (calls : List Call) (root : Node) : Prop where
  table : ∃ table, root.exportedArray? AppRoutes.tableName = some table ∧ IsRouting calls table.array.elements ∧
    root.preorder.countP (fun node => decide (node.kind = .object)) = table.array.elements.length
  imports : ∀ specifier ∈ root.preorder.filterMap importedModule?, AppRoutes.isRouted specifier = false

theorem importedModule?_of_static {reference : ImportReference}
    (h : node.importReference? false = some reference) (hstatic : reference.kind = .static) :
    importedModule? node = some reference.specifier := by
  rw [Node.importReference?] at h
  rw [importedModule?]
  split at h
  · next hkind =>
    obtain ⟨specifier, hspecifier, rfl⟩ := Option.map_eq_some_iff.1 h
    rw [if_pos hkind, hspecifier]
  · split at h
    · obtain ⟨specifier, -, rfl⟩ := Option.map_eq_some_iff.1 h
      cases hstatic
    · rw [if_neg Bool.false_ne_true] at h
      cases h

variable {calls : List Call} {root : Node} {elements : List Node}

/-- Each entry is the object of the route of a call. -/
theorem exists_call_of_mem {entries : List Node}
    (h : List.Forall₂ (fun call entry => LeadsTo call.route (routesModule call.name.kebab) entry) calls entries)
    {entry : Node} (hentry : entry ∈ entries) :
    ∃ call ∈ calls, LeadsTo call.route (routesModule call.name.kebab) entry := by
  obtain ⟨place, hplace, rfl⟩ := List.getElem_of_mem hentry
  exact ⟨calls.get ⟨place, h.length_eq ▸ hplace⟩, List.get_mem _ _, h.get _ _⟩

theorem not_isWildcard_of_path {path : Text} (h : node.propertyString? "path" = some path)
    (hne : path ≠ AppRoutes.wildcardPath) : ¬AppRoutes.IsWildcard node := by
  rintro ⟨-, hwildcard⟩
  rw [h] at hwildcard
  exact hne (Option.some.inj hwildcard)

/-- Of the elements only the last is a wildcard. -/
theorem IsRouting.exists_wildcard (h : IsRouting calls elements) (hcalls : ∀ call ∈ calls, IsOrdinary call.route) :
    ∃ before wildcard, elements = before ++ [wildcard] ∧ AppRoutes.IsWildcard wildcard ∧
      ∀ other ∈ before, ¬AppRoutes.IsWildcard other := by
  obtain ⟨home, entries, wildcard, rfl, hhome, hentries, hwildcard⟩ := h
  refine ⟨home :: entries, wildcard, rfl, ⟨hwildcard.kind_eq, hwildcard.path_eq⟩, List.forall_mem_cons.2
    ⟨not_isWildcard_of_path hhome.path_eq (by decide), fun entry hentry => ?_⟩⟩
  obtain ⟨call, hcall, hleads⟩ := exists_call_of_mem hentries hentry
  exact not_isWildcard_of_path hleads.path_eq (hcalls call hcall).2

theorem IsRouting.routeKept (h : IsRouting calls elements) (hcalls : ∀ call ∈ calls, IsOrdinary call.route) :
    ∀ element ∈ elements, AppRoutes.RouteKept element := by
  obtain ⟨home, entries, wildcard, rfl, hhome, hentries, hwildcard⟩ := h
  refine List.forall_mem_cons.2 ⟨hhome.routeKept, List.forall_mem_append.2 ⟨fun entry hentry => ?_,
    List.forall_mem_singleton.2 hwildcard.routeKept⟩⟩
  obtain ⟨call, hcall, hleads⟩ := exists_call_of_mem hentries hentry
  exact hleads.routeKept (hcalls call hcall)

/-- In such a tree the check of the table finds nothing. -/
theorem HasRouting.wellComposed (h : HasRouting calls root) (hcalls : ∀ call ∈ calls, IsOrdinary call.route) :
    ∃ table, root.exportedArray? AppRoutes.tableName = some table ∧ IsRouting calls table.array.elements ∧
      AppRoutes.WellComposed root table.array.elements := by
  obtain ⟨table, htable, hrouting, -⟩ := h.table
  refine ⟨table, htable, hrouting, ⟨fun reference hreference => ?_, hrouting.routeKept hcalls, ?_⟩⟩
  · obtain ⟨hfound, hstatic⟩ := List.mem_filter.1 hreference
    rw [Node.importReferences, Node.walk_eq_preorder, List.mem_filterMap] at hfound
    obtain ⟨node, hnode, hfound⟩ := hfound
    exact AppRoutes.isRouted_eq_false_iff.1 (h.imports _ (List.mem_filterMap.2
      ⟨node, hnode, importedModule?_of_static hfound (of_decide_eq_true hstatic)⟩))
  · obtain ⟨before, wildcard, helements, hwildcard, hothers⟩ := hrouting.exists_wildcard hcalls
    exact ⟨before, wildcard, [], helements, hwildcard, by rwa [List.append_nil]⟩

/-- The wildcard is the first of the file, since the file has no objects but the elements. -/
theorem HasRouting.firstWildcardIsRoute (h : HasRouting calls root) (hcalls : ∀ call ∈ calls, IsOrdinary call.route) :
    FirstWildcardIsRoute root := by
  obtain ⟨table, htable, hrouting, hcount⟩ := h.table
  obtain ⟨before, wildcard, helements, hwildcard, -⟩ := hrouting.exists_wildcard hcalls
  refine Feature.firstWildcardIsRoute htable
    (fun element helement => (hrouting.routeKept hcalls element helement).object) hcount ?_ hwildcard
  rw [helements]
  exact List.mem_append_right _ (List.mem_singleton_self _)

/-! ## One more route -/

/-- Is the node an object? -/
def objectAsk (node : Node) : Option Unit := if node.kind = .object then some () else none

theorem unaware_objectAsk : Unaware objectAsk where
  array label inner hkind := if_neg (by rw [Node.kind, Node.label, hkind]; decide)
  around outer label before behind _ _ := ⟨if outer.kind = .object then some () else none, fun _ => rfl⟩

theorem unaware_importedModule? : Unaware importedModule? where
  array label inner hkind := if_neg (by rw [Node.kind, Node.label, hkind]; decide)
  around outer label before behind _ hlabel := by
    have hstring : label.kind ≠ .string := by
      rintro hkind
      rw [hkind] at hlabel
      cases hlabel
    refine ⟨importedModule? (.mk outer (before ++ .mk label [] :: behind)), fun inner => ?_⟩
    rw [importedModule?, importedModule?, Node.child?, Node.child?]
    simp only [Node.children, Node.kind, Node.label, List.find?_append, List.find?_cons]
    congr 1
    cases before.find? fun child => decide (child.role = some .source) with
    | some child => rfl
    | none =>
      by_cases hrole : label.role = some .source
      · simp [Node.role, Node.label, hrole, Node.stringValue?, Node.kind, hstring]
      · simp [Node.role, Node.label, hrole]

/-- A question that a move does not change has the same answers in the moved nodes. -/
theorem filterMap_preorderAll_move {α : Type} {ask : Node → Option α} {move : Move} {nodes : List Node}
    (h : ∀ node ∈ Node.preorderAll nodes, ask (move.node node) = ask node) :
    (Node.preorderAll (nodes.map move.node)).filterMap ask = (Node.preorderAll nodes).filterMap ask := by
  rw [show nodes.map move.node = Node.relabelEach move.label nodes from (Node.relabelEach_eq_map _ _).symm,
    Node.preorderAll_relabelEach, List.filterMap_map]
  exact List.filterMap_congr h

/-- Where nodes come into an array, the answers in the tree are those from before, with those of the new nodes. -/
theorem ChangesOnly.exists_answers {α : Type} {ask : Node → Option α} (hask : Unaware ask) {move : Move}
    (hmoves : ∀ node ∈ root.preorder, ask (move.node node) = ask node) (hroot : ask root = none) {grown : Node}
    (hgrown : ask grown = none) {array : Node} (harray : array ∈ root.preorder) {first second : List Node}
    (hchildren : array.children = first ++ second) {new : List Node}
    (h : ChangesOnly move root grown array.children (first.map move.node ++ (new ++ second.map move.node))) :
    ∃ front back, root.preorder.filterMap ask = front ++ back ∧
      grown.preorder.filterMap ask = front ++ ((Node.preorderAll new).filterMap ask ++ back) := by
  obtain ⟨rows, hrows, hold, hnew⟩ := h
  obtain ⟨front, back, hanswers⟩ := hrows.exists_filterMap hask
  have hpreorder : ∀ {node : Node}, ask node = none →
      node.preorder.filterMap ask = (Node.preorderAll node.children).filterMap ask := by
    rintro ⟨label, children⟩ hnone
    rw [Node.preorder, List.filterMap_cons_none hnone]
    rfl
  have hinside : ∀ {nodes : List Node}, (∀ node ∈ nodes, node ∈ root.preorder) →
      (Node.preorderAll (nodes.map move.node)).filterMap ask = (Node.preorderAll nodes).filterMap ask :=
    fun hnodes => filterMap_preorderAll_move fun node hnode => by
      obtain ⟨child, hchild, hnode⟩ := Node.mem_preorderAll_iff.1 hnode
      exact hmoves node (Node.mem_preorder_trans hnode (hnodes child hchild))
  have hall : ∀ child ∈ first ++ second, child ∈ root.preorder := fun child hchild =>
    Node.mem_preorder_of_mem_children (hchildren ▸ hchild) harray
  obtain ⟨hfirst, hsecond⟩ := List.forall_mem_append.1 hall
  have hbefore : root.preorder.filterMap ask =
      front ++ (Node.preorderAll (first ++ second)).filterMap ask ++ back := by
    rw [hpreorder hroot, ← hinside fun child hchild => Node.mem_preorder_of_mem_children hchild
      (Node.self_mem_preorder root), hold, hanswers, hinside (hchildren ▸ hall), hchildren]
  refine ⟨front ++ (Node.preorderAll first).filterMap ask, (Node.preorderAll second).filterMap ask ++ back, ?_, ?_⟩
  · rw [hbefore, Node.preorderAll_append, List.filterMap_append]
    simp only [List.append_assoc]
  · rw [hpreorder hgrown, hnew, hanswers, Node.preorderAll_append, Node.preorderAll_append, List.filterMap_append,
      List.filterMap_append, hinside hfirst, hinside hsecond]
    simp only [List.append_assoc]

theorem importedModule?_relabel (h : Relabels f id node) : importedModule? (node.relabel f) = importedModule? node := by
  rw [importedModule?, importedModule?, h.kind_relabel, h.child?_relabel]
  cases hchild : node.child? .source with
  | none => rfl
  | some child =>
    have hvalue := (h.of_mem_children (Node.mem_children_of_child? hchild)).stringValue?
    rw [Option.map_id] at hvalue
    rw [Option.map_some, Option.bind_some, Option.bind_some, hvalue]
    rfl

/-- The tree of a program is made of names, literals, comments and what is around them. -/
theorem lexical_program {lexemes : List Lexeme} (hcut : ∀ lexeme ∈ lexemes, lexeme.IsCut) {nodes : List Node}
    (h : programNodes? false (place lexemes) = some nodes) : (Node.branch .program nodes).Lexical := by
  obtain ⟨steps, -, rfl, hlexical⟩ := exists_steps_of_programNodes? hcut h
  refine .branch rfl (List.forall_mem_append.2 ⟨hlexical, List.forall_mem_map.2 fun comment hcomment => .token ?_⟩)
  have hall : itemTokens (items (place lexemes)).1 ++ (items (place lexemes)).2 = [] ++ place lexemes :=
    itemTokens_itemsFrom [] (place lexemes)
  exact blanks_of_mem_placeFrom hcut (hall ▸ List.mem_append_right _ hcomment)

/-- In front of the wildcard one more route is the last of the routes. -/
theorem IsRouting.insert {before behind : List Node} {wildcard entry : Node} {call : Call} {move : Move}
    (h : IsRouting calls (before ++ wildcard :: behind)) (hcalls : ∀ call ∈ calls, IsOrdinary call.route)
    (hwildcard : AppRoutes.IsWildcard wildcard)
    (hlabels : ∀ element ∈ before ++ wildcard :: behind, Relabels move.label id element)
    (hleads : LeadsTo call.route (routesModule call.name.kebab) entry) :
    IsRouting (calls ++ [call]) (before.map move.node ++ entry :: (wildcard :: behind).map move.node) := by
  obtain ⟨rest, only, hrest, -, hothers⟩ := h.exists_wildcard hcalls
  have hlast : behind = [] := by
    rcases List.eq_nil_or_concat behind with hnil | ⟨less, other, rfl⟩
    · exact hnil
    · rw [List.concat_eq_append, ← List.cons_append, ← List.append_assoc] at hrest
      obtain ⟨rfl, -⟩ := List.append_inj' hrest rfl
      exact absurd hwildcard (hothers wildcard (List.mem_append_right _ (List.mem_cons_self ..)))
  subst hlast
  obtain ⟨home, entries, last, helements, hhome, hentries, hpage⟩ := h
  rw [← List.cons_append] at helements
  obtain ⟨rfl, hsame⟩ := List.append_inj' helements rfl
  obtain rfl := List.head_eq_of_cons_eq hsame
  rw [List.cons_append, List.forall_mem_cons, List.forall_mem_append, List.forall_mem_singleton] at hlabels
  refine ⟨move.node home, entries.map move.node ++ [entry], move.node wildcard, by simp, hhome.relabel hlabels.1, ?_,
    hpage.relabel hlabels.2.2⟩
  refine List.rel_append ?_ (.cons hleads .nil)
  rw [List.forall₂_map_right_iff, List.forall₂_iff_zip]
  exact ⟨hentries.length_eq, fun hmem =>
    (List.forall₂_zip hentries hmem).relabel (hlabels.2.1 _ (List.of_mem_zip hmem).2)⟩

/-- The question for objects counts them. -/
theorem countP_object (nodes : List Node) :
    nodes.countP (fun node => decide (node.kind = .object)) = (nodes.filterMap objectAsk).length := by
  rw [List.length_filterMap_eq_countP]
  congr 1
  funext node
  rw [objectAsk]
  split <;> simp_all

/-- An entry and its comma add the answer for the entry itself, if what is in it is not asked about. -/
theorem filterMap_entry {α : Type} {ask : Node → Option α} {entry comma : Node} (hbare : comma.children = [])
    (hcomma : ask comma = none) (hinside : ∀ other ∈ Node.preorderAll entry.children, ask other = none) :
    (Node.preorderAll [entry, comma]).filterMap ask = [entry].filterMap ask := by
  obtain ⟨label, children⟩ := entry
  obtain ⟨label', children'⟩ := comma
  obtain rfl : children' = [] := hbare
  have hnone : (Node.preorderAll children).filterMap ask = [] := List.filterMap_eq_nil_iff.2 hinside
  simp only [Node.preorderAll, Node.preorder, List.append_nil, List.cons_append]
  rw [← List.singleton_append, List.filterMap_append, List.filterMap_append, hnone, List.filterMap_cons_none hcomma]
  simp

/-- With the object of a route in front of the wildcard the tree has the route as well. -/
theorem HasRouting.insert {call : Call} {move : Move} {grown wildcard entry comma : Node} {table : ExportedArray}
    {first second : List Node} (h : HasRouting calls root) (hcalls : ∀ call ∈ calls, IsOrdinary call.route)
    (hroot : root.Lexical) (hprogram : root.kind = .program) (hprogram' : grown.kind = .program)
    (hmove : move.blanks.all isSpace = true)
    (htable : root.exportedArray? AppRoutes.tableName = some table)
    (hchildren : table.array.children = first ++ wildcard :: second) (hwildcard : AppRoutes.IsWildcard wildcard)
    (hexported : grown.exportedArray? AppRoutes.tableName = some ⟨table.name, .mk (move.label table.array.label)
      (first.map move.node ++ entry :: comma :: (wildcard :: second).map move.node)⟩)
    (hleads : LeadsTo call.route (routesModule call.name.kebab) entry) (hcomma : comma.kind = .mark)
    (hbare : comma.children = [])
    (hchanges : ChangesOnly move root grown table.array.children
      (first.map move.node ++ entry :: comma :: (wildcard :: second).map move.node)) :
    HasRouting (calls ++ [call]) grown := by
  obtain ⟨_, htable', hrouting, hcount⟩ := h.table
  obtain rfl := Option.some.inj (htable.symm.trans htable')
  have harray := Node.array_mem_preorder (List.mem_of_find?_eq_some htable)
  have hlabels := hroot.renames hmove
  obtain ⟨exported, label, children⟩ := table
  obtain rfl : children = first ++ wildcard :: second := hchildren
  have helements := elements_append_cons label first second hwildcard.1
  have hgrown := elements_insert (move.label label) (first.map move.node) ((wildcard :: second).map move.node)
    hleads.kind_eq hcomma
  have hrest : (Node.mk label (wildcard :: second)).elements = wildcard :: (Node.mk label second).elements :=
    elements_append_cons label [] second hwildcard.1
  rw [elements_map _ _ label, elements_map _ _ label, hrest] at hgrown
  refine ⟨⟨_, hexported, ?_, ?_⟩, ?_⟩
  · dsimp only [Node.label] at hrouting ⊢
    rw [hgrown]
    rw [helements] at hrouting
    refine hrouting.insert hcalls hwildcard (fun element helement => ?_) hleads
    rw [← helements] at helement
    exact hlabels.of_mem (Node.mem_preorder_of_mem_elements helement harray)
  · -- of the objects in the tree there is one more, the entry, and so it is with the elements
    obtain ⟨front, back, hold, hanswers⟩ := @ChangesOnly.exists_answers root _ objectAsk unaware_objectAsk move
      (fun node _ => by rw [objectAsk, Move.kind_node, objectAsk]) (by rw [objectAsk, hprogram]; rfl) grown
      (by rw [objectAsk, hprogram']; rfl) _ harray first (wildcard :: second) rfl [entry, comma] hchanges
    have hinside : ∀ other ∈ Node.preorderAll entry.children, objectAsk other = none := fun other hother =>
      if_neg fun hkind => hleads.inside other hother (by rw [hkind]; exact List.mem_cons_self ..)
    rw [countP_object, hold, List.length_append] at hcount
    rw [countP_object, hanswers, filterMap_entry hbare (by rw [objectAsk, hcomma]; rfl) hinside]
    dsimp only [Node.label] at hcount ⊢
    rw [hgrown]
    rw [helements] at hcount
    have hone : [entry].filterMap objectAsk = [()] := by
      rw [List.filterMap_cons_some (show objectAsk entry = some () from if_pos hleads.kind_eq)]
      rfl
    rw [hone]
    simp only [List.length_append, List.length_cons, List.length_map, List.length_nil] at hcount ⊢
    omega
  · -- the entry holds no import statement, and the others keep their modules where they move
    obtain ⟨front, back, hold, hanswers⟩ := @ChangesOnly.exists_answers root _ importedModule? unaware_importedModule?
      move (fun node hnode => importedModule?_relabel (hlabels.of_mem hnode)) (by rw [importedModule?, hprogram]; rfl)
      grown (by rw [importedModule?, hprogram']; rfl) _ harray first (wildcard :: second) rfl [entry, comma] hchanges
    have hinside : ∀ other ∈ Node.preorderAll entry.children, importedModule? other = none := fun other hother =>
      if_neg fun hkind => hleads.inside other hother (by rw [hkind]; decide)
    have himports := h.imports
    rw [hanswers, filterMap_entry hbare (by rw [importedModule?, hcomma]; rfl) hinside, List.filterMap_cons_none
      (by rw [importedModule?, hleads.kind_eq]; rfl), List.filterMap_nil, List.nil_append, ← hold]
    exact himports

/-! ## The text -/

/-- A brace opens where the wildcard is found, if it is an element of an exported array. -/
theorem wildcardOpens {text exported : Text} (hprogram : (SyntaxTree.ofText text ".ts").isProgram = true)
    {table : ExportedArray} (htable : (SyntaxTree.ofText text ".ts").root.exportedArray? exported = some table)
    {wildcard : Node} (hmem : wildcard ∈ table.array.children)
    (hwildcard : wildcardObject? (SyntaxTree.ofText text ".ts").root = some wildcard) : WildcardOpens text := by
  obtain ⟨nodes, hnodes, htree⟩ := exists_nodes_of_isProgram hprogram
  have hkind : wildcard.kind = .object := by
    have hfound := List.find?_some hwildcard
    simp only [Bool.and_eq_true, decide_eq_true_eq] at hfound
    exact hfound.1
  rw [htree] at htable
  have hcut : ∀ lexeme ∈ lexemes false text, lexeme.IsCut := fun lexeme h => isCut_of_mem_lexemesFrom h
  obtain ⟨front, ⟨sort, spread, word⟩, behind, hlexemes, rfl, rfl, hplace, -⟩ :=
    exists_brace_of_object hcut hnodes htable hmem hkind
  have htext : text = spelled front ++ (spread ++ '\x7b' :: spelled behind) := by
    have hflat : spelled (lexemes false text) = text := lexemes_flatten false text
    rw [← hflat, hlexemes, spelled_append, spelled_cons, List.append_assoc]
    rfl
  intro brace hbrace
  rw [wildcardOffset?, hwildcard, Option.map_some, hplace] at hbrace
  obtain rfl := Option.some.inj hbrace
  rw [htext, ← List.append_assoc, ← List.length_append, List.getElem?_append_right (Nat.le_refl _), Nat.sub_self]
  rfl

theorem isLines_routeEntry {name : FeatureName} (hname : name.IsSpelling) (route : Text) :
    Color.IsLines (routeEntry route name) where
  opens := ⟨_, routeEntry_eq route name⟩
  ends := ⟨_, routeEntry_eq_text hname route⟩

/-- The text of a table with the routes of these calls: no others are named in it, and there is nothing in it
that could be a colour. -/
structure IsTable (calls : List Call) (text : Text) : Prop where
  program : (SyntaxTree.ofText text ".ts").isProgram = true
  routing : HasRouting calls (SyntaxTree.ofText text ".ts").root
  colorless : Color.Colorless text
  uncommented : Color.Uncommented text
  marks : ∀ other : Text, IsRoute other → routeMark other <:+: text → ∃ call ∈ calls, call.route = other

/-- With an entry in front of its wildcard a program has one more route. -/
theorem HasRouting.exists_inserted {text : Text} {call : Call}
    (h : HasRouting calls (SyntaxTree.ofText text ".ts").root)
    (hprogram : (SyntaxTree.ofText text ".ts").isProgram = true) (hcalls : ∀ call ∈ calls, IsOrdinary call.route)
    (hname : call.name.IsSpelling) (hroute : isQuotable call.route = true) :
    WildcardOpens text ∧ ∃ before after, insertionPoint? text = some (before, after) ∧ before ++ after = text ∧
      (SyntaxTree.ofText (before ++ (routeEntry call.route call.name ++ after)) ".ts").isProgram = true ∧
      HasRouting (calls ++ [call])
        (SyntaxTree.ofText (before ++ (routeEntry call.route call.name ++ after)) ".ts").root := by
  obtain ⟨table, wildcard, htable, hmem, hfound⟩ := h.firstWildcardIsRoute hcalls
  have hchild : wildcard ∈ table.array.children :=
    Node.mem_children_of_mem_namedChildren (List.mem_of_mem_filter hmem)
  have hwildcard : AppRoutes.IsWildcard wildcard := by
    have hfound := List.find?_some hfound
    simp only [Bool.and_eq_true, decide_eq_true_eq] at hfound
    exact hfound
  obtain ⟨before, after, hpoint, hsplit, grown, move, first, second, entry, comma, hgrown, hchildren, hexported,
    hleads, -, hcomma, hbare, hmove, hchanges⟩ := exists_grown hname hroute hprogram htable hchild hfound
  refine ⟨wildcardOpens hprogram htable hchild hfound, before, after, hpoint, hsplit, by rw [hgrown], ?_⟩
  obtain ⟨nodes, hnodes, htree⟩ := exists_nodes_of_isProgram hprogram
  obtain ⟨nodes', hnodes', htree'⟩ := exists_nodes_of_isProgram (congrArg SyntaxTree.isProgram hgrown)
  have hroot : (SyntaxTree.ofText text ".ts").root.Lexical := by
    rw [htree]
    exact lexical_program (fun lexeme hlexeme => isCut_of_mem_lexemesFrom hlexeme) hnodes
  have hkind : grown.kind = .program := by
    rw [hgrown] at htree'
    rw [show grown = Node.branch .program nodes' from congrArg SyntaxTree.root htree']
    rfl
  rw [hgrown]
  exact h.insert hcalls hroot (by rw [htree]; rfl) hkind hmove htable hchildren hwildcard hexported hleads hcomma
    hbare hchanges

/-- With an entry in front of its wildcard the table has one more route. -/
theorem IsTable.insert {text : Text} {call : Call} (h : IsTable calls text)
    (hcalls : ∀ call ∈ calls, IsRoute call.route) (hname : call.name.IsSpelling) (hroute : IsRoute call.route) :
    ∃ before after, insertionPoint? text = some (before, after) ∧ before ++ after = text ∧
      IsTable (calls ++ [call]) (before ++ (routeEntry call.route call.name ++ after)) := by
  obtain ⟨hopens, before, after, hpoint, hsplit, hprogram, hrouting⟩ := h.routing.exists_inserted h.program
    (fun call hcall => (hcalls call hcall).isOrdinary) hname hroute.isQuotable
  have hseam := (isInsertion_of_insertionPoint? hopens hpoint).isSeam
  have hentry : routeEntry call.route call.name =
      (filling call.name call.route hname hroute).text (outline entryPieces) := fill_eq_text hname hroute isPlain_entry
  have hplain : Color.isColorless (outline entryPieces) = true := by decide +kernel
  refine ⟨before, after, hpoint, hsplit, hprogram, hrouting, ?_, ?_, fun other hother hmark => ?_⟩
  · rw [← hsplit] at h
    exact h.colorless.insert (hentry ▸ Substitution.colorless_text hplain) (isLines_routeEntry hname call.route)
  · rw [← hsplit] at h
    exact h.uncommented.insert (hentry ▸ Substitution.uncommented_text hplain) (isLines_routeEntry hname call.route)
  · rw [routeMark_infix_insert_iff hseam hname hroute.2 hother.2, hsplit] at hmark
    rcases hmark with hmark | rfl
    · obtain ⟨past, hpast, rfl⟩ := h.marks other hother hmark
      exact ⟨past, List.mem_append_left _ hpast, rfl⟩
    · exact ⟨call, List.mem_append_right _ (List.mem_singleton_self _), rfl⟩

/-! ## The first table -/

/-- Where the small table names a path, no character of routes comes first. -/
theorem path_startTable : ∀ tail, tail <:+ startTable → "path: '".toList <+: tail →
    ∀ c ∈ tail[7]?, isRouteChar c = false := by
  have htails : (startTable.tails.all fun tail =>
      !"path: '".toList.isPrefixOf tail || tail[7]?.all fun c => !isRouteChar c) = true := by
    unfold startTable
    repeat rw [String.toList_ofList]
    decide +kernel
  intro tail htail hpath c hc
  have htail := List.all_eq_true.1 htails tail ((List.mem_tails _ _).2 htail)
  rw [Bool.or_eq_true, Bool.not_eq_true', List.isPrefixOf_iff_prefix.2 hpath, Option.all_eq_true] at htail
  have hother := htail.resolve_left (Bool.noConfusion ·) c hc
  rwa [Bool.not_eq_true'] at hother

theorem not_routeMark_infix_startTable {other : Text} (hother : IsRoute other) : ¬routeMark other <:+: startTable := by
  obtain ⟨c, rest, rfl⟩ := List.exists_cons_of_ne_nil hother.1
  rintro ⟨front, back, hsplit⟩
  have hmark : routeMark (c :: rest) ++ back = "path: '".toList ++ c :: (rest ++ '\'' :: back) := by
    simp [routeMark, Text.concat]
  have hpath := path_startTable (routeMark (c :: rest) ++ back) ⟨front, by rw [← hsplit, List.append_assoc]⟩
  rw [hmark] at hpath
  have hc := hpath (List.prefix_append _ _) c rfl
  rw [hother.2 c (List.mem_cons_self ..)] at hc
  cases hc

/-- The small table has no routes of calls yet. -/
theorem isTable_startTable : IsTable [] startTable := by
  have hshape : ((treeOf startTable).root.exportedArray? AppRoutes.tableName).any (fun table =>
      decide (table.array.elements.length = 2) &&
        table.array.elements[0]?.any (fun home => decide (RedirectsTo "home" home)) &&
        table.array.elements[1]?.any (fun wildcard => decide (LoadsPage AppRoutes.notFoundPage wildcard))) = true ∧
      (treeOf startTable).root.preorder.countP (fun node => decide (node.kind = .object)) = 2 ∧
      (∀ specifier ∈ (treeOf startTable).root.preorder.filterMap importedModule?,
        AppRoutes.isRouted specifier = false) ∧
      (treeOf startTable).isProgram = true ∧ Color.isBare startTable = true := by
    unfold startTable
    repeat rw [String.toList_ofList]
    decide +kernel
  obtain ⟨hany, hcount, himports, hprogram, hbare⟩ := hshape
  obtain ⟨table, htable, helements⟩ := (Option.any_eq_true _ _).1 hany
  rw [Bool.and_eq_true, Bool.and_eq_true, decide_eq_true_eq] at helements
  obtain ⟨⟨hlength, hhome⟩, hwildcard⟩ := helements
  obtain ⟨home, wildcard, heq⟩ := List.length_eq_two.1 hlength
  rw [heq, List.getElem?_cons_zero, Option.any_some, decide_eq_true_eq] at hhome
  rw [heq, List.getElem?_cons_succ, List.getElem?_cons_zero, Option.any_some, decide_eq_true_eq] at hwildcard
  refine ⟨(ofText_eq_treeOf startTable).symm ▸ hprogram, ?_, (Color.isBare_iff.1 hbare).1,
    (Color.isBare_iff.1 hbare).2, fun other hother hmark => absurd hmark (not_routeMark_infix_startTable hother)⟩
  rw [ofText_eq_treeOf]
  refine ⟨⟨table, htable, ⟨home, [], wildcard, heq, hhome, .nil, hwildcard⟩, ?_⟩, himports⟩
  exact hcount.trans (congrArg List.length heq).symm

end VerticalSlice.Feature
