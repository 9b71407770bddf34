import VerticalSlice.Proofs.Feature.Table

/-!
# A route at the end of the table

In a file without a wildcard a route is registered in front of the last `];` of the text, whatever that ends. When it
ends the route table, and behind the last route there is a comma, the route becomes the last element of the table and
nothing else in the file changes (`register_appends`).
-/

namespace VerticalSlice.Feature

open Syntax

/-- The last `];` of a text ends the array of a table, and an element may be written in front of it: the array has
none yet, or there is a comma behind the last one. -/
def EndsOpen (text : Text) (table : ExportedArray) : Prop :=
  ∃ (front : List Lexeme) (bracket : Lexeme) (behind : List Lexeme) (after : Text) (closing : Node),
    lexemes false text = front ++ bracket :: behind ∧ EndsBound front ∧
      Text.splitAtLast "];" text = some (spelled front ++ bracket.blanks, after) ∧
      table.array.children.getLast? = some closing ∧ closing.kind = .mark ∧
      closing.offset = (spelled front ++ bracket.blanks).length

/-- No object of a tree has the path of a wildcard. -/
def NoWildcard (root : Node) : Prop :=
  ∀ node ∈ root.preorder, node.kind = .object → node.propertyString? "path" ≠ some "**".toList

theorem wildcardObject?_eq_none_iff {root : Node} : wildcardObject? root = none ↔ NoWildcard root := by
  rw [wildcardObject?, Node.find?, Node.walk_eq_preorder, List.find?_eq_none]
  simp only [Bool.and_eq_true, decide_eq_true_eq, not_and, NoWildcard]

/-- The lexeme in front of which a text is split at a bracket is that bracket, if an item is awaited there. -/
theorem eq_bracket_of_lexemes {front behind : List Lexeme} {bracket : Lexeme} {text rest : Text}
    (hends : EndsBound front) (hlexemes : lexemes false text = front ++ bracket :: behind)
    (htext : text = spelled front ++ (bracket.blanks ++ ']' :: rest)) :
    bracket = ⟨.mark, bracket.blanks, [']']⟩ ∧ spelled behind = rest := by
  have hblanks : bracket.blanks.all isSpace = true :=
    (@isCut_of_mem_lexemesFrom false _ text bracket (by rw [← lexemes, hlexemes]; simp)).1
  obtain ⟨state, hawaits, -, hbehind, -⟩ := @exists_cuts_of_bound front _ (bracket.blanks ++ ']' :: rest) hends
    (List.cons_ne_nil _ _) (List.append_ne_nil_of_right_ne_nil _ (List.cons_ne_nil _ _)) (htext ▸ hlexemes)
  rw [lexemesFrom_ahead hawaits (.inr rfl) hblanks] at hbehind
  obtain ⟨hbracket, -⟩ := List.cons.inj hbehind
  refine ⟨hbracket.symm, ?_⟩
  have hflat : spelled (lexemes false text) = text := lexemes_flatten false text
  rw [hlexemes, spelled_append, spelled_cons, ← hbracket, htext] at hflat
  simpa using hflat

variable {name : FeatureName} {route : Text}

/-- When a table may be continued at the last `];` of a file without a wildcard, that is where an entry is put. With the
entry the text is a program again, and the array of the table has the object of the route in front of its end. -/
theorem exists_appended (hname : name.IsSpelling) (hroute : isQuotable route = true) {text : Text}
    (hprogram : (SyntaxTree.ofText text ".ts").isProgram = true) {exported : Text} {table : ExportedArray}
    (htable : (SyntaxTree.ofText text ".ts").root.exportedArray? exported = some table)
    (hnone : NoWildcard (SyntaxTree.ofText text ".ts").root) (hends : EndsOpen text table) :
    ∃ before after, insertionPoint? text = some (before, after) ∧ before ++ after = text ∧
      ∃ (grown : Node) (move : Move) (first : List Node) (closing entry comma : Node),
        SyntaxTree.ofText (before ++ (routeEntry route name ++ after)) ".ts" = ⟨grown, true⟩ ∧
        table.array.children = first ++ [closing] ∧ closing.kind = .mark ∧
        grown.exportedArray? exported = some ⟨table.name, .mk (move.label table.array.label)
          (first.map move.node ++ entry :: comma :: [closing].map move.node)⟩ ∧
        LeadsTo route (routesModule name.kebab) entry ∧ entry.interface = entryInterface name ∧
        comma.kind = .mark ∧
        ChangesOnly move (SyntaxTree.ofText text ".ts").root grown table.array.children
          (first.map move.node ++ entry :: comma :: [closing].map move.node) := by
  obtain ⟨front, bracket, behind, after, closing, hlexemes, hbound, hlast, hclosing, hkind, hoffset⟩ := hends
  have hsplit := Text.splitAtLast_append hlast
  obtain ⟨⟨tail, hafter⟩, -⟩ := Text.not_infix_of_splitAtLast (by decide) hlast
  obtain ⟨hbracket, htail⟩ := @eq_bracket_of_lexemes front behind bracket text (';' :: tail) hbound hlexemes (by
    rw [← hsplit, ← hafter, List.append_assoc]
    rfl)
  obtain ⟨nodes, hnodes, htree⟩ := exists_nodes_of_isProgram hprogram
  -- without a wildcard the entry goes in front of the bracket that ends the table
  have hpoint : insertionPoint? text = some (spelled front ++ bracket.blanks, after) := by
    rw [insertionPoint?, wildcardOffset?, wildcardObject?_eq_none_iff.2 hnone, Option.map_none]
    exact hlast
  rw [htree] at htable ⊢
  obtain ⟨first, hchildren⟩ : ∃ first, table.array.children = first ++ [closing] :=
    ⟨_, (List.dropLast_append_getLast? closing hclosing).symm⟩
  rw [List.length_append] at hoffset
  obtain ⟨grown, move, entry, comma, hgrown, hexported, hleads, hinterface, hcomma, -, -, hchanges⟩ :=
    @exists_planted name route hname hroute text nodes hnodes _ table htable front behind ']' bracket.blanks []
      hbound (by rw [List.append_nil, ← hbracket, hlexemes]) (fun _ => rfl) first [] closing hchildren .closing
      (by rw [List.append_nil, hoffset])
  have hrest : after = [] ++ ']' :: spelled behind := by
    rw [htail, ← hafter]
    rfl
  exact ⟨_, _, hpoint, hsplit, grown, move, first, closing, entry, comma, hrest ▸ hgrown, hchildren, hkind, hexported,
    hleads, hinterface, hcomma, hchanges⟩

/-- When a table may be continued at the last `];` of a file without a wildcard, a route that is put into the file
becomes the last element of the table, and nothing else in the file changes. -/
theorem register_appends {context : Context} {tree changed : FileTree} {text : Text} {source : SyntaxTree}
    {table : ExportedArray} (hname : name.IsSpelling) (hroute : IsRoute route)
    (htext : tree.readText context.appRoutes = .ok text)
    (hsource : tree.readSource context.appRoutes = .ok source) (hprogram : source.isProgram = true)
    (htable : source.root.exportedArray? AppRoutes.tableName = some table) (hnone : NoWildcard source.root)
    (hends : EndsOpen text table)
    (hregister : register tree context.appRoutes route name = .ok (changed, false)) :
    ∃ (next : SyntaxTree) (grown : ExportedArray) (move : Move) (entry : Node),
      changed.readSource context.appRoutes = .ok next ∧ next.isProgram = true ∧
      next.root.exportedArray? AppRoutes.tableName = some grown ∧
      grown.array.elements = table.array.elements.map move.node ++ [entry] ∧
      LeadsTo route (routesModule name.kebab) entry ∧
      ChangesOnly move source.root next.root table.array.children grown.array.children := by
  obtain ⟨text', start, rest, htext', hpoint, hwritten⟩ := exists_text_of_register hregister
  obtain rfl := Except.ok.inj (htext.symm.trans htext')
  rw [FileTree.readSource, htext, extension_appRoutes] at hsource
  obtain rfl := Except.ok.inj hsource
  obtain ⟨before, after, hpoint', hsplit, grown, move, first, closing, entry, comma, hgrown, hchildren, hkind, hexported,
    hleads, -, hcomma, hchanges⟩ := exists_appended hname hroute.isQuotable hprogram htable hnone hends
  obtain ⟨rfl, rfl⟩ := Prod.mk.inj (Option.some.inj (hpoint.symm.trans hpoint'))
  have hread := readText_insert hname hroute htext hsplit hwritten
  have hnext : changed.readSource context.appRoutes = .ok ⟨grown, true⟩ := by
    rw [FileTree.readSource, hread, extension_appRoutes, ← hgrown]
  obtain ⟨exported, label, children⟩ := table
  obtain rfl : children = first ++ [closing] := hchildren
  refine ⟨⟨grown, true⟩, _, move, entry, hnext, rfl, hexported, ?_, hleads, hchanges⟩
  dsimp only
  rw [elements_insert _ _ _ hleads.kind_eq hcomma, elements_map _ _ label, elements_map _ _ label, elements_mk,
    elements_mk, elements_mk, List.filter_append, List.filter_cons, hkind]
  simp

/-! ## Small tables -/

/-- The end of an array at the end of a file. -/
def tableEnd : Text := "];\n"

/-- A route table up to its end, with a comma behind its only route. -/
def homeFront : Text :=
  "import \x7b Routes \x7d from '@angular/router';\n\nexport const routes: Routes = [\n" ++
    "  \x7b path: '', pathMatch: 'full', redirectTo: 'home' \x7d,\n"

/-- A route table with a redirect and no wildcard. -/
def homeTable : Text := homeFront ++ tableEnd

/-- A route table up to the end of another array that comes behind it. -/
def doubleFront : Text :=
  "export const routes = [\n  \x7b path: 'home' \x7d,\n];\n\nexport const tabs = [\n  'home',\n"

/-- A route table with another array behind it. -/
def doubleTable : Text := doubleFront ++ tableEnd

/-- The table is a program without a wildcard and has one element. It may be continued at its end, and the route of
the orders is not in it. -/
theorem homeTable_shape : ∃ table,
    (treeOf homeTable).root.exportedArray? AppRoutes.tableName = some table ∧ (treeOf homeTable).isProgram = true ∧
      table.array.elements.length = 1 ∧ NoWildcard (treeOf homeTable).root ∧ EndsOpen homeTable table ∧
      Text.splitAtLast "];" homeTable = some (homeFront, tableEnd) ∧
      '\r' ∉ homeTable ∧ Text.occursIn (routeMark "orders") homeTable = false := by
  have hshape : ((treeOf homeTable).root.exportedArray? AppRoutes.tableName).map (fun table =>
      ((treeOf homeTable).isProgram, table.array.elements.length, (wildcardObject? (treeOf homeTable).root).isNone,
        table.array.children.getLast?.map fun closing => (closing.kind, closing.offset))) =
      some (true, 1, true, some (.mark, homeFront.length)) ∧
      (lexemesOf homeTable)[27]? = some ⟨.mark, [], [',']⟩ ∧
      (lexemesOf homeTable)[28]? = some ⟨.mark, ['\n'], [']']⟩ ∧
      spelled ((lexemesOf homeTable).take 28) ++ ['\n'] = homeFront ∧
      Text.splitAtLast "];" homeTable = some (homeFront, tableEnd) ∧
      '\r' ∉ homeTable ∧ Text.occursIn (routeMark "orders") homeTable = false := by
    unfold homeTable homeFront tableEnd routeMark
    repeat rw [String.toList_ofList]
    decide +kernel
  obtain ⟨hshape, hcomma, hbracket, hfront, hsplit, hplain⟩ := hshape
  obtain ⟨table, htable, hshape⟩ := Option.map_eq_some_iff.1 hshape
  simp only [Prod.mk.injEq, Option.map_eq_some_iff] at hshape
  obtain ⟨hprogram, hlength, hnone, closing, hclosing, hkind, hoffset⟩ := hshape
  refine ⟨table, htable, hprogram, hlength, wildcardObject?_eq_none_iff.1 (Option.isNone_iff_eq_none.1 hnone), ?_,
    hsplit, hplain⟩
  obtain ⟨hlt, hcomma⟩ := List.getElem?_eq_some_iff.1 hcomma
  obtain ⟨hlt', hbracket⟩ := List.getElem?_eq_some_iff.1 hbracket
  refine ⟨(lexemesOf homeTable).take 28, ⟨.mark, ['\n'], [']']⟩, (lexemesOf homeTable).drop 29, _, closing, ?_,
    ⟨(lexemesOf homeTable).take 27, ⟨.mark, [], [',']⟩, [], ?_, rfl, nofun⟩, hfront ▸ hsplit, hclosing, hkind, ?_⟩
  · rw [← lexemesOf_eq, ← hbracket, List.getElem_cons_drop, List.take_append_drop]
  · rw [← hcomma, List.take_append_getElem]
  · rw [hfront, hoffset]

/-- To the small table the route of the orders is added as the last of now two elements. -/
theorem register_appends_homeTable : ∃ changed next grown home entry,
    register (treeWith homeTable) AppRoutes.tableContext.appRoutes "orders" ordersName = .ok (changed, false) ∧
      changed.readSource AppRoutes.tableContext.appRoutes = .ok next ∧ next.isProgram = true ∧
      next.root.exportedArray? AppRoutes.tableName = some grown ∧ grown.array.elements = [home, entry] ∧
      LeadsTo "orders" "./features/orders/orders.routes" entry := by
  obtain ⟨table, htable, hprogram, hlength, hnone, hends, hsplit, hnormal, hmark⟩ := homeTable_shape
  have hpoint : insertionPoint? homeTable = some (homeFront, tableEnd) := by
    rw [insertionPoint?, wildcardOffset?, ofText_eq_treeOf, wildcardObject?_eq_none_iff.2 hnone, ← hsplit]
    rfl
  have hdone := @register_treeWith ordersName "orders" _ _ _ hnormal hmark hpoint
  obtain ⟨next, grown, move, entry, hnext, hprogram, hgrown, helements, hleads, -⟩ :=
    register_appends ⟨"orders", by decide⟩ ⟨by decide, Text.forall_mem (by decide)⟩ (readText_treeWith hnormal)
      (readSource_treeWith hnormal) hprogram htable hnone hends hdone
  obtain ⟨home, hhome⟩ := List.length_eq_one_iff.1 hlength
  rw [hhome] at helements
  exact ⟨_, next, grown, move.node home, entry, hdone, hnext, hprogram, hgrown, helements, hleads⟩

/-- The table with another array behind it is a program without a wildcard as well, but the last end of an array in it
is that of the other one. With the route of the orders in front of that, the table has the one element it had, and the
other array has two. -/
theorem doubleTable_shape : ∃ table grown other filled,
    (treeOf doubleTable).root.exportedArray? "routes" = some table ∧
    (treeOf doubleTable).root.exportedArray? "tabs" = some other ∧
    (treeOf doubleTable).isProgram = true ∧ NoWildcard (treeOf doubleTable).root ∧
    (treeOf (doubleFront ++ (routeEntry "orders" ordersName ++ tableEnd))).root.exportedArray? "routes" = some grown ∧
    (treeOf (doubleFront ++ (routeEntry "orders" ordersName ++ tableEnd))).root.exportedArray? "tabs" = some filled ∧
    table.array.elements.length = 1 ∧ grown.array.elements.length = 1 ∧
    other.array.elements.length = 1 ∧ filled.array.elements.length = 2 ∧
    Text.splitAtLast "];" doubleTable = some (doubleFront, tableEnd) ∧
    '\r' ∉ doubleTable ∧ Text.occursIn (routeMark "orders") doubleTable = false := by
  have hshape : ((treeOf doubleTable).isProgram, (wildcardObject? (treeOf doubleTable).root).isNone) = (true, true) ∧
      ((treeOf doubleTable).root.exportedArray? "routes").map (fun table => table.array.elements.length) = some 1 ∧
      ((treeOf doubleTable).root.exportedArray? "tabs").map (fun table => table.array.elements.length) = some 1 ∧
      ((treeOf (doubleFront ++ (routeEntry "orders" ordersName ++ tableEnd))).root.exportedArray? "routes").map
        (fun table => table.array.elements.length) = some 1 ∧
      ((treeOf (doubleFront ++ (routeEntry "orders" ordersName ++ tableEnd))).root.exportedArray? "tabs").map
        (fun table => table.array.elements.length) = some 2 ∧
      Text.splitAtLast "];" doubleTable = some (doubleFront, tableEnd) ∧
      '\r' ∉ doubleTable ∧ Text.occursIn (routeMark "orders") doubleTable = false := by
    unfold doubleTable doubleFront tableEnd routeEntry entryPieces holeValues ordersName routeMark
    repeat rw [String.toList_ofList]
    decide +kernel
  obtain ⟨hprogram, htable, hother, hgrown, hfilled, hplain⟩ := hshape
  obtain ⟨table, htable, hlength⟩ := Option.map_eq_some_iff.1 htable
  obtain ⟨other, hother, hlength'⟩ := Option.map_eq_some_iff.1 hother
  obtain ⟨grown, hgrown, hcount⟩ := Option.map_eq_some_iff.1 hgrown
  obtain ⟨filled, hfilled, hcount'⟩ := Option.map_eq_some_iff.1 hfilled
  obtain ⟨hprogram, hnone⟩ := Prod.mk.inj hprogram
  exact ⟨table, grown, other, filled, htable, hother, hprogram,
    wildcardObject?_eq_none_iff.1 (Option.isNone_iff_eq_none.1 hnone), hgrown, hfilled, hlength, hcount, hlength',
    hcount', hplain⟩

/-- When another array comes behind the table, the route is put into that array and not into the table. -/
theorem register_enters_other_array : ∃ changed source next table grown other filled,
    (treeWith doubleTable).readSource AppRoutes.tableContext.appRoutes = .ok source ∧ source.isProgram = true ∧
      NoWildcard source.root ∧
      register (treeWith doubleTable) AppRoutes.tableContext.appRoutes "orders" ordersName = .ok (changed, false) ∧
      changed.readSource AppRoutes.tableContext.appRoutes = .ok next ∧
      source.root.exportedArray? AppRoutes.tableName = some table ∧
      next.root.exportedArray? AppRoutes.tableName = some grown ∧
      source.root.exportedArray? "tabs" = some other ∧ next.root.exportedArray? "tabs" = some filled ∧
      grown.array.elements.length = table.array.elements.length ∧
      filled.array.elements.length = other.array.elements.length + 1 := by
  obtain ⟨table, grown, other, filled, htable, hother, hprogram, hnone, hgrown, hfilled, hlength, hcount, hlength',
    hcount', hsplit, hnormal, hmark⟩ := doubleTable_shape
  have hpoint : insertionPoint? doubleTable = some (doubleFront, tableEnd) := by
    rw [insertionPoint?, wildcardOffset?, ofText_eq_treeOf, wildcardObject?_eq_none_iff.2 hnone, ← hsplit]
    rfl
  have hdone := @register_treeWith ordersName "orders" _ _ _ hnormal hmark hpoint
  have hnew : (treeWith _).readText AppRoutes.tableContext.appRoutes =
      .ok (doubleFront ++ (routeEntry "orders" ordersName ++ tableEnd)) :=
    readText_insert ⟨"orders", by decide⟩ ⟨by decide, Text.forall_mem (by decide)⟩ (readText_treeWith hnormal)
      (insertionPoint?_append hpoint) (writeText_treeWith doubleTable _)
  refine ⟨_, _, _, table, grown, other, filled, readSource_treeWith hnormal, hprogram, hnone, hdone, ?_, htable,
    hgrown, hother, hfilled, hcount.trans hlength.symm, by rw [hcount', hlength']⟩
  rw [FileTree.readSource, hnew, extension_appRoutes, ← ofText_eq_treeOf]

end VerticalSlice.Feature
