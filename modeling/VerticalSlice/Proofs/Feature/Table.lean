import VerticalSlice.Proofs.AppRoutes.Composition
import VerticalSlice.Proofs.Feature.Entry
import VerticalSlice.Proofs.Feature.Registrations
import VerticalSlice.Proofs.Syntax.Rows

/-!
# A route in the table

When the first wildcard that is found in a file is an element of its route table, a route that is registered
becomes an element of the table in front of that wildcard, and nothing else in the file changes
(`exists_grown`).
-/

namespace VerticalSlice.Feature

open Syntax

/-! ## Where the entry goes -/

/-- In front of a brace that comes behind a bracket, a comma or comments, an entry goes into the blanks. -/
theorem exists_insertionPoint {front blanks rest : Text} (hfront : IsAnchored front)
    (h : wildcardOffset? (front ++ (blanks ++ '\x7b' :: rest)) = some (front.length + blanks.length)) :
    ∃ first second, blanks = first ++ second ∧ (first = [] → second = []) ∧
      insertionPoint? (front ++ (blanks ++ '\x7b' :: rest)) = some (front ++ first, second ++ '\x7b' :: rest) := by
  rw [insertionPoint?, h]
  dsimp only
  rw [← List.length_append, ← List.append_assoc]
  rcases splitBefore_cases (front ++ blanks) ('\x7b' :: rest) with hsplit | ⟨lines, tail, htail, hblank, hlines, hsplit⟩
  · exact ⟨blanks, [], (List.append_nil _).symm, fun _ => rfl, congrArg some hsplit⟩
  · rcases List.append_eq_append_iff.1 htail with ⟨first, rfl, rfl⟩ | ⟨inside, rfl, rfl⟩
    · refine ⟨first, tail, rfl, fun hfirst => ?_, congrArg some hsplit⟩
      rw [hfirst, List.append_nil] at hlines
      obtain ⟨hne, hlast⟩ := hfront front [] (List.append_nil _).symm rfl
      exact absurd hlines (not_or.2 ⟨hne, hlast⟩)
    · rw [List.all_append, Bool.and_eq_true] at hblank
      exact absurd hlines (not_or.2 (hfront lines inside rfl hblank.1))

theorem insertionPoint?_append {text before after : Text} (h : insertionPoint? text = some (before, after)) :
    before ++ after = text := by
  rw [insertionPoint?] at h
  cases hwildcard : wildcardOffset? text with
  | none =>
    rw [hwildcard] at h
    exact Text.splitAtLast_append h
  | some brace =>
    rw [hwildcard] at h
    dsimp only at h
    rw [splitBefore] at h
    obtain ⟨rfl, rfl⟩ := Prod.mk.inj (Option.some.inj h)
    exact List.take_append_drop _ _

/-! ## The tree -/

theorem ofText_eq (text : Text) : SyntaxTree.ofText text ".ts" =
    SyntaxTree.ofTokens false (place (lexemes false text)) := by
  have hmarkup : SyntaxTree.hasMarkup ".ts" = false := by decide
  rw [SyntaxTree.ofText, hmarkup, SyntaxTree.tokens]

/-- The nodes of a program. -/
theorem exists_nodes_of_isProgram {text : Text} (h : (SyntaxTree.ofText text ".ts").isProgram = true) :
    ∃ nodes, programNodes? false (place (lexemes false text)) = some nodes ∧
      SyntaxTree.ofText text ".ts" = ⟨Node.branch .program nodes, true⟩ := by
  rw [ofText_eq, SyntaxTree.ofTokens] at h ⊢
  cases hnodes : programNodes? false (place (lexemes false text)) with
  | none => rw [hnodes] at h; cases h
  | some nodes => exact ⟨nodes, rfl, rfl⟩

theorem ofText_of_programNodes? {text : Text} {nodes : List Node}
    (h : programNodes? false (place (lexemes false text)) = some nodes) :
    SyntaxTree.ofText text ".ts" = ⟨Node.branch .program nodes, true⟩ := by
  rw [ofText_eq, SyntaxTree.ofTokens, h]

/-- The second tree is the first one, moved, but for the children of one array. -/
def ChangesOnly (move : Move) (root grown : Node) (children children' : List Node) : Prop :=
  ∃ rows, Focused rows ∧ root.children.map move.node = rows (children.map move.node) ∧
    grown.children = rows children'

variable {name : FeatureName} {route : Text}

/-- With the entry of a route in the blanks in front of an object of an exported array, or in front of the end of that
array where an item is awaited, the text is a program again, and the array has the object of the route there. -/
theorem exists_planted (hname : name.IsSpelling) (hroute : isQuotable route = true) {text : Text} {nodes : List Node}
    (hnodes : programNodes? false (place (lexemes false text)) = some nodes) {exported : Text}
    {table : ExportedArray} (htable : (Node.branch .program nodes).exportedArray? exported = some table)
    {front behind : List Lexeme} {mark : Char} {blanks blanks' : Text} (hends : EndsBound front)
    (hlexemes : lexemes false text = front ++ ⟨.mark, blanks ++ blanks', [mark]⟩ :: behind)
    (hfirst : blanks = [] → blanks' = []) {first second : List Node} {next : Node}
    (hchildren : table.array.children = first ++ next :: second) (hahead : Ahead mark next second)
    (hplace : next.offset = (spelled front).length + (blanks ++ blanks').length) :
    ∃ (grown : Node) (move : Move) (entry comma : Node),
      SyntaxTree.ofText (spelled front ++ blanks ++ (routeEntry route name ++
        (blanks' ++ mark :: spelled behind))) ".ts" = ⟨grown, true⟩ ∧
      grown.exportedArray? exported = some ⟨table.name, .mk (move.label table.array.label)
        (first.map move.node ++ entry :: comma :: (next :: second).map move.node)⟩ ∧
      LeadsTo route (routesModule name.kebab) entry ∧ entry.interface = entryInterface name ∧
      comma.kind = .mark ∧ comma.children = [] ∧ move.blanks.all isSpace = true ∧
      ChangesOnly move (.branch .program nodes) grown table.array.children
        (first.map move.node ++ entry :: comma :: (next :: second).map move.node) := by
  have hcut : ∀ lexeme ∈ lexemes false text, lexeme.IsCut := fun lexeme h => isCut_of_mem_lexemesFrom h
  have htext : text = spelled front ++ (blanks ++ blanks' ++ mark :: spelled behind) := by
    have hflat : spelled (lexemes false text) = text := lexemes_flatten false text
    rw [← hflat, hlexemes, spelled_append, spelled_cons, List.append_assoc]
    rfl
  have hspace : (blanks ++ blanks').all isSpace = true :=
    (hcut ⟨.mark, blanks ++ blanks', [mark]⟩ (hlexemes ▸ by simp)).1
  obtain ⟨_, -, hcuts, -⟩ := @exists_cuts_of_bound front _ (blanks ++ blanks' ++ mark :: spelled behind) hends
    (List.cons_ne_nil _ _) (List.append_ne_nil_of_right_ne_nil _ (List.cons_ne_nil _ _)) (htext ▸ hlexemes)
  -- the new text is cut into the lexemes of the old one with those of the entry
  let splice : Splice := {
    front := front
    mark := ⟨.mark, blanks ++ blanks', [mark]⟩
    behind := behind
    head := { entryHead.respelled (entrySpelling hname route) with blanks := blanks ++ entryHead.blanks }
    tail := entryTail.map (Lexeme.respelled (entrySpelling hname route))
    blanks := '\n' :: blanks'
    mark_sort := rfl
    mark_ne := List.cons_ne_nil _ _
    front_ne := hcuts.text_ne
    plain := List.forall_mem_cons.2 ⟨(plain_entry entryHead (List.mem_cons_self ..)).1,
      List.forall_mem_map.2 fun lexeme h => (plain_entry lexeme (List.mem_cons_of_mem _ h)).1⟩
    chars_le := by
      rw [spelled_cons]
      simp only [List.length_append, List.length_cons]
      omega
    lines_le := by
      rw [spelled_cons]
      simp only [List.count_append, List.count_cons]
      omega }
  have hnew : lexemes false (spelled front ++ blanks ++ (routeEntry route name ++
      (blanks' ++ mark :: spelled behind))) = splice.after := by
    have hspliced := lexemes_splice hahead.isAhead hends hspace hfirst (isItemText_entry hname hroute)
      (htext ▸ hlexemes)
    rw [routeEntry_eq_text hname]
    exact (congrArg (lexemes false) (by simp)).trans hspliced
  have hbefore : splice.before = lexemes false text := hlexemes.symm
  obtain ⟨hviews, entry, comma, hentry, hboth, hcomma, hbare, hleads, hinterface⟩ :=
    exists_entry hname route (spelled front).length
      (1 + (spelled front).count '\n') (brokenBehind false front) (Bool.and_eq_true_iff.1
        ((List.all_append ..).symm.trans hspace)).1
      (show ⟨[], splice.first⟩ :: splice.more.map (Item.mk []) = _ from
        (congrArg (List.map (Item.mk [])) splice.placeFrom_entry).symm)
  have hspread : splice.blanks.all isSpace = true := by
    rw [List.all_append, Bool.and_eq_true] at hspace
    rw [List.all_cons, hspace.2]
    decide
  obtain ⟨rows, hrows, hold, hgrown, hexported⟩ := splice.exists_program hspread (hbefore ▸ hcut)
    (awaits_of_endsBound hends) isEntry_entry hviews hentry hleads.kind_eq (hbefore ▸ hnodes) htable hchildren
    hahead hplace
  rw [hboth, ← hnew] at hgrown
  refine ⟨_, splice.move, entry, comma, ofText_of_programNodes? hgrown, hexported _, hleads, hinterface, hcomma, hbare,
    hspread, rows, hrows, ?_, rfl⟩
  rw [hchildren, hold]
  rfl

/-- With the entry of a route in front of an object of an exported array, which is the first wildcard of the
file, the text is a program again, and the array has the object of the route in front of the wildcard. -/
theorem exists_grown (hname : name.IsSpelling) (hroute : isQuotable route = true) {text : Text}
    (hprogram : (SyntaxTree.ofText text ".ts").isProgram = true) {exported : Text} {table : ExportedArray}
    (htable : (SyntaxTree.ofText text ".ts").root.exportedArray? exported = some table) {wildcard : Node}
    (hmem : wildcard ∈ table.array.children)
    (hwildcard : wildcardObject? (SyntaxTree.ofText text ".ts").root = some wildcard) :
    ∃ before after, insertionPoint? text = some (before, after) ∧ before ++ after = text ∧
      ∃ (grown : Node) (move : Move) (first second : List Node) (entry comma : Node),
        SyntaxTree.ofText (before ++ (routeEntry route name ++ after)) ".ts" = ⟨grown, true⟩ ∧
        table.array.children = first ++ wildcard :: second ∧
        grown.exportedArray? exported = some ⟨table.name, .mk (move.label table.array.label)
          (first.map move.node ++ entry :: comma :: (wildcard :: second).map move.node)⟩ ∧
        LeadsTo route (routesModule name.kebab) entry ∧ entry.interface = entryInterface name ∧
        comma.kind = .mark ∧ comma.children = [] ∧ move.blanks.all isSpace = true ∧
        ChangesOnly move (SyntaxTree.ofText text ".ts").root grown table.array.children
          (first.map move.node ++ entry :: comma :: (wildcard :: second).map move.node) := by
  obtain ⟨nodes, hnodes, htree⟩ := exists_nodes_of_isProgram hprogram
  have hoffset : wildcardOffset? text = some wildcard.offset := by
    rw [wildcardOffset?, hwildcard, Option.map_some]
  have hkind : wildcard.kind = .object := by
    have hfound := List.find?_some hwildcard
    simp only [Bool.and_eq_true, decide_eq_true_eq] at hfound
    exact hfound.1
  rw [htree] at htable ⊢
  have hcut : ∀ lexeme ∈ lexemes false text, lexeme.IsCut := fun lexeme h => isCut_of_mem_lexemesFrom h
  obtain ⟨front, ⟨sort, spread, word⟩, behind, hlexemes, rfl, rfl, hplace, hawaits⟩ :=
    exists_brace_of_object hcut hnodes htable hmem hkind
  have hends := endsBound_of_awaits hawaits
  have htext : text = spelled front ++ (spread ++ '\x7b' :: spelled behind) := by
    have hflat : spelled (lexemes false text) = text := lexemes_flatten false text
    rw [← hflat, hlexemes, spelled_append, spelled_cons, List.append_assoc]
    rfl
  obtain ⟨_, -, -, -, hanchored⟩ := @exists_cuts_of_bound front _ (spread ++ '\x7b' :: spelled behind) hends
    (List.cons_ne_nil _ _) (List.append_ne_nil_of_right_ne_nil _ (List.cons_ne_nil _ _)) (htext ▸ hlexemes)
  rw [htext, hplace] at hoffset
  obtain ⟨blanks, blanks', rfl, hfirst, hpoint⟩ := exists_insertionPoint hanchored hoffset
  rw [← htext] at hpoint
  obtain ⟨first, second, hchildren⟩ := List.append_of_mem hmem
  obtain ⟨grown, move, entry, comma, hgrown, hrest⟩ := exists_planted hname hroute hnodes htable hends hlexemes
    hfirst hchildren (.object hkind) hplace
  exact ⟨_, _, hpoint, by rw [htext]; simp, grown, move, first, second, entry, comma, hgrown, hchildren, hrest⟩

/-! ## The file -/

/-- The elements of an array with these children. -/
theorem elements_mk (label : Label) (children : List Node) : (Node.mk label children).elements =
    children.filter fun child => decide (child.kind ≠ .comment) && decide (child.kind ≠ .mark) := by
  rw [Node.elements, Node.namedChildren, List.filter_filter]
  rfl

theorem elements_insert (label : Label) (first second : List Node) {entry comma : Node}
    (hentry : entry.kind = .object) (hcomma : comma.kind = .mark) :
    (Node.mk label (first ++ entry :: comma :: second)).elements =
      (Node.mk label first).elements ++ entry :: (Node.mk label second).elements := by
  rw [elements_mk, elements_mk, elements_mk, List.filter_append, List.filter_cons, List.filter_cons,
    hentry, hcomma]
  rfl

theorem elements_map (move : Move) (label label' : Label) (children : List Node) :
    (Node.mk label (children.map move.node)).elements = (Node.mk label' children).elements.map move.node := by
  rw [elements_mk, elements_mk, List.filter_map]
  congr 2
  funext child
  rw [Function.comp_apply, Move.kind_node]

theorem elements_append_cons (label : Label) (first second : List Node) {object : Node}
    (h : object.kind = .object) : (Node.mk label (first ++ object :: second)).elements =
      (Node.mk label first).elements ++ object :: (Node.mk label second).elements := by
  rw [elements_mk, elements_mk, elements_mk, List.filter_append, List.filter_cons, h]
  rfl

/-- Of elements among which one wildcard is counted the others are none. -/
theorem forall_not_isWildcard {before behind : List Node} {wildcard : Node}
    (hcount : (before ++ wildcard :: behind).countP AppRoutes.isWildcard = 1)
    (hwildcard : AppRoutes.isWildcard wildcard = true) :
    ∀ other ∈ before ++ behind, ¬AppRoutes.IsWildcard other := by
  rw [List.countP_append, List.countP_cons_of_pos hwildcard] at hcount
  have hnone : (before ++ behind).countP AppRoutes.isWildcard = 0 := by
    rw [List.countP_append]
    omega
  intro other hother h
  exact List.countP_eq_zero.1 hnone other hother (AppRoutes.isWildcard_iff.2 h)

/-- The first object of the file that has the path of a wildcard is an element of the route table. -/
def FirstWildcardIsRoute (root : Node) : Prop :=
  ∃ table wildcard, root.exportedArray? AppRoutes.tableName = some table ∧
    wildcard ∈ table.array.elements ∧ wildcardObject? root = some wildcard

/-- A wildcard of the table is the first of the file if all objects of the file are elements of the table. -/
theorem firstWildcardIsRoute {root wildcard : Node} {table : ExportedArray}
    (htable : root.exportedArray? AppRoutes.tableName = some table)
    (hobjects : ∀ element ∈ table.array.elements, element.kind = .object)
    (hcount : root.preorder.countP (fun node => decide (node.kind = .object)) = table.array.elements.length)
    (hmem : wildcard ∈ table.array.elements) (hwildcard : AppRoutes.IsWildcard wildcard) :
    FirstWildcardIsRoute root := by
  have hexported := List.mem_of_find?_eq_some htable
  have hinside := Node.mem_preorder_of_mem_elements hmem (Node.array_mem_preorder hexported)
  cases hfound : wildcardObject? root with
  | none =>
    rw [wildcardObject?, Node.find?, Node.walk_eq_preorder, List.find?_eq_none] at hfound
    refine absurd ?_ (hfound wildcard hinside)
    simp only [Bool.and_eq_true, decide_eq_true_eq]
    exact hwildcard
  | some first =>
    refine ⟨table, first, htable, ?_, hfound⟩
    rw [wildcardObject?, Node.find?, Node.walk_eq_preorder] at hfound
    have hfirst := List.find?_some hfound
    simp only [Bool.and_eq_true, decide_eq_true_eq] at hfirst
    exact Node.mem_elements_of_object hexported hobjects hcount (List.mem_of_find?_eq_some hfound) hfirst.1

/-- A route that is put in is put into the text that the file has. -/
theorem exists_text_of_register {tree changed : FileTree} {file : Path}
    (h : register tree file route name = .ok (changed, false)) :
    ∃ text before after, tree.readText file = .ok text ∧ insertionPoint? text = some (before, after) ∧
      tree.writeText file (Text.concat [before, routeEntry route name, after]) = .ok changed := by
  obtain ⟨text, htext, ⟨-, hpresent, -⟩ | ⟨-, -, before, after, hpoint, hwritten⟩⟩ := register_ok_cases h
  · cases hpresent
  · exact ⟨text, before, after, htext, hpoint, hwritten⟩

theorem readText_insert (hname : name.IsSpelling) (hroute : IsRoute route) {tree changed : FileTree}
    {file : Path} {text before after : Text} (htext : tree.readText file = .ok text)
    (hsplit : before ++ after = text)
    (h : tree.writeText file (Text.concat [before, routeEntry route name, after]) = .ok changed) :
    changed.readText file = .ok (before ++ (routeEntry route name ++ after)) :=
  readText_insert_of_notMem hname (notMem_of_isRouteChar hroute.2 (by decide)) htext hsplit h

theorem extension_appRoutes (context : Context) : context.appRoutes.extension = ".ts" := by
  rw [Path.extension, Context.appRoutes, Path.fileName, Path.child, List.getLastD_concat]
  decide

/-- When a route is put into a well composed table whose wildcard is the first of the file, the file is a
program again. The table has one more element, the object of the route, just in front of the wildcard, and
nothing else changes but places. -/
theorem register_exact {context : Context} {tree changed : FileTree} {source : SyntaxTree} {verdict : Verdict}
    (hname : name.IsSpelling) (hroute : IsRoute route)
    (hsource : tree.readSource context.appRoutes = .ok source) (hprogram : source.isProgram = true)
    (hcheck : AppRoutes.check context tree = .ok verdict) (hclean : verdict.violations = [])
    (hfirst : FirstWildcardIsRoute source.root)
    (hregister : register tree context.appRoutes route name = .ok (changed, false)) :
    ∃ (next : SyntaxTree) (table grown : ExportedArray) (move : Move) (before behind : List Node)
        (wildcard entry : Node),
      changed.readSource context.appRoutes = .ok next ∧ next.isProgram = true ∧
      source.root.exportedArray? AppRoutes.tableName = some table ∧
      next.root.exportedArray? AppRoutes.tableName = some grown ∧
      table.array.elements = before ++ wildcard :: behind ∧ AppRoutes.IsWildcard wildcard ∧
      (∀ other ∈ before ++ behind, ¬AppRoutes.IsWildcard other) ∧
      grown.array.elements =
        before.map move.node ++ entry :: move.node wildcard :: behind.map move.node ∧
      LeadsTo route (routesModule name.kebab) entry ∧
      ChangesOnly move source.root next.root table.array.children grown.array.children := by
  obtain ⟨text, start, rest, htext, hpoint, hwritten⟩ := exists_text_of_register hregister
  rw [FileTree.readSource, htext, extension_appRoutes] at hsource
  obtain rfl := Except.ok.inj hsource
  obtain ⟨table, wildcard, htable, hmem, hwildcard⟩ := hfirst
  have hchild : wildcard ∈ table.array.children :=
    Node.mem_children_of_mem_namedChildren (List.mem_of_mem_filter hmem)
  obtain ⟨start', rest', hpoint', hsplit, root, move, first, second, entry, comma, hgrown, hchildren, hexported,
    hleads, -, hcomma, -, -, hchanges⟩ := exists_grown hname hroute.isQuotable hprogram htable hchild hwildcard
  rw [hpoint] at hpoint'
  obtain ⟨rfl, rfl⟩ := Prod.mk.inj (Option.some.inj hpoint')
  have hread := readText_insert hname hroute htext hsplit hwritten
  have hnext : changed.readSource context.appRoutes = .ok ⟨root, true⟩ := by
    rw [FileTree.readSource, hread, extension_appRoutes, ← hgrown]
  have hobject : wildcard.kind = .object ∧ wildcard.propertyString? "path" = some "**".toList := by
    have hfound := List.find?_some hwildcard
    simpa only [Bool.and_eq_true, decide_eq_true_eq] using hfound
  -- the check has counted one wildcard
  have hread' : tree.readSource context.appRoutes = .ok (SyntaxTree.ofText text ".ts") := by
    rw [FileTree.readSource, htext, extension_appRoutes]
  obtain ⟨verdict', hrun, hviolations⟩ :=
    AppRoutes.exists_verdict (FileTree.hasFile_of_readText htext) hread' htable
  obtain rfl := Except.ok.inj (hrun.symm.trans hcheck)
  rw [hclean, eq_comm, List.map_eq_nil_iff] at hviolations
  have hone := AppRoutes.wildcards_eq_one_iff.2 (AppRoutes.findings_eq_nil_iff.1 hviolations).wildcard
  obtain ⟨exported, label, children⟩ := table
  obtain rfl : children = first ++ wildcard :: second := hchildren
  have helements := elements_append_cons label first second hobject.1
  rw [AppRoutes.wildcards] at hone
  dsimp only at hone
  rw [helements] at hone
  refine ⟨⟨root, true⟩, _, _, move, _, _, wildcard, entry, hnext, rfl, htable, hexported, helements, hobject,
    forall_not_isWildcard hone (AppRoutes.isWildcard_iff.2 hobject), ?_, hleads, hchanges⟩
  dsimp only
  rw [elements_insert _ _ _ hleads.kind_eq hcomma, elements_map _ _ label, elements_map _ _ label]
  congr 2
  exact congrArg (List.map move.node) (elements_append_cons label [] second hobject.1)

/-! ## Small tables -/

/-! The characters of the texts are written out before the kernel reads them, since for the kernel it is long
work to find them in a string. -/

/-- A route table with a redirect and the wildcard. -/
def startTable : Text :=
  "import \x7b Routes \x7d from '@angular/router';\n\nexport const routes: Routes = [\n" ++
    "  \x7b path: '', pathMatch: 'full', redirectTo: 'home' \x7d,\n  \x7b\n    path: '**',\n" ++
    "    loadComponent: () =>\n      import('./shared/pages/not-found.page').then((m) => m.NotFoundPage),\n" ++
    "  \x7d,\n];\n"

/-- A route table up to the children of its first route. -/
def nestedFront : Text :=
  "import \x7b Routes \x7d from '@angular/router';\n\nexport const routes: Routes = [\n  \x7b\n" ++
    "    path: 'shop',\n    loadChildren: () => import('./features/shop/shop.routes').then((m) => " ++
    "m.SHOP_ROUTES),\n    children: [\n"

/-- The rest of that route table, with a wildcard among these children. -/
def nestedBack : Text :=
  "      \x7b path: '**', redirectTo: '' \x7d,\n    ],\n  \x7d,\n" ++
    "  \x7b\n    path: '**',\n    loadComponent: () => import('./shared/pages/not-found.page').then((m) => " ++
    "m.NotFoundPage),\n  \x7d,\n];\n"

/-- A route table in which a wildcard below the first route comes before its own. -/
def nestedTable : Text := nestedFront ++ nestedBack

/-- A workspace with this route table. -/
def treeWith (text : Text) : FileTree :=
  .folder [("src", .folder [("app", .folder [("app.routes.ts", .file (Text.Utf8.encode text))])])]

/-- The feature of the orders. -/
def ordersName : FeatureName := ⟨"orders", "Orders", "ORDERS"⟩

/-- The tree of a source, with as many steps for the lexemes as the text has characters. -/
def treeOf (text : Text) : SyntaxTree := SyntaxTree.ofTokens false (place (lexemesOf text))

theorem ofText_eq_treeOf (text : Text) : SyntaxTree.ofText text ".ts" = treeOf text := by
  rw [ofText_eq, treeOf, lexemesOf_eq]

/-- The small table is a program in which nothing is found, and it has no objects but its elements. The route
of the orders is not in it. -/
theorem startTable_shape : ∃ table, (treeOf startTable).root.exportedArray? AppRoutes.tableName = some table ∧
    (treeOf startTable).isProgram = true ∧ table.array.elements.map Node.kind = [.object, .object] ∧
    AppRoutes.findings (treeOf startTable).root table.array.elements = [] ∧
    (treeOf startTable).root.preorder.countP (fun node => decide (node.kind = .object)) = 2 ∧
    '\r' ∉ startTable ∧ Text.occursIn (routeMark "orders") startTable = false := by
  have hshape : ((treeOf startTable).root.exportedArray? AppRoutes.tableName).map (fun table =>
      ((treeOf startTable).isProgram, table.array.elements.map Node.kind,
        AppRoutes.findings (treeOf startTable).root table.array.elements,
        (treeOf startTable).root.preorder.countP fun node => decide (node.kind = .object))) =
      some (true, [.object, .object], [], 2) ∧ '\r' ∉ startTable ∧
        Text.occursIn (routeMark "orders") startTable = false := by
    unfold startTable routeMark
    repeat rw [String.toList_ofList]
    decide +kernel
  obtain ⟨hshape, hplain⟩ := hshape
  obtain ⟨table, htable, hshape⟩ := Option.map_eq_some_iff.1 hshape
  simp only [Prod.mk.injEq] at hshape
  exact ⟨table, htable, hshape.1, hshape.2.1, hshape.2.2.1, hshape.2.2.2, hplain⟩

/-- In the nested table nothing is found either, but its first wildcard is the one below the first route. With
the route of the orders in front of that, its table still has two elements. -/
theorem nestedTable_shape : ∃ table grown,
    (treeOf nestedTable).root.exportedArray? "routes" = some table ∧
    (treeOf nestedTable).isProgram = true ∧ table.array.elements.length = 2 ∧
    AppRoutes.findings (treeOf nestedTable).root table.array.elements = [] ∧
    (wildcardObject? (treeOf nestedTable).root).map (·.offset) = some (nestedFront.length + 6) ∧
    (treeOf (nestedFront ++ (routeEntry "orders" ordersName ++ nestedBack))).root.exportedArray? "routes" =
      some grown ∧ grown.array.elements.length = 2 ∧
    splitBefore nestedTable (nestedFront.length + 6) = (nestedFront, nestedBack) ∧
    '\r' ∉ nestedTable ∧ Text.occursIn (routeMark "orders") nestedTable = false := by
  have hshape : ((treeOf nestedTable).root.exportedArray? "routes").map (fun table =>
      ((treeOf nestedTable).isProgram, table.array.elements.length,
        AppRoutes.findings (treeOf nestedTable).root table.array.elements,
        (wildcardObject? (treeOf nestedTable).root).map (·.offset))) =
      some (true, 2, [], some (nestedFront.length + 6)) ∧
      ((treeOf (nestedFront ++ (routeEntry "orders" ordersName ++ nestedBack))).root.exportedArray?
        "routes").map (fun table => table.array.elements.length) = some 2 ∧
      splitBefore nestedTable (nestedFront.length + 6) = (nestedFront, nestedBack) ∧
      '\r' ∉ nestedTable ∧ Text.occursIn (routeMark "orders") nestedTable = false := by
    unfold nestedTable nestedFront nestedBack routeEntry entryPieces holeValues ordersName routeMark
    repeat rw [String.toList_ofList]
    decide +kernel
  obtain ⟨hshape, hgrown, hplain⟩ := hshape
  obtain ⟨table, htable, hshape⟩ := Option.map_eq_some_iff.1 hshape
  obtain ⟨grown, hgrown, hlength⟩ := Option.map_eq_some_iff.1 hgrown
  simp only [Prod.mk.injEq] at hshape
  exact ⟨table, grown, htable, hshape.1, hshape.2.1, hshape.2.2.1, hshape.2.2.2, hgrown, hlength, hplain⟩

theorem readText_treeWith_normalized (raw : Text) :
    (treeWith raw).readText AppRoutes.tableContext.appRoutes = .ok (Text.normalizeNewlines raw) :=
  FileTree.readText_of_read rfl rfl

theorem readText_treeWith {text : Text} (h : '\r' ∉ text) :
    (treeWith text).readText AppRoutes.tableContext.appRoutes = .ok text := by
  rw [readText_treeWith_normalized, Text.normalizeNewlines_eq_self h]

theorem readSource_treeWith {text : Text} (h : '\r' ∉ text) :
    (treeWith text).readSource AppRoutes.tableContext.appRoutes = .ok (treeOf text) := by
  rw [FileTree.readSource, readText_treeWith h, extension_appRoutes, ← ofText_eq_treeOf]

theorem writeText_treeWith (text new : Text) :
    (treeWith text).writeText AppRoutes.tableContext.appRoutes new = .ok (treeWith new) := rfl

theorem register_treeWith_normalized {raw before after : Text}
    (hmark : Text.occursIn (routeMark route) (Text.normalizeNewlines raw) = false)
    (hpoint : insertionPoint? (Text.normalizeNewlines raw) = some (before, after)) :
    register (treeWith raw) AppRoutes.tableContext.appRoutes route name =
      .ok (treeWith (Text.concat [before, routeEntry route name, after]), false) := by
  refine register_of_unmarked (readText_treeWith_normalized raw) ?_ hpoint (writeText_treeWith raw _)
  rw [← Text.occursIn_iff_infix, hmark]
  exact Bool.false_ne_true

theorem register_treeWith {text before after : Text} (h : '\r' ∉ text)
    (hmark : Text.occursIn (routeMark route) text = false) (hpoint : insertionPoint? text = some (before, after)) :
    register (treeWith text) AppRoutes.tableContext.appRoutes route name =
      .ok (treeWith (Text.concat [before, routeEntry route name, after]), false) := by
  rw [← Text.normalizeNewlines_eq_self h] at hmark hpoint
  exact register_treeWith_normalized hmark hpoint

/-- A table in which nothing is found is checked without a violation. -/
theorem exists_check_treeWith {text : Text} (h : '\r' ∉ text) {table : ExportedArray}
    (htable : (treeOf text).root.exportedArray? "routes" = some table)
    (hfindings : AppRoutes.findings (treeOf text).root table.array.elements = []) :
    ∃ verdict, AppRoutes.check AppRoutes.tableContext (treeWith text) = .ok verdict ∧
      verdict.violations = [] := by
  obtain ⟨verdict, hrun, hviolations⟩ :=
    AppRoutes.exists_verdict (FileTree.hasFile_of_readText (readText_treeWith h)) (readSource_treeWith h) htable
  exact ⟨verdict, hrun, by rw [hviolations, hfindings, List.map_nil]⟩

/-- Into the small table the route of the orders comes as one of now three elements. -/
theorem register_exact_startTable : ∃ changed next grown entry,
    register (treeWith startTable) AppRoutes.tableContext.appRoutes "orders" ordersName = .ok (changed, false) ∧
      changed.readSource AppRoutes.tableContext.appRoutes = .ok next ∧ next.isProgram = true ∧
      next.root.exportedArray? AppRoutes.tableName = some grown ∧ grown.array.elements.length = 3 ∧
      entry ∈ grown.array.elements ∧ LeadsTo "orders" "./features/orders/orders.routes" entry := by
  obtain ⟨table, htable, hprogram, hkinds, hclean, hcount, hnormal, hmark⟩ := startTable_shape
  have hlength : table.array.elements.length = 2 := by
    rw [← List.length_map (f := Node.kind), hkinds]
    rfl
  have hobjects : ∀ element ∈ table.array.elements, element.kind = .object := fun element helement => by
    have hkind := List.mem_map_of_mem (f := Node.kind) helement
    rw [hkinds] at hkind
    exact List.eq_of_mem_replicate (n := 2) hkind
  obtain ⟨verdict, hcheck, hnone⟩ := exists_check_treeWith hnormal htable hclean
  obtain ⟨front, wildcard, back, hsplit, hwildcard, -⟩ := (AppRoutes.findings_eq_nil_iff.1 hclean).wildcard
  have hmem : wildcard ∈ table.array.elements := hsplit ▸ List.mem_append_right _ (List.mem_cons_self ..)
  have hfirst := firstWildcardIsRoute htable hobjects (hcount.trans hlength.symm) hmem hwildcard
  obtain ⟨⟨start, rest⟩, hpoint⟩ : ∃ parts, insertionPoint? startTable = some parts := by
    obtain ⟨-, first, -, -, hfound⟩ := hfirst
    rw [insertionPoint?, wildcardOffset?, ofText_eq_treeOf, hfound]
    exact ⟨_, rfl⟩
  have hdone := @register_treeWith ordersName "orders" _ _ _ hnormal hmark hpoint
  obtain ⟨next, old, grown, move, before, behind, last, entry, hnext, hprogram, hold, hgrown, helements, -, -, hnew,
    hleads, -⟩ := register_exact ⟨"orders", by decide⟩ ⟨by decide, Text.forall_mem (by decide)⟩
      (readSource_treeWith hnormal) hprogram hcheck hnone hfirst hdone
  obtain rfl := Option.some.inj (hold.symm.trans htable)
  refine ⟨_, next, grown, entry, hdone, hnext, hprogram, hgrown, ?_, ?_, hleads⟩
  · rw [helements, List.length_append, List.length_cons] at hlength
    rw [hnew, List.length_append, List.length_map, List.length_cons, List.length_cons, List.length_map]
    omega
  · rw [hnew]
    exact List.mem_append_right _ (List.mem_cons_self ..)

/-- Where a wildcard below a route is the first of the file, the route does not get into the table. -/
theorem register_misses_table : ∃ changed source next table grown verdict,
    (treeWith nestedTable).readSource AppRoutes.tableContext.appRoutes = .ok source ∧ source.isProgram = true ∧
      AppRoutes.check AppRoutes.tableContext (treeWith nestedTable) = .ok verdict ∧ verdict.violations = [] ∧
      register (treeWith nestedTable) AppRoutes.tableContext.appRoutes "orders" ordersName = .ok (changed, false) ∧
      changed.readSource AppRoutes.tableContext.appRoutes = .ok next ∧
      source.root.exportedArray? AppRoutes.tableName = some table ∧
      next.root.exportedArray? AppRoutes.tableName = some grown ∧
      grown.array.elements.length = table.array.elements.length := by
  obtain ⟨table, grown, htable, hprogram, hlength, hclean, hoffset, hgrown, hlength', hsplit, hnormal, hmark⟩ :=
    nestedTable_shape
  have hpoint : insertionPoint? nestedTable = some (nestedFront, nestedBack) := by
    rw [insertionPoint?, wildcardOffset?, ofText_eq_treeOf, hoffset]
    dsimp only
    rw [hsplit]
  obtain ⟨verdict, hcheck, hnone⟩ := exists_check_treeWith hnormal htable hclean
  have hdone := @register_treeWith ordersName "orders" _ _ _ hnormal hmark hpoint
  have hnew : (treeWith _).readText AppRoutes.tableContext.appRoutes =
      .ok (nestedFront ++ (routeEntry "orders" ordersName ++ nestedBack)) :=
    readText_insert ⟨"orders", by decide⟩ ⟨by decide, Text.forall_mem (by decide)⟩ (readText_treeWith hnormal)
      (insertionPoint?_append hpoint) (writeText_treeWith nestedTable _)
  refine ⟨_, _, _, table, grown, verdict, readSource_treeWith hnormal, hprogram, hcheck, hnone, hdone, ?_, htable,
    hgrown, hlength'.trans hlength.symm⟩
  rw [FileTree.readSource, hnew, extension_appRoutes, ← ofText_eq_treeOf]

end VerticalSlice.Feature
