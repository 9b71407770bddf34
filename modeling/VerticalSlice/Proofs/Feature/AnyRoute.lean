import VerticalSlice.Proofs.Feature.Faults
import VerticalSlice.Proofs.Feature.Presence
import VerticalSlice.Proofs.Feature.Routing
import VerticalSlice.Proofs.Feature.Runs
import VerticalSlice.Proofs.Syntax.Templates

/-!
# Routes of any spelling

A route is put between the quotes of its entry as it is. If it may not stand there (`isQuotable`), or has
a carriage return, which is a line feed when the file is read again, there is no literal with the route
in the whole file, whatever the file says then (`isQuotable_of_literal`). If it may, the table is the one from
before with the entry in front of its wildcard, and the check finds nothing in it.

The main result is `generate_says_route_iff`. A literal is cut without a look at what a backslash stands
for, so for a route with a backslash it says what is necessary, and for all others what is enough too.
-/

namespace VerticalSlice.Feature

open Syntax FileTree

variable {front route back : Text}

/-! ## Literals -/

/-- A literal with contents is these between two quotes, single ones only if they may stand there, or it is
a word. -/
theorem spelled_of_stringValue? {text : Text} {nodes : List Node}
    (h : programNodes? false (place (lexemes false text)) = some nodes) {node : Node}
    (hnode : node ∈ (Node.branch .program nodes).preorder) {contents : Text} (hne : contents ≠ [])
    (hvalue : node.stringValue? = some contents) :
    ∃ first last, node.text = first :: (contents ++ [last]) ∧
      (first = '"' ∧ last = '"' ∨ first = '\'' ∧ isQuotable contents = true ∨
        ∀ c, EndsNames c → c ∉ node.text) := by
  have hkind : node.kind = .string := by
    by_contra hother
    rw [Node.stringValue?, if_neg hother] at hvalue
    cases hvalue
  rw [Node.stringValue?, if_pos hkind, Option.some.injEq] at hvalue
  obtain ⟨first, last, htext⟩ : ∃ first last, node.text = first :: (contents ++ [last]) := by
    cases htext : node.text with
    | nil => rw [← hvalue, htext] at hne; exact absurd rfl hne
    | cons first rest =>
      rw [htext, Syntax.inner, List.drop_one, List.tail_cons] at hvalue
      have hrest : rest ≠ [] := by
        rintro rfl
        exact hne hvalue.symm
      exact ⟨first, rest.getLast hrest, by rw [← hvalue, List.dropLast_append_getLast]⟩
  refine ⟨first, last, htext, ?_⟩
  obtain ⟨hchildren, hblanks, -, hspells⟩ := spellsLiteral_of_mem_preorder h hnode hkind
  obtain ⟨label, children⟩ := node
  obtain rfl : children = [] := hchildren
  have hsame : (Node.mk label []).text = label.text.dropWhile isSpace := by
    rw [Node.Lexical.text_token]
    exact Node.Lexical.dropWhile_blanks hblanks _
  have hspells : SpellsLiteral label.text := hspells
  rw [hsame] at htext ⊢
  generalize label.text = spelling at hspells htext
  cases hspells with
  | word hword => exact .inr (.inr fun c hc hmem => hword c hc (List.dropWhile_subset _ hmem))
  | @quoted quote body hquote hends =>
    obtain ⟨inside, rfl⟩ := exists_inside_of_quotedLength? hends
    have hspace : isSpace quote = false := by rcases hquote with rfl | rfl <;> decide
    rw [List.dropWhile_cons_of_neg (by simp [hspace]), List.cons.injEq] at htext
    obtain ⟨rfl, hbody⟩ := htext
    obtain ⟨rfl, hlast⟩ := List.append_inj' hbody rfl
    obtain rfl := List.head_eq_of_cons_eq hlast
    rw [List.length_append, List.length_singleton] at hends
    rcases hquote with rfl | rfl
    · exact .inl ⟨rfl, rfl⟩
    · exact .inr (.inl ⟨rfl, quotedLength?_eq_some_iff.1 hends⟩)

/-- A character that is in a text as often as in a part of it stands nowhere else. -/
theorem count_eq_zero_of_append {c : Char} {left right : Text} (hfront : c ∉ front) (hback : c ∉ back)
    (h : front ++ (route ++ back) = left ++ (route ++ right)) : c ∉ left ∧ c ∉ right := by
  have hcount := congrArg (List.count c) h
  rw [List.count_append, List.count_append, List.count_append, List.count_append,
    List.count_eq_zero_of_not_mem hfront, List.count_eq_zero_of_not_mem hback] at hcount
  exact ⟨List.count_eq_zero.1 (by omega), List.count_eq_zero.1 (by omega)⟩

/-- A part with a character that stands nowhere else is found in one place only. -/
theorem eq_of_append {c : Char} {left right : Text} (hroute : c ∈ route) (hfront : c ∉ front) (hback : c ∉ back)
    (h : front ++ (route ++ back) = left ++ (route ++ right)) : front = left := by
  obtain ⟨hleft, -⟩ := count_eq_zero_of_append hfront hback h
  obtain ⟨first, second, rfl, hfirst⟩ := List.eq_append_cons_of_mem hroute
  have hsplit : (front ++ first) ++ c :: (second ++ back) = (left ++ first) ++ c :: (second ++ right) := by
    simpa only [List.append_assoc, List.cons_append] using h
  have hsame := (Text.split_unique (by simp [hfront, hfirst]) (by simp [hleft, hfirst]) hsplit).1
  exact List.append_cancel_right hsame

/-- If a text between single quotes is the contents of a literal anywhere in a program that has no backslash
and no double quote but those of the text, it may stand there. -/
theorem isQuotable_of_literal {nodes : List Node} {node : Node}
    (hbackslash : '\\' ∉ front ∧ '\\' ∉ back) (hdouble : '"' ∉ front ∧ '"' ∉ back)
    (h : programNodes? false (place (lexemes false (front ++ '\'' :: (route ++ '\'' :: back)))) = some nodes)
    (hnode : node ∈ (Node.branch .program nodes).preorder) (hvalue : node.stringValue? = some route) :
    isQuotable route = true := by
  by_cases hempty : route = []
  · rw [hempty]
    rfl
  obtain ⟨first, last, htext, hcases⟩ := spelled_of_stringValue? h hnode hempty hvalue
  obtain ⟨before, after, hpart, -⟩ := exists_part_of_mem_preorder h hnode
  have hplaces : (front ++ ['\'']) ++ (route ++ '\'' :: back) =
      (before ++ node.source.takeWhile isSpace ++ [first]) ++ (route ++ last :: after) := by
    have hsource : node.source = node.source.takeWhile isSpace ++ first :: (route ++ [last]) := by
      rw [← htext, Node.text, List.takeWhile_append_dropWhile]
    rw [hsource] at hpart
    simpa using hpart
  rcases hcases with ⟨rfl, -⟩ | ⟨-, hquotable⟩ | hword
  · -- the double quote would be one that the text has beside the route
    obtain ⟨hnone, -⟩ := @count_eq_zero_of_append _ route _ '"' _ _ (by simp [hdouble.1]) (by simp [hdouble.2]) hplaces
    simp at hnone
  · exact hquotable
  · have hcontents : ∀ c, EndsNames c → c ∉ first :: (route ++ [last]) := fun c hc => htext ▸ hword c hc
    have hquote := hcontents '\'' ⟨by decide, by decide⟩
    have hbreak := hcontents '\n' endsNames_lineFeed
    simp only [List.mem_cons, List.mem_append, not_or] at hquote hbreak
    by_cases hescape : '\\' ∈ route
    · -- the word would have the quote in it
      have hsame := eq_of_append hescape (by simp [hbackslash.1]) (by simp [hbackslash.2]) hplaces
      exact absurd (List.head_eq_of_cons_eq (List.append_inj' hsame rfl).2) hquote.1
    · exact (isQuotable_iff_of_notMem hescape).2 ⟨hquote.2.1, hbreak.2.1⟩

/-! ## The table -/

/-- The path of an element is a literal of the program. -/
theorem exists_literal_of_path {root element : Node} {exported : Text} {table : ExportedArray}
    (htable : root.exportedArray? exported = some table) (helement : element ∈ table.array.elements) {name : Text}
    (hpath : element.propertyString? name = some route) : ∃ node ∈ root.preorder, node.stringValue? = some route := by
  obtain ⟨value, hvalue, hstring⟩ := Option.bind_eq_some_iff.1 hpath
  have harray := Node.array_mem_preorder (List.mem_of_find?_eq_some htable)
  exact ⟨value, Node.mem_preorder_trans (Node.mem_preorder_of_property? hvalue)
    (Node.mem_preorder_of_mem_elements helement harray), hstring⟩

/-- What a literal says is a part of the text of its program. -/
theorem infix_of_stringValue? {text : Text} {nodes : List Node}
    (h : programNodes? false (place (lexemes false text)) = some nodes) {node : Node}
    (hnode : node ∈ (Node.branch .program nodes).preorder) (hvalue : node.stringValue? = some route) :
    route <:+: text := by
  refine @Color.infix_of_mem_literals text nodes h (route, node.line) ?_
  rw [Node.literals, Node.walk_eq_preorder, List.mem_filterMap]
  refine ⟨node, hnode, ?_⟩
  rw [Node.stringValue?, Option.ite_none_right_eq_some] at hvalue
  rw [Node.literal?, hvalue.1]
  exact congrArg (Option.map _) hvalue.2

/-- The route is the path of an element of the table, the file is a program, and the check finds nothing in it. -/
structure SaysRoute (context : Context) (tree : FileTree) (route : Text) (source : SyntaxTree) : Prop where
  program : source.isProgram = true
  element : ∃ table, source.root.exportedArray? AppRoutes.tableName = some table ∧
    ∃ element ∈ table.array.elements, element.propertyString? "path" = some route
  check : ∃ verdict, AppRoutes.check context tree = .ok verdict ∧ verdict.violations = []

/-- In the small table there are no backslashes and no double quotes. -/
theorem startTable_chars : '\\' ∉ startTable ∧ '"' ∉ startTable ∧
    Text.occursIn (routeMark []) startTable = true ∧
    Text.occursIn (routeMark AppRoutes.wildcardPath) startTable = true := by
  unfold startTable routeMark AppRoutes.wildcardPath
  repeat rw [String.toList_ofList]
  decide +kernel

variable {context : Context} {request : Request} {name : FeatureName} {tree changed : FileTree}
  {before after : Text} {done : Generated}

/-- A route that is put into the small table is none that it has rules of its own for. -/
theorem isOrdinary_of_register (htable : tree.readText context.appRoutes = .ok startTable)
    (h : register tree context.appRoutes route name = .ok (changed, false)) : IsOrdinary route := by
  have hmark : ¬routeMark route <:+: startTable := by
    rw [← register_present_iff_marked htable, h]
    exact fun hsame => Bool.noConfusion (Prod.mk.inj (Except.ok.inj hsame)).2
  obtain ⟨-, -, hempty, hwildcard⟩ := startTable_chars
  rw [Text.occursIn_iff_infix] at hempty hwildcard
  exact ⟨fun heq => hmark (heq ▸ hempty), fun heq => hmark (heq ▸ hwildcard)⟩

/-- Where the file is a program and the route is the contents of one of its literals, the route may stand
between quotes and has no carriage return. -/
theorem isQuotable_of_inserted (hname : name.IsSpelling) (hsplit : before ++ after = startTable) {nodes : List Node}
    (h : programNodes? false (place (lexemes false
      (Text.normalizeNewlines (before ++ (routeEntry route name ++ after))))) = some nodes) {node : Node}
    (hnode : node ∈ (Node.branch .program nodes).preorder) (hvalue : node.stringValue? = some route) :
    isQuotable route = true ∧ '\r' ∉ route := by
  obtain ⟨hbackslash, hdouble, -, -⟩ := startTable_chars
  obtain ⟨-, -, -, -, -, -, hnormal, -⟩ := startTable_shape
  have hroute : '\r' ∉ route := fun hmem =>
    Text.carriageReturn_notMem_normalizeNewlines _ ((infix_of_stringValue? h hnode hvalue).subset hmem)
  rw [normalizeNewlines_insert hname hroute hnormal hsplit, routeEntry_eq] at h
  rw [← hsplit, List.mem_append, not_or] at hbackslash hdouble
  -- the rest of the entry has no backslash and no double quote either
  have hrest : ∀ {c : Char}, FeatureName.isKebabChar c = false → FeatureName.isConstChar c = false →
      (∀ piece ∈ restPieces, c ∉ piece.fill fun _ => []) → c ∉ after →
        c ∉ fill (holeValues name route) restPieces ++ after := by
    intro c hkebab hconst hfixed hafter
    rw [List.mem_append, not_or]
    exact ⟨notMem_restPieces hname hkebab hconst hfixed route, hafter⟩
  refine ⟨@isQuotable_of_literal (before ++ "  \x7b\n    path: ".toList) route
    (fill (holeValues name route) restPieces ++ after) nodes node ?_ ?_ ?_ hnode hvalue, hroute⟩
  · exact ⟨by simp [hbackslash.1], hrest (by decide) (by decide) (by decide) hbackslash.2⟩
  · exact ⟨by simp [hdouble.1], hrest (by decide) (by decide) (by decide) hdouble.2⟩
  · simpa only [List.append_assoc, List.cons_append] using h

/-- With a route that may stand between quotes the small table is a program again, and has the route. -/
theorem hasRouting_of_inserted (hname : name.IsSpelling) (hpoint : insertionPoint? startTable = some (before, after))
    (hquotable : isQuotable route = true) (hroute : '\r' ∉ route) {source : SyntaxTree}
    (hsource : source = SyntaxTree.ofText
      (Text.normalizeNewlines (before ++ (routeEntry route name ++ after))) ".ts") :
    source.isProgram = true ∧ HasRouting [⟨route, name⟩] source.root := by
  obtain ⟨-, -, -, -, -, -, hnormal, -⟩ := startTable_shape
  obtain ⟨-, start, rest, hpoint', hsplit, hprogram, hrouting⟩ :=
    @HasRouting.exists_inserted [] startTable ⟨route, name⟩ isTable_startTable.routing isTable_startTable.program
      (List.forall_mem_nil _) hname hquotable
  obtain ⟨rfl, rfl⟩ := Prod.mk.inj (Option.some.inj (hpoint.symm.trans hpoint'))
  rw [hsource, normalizeNewlines_insert hname hroute hnormal hsplit]
  exact ⟨hprogram, hrouting⟩

/-- The check has nothing against a table with this route alone. -/
theorem HasRouting.saysRoute (hfile : tree.hasFile context.appRoutes = true) {source : SyntaxTree}
    (hsource : tree.readSource context.appRoutes = .ok source) (hprogram : source.isProgram = true)
    (h : HasRouting [⟨route, name⟩] source.root) (hroute : IsOrdinary route) :
    SaysRoute context tree route source := by
  obtain ⟨table, hexported, hrouting, hcomposed⟩ := h.wellComposed (List.forall_mem_singleton.2 hroute)
  obtain ⟨verdict, hrun, hviolations⟩ := AppRoutes.exists_verdict hfile hsource hexported
  rw [AppRoutes.findings_eq_nil_iff.2 hcomposed, List.map_nil] at hviolations
  obtain ⟨home, entries, wildcard, helements, -, hentries, -⟩ := hrouting
  obtain ⟨entry, others, hleads, -, rfl⟩ := List.forall₂_cons_left_iff.1 hentries
  refine ⟨hprogram, ⟨table, hexported, entry, ?_, hleads.path_eq⟩, verdict, hrun, hviolations⟩
  rw [helements]
  simp

/-- A route that is put into the small table is said by it exactly if it may stand between quotes and has no
carriage return. Then it stands between the redirect and the wildcard, and leads to the feature. -/
theorem says_route_of_register (hname : name.IsSpelling) (htable : tree.readText context.appRoutes = .ok startTable)
    (h : register tree context.appRoutes route name = .ok (changed, false)) :
    ∃ source, changed.readSource context.appRoutes = .ok source ∧
      (SaysRoute context changed route source ↔ isQuotable route = true ∧ '\r' ∉ route) ∧
      (isQuotable route = true → '\r' ∉ route →
        ∃ table, source.root.exportedArray? AppRoutes.tableName = some table ∧
          IsRouting [⟨route, name⟩] table.array.elements) := by
  have hordinary := isOrdinary_of_register htable h
  obtain ⟨text, before, after, htext, hpoint, hwritten⟩ := exists_text_of_register h
  obtain rfl := Except.ok.inj (htext.symm.trans htable)
  have hsplit := insertionPoint?_append hpoint
  have hread : changed.readText context.appRoutes =
      .ok (Text.normalizeNewlines (before ++ (routeEntry route name ++ after))) := by
    rw [FileTree.readText_of_writeText hwritten, Text.concat]
    simp only [List.flatten_cons, List.flatten_nil, List.append_nil]
  have hsource : changed.readSource context.appRoutes = .ok (SyntaxTree.ofText
      (Text.normalizeNewlines (before ++ (routeEntry route name ++ after))) ".ts") := by
    rw [FileTree.readSource, hread, extension_appRoutes]
  refine ⟨_, hsource, ⟨?_, ?_⟩, fun hquotable hroute => ?_⟩
  · intro hsaid
    obtain ⟨nodes, hnodes, htree⟩ := exists_nodes_of_isProgram hsaid.program
    obtain ⟨table, hexported, element, helement, hpath⟩ := hsaid.element
    obtain ⟨node, hnode, hvalue⟩ := exists_literal_of_path hexported helement hpath
    rw [htree] at hnode
    exact isQuotable_of_inserted hname hsplit hnodes hnode hvalue
  · rintro ⟨hquotable, hroute⟩
    obtain ⟨hprogram, hrouting⟩ := hasRouting_of_inserted hname hpoint hquotable hroute rfl
    exact hrouting.saysRoute (FileTree.hasFile_of_readText hread) hsource hprogram hordinary
  · obtain ⟨-, hrouting⟩ := hasRouting_of_inserted hname hpoint hquotable hroute rfl
    obtain ⟨table, hexported, helements, -⟩ := hrouting.table
    exact ⟨table, hexported, helements⟩

/-! ## The call -/

/-- The files of a feature come before its route, and leave the table as it was. -/
theorem readText_appRoutes_of_writeFeature {text : Text} (hname : name.IsSpelling)
    (htable : tree.readText context.appRoutes = .ok text) {result : Except FileFault Unit}
    (h : writeFeature context tree name = (changed, result)) : changed.readText context.appRoutes = .ok text := by
  obtain ⟨written, rest, hfiles, hpart, -⟩ := writeFeature_cases hname h
  have hwritten : written ⊆ files context name := hfiles ▸ List.subset_append_left written rest
  exact (hpart.readText_appRoutes hname hwritten (hasFile_of_readText htable)).trans htable

/-- A call that puts its route into the table finds the table as it was. -/
theorem exists_register_of_generate {text : Text} (htable : tree.readText context.appRoutes = .ok text)
    (hregister : request.register = true) (h : generate context tree request = (changed, .ok done)) :
    FeatureName.ofText? request.name = some done.name ∧ ∃ made, made.readText context.appRoutes = .ok text ∧
      register made context.appRoutes (request.routePath done.name) done.name =
        .ok (changed, done.alreadyPresent) := by
  obtain ⟨name, hspelled, hnamed⟩ := exists_generateNamed_of_generate h
  obtain ⟨made, present, hfeature, hregistered, rfl⟩ := exists_register_of_generateNamed hregister hnamed
  exact ⟨hspelled, made, readText_appRoutes_of_writeFeature ⟨_, hspelled⟩ htable hfeature, hregistered⟩

/-- A route that a call puts into the small table is said by it only if it may stand between quotes and has
no carriage return. Then it stands between the redirect and the wildcard, and leads to the feature. A route
without a backslash is said exactly if it has no single quote and no end of a line. -/
theorem generate_says_route_iff (htable : tree.readText context.appRoutes = .ok startTable)
    (hregister : request.register = true) (h : generate context tree request = (changed, .ok done))
    (hnew : done.alreadyPresent = false) (hroute : request.routePath done.name = route) :
    ∃ source, changed.readSource context.appRoutes = .ok source ∧
      (SaysRoute context changed route source → isQuotable route = true ∧ '\r' ∉ route ∧
        ∃ table, source.root.exportedArray? AppRoutes.tableName = some table ∧
          IsRouting [⟨route, done.name⟩] table.array.elements) ∧
      ('\\' ∉ route →
        (SaysRoute context changed route source ↔ '\'' ∉ route ∧ '\n' ∉ route ∧ '\r' ∉ route)) := by
  obtain ⟨hspelled, made, hmade, hregistered⟩ := exists_register_of_generate htable hregister h
  rw [hnew, hroute] at hregistered
  obtain ⟨source, hsource, hiff, hrouting⟩ := says_route_of_register ⟨_, hspelled⟩ hmade hregistered
  refine ⟨source, hsource, fun hsaid => ?_, fun hplain => ?_⟩
  · obtain ⟨hquotable, hreturn⟩ := hiff.1 hsaid
    exact ⟨hquotable, hreturn, hrouting hquotable hreturn⟩
  · rw [hiff, isQuotable_iff_of_notMem hplain, and_assoc]

/-! ## Two routes with quotes -/

/-- A workspace with the small table and without features. -/
def startTree : FileTree := appTree [("app.routes.ts", .file (Text.Utf8.encode startTable))]

theorem readText_startTree : startTree.readText plainContext.appRoutes = .ok startTable := by
  obtain ⟨-, -, -, -, -, -, hreturns, -⟩ := startTable_shape
  exact readText_of_encode rfl hreturns

/-- The request to put the orders into the table under a route. -/
def routedRequest (route : Text) : Request := { name := "orders", route := some route, register := true }

/-- In that workspace the orders are generated, and a route that the table does not have is put into it. -/
theorem exists_generate_startTree (hmark : Text.occursIn (routeMark route) startTable = false) :
    ∃ changed done, generate plainContext startTree (routedRequest route) = (changed, .ok done) ∧
      done.alreadyPresent = false ∧ (routedRequest route).routePath done.name = route := by
  have hspelled : FeatureName.ofText? (routedRequest route).name = some ordersName := rfl
  have hname : ordersName.IsSpelling := ⟨_, hspelled⟩
  obtain ⟨made, hmade, hwf⟩ : ∃ made, writeFeature plainContext startTree ordersName = (made, .ok ()) ∧
      made.WellFormed := ⟨_, rfl, by decide +kernel⟩
  have hread := readText_appRoutes_of_writeFeature hname readText_startTree hmade
  -- where an entry goes does not depend on its route
  obtain ⟨before, after, hpoint, -⟩ := @IsTable.insert [] startTable ⟨ordersName.kebab, ordersName⟩
    isTable_startTable (List.forall_mem_nil _) hname (isRoute_kebab hname)
  obtain ⟨changed, hwrite, -⟩ :=
    exists_isRetabled hwf hread (Text.concat [before, routeEntry route ordersName, after])
  have hregister : register made plainContext.appRoutes route ordersName = .ok (changed, false) := by
    refine register_of_unmarked hread ?_ hpoint hwrite
    rw [← Text.occursIn_iff_infix, hmark]
    exact Bool.false_ne_true
  refine ⟨changed, generated plainContext ordersName (some route) false, ?_, rfl, rfl⟩
  rw [generate_eq_generateNamed (routedRequest route) hspelled fun _ => rfl]
  exact generateNamed_of_registered hmade rfl hregister

/-- A route with double quotes. -/
def doubleQuoted : Text := "the \"best\" deals"

/-- A route that ends its literal and goes on with a property of its own. -/
def crossing : Text := "x', component: 'y"

theorem notMarked_startTable : Text.occursIn (routeMark doubleQuoted) startTable = false ∧
    Text.occursIn (routeMark crossing) startTable = false := by
  unfold startTable routeMark doubleQuoted crossing
  repeat rw [String.toList_ofList]
  decide +kernel

/-- A double quote is a character like others between single ones. -/
theorem generate_says_route_doubleQuoted : ∃ changed done source,
    generate plainContext startTree (routedRequest doubleQuoted) = (changed, .ok done) ∧
      done.alreadyPresent = false ∧ changed.readSource plainContext.appRoutes = .ok source ∧
      SaysRoute plainContext changed doubleQuoted source := by
  obtain ⟨changed, done, hdone, hnew, hroute⟩ := exists_generate_startTree notMarked_startTable.1
  obtain ⟨source, hsource, -, hiff⟩ := generate_says_route_iff readText_startTree rfl hdone hnew hroute
  exact ⟨changed, done, source, hdone, hnew, hsource, (hiff (by decide)).2 (by decide)⟩

/-- A single quote ends the literal. So what is put into the table here is a route with a component. -/
theorem generate_says_other_route : ∃ changed done source,
    generate plainContext startTree (routedRequest crossing) = (changed, .ok done) ∧
      done.alreadyPresent = false ∧ changed.readSource plainContext.appRoutes = .ok source ∧
      ¬SaysRoute plainContext changed crossing source := by
  obtain ⟨changed, done, hdone, hnew, hroute⟩ := exists_generate_startTree notMarked_startTable.2
  obtain ⟨hspelled, made, hmade, hregistered⟩ := exists_register_of_generate readText_startTree rfl hdone
  rw [hnew, hroute] at hregistered
  obtain ⟨source, hsource, hiff, -⟩ := says_route_of_register ⟨_, hspelled⟩ hmade hregistered
  exact ⟨changed, done, source, hdone, hnew, hsource, mt hiff.1 (by decide)⟩

end VerticalSlice.Feature
