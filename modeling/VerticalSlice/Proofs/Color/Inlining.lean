import VerticalSlice.Proofs.Color.Lines
import VerticalSlice.Proofs.Feature.Table

/-!
# Templates and style sheets inside source code

The template or the style sheet of a component may stand in a file of its own or in a literal of the source. A
literal is looked through in one of three ways, and which one depends on its contents: as one colour, as HTML and
a style sheet, or as a style sheet alone. Only the first way stands against the others, and it is taken for
nothing but a colour between blanks (`isWhole_iff`), so neither HTML that begins with a tag nor a style sheet with
more in it is taken for that. The other two find what they find in a file, with each line counted from that of the
literal (`inStylesheet_eq_map`). So nothing that is told of the file is passed over in the source
(`inlining_hides_nothing`).

`HoldsTemplate` says that the source has such a literal. A text without back quotes, backslashes and
substitutions is held by the source that puts it in back quotes, whatever it is (`holdsTemplate_of_isPlain`).
-/

namespace VerticalSlice

namespace Color

variable {text lead color contents : Text} {line : Nat}

/-! ## One whole colour -/

/-- The text is the colour behind some blanks, and behind it there are blanks only. -/
inductive IsWhole (text lead color : Text) : Prop
  | intro {trail : Text} (hlead : Text.Blank lead) (htrail : Text.Blank trail) (hcolor : IsColor color)
    (htext : text = lead ++ (color ++ trail))

theorem isBlank_eq_false_of_isWordChar {c : Char} (h : Text.isWordChar c = true) : Text.isBlank c = false := by
  rw [Bool.eq_false_iff]
  intro hblank
  rw [(isBlank_facts hblank).1] at h
  cases h

theorem IsColor.exists_head (h : IsColor color) : ∃ c rest, color = c :: rest ∧
    (c = '#' ∨ Text.isWordChar c = true) := by
  cases h with
  | hex => exact ⟨_, _, rfl, .inl rfl⟩
  | function _ _ hword hname =>
    rw [← mem_functionNames_iff] at hword
    have hletters := forall_of_spells (isLower_of_mem_functionNames hword) hname
    cases hname with
    | nil => exact absurd hword (by decide)
    | cons _ _ => exact ⟨_, _, rfl, .inr (hletters _ (List.mem_cons_self ..)).1⟩

theorem IsColor.getLast (h : IsColor color) :
    ∀ c ∈ color.getLast?, c = ')' ∨ c = '#' ∨ Text.isWordChar c = true := by
  intro c hc
  cases h with
  | @hex _ digits _ _ _ hdigits hcount =>
    rcases List.mem_cons.1 (List.mem_of_getLast? hc) with rfl | hc
    · exact .inr (.inl rfl)
    · exact .inr (.inr (isWordChar_of_isHexDigit (hdigits c hc)))
  | @function _ _ name arguments =>
    rw [← List.cons_append, ← List.append_assoc, List.getLast?_concat] at hc
    exact .inl (Option.some.inj hc).symm

/-- A colour begins and ends with characters that are no blanks. -/
theorem IsColor.ends (h : IsColor color) : color ≠ [] ∧ (∀ c ∈ color.head?, Text.isBlank c = false) ∧
    ∀ c ∈ color.getLast?, Text.isBlank c = false := by
  obtain ⟨c, rest, rfl, hc⟩ := h.exists_head
  refine ⟨List.cons_ne_nil _ _, ?_, fun last hlast => ?_⟩
  · rintro first ⟨⟩
    rcases hc with rfl | hc
    · decide
    · exact isBlank_eq_false_of_isWordChar hc
  · rcases h.getLast last hlast with rfl | rfl | hword
    · decide
    · decide
    · exact isBlank_eq_false_of_isWordChar hword

theorem prefix_of_pattern {before : Text} {length : Nat} (h : pattern before text = some (color, length)) :
    color <+: text ∧ length = color.length := by
  rcases pattern_eq_some_iff.1 h with h | h
  · obtain ⟨digits, after, rfl, rfl, rfl, -⟩ := hexPattern_eq_some_iff.1 h
    exact ⟨List.prefix_append _ _, List.length_cons.symm⟩
  · obtain ⟨word, name, arguments, after, -, -, rfl, -, rfl, rfl, -⟩ := functionPattern_eq_some_iff.1 h
    exact ⟨List.prefix_append _ _, rfl⟩

/-- The pattern takes a colour as a whole. -/
theorem isColor_iff : IsColor color ↔ pattern [] color = some (color, color.length) := by
  constructor
  · intro h
    obtain ⟨before, tail, length, htext, -, hoffset, hfound⟩ := isColorAt_iff.1 h
    obtain rfl := List.length_eq_zero_iff.1 hoffset
    obtain rfl : color = tail := htext
    have hlength := (prefix_of_pattern hfound).2
    rwa [hlength] at hfound
  · intro h
    refine isColorAt_iff.2 ⟨[], color, color.length, rfl, ?_, rfl, h⟩
    rintro rfl
    cases h

theorem IsWhole.trim_eq (h : IsWhole text lead color) : Text.trim text = color := by
  obtain ⟨hlead, htrail, hcolor, rfl⟩ := h
  obtain ⟨hne, hfirst, hlast⟩ := hcolor.ends
  exact Text.trim_append hlead htrail hfirst hlast hne

/-- What is taken for one colour is one. -/
theorem isWhole_iff : isWhole text = true ↔ ∃ lead color, IsWhole text lead color := by
  have hpattern : isWhole text = true ↔ IsColor (Text.trim text) := by
    rw [isColor_iff, isWhole]
    cases hfound : pattern [] (Text.trim text) with
    | none => simp
    | some found =>
      obtain ⟨color, length⟩ := found
      obtain ⟨hbegins, rfl⟩ := prefix_of_pattern hfound
      rw [beq_iff_eq, Option.some.injEq, Prod.mk.injEq]
      constructor
      · intro hlength
        exact ⟨hbegins.eq_of_length hlength, hlength⟩
      · exact And.right
  rw [hpattern]
  constructor
  · intro hcolor
    obtain ⟨lead, trail, hlead, htrail, htext⟩ := Text.exists_trim text
    exact ⟨lead, Text.trim text, .intro hlead htrail hcolor htext⟩
  · rintro ⟨lead, color, h⟩
    rw [h.trim_eq]
    cases h with
    | intro _ _ hcolor _ => exact hcolor

/-- A text that begins with a tag is no colour. -/
theorem isWhole_eq_false_of_tag (h : (text.dropWhile Text.isBlank).head? = some '<') : isWhole text = false := by
  rw [Bool.eq_false_iff, Ne, isWhole_iff]
  rintro ⟨lead, color, hlead, htrail, hcolor, rfl⟩
  obtain ⟨-, hfirst, -⟩ := hcolor.ends
  obtain ⟨c, rest, rfl, hc⟩ := hcolor.exists_head
  rw [List.dropWhile_append_of_pos hlead, List.cons_append, List.dropWhile_cons, hfirst c rfl] at h
  obtain rfl : c = '<' := Option.some.inj h
  exact absurd hc (by decide)

/-! ## Lines -/

/-- The sighting in a part of a file whose first line is this one of the file. -/
def movedTo (line : Nat) (sighting : Sighting) : Sighting := (sighting.1, line + sighting.2 - 1)

theorem sightingsIn_eq_map (text : Text) (line offset : Nat) (part : Text) :
    sightingsIn text line offset part = (sightingsIn text 1 offset part).map (movedTo line) := by
  rw [sightingsIn, sightingsIn, List.map_map]
  refine List.map_congr_left fun found _ => ?_
  obtain ⟨inside, color⟩ := found
  rw [Function.comp_apply, movedTo]
  dsimp only
  rw [Nat.add_sub_cancel_left]

/-- A style sheet that begins on another line has the same colours, so many lines further down. -/
theorem inStylesheet_eq_map (text : Text) (line : Nat) :
    inStylesheet text line = (inStylesheet text 1).map (movedTo line) := by
  rw [inStylesheet, inStylesheet]
  simp only [inDeclarations, inBrackets, List.map_append, List.map_flatMap]
  congr 2
  · funext piece
    obtain ⟨offset, piece⟩ := piece
    dsimp only
    cases declaration? piece with
    | none => rfl
    | some value => exact sightingsIn_eq_map _ _ _ _
  · funext value
    exact sightingsIn_eq_map _ _ _ _

/-! ## Literals -/

/-- A literal that begins with a tag has all colours that it has as HTML. -/
theorem movedTo_mem_of_mem_inMarkup {sighting : Sighting} (h : (contents.dropWhile Text.isBlank).head? = some '<')
    (hmem : sighting ∈ inMarkup contents) : movedTo line sighting ∈ inLiteral contents line := by
  have hopens : contents.contains '<' = true :=
    List.contains_iff_mem.2 (List.dropWhile_subset _ (List.mem_of_mem_head? h))
  rw [inLiteral, isWhole_eq_false_of_tag h, if_neg Bool.false_ne_true, if_pos hopens]
  exact List.mem_append_left _ (List.mem_map_of_mem hmem)

/-- A literal that is not one colour has all colours that it has as a style sheet. -/
theorem movedTo_mem_of_mem_inStylesheet {sighting : Sighting} (h : ¬∃ lead color, IsWhole contents lead color)
    (hmem : sighting ∈ inStylesheet contents 1) : movedTo line sighting ∈ inLiteral contents line := by
  rw [← isWhole_iff, Bool.not_eq_true] at h
  rw [inLiteral, h, if_neg Bool.false_ne_true, inStylesheet_eq_map contents line]
  exact List.mem_append_right _ (List.mem_map_of_mem hmem)

/-! ## Files -/

open Syntax

/-- A template of the source text has these contents, and it starts on this line. -/
def HoldsTemplate (text contents : Text) (line : Nat) : Prop :=
  ∃ template ∈ (SyntaxTree.ofText text ".ts").root.preorder, template.kind = .templateString ∧
    template.text = '`' :: (contents ++ ['`']) ∧ template.line = line

theorem literal?_of_template {template : Node} (hkind : template.kind = .templateString)
    (htext : template.text = '`' :: (contents ++ ['`'])) : template.literal? = some contents := by
  rw [Node.literal?, hkind, htext, Syntax.inner, List.drop_succ_cons, List.drop_zero, List.dropLast_concat]
  rfl

theorem HoldsTemplate.mem_literals (h : HoldsTemplate text contents line) :
    (contents, line) ∈ (SyntaxTree.ofText text ".ts").root.literals := by
  obtain ⟨template, hmem, hkind, htext, rfl⟩ := h
  rw [Node.literals, Node.walk_eq_preorder, List.mem_filterMap]
  exact ⟨template, hmem, by rw [literal?_of_template hkind htext]; rfl⟩

/-- What is told of a literal is told of the file. -/
theorem mem_inFile_of_mem_inLiteral (h : HoldsTemplate text contents line) {sighting : Sighting}
    (hmem : sighting ∈ inLiteral contents line) : sighting ∈ inFile ".ts" text := by
  rw [inFile, distinct_eq, List.mem_eraseDups, if_pos rfl, inSource, List.mem_flatMap]
  exact ⟨(contents, line), h.mem_literals, hmem⟩

/-- When HTML that begins with a tag, or a style sheet that is not one colour, is put into a source text as a
template, each colour that was told of the file is told of the source text, as many lines further down as the
template is. -/
theorem inlining_hides_nothing {tree : FileTree} {source : Path} {text contents : Text} {line : Nat}
    (hread : tree.readText source = .ok text) (hextension : source.extension = ".ts")
    (hholds : HoldsTemplate text contents line) : ∃ found, RawColors.sightings tree source = .ok found ∧
      (∀ (other : FileTree) (page : Path), other.readText page = .ok contents → page.extension = ".html" →
        (contents.dropWhile Text.isBlank).head? = some '<' →
          ∃ told, RawColors.sightings other page = .ok told ∧ ∀ sighting ∈ told, movedTo line sighting ∈ found) ∧
      ∀ (other : FileTree) (sheet : Path), other.readText sheet = .ok contents → sheet.extension = ".css" →
        (¬∃ lead color, IsWhole contents lead color) →
          ∃ told, RawColors.sightings other sheet = .ok told ∧ ∀ sighting ∈ told, movedTo line sighting ∈ found := by
  have htold : ∀ {tree : FileTree} {path : Path} {text : Text}, tree.readText path = .ok text →
      RawColors.sightings tree path = .ok (inFile path.extension text) := by
    intro tree path text hread
    rw [RawColors.sightings, hread]
    rfl
  refine ⟨_, htold hread, fun other page hpage hhtml htag => ⟨_, htold hpage, fun sighting hmem => ?_⟩,
    fun other sheet hsheet hcss hwhole => ⟨_, htold hsheet, fun sighting hmem => ?_⟩⟩
  · rw [hhtml, inFile, distinct_eq, List.mem_eraseDups, if_neg (by decide), if_pos rfl] at hmem
    rw [hextension]
    exact mem_inFile_of_mem_inLiteral hholds (movedTo_mem_of_mem_inMarkup htag hmem)
  · rw [hcss, inFile, distinct_eq, List.mem_eraseDups, if_neg (by decide), if_neg (by decide)] at hmem
    rw [hextension]
    exact mem_inFile_of_mem_inLiteral hholds (movedTo_mem_of_mem_inStylesheet hwhole hmem)

/-! ## A template on its own -/

/-- Nothing in the text ends a template, begins a substitution in it or takes the next character with it. -/
structure IsPlain (contents : Text) : Prop where
  noQuote : '`' ∉ contents
  noEscape : '\\' ∉ contents
  noSubstitution : ¬['$', '\x7b'] <:+: contents

theorem templateLength_append {rest : Text} (h : IsPlain contents) :
    templateLength false (contents ++ '`' :: rest) = contents.length := by
  obtain ⟨hquote, hescape, hsubstitution⟩ := h
  induction contents with
  | nil => rfl
  | cons c contents ih =>
    rw [List.mem_cons, not_or] at hquote hescape
    have hopens : ¬(c = '$' ∧ (contents ++ '`' :: rest).head? = some '\x7b') := by
      rintro ⟨rfl, hhead⟩
      cases contents with
      | nil => exact absurd (Option.some.inj hhead) (by decide)
      | cons d contents =>
        obtain rfl : d = '\x7b' := Option.some.inj hhead
        exact hsubstitution (List.prefix_append ['$', '\x7b'] contents).isInfix
    have hends : (c = '`' || (c = '$' && (contents ++ '`' :: rest).head? = some '\x7b')) ≠ true := by
      simp only [Bool.or_eq_true, Bool.and_eq_true, decide_eq_true_eq, ne_eq, not_or]
      exact ⟨Ne.symm hquote.1, hopens⟩
    rw [List.cons_append, templateLength, if_neg Bool.false_ne_true, if_neg (Ne.symm hescape.1), if_neg hends,
      ih hquote.2 hescape.2 fun h => hsubstitution (List.infix_cons h), List.length_cons]

/-- The lexemes of a template that stands on its own. -/
def templateLexemes (contents : Text) : List Lexeme :=
  ⟨.mark, [], ['`']⟩ :: ((if contents = [] then [] else [⟨.template, [], contents⟩]) ++
    [⟨.mark, [], ['`']⟩, ⟨.mark, [], [';']⟩])

theorem lexemes_template (h : IsPlain contents) :
    lexemes false ('`' :: (contents ++ ['`', ';'])) = templateLexemes contents := by
  have hopen : cut false .start ('`' :: (contents ++ ['`', ';'])) = (.mark, 1, ⟨[.template], false, ['`']⟩) := rfl
  have hclose : lexemesFrom false ⟨[.template], false, ['`']⟩ ['`', ';'] =
      [⟨.mark, [], ['`']⟩, ⟨.mark, [], [';']⟩] := by
    rw [← lexemesWithin_eq (Nat.lt_succ_self _)]
    decide +kernel
  have hfirst : lexemesFrom false .start ('`' :: (contents ++ ['`', ';'])) =
      ⟨.mark, [], ['`']⟩ :: lexemesFrom false ⟨[.template], false, ['`']⟩ (contents ++ ['`', ';']) := by
    rw [lexemesFrom_cons rfl, hopen]
    rfl
  have hinside : lexemesFrom false ⟨[.template], false, ['`']⟩ (contents ++ ['`', ';']) =
      (if contents = [] then [] else [⟨.template, [], contents⟩]) ++
        [⟨.mark, [], ['`']⟩, ⟨.mark, [], [';']⟩] := by
    cases contents with
    | nil => exact hclose
    | cons c rest =>
      have hlength : templateLength false (c :: rest ++ ['`', ';']) = (c :: rest).length :=
        templateLength_append h
      have hcut : cut false ⟨[.template], false, ['`']⟩ (c :: rest ++ ['`', ';']) =
          (.template, (c :: rest).length, ⟨[.template], false, ['`']⟩) := by
        show cutTemplate _ (c :: rest ++ ['`', ';']) = _
        unfold cutTemplate
        rw [hlength]
        rfl
      have hrest : (rest ++ ['`', ';']).drop rest.length = ['`', ';'] := List.drop_left
      rw [List.cons_append] at hcut ⊢
      rw [lexemesFrom_cons rfl, hcut]
      dsimp only
      rw [List.length_cons, Nat.add_sub_cancel, hrest, hclose, List.take_left]
      rfl
  rw [lexemes, hfirst, hinside, templateLexemes]

/-- The node of that template. -/
def templateNode (contents : Text) : Node :=
  .branch .templateString ((place (templateLexemes contents)).dropLast.map fun token =>
    .leaf (if token.sort = .mark then .mark else .phrase) token)

theorem programNodes?_template (contents : Text) : ∃ semicolon,
    programNodes? false (place (templateLexemes contents)) =
      some [.branch .phrase [.branch .phrase [templateNode contents], semicolon]] := by
  have hprogram : ∀ contents : Text, contents ∈ ([[], ['a']] : List Text) →
      program? false (views (items (place (templateLexemes contents))).1) =
        some ([.begin (some .phrase), .begin (some .phrase), .begin none, .begin none, .begin none,
          .begin (some .templateString), .leaf .mark] ++ (if contents = [] then [] else [.leaf .phrase]) ++
          [.leaf .mark, .finish, .finish, .finish, .finish, .finish, .leaf .mark, .finish]) := by
    decide +kernel
  -- rules do not see the characters of a template, so any others would be read in the same way
  have hviews : ∀ (c : Char) (contents : Text), views (items (place (templateLexemes (c :: contents)))).1 =
      views (items (place (templateLexemes ['a']))).1 := fun _ _ => rfl
  rw [programNodes?]
  dsimp only
  cases contents with
  | nil => exact ⟨_, by rw [hprogram [] (by decide)]; rfl⟩
  | cons c contents => exact ⟨_, by rw [hviews, hprogram ['a'] (by decide)]; rfl⟩

/-- A plain text in back quotes is a template that holds this text. -/
theorem holdsTemplate_of_isPlain (h : IsPlain contents) :
    HoldsTemplate ('`' :: (contents ++ ['`', ';'])) contents 1 := by
  obtain ⟨semicolon, hnodes⟩ := programNodes?_template contents
  have htree : SyntaxTree.ofText ('`' :: (contents ++ ['`', ';'])) ".ts" =
      ⟨.branch .program [.branch .phrase [.branch .phrase [templateNode contents], semicolon]], true⟩ := by
    show SyntaxTree.ofTokens false (place (lexemes false _)) = _
    rw [lexemes_template h, SyntaxTree.ofTokens, hnodes]
  rw [HoldsTemplate, htree]
  have hmem : ∀ (kind : Kind) (node : Node) (rest : List Node), node ∈ (Node.branch kind (node :: rest)).preorder :=
    fun kind node rest => Node.mem_preorder_iff.2 (.inr ⟨node, List.mem_cons_self .., Node.self_mem_preorder _⟩)
  refine ⟨templateNode contents, ?_, rfl, ?_, ?_⟩
  · exact Node.mem_preorder_trans (hmem _ _ _) (Node.mem_preorder_trans (hmem _ _ _) (hmem _ _ _))
  · rw [Node.text, Node.source, Node.walk_eq_preorder]
    cases contents <;> rfl
  · cases contents <;> rfl

/-! ## A class in a component -/

/-- A template that starts on the second line. -/
def componentText : Text := "@Component(\x7b template:\n`\n<b class=\"x-[#fff]\">\n` \x7d) class A \x7b\x7d\n"

/-- What stands in the template. -/
def pageText : Text := "\n<b class=\"x-[#fff]\">\n"

/-- The component, and the same template in files of its own. -/
def componentTree : FileTree :=
  .folder [("a.ts", .file (Text.Utf8.encode componentText)), ("a.html", .file (Text.Utf8.encode pageText)),
    ("a.css", .file (Text.Utf8.encode pageText))]

theorem holdsTemplate_componentText : HoldsTemplate componentText pageText 2 := by
  have hshape : ((SyntaxTree.ofText componentText ".ts").root.preorder.any fun node =>
      node.kind = .templateString && node.text = '`' :: (pageText ++ ['`']) && node.line = 2) = true := by
    rw [Feature.ofText_eq_treeOf]
    decide +kernel
  obtain ⟨template, hmem, hshape⟩ := List.any_eq_true.1 hshape
  simp only [Bool.and_eq_true, decide_eq_true_eq] at hshape
  exact ⟨template, hmem, hshape.1.1, hshape.1.2, hshape.2⟩

/-- The colour that is on the second line of the page is on the third one of the component. -/
theorem inlining_hides_nothing_componentTree : ∃ found,
    RawColors.sightings componentTree ⟨.root, ["a.ts"]⟩ = .ok found ∧
      RawColors.sightings componentTree ⟨.root, ["a.html"]⟩ = .ok [("#fff", 2)] ∧
      RawColors.sightings componentTree ⟨.root, ["a.css"]⟩ = .ok [("#fff", 2)] ∧ (("#fff" : Text), 3) ∈ found := by
  have hread : ∀ name text : Text, componentTree.read ⟨.root, [name]⟩ = .ok (Text.Utf8.encode text) →
      '\r' ∉ text → componentTree.readText ⟨.root, [name]⟩ = .ok text := by
    intro name text hbytes hnormal
    rw [FileTree.readText_of_read hbytes rfl, Text.normalizeNewlines_eq_self hnormal]
  have hpage := hread "a.html" pageText rfl (by decide)
  have hsheet := hread "a.css" pageText rfl (by decide)
  obtain ⟨found, hfound, hfromPage, hfromSheet⟩ :=
    inlining_hides_nothing (hread "a.ts" componentText rfl (by decide)) (by decide)
      holdsTemplate_componentText
  have hwhole : ¬∃ lead color, IsWhole pageText lead color := by
    rw [← isWhole_iff]
    decide
  obtain ⟨told, htold, hmoved⟩ := hfromPage componentTree ⟨.root, ["a.html"]⟩ hpage (by decide) (by decide)
  obtain ⟨toldAsSheet, htoldAsSheet, -⟩ := hfromSheet componentTree ⟨.root, ["a.css"]⟩ hsheet (by decide) hwhole
  have hpageTold : RawColors.sightings componentTree ⟨.root, ["a.html"]⟩ = .ok [("#fff", 2)] := by
    rw [RawColors.sightings, hpage]
    decide +kernel
  have hsheetTold : RawColors.sightings componentTree ⟨.root, ["a.css"]⟩ = .ok [("#fff", 2)] := by
    rw [RawColors.sightings, hsheet]
    decide +kernel
  obtain rfl := Except.ok.inj (htold.symm.trans hpageTold)
  exact ⟨found, hfound, hpageTold, hsheetTold, hmoved _ (List.mem_singleton_self _)⟩

end Color

end VerticalSlice
