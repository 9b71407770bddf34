import VerticalSlice.Proofs.Color.Colorless
import VerticalSlice.Proofs.Color.Inlining
import VerticalSlice.Proofs.Syntax.Templates

/-!
# The lines of colours in source code

Colours of source code stand in its literals, and so the line of one is that of the literal and the lines in front
of it there, one of them counted twice. Each literal of a program stands with its quotes in the text
(`Syntax.exists_quotes_of_literal?`), and where it is looked through as HTML or as a style sheet, what is found
stands on its line in the contents. Only of a literal that is one whole colour the line is that of the literal:
the line breaks in front of the colour are left out (`literal_colors_stand`), so a colour that begins on a
later line than its literal is told of the wrong one (`whole_color_told_above`).
-/

namespace VerticalSlice.Color

open Syntax

variable {text front contents before color : Text} {quote : Char} {line : Nat}

/-! ## Words -/

/-- What is spelled like a name has no colours: each of them has a mark in it that no name has. -/
theorem inLiteral_eq_nil_of_endsNames (h : ∀ c, EndsNames c → c ∉ contents) (line : Nat) :
    inLiteral contents line = [] := by
  have hhash : '#' ∉ contents := h '#' ⟨by decide, by decide⟩
  have hopen : '(' ∉ contents := h '(' ⟨by decide, by decide⟩
  have hslash : '/' ∉ contents := h '/' ⟨by decide, by decide⟩
  refine inLiteral_eq_nil (fun tail htail => ?_) (fun hcomment => ?_) line
  · rw [mayBegin, Bool.or_eq_false_iff]
    constructor
    · unfold opensHex
      split
      · exact absurd (htail.mem (List.mem_cons_self ..)) hhash
      · rfl
    · rw [callsFunction, List.any_eq_false]
      intro name _ hcalls
      rw [Bool.and_eq_true, decide_eq_true_eq] at hcalls
      exact hopen (htail.mem (List.mem_of_mem_drop (List.mem_of_mem_head? hcalls.2)))
  · exact hslash (hcomment.mem (List.mem_cons_self ..))

/-! ## Literals -/

theorem lineBreaks_of_mem_quotes (h : quote ∈ quotes) : Text.lineBreaks [quote] = 0 := by
  rcases mem_quotes_iff.1 h with rfl | rfl | rfl <;> rfl

/-- A quoted literal or a template of the source text stands behind `front`: its quote, these contents, and its quote
again. -/
def HoldsLiteral (text front : Text) (quote : Char) (contents : Text) : Prop :=
  ∃ node ∈ (SyntaxTree.ofText text ".ts").root.preorder,
    node.literal? = some contents ∧ node.QuotedIn text front contents quote

/-- The colour stands in the contents of a literal behind `before`: as one whole colour, in HTML, or in a style sheet.
So many of the line breaks before it are not counted. -/
inductive StandsInLiteral (contents before color : Text) : Nat → Prop
  | whole (h : IsWhole contents before color) : StandsInLiteral contents before color (Text.lineBreaks before)
  | markup (hwhole : ¬∃ lead color, IsWhole contents lead color) (htag : '<' ∈ contents)
    (h : Stands contents before color ".html") : StandsInLiteral contents before color 0
  | sheet (hwhole : ¬∃ lead color, IsWhole contents lead color) (h : StandsIn contents before color) :
    StandsInLiteral contents before color 0

/-- Each colour of a literal stands in its contents, and its line is counted from that of the literal. -/
theorem exists_of_mem_inLiteral {start : Nat} (h : (color, line) ∈ inLiteral contents start) :
    ∃ before missed, StandsInLiteral contents before color missed ∧
      line + missed = start + Text.lineBreaks before := by
  rw [inLiteral] at h
  split at h
  · next hwhole =>
    obtain ⟨before, found, hfound⟩ := isWhole_iff.1 hwhole
    rw [List.mem_singleton, hfound.trim_eq] at h
    obtain ⟨rfl, rfl⟩ := Prod.mk.inj h
    exact ⟨before, _, .whole hfound, rfl⟩
  · next hwhole =>
    rw [isWhole_iff] at hwhole
    rcases List.mem_append.1 h with h | h
    · split at h
      · next htag =>
        obtain ⟨⟨found, inside⟩, hmem, heq⟩ := List.mem_map.1 h
        obtain ⟨rfl, rfl⟩ := Prod.mk.inj heq
        obtain ⟨before, hstands, rfl⟩ := stands_of_mem_inMarkup hmem
        exact ⟨before, 0, .markup hwhole (List.contains_iff_mem.1 htag) hstands, rfl⟩
      · cases h
    · obtain ⟨before, hstands, rfl⟩ := stands_of_mem_inStylesheet h
      exact ⟨before, 0, .sheet hwhole hstands, rfl⟩

/-! ## Programs -/

/-- A literal is told with the line of its quote. -/
theorem line_eq_of_quotedIn {node : Node} (hprogram : (SyntaxTree.ofText text ".ts").isProgram = true)
    (hnode : node ∈ (SyntaxTree.ofText text ".ts").root.preorder) (hcontents : node.literal? = some contents)
    (hquoted : node.QuotedIn text front contents quote) : node.line = Text.lineBreaks front + 1 := by
  obtain ⟨nodes, hnodes, htree⟩ := Feature.exists_nodes_of_isProgram hprogram
  rw [htree] at hnode
  obtain ⟨back, htext⟩ := hquoted.text_eq
  have hkind : node.kind ≠ .comment ∧ node.kind ≠ .program := by
    rcases Node.kind_of_literal? hcontents with hkind | hkind <;> rw [hkind] <;> decide
  rw [line_eq_of_mem_preorder hnodes hnode hkind.1 hkind.2, Text.lineAt_eq, hquoted.offset_eq, htext,
    List.take_left]

/-- A literal of the tree stands in the text, unless it is a word. -/
theorem holdsLiteral_of_mem_literals (hprogram : (SyntaxTree.ofText text ".ts").isProgram = true)
    (h : (contents, line) ∈ (SyntaxTree.ofText text ".ts").root.literals) :
    (∃ front quote, HoldsLiteral text front quote contents ∧ line = Text.lineBreaks front + 1) ∨
      ∀ c, EndsNames c → c ∉ contents := by
  rw [Node.literals, Node.walk_eq_preorder] at h
  obtain ⟨node, hnode, hliteral⟩ := List.mem_filterMap.1 h
  obtain ⟨inside, hcontents, heq⟩ := Option.map_eq_some_iff.1 hliteral
  obtain ⟨rfl, rfl⟩ := Prod.mk.inj heq
  obtain ⟨nodes, hnodes, htree⟩ := Feature.exists_nodes_of_isProgram hprogram
  have hplace := exists_quotes_of_literal? hnodes (by rw [htree] at hnode; exact hnode) hcontents
  refine hplace.imp ?_ And.right
  rintro ⟨front, quote, hquoted⟩
  exact ⟨front, quote, ⟨node, hnode, hcontents, hquoted⟩,
    line_eq_of_quotedIn hprogram hnode hcontents hquoted⟩

/-- A template of the source text stands in back quotes, and it is told with the line of the first of them. -/
theorem HoldsTemplate.exists_holdsLiteral (h : HoldsTemplate text contents line)
    (hprogram : (SyntaxTree.ofText text ".ts").isProgram = true) :
    ∃ front, HoldsLiteral text front '`' contents ∧ line = Text.lineBreaks front + 1 := by
  obtain ⟨node, hnode, hkind, htext, rfl⟩ := h
  have hcontents : node.literal? = some contents := literal?_of_template hkind htext
  obtain ⟨nodes, hnodes, htree⟩ := Feature.exists_nodes_of_isProgram hprogram
  rcases exists_quotes_of_literal? hnodes (by rw [htree] at hnode; exact hnode) hcontents with
    ⟨front, quote, hquoted⟩ | ⟨hstring, -⟩
  · obtain rfl : quote = '`' := (List.cons.inj (hquoted.spelled_eq.symm.trans htext)).1
    exact ⟨front, ⟨node, hnode, hcontents, hquoted⟩, line_eq_of_quotedIn hprogram hnode hcontents hquoted⟩
  · rw [hkind] at hstring
    cases hstring

/-- The literals of the text are among those of the tree. -/
theorem HoldsLiteral.mem_literals (h : HoldsLiteral text front quote contents)
    (hprogram : (SyntaxTree.ofText text ".ts").isProgram = true) :
    (contents, Text.lineBreaks front + 1) ∈ (SyntaxTree.ofText text ".ts").root.literals := by
  obtain ⟨node, hnode, hcontents, hquoted⟩ := h
  rw [Node.literals, Node.walk_eq_preorder, List.mem_filterMap]
  exact ⟨node, hnode, by rw [hcontents, ← line_eq_of_quotedIn hprogram hnode hcontents hquoted]; rfl⟩

/-- Each colour that is told of a program stands in a literal of it, behind `before` in its contents, and its line
is the one on which its first character stands: one more than the number of line breaks in front of it. What
is missed are the line breaks in front of a colour that is all of its literal, which is told with the line of
the literal. -/
theorem literal_colors_stand {tree : FileTree} {path : Path} {text : Text} (hread : tree.readText path = .ok text)
    (hextension : path.extension = ".ts") (hprogram : (SyntaxTree.ofText text ".ts").isProgram = true) :
    ∃ found, RawColors.sightings tree path = .ok found ∧
      (∀ sighting ∈ found, ∃ front quote contents before missed, HoldsLiteral text front quote contents ∧
        StandsInLiteral contents before sighting.1 missed ∧
        sighting.2 + missed = Text.lineBreaks (front ++ quote :: before) + 1) ∧
      ∀ front quote contents before color, HoldsLiteral text front quote contents →
        IsWhole contents before color → (color, Text.lineBreaks front + 1) ∈ found := by
  refine ⟨inFile path.extension text, by rw [RawColors.sightings, hread]; rfl, ?_, ?_⟩
  · rintro ⟨color, line⟩ h
    rw [hextension, inFile, distinct_eq, List.mem_eraseDups, if_pos rfl] at h
    obtain ⟨⟨contents, start⟩, hliteral, h⟩ := List.mem_flatMap.1 h
    dsimp only at h
    rcases holdsLiteral_of_mem_literals hprogram hliteral with ⟨front, quote, hholds, rfl⟩ | hword
    · obtain ⟨before, missed, hstands, hline⟩ := exists_of_mem_inLiteral h
      refine ⟨front, quote, contents, before, missed, hholds, hstands, hline.trans ?_⟩
      -- the line of the literal counts what is in front of its quote, and the quote breaks no line
      have hquote : Text.lineBreaks [quote] = 0 := by
        obtain ⟨node, -, -, hquoted⟩ := hholds
        exact lineBreaks_of_mem_quotes hquoted.quote_mem
      rw [← List.singleton_append, lineBreaks_append, lineBreaks_append, hquote]
      omega
    · -- only the word `string` is told as a literal without quotes, and no colour is in it
      rw [inLiteral_eq_nil_of_endsNames hword] at h
      cases h
  · intro front quote contents before color hholds hwhole
    rw [hextension, inFile, distinct_eq, List.mem_eraseDups, if_pos rfl]
    refine List.mem_flatMap.2 ⟨_, hholds.mem_literals hprogram, ?_⟩
    show (color, Text.lineBreaks front + 1) ∈ inLiteral contents (Text.lineBreaks front + 1)
    rw [inLiteral, if_pos (isWhole_iff.2 ⟨before, color, hwhole⟩), hwhole.trim_eq]
    exact List.mem_singleton_self _

/-! ## A program on several lines -/

/-- One colour on its own, one in HTML and one in a style sheet, each behind line breaks. -/
def stylesText : Text :=
  "const a = [`\n #0f0`,\n `\n<p style='color:\n #abc'>`, `\na \x7b color:\n #fed \x7d`];\n"

/-- The program in a file. -/
def stylesTree : FileTree := .folder [("a.ts", .file (Text.Utf8.encode stylesText))]

/-- The colour of the first literal is one line too high, the others are on their lines. -/
theorem literal_colors_stand_stylesTree :
    stylesTree.readText ⟨.root, ["a.ts"]⟩ = .ok stylesText ∧ Path.extension ⟨.root, ["a.ts"]⟩ = ".ts" ∧
      (SyntaxTree.ofText stylesText ".ts").isProgram = true ∧
      RawColors.sightings stylesTree ⟨.root, ["a.ts"]⟩ = .ok [("#0f0", 1), ("#abc", 5), ("#fed", 7)] ∧
      (∀ sighting ∈ ([("#0f0", 1), ("#abc", 5), ("#fed", 7)] : List Sighting),
        ∃ front quote contents before missed, HoldsLiteral stylesText front quote contents ∧
          StandsInLiteral contents before sighting.1 missed ∧
          sighting.2 + missed = Text.lineBreaks (front ++ quote :: before) + 1) := by
  have hread : stylesTree.readText ⟨.root, ["a.ts"]⟩ = .ok stylesText := by
    rw [FileTree.readText_of_read rfl rfl, Text.normalizeNewlines_eq_self (by decide)]
  have hshape : (Feature.treeOf stylesText).isProgram = true ∧
      distinct (inSource (Feature.treeOf stylesText).root) =
        ([("#0f0", 1), ("#abc", 5), ("#fed", 7)] : List Sighting) := by
    -- the characters are written out, since the kernel would decode them from the bytes of the string
    have hcharacters : stylesText = _ := String.toList_ofList
    rw [hcharacters]
    decide +kernel
  rw [← Feature.ofText_eq_treeOf] at hshape
  obtain ⟨hprogram, hcolors⟩ := hshape
  have htold : RawColors.sightings stylesTree ⟨.root, ["a.ts"]⟩ =
      .ok [("#0f0", 1), ("#abc", 5), ("#fed", 7)] := by
    rw [RawColors.sightings, hread]
    exact congrArg Except.ok hcolors
  obtain ⟨found, hfound, hstands, -⟩ := literal_colors_stand hread (by decide) hprogram
  obtain rfl := Except.ok.inj (hfound.symm.trans htold)
  exact ⟨hread, by decide, hprogram, htold, hstands⟩

/-- A template with a colour behind a line break. -/
def paddedText : Text := "const c = `\n#fff`;\n"

/-- The template in a file. -/
def paddedTree : FileTree := .folder [("a.ts", .file (Text.Utf8.encode paddedText))]

/-- The colour is told of the first line, and it stands on the second. -/
theorem whole_color_told_above : (SyntaxTree.ofText paddedText ".ts").isProgram = true ∧
    RawColors.sightings paddedTree ⟨.root, ["a.ts"]⟩ = .ok [("#fff", 1)] ∧
    ¬∃ before after, paddedText = before ++ ("#fff".toList ++ after) ∧ Text.lineBreaks before + 1 = 1 := by
  have hread : paddedTree.readText ⟨.root, ["a.ts"]⟩ = .ok paddedText := by
    rw [FileTree.readText_of_read rfl rfl, Text.normalizeNewlines_eq_self (by decide)]
  have hshape : (Feature.treeOf paddedText).isProgram = true ∧
      distinct (inSource (Feature.treeOf paddedText).root) = ([("#fff", 1)] : List Sighting) := by
    decide +kernel
  rw [← Feature.ofText_eq_treeOf] at hshape
  refine ⟨hshape.1, ?_, ?_⟩
  · rw [RawColors.sightings, hread]
    exact congrArg Except.ok hshape.2
  · rintro ⟨before, after, htext, hline⟩
    have hplace : ∀ offset < paddedText.length, Text.lineBreaks (paddedText.take offset) + 1 = 1 →
        (paddedText.drop offset).head? ≠ some '#' := by
      decide
    refine hplace before.length ?_ ?_ ?_
    · rw [htext, List.length_append]
      exact Nat.lt_add_of_pos_right (Nat.lt_of_lt_of_le (by decide) (List.length_append ▸ Nat.le_add_right ..))
    · rw [htext, List.take_left]
      exact hline
    · rw [htext, List.drop_left]
      rfl

end VerticalSlice.Color
