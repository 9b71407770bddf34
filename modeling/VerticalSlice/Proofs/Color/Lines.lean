import VerticalSlice.Proofs.Color.Parts
import VerticalSlice.Proofs.Color.Sheet

/-!
# The lines of colours

A colour is looked for in a text without comments, in a value that begins somewhere in this text, in a part
that begins somewhere in a file; its line is counted along the same way. What carries the count is that no step
loses a line break. A comment leaves its line breaks behind, and so each place in the text without comments
comes from a place in the style sheet with as many line breaks in front of it (`exists_outside`). The parts of
a text are counted from their first characters (`exists_of_mem_sightingsIn`). So each colour that is told stands
on its line, with its first character, in the file (`sightings_stand`).
-/

namespace VerticalSlice.Color

variable {text before after front tail color : Text} {line firstLine : Nat}

/-! ## Places outside comments -/

/-- Does a comment begin here, and end somewhere? -/
def OpensComment (text : Text) : Prop := ∃ body, text = '/' :: '*' :: body ∧ ['*', '/'] <:+: body

/-- The style sheet is read from left to right, comment by comment and character by character. The place
between the texts is reached: it is not inside a comment. -/
inductive Outside : Text → Text → Prop
  | here (after : Text) : Outside [] after
  | char {c : Char} {before after : Text} (hc : ¬OpensComment (c :: (before ++ after)))
    (h : Outside before after) : Outside (c :: before) after
  | comment {body before after : Text} (hbody : ¬['*', '/'] <:+: body ++ ['*']) (h : Outside before after) :
    Outside ('/' :: '*' :: (body ++ '*' :: '/' :: before)) after

theorem dropComments_eq (skip : Nat) : dropComments skip text = withoutComments (text.drop skip) := by
  induction text generalizing skip with
  | nil => rw [List.drop_nil, withoutComments, dropComments, dropComments]
  | cons c rest ih =>
    cases skip with
    | zero => rfl
    | succ skip =>
      rw [dropComments, ih]
      rfl

theorem withoutComments_cons {c : Char} {rest : Text} (h : ¬OpensComment (c :: rest)) :
    withoutComments (c :: rest) = c :: withoutComments rest := by
  rw [withoutComments]
  unfold dropComments
  dsimp only
  split
  · next body =>
    have hopen : Text.splitAtFirst ['*', '/'] body = none :=
      Text.splitAtFirst_eq_none_iff.2 fun hclose => h ⟨body, rfl, hclose⟩
    rw [hopen]
    rfl
  · rfl

/-- The comment ends where it is closed first. -/
theorem splitAtFirst_closing_iff {body rest : Text} : ¬['*', '/'] <:+: body ++ ['*'] ↔
    Text.splitAtFirst ['*', '/'] (body ++ '*' :: '/' :: rest) = some (body, '*' :: '/' :: rest) := by
  have hclosing : ['*', '/'] <+: '*' :: '/' :: rest := List.prefix_append ['*', '/'] rest
  rw [Text.splitAtFirst_eq_some_iff (List.cons_ne_nil _ _), eq_self, true_and, and_iff_right hclosing]
  constructor
  · rintro h front tail rfl hne hclose
    match tail with
    | [] => exact hne rfl
    | [d] => exact absurd (List.cons_prefix_cons.1 (List.cons_prefix_cons.1 hclose).2).1 (by decide)
    | d :: e :: tail =>
      obtain ⟨hd, hclose⟩ := List.cons_prefix_cons.1 hclose
      obtain ⟨he, -⟩ := List.cons_prefix_cons.1 hclose
      subst hd he
      exact h ⟨front, tail ++ ['*'], by simp⟩
  · rintro h ⟨front, back, heq⟩
    rcases List.eq_nil_or_concat back with rfl | ⟨back, last, rfl⟩
    · rw [List.append_nil] at heq
      have hends : (front ++ ['*']) ++ ['/'] = body ++ ['*'] := (List.append_assoc ..).trans heq
      exact absurd (List.append_inj_right' hends rfl) (by decide)
    · rw [List.concat_eq_append, ← List.append_assoc] at heq
      obtain ⟨rfl, -⟩ := List.append_inj' heq rfl
      exact h front ('*' :: '/' :: back) (List.append_assoc ..) (List.cons_ne_nil _ _)
        (List.prefix_append ['*', '/'] _)

/-- A comment leaves nothing but its line breaks. -/
theorem withoutComments_comment {body rest : Text} (h : ¬['*', '/'] <:+: body ++ ['*']) :
    withoutComments ('/' :: '*' :: (body ++ '*' :: '/' :: rest)) =
      List.replicate (Text.lineBreaks body) '\n' ++ withoutComments rest := by
  rw [withoutComments, dropComments, splitAtFirst_closing_iff.1 h]
  dsimp only
  have hrest : '*' :: (body ++ '*' :: '/' :: rest) = '*' :: (body ++ ['*', '/']) ++ rest := by simp
  rw [dropComments_eq, hrest, List.drop_left' (by simp)]

theorem OpensComment.exists_body (h : OpensComment text) : ∃ body rest,
    text = '/' :: '*' :: (body ++ '*' :: '/' :: rest) ∧ ¬['*', '/'] <:+: body ++ ['*'] := by
  obtain ⟨inner, rfl, hclose⟩ := h
  cases hsplit : Text.splitAtFirst ['*', '/'] inner with
  | none => exact absurd hclose (Text.splitAtFirst_eq_none_iff.1 hsplit)
  | some parts =>
    obtain ⟨body, after⟩ := parts
    obtain ⟨rfl, ⟨rest, rfl⟩, -⟩ := (Text.splitAtFirst_eq_some_iff (List.cons_ne_nil _ _)).1 hsplit
    exact ⟨body, rest, rfl, splitAtFirst_closing_iff.2 hsplit⟩

theorem lineBreaks_append (first second : Text) :
    Text.lineBreaks (first ++ second) = Text.lineBreaks first + Text.lineBreaks second := List.count_append ..

/-- Each character of the text without comments, but for the line breaks that comments leave, is a character of
the style sheet outside its comments, and there are as many line breaks in front of both. -/
theorem exists_outside (h : withoutComments text = front ++ tail) (hne : tail ≠ [])
    (hhead : tail.head? ≠ some '\n') : ∃ before after, text = before ++ after ∧ Outside before after ∧
      withoutComments after = tail ∧ after.head? = tail.head? ∧
      Text.lineBreaks before = Text.lineBreaks front := by
  -- a comment is one step, and so the induction is on the length
  induction hlength : text.length using Nat.strongRecOn generalizing text front with
  | _ length ih =>
    subst hlength
    by_cases hopen : OpensComment text
    · obtain ⟨body, rest, rfl, hbody⟩ := hopen.exists_body
      rw [withoutComments_comment hbody] at h
      obtain ⟨inner, rfl, hrest⟩ : ∃ inner, front = List.replicate (Text.lineBreaks body) '\n' ++ inner ∧
          withoutComments rest = inner ++ tail := by
        rcases List.append_eq_append_iff.1 h with h | ⟨breaks, hbreaks, htail⟩
        · exact h
        · cases breaks with
          | nil =>
            rw [List.append_nil] at hbreaks
            exact ⟨[], by rw [hbreaks, List.append_nil], htail.symm⟩
          | cons c breaks =>
            have hc := List.eq_of_mem_replicate (hbreaks ▸ List.mem_append_right front (List.mem_cons_self ..))
            rw [htail, hc] at hhead
            exact absurd rfl hhead
      have hshorter : rest.length < ('/' :: '*' :: (body ++ '*' :: '/' :: rest)).length := by
        simp only [List.length_cons, List.length_append]
        omega
      obtain ⟨before, after, rfl, houtside, hafter, hfirst, hbreaks⟩ := ih _ hshorter hrest rfl
      refine ⟨_, after, by simp, .comment hbody houtside, hafter, hfirst, ?_⟩
      have hcomment : '/' :: '*' :: (body ++ '*' :: '/' :: before) = ['/', '*'] ++ body ++ ['*', '/'] ++ before := by
        simp
      have hends : Text.lineBreaks ['/', '*'] = 0 ∧ Text.lineBreaks ['*', '/'] = 0 := by decide
      have hleft : Text.lineBreaks (List.replicate (Text.lineBreaks body) '\n') = Text.lineBreaks body :=
        List.count_replicate_self
      simp only [hcomment, lineBreaks_append, hends, hbreaks, hleft, Nat.zero_add, Nat.add_zero]
    · cases text with
      | nil => exact absurd (List.append_eq_nil_iff.1 h.symm).2 hne
      | cons c rest =>
        rw [withoutComments_cons hopen] at h
        cases front with
        | nil =>
          rw [List.nil_append] at h
          exact ⟨[], c :: rest, rfl, .here _, (withoutComments_cons hopen).trans h, by rw [← h]; rfl, rfl⟩
        | cons d front =>
          obtain ⟨rfl, hrest⟩ := List.cons.inj h
          obtain ⟨before, after, rfl, houtside, hafter, hfirst, hbreaks⟩ :=
            ih _ (Nat.lt_succ_self _) hrest rfl
          refine ⟨c :: before, after, rfl, .char hopen houtside, hafter, hfirst, ?_⟩
          rw [← List.singleton_append, lineBreaks_append, hbreaks, ← lineBreaks_append, List.singleton_append]

/-! ## Colours in parts of a text -/

/-- The text is a colour. -/
def IsColor (color : Text) : Prop := IsColorAt color 0 color

theorem IsColorAt.isColor {offset : Nat} (h : IsColorAt text offset color) : IsColor color := by
  cases h with
  | hex _ _ hdigits hcount _ _ _ =>
    exact @IsColorAt.hex _ 0 [] _ [] (List.append_nil _).symm rfl hdigits hcount nofun nofun (by decide)
  | function _ _ hword hname harguments _ =>
    exact @IsColorAt.function _ 0 [] _ _ _ [] (List.append_nil _).symm rfl hword hname harguments nofun

theorem IsColorAt.exists_append {offset : Nat} (h : IsColorAt text offset color) :
    ∃ before after, text = before ++ (color ++ after) ∧ before.length = offset := by
  cases h with
  | hex htext hoffset => exact ⟨_, _, by rw [htext], hoffset⟩
  | function htext hoffset => exact ⟨_, _, by rw [htext], hoffset⟩

/-- A colour has a first character, which is no line break. -/
theorem IsColor.head_ne (h : IsColor color) : ∃ c rest, color = c :: rest ∧ c ≠ '\n' := by
  cases h with
  | hex => exact ⟨_, _, rfl, by decide⟩
  | function _ _ hword hname =>
    rw [← mem_functionNames_iff] at hword
    have hletters := forall_of_spells (isLower_of_mem_functionNames hword) hname
    cases hname with
    | nil => exact absurd hword (by decide)
    | @cons _ c _ _ _ _ =>
      refine ⟨c, _, rfl, ?_⟩
      rintro rfl
      exact absurd (hletters _ (List.mem_cons_self ..)).1 (by decide)

/-- A colour in a part of a text is in the text, on a line that is counted from the first of the text. -/
theorem exists_of_mem_sightingsIn {part : Text} {offset : Nat} (htext : text = before ++ (part ++ after))
    (hoffset : before.length = offset) (hbefore : EndsClear before) (hafter : EndsDigits after)
    (h : (color, line) ∈ sightingsIn text firstLine offset part) :
    ∃ front tail, text = front ++ (color ++ tail) ∧ IsColorAt text front.length color ∧
      line = firstLine + Text.lineBreaks front := by
  obtain ⟨⟨inside, found⟩, hfound, heq⟩ := List.mem_map.1 h
  obtain ⟨rfl, rfl⟩ := Prod.mk.inj heq
  have hcolor := ((locate_exact.2 _ _).1 hfound).of_part hbefore hafter
  rw [← htext] at hcolor
  obtain ⟨front, tail, rfl, hfront⟩ := hcolor.exists_append
  refine ⟨front, tail, rfl, hfront ▸ hcolor, ?_⟩
  rw [← hoffset, ← hfront, Text.lineAt_eq, List.take_left, Nat.add_sub_assoc (Nat.le_add_left _ _),
    Nat.add_sub_cancel]

/-- The colours in brackets. -/
theorem exists_of_mem_inBrackets (h : (color, line) ∈ inBrackets text firstLine) :
    ∃ front tail, text = front ++ (color ++ tail) ∧ IsColorAt text front.length color ∧
      line = firstLine + Text.lineBreaks front := by
  obtain ⟨⟨offset, value⟩, hvalue, h⟩ := List.mem_flatMap.1 h
  obtain ⟨front, tail, _, rfl, hoffset, hpattern⟩ := Text.exists_of_mem_occurrences hvalue
  obtain ⟨rest, rfl⟩ := exists_of_bracketPattern hpattern
  have htext : front ++ '-' :: '[' :: (value ++ ']' :: rest) = (front ++ ['-', '[']) ++ (value ++ ']' :: rest) := by
    simp
  have hstart : (front ++ ['-', '[']).length = offset + 2 := by rw [List.length_append, hoffset]; rfl
  exact exists_of_mem_sightingsIn htext hstart endsClear_bracket endsDigits_bracket h

/-- The colours in the values of declarations. -/
theorem exists_of_mem_inDeclarations (h : (color, line) ∈ inDeclarations text firstLine) :
    ∃ front tail, text = front ++ (color ++ tail) ∧ IsColorAt text front.length color ∧
      line = firstLine + Text.lineBreaks front := by
  obtain ⟨⟨offset, piece⟩, hpiece, h⟩ := List.mem_flatMap.1 h
  obtain ⟨front, rest, rfl, rfl, hrest⟩ := exists_of_mem_pieces hpiece
  dsimp only at h
  split at h
  · next inside value hdeclaration =>
    obtain ⟨head, rfl, rfl, hne, hclear⟩ := exists_of_declaration? hdeclaration
    have htext : front ++ (head ++ value ++ rest) = (front ++ head) ++ (value ++ rest) := by simp
    exact exists_of_mem_sightingsIn htext List.length_append ((endsClear_append hne).2 hclear)
      (endsDigits_of_endsPiece hrest) h
  · cases h

/-- The colours of a style sheet are colours of its text without comments. -/
theorem exists_of_mem_inStylesheet (h : (color, line) ∈ inStylesheet text firstLine) :
    ∃ front tail, withoutComments text = front ++ (color ++ tail) ∧
      IsColorAt (withoutComments text) front.length color ∧ line = firstLine + Text.lineBreaks front := by
  rcases List.mem_append.1 h with h | h
  · exact exists_of_mem_inDeclarations h
  · exact exists_of_mem_inBrackets h

/-- The colour stands in the style sheet behind `before`, outside the comments; there may be comments in it. -/
inductive StandsIn (text before color : Text) : Prop
  | intro {after : Text} (hcolor : IsColor color) (htext : text = before ++ after) (houtside : Outside before after)
    (hhead : after.head? = color.head?) (hspelled : color <+: withoutComments after)

theorem stands_of_mem_inStylesheet (h : (color, line) ∈ inStylesheet text firstLine) :
    ∃ before, StandsIn text before color ∧ line = firstLine + Text.lineBreaks before := by
  obtain ⟨front, tail, hfront, hcolor, rfl⟩ := exists_of_mem_inStylesheet h
  obtain ⟨c, rest, rfl, hc⟩ := hcolor.isColor.head_ne
  obtain ⟨before, after, rfl, houtside, hafter, hhead, hbreaks⟩ :=
    exists_outside hfront (List.cons_ne_nil _ _) (fun h => hc (Option.some.inj h))
  exact ⟨before, .intro hcolor.isColor rfl houtside hhead (hafter ▸ List.prefix_append _ _), by rw [hbreaks]⟩

/-! ## Files -/

/-- The colour stands in a text of a file behind `before`. In HTML it stands in the value of an attribute or in a
style element, and any other file is a style sheet. -/
inductive Stands (text before color : Text) : Text → Prop
  | sheet {extension : Text} (hextension : extension ≠ ".html") (h : StandsIn text before color) :
    Stands text before color extension
  | style {front inner value back : Text} (htext : text = front ++ (value ++ back)) (hbefore : before = front ++ inner)
    (hpart : IsAttribute "style" front value back ∨ IsElement front value back) (h : StandsIn value inner color) :
    Stands text before color ".html"
  | classes {front inner after back : Text} (htext : text = front ++ (inner ++ (color ++ after) ++ back))
    (hbefore : before = front ++ inner) (hpart : IsAttribute "class" front (inner ++ (color ++ after)) back)
    (hcolor : IsColor color) : Stands text before color ".html"

theorem stands_of_mem_inMarkup (h : (color, line) ∈ inMarkup text) :
    ∃ before, Stands text before color ".html" ∧ line = Text.lineBreaks before + 1 := by
  -- the first line of a part is counted from the beginning of the text
  have hline : ∀ {front inner rest : Text}, text = front ++ rest →
      Text.lineAt text front.length + Text.lineBreaks inner = Text.lineBreaks (front ++ inner) + 1 := by
    rintro front inner rest rfl
    rw [Text.lineAt_eq, List.take_left, lineBreaks_append]
    omega
  have hstyle : ∀ {front value back : Text}, text = front ++ (value ++ back) →
      IsAttribute "style" front value back ∨ IsElement front value back →
      (color, line) ∈ inStylesheet value (Text.lineAt text front.length) →
      ∃ before, Stands text before color ".html" ∧ line = Text.lineBreaks before + 1 := by
    intro front value back htext hpart h
    obtain ⟨inner, hstands, rfl⟩ := stands_of_mem_inStylesheet h
    exact ⟨front ++ inner, .style htext rfl hpart hstands, hline htext⟩
  rcases List.mem_append.1 h with h | h
  · rcases List.mem_append.1 h with h | h
    · obtain ⟨⟨offset, value⟩, hvalue, h⟩ := List.mem_flatMap.1 h
      obtain ⟨front, back, htext, rfl, hpart⟩ := isAttribute_of_mem_parts hvalue
      exact hstyle htext (.inl hpart) h
    · obtain ⟨⟨offset, contents⟩, hcontents, h⟩ := List.mem_flatMap.1 h
      obtain ⟨front, back, htext, rfl, hpart⟩ := isElement_of_mem_parts hcontents
      exact hstyle htext (.inr hpart) h
  · obtain ⟨⟨offset, value⟩, hvalue, h⟩ := List.mem_flatMap.1 h
    obtain ⟨front, back, htext, rfl, hpart⟩ := isAttribute_of_mem_parts hvalue
    obtain ⟨inner, after, rfl, hcolor, rfl⟩ := exists_of_mem_inBrackets h
    exact ⟨front ++ inner, .classes htext rfl hpart hcolor.isColor, hline htext⟩

/-- Each colour that is told of a style sheet or of HTML stands in the file, and its line is the one on which its
first character stands: one more than the number of line breaks in front of it. -/
theorem sightings_stand {tree : FileTree} {path : Path} {text : Text} (hread : tree.readText path = .ok text)
    (hextension : path.extension ≠ ".ts") : ∃ found, RawColors.sightings tree path = .ok found ∧
      ∀ sighting ∈ found, ∃ before, Stands text before sighting.1 path.extension ∧
        sighting.2 = Text.lineBreaks before + 1 := by
  refine ⟨inFile path.extension text, by rw [RawColors.sightings, hread]; rfl, ?_⟩
  rintro ⟨color, line⟩ h
  rw [inFile, distinct_eq, List.mem_eraseDups, if_neg hextension] at h
  split at h
  · next hmarkup =>
    rw [hmarkup]
    exact stands_of_mem_inMarkup h
  · next hsheet =>
    obtain ⟨before, hstands, rfl⟩ := stands_of_mem_inStylesheet h
    exact ⟨before, .sheet hsheet hstands, Nat.add_comm ..⟩

/-- HTML with colours in each of its parts, behind line breaks inside and outside of comments. -/
def partsText : Text :=
  "<p style='color:\n #abc'>\n<style>/* #fed\n */ a \x7b color: rgb(0,/*\n*/0,0) \x7d</style>\n<b class=\"x\n m-[#FFF]\">"

/-- The text in a file. -/
def partsTree : FileTree := .folder [("a.html", .file (Text.Utf8.encode partsText))]

/-- The colour in which a comment stands is on the line of its first character. -/
theorem sightings_stand_partsText : partsTree.readText ⟨.root, ["a.html"]⟩ = .ok partsText ∧
    Path.extension ⟨.root, ["a.html"]⟩ ≠ ".ts" ∧
    RawColors.sightings partsTree ⟨.root, ["a.html"]⟩ = .ok [("#abc", 2), ("rgb(0,\n0,0)", 4), ("#FFF", 7)] ∧
    ∀ sighting ∈ ([("#abc", 2), ("rgb(0,\n0,0)", 4), ("#FFF", 7)] : List Sighting),
      ∃ before, Stands partsText before sighting.1 ".html" ∧ sighting.2 = Text.lineBreaks before + 1 := by
  have hread : partsTree.readText ⟨.root, ["a.html"]⟩ = .ok partsText := by
    rw [FileTree.readText_of_read rfl rfl, Text.normalizeNewlines_eq_self (by decide)]
  have htold : RawColors.sightings partsTree ⟨.root, ["a.html"]⟩ =
      .ok [("#abc", 2), ("rgb(0,\n0,0)", 4), ("#FFF", 7)] := by
    rw [RawColors.sightings, hread]
    decide
  obtain ⟨found, hfound, hstands⟩ := sightings_stand hread (by decide)
  obtain rfl := Except.ok.inj (hfound.symm.trans htold)
  exact ⟨hread, by decide, htold, hstands⟩

end VerticalSlice.Color
