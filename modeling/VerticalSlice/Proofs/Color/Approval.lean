import VerticalSlice.Proofs.Color.Lines
import VerticalSlice.Proofs.Tree.Rewriting

/-!
# Approved by its own text

A token file approves the colours of its text as it is. A style sheet of the application is looked through without
its comments. Where both are the same text, what can tell them apart is a comment: taking it out joins what stands
on its two sides. In front of a colour and behind it this does no harm, since a comment ends and begins with a
slash, next to which a colour may stand (`isColorAt_of_withoutComments`). So the token file has each colour of the
style sheet, but for those that have a comment between their own characters (`sheet_approved`); these the search in
the whole text cannot find, and such a colour is told although the token file spells it out
(`broken_color_told`).
-/

namespace VerticalSlice

namespace Color

variable {text before after front tail color : Text}

/-! ## Colours next to comments -/

/-- The text in front of a place outside the comments keeps its ending up to the last slash. -/
theorem Outside.exists_front (h : Outside before after) : ∃ front,
    withoutComments (before ++ after) = front ++ withoutComments after ∧ front.length ≤ before.length ∧
      ∀ ending, '/' ∉ ending → ending <:+ before → ending <:+ front := by
  induction h with
  | here after => exact ⟨[], rfl, Nat.le_refl _, fun _ _ h => h⟩
  | @char c before after hc _ ih =>
    obtain ⟨front, hbare, hlength, hends⟩ := ih
    refine ⟨c :: front, by rw [List.cons_append, withoutComments_cons hc, hbare, List.cons_append],
      Nat.succ_le_succ hlength, fun ending hslash hending => ?_⟩
    rcases List.suffix_cons_iff.1 hending with rfl | hending
    · -- without a slash nothing has been taken out
      have hwhole := hends before (fun h => hslash (List.mem_cons_of_mem _ h)) (List.suffix_refl _)
      exact hwhole.eq_of_length_le hlength ▸ List.suffix_refl _
    · exact (hends ending hslash hending).trans (List.suffix_cons _ _)
  | @comment body before after hbody _ ih =>
    obtain ⟨front, hbare, hlength, hends⟩ := ih
    have hcomment : '/' :: '*' :: (body ++ '*' :: '/' :: before) = ('/' :: '*' :: (body ++ ['*', '/'])) ++ before := by
      simp
    refine ⟨List.replicate (Text.lineBreaks body) '\n' ++ front, ?_, ?_, fun ending hslash hending => ?_⟩
    · have hsplit : '/' :: '*' :: (body ++ '*' :: '/' :: before) ++ after =
          '/' :: '*' :: (body ++ '*' :: '/' :: (before ++ after)) := by simp
      rw [hsplit, withoutComments_comment hbody, hbare, List.append_assoc]
    · have hbreaks : Text.lineBreaks body ≤ body.length := List.count_le_length
      simp only [List.length_append, List.length_replicate, List.length_cons]
      omega
    · rw [hcomment] at hending
      rcases List.suffix_or_suffix_of_suffix hending (List.suffix_append _ before) with hinner | ⟨outer, rfl⟩
      · exact (hends ending hslash hinner).trans (List.suffix_append _ _)
      · obtain rfl | hne := eq_or_ne outer []
        · exact (hends _ hslash (List.suffix_refl _)).trans (List.suffix_append _ _)
        · -- a longer ending has the slash that closes the comment
          obtain ⟨rest, hrest⟩ := hending
          rw [← List.append_assoc] at hrest
          have houter : outer <:+ '/' :: '*' :: (body ++ ['*', '/']) := ⟨rest, List.append_cancel_right hrest⟩
          have hlast : ('/' :: '*' :: (body ++ ['*', '/'])).getLast? = some '/' := by
            rw [← List.singleton_append, ← List.cons_append, ← List.append_assoc, List.getLast?_append]
            rfl
          exact absurd (List.mem_append_left _ (Text.mem_of_suffix houter hne hlast)) hslash

/-- Without a slash no comment opens. -/
theorem withoutComments_append (h : '/' ∉ front) :
    withoutComments (front ++ tail) = front ++ withoutComments tail := by
  induction front with
  | nil => rfl
  | cons c front ih =>
    rw [List.mem_cons, not_or] at h
    have hopen : ¬OpensComment (c :: (front ++ tail)) := by
      rintro ⟨body, heq, -⟩
      exact h.1 (List.cons.inj heq).1.symm
    rw [List.cons_append, withoutComments_cons hopen, ih h.2, List.cons_append]

/-- The end of a number is seen behind it whether or not a comment follows. -/
theorem endsDigits_of_withoutComments (h : EndsDigits (withoutComments tail)) : EndsDigits tail := by
  intro c hc
  obtain ⟨rest, rfl⟩ := List.head?_eq_some_iff.1 hc
  by_cases hslash : c = '/'
  · subst hslash
    decide
  · have hbare := @withoutComments_append [c] rest (by simpa using Ne.symm hslash)
    rw [List.singleton_append] at hbare
    rw [hbare] at h
    exact h c rfl

/-- A colour of the text without comments is a colour of the text if it stands there as it is spelled. -/
theorem isColorAt_of_withoutComments (houtside : Outside before after)
    (hbare : withoutComments (before ++ after) = front ++ (color ++ tail))
    (hafter : withoutComments after = color ++ tail)
    (hcolor : IsColorAt (withoutComments (before ++ after)) front.length color) (hspelled : color <+: after) :
    IsColorAt (before ++ after) before.length color := by
  obtain ⟨inner, hinner, -, hends⟩ := houtside.exists_front
  obtain rfl : inner = front := by
    rw [hafter, hbare] at hinner
    exact (List.append_cancel_right hinner).symm
  have hlast : ∀ {p : Char → Prop}, p '/' → (∀ c ∈ inner.getLast?, p c) → ∀ c ∈ before.getLast?, p c := by
    intro p hp h c hc
    by_cases hslash : c = '/'
    · exact hslash ▸ hp
    · obtain ⟨rest, rfl⟩ := List.getLast?_eq_some_iff.1 hc
      obtain ⟨rest, rfl⟩ := hends [c] (by simpa using Ne.symm hslash) (List.suffix_append _ _)
      exact h c List.getLast?_concat
  obtain ⟨rest, rfl⟩ := hspelled
  rw [hbare] at hcolor
  cases hcolor with
  | @hex before' digits after' htext hoffset hdigits hcount hend hbefore hpart =>
    obtain ⟨rfl, htail⟩ := List.append_inj htext hoffset.symm
    obtain rfl := List.append_cancel_left htail
    refine .hex rfl rfl hdigits hcount ?_ (hlast (by decide) hbefore) ?_
    · have hslash : '/' ∉ '#' :: digits := by
        rw [List.mem_cons, not_or]
        exact ⟨by decide, fun hmem => absurd (hdigits _ hmem) (by decide)⟩
      rw [withoutComments_append hslash] at hafter
      exact endsDigits_of_withoutComments (List.append_cancel_left hafter ▸ hend)
    · intro opening hopening hsuffix
      have hopenings : ∀ opening ∈ (["url(", "url(\"", "url('"] : List Text), '/' ∉ opening := by decide
      exact hpart opening hopening (hends opening (hopenings opening hopening) hsuffix)
  | @function before' word name arguments after' htext hoffset hword hname harguments hbefore =>
    obtain ⟨rfl, -⟩ := List.append_inj htext hoffset.symm
    exact .function rfl rfl hword hname harguments (hlast (by decide) hbefore)

/-- The colour stands in the style sheet behind `before` and is not spelled out there: a comment stands between
its characters. -/
structure IsBroken (text before color : Text) : Prop where
  stands : StandsIn text before color
  broken : ¬before ++ color <+: text

/-- A colour of a style sheet is found in the whole text, or it is broken by a comment. -/
theorem mem_find_or_isBroken {line firstLine : Nat} (h : (color, line) ∈ inStylesheet text firstLine) :
    color ∈ find text ∨ ∃ before, IsBroken text before color ∧ line = firstLine + Text.lineBreaks before := by
  obtain ⟨front, tail, hbare, hcolor, rfl⟩ := exists_of_mem_inStylesheet h
  obtain ⟨c, rest, rfl, hc⟩ := hcolor.isColor.head_ne
  obtain ⟨before, after, rfl, houtside, hafter, hhead, hbreaks⟩ :=
    exists_outside hbare (List.cons_ne_nil _ _) (fun h => hc (Option.some.inj h))
  by_cases hspelled : c :: rest <+: after
  · have hfound := isColorAt_of_withoutComments houtside hbare hafter hcolor hspelled
    exact .inl (List.mem_map.2 ⟨_, (locate_exact.2 _ _).2 hfound, rfl⟩)
  · refine .inr ⟨before, ⟨?_, fun h => hspelled ?_⟩, by rw [hbreaks]⟩
    · exact .intro hcolor.isColor rfl houtside hhead (hafter ▸ List.prefix_append _ _)
    · exact (List.prefix_append_right_inj before).1 h

end Color

namespace RawColors

open Color

/-- A style sheet with the text of a token file: each of its colours is approved by the token file, or a comment
stands between the characters of the colour. So the style sheet has no violation exactly if its broken colours are
approved in some other place. -/
theorem sheet_approved {context : Context} {tree : FileTree} {token text : Text} {path : Path}
    (htoken : token ∈ context.settings.tokenFiles)
    (hread : tree.readText (context.root.join (Path.ofText token)) = .ok text) (htext : tree.readText path = .ok text)
    (hextension : path.extension = ".css" ∨ path.extension = ".scss") :
    ∃ found, sightings tree path = .ok found ∧
      (∀ sighting ∈ found, normalize sighting.1 ∈ approvedIn tree (context.root.join (Path.ofText token)) ∨
        ∃ before, IsBroken text before sighting.1 ∧ sighting.2 = Text.lineBreaks before + 1) ∧
      (violationsIn context tree (approved context tree) path = [] ↔
        ∀ sighting ∈ found, (∃ before, IsBroken text before sighting.1 ∧ sighting.2 = Text.lineBreaks before + 1) →
          normalize sighting.1 ∈ approved context tree) := by
  have htold : sightings tree path = .ok (Color.inFile path.extension text) := by
    rw [sightings, htext]
    rfl
  have hown : approvedIn tree (context.root.join (Path.ofText token)) = (find text).map normalize := by
    rw [approvedIn, if_pos (FileTree.hasFile_of_readText hread), hread]
  have heach : ∀ sighting ∈ Color.inFile path.extension text,
      normalize sighting.1 ∈ approvedIn tree (context.root.join (Path.ofText token)) ∨
        ∃ before, IsBroken text before sighting.1 ∧ sighting.2 = Text.lineBreaks before + 1 := by
    rintro ⟨color, line⟩ h
    have hneither : path.extension ≠ ".ts" ∧ path.extension ≠ ".html" := by
      rcases hextension with h | h <;> rw [h] <;> decide
    rw [Color.inFile, distinct_eq, List.mem_eraseDups, if_neg hneither.1, if_neg hneither.2] at h
    rw [hown]
    refine (mem_find_or_isBroken h).imp (List.mem_map_of_mem) ?_
    rintro ⟨before, hbroken, rfl⟩
    exact ⟨before, hbroken, Nat.add_comm ..⟩
  have happroved : approvedIn tree (context.root.join (Path.ofText token)) ⊆ approved context tree := by
    intro color hcolor
    rw [approved, List.mem_eraseDups, List.mem_flatMap]
    exact ⟨_, List.mem_map_of_mem htoken, hcolor⟩
  refine ⟨_, htold, heach, ?_⟩
  rw [violationsIn, htold]
  dsimp only
  rw [List.map_eq_nil_iff, unapproved, List.filter_eq_nil_iff]
  simp only [Bool.not_eq_true', Bool.not_eq_false, List.contains_iff_mem]
  exact ⟨fun h sighting hsighting _ => h sighting hsighting, fun h sighting hsighting =>
    (heach sighting hsighting).elim (fun hin => happroved hin) (h sighting hsighting)⟩

/-! ## A style sheet that is a token file, too -/

/-- A workspace with this text in a token file and in a style sheet of its application. -/
def twinTree (text : Text) : FileTree :=
  .folder [("src", .folder [
    ("styles.css", .file (Text.Utf8.encode text)),
    ("app", .folder [("a.css", .file (Text.Utf8.encode text))])])]

def twinContext : Context :=
  ⟨⟨.root, []⟩, ⟨[]⟩, [], [], ⟨.root, ["src"]⟩, { tokenFiles := ["src/styles.css"] }⟩

theorem readText_twinTree {text : Text} (h : '\r' ∉ text) :
    (twinTree text).readText (twinContext.root.join (Path.ofText "src/styles.css")) = .ok text ∧
      (twinTree text).readText ⟨.root, ["src", "app", "a.css"]⟩ = .ok text := by
  refine ⟨?_, ?_⟩ <;> rw [FileTree.readText_of_read rfl rfl, Text.normalizeNewlines_eq_self h]

/-- A text with comments on both sides of a colour. -/
def besideText : Text := "a \x7b color: /* white */#FFF/* or\n */; \x7d"

/-- A text with a comment in a colour. -/
def brokenText : Text := "a \x7b color: rgb(1,/* green */2,3); \x7d"

/-- A colour between two comments is approved by its own text. -/
theorem sheet_approved_besideText :
    ("src/styles.css" : Text) ∈ twinContext.settings.tokenFiles ∧
    (twinTree besideText).readText (twinContext.root.join (Path.ofText "src/styles.css")) = .ok besideText ∧
    (twinTree besideText).readText ⟨.root, ["src", "app", "a.css"]⟩ = .ok besideText ∧
    Path.extension ⟨.root, ["src", "app", "a.css"]⟩ = ".css" ∧
    sightings (twinTree besideText) ⟨.root, ["src", "app", "a.css"]⟩ = .ok [("#FFF", 1)] ∧
    violationsIn twinContext (twinTree besideText) (approved twinContext (twinTree besideText))
      ⟨.root, ["src", "app", "a.css"]⟩ = [] := by
  have htoken : ("src/styles.css" : Text) ∈ twinContext.settings.tokenFiles := by decide
  obtain ⟨hread, htext⟩ := @readText_twinTree besideText (by decide +kernel)
  have hextension : Path.extension ⟨.root, ["src", "app", "a.css"]⟩ = ".css" := by decide
  have htold : sightings (twinTree besideText) ⟨.root, ["src", "app", "a.css"]⟩ = .ok [("#FFF", 1)] := by
    rw [sightings, htext]
    decide +kernel
  obtain ⟨found, hfound, -, hnone⟩ := sheet_approved htoken hread htext (.inl hextension)
  obtain rfl := Except.ok.inj (hfound.symm.trans htold)
  refine ⟨htoken, hread, htext, hextension, htold, hnone.2 fun sighting hsighting _ => ?_⟩
  obtain rfl := List.mem_singleton.1 hsighting
  rw [approved, List.mem_eraseDups, List.mem_flatMap]
  refine ⟨_, List.mem_map_of_mem htoken, ?_⟩
  rw [approvedIn, if_pos (FileTree.hasFile_of_readText hread), hread]
  decide +kernel

/-- A colour with a comment in it is told of a style sheet although a token file has the same text. -/
theorem broken_color_told :
    ("src/styles.css" : Text) ∈ twinContext.settings.tokenFiles ∧
    (twinTree brokenText).readText (twinContext.root.join (Path.ofText "src/styles.css")) = .ok brokenText ∧
    (twinTree brokenText).readText ⟨.root, ["src", "app", "a.css"]⟩ = .ok brokenText ∧
    violationsIn twinContext (twinTree brokenText) (approved twinContext (twinTree brokenText))
      ⟨.root, ["src", "app", "a.css"]⟩ = [inFile "src/app/a.css" ("rgb(1,2,3)", 1)] := by
  obtain ⟨hread, htext⟩ := @readText_twinTree brokenText (by decide +kernel)
  have htold : sightings (twinTree brokenText) ⟨.root, ["src", "app", "a.css"]⟩ = .ok [("rgb(1,2,3)", 1)] := by
    rw [sightings, htext]
    decide +kernel
  have hunapproved : unapproved (approved twinContext (twinTree brokenText)) [("rgb(1,2,3)", 1)] =
      ([("rgb(1,2,3)", 1)] : List Sighting) := by decide +kernel
  refine ⟨by decide, hread, htext, ?_⟩
  rw [violationsIn, htold]
  dsimp only
  rw [hunapproved]
  decide

end RawColors

end VerticalSlice
