import VerticalSlice.Proofs.Color.Lines

/-!
# Underscores in the brackets of utility classes

In the brackets of a utility class an underscore stands for a space. The search for colours takes the value in the
brackets as it is written, and an underscore is a character of words. So the value has the colours that it has with
spaces in place of its underscores, each at the same place, but for those that an underscore touches: in front of a
colour, or behind the digits of one (`isColorAt_spaced_iff`). In a file the value in the brackets is looked through
wherever it stands in a class attribute (`exists_bracket`), and what is found in it is told
(`bracket_colors_told`).
-/

namespace VerticalSlice.Color

variable {text before after color value front back name lead : Text} {offset length : Nat}

/-! ## Values with spaces -/

/-- The character that an underscore stands for, and any other character itself. -/
def spacedChar (c : Char) : Char := if c = '_' then ' ' else c

/-- The value with spaces in place of its underscores. -/
def spaced (value : Text) : Text := value.map spacedChar

/-- An underscore stands in front of the colour, or behind the digits of a colour. -/
def TouchesUnderscore (value : Text) (offset : Nat) (color : Text) : Prop :=
  (value.take offset).getLast? = some '_' ∨
    color.head? = some '#' ∧ (value.drop (offset + color.length)).head? = some '_'

instance (value : Text) (offset : Nat) (color : Text) : Decidable (TouchesUnderscore value offset color) :=
  inferInstanceAs (Decidable ((value.take offset).getLast? = some '_' ∨
    color.head? = some '#' ∧ (value.drop (offset + color.length)).head? = some '_'))

theorem spacedChar_of_ne {c : Char} (h : c ≠ '_') : spacedChar c = c := if_neg h

/-- A text without spaces and underscores is spelled in one way. -/
theorem eq_of_spaced_eq {part : Text} (h : spaced value = part) (hspace : ' ' ∉ part) : value = part := by
  subst h
  have hnone : ∀ c ∈ value, spacedChar c = c := by
    intro c hc
    refine spacedChar_of_ne ?_
    rintro rfl
    exact hspace (List.mem_map_of_mem hc)
  rw [spaced, List.map_congr_left hnone, List.map_id']

theorem spaced_eq_self (h : '_' ∉ value) : spaced value = value := by
  have hnone : ∀ c ∈ value, spacedChar c = c := fun c hc => spacedChar_of_ne fun heq => h (heq ▸ hc)
  rw [spaced, List.map_congr_left hnone, List.map_id']

/-- What is said of the character behind a place is said of the character that it stands for. -/
theorem forall_head?_spaced {p : Char → Prop} (hp : ¬p '_') :
    (∀ c ∈ after.head?, p c) ↔ (∀ c ∈ (spaced after).head?, p c) ∧ after.head? ≠ some '_' := by
  cases after with
  | nil => simp [spaced]
  | cons c rest =>
    rw [spaced, List.map_cons, List.head?_cons, List.head?_cons]
    simp only [Option.mem_some_iff, forall_eq', ne_eq, Option.some.injEq]
    by_cases hc : c = '_'
    · subst hc
      simp [hp]
    · rw [spacedChar_of_ne hc, and_iff_left hc]

theorem forall_getLast?_spaced {p : Char → Prop} (hp : ¬p '_') :
    (∀ c ∈ before.getLast?, p c) ↔ (∀ c ∈ (spaced before).getLast?, p c) ∧ before.getLast? ≠ some '_' := by
  have hreverse : (spaced before).reverse = spaced before.reverse := List.map_reverse.symm
  rw [← List.head?_reverse, ← List.head?_reverse, hreverse]
  exact forall_head?_spaced hp

/-- A colour of the value with spaces is a colour of the value as it is written unless an underscore touches it. -/
theorem isColorAt_spaced_iff (h : IsColorAt (spaced (before ++ (color ++ after))) before.length (spaced color)) :
    IsColorAt (before ++ (color ++ after)) before.length color ↔
      before.getLast? ≠ some '_' ∧ (color.head? = some '#' → after.head? ≠ some '_') := by
  have hsplit : spaced (before ++ (color ++ after)) = spaced before ++ (spaced color ++ spaced after) := by
    rw [spaced, List.map_append, List.map_append]
    rfl
  have hlength : (spaced before).length = before.length := List.length_map _
  constructor
  · intro hcolor
    cases hcolor with
    | @hex before' digits after' htext hoffset _ _ hafter hbefore _ =>
      obtain ⟨rfl, hrest⟩ := List.append_inj htext hoffset.symm
      obtain rfl := List.append_cancel_left hrest
      exact ⟨((forall_getLast?_spaced (by decide)).1 hbefore).2,
        fun _ => ((forall_head?_spaced (by decide)).1 hafter).2⟩
    | @function before' word name arguments after' htext hoffset hword hname _ hbefore =>
      obtain ⟨rfl, -⟩ := List.append_inj htext hoffset.symm
      rw [← mem_functionNames_iff] at hword
      refine ⟨((forall_getLast?_spaced (by decide)).1 hbefore).2, fun hhash => ?_⟩
      obtain ⟨rest, hrest⟩ := List.head?_eq_some_iff.1 hhash
      exact absurd hrest (ne_hash_of_spells hword hname)
  · rintro ⟨hfront, hbehind⟩
    rw [hsplit] at h
    generalize hcolor : spaced color = found at h
    cases h with
    | @hex before' digits after' htext hoffset hdigits hcount hafter hbefore hpart =>
      obtain ⟨hbefore', hrest⟩ := List.append_inj htext (hlength.trans hoffset.symm)
      obtain hafter' := List.append_cancel_left hrest
      subst hbefore' hafter'
      have hspace : ' ' ∉ '#' :: digits := by
        rw [List.mem_cons, not_or]
        exact ⟨by decide, fun hmem => absurd (hdigits _ hmem) (by decide)⟩
      obtain rfl := eq_of_spaced_eq hcolor hspace
      refine .hex rfl rfl hdigits hcount ((forall_head?_spaced (by decide)).2 ⟨hafter, hbehind rfl⟩)
        ((forall_getLast?_spaced (by decide)).2 ⟨hbefore, hfront⟩) fun opening hopening hsuffix => ?_
      have hplain : ∀ opening ∈ (["url(", "url(\"", "url('"] : List Text), '_' ∉ opening := by decide
      have hopened := hsuffix.map spacedChar
      rw [← spaced, spaced_eq_self (hplain opening hopening)] at hopened
      exact hpart opening hopening hopened
    | @function before' word name arguments after' htext hoffset hword hname harguments hbefore =>
      obtain ⟨hbefore', hrest⟩ := List.append_inj htext (hlength.trans hoffset.symm)
      subst hbefore'
      obtain ⟨name', rest, rfl, hname', hcall⟩ := List.map_eq_append_iff.1 hcolor
      obtain ⟨opening, rest, rfl, hopening, hrest⟩ := List.map_eq_cons_iff.1 hcall
      obtain ⟨arguments', closing, rfl, harguments', hclosing⟩ := List.map_eq_append_iff.1 hrest
      have hletters := forall_of_spells (isLower_of_mem_functionNames (mem_functionNames_iff.2 hword)) hname
      obtain rfl := eq_of_spaced_eq hname' fun hmem => absurd (hletters _ hmem).1 (by decide)
      obtain rfl := List.singleton_inj.1
        (@eq_of_spaced_eq [opening] ['('] (congrArg (fun c => [c]) hopening) (by decide))
      obtain rfl := eq_of_spaced_eq hclosing (by decide)
      refine .function rfl rfl hword hname (fun c hc => ?_) ((forall_getLast?_spaced (by decide)).2 ⟨hbefore, hfront⟩)
      by_cases hunderscore : c = '_'
      · subst hunderscore
        decide
      · rw [← spacedChar_of_ne hunderscore]
        exact harguments _ (harguments' ▸ List.mem_map_of_mem hc)

/-- The colours of a value with spaces that are colours of the value as it is written. -/
theorem mem_locate_spaced_iff {found : Text} (h : (offset, found) ∈ locate (spaced value)) :
    spaced ((value.drop offset).take found.length) = found ∧
      ((offset, (value.drop offset).take found.length) ∈ locate value ↔
        ¬TouchesUnderscore value offset ((value.drop offset).take found.length)) := by
  have hfound := (locate_exact.2 _ _).1 h
  obtain ⟨before', after', htext, hoffset⟩ := hfound.exists_append
  obtain ⟨before, rest, rfl, hbefore, hrest⟩ := List.map_eq_append_iff.1 htext
  obtain ⟨color, after, rfl, hcolor, hafter⟩ := List.map_eq_append_iff.1 hrest
  have hstart : before.length = offset := by rw [← hoffset, ← hbefore, List.length_map]
  have hend : color.length = found.length := by rw [← hcolor, List.length_map]
  subst hstart
  rw [List.drop_left, ← hend, List.take_left]
  have hspaced : spaced color = found := hcolor
  refine ⟨hspaced, ?_⟩
  rw [← hspaced] at hfound
  rw [locate_exact.2, isColorAt_spaced_iff hfound, TouchesUnderscore, List.take_left, not_or, ← List.drop_drop,
    List.drop_left, List.drop_left, not_and, ne_eq]

/-! ## Brackets -/

/-- A value in brackets is looked through, maybe as the end of a longer value. -/
theorem exists_bracket (hne : value ≠ []) (hvalue : ∀ c ∈ value, c ≠ ']' ∧ Text.isBlank c = false) :
    ∃ offset lead, (lead = [] ∨ EndsClear lead) ∧ (offset, lead ++ value) ∈
      Text.occurrences bracketPattern (front ++ '-' :: '[' :: (value ++ ']' :: back)) := by
  have hfound : bracketPattern front.reverse ('-' :: '[' :: (value ++ ']' :: back)) = some (value, value.length + 3) :=
    bracketPattern_eq_some_iff.2 ⟨hne, hvalue, rfl, back, rfl⟩
  obtain ⟨front', tail, found, length, htext, hmem, hpattern, rfl | ⟨hbefore, hover⟩⟩ :=
    Text.exists_occurrence_over hfound (List.cons_ne_nil _ _)
  · obtain rfl := List.append_cancel_left htext
    rw [hfound] at hpattern
    obtain ⟨rfl, -⟩ := Prod.mk.inj (Option.some.inj hpattern)
    exact ⟨_, [], .inl rfl, hmem⟩
  · obtain ⟨-, hinside, rfl, rest, rfl⟩ := bracketPattern_eq_some_iff.1 hpattern
    -- the other bracket opens in front of this one and closes with it
    obtain ⟨more, rfl, hmore⟩ | ⟨more, rfl, -⟩ := List.append_eq_append_iff.1 htext.symm
    swap
    · rw [List.length_append] at hbefore
      omega
    match more with
    | [] => simp at hbefore
    | [_] => exact absurd (List.cons.inj (List.cons.inj hmore).2).1 (by decide)
    | _ :: _ :: inner =>
      replace hmore := (List.cons.inj (List.cons.inj hmore).2).2
      obtain ⟨rest', rfl, hrest⟩ | ⟨rest', rfl, hrest⟩ := List.append_eq_append_iff.1 hmore
      · match rest' with
        | [] => exact absurd (List.cons.inj hrest).1 (by decide)
        | _ :: _ =>
          simp only [List.length_append, List.length_cons] at hover
          omega
      · match rest' with
        | [] => exact absurd (List.cons.inj hrest).1 (by decide)
        | [_] => exact absurd (List.cons.inj (List.cons.inj hrest).2).1 (by decide)
        | _ :: _ :: last =>
          obtain ⟨hdash, hbehind⟩ := List.cons.inj hrest
          obtain ⟨hopening, hlast⟩ := List.cons.inj hbehind
          subst hdash hopening
          obtain ⟨rfl, -⟩ := Text.split_unique (fun h => (hvalue _ h).1 rfl)
            (fun h => (hinside _ (by simp [h])).1 rfl) hlast
          have hjoin : inner ++ ['-', '['] ++ value = inner ++ '-' :: '[' :: value := List.append_assoc ..
          refine ⟨front'.length, inner ++ ['-', '['], .inr endsClear_bracket, ?_⟩
          rwa [hjoin]

/-! ## Class attributes -/

/-- The text has an attribute of this name and value, and no attribute of the name that begins before reaches into
it. -/
def HoldsAttribute (name text value : Text) : Prop :=
  ∃ lead spelled rest, text = lead ++ (spelled ++ rest) ∧ EndsWord lead ∧ SpellsAttribute name value spelled ∧
    ∀ lead' value' spelled' rest', text = lead' ++ (spelled' ++ rest') → EndsWord lead' →
      SpellsAttribute name value' spelled' → lead'.length < lead.length →
      lead'.length + spelled'.length ≤ lead.length

/-- The search for attributes comes to it. -/
theorem HoldsAttribute.exists_mem_parts (h : HoldsAttribute name text value) :
    ∃ offset, (offset, value) ∈ parts (attributePattern name) text := by
  obtain ⟨lead, spelled, rest, rfl, hlead, hspelled, hfirst⟩ := h
  have hlength : ∃ inside, inside + value.length + 1 = spelled.length := by
    obtain ⟨_, _, _⟩ := hspelled
    simp only [List.length_append, List.length_cons, List.length_nil]
    exact ⟨_, rfl⟩
  obtain ⟨inside, hinside⟩ := hlength
  have hfound : attributePattern name lead.reverse (spelled ++ rest) = some ((inside, value), spelled.length) :=
    attributePattern_eq_some_iff.2 ⟨hlead, spelled, rest, rfl, hspelled, hinside, rfl⟩
  have hne : spelled ++ rest ≠ [] := List.append_ne_nil_of_left_ne_nil (List.ne_nil_of_length_pos (by omega)) _
  obtain ⟨lead', tail, ⟨inside', value'⟩, length, htext, hmem, hpattern, rfl | ⟨hbefore, hover⟩⟩ :=
    Text.exists_occurrence_over hfound hne
  · obtain rfl := List.append_cancel_left htext
    rw [hfound] at hpattern
    obtain ⟨hvalue, -⟩ := Prod.mk.inj (Option.some.inj hpattern)
    rw [← hvalue] at hmem
    exact ⟨_, List.mem_map.2 ⟨_, hmem, rfl⟩⟩
  · obtain ⟨hlead', spelled', rest', rfl, hspelled', -, rfl⟩ := attributePattern_eq_some_iff.1 hpattern
    have hends := hfirst lead' value' spelled' rest' htext hlead' hspelled' hbefore
    omega

/-- An attribute whose name stands nowhere before is one that the search comes to. -/
theorem HoldsAttribute.of_first {spelled rest : Text} (hlead : EndsWord lead)
    (hspelled : SpellsAttribute name value spelled)
    (hfirst : ∀ place < lead.length, ¬name <+: (lead ++ (spelled ++ rest)).drop place) :
    HoldsAttribute name (lead ++ (spelled ++ rest)) value := by
  refine ⟨lead, spelled, rest, rfl, hlead, hspelled, fun lead' value' _ rest' htext _ ⟨_, _, _⟩ hbefore => ?_⟩
  refine absurd ?_ (hfirst _ hbefore)
  rw [htext, List.drop_left]
  simp only [List.append_assoc]
  exact List.prefix_append _ _

/-- A colour of a value in brackets in a class attribute is told. -/
theorem exists_mem_inFile (hholds : HoldsAttribute "class" text (front ++ '-' :: '[' :: (value ++ ']' :: back)))
    (hvalue : ∀ c ∈ value, c ≠ ']' ∧ Text.isBlank c = false) (hcolor : IsColorAt value offset color) :
    ∃ line, (color, line) ∈ inFile ".html" text := by
  obtain ⟨place, hpart⟩ := hholds.exists_mem_parts
  have hne : value ≠ [] := by
    rintro rfl
    obtain ⟨before, after, heq, -⟩ := hcolor.exists_append
    obtain ⟨c, rest, rfl, -⟩ := hcolor.isColor.head_ne
    cases before <;> cases heq
  obtain ⟨inside, lead, hlead, hbracket⟩ := @exists_bracket _ front back hne hvalue
  have hin : ∃ offset, (offset, color) ∈ locate (lead ++ value) := by
    rcases hlead with rfl | hclear
    · exact ⟨offset, (locate_exact.2 _ _).2 hcolor⟩
    · have hlonger := @IsColorAt.of_part _ _ lead [] _ hcolor hclear nofun
      rw [List.append_nil] at hlonger
      exact ⟨_, (locate_exact.2 _ _).2 hlonger⟩
  obtain ⟨offset, hfound⟩ := hin
  refine ⟨Text.lineAt text place +
    Text.lineAt (front ++ '-' :: '[' :: (value ++ ']' :: back)) (inside + 2 + offset) - 1, ?_⟩
  rw [inFile, distinct_eq, List.mem_eraseDups, if_neg (by decide), if_pos rfl, inMarkup]
  refine List.mem_append_right _ (List.mem_flatMap.2 ⟨_, hpart, List.mem_flatMap.2 ⟨_, hbracket, ?_⟩⟩)
  exact List.mem_map.2 ⟨_, hfound, rfl⟩

/-- A class attribute has a value in brackets. Each colour of this value with spaces in place of its underscores is
a colour of the value as it is written, at the same place, and told as it is written, exactly if no underscore
touches it. -/
theorem bracket_colors_told (hholds : HoldsAttribute "class" text (front ++ '-' :: '[' :: (value ++ ']' :: back)))
    (hvalue : ∀ c ∈ value, c ≠ ']' ∧ Text.isBlank c = false) {found : Text}
    (hfound : (offset, found) ∈ locate (spaced value)) : ∃ written,
      written = (value.drop offset).take found.length ∧ spaced written = found ∧
      ((offset, written) ∈ locate value ↔ ¬TouchesUnderscore value offset written) ∧
      (¬TouchesUnderscore value offset written → ∃ line, (written, line) ∈ inFile ".html" text) := by
  obtain ⟨hspaced, hiff⟩ := mem_locate_spaced_iff hfound
  refine ⟨_, rfl, hspaced, hiff, fun htouches => ?_⟩
  exact exists_mem_inFile hholds hvalue ((locate_exact.2 _ _).1 (hiff.2 htouches))

/-- A paragraph with these classes. -/
def paragraph (classes : Text) : Text :=
  ("<p " : Text) ++ (("class" : Text) ++ ['='] ++ ['"'] ++ classes ++ ['"'] ++ (">x</p>" : Text))

theorem holdsAttribute_paragraph {classes : Text} (h : '"' ∉ classes) :
    HoldsAttribute "class" (paragraph classes) classes := by
  have hlead : EndsWord "<p " := fun c hc => Option.some.inj hc ▸ rfl
  refine .of_first hlead (.intro ⟨[], [], rfl, nofun, nofun⟩ (.inl rfl) h) fun place hplace hname => ?_
  match place with
  | 0 => exact absurd (List.cons_prefix_cons.1 hname).1 (by decide)
  | 1 => exact absurd (List.cons_prefix_cons.1 hname).1 (by decide)
  | 2 => exact absurd (List.cons_prefix_cons.1 hname).1 (by decide)
  | _ + 3 => exact absurd hplace (Nat.not_lt.2 (Nat.le_add_left 3 _))

/-- A colour with underscores between its arguments is told, in a class behind another. -/
theorem bracket_colors_told_arguments :
    HoldsAttribute "class" (paragraph "p-4 bg-[rgb(0_0_0)]") "p-4 bg-[rgb(0_0_0)]" ∧
      ((0 : Nat), ("rgb(0 0 0)" : Text)) ∈ locate (spaced "rgb(0_0_0)") ∧
      ∃ line, (("rgb(0_0_0)" : Text), line) ∈ inFile ".html" (paragraph "p-4 bg-[rgb(0_0_0)]") := by
  have hholds := @holdsAttribute_paragraph "p-4 bg-[rgb(0_0_0)]" (by decide)
  have hfound : ((0 : Nat), ("rgb(0 0 0)" : Text)) ∈ locate (spaced "rgb(0_0_0)") := by decide +kernel
  refine ⟨hholds, hfound, ?_⟩
  obtain ⟨_, rfl, -, -, htold⟩ := @bracket_colors_told _ "rgb(0_0_0)" "p-4 bg" [] _ hholds
    (Text.forall_mem (by decide)) _ hfound
  exact htold (by decide)

/-- The colour behind an underscore in the value of a shadow is passed over. -/
theorem underscored_color_passed :
    paragraph "shadow-[0_0_4px_#fff]" = "<p class=\"shadow-[0_0_4px_#fff]\">x</p>" ∧
      find (spaced "0_0_4px_#fff") = ["#fff"] ∧ inFile ".html" (paragraph "shadow-[0_0_4px_#fff]") = [] := by
  refine ⟨by decide, by decide +kernel, by decide +kernel⟩

end VerticalSlice.Color
