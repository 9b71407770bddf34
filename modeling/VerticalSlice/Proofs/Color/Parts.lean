import VerticalSlice.Color.Markup
import VerticalSlice.Proofs.Color.Finding
import VerticalSlice.Proofs.Text.Blanks
import VerticalSlice.Proofs.Text.Occurrence

/-!
# Where values and parts stand

Colours are looked for in parts of a text: in the values of declarations and in the brackets of a style sheet, in
attributes and in style elements of HTML. Each pattern for such a part is said here by the text that it stands
for, with what is in front of the part and behind it.
-/

namespace VerticalSlice.Color

variable {text before value piece : Text} {offset inside length : Nat}

/-! ## Colours of a part -/

/-- No word, no character reference and no `url(…)` goes on behind this text. -/
def EndsClear (front : Text) : Prop :=
  ∀ c ∈ front.getLast?, Text.isWordChar c = false ∧ c ∉ ['&', '(', '"', '\'']

theorem endsClear_append {front : Text} (hne : before ≠ []) : EndsClear (front ++ before) ↔ EndsClear before := by
  rw [EndsClear, EndsClear, List.getLast?_append, List.getLast?_eq_some_getLast hne, Option.some_or]

theorem EndsDigits.append {after back : Text} (hafter : EndsDigits after) (hback : EndsDigits back) :
    EndsDigits (after ++ back) := by
  cases after with
  | nil => exact hback
  | cons c rest => exact hafter

/-- A colour of a part is a colour of the text, if no word goes on where the part begins or ends. -/
theorem IsColorAt.of_part {part front back color : Text} (h : IsColorAt part offset color)
    (hfront : EndsClear front) (hback : EndsDigits back) :
    IsColorAt (front ++ (part ++ back)) (front.length + offset) color := by
  have hlast : ∀ {before : Text} {p : Char → Prop}, (∀ c ∈ before.getLast?, p c) →
      (∀ c ∈ front.getLast?, p c) → ∀ c ∈ (front ++ before).getLast?, p c := by
    intro before p hbefore hfront c hc
    rw [List.getLast?_append, Option.mem_def, Option.or_eq_some_iff] at hc
    exact hc.elim (hbefore c) fun hc => hfront c hc.2
  cases h with
  | @hex before digits after htext hoffset hdigits hcount hafter hbefore hpart =>
    refine @IsColorAt.hex _ _ (front ++ before) digits (after ++ back) (by simp [htext])
      (by rw [List.length_append, hoffset]) hdigits hcount (hafter.append hback)
      (hlast hbefore fun c hc => ⟨fun h => (hfront c hc).2 (h ▸ List.mem_cons_self ..), (hfront c hc).1⟩) ?_
    intro opening hopening hsuffix
    -- an opening that reaches over the front would have its last character
    rcases List.suffix_or_suffix_of_suffix hsuffix (List.suffix_append front before) with hinner | ⟨outer, rfl⟩
    · exact hpart opening hopening hinner
    · obtain rfl | hne := eq_or_ne outer []
      · exact hpart _ hopening (List.suffix_refl _)
      · have hshorter : outer <:+ front := by
          obtain ⟨rest, hrest⟩ := hsuffix
          rw [← List.append_assoc] at hrest
          exact ⟨rest, List.append_cancel_right hrest⟩
        obtain ⟨c, hc⟩ := Option.isSome_iff_exists.1 (List.getLast?_isSome.2 (hshorter.ne_nil hne))
        have hmem := List.mem_append_left before (Text.mem_of_suffix hshorter hne hc)
        have hopenings : ∀ opening ∈ (["url(", "url(\"", "url('"] : List Text), ∀ c ∈ opening,
            Text.isWordChar c = true ∨ c ∈ ['&', '(', '"', '\''] := by
          rw [List.forall_mem_cons, List.forall_mem_cons, List.forall_mem_singleton]
          exact ⟨Text.forall_mem (by decide), Text.forall_mem (by decide), Text.forall_mem (by decide)⟩
        rcases hopenings _ hopening c hmem with hword | hmark
        · rw [(hfront c hc).1] at hword
          cases hword
        · exact (hfront c hc).2 hmark
  | @function before word name arguments after htext hoffset hword hname harguments hbefore =>
    exact @IsColorAt.function _ _ (front ++ before) word name arguments (after ++ back) (by simp [htext])
      (by rw [List.length_append, hoffset]) hword hname harguments
      (hlast hbefore fun c hc => (hfront c hc).1)

/-! ## Style sheets -/

/-- The pattern finds the values in brackets that begin at a place. -/
theorem bracketPattern_eq_some_iff : bracketPattern before text = some (value, length) ↔
    value ≠ [] ∧ (∀ c ∈ value, c ≠ ']' ∧ Text.isBlank c = false) ∧ length = value.length + 3 ∧
      ∃ rest, text = '-' :: '[' :: (value ++ ']' :: rest) := by
  constructor
  · intro h
    unfold bracketPattern at h
    split at h
    · next inner =>
      dsimp only at h
      split at h
      · cases h
      · next rest hrest hne =>
        obtain ⟨rfl, rfl⟩ := Prod.mk.inj (Option.some.inj h)
        refine ⟨hne, fun c hc => ?_, rfl, rest, ?_⟩
        · have hinside := List.all_eq_true.1 List.all_takeWhile c hc
          rwa [Bool.and_eq_true, decide_eq_true_eq, Bool.not_eq_true'] at hinside
        · rw [← hrest, List.prefix_iff_eq_append.1 (List.takeWhile_prefix _)]
      · cases h
    · cases h
  · rintro ⟨hne, hvalue, rfl, rest, rfl⟩
    have hinside : (value ++ ']' :: rest).takeWhile (fun c => decide (c ≠ ']') && !Text.isBlank c) = value := by
      rw [List.takeWhile_append_of_pos fun c hc => by simp [hvalue c hc]]
      exact List.append_nil _
    obtain ⟨c, value, rfl⟩ := List.exists_cons_of_ne_nil hne
    rw [bracketPattern, hinside, List.drop_left]
    rfl

theorem exists_of_bracketPattern (h : bracketPattern before text = some (value, length)) :
    ∃ rest, text = '-' :: '[' :: (value ++ ']' :: rest) :=
  (bracketPattern_eq_some_iff.1 h).2.2.2

theorem exists_of_piecePattern (h : piecePattern before text = some (some piece, length)) :
    ∃ rest, text = piece ++ rest ∧ ∀ c ∈ rest.head?, endsPiece c = true := by
  unfold piecePattern at h
  dsimp only at h
  split at h
  · cases h
  · simp at h
  · simp only [Option.some.injEq, Prod.mk.injEq] at h
    rw [← h.1]
    refine ⟨_, List.takeWhile_append_dropWhile.symm, fun c hc => ?_⟩
    have hstop := List.head?_dropWhile_not (fun c => !endsPiece c) text
    rw [hc] at hstop
    simpa using hstop

theorem exists_of_mem_pieces (h : (offset, piece) ∈ pieces text) :
    ∃ front rest, text = front ++ (piece ++ rest) ∧ front.length = offset ∧
      ∀ c ∈ rest.head?, endsPiece c = true := by
  obtain ⟨⟨place, found⟩, hfound, heq⟩ := List.mem_filterMap.1 h
  obtain ⟨piece, rfl, hpiece⟩ := Option.map_eq_some_iff.1 heq
  obtain ⟨rfl, rfl⟩ := Prod.mk.inj hpiece
  obtain ⟨front, tail, length, rfl, hoffset, hpattern⟩ := Text.exists_of_mem_occurrences hfound
  obtain ⟨rest, rfl, hrest⟩ := exists_of_piecePattern hpattern
  exact ⟨front, rest, rfl, hoffset, hrest⟩

theorem endsDigits_of_endsPiece {rest : Text} (h : ∀ c ∈ rest.head?, endsPiece c = true) : EndsDigits rest := by
  intro c hc
  have hends := h c hc
  simp only [endsPiece, Bool.or_eq_true, beq_iff_eq] at hends
  rcases hends with (rfl | rfl) | rfl <;> decide

theorem endsDigits_bracket {rest : Text} : EndsDigits (']' :: rest) := by
  intro c hc
  obtain rfl := Option.some.inj hc
  decide

theorem endsClear_bracket {front : Text} : EndsClear (front ++ ['-', '[']) := by
  intro c hc
  rw [List.getLast?_append] at hc
  obtain rfl := Option.some.inj hc
  decide

/-- A value begins behind a colon and blanks. -/
theorem endsClear_colon (front : Text) {blanks : Text} (h : Text.Blank blanks) :
    EndsClear (front ++ ':' :: blanks) := by
  rw [endsClear_append (List.cons_ne_nil _ _)]
  intro c hc
  have hmem := List.mem_of_mem_getLast? hc
  rcases List.mem_cons.1 hmem with rfl | hblank
  · decide
  · have hfacts := @Text.of_isBlank (fun c => !Text.isWordChar c && decide (c ∉ ['&', '(', '"', '\'']))
      (by decide +kernel) c (h c hblank)
    rwa [Bool.and_eq_true, Bool.not_eq_true', decide_eq_true_eq] at hfacts

theorem exists_of_valueBehindColon? (h : valueBehindColon? text = some (inside, value)) :
    ∃ front, text = front ++ value ∧ front.length = inside ∧ front ≠ [] ∧ EndsClear front := by
  unfold valueBehindColon? at h
  dsimp only at h
  split at h
  · next rest hrest =>
    obtain ⟨name, hname⟩ : (':' :: rest) <:+ text :=
      (hrest ▸ List.dropWhile_suffix _).trans (List.dropWhile_suffix _)
    have htext : text = name ++ ':' :: rest.takeWhile Text.isBlank ++ rest.dropWhile Text.isBlank := by
      rw [List.append_assoc, List.cons_append, List.takeWhile_append_dropWhile, hname]
    split at h
    · cases h
    · obtain ⟨rfl, rfl⟩ := Prod.mk.inj (Option.some.inj h)
      refine ⟨_, htext, ?_, List.append_ne_nil_of_right_ne_nil _ (List.cons_ne_nil _ _),
        endsClear_colon name (List.all_eq_true.1 List.all_takeWhile)⟩
      conv_rhs => rw [htext]
      rw [@List.length_append _ _ (rest.dropWhile Text.isBlank), Nat.add_sub_cancel]
  · cases h

theorem exists_of_declarationFrom {inName : Bool} (h : declarationFrom inName offset piece = some (inside, value)) :
    ∃ front, piece = front ++ value ∧ offset + front.length = inside ∧ front ≠ [] ∧ EndsClear front := by
  induction piece generalizing inName offset with
  | nil => cases h
  | cons c rest ih =>
    have hrest : ∀ {inName}, declarationFrom inName (offset + 1) rest = some (inside, value) →
        ∃ front, c :: rest = front ++ value ∧ offset + front.length = inside ∧ front ≠ [] ∧ EndsClear front := by
      intro inName h
      obtain ⟨front, rfl, hinside, hne, hclear⟩ := ih h
      exact ⟨c :: front, rfl, by rw [List.length_cons, ← hinside]; omega, List.cons_ne_nil _ _,
        (@endsClear_append _ [c] hne).2 hclear⟩
    rw [declarationFrom] at h
    split at h
    · split at h
      · next skipped found hvalue =>
        obtain ⟨rfl, rfl⟩ := Prod.mk.inj (Option.some.inj h)
        split at hvalue
        · cases hvalue
        · obtain ⟨front, htext, rfl, hne, hclear⟩ := exists_of_valueBehindColon? hvalue
          exact ⟨front, htext, rfl, hne, hclear⟩
      · exact hrest h
    · exact hrest h

theorem exists_of_declaration? (h : declaration? piece = some (inside, value)) :
    ∃ front, piece = front ++ value ∧ front.length = inside ∧ front ≠ [] ∧ EndsClear front := by
  obtain ⟨front, htext, hinside, hclear⟩ := exists_of_declarationFrom h
  exact ⟨front, htext, by rw [← hinside, Nat.zero_add], hclear⟩

/-! ## Markup -/

theorem exists_of_mem_parts {pattern : Text.Pattern (Nat × Text)} {part : Text}
    (h : (offset, part) ∈ parts pattern text) :
    ∃ front tail inside length, text = front ++ tail ∧ front.length + inside = offset ∧
      pattern front.reverse tail = some ((inside, part), length) := by
  obtain ⟨⟨place, inside, found⟩, hfound, heq⟩ := List.mem_map.1 h
  obtain ⟨rfl, rfl⟩ := Prod.mk.inj heq
  obtain ⟨front, tail, length, htext, rfl, hpattern⟩ := Text.exists_of_mem_occurrences hfound
  exact ⟨front, tail, inside, length, htext, rfl, hpattern⟩

/-- The text is an equals sign with blanks around it. -/
def IsEquals (gap : Text) : Prop := ∃ lead trail, gap = lead ++ '=' :: trail ∧
  (∀ c ∈ lead, Text.isBlank c = true) ∧ ∀ c ∈ trail, Text.isBlank c = true

theorem exists_of_equalsLength? (h : equalsLength? text = some length) :
    ∃ gap rest, text = gap ++ rest ∧ gap.length = length ∧ IsEquals gap := by
  unfold equalsLength? at h
  dsimp only at h
  split at h
  · next inner hinner =>
    have hlead : text = text.takeWhile Text.isBlank ++ '=' :: inner := by
      rw [← hinner, List.prefix_iff_eq_append.1 (List.takeWhile_prefix _)]
    refine ⟨text.takeWhile Text.isBlank ++ '=' :: inner.takeWhile Text.isBlank, inner.dropWhile Text.isBlank, ?_,
      ?_, _, _, rfl, List.all_eq_true.1 List.all_takeWhile, List.all_eq_true.1 List.all_takeWhile⟩
    · rw [List.append_assoc, List.cons_append, List.takeWhile_append_dropWhile, ← hlead]
    · rw [← Option.some.inj h, List.length_append, List.length_cons]
      omega
  · cases h

/-- An attribute of this name stands in front of the value, with the opening quote, and its closing quote behind
the value. -/
inductive IsAttribute (name : Text) : Text → Text → Text → Prop
  | intro {lead gap value rest : Text} {quote : Char} (hlead : ∀ c ∈ lead.getLast?, Text.isWordChar c = false)
    (hgap : IsEquals gap) (hquote : quote = '"' ∨ quote = '\'') (hvalue : quote ∉ value) :
    IsAttribute name (lead ++ (name ++ gap ++ [quote])) value (quote :: rest)

/-- The text is an attribute of this name with this value, up to the closing quote. -/
inductive SpellsAttribute (name value : Text) : Text → Prop
  | intro {gap : Text} {quote : Char} (hgap : IsEquals gap) (hquote : quote = '"' ∨ quote = '\'')
    (hvalue : quote ∉ value) : SpellsAttribute name value (name ++ gap ++ [quote] ++ value ++ [quote])

/-- No word goes on behind the text. -/
def EndsWord (front : Text) : Prop := ∀ c ∈ front.getLast?, Text.isWordChar c = false

theorem equalsLength?_eq {gap rest : Text} (hgap : IsEquals gap) (hrest : ∀ c ∈ rest.head?, Text.isBlank c = false) :
    equalsLength? (gap ++ rest) = some gap.length := by
  obtain ⟨lead, trail, rfl, hlead, htrail⟩ := hgap
  have hbefore : (lead ++ '=' :: (trail ++ rest)).takeWhile Text.isBlank = lead := by
    rw [List.takeWhile_append_of_pos hlead]
    exact List.append_nil _
  have hafter : (trail ++ rest).takeWhile Text.isBlank = trail := by
    rw [List.takeWhile_append_of_pos htrail]
    cases rest with
    | nil => exact List.append_nil _
    | cons c rest =>
      rw [List.takeWhile_cons, hrest c rfl]
      exact List.append_nil _
  rw [equalsLength?, List.append_assoc, List.cons_append, hbefore, List.drop_left]
  show some (lead.length + 1 + ((trail ++ rest).takeWhile Text.isBlank).length) = _
  rw [hafter, List.length_append, List.length_cons, Nat.add_assoc, Nat.add_comm 1]

/-- The pattern finds the attributes that begin at a place. -/
theorem attributePattern_eq_some_iff {name : Text} :
    attributePattern name before.reverse text = some ((inside, value), length) ↔
    EndsWord before ∧ ∃ spelled rest, text = spelled ++ rest ∧ SpellsAttribute name value spelled ∧
      inside + value.length + 1 = spelled.length ∧ length = spelled.length := by
  constructor
  · intro h
    unfold attributePattern at h
    split at h
    · cases h
    · next hname =>
      simp only [Bool.or_eq_true, not_or, Bool.not_eq_true', Bool.not_eq_false, Bool.not_eq_true] at hname
      obtain ⟨inner, rfl⟩ := List.isPrefixOf_iff_prefix.1 hname.2
      rw [List.drop_left] at h
      split at h
      · cases h
      · next gap hgap =>
        obtain ⟨gap, inner, rfl, rfl, hequals⟩ := exists_of_equalsLength? hgap
        rw [← List.append_assoc, ← List.length_append, List.drop_left] at h
        split at h
        · next quote rest =>
          split at h
          · next hquote =>
            obtain ⟨⟨found, after⟩, hsplit, heq⟩ := Option.map_eq_some_iff.1 h
            obtain ⟨hparts, rfl⟩ := Prod.mk.inj heq
            obtain ⟨rfl, rfl⟩ := Prod.mk.inj hparts
            obtain ⟨hrest, ⟨back, rfl⟩, hfirst⟩ :=
              (Text.splitAtFirst_eq_some_iff (List.cons_ne_nil quote [])).1 hsplit
            rw [Bool.or_eq_true, decide_eq_true_eq, decide_eq_true_eq] at hquote
            refine ⟨?_, name ++ gap ++ [quote] ++ found ++ [quote], back, ?_, .intro hequals hquote ?_, ?_, ?_⟩
            · have hbefore := startsWithAny_eq_false_iff.1 hname.1
              rwa [List.head?_reverse] at hbefore
            · simp [hrest]
            · intro hmem
              obtain ⟨first, second, rfl⟩ := List.append_of_mem hmem
              exact hfirst first _ rfl (List.cons_ne_nil _ _) (List.prefix_append [quote] _)
            · simp only [List.length_append, List.length_cons, List.length_nil]
            · simp only [List.length_append, List.length_cons, List.length_nil]
              omega
          · cases h
        · cases h
  · rintro ⟨hbefore, _, rest, rfl, ⟨hgap, hquote, hvalue⟩, hinside, rfl⟩
    rename_i gap quote
    have hblank : Text.isBlank quote = false := by rcases hquote with rfl | rfl <;> rfl
    have hequals : equalsLength? (gap ++ (quote :: (value ++ quote :: rest))) = some gap.length := by
      refine equalsLength?_eq hgap fun c hc => ?_
      rwa [← Option.some.inj hc]
    have hsplit : Text.splitAtFirst [quote] (value ++ quote :: rest) = some (value, quote :: rest) := by
      refine (Text.splitAtFirst_eq_some_iff (List.cons_ne_nil _ _)).2 ⟨rfl, List.prefix_append [quote] rest, ?_⟩
      rintro front tail rfl htail ⟨more, hmore⟩
      obtain ⟨c, tail, rfl⟩ := List.exists_cons_of_ne_nil htail
      exact hvalue (List.mem_append_right _ ((List.cons.inj hmore).1 ▸ List.mem_cons_self ..))
    have htext : name ++ gap ++ [quote] ++ value ++ [quote] ++ rest =
        name ++ (gap ++ (quote :: (value ++ quote :: rest))) := by simp
    have hfront : startsWithAny Text.isWordChar before.reverse = false := by
      rw [startsWithAny_eq_false_iff, List.head?_reverse]
      exact hbefore
    have hname : name.isPrefixOf (name ++ (gap ++ (quote :: (value ++ quote :: rest)))) = true :=
      List.isPrefixOf_iff_prefix.2 (List.prefix_append _ _)
    rw [htext, attributePattern, hfront, hname, List.drop_left, hequals]
    dsimp only
    rw [← List.append_assoc, ← List.length_append, List.drop_left]
    have hmarks : (decide (quote = '"') || decide (quote = '\'')) = true := by
      rw [Bool.or_eq_true, decide_eq_true_eq, decide_eq_true_eq]
      exact hquote
    simp only [Bool.not_true, Bool.or_false, Bool.false_eq_true, if_false, hmarks, if_true, hsplit, Option.map_some,
      Option.some.injEq, Prod.mk.injEq, List.length_append, List.length_cons, List.length_nil] at hinside ⊢
    exact ⟨⟨by omega, trivial⟩, by omega⟩

theorem isAttribute_of_mem_parts {name : Text} (h : (offset, value) ∈ parts (attributePattern name) text) :
    ∃ front back, text = front ++ (value ++ back) ∧ front.length = offset ∧ IsAttribute name front value back := by
  obtain ⟨lead, tail, inside, length, rfl, rfl, hpattern⟩ := exists_of_mem_parts h
  obtain ⟨hlead, _, rest, rfl, ⟨hgap, hquote, hvalue⟩, hinside, -⟩ := attributePattern_eq_some_iff.1 hpattern
  rename_i gap quote
  refine ⟨lead ++ (name ++ gap ++ [quote]), quote :: rest, by simp, ?_, .intro hlead hgap hquote hvalue⟩
  simp only [List.length_append, List.length_cons, List.length_nil] at hinside ⊢
  omega

theorem exists_of_splitAtWord {word after : Text} (h : splitAtWord word text = some (before, after)) :
    text = before ++ after ∧ beginsWithWord word after = true := by
  induction text generalizing before with
  | nil =>
    rw [splitAtWord] at h
    split at h
    · next hword =>
      obtain ⟨rfl, rfl⟩ := Prod.mk.inj (Option.some.inj h)
      rw [List.isEmpty_iff.1 hword]
      exact ⟨rfl, rfl⟩
    · cases h
  | cons c rest ih =>
    rw [splitAtWord] at h
    split at h
    · next hword =>
      obtain ⟨rfl, rfl⟩ := Prod.mk.inj (Option.some.inj h)
      exact ⟨rfl, hword⟩
    · obtain ⟨⟨front, back⟩, hrest, heq⟩ := Option.map_eq_some_iff.1 h
      obtain ⟨rfl, rfl⟩ := Prod.mk.inj heq
      obtain ⟨rfl, hword⟩ := ih hrest
      exact ⟨rfl, hword⟩

/-- The opening tag of a style element stands in front of the contents, and its closing tag behind them. -/
inductive IsElement : Text → Text → Text → Prop
  | intro {lead opening attributes contents closing rest : Text} (hopening : Spells styleOpening opening)
    (hattributes : '>' ∉ attributes) (hclosing : Spells styleClosing closing) :
    IsElement (lead ++ (opening ++ attributes ++ ['>'])) contents (closing ++ rest)

theorem isElement_of_mem_parts {contents : Text} (h : (offset, contents) ∈ parts stylePattern text) :
    ∃ front back, text = front ++ (contents ++ back) ∧ front.length = offset ∧ IsElement front contents back := by
  obtain ⟨lead, tail, inside, length, rfl, rfl, hpattern⟩ := exists_of_mem_parts h
  unfold stylePattern at hpattern
  split at hpattern
  · next hword =>
    obtain ⟨opening, inner, rfl, hlength, hopening⟩ := beginsWithWord_iff.1 hword
    dsimp only at hpattern
    rw [Nat.add_sub_cancel, ← hlength, List.drop_left, ← List.drop_drop, List.drop_left] at hpattern
    split at hpattern
    · next rest hrest =>
      obtain ⟨⟨found, after⟩, hsplit, heq⟩ := Option.map_eq_some_iff.1 hpattern
      obtain ⟨heq, -⟩ := Prod.mk.inj heq
      obtain ⟨rfl, rfl⟩ := Prod.mk.inj heq
      obtain ⟨rfl, hafter⟩ := exists_of_splitAtWord hsplit
      obtain ⟨closing, back, rfl, -, hclosing⟩ := beginsWithWord_iff.1 hafter
      have hinner := List.prefix_iff_eq_append.1 (List.takeWhile_prefix (l := inner) (· ≠ '>'))
      rw [hrest] at hinner
      refine ⟨lead ++ (opening ++ inner.takeWhile (· ≠ '>') ++ ['>']), closing ++ back, ?_, ?_,
        .intro hopening ?_ hclosing⟩
      · conv_lhs => rw [← hinner]
        simp
      · simp only [List.length_append, List.length_cons, List.length_nil]
      · intro hmem
        have hne := List.all_eq_true.1 List.all_takeWhile _ hmem
        exact absurd hne (by decide)
    · cases hpattern
  · cases hpattern

end VerticalSlice.Color
