import Mathlib.Data.List.Chain
import VerticalSlice.Proofs.Color.Padding
import VerticalSlice.Proofs.Text.Utf8
import VerticalSlice.Rule.RawColors

/-!
# The colours of a style sheet

A style sheet is a list of items: declarations, and rules with items of their own, to any depth. Its
text has blanks around the pieces, and the last declaration of a block may do without its semicolon.

The scan knows nothing of this structure. It cuts the text at braces and semicolons, and what stands in
front of an opening brace is a selector. The colours found from a place on are what is said of the scan
at every place (`foundFrom`): a cut is passed, and a piece between two cuts adds what its declaration
holds (`foundFrom_piece`). By induction over the items, a block adds the colours of its declarations, in
order, and none of its selectors does (`foundFrom_block`). So the colours of a file are those of the
values of its declarations, each on its line (`sightings_exact`).
-/

namespace VerticalSlice

open FileTree

namespace Color

open Text (Blank)

/-! ## Style sheets -/

/-- A property and its value, with the blanks in front of the property, around the colon and behind the
value. -/
structure Declaration where
  lead : Text
  property : Text
  gap : Text
  inner : Text
  value : Text
  trail : Text
  /-- Does it end with a semicolon? -/
  isClosed : Bool

/-- A part of a style sheet. A rule has blanks around its selector and in front of its closing brace. -/
inductive Item
  | declaration (declaration : Declaration)
  | rule (lead selector gap : Text) (items : List Item) (tail : Text)

/-- The items of a style sheet and the blanks at its end. -/
structure Sheet where
  items : List Item
  tail : Text

/-- The text in front of the value. -/
def Declaration.head (declaration : Declaration) : Text :=
  declaration.lead ++ declaration.property ++ declaration.gap ++ [':'] ++ declaration.inner

def Declaration.render (declaration : Declaration) : Text :=
  declaration.head ++ declaration.value ++ declaration.trail ++
    if declaration.isClosed then [';'] else []

mutual

def Item.render : Item → Text
  | .declaration declared => declared.render
  | .rule lead selector gap items tail =>
    lead ++ selector ++ gap ++ ['\x7b'] ++ renderAll items ++ tail ++ ['\x7d']

def renderAll : List Item → Text
  | [] => []
  | item :: rest => item.render ++ renderAll rest

end

def Sheet.render (sheet : Sheet) : Text := renderAll sheet.items ++ sheet.tail

mutual

/-- The colours in the values of declarations of an item that begins at `offset`, each with the offset
of its first character. -/
def Item.colors (offset : Nat) : Item → List (Nat × Text)
  | .declaration declared =>
    (locate declared.value).map fun found => (offset + declared.head.length + found.1, found.2)
  | .rule lead selector gap items _ =>
    allColors (offset + (lead ++ selector ++ gap ++ ['\x7b']).length) items

def allColors (offset : Nat) : List Item → List (Nat × Text)
  | [] => []
  | item :: rest => item.colors offset ++ allColors (offset + item.render.length) rest

end

/-- The colours of a style sheet in order, each with its line. -/
def Sheet.sightings (sheet : Sheet) : List Sighting :=
  (allColors 0 sheet.items).map fun found => (found.2, Text.lineAt sheet.render found.1)

/-- Nothing in the text ends a piece of a style sheet, begins a comment or opens the bracket of a
utility class. -/
structure Inert (text : Text) : Prop where
  endsNone : ∀ c ∈ text, endsPiece c = false
  noComment : ¬['/', '*'] <:+: text
  noBracket : ¬['-', '['] <:+: text

theorem inert_iff {text : Text} : Inert text ↔ (text.all fun c => !endsPiece c) = true ∧
    Text.occursIn ['/', '*'] text = false ∧ Text.occursIn ['-', '['] text = false := by
  have hends : (text.all fun c => !endsPiece c) = true ↔ ∀ c ∈ text, endsPiece c = false := by
    simp only [List.all_eq_true, Bool.not_eq_true']
  rw [hends, Bool.eq_false_iff, Bool.eq_false_iff, ne_eq, ne_eq, Text.occursIn_iff_infix,
    Text.occursIn_iff_infix]
  exact ⟨fun h => ⟨h.endsNone, h.noComment, h.noBracket⟩, fun h => ⟨h.1, h.2.1, h.2.2⟩⟩

instance : DecidablePred Inert := fun _ => decidable_of_iff' _ inert_iff

structure Declaration.Valid (declaration : Declaration) : Prop where
  lead : Blank declaration.lead
  property_ne_nil : declaration.property ≠ []
  property : ∀ c ∈ declaration.property, isPropertyChar c = true
  gap : Blank declaration.gap
  inner : Blank declaration.inner
  value : Inert declaration.value
  trail : Blank declaration.trail

theorem Declaration.valid_iff {declaration : Declaration} : declaration.Valid ↔
    Blank declaration.lead ∧ declaration.property ≠ [] ∧
      declaration.property.all isPropertyChar = true ∧ Blank declaration.gap ∧
      Blank declaration.inner ∧ Inert declaration.value ∧ Blank declaration.trail := by
  rw [List.all_eq_true]
  exact ⟨fun h => ⟨h.lead, h.property_ne_nil, h.property, h.gap, h.inner, h.value, h.trail⟩,
    fun ⟨hlead, hne, hproperty, hgap, hinner, hvalue, htrail⟩ =>
      ⟨hlead, hne, hproperty, hgap, hinner, hvalue, htrail⟩⟩

instance : DecidablePred Declaration.Valid := fun _ => decidable_of_iff' _ Declaration.valid_iff

/-- May another item follow? -/
def Item.isClosed : Item → Bool
  | .declaration declared => declared.isClosed
  | .rule .. => true

mutual

def Item.Valid : Item → Prop
  | .declaration declared => declared.Valid
  | .rule lead selector gap items tail =>
    Blank lead ∧ Inert selector ∧ Blank gap ∧ AllValid items ∧ Blank tail

/-- The items can stand one behind the other: only the last one may lack its semicolon. -/
def AllValid : List Item → Prop
  | [] => True
  | item :: rest => item.Valid ∧ (rest.isEmpty = true ∨ item.isClosed = true) ∧ AllValid rest

end

def Sheet.Valid (sheet : Sheet) : Prop := AllValid sheet.items ∧ Blank sheet.tail

mutual

def Item.decideValid : (item : Item) → Decidable item.Valid
  | .declaration declared => inferInstanceAs (Decidable declared.Valid)
  | .rule lead selector gap items tail =>
    have := decideAllValid items
    inferInstanceAs (Decidable (Blank lead ∧ Inert selector ∧ Blank gap ∧ AllValid items ∧ Blank tail))

def decideAllValid : (items : List Item) → Decidable (AllValid items)
  | [] => .isTrue trivial
  | item :: rest =>
    have := item.decideValid
    have := decideAllValid rest
    inferInstanceAs (Decidable
      (item.Valid ∧ (rest.isEmpty = true ∨ item.isClosed = true) ∧ AllValid rest))

end

instance : DecidablePred Sheet.Valid := fun sheet =>
  have := decideAllValid sheet.items
  inferInstanceAs (Decidable (AllValid sheet.items ∧ Blank sheet.tail))

/-! ## The scan -/

/-- The colours of a piece that is no selector, each with the offset of its first character. -/
def colorsOfPiece (piece : Text) : List (Nat × Text) :=
  match declaration? piece with
  | some (inside, value) => (locate value).map fun found => (inside + found.1, found.2)
  | none => []

/-- The colours that the scan finds from a place on. -/
def foundFrom (offset : Nat) (text : Text) : List (Nat × Text) :=
  (Text.occurrencesFrom piecePattern [] 0 offset text).flatMap fun found =>
    match found.2 with
    | some piece => (colorsOfPiece piece).map fun inside => (found.1 + inside.1, inside.2)
    | none => []

theorem inDeclarations_eq (text : Text) (firstLine : Nat) :
    inDeclarations text firstLine = (foundFrom 0 text).map fun found =>
      (found.2, firstLine + Text.lineAt text found.1 - 1) := by
  rw [inDeclarations, pieces, foundFrom, Text.occurrences, List.map_flatMap,
    List.filterMap_eq_flatMap_toList, List.flatMap_assoc]
  refine List.flatMap_congr fun found _ => ?_
  obtain ⟨offset, piece⟩ := found
  cases piece with
  | none => rfl
  | some piece =>
    dsimp only [Option.map_some, Option.toList_some]
    rw [List.flatMap_singleton, colorsOfPiece]
    cases declaration? piece with
    | none => rfl
    | some declared =>
      dsimp only
      rw [sightingsIn, List.map_map, List.map_map]
      refine List.map_congr_left fun inside _ => ?_
      obtain ⟨start, color⟩ := inside
      show (color, firstLine + Text.lineAt text (offset + declared.1 + start) - 1) = _
      rw [Nat.add_assoc]
      rfl

theorem occurrencesFrom_skip {α : Type} (p : Text.Pattern α) (before skipped rest : Text)
    (offset : Nat) :
    Text.occurrencesFrom p before skipped.length offset (skipped ++ rest) =
      Text.occurrencesFrom p (skipped.reverse ++ before) 0 (offset + skipped.length) rest := by
  induction skipped generalizing before offset with
  | nil => rfl
  | cons c skipped ih =>
    rw [List.length_cons, List.cons_append, Text.occurrencesFrom, ih, List.reverse_cons,
      List.append_assoc, Nat.add_right_comm]
    rfl

theorem occurrencesFrom_piecePattern (before text : Text) (skip offset : Nat) :
    Text.occurrencesFrom piecePattern before skip offset text =
      Text.occurrencesFrom piecePattern [] skip offset text := by
  have hany : ∀ first second, Text.occurrencesFrom piecePattern first skip offset text =
      Text.occurrencesFrom piecePattern second skip offset text := by
    induction text generalizing skip offset with
    | nil => intro first second; rfl
    | cons c rest ih =>
      intro first second
      cases skip with
      | succ skip => exact ih skip (offset + 1) (c :: first) (c :: second)
      | zero =>
        rw [Text.occurrencesFrom, Text.occurrencesFrom]
        have hpattern : piecePattern first (c :: rest) = piecePattern second (c :: rest) := rfl
        rw [hpattern]
        split
        · rw [ih _ _ (c :: first) (c :: second)]
        · exact ih _ _ (c :: first) (c :: second)
  exact hany before []

/-- The scan passes the character that ends a piece. -/
theorem foundFrom_cons {c : Char} (hc : endsPiece c = true) (offset : Nat) (rest : Text) :
    foundFrom offset (c :: rest) = foundFrom (offset + 1) rest := by
  have hpiece : (c :: rest).takeWhile (fun c => !endsPiece c) = [] := by
    rw [List.takeWhile_cons, hc]
    rfl
  have hnone : piecePattern [] (c :: rest) = none := by
    rw [piecePattern, hpiece]
  rw [foundFrom, Text.occurrencesFrom, hnone]
  dsimp only
  rw [occurrencesFrom_piecePattern]
  rfl

/-- The scan takes the characters up to the next end of a piece together. Before an opening brace they
are a selector and else what a declaration holds counts. -/
theorem foundFrom_piece {piece : Text} (hpiece : ∀ c ∈ piece, endsPiece c = false) (rest : Text)
    (hrest : ∀ c ∈ rest.head?, endsPiece c = true) (offset : Nat) :
    foundFrom offset (piece ++ rest) =
      (if rest.head? = some '\x7b' then []
        else (colorsOfPiece piece).map fun found => (offset + found.1, found.2)) ++
        foundFrom (offset + piece.length) rest := by
  cases piece with
  | nil =>
    have hnil : colorsOfPiece [] = [] := rfl
    rw [hnil, List.map_nil, ite_self]
    rfl
  | cons c more =>
    have htake : (c :: more ++ rest).takeWhile (fun c => !endsPiece c) = c :: more := by
      rw [List.takeWhile_append_of_pos fun d hd => by rw [hpiece d hd]; rfl]
      cases rest with
      | nil => exact List.append_nil _
      | cons d rest =>
        rw [List.takeWhile_cons, hrest d rfl]
        exact List.append_nil _
    have hpattern : piecePattern [] (c :: more ++ rest) = some
        (if rest.head? = some '\x7b' then none else some (c :: more), (c :: more).length) := by
      rw [piecePattern, htake, List.drop_left]
      split
      · next heq => cases heq
      · rfl
      · next hopen _ =>
        rw [if_neg]
        intro hhead
        obtain ⟨rest, rfl⟩ := List.head?_eq_some_iff.1 hhead
        exact hopen rest rfl
    rw [foundFrom, List.cons_append, Text.occurrencesFrom, ← List.cons_append, hpattern]
    dsimp only
    rw [List.length_cons, Nat.add_sub_cancel, occurrencesFrom_skip, occurrencesFrom_piecePattern,
      List.flatMap_cons, foundFrom, Nat.add_assoc, Nat.add_comm 1]
    congr 1
    by_cases hopen : rest.head? = some '\x7b'
    · rw [if_pos hopen, if_pos hopen]
    · rw [if_neg hopen, if_neg hopen]

/-! ## What a piece holds -/

/-- A name that is no property is passed. -/
theorem declarationFrom_true {name : Text} (hname : ∀ c ∈ name, isPropertyChar c = true) (offset : Nat)
    (rest : Text) : declarationFrom true offset (name ++ rest) =
      declarationFrom true (offset + name.length) rest := by
  induction name generalizing offset with
  | nil => rfl
  | cons c name ih =>
    rw [List.cons_append, declarationFrom, if_pos (hname c (List.mem_cons_self ..)), if_pos rfl]
    dsimp only
    rw [ih (fun d hd => hname d (List.mem_cons_of_mem _ hd)), List.length_cons, Nat.add_right_comm]
    rfl

/-- What is no part of a name is passed. -/
theorem declarationFrom_apart {c : Char} (hc : isPropertyChar c = false) (inName : Bool) (offset : Nat)
    (rest : Text) : declarationFrom inName offset (c :: rest) =
      declarationFrom false (offset + 1) rest := by
  rw [declarationFrom, hc]
  rfl

theorem declarationFrom_blank {text : Text} (h : Blank text) (offset : Nat) (rest : Text) :
    declarationFrom false offset (text ++ rest) =
      declarationFrom false (offset + text.length) rest := by
  induction text generalizing offset with
  | nil => rfl
  | cons c text ih =>
    rw [List.cons_append, declarationFrom_apart (isBlank_facts (h c (List.mem_cons_self ..))).2.2.1,
      ih fun d hd => h d (List.mem_cons_of_mem _ hd), List.length_cons, Nat.add_right_comm]
    rfl

theorem declarationFrom_eq_none {text : Text} (h : ∀ c ∈ text, isPropertyChar c = false)
    (inName : Bool) (offset : Nat) : declarationFrom inName offset text = none := by
  induction text generalizing inName offset with
  | nil => rfl
  | cons c rest ih =>
    rw [declarationFrom_apart (h c (List.mem_cons_self ..))]
    exact ih (fun d hd => h d (List.mem_cons_of_mem _ hd)) false (offset + 1)

/-- The value of a declaration begins behind the colon with what is no blank. -/
theorem valueBehindColon?_eq {property gap : Text} (hproperty : ∀ c ∈ property, isPropertyChar c = true)
    (hgap : Blank gap) (rest : Text) :
    valueBehindColon? (property ++ (gap ++ ':' :: rest)) =
      if rest.dropWhile Text.isBlank = [] then none
      else some ((property ++ (gap ++ ':' :: rest)).length - (rest.dropWhile Text.isBlank).length,
        rest.dropWhile Text.isBlank) := by
  have hname : (property ++ (gap ++ ':' :: rest)).dropWhile isPropertyChar = gap ++ ':' :: rest := by
    rw [List.dropWhile_append_of_pos hproperty]
    cases gap with
    | nil => rfl
    | cons c gap =>
      rw [List.cons_append, List.dropWhile_cons, (isBlank_facts (hgap c (List.mem_cons_self ..))).2.2.1]
      rfl
  have hcolon : (gap ++ ':' :: rest).dropWhile Text.isBlank = ':' :: rest := by
    rw [List.dropWhile_append_of_pos hgap]
    rfl
  unfold valueBehindColon?
  rw [hname]
  dsimp only
  rw [hcolon]
  cases hvalue : rest.dropWhile Text.isBlank with
  | nil => simp only [hvalue, if_pos]
  | cons c value => simp only [hvalue, reduceCtorEq, if_false]

/-- The colours of a piece with a declaration are those of what stands behind the colon. -/
theorem colorsOfPiece_declaration {lead property gap : Text} (hlead : Blank lead)
    (hne : property ≠ []) (hproperty : ∀ c ∈ property, isPropertyChar c = true) (hgap : Blank gap)
    (rest : Text) :
    colorsOfPiece (lead ++ (property ++ (gap ++ ':' :: rest))) =
      (locate rest).map fun found =>
        ((lead ++ property ++ gap ++ [':']).length + found.1, found.2) := by
  have hvalue := valueBehindColon?_eq hproperty hgap rest
  have hrest := @List.takeWhile_append_dropWhile _ Text.isBlank rest
  have hblanks : Blank (rest.takeWhile Text.isBlank) := fun c hc => List.mem_takeWhile_imp hc
  have hlocate : locate rest = (locate (rest.dropWhile Text.isBlank)).map fun found =>
      ((rest.takeWhile Text.isBlank).length + found.1, found.2) := by
    have hpadded := @locate_padded _ [] (rest.dropWhile Text.isBlank) hblanks (by simp [Blank])
    rwa [List.append_nil, hrest] at hpadded
  obtain ⟨c, name, rfl⟩ := List.exists_cons_of_ne_nil hne
  rw [colorsOfPiece, declaration?, declarationFrom_blank hlead, List.cons_append, declarationFrom,
    if_pos (hproperty c (List.mem_cons_self ..)), if_neg Bool.false_ne_true, ← List.cons_append, hvalue]
  by_cases hempty : rest.dropWhile Text.isBlank = []
  · rw [if_pos hempty]
    dsimp only
    have hapart : ∀ d ∈ gap ++ ':' :: rest, isPropertyChar d = false := by
      intro d hd
      rw [← hrest, hempty, List.append_nil] at hd
      rcases List.mem_append.1 hd with hd | hd
      · exact (isBlank_facts (hgap d hd)).2.2.1
      · rcases List.mem_cons.1 hd with rfl | hd
        · rfl
        · exact (isBlank_facts (hblanks d hd)).2.2.1
    rw [declarationFrom_true fun d hd => hproperty d (List.mem_cons_of_mem _ hd),
      declarationFrom_eq_none hapart, hlocate, hempty]
    rfl
  · rw [if_neg hempty]
    dsimp only
    rw [hlocate, List.map_map]
    refine List.map_congr_left fun found _ => ?_
    have hlength := congrArg List.length hrest
    rw [List.length_append] at hlength
    rw [Function.comp_apply, Prod.mk.injEq, and_iff_left rfl]
    simp only [List.length_append, List.length_cons, List.length_nil]
    omega

/-! ## Texts that the scan takes as they are -/

/-- No comment begins and no bracket opens where the one character stands in front of the other. -/
def Apart (first second : Char) : Prop := ¬(first = '/' ∧ second = '*') ∧ ¬(first = '-' ∧ second = '[')

theorem isChain_apart_iff {text : Text} :
    text.IsChain Apart ↔ ¬['/', '*'] <:+: text ∧ ¬['-', '['] <:+: text := by
  constructor
  · intro h
    refine ⟨fun hpart => ?_, fun hpart => ?_⟩
    · exact (List.isChain_pair.1 ( List.IsChain.infix h hpart)).1 ⟨rfl, rfl⟩
    · exact (List.isChain_pair.1 ( List.IsChain.infix h hpart)).2 ⟨rfl, rfl⟩
  · rintro ⟨hcomment, hbracket⟩
    refine List.isChain_iff_forall_rel_of_append_cons_cons.2 fun c d front rest heq => ⟨?_, ?_⟩
    · rintro ⟨rfl, rfl⟩
      exact hcomment ⟨front, rest, by rw [heq, List.append_assoc]; rfl⟩
    · rintro ⟨rfl, rfl⟩
      exact hbracket ⟨front, rest, by rw [heq, List.append_assoc]; rfl⟩

/-- A character next to which no comment begins and no bracket opens. -/
def isSeparator (c : Char) : Bool := c ≠ '/' && c ≠ '-' && c ≠ '*' && c ≠ '['

theorem inBrackets_eq_nil {text : Text} (h : text.IsChain Apart) (firstLine : Nat) :
    inBrackets text firstLine = [] := by
  rw [inBrackets, List.flatMap_eq_nil_iff]
  rintro ⟨offset, value⟩ hfound
  obtain ⟨front, tail, length, rfl, -, hpattern⟩ := Text.exists_of_mem_occurrences hfound
  obtain ⟨rest, rfl⟩ := exists_of_bracketPattern hpattern
  exact absurd ⟨front, value ++ ']' :: rest, by simp⟩ (isChain_apart_iff.1 h).2

/-- So the colours of such a text are those that the scan finds in it. -/
theorem inStylesheet_eq {text : Text} (h : text.IsChain Apart) :
    inStylesheet text 1 = (foundFrom 0 text).map fun found =>
      (found.2, Text.lineAt text found.1) := by
  have huncommented : Uncommented text := (isChain_apart_iff.1 h).1
  rw [inStylesheet, huncommented.withoutComments_eq, inDeclarations_eq, inBrackets_eq_nil h,
    List.append_nil]
  refine List.map_congr_left fun found _ => ?_
  rw [Nat.add_sub_cancel_left]

/-! ## The text of a style sheet -/

/-- The text ends, if it has an end, with a separator. -/
def EndsApart (text : Text) : Prop := ∀ c ∈ text.getLast?, isSeparator c = true

/-- The text begins, if it has a beginning, with a separator. -/
def BeginsApart (text : Text) : Prop := ∀ c ∈ text.head?, isSeparator c = true

theorem isChain_append {first second : Text} (hfirst : first.IsChain Apart)
    (hsecond : second.IsChain Apart) (h : EndsApart first ∨ BeginsApart second) :
    (first ++ second).IsChain Apart := by
  refine List.isChain_append.2 ⟨hfirst, hsecond, fun c hc d hd => ?_⟩
  rcases h with h | h
  · have hseparator := h c hc
    refine ⟨?_, ?_⟩ <;> rintro ⟨rfl, rfl⟩ <;> cases hseparator
  · have hseparator := h d hd
    refine ⟨?_, ?_⟩ <;> rintro ⟨rfl, rfl⟩ <;> cases hseparator

theorem EndsApart.append {first second : Text} (hfirst : EndsApart first) (hsecond : EndsApart second) :
    EndsApart (first ++ second) := by
  intro c hc
  rw [List.getLast?_append, Option.mem_def, Option.or_eq_some_iff] at hc
  exact hc.elim (hsecond c) fun hc => hfirst c hc.2

theorem endsApart_concat (text : Text) {c : Char} (hc : isSeparator c = true) :
    EndsApart (text ++ [c]) := by
  intro d hd
  rw [List.getLast?_concat, Option.mem_some_iff] at hd
  exact hd ▸ hc

/-- A text of separators may stand next to every text. -/
theorem isChain_separators {text : Text} (h : ∀ c ∈ text, isSeparator c = true) :
    text.IsChain Apart ∧ BeginsApart text ∧ EndsApart text := by
  refine ⟨?_, fun c hc => h c (List.mem_of_mem_head? hc), fun c hc => h c (List.mem_of_mem_getLast? hc)⟩
  rw [isChain_apart_iff]
  refine ⟨fun hpart => ?_, fun hpart => ?_⟩
  · cases h '/' (hpart.subset (List.mem_cons_self ..))
  · cases h '-' (hpart.subset (List.mem_cons_self ..))

theorem isChain_blank {text : Text} (h : Blank text) :
    text.IsChain Apart ∧ BeginsApart text ∧ EndsApart text :=
  isChain_separators fun c hc => Text.of_isBlank (by decide +kernel) (h c hc)

theorem isChain_singleton {c : Char} (h : isSeparator c = true) :
    [c].IsChain Apart ∧ BeginsApart [c] ∧ EndsApart [c] :=
  isChain_separators fun d hd => by rwa [List.mem_singleton.1 hd]

theorem isChain_property {property : Text} (h : ∀ c ∈ property, isPropertyChar c = true) :
    property.IsChain Apart := by
  rw [isChain_apart_iff]
  refine ⟨fun hpart => ?_, fun hpart => ?_⟩
  · exact absurd (h '*' (hpart.subset (by simp))) (by decide)
  · exact absurd (h '[' (hpart.subset (by simp))) (by decide)

theorem Inert.isChain {text : Text} (h : Inert text) : text.IsChain Apart :=
  isChain_apart_iff.2 ⟨h.noComment, h.noBracket⟩

theorem Declaration.isChain_render {declaration : Declaration} (h : declaration.Valid) :
    declaration.render.IsChain Apart := by
  have hlead := isChain_blank h.lead
  have hgap := isChain_blank h.gap
  have hinner := isChain_blank h.inner
  have htrail := isChain_blank h.trail
  have hcolon := @isChain_singleton ':' rfl
  have hname := isChain_append hlead.1 (isChain_property h.property) (.inl hlead.2.2)
  have hfront := isChain_append (isChain_append hname hgap.1 (.inr hgap.2.1)) hcolon.1 (.inr hcolon.2.1)
  have hhead : declaration.head.IsChain Apart := isChain_append hfront hinner.1 (.inr hinner.2.1)
  have hends : EndsApart declaration.head := (endsApart_concat _ rfl).append hinner.2.2
  have hvalue := isChain_append hhead h.value.isChain (.inl hends)
  refine isChain_append (isChain_append hvalue htrail.1 (.inr htrail.2.1)) ?_ (.inr ?_)
  · split
    · exact List.isChain_singleton _
    · exact List.isChain_nil
  · split
    · exact (@isChain_singleton ';' rfl).2.1
    · exact fun c hc => by cases hc

theorem Item.endsApart_render {item : Item} (h : item.isClosed = true) : EndsApart item.render := by
  cases item with
  | declaration declaration =>
    have hclosed : declaration.isClosed = true := h
    rw [Item.render, Declaration.render, if_pos hclosed]
    exact endsApart_concat _ rfl
  | rule lead selector gap items tail => exact endsApart_concat _ rfl

mutual

theorem Item.isChain_render : ∀ {item : Item}, item.Valid → item.render.IsChain Apart
  | .declaration declaration, h => declaration.isChain_render h
  | .rule lead selector gap items tail, ⟨hlead, hselector, hgap, hitems, htail⟩ => by
    have hlead := isChain_blank hlead
    have hgap := isChain_blank hgap
    have htail := isChain_blank htail
    have hopen := @isChain_singleton '\x7b' rfl
    have hclose := @isChain_singleton '\x7d' rfl
    have hfront := isChain_append (isChain_append hlead.1 hselector.isChain (.inl hlead.2.2)) hgap.1
      (.inr hgap.2.1)
    have hinside := isChain_append (isChain_append hfront hopen.1 (.inr hopen.2.1))
      (isChain_renderAll hitems) (.inl (endsApart_concat _ rfl))
    exact isChain_append (isChain_append hinside htail.1 (.inr htail.2.1)) hclose.1 (.inr hclose.2.1)

theorem isChain_renderAll : ∀ {items : List Item}, AllValid items → (renderAll items).IsChain Apart
  | [], _ => List.isChain_nil
  | item :: rest, ⟨hitem, hclosed, hrest⟩ => by
    refine isChain_append (Item.isChain_render hitem) (isChain_renderAll hrest) ?_
    rcases hclosed with hlast | hclosed
    · rw [List.isEmpty_iff.1 hlast]
      exact .inr fun c hc => by cases hc
    · exact .inl (Item.endsApart_render hclosed)

end

theorem Sheet.isChain_render {sheet : Sheet} (h : sheet.Valid) : sheet.render.IsChain Apart :=
  isChain_append (isChain_renderAll h.1) (isChain_blank h.2).1 (.inr (isChain_blank h.2).2.1)

/-! ## What the scan finds -/

theorem colorsOfPiece_blank {text : Text} (h : Blank text) : colorsOfPiece text = [] := by
  rw [colorsOfPiece, declaration?, declarationFrom_eq_none fun c hc => (isBlank_facts (h c hc)).2.2.1]

theorem endsPiece_blank {text : Text} (h : Blank text) : ∀ c ∈ text, endsPiece c = false :=
  fun c hc => (isBlank_facts (h c hc)).2.2.2.1

theorem endsPiece_property {c : Char} (h : isPropertyChar c = true) : endsPiece c = false := by
  rw [Bool.eq_false_iff]
  intro hends
  simp only [endsPiece, Bool.or_eq_true, beq_iff_eq] at hends
  rcases hends with (rfl | rfl) | rfl <;> revert h <;> decide

/-- The scan finds the colours of the value of a declaration, whether it ends with a semicolon or with
the block that it is in. -/
theorem foundFrom_declaration {declaration : Declaration} (h : declaration.Valid) {tail : Text}
    (htail : Blank tail) (rest : Text) (hrest : ∀ c ∈ rest.head?, endsPiece c = true ∧ c ≠ '\x7b') (offset : Nat) :
    foundFrom offset (declaration.head ++ declaration.value ++ declaration.trail ++ tail ++ rest) =
      (Item.declaration declaration).colors offset ++ foundFrom (offset +
        (declaration.head ++ declaration.value ++ declaration.trail ++ tail).length) rest := by
  have hpiece : ∀ c ∈ declaration.head ++ declaration.value ++ declaration.trail ++ tail,
      endsPiece c = false := by
    simp only [Declaration.head, List.forall_mem_append, List.forall_mem_singleton]
    exact ⟨⟨⟨⟨⟨⟨⟨endsPiece_blank h.lead, fun c hc => endsPiece_property (h.property c hc)⟩,
      endsPiece_blank h.gap⟩, rfl⟩, endsPiece_blank h.inner⟩, h.value.endsNone⟩,
      endsPiece_blank h.trail⟩, endsPiece_blank htail⟩
  have hopen : rest.head? ≠ some '\x7b' := fun hhead => (hrest _ hhead).2 rfl
  have hcolors : colorsOfPiece (declaration.head ++ declaration.value ++ declaration.trail ++ tail) =
      (locate declaration.value).map fun found => (declaration.head.length + found.1, found.2) := by
    have hend : Blank (declaration.trail ++ tail) := List.forall_mem_append.2 ⟨h.trail, htail⟩
    have hsplit : declaration.head ++ declaration.value ++ declaration.trail ++ tail =
        declaration.lead ++ (declaration.property ++ (declaration.gap ++ ':' ::
          (declaration.inner ++ declaration.value ++ (declaration.trail ++ tail)))) := by
      simp only [Declaration.head, List.append_assoc, List.cons_append, List.nil_append]
    rw [hsplit, colorsOfPiece_declaration h.lead h.property_ne_nil h.property h.gap,
      locate_padded h.inner hend, List.map_map]
    refine List.map_congr_left fun found _ => ?_
    rw [Function.comp_apply, Declaration.head, @List.length_append _ _ declaration.inner, Nat.add_assoc]
  rw [foundFrom_piece hpiece rest (fun c hc => (hrest c hc).1), if_neg hopen, hcolors, List.map_map,
    Item.colors]
  congr 1
  refine List.map_congr_left fun found _ => ?_
  rw [Function.comp_apply, Nat.add_assoc]

/-- A selector has no colours. -/
theorem foundFrom_selector {lead selector gap : Text} (hlead : Blank lead) (hselector : Inert selector)
    (hgap : Blank gap) (offset : Nat) (rest : Text) :
    foundFrom offset (lead ++ selector ++ gap ++ ['\x7b'] ++ rest) =
      foundFrom (offset + (lead ++ selector ++ gap ++ ['\x7b']).length) rest := by
  have hpiece : ∀ c ∈ lead ++ selector ++ gap, endsPiece c = false := by
    simp only [List.forall_mem_append]
    exact ⟨⟨endsPiece_blank hlead, hselector.endsNone⟩, endsPiece_blank hgap⟩
  rw [List.append_assoc, List.singleton_append,
    foundFrom_piece hpiece _ (by rintro c hc; cases Option.mem_some_iff.1 hc; rfl), if_pos List.head?_cons,
    List.nil_append, foundFrom_cons rfl, @List.length_append _ _ ['\x7b'], ← Nat.add_assoc]
  rfl

mutual

/-- An item that another one may follow adds its colours. -/
theorem foundFrom_item : ∀ {item : Item}, item.Valid → item.isClosed = true → ∀ (offset : Nat)
    (rest : Text), foundFrom offset (item.render ++ rest) =
      item.colors offset ++ foundFrom (offset + item.render.length) rest
  | .declaration declaration, h, hclosed, offset, rest => by
    have hclosed : declaration.isClosed = true := hclosed
    have hnil : Blank [] := by simp [Blank]
    have hfound := foundFrom_declaration h hnil (';' :: rest)
      (by rintro c hc; cases Option.mem_some_iff.1 hc; exact ⟨rfl, by decide⟩) offset
    rw [List.append_nil, foundFrom_cons rfl] at hfound
    rw [Item.render, Declaration.render, if_pos hclosed, List.append_assoc, List.singleton_append, hfound,
      @List.length_append _ _ [';'], ← Nat.add_assoc]
    rfl
  | .rule lead selector gap items tail, ⟨hlead, hselector, hgap, hitems, htail⟩, _, offset, rest => by
    have hinside := foundFrom_block hitems htail ('\x7d' :: rest)
      (by rintro c hc; cases Option.mem_some_iff.1 hc; rfl)
      (offset + (lead ++ selector ++ gap ++ ['\x7b']).length)
    rw [foundFrom_cons rfl] at hinside
    have hsplit : (Item.rule lead selector gap items tail).render ++ rest =
        lead ++ selector ++ gap ++ ['\x7b'] ++ (renderAll items ++ tail ++ '\x7d' :: rest) := by
      simp only [Item.render, List.append_assoc, List.cons_append, List.nil_append]
    have hlength : (Item.rule lead selector gap items tail).render.length =
        (lead ++ selector ++ gap ++ ['\x7b']).length + (renderAll items ++ tail).length + 1 := by
      simp only [Item.render, List.length_append, List.length_cons, List.length_nil]
      omega
    rw [hsplit, foundFrom_selector hlead hselector hgap, hinside, Item.colors, hlength]
    simp only [Nat.add_assoc]

/-- A block adds the colours of its items; its end is that of the text or a closing brace. -/
theorem foundFrom_block : ∀ {items : List Item}, AllValid items → ∀ {tail : Text}, Blank tail →
    ∀ rest : Text, (∀ c ∈ rest.head?, c = '\x7d') → ∀ offset : Nat,
      foundFrom offset (renderAll items ++ tail ++ rest) =
        allColors offset items ++ foundFrom (offset + (renderAll items ++ tail).length) rest
  | [], _, tail, htail, rest, hrest, offset => by
    have hfound := foundFrom_piece (endsPiece_blank htail) rest
      (fun c hc => by rw [hrest c hc]; rfl) offset
    rw [colorsOfPiece_blank htail, List.map_nil, ite_self] at hfound
    exact hfound
  | item :: more, ⟨hitem, hclosed, hmore⟩, tail, htail, rest, hrest, offset => by
    by_cases hitemclosed : item.isClosed = true
    · have hrestfound := foundFrom_block hmore htail rest hrest (offset + item.render.length)
      rw [renderAll, List.append_assoc, List.append_assoc, ← List.append_assoc (renderAll more),
        foundFrom_item hitem hitemclosed, hrestfound, allColors, List.append_assoc, List.append_assoc,
        @List.length_append _ item.render, Nat.add_assoc]
    · -- the last declaration goes on to the end of the block
      obtain rfl := List.isEmpty_iff.1 (hclosed.resolve_right hitemclosed)
      cases item with
      | rule lead selector gap items tail => exact absurd rfl hitemclosed
      | declaration declaration =>
        have hopen : ¬declaration.isClosed = true := hitemclosed
        have hfound := foundFrom_declaration hitem htail rest
          (fun c hc => by rw [hrest c hc]; exact ⟨rfl, by decide⟩) offset
        rw [renderAll, renderAll, Item.render, Declaration.render, if_neg hopen, List.append_nil,
          List.append_nil, hfound, allColors, allColors, List.append_nil]

end

/-- The scan finds the colours of a style sheet. -/
theorem inStylesheet_render {sheet : Sheet} (h : sheet.Valid) :
    inStylesheet sheet.render 1 = sheet.sightings := by
  have hfound := foundFrom_block h.1 h.2 [] (fun c hc => by cases hc) 0
  rw [List.append_nil] at hfound
  rw [inStylesheet_eq (Sheet.isChain_render h), Sheet.sightings, Sheet.render, hfound]
  have hnil : foundFrom (0 + (renderAll sheet.items ++ sheet.tail).length) [] = [] := rfl
  rw [hnil, List.append_nil]

theorem distinct_eq (sightings : List Sighting) : distinct sightings = sightings.eraseDups := by
  have hsame : sameSighting = fun first second : Sighting => first == second := by
    funext first second
    rw [sameSighting, Bool.and_comm]
    rfl
  rw [distinct, hsame, List.eraseDups]

/-! ## Files -/

/-- The colours of a file that holds a style sheet are those of the values of its declarations, each on
the line of its first character, in order and without repetition. Which sheet the file holds is said of
its text with the line endings brought to one form. -/
theorem sightings_exact {tree : FileTree} {path : Path} {bytes : List UInt8} {raw : Text}
    {sheet : Sheet} (hvalid : sheet.Valid) (hread : tree.read path = .ok bytes)
    (hbytes : Text.Utf8.encode raw = bytes) (htext : Text.normalizeNewlines raw = sheet.render)
    (hextension : path.extension = ".css".toList ∨ path.extension = ".scss".toList) :
    RawColors.sightings tree path = .ok sheet.sightings.eraseDups := by
  have hneither : path.extension ≠ ".ts".toList ∧ path.extension ≠ ".html".toList := by
    rcases hextension with h | h <;> rw [h] <;> decide
  rw [RawColors.sightings, readText_of_read hread hbytes, htext]
  show Except.ok (inFile path.extension sheet.render) = _
  rw [inFile, if_neg hneither.1, if_neg hneither.2, inStylesheet_render hvalid, distinct_eq]

/-- A sheet with one rule inside another. Both selectors look like declarations with a colour, and the
last declaration of the inner block has no semicolon. -/
def nestedSheet : Sheet where
  items := [.rule [] "a:hover #abc" " " [
    .declaration ⟨"\n  ", "color", " ", " ", "#FFF", " ", true⟩,
    .rule "\n  " "x:#fed" [] [.declaration ⟨" ", "background", [], "\n", "rgb(0,0,0), #FFF", [], false⟩]
      " "] "\n"]
  tail := "\n"

/-- The sheet in a file. -/
def nestedTree : FileTree := .folder [("a.css", .file (Text.Utf8.encode nestedSheet.render))]

/-- The selectors add no colours, and the same colour on two lines is told twice. -/
theorem sightings_exact_nestedSheet : nestedSheet.Valid ∧
    nestedTree.read ⟨.root, ["a.css"]⟩ = .ok (Text.Utf8.encode nestedSheet.render) ∧
    Text.normalizeNewlines nestedSheet.render = nestedSheet.render ∧
    RawColors.sightings nestedTree ⟨.root, ["a.css"]⟩ =
      .ok [("#FFF".toList, 2), ("rgb(0,0,0)".toList, 4), ("#FFF".toList, 4)] := by
  have hread : nestedTree.read ⟨.root, ["a.css"]⟩ = .ok (Text.Utf8.encode nestedSheet.render) := rfl
  have htext : Text.normalizeNewlines nestedSheet.render = nestedSheet.render :=
    Text.normalizeNewlines_eq_self (by decide +kernel)
  have hvalid : nestedSheet.Valid := by decide +kernel
  refine ⟨hvalid, hread, htext, ?_⟩
  rw [sightings_exact hvalid hread rfl htext (.inl rfl)]
  decide +kernel

/-- A sheet with a carriage return inside a colour. -/
def returnSheet : Sheet where
  items := [.rule [] "a" " " [.declaration ⟨" ", "color", [], " ", "rgb(0,\r0,0)", [], true⟩] " "]
  tail := []

/-- The colour is told with a line feed: the line endings are brought to one form before the text is
looked through, and so the sheet as it was written has another colour than the file. -/
theorem sightings_ne_returnSheet : returnSheet.Valid ∧
    returnSheet.sightings.eraseDups = [("rgb(0,\r0,0)".toList, 1)] ∧
    RawColors.sightings (.folder [("a.css", .file (Text.Utf8.encode returnSheet.render))])
      ⟨.root, ["a.css"]⟩ = .ok [("rgb(0,\n0,0)".toList, 1)] ∧
    RawColors.sightings (.folder [("a.css", .file (Text.Utf8.encode returnSheet.render))])
      ⟨.root, ["a.css"]⟩ ≠ .ok returnSheet.sightings.eraseDups := by
  have htold : RawColors.sightings (.folder [("a.css", .file (Text.Utf8.encode returnSheet.render))])
      ⟨.root, ["a.css"]⟩ = .ok [("rgb(0,\n0,0)".toList, 1)] := by
    rw [RawColors.sightings, readText_of_read rfl rfl]
    decide +kernel
  have hexpected : returnSheet.sightings.eraseDups = [("rgb(0,\r0,0)".toList, 1)] := by
    decide +kernel
  refine ⟨by decide +kernel, hexpected, htold, ?_⟩
  rw [htold, hexpected]
  decide +kernel

end Color

end VerticalSlice
