import VerticalSlice.Proofs.Color.Sheet

/-!
# Values with interpolations

The value of a declaration may have interpolations, an expression in braces behind a `#`. The scan cuts a style
sheet at every brace, and so it takes what stands in front of an interpolation for a selector; that is where the
property is. What is left of the declaration are the expressions and the piece behind the last of them, each on its
own, and the colours in these count only where a name and a colon stand in front of them once more
(`find_interpolated`). A colour between blanks behind an interpolation is passed over (`color_behind_passed`).
-/

namespace VerticalSlice.Color

open Text (Blank)

/-- A value: a plain piece, and interpolations, each an expression and the plain piece behind it. -/
structure Interpolated where
  first : Text
  rest : List (Text × Text)

namespace Interpolated

variable {value : Interpolated} {property piece color : Text} {rest : List (Text × Text)} {offset : Nat}

/-- The interpolations with the pieces behind them. -/
def renderRest (rest : List (Text × Text)) : Text :=
  rest.flatMap fun part => '#' :: '\x7b' :: (part.1 ++ '\x7d' :: part.2)

def render (value : Interpolated) : Text := value.first ++ renderRest value.rest

/-- A style sheet with the value in a rule. -/
def sheet (property : Text) (value : Interpolated) : Text :=
  ['.', 'a', ' ', '\x7b', ' '] ++ property ++ [':', ' '] ++ value.render ++ [';', ' ', '\x7d']

/-- The pieces in front of the interpolations, between them and behind them. -/
def plainPieces (value : Interpolated) : List Text := value.first :: value.rest.map (·.2)

/-- The expressions and the piece behind the last of them. -/
def leftovers (value : Interpolated) : List Text :=
  value.rest.map (·.1) ++ [(value.rest.map (·.2)).getLastD value.first]

structure Valid (value : Interpolated) : Prop where
  first : Inert value.first
  rest : ∀ part ∈ value.rest, Inert part.1 ∧ Inert part.2

end Interpolated

/-- The colours of a piece of a style sheet behind a name and a colon. -/
def declaredColors (piece : Text) : List Text :=
  match declaration? piece with
  | some (_, value) => find value
  | none => []

theorem map_colorsOfPiece (piece : Text) : (colorsOfPiece piece).map (·.2) = declaredColors piece := by
  rw [colorsOfPiece, declaredColors]
  cases declaration? piece with
  | none => rfl
  | some found =>
    dsimp only
    rw [List.map_map, find]
    rfl

namespace Interpolated

variable {value : Interpolated} {property piece color : Text} {rest : List (Text × Text)} {offset : Nat}

theorem renderRest_cons (body piece : Text) (rest : List (Text × Text)) : renderRest ((body, piece) :: rest) =
    ['#', '\x7b'] ++ body ++ ['\x7d'] ++ piece ++ renderRest rest := by
  simp [renderRest]

/-- A plain piece, and what the scan finds from there to the end of the sheet: nothing in front of an
interpolation, what the expressions declare, and what the last piece declares. -/
theorem map_foundFrom (hpiece : ∀ c ∈ piece, endsPiece c = false)
    (hrest : ∀ part ∈ rest, (∀ c ∈ part.1, endsPiece c = false) ∧ ∀ c ∈ part.2, endsPiece c = false) :
    (foundFrom offset (piece ++ (renderRest rest ++ [';', ' ', '\x7d']))).map (·.2) =
      (rest.map (·.1) ++ [(rest.map (·.2)).getLastD piece]).flatMap declaredColors := by
  have hends : ∀ {c : Char} {tail : Text}, endsPiece c = true → ∀ d ∈ (c :: tail).head?, endsPiece d = true := by
    intro c tail hc d hd
    rwa [← Option.some.inj hd]
  have hshift : ∀ (offset : Nat) (piece : Text),
      ((colorsOfPiece piece).map fun found => (offset + found.1, found.2)).map (·.2) = declaredColors piece := by
    intro offset piece
    rw [List.map_map, ← map_colorsOfPiece]
    rfl
  induction rest generalizing piece offset with
  | nil =>
    have hend : ∀ offset, foundFrom offset [' ', '\x7d'] = [] := by
      intro offset
      have hblank : Blank [' '] := by decide
      have hfound := foundFrom_piece (endsPiece_blank hblank) ['\x7d'] (hends rfl) offset
      rw [colorsOfPiece_blank hblank, List.map_nil, ite_self, foundFrom_cons rfl] at hfound
      exact hfound
    rw [renderRest, List.flatMap_nil, List.nil_append, foundFrom_piece hpiece _ (hends rfl), if_neg (by decide),
      foundFrom_cons rfl, hend, List.append_nil, hshift]
    simp
  | cons part rest ih =>
    obtain ⟨body, next⟩ := part
    obtain ⟨⟨hbody, hnext⟩, hrest⟩ := List.forall_mem_cons.1 hrest
    have hsplit : piece ++ (renderRest ((body, next) :: rest) ++ [';', ' ', '\x7d']) =
        (piece ++ ['#']) ++ '\x7b' :: (body ++ '\x7d' :: (next ++ (renderRest rest ++ [';', ' ', '\x7d']))) := by
      simp [renderRest_cons]
    have hselector : ∀ c ∈ piece ++ ['#'], endsPiece c = false :=
      List.forall_mem_append.2 ⟨hpiece, by simp; rfl⟩
    rw [hsplit, foundFrom_piece hselector _ (hends rfl), if_pos List.head?_cons, List.nil_append, foundFrom_cons rfl,
      foundFrom_piece hbody _ (hends rfl), if_neg (by rw [List.head?_cons]; decide), foundFrom_cons rfl,
      List.map_append, hshift, ih hnext hrest, List.map_cons, List.map_cons, List.getLastD_cons, List.cons_append,
      List.flatMap_cons]

theorem isChain_renderRest (h : ∀ part ∈ rest, Inert part.1 ∧ Inert part.2) :
    (renderRest rest).IsChain Apart ∧ BeginsApart (renderRest rest) := by
  induction rest with
  | nil => exact ⟨List.isChain_nil, nofun⟩
  | cons part rest ih =>
    obtain ⟨body, piece⟩ := part
    obtain ⟨⟨hbody, hpiece⟩, hrest⟩ := List.forall_mem_cons.1 h
    obtain ⟨hchain, hbegins⟩ := ih hrest
    have hopen := @isChain_separators ['#', '\x7b'] (Text.forall_mem (by decide))
    have hclose := @isChain_singleton '\x7d' rfl
    rw [renderRest_cons]
    refine ⟨?_, fun c hc => Option.some.inj hc ▸ rfl⟩
    have hfront := isChain_append hopen.1 hbody.isChain (.inl hopen.2.2)
    have hbehind := isChain_append (isChain_append hfront hclose.1 (.inr hclose.2.1)) hpiece.isChain
      (.inl (endsApart_concat _ rfl))
    exact isChain_append hbehind hchain (.inr hbegins)

theorem isChain_sheet (hproperty : ∀ c ∈ property, isPropertyChar c = true) (h : value.Valid) :
    (value.sheet property).IsChain Apart := by
  have hrest := isChain_renderRest h.rest
  have hhead := @isChain_separators ['.', 'a', ' ', '\x7b', ' '] (Text.forall_mem (by decide))
  have hcolon := @isChain_separators [':', ' '] (Text.forall_mem (by decide))
  have htail := @isChain_separators [';', ' ', '\x7d'] (Text.forall_mem (by decide))
  have hfront := isChain_append (isChain_append hhead.1 (isChain_property hproperty) (.inl hhead.2.2)) hcolon.1
    (.inr hcolon.2.1)
  have hvalue := isChain_append h.first.isChain hrest.1 (.inr hrest.2)
  have hends : EndsApart (['.', 'a', ' ', '\x7b', ' '] ++ property ++ [':', ' ']) := by
    intro c hc
    rw [List.getLast?_append] at hc
    exact Option.some.inj hc ▸ rfl
  exact isChain_append (isChain_append hfront hvalue (.inl hends)) htail.1 (.inr htail.2.1)

/-- The colours that the scan finds. Without interpolations they are those of the value. -/
theorem find_interpolated (hne : property ≠ []) (hproperty : ∀ c ∈ property, isPropertyChar c = true)
    (h : value.Valid) : (inStylesheet (value.sheet property) 1).map (·.1) =
      if value.rest = [] then find value.first else value.leftovers.flatMap declaredColors := by
  have hsplit : value.sheet property = ([] ++ ['.', 'a'] ++ [' '] ++ ['\x7b']) ++
      ((' ' :: property ++ [':', ' '] ++ value.first) ++ (renderRest value.rest ++ [';', ' ', '\x7d'])) := by
    simp [sheet, render]
  have hpiece : ∀ c ∈ ' ' :: property ++ [':', ' '] ++ value.first, endsPiece c = false := by
    simp only [List.forall_mem_append, List.forall_mem_cons]
    exact ⟨⟨⟨rfl, fun c hc => endsPiece_property (hproperty c hc)⟩, rfl, rfl, nofun⟩, h.first.endsNone⟩
  have hrest : ∀ part ∈ value.rest, (∀ c ∈ part.1, endsPiece c = false) ∧ ∀ c ∈ part.2, endsPiece c = false :=
    fun part hpart => ⟨(h.rest part hpart).1.endsNone, (h.rest part hpart).2.endsNone⟩
  have hselector : Inert ['.', 'a'] := by decide
  rw [inStylesheet_eq (isChain_sheet hproperty h), List.map_map]
  show (foundFrom 0 (value.sheet property)).map (·.2) = _
  rw [hsplit, foundFrom_selector (by decide) hselector (by decide), map_foundFrom hpiece hrest, leftovers]
  cases hparts : value.rest with
  | nil =>
    have hvalue := @colorsOfPiece_declaration [' '] property [] (by decide) hne hproperty (by decide)
      (' ' :: value.first)
    have hpadded := @locate_padded [' '] [] value.first (by decide) (by decide)
    rw [List.append_nil] at hpadded
    rw [if_pos rfl]
    rw [List.map_nil, List.map_nil, List.nil_append, List.getLastD_nil, List.flatMap_singleton]
    rw [← map_colorsOfPiece]
    have hshape : ' ' :: property ++ [':', ' '] ++ value.first =
        [' '] ++ (property ++ ([] ++ ':' :: ' ' :: value.first)) := by
      simp
    rw [hshape, hvalue, List.map_map]
    show (locate ([' '] ++ value.first)).map (·.2) = _
    rw [hpadded, List.map_map, find]
    rfl
  | cons part rest =>
    rw [if_neg (List.cons_ne_nil _ _)]
    simp only [List.map_cons, List.getLastD_cons]

/-- A colour in a plain piece of a value is told exactly if the value has no interpolation, or if the colour stands
behind a name and a colon in one of the expressions or behind the last of them. -/
theorem interpolated_told_iff (hne : property ≠ []) (hproperty : ∀ c ∈ property, isPropertyChar c = true)
    (h : value.Valid) (hpiece : piece ∈ value.plainPieces) (hcolor : color ∈ find piece) :
    (∃ line, (color, line) ∈ inFile ".scss" (value.sheet property)) ↔
      value.rest = [] ∨ ∃ leftover ∈ value.leftovers, color ∈ declaredColors leftover := by
  have htold : (∃ line, (color, line) ∈ inFile ".scss" (value.sheet property)) ↔
      color ∈ (inStylesheet (value.sheet property) 1).map (·.1) := by
    simp only [inFile, distinct_eq, List.mem_eraseDups]
    rw [if_neg (by decide), if_neg (by decide), List.mem_map]
    simp only [Prod.exists, exists_and_right, exists_eq_right]
  rw [htold, find_interpolated hne hproperty h]
  by_cases hrest : value.rest = []
  · have hfirst : piece = value.first := by
      rw [plainPieces, hrest, List.map_nil, List.mem_singleton] at hpiece
      exact hpiece
    rw [if_pos hrest]
    exact iff_of_true (hfirst ▸ hcolor) (.inl hrest)
  · rw [if_neg hrest, List.mem_flatMap, or_iff_right hrest]

/-- An expression with a map in it, and a colour behind the expression. -/
def mapValue : Interpolated := ⟨"1px ", [("b: #FFF", " solid #FFF")]⟩

/-- The colour behind the expression is told, since the expression has the same one behind a colon. -/
theorem interpolated_told_iff_mapValue : mapValue.Valid ∧ (" solid #FFF" : Text) ∈ mapValue.plainPieces ∧
    ("#FFF" : Text) ∈ find " solid #FFF" ∧
    ∃ line, (("#FFF" : Text), line) ∈ inFile ".scss" (mapValue.sheet "border") := by
  have hvalid : mapValue.Valid := ⟨by decide, by decide⟩
  have hpiece : (" solid #FFF" : Text) ∈ mapValue.plainPieces := by decide
  have hcolor : ("#FFF" : Text) ∈ find " solid #FFF" := by decide +kernel
  have hproperty : ∀ c ∈ ("border" : Text), isPropertyChar c = true := Text.forall_mem (by decide)
  refine ⟨hvalid, hpiece, hcolor, (interpolated_told_iff (by decide) hproperty hvalid hpiece hcolor).2 (.inr ?_)⟩
  exact ⟨"b: #FFF", by decide, by decide +kernel⟩

/-- A width from an expression, and a colour behind it. -/
def widthValue : Interpolated := ⟨[], [("$w", " #fff")]⟩

/-- The colour between a blank and the end of the value is passed over. -/
theorem color_behind_passed : widthValue.Valid ∧
    widthValue.sheet "p" = (".a \x7b p: #\x7b$w\x7d #fff; \x7d" : Text) ∧
    find " #fff" = ["#fff"] ∧ (" #fff" : Text) ∈ widthValue.plainPieces ∧
    inFile ".scss" (widthValue.sheet "p") = [] := by
  refine ⟨⟨by decide, by decide⟩, by decide, by decide +kernel, by decide, by decide +kernel⟩

end Interpolated

end VerticalSlice.Color
