import VerticalSlice.Feature.Registration
import VerticalSlice.Feature.Template
import VerticalSlice.Proofs.Feature.Spelling
import VerticalSlice.Proofs.Syntax.FilledLexemes

/-!
# The outlines of what is written for a feature

The outline of a text with holes is that text with a character for private use in each hole. What is
written for a feature is its outline with the holes filled (`fill_eq_text`), so what is found out about
the outline holds for all features.
-/

namespace VerticalSlice

open Syntax

namespace Feature

/-- The character that stands for a hole. -/
def Hole.mark : Hole → Char
  | .kebab => '\uE000'
  | .route => '\uE001'
  | .pascal => '\uE002'
  | .const => '\uE003'

/-- The text of pieces with a character in each hole. -/
def outline (pieces : List Piece) : Text := fill (fun hole => [hole.mark]) pieces

/-- Are the fixed parts of the pieces without holes? -/
def isPlain (pieces : List Piece) : Bool :=
  pieces.all fun
    | .fixed text => isFilled text
    | .hole _ => true

/-- Can the character stand in the path of a route? -/
def isRouteChar (c : Char) : Bool := c.isAlphanum || (['_', '/', ':', '.', '-'] : Text).contains c

/-- Is the text a proper path of a route? -/
def IsRoute (route : Text) : Prop := route ≠ [] ∧ ∀ c ∈ route, isRouteChar c = true

end Feature

namespace FeatureName

/-- Are these the spellings of an accepted name? -/
def IsSpelling (name : FeatureName) : Prop := ∃ text, ofText? text = some name

theorem IsSpelling.kebab {name : FeatureName} (h : name.IsSpelling) :
    ∃ c rest, name.kebab = c :: rest ∧ c.isLower = true ∧
      ∀ d ∈ c :: rest, isKebabChar d = true := by
  obtain ⟨text, htext⟩ := h
  obtain ⟨haccepted, rfl⟩ := ofText?_eq_some_iff.1 htext
  exact toKebab_of_isAccepted haccepted

theorem IsSpelling.pascal {name : FeatureName} (h : name.IsSpelling) :
    ∃ c rest, name.pascal = c :: rest ∧ c.isUpper = true ∧
      ∀ d ∈ c :: rest, d.isAlphanum = true := by
  obtain ⟨text, htext⟩ := h
  obtain ⟨haccepted, rfl⟩ := ofText?_eq_some_iff.1 htext
  exact toPascal_of_isAccepted haccepted

theorem IsSpelling.const {name : FeatureName} (h : name.IsSpelling) :
    ∃ c rest, name.const = c :: rest ∧ c.isUpper = true ∧
      ∀ d ∈ c :: rest, isConstChar d = true := by
  obtain ⟨text, htext⟩ := h
  obtain ⟨haccepted, rfl⟩ := ofText?_eq_some_iff.1 htext
  exact toConst_of_isAccepted haccepted

end FeatureName

namespace Feature

/-- What the characters of an outline are replaced by. -/
def image (values : Hole → Text) (c : Char) : Text :=
  if c = Hole.kebab.mark then values .kebab
  else if c = Hole.route.mark then values .route
  else if c = Hole.pascal.mark then values .pascal
  else if c = Hole.const.mark then values .const
  else [c]

theorem image_mark (values : Hole → Text) (hole : Hole) : image values hole.mark = values hole := by
  cases hole <;> rfl

theorem isHole_iff {c : Char} : isHole c = true ↔ ∃ hole : Hole, c = hole.mark := by
  constructor
  · intro h
    obtain ⟨hlow, hhigh⟩ := toNat_of_isHole h
    have hcases : c.toNat = 0xe000 ∨ c.toNat = 0xe001 ∨ c.toNat = 0xe002 ∨ c.toNat = 0xe003 := by
      omega
    have hchar : c = Char.ofNat c.toNat := (Char.ofNat_toNat c).symm
    rcases hcases with hn | hn | hn | hn
    · exact ⟨.kebab, by rw [hchar, hn]; rfl⟩
    · exact ⟨.route, by rw [hchar, hn]; rfl⟩
    · exact ⟨.pascal, by rw [hchar, hn]; rfl⟩
    · exact ⟨.const, by rw [hchar, hn]; rfl⟩
  · rintro ⟨hole, rfl⟩
    cases hole <;> decide

theorem image_of_not_hole (values : Hole → Text) {c : Char} (h : isHole c = false) :
    image values c = [c] := by
  have hne : ∀ hole : Hole, c ≠ hole.mark := by
    rintro hole rfl
    rw [isHole_iff.2 ⟨hole, rfl⟩] at h
    cases h
  rw [image, if_neg (hne _), if_neg (hne _), if_neg (hne _), if_neg (hne _)]

/-- The fixed characters of names and routes mean nothing in a literal. -/
theorem isHarmless_of_ascii {p : Char → Bool} (hlt : ∀ c, p c = true → c.val < 128)
    (h : ∀ n < 128, (!p (Char.ofNat n) || isHarmless (Char.ofNat n)) = true) {c : Char}
    (hc : p c = true) : isHarmless c = true := by
  have := Text.forall_ascii (p := fun c => !p c || isHarmless c) h (hlt c hc)
  simpa [hc] using this

theorem val_lt_of_isRouteChar {c : Char} (h : isRouteChar c = true) : c.val < 128 := by
  rw [isRouteChar, Bool.or_eq_true] at h
  rcases h with h | h
  · exact Text.val_lt_of_isAlphanum h
  · have hall : ∀ c ∈ (['_', '/', ':', '.', '-'] : Text), c.val < 128 :=
      Text.forall_mem (by decide)
    exact hall c (by simpa using h)

theorem val_lt_of_isConstChar {c : Char} (h : FeatureName.isConstChar c = true) : c.val < 128 := by
  simp only [FeatureName.isConstChar, Bool.or_eq_true, beq_iff_eq] at h
  rcases h with (h | h) | rfl
  · exact Text.val_lt_of_isAlphanum (Text.isAlphanum_iff.2 (.inl (.inl h)))
  · exact Text.val_lt_of_isAlphanum (Text.isAlphanum_iff.2 (.inr h))
  · decide

/-- The substitution that fills the holes for a feature with this route. -/
def filling (name : FeatureName) (route : Text) (hname : name.IsSpelling) (hroute : IsRoute route) :
    Substitution where
  image := image (holeValues name route)
  image_of_not_hole _ h := image_of_not_hole _ h
  image_ne_nil c := by
    cases h : isHole c with
    | false => rw [image_of_not_hole _ h]; exact List.cons_ne_nil _ _
    | true =>
      obtain ⟨hole, rfl⟩ := isHole_iff.1 h
      rw [image_mark]
      cases hole with
      | kebab =>
        obtain ⟨c, rest, h, -⟩ := hname.kebab
        rw [holeValues, h]
        exact List.cons_ne_nil _ _
      | pascal =>
        obtain ⟨c, rest, h, -⟩ := hname.pascal
        rw [holeValues, h]
        exact List.cons_ne_nil _ _
      | const =>
        obtain ⟨c, rest, h, -⟩ := hname.const
        rw [holeValues, h]
        exact List.cons_ne_nil _ _
      | route => exact hroute.1
  isHarmless_of_mem c h d hd := by
    obtain ⟨hole, rfl⟩ := isHole_iff.1 h
    rw [image_mark] at hd
    cases hole with
    | kebab =>
      obtain ⟨c, rest, h, -, hall⟩ := hname.kebab
      rw [holeValues, h] at hd
      exact isHarmless_of_ascii (fun _ => FeatureName.val_lt_of_isKebabChar) (by decide)
        (hall d hd)
    | pascal =>
      obtain ⟨c, rest, h, -, hall⟩ := hname.pascal
      rw [holeValues, h] at hd
      exact isHarmless_of_ascii (fun _ => Text.val_lt_of_isAlphanum) (by decide)
        (hall d hd)
    | const =>
      obtain ⟨c, rest, h, -, hall⟩ := hname.const
      rw [holeValues, h] at hd
      exact isHarmless_of_ascii (fun _ => val_lt_of_isConstChar) (by decide) (hall d hd)
    | route =>
      exact isHarmless_of_ascii (fun _ => val_lt_of_isRouteChar) (by decide)
        (hroute.2 d hd)
  isNameChar_of_mem c h d hd := by
    obtain ⟨hole, rfl⟩ := isHole_iff.1 (isHole_of_isNameHole h)
    rw [image_mark] at hd
    cases hole with
    | kebab => cases h
    | route => cases h
    | pascal =>
      obtain ⟨c, rest, hvalue, -, hall⟩ := hname.pascal
      rw [holeValues, hvalue] at hd
      simp [isNameChar, hall d hd]
    | const =>
      obtain ⟨c, rest, hvalue, -, hall⟩ := hname.const
      rw [holeValues, hvalue] at hd
      have := hall d hd
      simp only [FeatureName.isConstChar, Bool.or_eq_true, beq_iff_eq] at this
      rcases this with (h | h) | rfl
      · simp [isNameChar, Text.isAlphanum_iff.2 (.inl (.inl h))]
      · simp [isNameChar, Text.isAlphanum_iff.2 (.inr h)]
      · decide
  isCapital_head c h d hd := by
    obtain ⟨hole, rfl⟩ := isHole_iff.1 (isHole_of_isNameHole h)
    rw [image_mark] at hd
    cases hole with
    | kebab => cases h
    | route => cases h
    | pascal =>
      obtain ⟨c, rest, hvalue, hupper, -⟩ := hname.pascal
      rw [holeValues, hvalue] at hd
      rw [← Option.some.inj hd, isCapital, hupper, Bool.true_or]
    | const =>
      obtain ⟨c, rest, hvalue, hupper, -⟩ := hname.const
      rw [holeValues, hvalue] at hd
      rw [← Option.some.inj hd, isCapital, hupper, Bool.true_or]

/-- The name of a feature is a proper path of a route. -/
theorem isRoute_kebab {name : FeatureName} (hname : name.IsSpelling) : IsRoute name.kebab := by
  obtain ⟨c, rest, hkebab, -, hall⟩ := hname.kebab
  refine ⟨by rw [hkebab]; exact List.cons_ne_nil _ _, fun d hd => ?_⟩
  rw [hkebab] at hd
  have hchar := hall d hd
  simp only [FeatureName.isKebabChar, Bool.or_eq_true, beq_iff_eq] at hchar
  rw [isRouteChar, Bool.or_eq_true]
  rcases hchar with (hlower | hdigit) | rfl
  · exact .inl (Text.isAlphanum_iff.2 (.inl (.inr hlower)))
  · exact .inl (Text.isAlphanum_iff.2 (.inr hdigit))
  · exact .inr (by decide)

theorem fill_cons (values : Hole → Text) (piece : Piece) (rest : List Piece) :
    fill values (piece :: rest) = piece.fill values ++ fill values rest := List.flatMap_cons

theorem fill_append (values : Hole → Text) (first second : List Piece) :
    fill values (first ++ second) = fill values first ++ fill values second := List.flatMap_append

/-- The text that is written is the outline with its holes filled. -/
theorem fill_eq_text {name : FeatureName} {route : Text} (hname : name.IsSpelling)
    (hroute : IsRoute route) {pieces : List Piece} (h : isPlain pieces = true) :
    fill (holeValues name route) pieces = (filling name route hname hroute).text (outline pieces) := by
  induction pieces with
  | nil => rfl
  | cons piece rest ih =>
    rw [isPlain, List.all_cons, Bool.and_eq_true] at h
    rw [outline, fill_cons, fill_cons, Substitution.text_append, ← outline, ← ih h.2]
    congr 1
    cases piece with
    | fixed text => exact (Substitution.text_of_isFilled _ h.1).symm
    | hole kind =>
      show holeValues name route kind = (filling name route hname hroute).text [kind.mark]
      rw [Substitution.text_cons, Substitution.text_nil, List.append_nil]
      exact (image_mark _ kind).symm

/-- Without a hole for the route it does not matter what the route is. -/
theorem fill_of_no_route {pieces : List Piece} (h : Piece.hole Hole.route ∉ pieces)
    (name : FeatureName) (route route' : Text) : fill (holeValues name route) pieces = fill (holeValues name route') pieces := by
  induction pieces with
  | nil => rfl
  | cons piece rest ih =>
    rw [List.mem_cons, not_or] at h
    rw [fill_cons, fill_cons, ih h.2]
    congr 1
    cases piece with
    | fixed text => rfl
    | hole kind =>
      cases kind with
      | route => exact absurd rfl h.1
      | kebab => rfl
      | pascal => rfl
      | const => rfl

end Feature

end VerticalSlice
