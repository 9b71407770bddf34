import VerticalSlice.Feature.Name
import VerticalSlice.Proofs.Text.Case

/-!
# The spellings of an accepted name

However an accepted name is written, its spellings are plain: small letters, digits and hyphens in
the spelling for files, letters and digits in the one for classes, capital letters, digits and
underscores in the one for constants. Each begins with a letter.
-/

namespace VerticalSlice

namespace FeatureName

/-! ## Characters -/

/-- Can the character stand in the spelling for files? -/
def isKebabChar (c : Char) : Bool := c.isLower || c.isDigit || c == '-'

/-- Can the character stand in the spelling for constants? -/
def isConstChar (c : Char) : Bool := c.isUpper || c.isDigit || c == '_'

theorem isKebabChar_toLower {c : Char} (h : (c.isAlphanum || c == '-') = true) :
    isKebabChar c.toLower = true := by
  have hlt : c.val < 128 := by
    rw [Bool.or_eq_true, beq_iff_eq] at h
    rcases h with h | rfl
    · exact Text.val_lt_of_isAlphanum h
    · decide
  have hall := Text.forall_ascii (p := fun c => !(c.isAlphanum || c == '-') || isKebabChar c.toLower)
    (by decide) hlt
  simpa [h] using hall

theorem val_lt_of_isKebabChar {c : Char} (h : isKebabChar c = true) : c.val < 128 := by
  simp only [isKebabChar, Bool.or_eq_true, beq_iff_eq] at h
  rcases h with (h | h) | rfl
  · exact Text.val_lt_of_isAlphanum (Text.isAlphanum_iff.2 (.inl (.inr h)))
  · exact Text.val_lt_of_isAlphanum (Text.isAlphanum_iff.2 (.inr h))
  · decide

/-- The character of the spelling for constants in the place of one of the spelling for files. -/
def constChar (c : Char) : Char := if c.toUpper = '-' then '_' else c.toUpper

theorem isConstChar_constChar {c : Char} (h : isKebabChar c = true) :
    isConstChar (constChar c) = true := by
  have hall := Text.forall_ascii (p := fun c => !isKebabChar c || isConstChar (constChar c))
    (by decide) (val_lt_of_isKebabChar h)
  simpa [h] using hall

theorem isAlphanum_of_isKebabChar {c : Char} (h : isKebabChar c = true) (hne : c ≠ '-') :
    c.isAlphanum = true ∧ c.toUpper.isAlphanum = true := by
  have hall := Text.forall_ascii
    (p := fun c => !isKebabChar c || c == '-' || (c.isAlphanum && c.toUpper.isAlphanum))
    (by decide) (val_lt_of_isKebabChar h)
  simpa [h, hne] using hall

theorem isUpper_toUpper {c : Char} (h : c.isLower = true) :
    c.toUpper.isUpper = true ∧ c.toUpper ≠ '-' := by
  have hlt : c.val < 128 :=
    Text.val_lt_of_isAlphanum (Text.isAlphanum_iff.2 (.inl (.inr h)))
  have hall := Text.forall_ascii
    (p := fun c => !c.isLower || (c.toUpper.isUpper && c.toUpper != '-')) (by decide) hlt
  simpa [h] using hall

/-! ## From the name to its spellings -/

theorem mem_separateWords {text : Text} {c : Char} (h : c ∈ separateWords text) :
    c ∈ text ∨ c = '-' := by
  fun_induction separateWords text with
  | case1 a b rest _ ih =>
    rcases List.mem_cons.1 h with rfl | h
    · exact .inl (List.mem_cons_self ..)
    · rcases List.mem_cons.1 h with rfl | h
      · exact .inr rfl
      · exact (ih h).imp_left (List.mem_cons_of_mem _)
  | case2 a b rest _ ih =>
    rcases List.mem_cons.1 h with rfl | h
    · exact .inl (List.mem_cons_self ..)
    · exact (ih h).imp_left (List.mem_cons_of_mem _)
  | case3 short _ => exact .inl h

theorem head_separateWords (c : Char) (rest : Text) :
    ∃ more, separateWords (c :: rest) = c :: more := by
  cases rest with
  | nil => exact ⟨[], rfl⟩
  | cons b rest =>
    rw [separateWords]
    split
    · exact ⟨_, rfl⟩
    · exact ⟨_, rfl⟩

theorem mem_hyphenateGaps {inGap : Bool} {text : Text} {c : Char}
    (h : c ∈ hyphenateGaps inGap text) : c ∈ text ∧ isGap c = false ∨ c = '-' := by
  induction text generalizing inGap with
  | nil => cases h
  | cons a rest ih =>
    have hrest : ∀ {inGap}, c ∈ hyphenateGaps inGap rest →
        c ∈ a :: rest ∧ isGap c = false ∨ c = '-' := fun h =>
      (ih h).imp_left fun h => ⟨List.mem_cons_of_mem _ h.1, h.2⟩
    rw [hyphenateGaps] at h
    split at h
    · split at h
      · exact hrest h
      · rcases List.mem_cons.1 h with rfl | h
        · exact .inr rfl
        · exact hrest h
    · next hgap =>
      rcases List.mem_cons.1 h with rfl | h
      · exact .inl ⟨List.mem_cons_self .., by simpa using hgap⟩
      · exact hrest h

/-- The name before its letters are made small: a letter, then letters, digits and hyphens. -/
theorem hyphenated_of_isAccepted {name : Text} (h : isAccepted name = true) :
    ∃ c rest, hyphenateGaps false (separateWords (Text.trim name)) = c :: rest ∧
      c.isAlpha = true ∧ ∀ d ∈ rest, (d.isAlphanum || d == '-') = true := by
  unfold isAccepted at h
  split at h
  · cases h
  · next c rest hname =>
    rw [Bool.and_eq_true] at h
    obtain ⟨more, hmore⟩ := head_separateWords c rest
    have hc : c.isAlphanum = true := by rw [Char.isAlphanum, h.1, Bool.true_or]
    have hgap : isGap c = false := by
      have hall := Text.forall_ascii (p := fun c => !c.isAlpha || !isGap c) (by decide)
        (Text.val_lt_of_isAlphanum hc)
      simpa [h.1] using hall
    rw [hname, hmore, hyphenateGaps, if_neg (by simp [hgap])]
    refine ⟨c, _, rfl, h.1, fun d hd => ?_⟩
    rw [Bool.or_eq_true, beq_iff_eq]
    rcases mem_hyphenateGaps hd with ⟨hd, hgap⟩ | rfl
    · rcases mem_separateWords (hmore ▸ List.mem_cons_of_mem c hd) with hd | rfl
      · rcases List.mem_cons.1 hd with rfl | hd
        · exact .inl hc
        · have hchar := List.all_eq_true.1 h.2 d hd
          simp only [isGap, Bool.or_eq_false_iff, beq_eq_false_iff_ne] at hgap
          simp only [isNameChar, Bool.or_eq_true, beq_iff_eq, hgap, or_false,
            Bool.false_eq_true] at hchar
          exact hchar
      · exact .inr rfl
    · exact .inr rfl

/-- The spelling for files begins with a small letter; small letters, digits and hyphens follow. -/
theorem toKebab_of_isAccepted {name : Text} (h : isAccepted name = true) :
    ∃ c rest, toKebab name = c :: rest ∧ c.isLower = true ∧
      ∀ d ∈ c :: rest, isKebabChar d = true := by
  obtain ⟨c, rest, hname, hc, hrest⟩ := hyphenated_of_isAccepted h
  have hall : ∀ d ∈ c :: rest, (d.isAlphanum || d == '-') = true := by
    intro d hd
    rcases List.mem_cons.1 hd with rfl | hd
    · rw [Char.isAlphanum, hc]
      rfl
    · exact hrest d hd
  have hascii : ∀ d ∈ c :: rest, d.val < 128 := by
    intro d hd
    have := hall d hd
    rw [Bool.or_eq_true, beq_iff_eq] at this
    rcases this with this | rfl
    · exact Text.val_lt_of_isAlphanum this
    · decide
  refine ⟨c.toLower, rest.map Char.toLower, ?_, Text.isLower_toLower hc, ?_⟩
  · rw [toKebab, hname, Text.lower_ascii hascii]
    rfl
  · rw [← List.map_cons]
    intro d hd
    obtain ⟨e, he, rfl⟩ := List.mem_map.1 hd
    exact isKebabChar_toLower (hall e he)

theorem mem_splitOn {text piece : Text} {c : Char} (hpiece : piece ∈ Text.splitOn '-' text)
    (hc : c ∈ piece) : c ∈ text ∧ c ≠ '-' := by
  induction text generalizing piece with
  | nil =>
    rw [Text.splitOn, List.mem_singleton] at hpiece
    rw [hpiece] at hc
    cases hc
  | cons a rest ih =>
    rw [Text.splitOn] at hpiece
    split at hpiece
    · rcases List.mem_cons.1 hpiece with rfl | hpiece
      · cases hc
      · exact (ih hpiece hc).imp_left (List.mem_cons_of_mem _)
    · next hne =>
      split at hpiece
      · rw [List.mem_singleton] at hpiece
        rw [hpiece, List.mem_singleton] at hc
        exact ⟨hc ▸ List.mem_cons_self .., hc ▸ hne⟩
      · next first pieces hpieces =>
        rcases List.mem_cons.1 hpiece with rfl | hpiece
        · rcases List.mem_cons.1 hc with rfl | hc
          · exact ⟨List.mem_cons_self .., hne⟩
          · exact (ih (hpieces ▸ List.mem_cons_self ..) hc).imp_left (List.mem_cons_of_mem _)
        · exact (ih (hpieces ▸ List.mem_cons_of_mem _ hpiece) hc).imp_left
            (List.mem_cons_of_mem _)

theorem head_splitOn {c : Char} (hc : c ≠ '-') (rest : Text) :
    ∃ more pieces, Text.splitOn '-' (c :: rest) = (c :: more) :: pieces := by
  rw [Text.splitOn, if_neg hc]
  split
  · exact ⟨_, _, rfl⟩
  · exact ⟨_, _, rfl⟩

/-- The spelling for classes begins with a capital letter; letters and digits follow. -/
theorem toPascal_of_isAccepted {name : Text} (h : isAccepted name = true) :
    ∃ c rest, toPascal name = c :: rest ∧ c.isUpper = true ∧
      ∀ d ∈ c :: rest, d.isAlphanum = true := by
  obtain ⟨c, rest, hname, hc, hall⟩ := toKebab_of_isAccepted h
  have hcapital : ∀ {piece : Text}, (∀ d ∈ piece, isKebabChar d = true ∧ d ≠ '-') →
      ∀ d ∈ capitalize piece, d.isAlphanum = true := by
    intro piece hpiece d hd
    cases piece with
    | nil => cases hd
    | cons e piece =>
      have he := hpiece e (List.mem_cons_self ..)
      rw [capitalize, Text.upperChar_ascii (val_lt_of_isKebabChar he.1)] at hd
      rcases List.mem_cons.1 hd with rfl | hd
      · exact (isAlphanum_of_isKebabChar he.1 he.2).2
      · have hd' := hpiece d (List.mem_cons_of_mem _ hd)
        exact (isAlphanum_of_isKebabChar hd'.1 hd'.2).1
  have hne : c ≠ '-' := by
    rintro rfl
    cases hc
  obtain ⟨more, pieces, hpieces⟩ := head_splitOn hne rest
  have hlt := val_lt_of_isKebabChar (hall c (List.mem_cons_self ..))
  have heq : toPascal name = c.toUpper :: (more ++ pieces.flatMap capitalize) := by
    rw [toPascal, hname, hpieces, List.flatMap_cons, capitalize, Text.upperChar_ascii hlt]
    rfl
  refine ⟨c.toUpper, more ++ pieces.flatMap capitalize, heq, (isUpper_toUpper hc).1, ?_⟩
  rw [← heq]
  intro d hd
  rw [toPascal, hname] at hd
  obtain ⟨piece, hpiece, hd⟩ := List.mem_flatMap.1 hd
  refine hcapital (fun e he => ?_) d hd
  have := mem_splitOn hpiece he
  exact ⟨hall e this.1, this.2⟩

/-- The spelling for constants is that for files with another character in the place of each. -/
theorem toConst_eq_map {name : Text} (h : isAccepted name = true) :
    toConst name = (toKebab name).map constChar := by
  obtain ⟨c, rest, hname, -, hall⟩ := toKebab_of_isAccepted h
  rw [toConst, hname, Text.upper_ascii fun d hd => val_lt_of_isKebabChar (hall d hd),
    List.map_map]
  rfl

/-- The spelling for constants begins with a capital letter; capitals, digits and underscores
follow. -/
theorem toConst_of_isAccepted {name : Text} (h : isAccepted name = true) :
    ∃ c rest, toConst name = c :: rest ∧ c.isUpper = true ∧
      ∀ d ∈ c :: rest, isConstChar d = true := by
  obtain ⟨c, rest, hname, hc, hall⟩ := toKebab_of_isAccepted h
  have heq := toConst_eq_map h
  rw [hname, List.map_cons, constChar, if_neg (isUpper_toUpper hc).2] at heq
  refine ⟨_, _, heq, (isUpper_toUpper hc).1, fun d hd => ?_⟩
  rcases List.mem_cons.1 hd with rfl | hd
  · simp [isConstChar, (isUpper_toUpper hc).1]
  · obtain ⟨e, he, rfl⟩ := List.mem_map.1 hd
    exact isConstChar_constChar (hall e (List.mem_cons_of_mem _ he))

end FeatureName

end VerticalSlice
