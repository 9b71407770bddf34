import Mathlib.Data.List.Basic
import VerticalSlice.Proofs.Feature.Holes
import VerticalSlice.Proofs.Path.Written
import VerticalSlice.Proofs.Text.Blanks

/-!
# Conventions for names of several words

A name of several words is written with hyphens or underscores or blanks between the words, or with a
capital letter at the beginning of each, or all in capital letters. However it is written, it is the same
name. What is common to these ways is said by `Composed`: each word stands in some case, and its
neighbours are kept apart, by a separator or by a capital letter behind a small one or a digit. The latter
is why a word has two characters or more: a single letter that is made a capital one would run into the
capital letter of the next word.

Of a composed text the hyphenated form is found word by word (`Composed.hyphenated_eq`), so the words may
be written in any cases with any separators in one and the same name. The main result is
`ofText?_of_spells`, for the usual ways.
-/

namespace VerticalSlice

namespace Text

theorem map_joinWith (f : Char → Char) (glue : Text) (pieces : List Text) :
    (joinWith glue pieces).map f = joinWith (glue.map f) (pieces.map (List.map f)) := by
  match pieces with
  | [] => rfl
  | [piece] => rw [List.map_singleton, joinWith_singleton, joinWith_singleton]
  | piece :: next :: more =>
    rw [joinWith_cons_cons, List.map_append, List.map_append, map_joinWith f glue (next :: more)]
    rfl

end Text

namespace FeatureName

/-! ## Words -/

/-- A word: small letters, then digits, and two characters or more. -/
structure IsWord (word : Text) : Prop where
  exists_parts : ∃ letters digits, word = letters ++ digits ∧ letters ≠ [] ∧
    (∀ c ∈ letters, c.isLower = true) ∧ ∀ c ∈ digits, c.isDigit = true
  two_le : 2 ≤ word.length

theorem isWord_of_takeWhile {word : Text} (h : word.takeWhile Char.isLower ≠ [] ∧
    (word.dropWhile Char.isLower).all Char.isDigit = true ∧ 2 ≤ word.length) : IsWord word :=
  ⟨⟨_, _, List.takeWhile_append_dropWhile.symm, h.1, List.all_eq_true.1 List.all_takeWhile,
    List.all_eq_true.1 h.2.1⟩, h.2.2⟩

/-- The word with a capital first letter. -/
def capitalized : Text → Text
  | [] => []
  | c :: rest => c.toUpper :: rest

/-- The word in capital letters. -/
def capitals (word : Text) : Text := word.map Char.toUpper

/-! ## Ways to write words as one name -/

def kebabCase (words : List Text) : Text := Text.joinWith ['-'] words

def snakeCase (words : List Text) : Text := Text.joinWith ['_'] words

def constantCase (words : List Text) : Text := Text.joinWith ['_'] (words.map capitals)

def pascalCase (words : List Text) : Text := words.flatMap capitalized

def camelCase : List Text → Text
  | [] => []
  | first :: rest => first ++ pascalCase rest

/-- The words with a run of blanks and underscores between neighbours. -/
inductive Spaced : List Text → Text → Prop
  | last (word : Text) : Spaced [word] word
  | more {gap behind : Text} {rest : List Text} (word : Text) (hne : gap ≠ [])
    (hgap : ∀ c ∈ gap, Text.isBlank c = true ∨ c = '_') (hrest : Spaced rest behind) :
    Spaced (word :: rest) (word ++ (gap ++ behind))

/-- The usual ways to write words as one name. -/
inductive Spells (words : List Text) : Text → Prop
  | kebab : Spells words (kebabCase words)
  | snake : Spells words (snakeCase words)
  | constant : Spells words (constantCase words)
  | pascal : Spells words (pascalCase words)
  | camel : Spells words (camelCase words)
  | spaced {text : Text} (h : Spaced words text) : Spells words text

/-- The word in one of its cases. -/
inductive Cased (word : Text) : Text → Prop
  | small : Cased word word
  | title : Cased word (capitalized word)
  | upper : Cased word (capitals word)

/-- A hyphen, or a run of blanks and underscores. -/
def IsSeparator (gap : Text) : Prop := gap = ['-'] ∨ gap ≠ [] ∧ ∀ c ∈ gap, isGap c = true

/-- Is the character one that a capital letter behind it is kept apart from? -/
def isSmall (c : Char) : Bool := c.isLower || c.isDigit

/-- The words in any cases, kept apart by separators and capital letters. -/
inductive Composed : List Text → Text → Prop
  | last {word front : Text} (hfront : Cased word front) : Composed [word] front
  | apart {word front gap behind : Text} {rest : List Text} (hfront : Cased word front)
    (hgap : IsSeparator gap) (hrest : Composed rest behind) :
    Composed (word :: rest) (front ++ (gap ++ behind))
  | joined {word front behind : Text} {rest : List Text} (hfront : Cased word front)
    (hsmall : ∀ c ∈ front.getLast?, isSmall c = true) (hcapital : ∀ c ∈ behind.head?, c.isUpper = true)
    (hrest : Composed rest behind) : Composed (word :: rest) (front ++ behind)

variable {word front behind gap text : Text} {words : List Text} {c : Char}

/-! ## Characters of words -/

theorem isAlphanum_iff_isUpper_or_isSmall : c.isAlphanum = true ↔ c.isUpper = true ∨ isSmall c = true := by
  rw [Text.isAlphanum_iff, isSmall, Bool.or_eq_true, or_assoc]

/-- What holds of the small letters and the digits one by one holds of each of them. -/
theorem of_isSmall {p : Char → Bool} (h : ∀ n < 128, (!isSmall (Char.ofNat n) || p (Char.ofNat n)) = true)
    (hc : isSmall c = true) : p c = true := by
  have hlt := Text.val_lt_of_isAlphanum (isAlphanum_iff_isUpper_or_isSmall.2 (.inr hc))
  have hall := Text.forall_ascii (p := fun c => !isSmall c || p c) h hlt
  rwa [hc, Bool.not_true, Bool.false_or] at hall

theorem isUpper_eq_false_of_isSmall (h : isSmall c = true) : c.isUpper = false := by
  have := of_isSmall (p := fun c => !c.isUpper) (by decide) h
  rwa [Bool.not_eq_true'] at this

theorem toLower_of_isSmall (h : isSmall c = true) : c.toLower = c ∧ c.toUpper.toLower = c := by
  have := of_isSmall (p := fun c => c.toLower == c && c.toUpper.toLower == c) (by decide) h
  rwa [Bool.and_eq_true, beq_iff_eq, beq_iff_eq] at this

theorem isAlphanum_toUpper_of_isSmall (h : isSmall c = true) : c.toUpper.isAlphanum = true :=
  of_isSmall (p := fun c => c.toUpper.isAlphanum) (by decide) h

theorem ne_hyphen_of_isSmall (h : isSmall c = true) : c ≠ '-' ∧ c.toUpper ≠ '-' := by
  have := of_isSmall (p := fun c => c != '-' && c.toUpper != '-') (by decide) h
  rwa [Bool.and_eq_true, bne_iff_ne, bne_iff_ne] at this

/-- In capital letters a letter is no small one, and a digit stays a digit. -/
theorem toUpper_of_isSmall (h : isSmall c = true) :
    (c.isLower = true → isSmall c.toUpper = false) ∧ (c.isDigit = true → c.toUpper.isUpper = false) := by
  have := of_isSmall
    (p := fun c => (!c.isLower || !isSmall c.toUpper) && (!c.isDigit || !c.toUpper.isUpper)) (by decide) h
  rw [Bool.and_eq_true, Bool.or_eq_true, Bool.or_eq_true] at this
  refine ⟨fun hlower => ?_, fun hdigit => ?_⟩
  · simpa [hlower] using this.1
  · simpa [hdigit] using this.2

/-- A letter or a digit may stand in a name, and not between words. -/
theorem facts_of_isAlphanum (h : c.isAlphanum = true) :
    isGap c = false ∧ Text.isBlank c = false ∧ isNameChar c = true := by
  have hall := Text.forall_ascii
    (p := fun c => !c.isAlphanum || (!isGap c && !Text.isBlank c && isNameChar c)) (by decide)
    (Text.val_lt_of_isAlphanum h)
  simpa [h, and_assoc] using hall

/-- What stands between words may stand in a name, and keeps what is around it apart. -/
theorem facts_of_isGap (h : isGap c = true) : c.isUpper = false ∧ isSmall c = false ∧ isNameChar c = true := by
  rw [isGap, Bool.or_eq_true, beq_iff_eq] at h
  rcases h with hblank | rfl
  · have hall := Text.of_isBlank (p := fun c => !c.isUpper && !isSmall c && isNameChar c) (by decide) hblank
    simpa [and_assoc] using hall
  · decide

theorem IsSeparator.facts (h : IsSeparator gap) :
    gap ≠ [] ∧ ∀ c ∈ gap, c.isUpper = false ∧ isSmall c = false ∧ isNameChar c = true := by
  rcases h with rfl | ⟨hne, hall⟩
  · exact ⟨List.cons_ne_nil _ _, Text.forall_mem (by decide)⟩
  · exact ⟨hne, fun c hc => facts_of_isGap (hall c hc)⟩

/-! ## Words in their cases -/

theorem IsWord.isSmall (h : IsWord word) : ∀ c ∈ word, isSmall c = true := by
  obtain ⟨letters, digits, rfl, -, hletters, hdigits⟩ := h.exists_parts
  intro c hc
  rcases List.mem_append.1 hc with hc | hc
  · rw [FeatureName.isSmall, hletters c hc, Bool.true_or]
  · rw [FeatureName.isSmall, hdigits c hc, Bool.or_true]

theorem IsWord.exists_cons (h : IsWord word) : ∃ c d rest, word = c :: d :: rest ∧ c.isLower = true := by
  obtain ⟨letters, digits, rfl, hne, hletters, -⟩ := h.exists_parts
  obtain ⟨c, more, rfl⟩ := List.exists_cons_of_ne_nil hne
  cases hmore : more ++ digits with
  | nil =>
    have htwo := h.two_le
    rw [List.cons_append, hmore, List.length_singleton] at htwo
    omega
  | cons d rest => exact ⟨c, d, rest, by rw [List.cons_append, hmore], hletters c (List.mem_cons_self ..)⟩

/-- The second character is no capital letter behind a small one or a digit. -/
def Apart (first second : Char) : Prop := isSmall first = true → second.isUpper = false

/-- What there is to say of a word in one of its cases: no words are told apart inside it. -/
structure IsPiece (word front : Text) : Prop where
  lower_eq : front.map Char.toLower = word
  isAlphanum : ∀ c ∈ front, c.isAlphanum = true
  pairwise : front.Pairwise Apart
  exists_head : ∃ c rest, front = c :: rest ∧ c.isAlpha = true

theorem pairwise_of_isSmall (h : ∀ c ∈ text, isSmall c = true) : text.Pairwise Apart :=
  List.pairwise_of_forall_mem_list fun _ _ c hc _ => isUpper_eq_false_of_isSmall (h c hc)

theorem IsWord.isPiece (h : IsWord word) : IsPiece word word := by
  obtain ⟨c, d, rest, heq, hc⟩ := h.exists_cons
  refine ⟨?_, fun c hc => isAlphanum_iff_isUpper_or_isSmall.2 (.inr (h.isSmall c hc)),
    pairwise_of_isSmall h.isSmall, c, d :: rest, heq, Bool.or_eq_true_iff.2 (.inr hc)⟩
  exact (List.map_congr_left fun c hc => (toLower_of_isSmall (h.isSmall c hc)).1).trans (List.map_id' word)

theorem IsWord.isPiece_capitalized (h : IsWord word) : IsPiece word (capitalized word) := by
  obtain ⟨c, d, rest, rfl, hc⟩ := h.exists_cons
  have hsmall := List.forall_mem_cons.1 h.isSmall
  obtain ⟨hlower, halnum, -, -⟩ := h.isPiece
  rw [capitalized]
  refine ⟨?_, List.forall_mem_cons.2 ⟨isAlphanum_toUpper_of_isSmall hsmall.1, (List.forall_mem_cons.1 halnum).2⟩,
    List.pairwise_cons.2 ⟨fun e he _ => isUpper_eq_false_of_isSmall (hsmall.2 e he),
      pairwise_of_isSmall hsmall.2⟩, _, _, rfl, ?_⟩
  · rw [List.map_cons, List.cons.injEq] at hlower
    rw [List.map_cons, (toLower_of_isSmall hsmall.1).2, hlower.2]
  · exact Bool.or_eq_true_iff.2 (.inl (isUpper_toUpper hc).1)

theorem IsWord.isPiece_capitals (h : IsWord word) : IsPiece word (capitals word) := by
  refine ⟨?_, List.forall_mem_map.2 fun c hc => isAlphanum_toUpper_of_isSmall (h.isSmall c hc), ?_, ?_⟩
  · rw [capitals, List.map_map]
    exact (List.map_congr_left fun c hc => (toLower_of_isSmall (h.isSmall c hc)).2).trans (List.map_id' word)
  · -- the letters are capital ones, and the digits come behind all of them
    have hsmall := h.isSmall
    obtain ⟨letters, digits, rfl, -, hletters, hdigits⟩ := h.exists_parts
    have hletter : ∀ {c d : Char}, c ∈ letters → Apart c.toUpper d := by
      intro c d hc hsmall'
      rw [(toUpper_of_isSmall (hsmall c (List.mem_append_left _ hc))).1 (hletters c hc)] at hsmall'
      cases hsmall'
    rw [capitals, List.pairwise_map, List.pairwise_append]
    exact ⟨List.pairwise_of_forall_mem_list fun _ hc _ _ => hletter hc,
      List.pairwise_of_forall_mem_list fun _ _ d hd _ =>
        (toUpper_of_isSmall (hsmall d (List.mem_append_right _ hd))).2 (hdigits d hd),
      fun _ hc _ _ => hletter hc⟩
  · obtain ⟨c, d, rest, rfl, hc⟩ := h.exists_cons
    exact ⟨_, _, rfl, Bool.or_eq_true_iff.2 (.inl (isUpper_toUpper hc).1)⟩

theorem Cased.isPiece (hword : IsWord word) (h : Cased word front) : IsPiece word front := by
  cases h with
  | small => exact hword.isPiece
  | title => exact hword.isPiece_capitalized
  | upper => exact hword.isPiece_capitals

/-! ## Words are told apart where they meet -/

/-- What is put between two texts that meet. -/
def joint (front behind : Text) : Text :=
  match front.getLast?, behind.head? with
  | some a, some b => if isSmall a && b.isUpper then ['-'] else []
  | _, _ => []

theorem joint_of_not_isUpper (h : ∀ c ∈ behind.head?, c.isUpper = false) : joint front behind = [] := by
  unfold joint
  split
  · next a b _ hb => rw [h b hb, Bool.and_false, if_neg Bool.false_ne_true]
  · rfl

theorem joint_of_not_isSmall (h : ∀ c ∈ front.getLast?, isSmall c = false) : joint front behind = [] := by
  unfold joint
  split
  · next a b ha _ => rw [h a ha, Bool.false_and, if_neg Bool.false_ne_true]
  · rfl

theorem separateWords_append (hne : front ≠ []) (h : front.Pairwise Apart) :
    separateWords (front ++ behind) = front ++ (joint front behind ++ separateWords behind) := by
  induction front with
  | nil => exact absurd rfl hne
  | cons a front ih =>
    rw [List.pairwise_cons] at h
    cases front with
    | nil =>
      cases behind with
      | nil => rfl
      | cons b behind =>
        show separateWords (a :: b :: behind) =
          a :: ((if isSmall a && b.isUpper then ['-'] else []) ++ separateWords (b :: behind))
        rw [separateWords, isSmall]
        split <;> rfl
    | cons b front =>
      have hapart : ¬((a.isLower || a.isDigit) && b.isUpper) = true := by
        rw [Bool.and_eq_true, not_and, Bool.not_eq_true]
        exact h.1 b (List.mem_cons_self ..)
      have hjoint : joint (a :: b :: front) behind = joint (b :: front) behind := by
        rw [joint, joint, List.getLast?_cons_cons]
      rw [List.cons_append, List.cons_append, separateWords, if_neg hapart, ← List.cons_append,
        ih (List.cons_ne_nil _ _) h.2, hjoint]
      rfl

theorem head?_separateWords (text : Text) : (separateWords text).head? = text.head? := by
  cases text with
  | nil => rfl
  | cons c rest =>
    obtain ⟨more, hmore⟩ := head_separateWords c rest
    rw [hmore]
    rfl

theorem hyphenateGaps_append_solid (hne : front ≠ []) (h : ∀ c ∈ front, isGap c = false) (inGap : Bool) :
    hyphenateGaps inGap (front ++ behind) = front ++ hyphenateGaps false behind := by
  induction front generalizing inGap with
  | nil => exact absurd rfl hne
  | cons c front ih =>
    rw [List.forall_mem_cons] at h
    rw [List.cons_append, hyphenateGaps, if_neg (by rw [h.1]; exact Bool.false_ne_true)]
    cases front with
    | nil => rfl
    | cons d front =>
      rw [ih (List.cons_ne_nil _ _) h.2]
      rfl

theorem hyphenateGaps_true (h : ∀ c ∈ behind.head?, isGap c = false) :
    hyphenateGaps true behind = hyphenateGaps false behind := by
  cases behind with
  | nil => rfl
  | cons c behind => rw [hyphenateGaps, hyphenateGaps, h c rfl]; rfl

theorem hyphenateGaps_true_append (h : ∀ c ∈ gap, isGap c = true) :
    hyphenateGaps true (gap ++ behind) = hyphenateGaps true behind := by
  induction gap with
  | nil => rfl
  | cons c gap ih =>
    rw [List.forall_mem_cons] at h
    rw [List.cons_append, hyphenateGaps, if_pos h.1, if_pos rfl, ih h.2]

/-- A separator becomes one hyphen. -/
theorem hyphenateGaps_append_separator (hgap : IsSeparator gap) (h : ∀ c ∈ behind.head?, isGap c = false) :
    hyphenateGaps false (gap ++ behind) = '-' :: hyphenateGaps false behind := by
  rcases hgap with rfl | ⟨hne, hall⟩
  · rfl
  · obtain ⟨c, gap, rfl⟩ := List.exists_cons_of_ne_nil hne
    rw [List.forall_mem_cons] at hall
    rw [List.cons_append, hyphenateGaps, if_pos hall.1, if_neg Bool.false_ne_true,
      hyphenateGaps_true_append hall.2, hyphenateGaps_true h]

/-- The text with a hyphen between words, before its letters are made small. -/
def hyphenated (text : Text) : Text := hyphenateGaps false (separateWords text)

/-- Behind a word in one of its cases comes what is put where it meets the rest. -/
theorem IsPiece.hyphenated_append (h : IsPiece word front) :
    hyphenated (front ++ behind) = front ++ hyphenateGaps false (joint front behind ++ separateWords behind) := by
  obtain ⟨c, rest, heq, -⟩ := h.exists_head
  have hne : front ≠ [] := heq ▸ List.cons_ne_nil _ _
  rw [hyphenated, separateWords_append hne h.pairwise,
    hyphenateGaps_append_solid hne fun c hc => (facts_of_isAlphanum (h.isAlphanum c hc)).1]

theorem IsPiece.hyphenated_apart (h : IsPiece word front) (hgap : IsSeparator gap)
    (hbehind : ∀ c ∈ behind.head?, isGap c = false) :
    hyphenated (front ++ (gap ++ behind)) = front ++ '-' :: hyphenated behind := by
  obtain ⟨hne, hall⟩ := hgap.facts
  have hhead : ∀ c ∈ (gap ++ behind).head?, c.isUpper = false := by
    obtain ⟨d, gap, rfl⟩ := List.exists_cons_of_ne_nil hne
    exact fun c hc => (hall c (Option.some.inj hc ▸ List.mem_cons_self ..)).1
  have hpair : gap.Pairwise Apart :=
    List.pairwise_of_forall_mem_list fun _ _ d hd _ => (hall d hd).1
  rw [h.hyphenated_append, joint_of_not_isUpper hhead, separateWords_append hne hpair,
    joint_of_not_isSmall fun c hc => (hall c (List.mem_of_getLast? hc)).2.1, List.nil_append, List.nil_append,
    hyphenateGaps_append_separator hgap (by rwa [head?_separateWords])]
  rfl

theorem IsPiece.hyphenated_joined (h : IsPiece word front) (hsmall : ∀ c ∈ front.getLast?, isSmall c = true)
    (hcapital : ∀ c ∈ behind.head?, c.isUpper = true) (hne : behind ≠ []) :
    hyphenated (front ++ behind) = front ++ '-' :: hyphenated behind := by
  obtain ⟨c, rest, hfront, -⟩ := h.exists_head
  obtain ⟨b, more, hbehind⟩ := List.exists_cons_of_ne_nil hne
  have ha : front.getLast? = some (front.getLast (hfront ▸ List.cons_ne_nil _ _)) :=
    List.getLast?_eq_some_getLast _
  have hjoint : joint front behind = ['-'] := by
    have hb := hcapital b (by rw [hbehind]; rfl)
    rw [joint, ha, hbehind, List.head?_cons]
    dsimp only
    rw [hsmall _ ha, hb]
    rfl
  rw [h.hyphenated_append, hjoint]
  rfl

/-! ## Composed names -/

/-- A composed name begins with a letter, ends with a letter or a digit, and has nothing in it that a name may
not have. -/
theorem Composed.isName (h : Composed words text) (hwords : ∀ word ∈ words, IsWord word) :
    (∃ c rest, text = c :: rest ∧ c.isAlpha = true) ∧ (∀ c ∈ text.getLast?, c.isAlphanum = true) ∧
      ∀ c ∈ text, isNameChar c = true := by
  induction h with
  | last hfront =>
    have hpiece := hfront.isPiece (hwords _ (List.mem_cons_self ..))
    exact ⟨hpiece.exists_head, fun c hc => hpiece.isAlphanum c (List.mem_of_getLast? hc),
      fun c hc => (facts_of_isAlphanum (hpiece.isAlphanum c hc)).2.2⟩
  | @apart word front gap behind rest hfront hgap _ ih =>
    rw [List.forall_mem_cons] at hwords
    have hpiece := hfront.isPiece hwords.1
    obtain ⟨⟨c, more, hbehind, -⟩, hlast, hall⟩ := ih hwords.2
    obtain ⟨d, tail, hhead, hd⟩ := hpiece.exists_head
    refine ⟨⟨d, tail ++ (gap ++ behind), by rw [hhead]; rfl, hd⟩, ?_, ?_⟩
    · rw [← List.append_assoc, List.getLast?_append_of_ne_nil _ (hbehind ▸ List.cons_ne_nil _ _)]
      exact hlast
    · intro e he
      rcases List.mem_append.1 he with he | he
      · exact (facts_of_isAlphanum (hpiece.isAlphanum e he)).2.2
      · exact (List.mem_append.1 he).elim (fun he => (hgap.facts.2 e he).2.2) (hall e)
  | @joined word front behind rest hfront _ _ _ ih =>
    rw [List.forall_mem_cons] at hwords
    have hpiece := hfront.isPiece hwords.1
    obtain ⟨⟨c, more, hbehind, -⟩, hlast, hall⟩ := ih hwords.2
    obtain ⟨d, tail, hhead, hd⟩ := hpiece.exists_head
    refine ⟨⟨d, tail ++ behind, by rw [hhead]; rfl, hd⟩, ?_, ?_⟩
    · rw [List.getLast?_append_of_ne_nil _ (hbehind ▸ List.cons_ne_nil _ _)]
      exact hlast
    · intro e he
      exact (List.mem_append.1 he).elim (fun he => (facts_of_isAlphanum (hpiece.isAlphanum e he)).2.2) (hall e)

/-- However the words are composed, in small letters and with hyphens they are the words. -/
theorem Composed.hyphenated_eq (h : Composed words text) (hwords : ∀ word ∈ words, IsWord word) :
    (hyphenated text).map Char.toLower = kebabCase words := by
  have hmore : ∀ {word front behind : Text} {rest : List Text}, IsPiece word front → Composed rest behind →
      (hyphenated behind).map Char.toLower = kebabCase rest →
      (front ++ '-' :: hyphenated behind).map Char.toLower = kebabCase (word :: rest) := by
    intro word front behind rest hpiece hrest heq
    rw [List.map_append, List.map_cons, hpiece.lower_eq, heq]
    cases hrest <;> rfl
  induction h with
  | @last word front hfront =>
    have hpiece := hfront.isPiece (hwords _ (List.mem_cons_self ..))
    have halone := @IsPiece.hyphenated_append word front [] hpiece
    rw [List.append_nil] at halone
    rw [halone, joint_of_not_isUpper (by rintro c ⟨⟩), kebabCase, Text.joinWith_singleton]
    show (front ++ []).map Char.toLower = word
    rw [List.append_nil, hpiece.lower_eq]
  | apart hfront hgap hrest ih =>
    rw [List.forall_mem_cons] at hwords
    have hpiece := hfront.isPiece hwords.1
    obtain ⟨⟨c, more, hbehind, hc⟩, -, -⟩ := hrest.isName hwords.2
    have hhead : ∀ d, d ∈ (c :: more).head? → isGap d = false := by
      intro d hd
      obtain rfl := Option.some.inj hd
      exact (facts_of_isAlphanum (Bool.or_eq_true_iff.2 (.inl hc))).1
    rw [hpiece.hyphenated_apart hgap (hbehind ▸ hhead), hmore hpiece hrest (ih hwords.2)]
  | joined hfront hsmall hcapital hrest ih =>
    rw [List.forall_mem_cons] at hwords
    have hpiece := hfront.isPiece hwords.1
    obtain ⟨⟨c, more, hbehind, -⟩, -, -⟩ := hrest.isName hwords.2
    rw [hpiece.hyphenated_joined hsmall hcapital (hbehind ▸ List.cons_ne_nil _ _),
      hmore hpiece hrest (ih hwords.2)]

/-! ## The usual ways are composed -/

theorem composed_joinWith {f : Text → Text} (hgap : IsSeparator gap) (hf : ∀ word, Cased word (f word))
    (hne : words ≠ []) : Composed words (Text.joinWith gap (words.map f)) := by
  induction words with
  | nil => exact absurd rfl hne
  | cons word rest ih =>
    cases rest with
    | nil => exact (Text.joinWith_singleton gap (f word)).symm ▸ .last (hf word)
    | cons next more => exact .apart (hf word) hgap (ih (List.cons_ne_nil _ _))

/-- Every word behind the first with a capital first letter. -/
theorem composed_append_pascalCase {rest : List Text} (hfront : Cased word front)
    (hsmall : ∀ c ∈ front.getLast?, isSmall c = true) (hrest : ∀ word ∈ rest, IsWord word) :
    Composed (word :: rest) (front ++ pascalCase rest) := by
  induction rest generalizing word front with
  | nil => exact (List.append_nil front).symm ▸ .last hfront
  | cons next more ih =>
    rw [List.forall_mem_cons] at hrest
    have hnext := hrest.1.isSmall
    obtain ⟨c, d, tail, rfl, hc⟩ := hrest.1.exists_cons
    refine .joined hfront hsmall ?_ (ih .title ?_ hrest.2)
    · intro e he
      obtain rfl := Option.some.inj he
      exact (isUpper_toUpper hc).1
    · -- behind the capital letter there is another character of the word
      intro e he
      rw [capitalized, List.getLast?_cons_cons] at he
      exact hnext e (List.mem_cons_of_mem _ (List.mem_of_getLast? he))

theorem Spaced.composed (h : Spaced words text) : Composed words text := by
  induction h with
  | last word => exact .last .small
  | more word hne hgap _ ih =>
    refine .apart .small (.inr ⟨hne, fun c hc => ?_⟩) ih
    rw [isGap, Bool.or_eq_true, beq_iff_eq]
    exact hgap c hc

theorem Spells.composed (h : Spells words text) (hwords : ∀ word ∈ words, IsWord word) (hne : words ≠ []) :
    Composed words text := by
  have hunderscore : IsSeparator ['_'] := .inr ⟨List.cons_ne_nil _ _, Text.forall_mem (by decide)⟩
  have hsmall : ∀ {gap : Text}, IsSeparator gap → Composed words (Text.joinWith gap words) := by
    intro gap hgap
    have hcomposed := composed_joinWith (f := fun word => word) hgap (fun _ => .small) hne
    rwa [List.map_id'] at hcomposed
  cases h with
  | kebab => exact hsmall (.inl rfl)
  | snake => exact hsmall hunderscore
  | constant => exact composed_joinWith hunderscore (fun _ => .upper) hne
  | pascal =>
    obtain ⟨word, rest, rfl⟩ := List.exists_cons_of_ne_nil hne
    rw [List.forall_mem_cons] at hwords
    have hsmall := hwords.1.isSmall
    obtain ⟨c, d, tail, rfl, -⟩ := hwords.1.exists_cons
    refine composed_append_pascalCase .title (fun e he => ?_) hwords.2
    rw [capitalized, List.getLast?_cons_cons] at he
    exact hsmall e (List.mem_cons_of_mem _ (List.mem_of_getLast? he))
  | camel =>
    obtain ⟨word, rest, rfl⟩ := List.exists_cons_of_ne_nil hne
    rw [List.forall_mem_cons] at hwords
    exact composed_append_pascalCase .small (fun e he => hwords.1.isSmall e (List.mem_of_getLast? he)) hwords.2
  | spaced hspaced => exact hspaced.composed

/-! ## The three spellings -/

/-- A composed name is accepted with blanks around it, which are left out. -/
theorem Composed.isAccepted (h : Composed words text) (hwords : ∀ word ∈ words, IsWord word) {lead trail : Text}
    (hlead : Text.Blank lead) (htrail : Text.Blank trail) :
    FeatureName.isAccepted (lead ++ (text ++ trail)) = true ∧ Text.trim (lead ++ (text ++ trail)) = text := by
  obtain ⟨⟨c, rest, htext, hc⟩, hlast, hall⟩ := h.isName hwords
  have htrim : Text.trim (lead ++ (text ++ trail)) = text := by
    refine Text.trim_append hlead htrail (fun d hd => ?_)
      (fun d hd => (facts_of_isAlphanum (hlast d hd)).2.1) (htext ▸ List.cons_ne_nil _ _)
    rw [htext] at hd
    obtain rfl := Option.some.inj hd
    exact (facts_of_isAlphanum (Bool.or_eq_true_iff.2 (.inl hc))).2.1
  refine ⟨?_, htrim⟩
  rw [FeatureName.isAccepted, htrim, htext]
  rw [htext, List.forall_mem_cons] at hall
  exact Bool.and_eq_true_iff.2 ⟨hc, List.all_eq_true.2 hall.2⟩

/-- The spelling for files is the words joined by hyphens. -/
theorem Composed.toKebab_eq (h : Composed words text) (hwords : ∀ word ∈ words, IsWord word) {name : Text}
    (hname : FeatureName.isAccepted name = true) (htrim : Text.trim name = text) :
    toKebab name = kebabCase words := by
  obtain ⟨c, rest, heq, hc, hrest⟩ := hyphenated_of_isAccepted hname
  have hascii : ∀ d ∈ c :: rest, d.val < 128 := by
    have hc' : (c.isAlphanum || c == '-') = true := by rw [Char.isAlphanum, hc]; rfl
    refine List.forall_mem_cons.2 ⟨?_, fun d hd => ?_⟩
    · exact Text.val_lt_of_isAlphanum (Bool.or_eq_true_iff.2 (.inl hc))
    · rcases Bool.or_eq_true_iff.1 (hrest d hd) with hd | hd
      · exact Text.val_lt_of_isAlphanum hd
      · exact beq_iff_eq.1 hd ▸ by decide
  rw [toKebab, heq, Text.lower_ascii hascii, ← heq, htrim]
  exact h.hyphenated_eq hwords

/-- The spelling for classes is the words with capital first letters. -/
theorem flatMap_capitalize_kebabCase (hwords : ∀ word ∈ words, IsWord word) (hne : words ≠ []) :
    (Text.splitOn '-' (kebabCase words)).flatMap capitalize = pascalCase words := by
  have hsplit : Text.splitOn '-' (kebabCase words) = words :=
    Text.splitOn_joinWith hne fun word hword hmem =>
      (ne_hyphen_of_isSmall ((hwords word hword).isSmall _ hmem)).1 rfl
  rw [hsplit]
  refine List.flatMap_congr fun word hword => ?_
  obtain ⟨c, d, rest, rfl, hc⟩ := (hwords word hword).exists_cons
  rw [capitalize, capitalized,
    Text.upperChar_ascii (Text.val_lt_of_isAlphanum (Text.isAlphanum_iff.2 (.inl (.inr hc))))]
  rfl

/-- The spelling for constants is the words in capital letters joined by underscores. -/
theorem map_constChar_kebabCase (hwords : ∀ word ∈ words, IsWord word) :
    (kebabCase words).map constChar = constantCase words := by
  rw [kebabCase, Text.map_joinWith, constantCase]
  refine congrArg (Text.joinWith ['_']) (List.map_congr_left fun word hword => ?_)
  refine List.map_congr_left fun c hc => ?_
  rw [constChar, if_neg (ne_hyphen_of_isSmall ((hwords word hword).isSmall c hc)).2]

/-- **The usual ways to write a name of several words are the same name**: written with hyphens or
underscores or runs of blanks, with capital first letters or all in capital letters, and with blanks around
it, it is accepted, and its three spellings are those of the words. -/
theorem ofText?_of_spells (hne : words ≠ []) (hwords : ∀ word ∈ words, IsWord word) (h : Spells words text)
    {lead trail : Text} (hlead : Text.Blank lead) (htrail : Text.Blank trail) :
    ofText? (lead ++ (text ++ trail)) =
      some ⟨kebabCase words, pascalCase words, constantCase words⟩ := by
  have hcomposed := h.composed hwords hne
  obtain ⟨hname, htrim⟩ := hcomposed.isAccepted hwords hlead htrail
  have hkebab := hcomposed.toKebab_eq hwords hname htrim
  refine ofText?_eq_some_iff.2 ⟨hname, ?_⟩
  rw [spell, toPascal, toConst_eq_map hname, hkebab, flatMap_capitalize_kebabCase hwords hne,
    map_constChar_kebabCase hwords]

/-- The name of a new feature, its words kept apart by several blanks and by an underscore. -/
theorem ofText?_user_p2_profile :
    ["user".toList, "p2".toList, "profile".toList] ≠ [] ∧
      (∀ word ∈ ["user".toList, "p2".toList, "profile".toList], IsWord word) ∧
      Spells ["user".toList, "p2".toList, "profile".toList] "user _\tp2_profile".toList ∧
      Text.Blank "\n ".toList ∧ Text.Blank " ".toList ∧
      ofText? ("\n ".toList ++ ("user _\tp2_profile".toList ++ " ".toList)) =
        some ⟨"user-p2-profile".toList, "UserP2Profile".toList, "USER_P2_PROFILE".toList⟩ := by
  have hwords : ∀ word ∈ ["user".toList, "p2".toList, "profile".toList], IsWord word :=
    fun word hword => isWord_of_takeWhile (by revert word; decide)
  have hspells : Spells ["user".toList, "p2".toList, "profile".toList] "user _\tp2_profile".toList := by
    have hlast : Spaced ["p2".toList, "profile".toList] ("p2".toList ++ (['_'] ++ "profile".toList)) :=
      .more _ (by decide) (Text.forall_mem (by decide)) (.last _)
    exact .spaced (.more "user".toList (show " _\t".toList ≠ [] by decide) (Text.forall_mem (by decide)) hlast)
  have hlead : Text.Blank "\n ".toList := by decide
  have htrail : Text.Blank " ".toList := by decide
  exact ⟨by decide, hwords, hspells, hlead, htrail, ofText?_of_spells (by decide) hwords hspells hlead htrail⟩

end FeatureName

end VerticalSlice
