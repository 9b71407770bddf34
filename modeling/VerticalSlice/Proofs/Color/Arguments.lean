import Mathlib.Data.List.Basic
import VerticalSlice.Proofs.Color.Padding
import VerticalSlice.Proofs.Text.Case

/-!
# Arguments of colours and the normal spelling

Colours are compared without their blanks. Between two arguments a blank may be all that parts them, and then the
normal spelling joins them: `rgb(1 23 4)` and `rgb(12 3 4)` are one colour to the check (`normalize_joins`).

What the normal spelling keeps of a call is the name of the function, the commas and slashes, and between two of
them the characters of the arguments, one behind the other (`IsCall.normalize_eq`). So two calls with the same normal
spelling have the same function, and they have the same arguments exactly if the blanks of both cut these
characters into pieces of the same lengths. That is certain where the arguments are parted by commas and slashes
(`arguments_eq_iff`).
-/

namespace VerticalSlice.Color

variable {text first second : Text} {c : Char}

/-! ## The parts of a call -/

/-- The name of the function that a colour calls. -/
def functionName (color : Text) : Text := color.takeWhile isArgumentChar

/-- What stands between the parentheses. -/
def inside (color : Text) : Text := ((color.dropWhile isArgumentChar).drop 1).dropLast

/-- A comma or a slash. -/
def isMark (c : Char) : Bool := c == ',' || c == '/'

/-- Can the character part two arguments? -/
def isGap (c : Char) : Bool := isMark c || Text.isBlank c

/-- The longest runs of characters between commas, slashes and blanks. -/
def words (text : Text) : List Text := (text.splitOnP isGap).filter fun word => !word.isEmpty

/-- The arguments of the function that a colour calls. -/
def arguments (color : Text) : List Text := words (inside color)

/-- The parts between the commas and slashes. -/
def sections (color : Text) : List Text := (inside color).splitOnP isMark

/-- A comma or a slash stands between any two arguments. -/
def Marked (color : Text) : Prop := ∀ part ∈ sections color, (words part).length ≤ 1

/-- The characters that numbers and percentages are made of. -/
def isNumeric (c : Char) : Bool := c.isDigit || ['+', '-', '.', 'e', 'E', '%'].contains c

instance (color : Text) : Decidable (Marked color) :=
  inferInstanceAs (Decidable (∀ part ∈ sections color, (words part).length ≤ 1))

/-! ## Splitting -/

theorem splitOnP_cons_of_pos {p : Char → Bool} (hc : p c = true) (rest : Text) :
    (c :: rest).splitOnP p = [] :: rest.splitOnP p := by
  rw [List.splitOnP_cons_eq_if_modifyHead, if_pos hc]

/-- A character that does not split belongs to the first piece. -/
theorem splitOnP_cons_of_neg {p : Char → Bool} (hc : p c = false) (rest : Text) : ∃ piece pieces,
    rest.splitOnP p = piece :: pieces ∧ (c :: rest).splitOnP p = (c :: piece) :: pieces := by
  obtain ⟨piece, pieces, hpieces⟩ := List.exists_cons_of_ne_nil (List.splitOnP_ne_nil p rest)
  refine ⟨piece, pieces, hpieces, ?_⟩
  rw [List.splitOnP_cons_eq_if_modifyHead, if_neg (by rw [hc]; exact Bool.false_ne_true), hpieces,
    List.modifyHead_cons]

/-- Nothing of a text is lost in its words but what parts them. -/
theorem flatten_words (text : Text) : (words text).flatten = text.filter fun c => !isGap c := by
  have hflatten : ∀ text : Text, (text.splitOnP isGap).flatten = text.filter fun c => !isGap c := by
    intro text
    induction text with
    | nil => rfl
    | cons c rest ih =>
      cases hc : isGap c with
      | true => rw [splitOnP_cons_of_pos hc, List.filter_cons_of_neg (by simp [hc]), ← ih]; rfl
      | false =>
        obtain ⟨piece, pieces, hrest, hsplit⟩ := splitOnP_cons_of_neg hc rest
        rw [hsplit, List.filter_cons_of_pos (by simp [hc]), ← ih, hrest]
        rfl
  rw [← hflatten, words, List.flatten_filter_not_isEmpty]

theorem ne_nil_of_mem_words {word : Text} (h : word ∈ words text) : word ≠ [] := by
  have hne := (List.mem_filter.1 h).2
  rintro rfl
  cases hne

/-- The words of a text are those of the parts between its commas and slashes. -/
theorem words_eq_flatMap (text : Text) : words text = (text.splitOnP isMark).flatMap words := by
  have hsplit : ∀ text : Text, text.splitOnP isGap = (text.splitOnP isMark).flatMap (List.splitOnP isGap) := by
    intro text
    induction text with
    | nil => rfl
    | cons c rest ih =>
      cases hmark : isMark c with
      | true =>
        rw [splitOnP_cons_of_pos hmark, splitOnP_cons_of_pos (by rw [isGap, hmark, Bool.true_or]), ih]
        rfl
      | false =>
        obtain ⟨part, parts, hrest, hmarks⟩ := splitOnP_cons_of_neg hmark rest
        rw [hrest, List.flatMap_cons] at ih
        rw [hmarks, List.flatMap_cons]
        cases hgap : isGap c with
        | true => rw [splitOnP_cons_of_pos hgap, splitOnP_cons_of_pos hgap, ih, List.cons_append]
        | false =>
          obtain ⟨piece, pieces, hpiece, hwhole⟩ := splitOnP_cons_of_neg hgap rest
          obtain ⟨piece', pieces', hpiece', hpart⟩ := splitOnP_cons_of_neg hgap part
          rw [hpiece, hpiece', List.cons_append] at ih
          obtain ⟨rfl, rfl⟩ := List.cons.inj ih
          rw [hwhole, hpart, List.cons_append]
  rw [words, hsplit, List.filter_flatMap]
  rfl

/-! ## The normal spelling -/

theorem toLower_inj {mark : Char} (h : mark.isAlpha = false) (c : Char) : (c.toLower == mark) = (c == mark) := by
  rw [Bool.eq_iff_iff, beq_iff_eq, beq_iff_eq, Text.toLower_eq_iff h]

theorem isMark_toLower (c : Char) : isMark c.toLower = isMark c := by
  rw [isMark, isMark, toLower_inj (by decide), toLower_inj (by decide)]

/-- The text in small letters without its blanks. -/
def folded (text : Text) : Text := (text.filter fun c => !Text.isBlank c).map Char.toLower

/-- The text in small letters without its blanks, commas and slashes. -/
def joined (text : Text) : Text := ((words text).map (List.map Char.toLower)).flatten

theorem joined_eq (text : Text) : joined text = (folded text).filter fun c => !isMark c := by
  rw [joined, ← List.map_flatten, flatten_words, folded, List.filter_map, List.filter_filter]
  congr 2
  funext c
  rw [Function.comp_apply, isMark_toLower, isGap, Bool.not_or]

/-- Folding a text folds the parts between its commas and slashes. -/
theorem splitOnP_folded (text : Text) :
    (folded text).splitOnP isMark = (text.splitOnP isMark).map folded := by
  induction text with
  | nil => rfl
  | cons c rest ih =>
    cases hblank : Text.isBlank c with
    | true =>
      have hskip : ∀ rest, folded (c :: rest) = folded rest := fun rest => by
        rw [folded, List.filter_cons_of_neg (by simp [hblank]), folded]
      have hmark : isMark c = false := by
        have hnot := @Text.of_isBlank (fun c => !isMark c) (by decide +kernel) c hblank
        rwa [Bool.not_eq_true'] at hnot
      obtain ⟨part, parts, hrest, hsplit⟩ := splitOnP_cons_of_neg hmark rest
      rw [hskip, ih, hrest, hsplit, List.map_cons, List.map_cons, hskip]
    | false =>
      have hkeep : ∀ rest, folded (c :: rest) = c.toLower :: folded rest := fun rest => by
        rw [folded, List.filter_cons_of_pos (by simp [hblank]), List.map_cons, folded]
      rw [hkeep]
      cases hmark : isMark c with
      | true =>
        rw [splitOnP_cons_of_pos (by rw [isMark_toLower, hmark]), splitOnP_cons_of_pos hmark, ih]
        rfl
      | false =>
        obtain ⟨part, parts, hrest, hsplit⟩ := splitOnP_cons_of_neg hmark rest
        have hlower : isMark c.toLower = false := by rw [isMark_toLower, hmark]
        obtain ⟨part', parts', hrest', hsplit'⟩ := splitOnP_cons_of_neg hlower (folded rest)
        rw [ih, hrest, List.map_cons] at hrest'
        obtain ⟨rfl, rfl⟩ := List.cons.inj hrest'
        rw [hsplit', hsplit, List.map_cons, hkeep]

/-- The colour calls a function, whose name is in letters of any case, with `body` between the parentheses. -/
structure IsCall (color name body : Text) : Prop where
  spelled : color = name ++ '(' :: (body ++ [')'])
  name_chars : ∀ c ∈ name, Text.LowersAlone c ∧ Text.isWordChar c = true ∧ isArgumentChar c = true
  body_chars : ∀ c ∈ body, isArgumentChar c = true

/-- A colour that is found and has a parenthesis is a call. -/
theorem exists_isCall (h : first ∈ find text) (hcall : '(' ∈ first) :
    IsCall first (functionName first) (inside first) := by
  obtain ⟨⟨offset, color⟩, hfound, rfl⟩ := List.mem_map.1 h
  cases (locate_exact.2 _ _).1 hfound with
  | hex _ _ hdigits =>
    rcases List.mem_cons.1 hcall with heq | hmem
    · exact absurd heq (by decide)
    · exact absurd (hdigits _ hmem) (by decide)
  | @function _ word name body _ _ _ hword hname hbody _ =>
    rw [← mem_functionNames_iff] at hword
    have hletters := forall_of_spells (isLower_of_mem_functionNames hword) hname
    have hparts : (name ++ '(' :: (body ++ [')'])).takeWhile isArgumentChar = name :=
      takeWhile_arguments (fun c hc => (hletters c hc).2) (by decide)
    have hrest : (name ++ '(' :: (body ++ [')'])).dropWhile isArgumentChar = '(' :: (body ++ [')']) := by
      rw [List.dropWhile_append_of_pos fun c hc => (hletters c hc).2]
      rfl
    have hinside : inside (name ++ '(' :: (body ++ [')'])) = body := by
      rw [inside, hrest, List.drop_one, List.tail_cons, List.dropLast_concat]
    rw [functionName, hparts, hinside]
    refine ⟨rfl, fun c hc => ⟨?_, hletters c hc⟩, hbody⟩
    obtain ⟨small, hsmall, hsame⟩ : ∃ small ∈ word, sameLetter small c = true := by
      obtain ⟨i, hi, rfl⟩ := List.getElem_of_mem hc
      have hlength := hname.length_eq
      exact ⟨word[i], List.getElem_mem _, hname.get (by omega) hi⟩
    rw [sameLetter, Bool.or_eq_true, Bool.and_eq_true, beq_iff_eq, beq_iff_eq, beq_iff_eq] at hsame
    rcases hsame with hsame | ⟨-, rfl⟩
    · have halpha := isAlpha_of_toLower (isLower_of_mem_functionNames hword small hsmall) hsame
      exact Text.lowersAlone_ascii (Text.val_lt_of_isAlphanum (by rw [Char.isAlphanum, halpha, Bool.true_or]))
    · -- the long s is a small letter already
      exact ⟨by decide, by decide +kernel⟩

/-- Between the parentheses there are only characters of the arguments and what parts them. -/
theorem lowersAlone_of_mem_inside (hnumbers : ∀ argument ∈ arguments first, ∀ c ∈ argument, isNumeric c = true)
    (hc : c ∈ inside first) (hblank : Text.isBlank c = false) : Text.LowersAlone c := by
  by_cases hgap : isGap c = true
  · rw [isGap, hblank, Bool.or_false, isMark, Bool.or_eq_true, beq_iff_eq, beq_iff_eq] at hgap
    rcases hgap with rfl | rfl <;> exact Text.lowersAlone_ascii (by decide)
  · have hmem : c ∈ (words (inside first)).flatten := by
      rw [flatten_words]
      exact List.mem_filter.2 ⟨hc, by simpa using hgap⟩
    obtain ⟨argument, hargument, hin⟩ := List.mem_flatten.1 hmem
    have hnumeric := hnumbers argument hargument c hin
    rw [isNumeric, Bool.or_eq_true, List.contains_iff_mem] at hnumeric
    refine Text.lowersAlone_ascii ?_
    rcases hnumeric with hdigit | hmark
    · exact Text.val_lt_of_isAlphanum (Text.isAlphanum_iff.2 (.inr hdigit))
    · have hall : ∀ c ∈ ['+', '-', '.', 'e', 'E', '%'], c.val < 128 := Text.forall_mem (by decide)
      exact hall c hmark

/-- The normal spelling of a call keeps the name and the folded arguments. -/
theorem IsCall.normalize_eq {name : Text} (h : IsCall first name (inside first))
    (hnumbers : ∀ argument ∈ arguments first, ∀ c ∈ argument, isNumeric c = true) :
    normalize first = name.map Char.toLower ++ '(' :: (folded (inside first) ++ [')']) := by
  have hname : name.filter (fun c => !Text.isBlank c) = name := by
    refine List.filter_eq_self.2 fun c hc => ?_
    cases hblank : Text.isBlank c with
    | false => rfl
    | true => exact absurd (h.name_chars c hc).2.1 (by rw [(isBlank_facts hblank).1]; exact Bool.false_ne_true)
  have hfilter : first.filter (fun c => !Text.isBlank c) =
      name ++ '(' :: ((inside first).filter (fun c => !Text.isBlank c) ++ [')']) := by
    conv_lhs => rw [h.spelled]
    rw [List.filter_append, hname, List.filter_cons_of_pos (by decide), List.filter_append]
    rfl
  rw [normalize, hfilter, Text.lower_eq_map]
  · simp only [List.map_append, List.map_cons, List.map_nil, folded]
    rfl
  · simp only [List.forall_mem_append, List.forall_mem_cons, List.mem_filter, Bool.not_eq_true']
    exact ⟨fun c hc => (h.name_chars c hc).1, Text.lowersAlone_ascii (by decide),
      fun c hc => lowersAlone_of_mem_inside hnumbers hc.1 hc.2, Text.lowersAlone_ascii (by decide), nofun⟩

theorem IsCall.lower_name {name body : Text} (h : IsCall first name body) :
    Text.lower name = name.map Char.toLower :=
  Text.lower_eq_map fun c hc => (h.name_chars c hc).1

theorem lower_arguments (hnumbers : ∀ argument ∈ arguments first, ∀ c ∈ argument, isNumeric c = true) :
    (arguments first).map Text.lower = (arguments first).map (List.map Char.toLower) := by
  refine List.map_congr_left fun argument hargument => Text.lower_eq_map fun c hc => ?_
  have hin : c ∈ (inside first).filter fun c => !isGap c := by
    rw [← flatten_words]
    exact List.mem_flatten.2 ⟨argument, hargument, hc⟩
  obtain ⟨hinside, hgap⟩ := List.mem_filter.1 hin
  rw [isGap, Bool.not_or, Bool.and_eq_true, Bool.not_eq_true', Bool.not_eq_true'] at hgap
  exact lowersAlone_of_mem_inside hnumbers hinside hgap.2

/-! ## Arguments that blanks part -/

theorem joined_eq_nil_iff {part : Text} : joined part = [] ↔ words part = [] := by
  rw [joined, List.flatten_eq_nil_iff, List.forall_mem_map]
  constructor
  · intro h
    refine List.eq_nil_iff_forall_not_mem.2 fun word hword => ?_
    exact ne_nil_of_mem_words hword (List.map_eq_nil_iff.1 (h word hword))
  · intro h
    rw [h]
    exact nofun

/-- A part with one argument or none is joined to this argument. -/
theorem map_words_of_length_le {part : Text} (h : (words part).length ≤ 1) :
    (words part).map (List.map Char.toLower) = [joined part].filter fun word => !word.isEmpty := by
  match hwords : words part with
  | [] => rw [List.filter_cons_of_neg (by rw [joined_eq_nil_iff.2 hwords]; decide)]; rfl
  | [word] =>
    have hne : joined part ≠ [] := fun hnil => by
      rw [joined_eq_nil_iff.1 hnil] at hwords
      cases hwords
    rw [List.filter_cons_of_pos (by simpa using hne), joined, hwords]
    simp
  | _ :: _ :: _ =>
    rw [hwords] at h
    exact absurd h (by simp)

/-- There are at least as many arguments as parts with an argument, and no more exactly if no part has two. -/
theorem length_words_le_iff (parts : List Text) :
    ((parts.map joined).filter fun word => !word.isEmpty).length ≤ (parts.flatMap words).length ∧
      ((parts.flatMap words).length ≤ ((parts.map joined).filter fun word => !word.isEmpty).length ↔
        ∀ part ∈ parts, (words part).length ≤ 1) := by
  induction parts with
  | nil => simp
  | cons part parts ih =>
    rw [List.map_cons, List.flatMap_cons, List.length_append, List.forall_mem_cons, ← ih.2, List.filter_cons]
    obtain ⟨hle, -⟩ := ih
    have hempty : (joined part).isEmpty = true ↔ (words part).length = 0 := by
      rw [List.isEmpty_iff, joined_eq_nil_iff, List.length_eq_zero_iff]
    by_cases h : (joined part).isEmpty = true
    · rw [h, hempty.1 h]
      simp only [Bool.not_true, Bool.false_eq_true, if_false]
      omega
    · have hpos : (words part).length ≠ 0 := fun hzero => h (hempty.2 hzero)
      rw [Bool.not_eq_true] at h
      rw [h]
      simp only [Bool.not_false, if_true, List.length_cons]
      omega

theorem Marked.map_arguments (h : Marked first) : (arguments first).map (List.map Char.toLower) =
    ((sections first).map joined).filter fun word => !word.isEmpty := by
  have hparts : ∀ parts : List Text, (∀ part ∈ parts, (words part).length ≤ 1) →
      (parts.flatMap words).map (List.map Char.toLower) = (parts.map joined).filter fun word => !word.isEmpty := by
    intro parts hparts
    induction parts with
    | nil => rfl
    | cons part parts ih =>
      rw [List.forall_mem_cons] at hparts
      rw [List.flatMap_cons, List.map_append, map_words_of_length_le hparts.1, ih hparts.2, ← List.filter_append]
      rfl
  rw [arguments, words_eq_flatMap]
  exact hparts _ h

/-- The arguments have no mark among them exactly if there is one for each part with an argument. -/
theorem length_arguments_le_iff : (arguments first).length ≤
    (((sections first).map joined).filter fun word => !word.isEmpty).length ↔ Marked first := by
  rw [arguments, words_eq_flatMap]
  exact (length_words_le_iff _).2

/-- Two calls that are compared as one colour: they call the same function, and they have the same arguments,
whatever the case of the letters, exactly if their arguments have the same lengths one by one. If a comma or a
slash stands between any two arguments of the one, that is so exactly if the same holds of the other. -/
theorem arguments_eq_iff {text' : Text} (hfirst : first ∈ find text) (hsecond : second ∈ find text')
    (hcall : '(' ∈ first) (hcall' : '(' ∈ second)
    (hnumbers : ∀ argument ∈ arguments first, ∀ c ∈ argument, isNumeric c = true)
    (hnumbers' : ∀ argument ∈ arguments second, ∀ c ∈ argument, isNumeric c = true)
    (hsame : normalize first = normalize second) :
    Text.lower (functionName first) = Text.lower (functionName second) ∧
      ((arguments first).map Text.lower = (arguments second).map Text.lower ↔
        (arguments first).map List.length = (arguments second).map List.length) ∧
      (Marked first → ((arguments first).map Text.lower = (arguments second).map Text.lower ↔ Marked second)) := by
  have hone := exists_isCall hfirst hcall
  have hother := exists_isCall hsecond hcall'
  rw [hone.normalize_eq hnumbers, hother.normalize_eq hnumbers'] at hsame
  have hopening : ∀ {color name body : Text}, IsCall color name body → '(' ∉ name.map Char.toLower := by
    intro color name body h hmem
    obtain ⟨c, hc, hlower⟩ := List.mem_map.1 hmem
    rw [Text.toLower_eq_iff (by decide)] at hlower
    subst hlower
    exact absurd (h.name_chars _ hc).2.2 (by decide)
  obtain ⟨hname, hbody⟩ := Text.split_unique (hopening hone) (hopening hother) hsame
  have hfolded : folded (inside first) = folded (inside second) := List.append_cancel_right hbody
  have hsections : (sections first).map joined = (sections second).map joined := by
    have hsplit := congrArg (List.splitOnP isMark) hfolded
    rw [splitOnP_folded, splitOnP_folded] at hsplit
    have hmapped := congrArg (List.map fun part : Text => part.filter fun c => !isMark c) hsplit
    rw [List.map_map, List.map_map] at hmapped
    have heq : joined = (fun part : Text => part.filter fun c => !isMark c) ∘ folded := funext joined_eq
    rw [sections, sections, heq, hmapped]
  have hjoined : joined (inside first) = joined (inside second) := by rw [joined_eq, joined_eq, hfolded]
  rw [lower_arguments hnumbers, lower_arguments hnumbers']
  refine ⟨by rw [hone.lower_name, hother.lower_name, hname], ?_, fun hmarked => ?_⟩
  · have hlengths : ∀ color, (arguments color).map List.length =
        ((arguments color).map (List.map Char.toLower)).map List.length := by
      intro color
      rw [List.map_map]
      exact List.map_congr_left fun _ _ => (List.length_map _).symm
    rw [hlengths first, hlengths second, List.eq_iff_flatten_eq]
    exact and_iff_right hjoined
  · constructor
    · intro harguments
      rw [← length_arguments_le_iff, ← hsections, ← hmarked.map_arguments, harguments, List.length_map]
    · intro hmarked'
      rw [hmarked.map_arguments, hmarked'.map_arguments, hsections]

/-- Two ways to write one colour have the same arguments. -/
theorem arguments_eq_iff_spaced :
    ("RGBA(1, 2E1% / .5)" : Text) ∈ find "RGBA(1, 2E1% / .5)" ∧
    ("rgba( 1,2e1%/.5 )" : Text) ∈ find "a rgba( 1,2e1%/.5 )" ∧
    normalize "RGBA(1, 2E1% / .5)" = normalize "rgba( 1,2e1%/.5 )" ∧
    Marked "RGBA(1, 2E1% / .5)" ∧ Marked "rgba( 1,2e1%/.5 )" ∧
    (arguments "RGBA(1, 2E1% / .5)").map Text.lower = (arguments "rgba( 1,2e1%/.5 )").map Text.lower := by
  have hfirst : ("RGBA(1, 2E1% / .5)" : Text) ∈ find "RGBA(1, 2E1% / .5)" := by decide +kernel
  have hsecond : ("rgba( 1,2e1%/.5 )" : Text) ∈ find "a rgba( 1,2e1%/.5 )" := by decide +kernel
  have hsame : normalize "RGBA(1, 2E1% / .5)" = normalize "rgba( 1,2e1%/.5 )" := by decide +kernel
  have hmarked : Marked "RGBA(1, 2E1% / .5)" := by decide +kernel
  have hmarked' : Marked "rgba( 1,2e1%/.5 )" := by decide +kernel
  refine ⟨hfirst, hsecond, hsame, hmarked, hmarked', ?_⟩
  have hnumbers : ((arguments "RGBA(1, 2E1% / .5)").all fun argument => argument.all isNumeric) = true := by
    decide +kernel
  have hnumbers' : ((arguments "rgba( 1,2e1%/.5 )").all fun argument => argument.all isNumeric) = true := by
    decide +kernel
  simp only [List.all_eq_true] at hnumbers hnumbers'
  exact ((arguments_eq_iff hfirst hsecond (by decide) (by decide) hnumbers hnumbers' hsame).2.2 hmarked).2 hmarked'

/-- Arguments that only blanks part are joined in the normal spelling, and so two colours with other arguments are
compared as one. -/
theorem normalize_joins :
    ("rgb(1 23 4)" : Text) ∈ find "rgb(1 23 4)" ∧ ("rgb(12 3 4)" : Text) ∈ find "rgb(12 3 4)" ∧
    arguments "rgb(1 23 4)" = ["1", "23", "4"] ∧ arguments "rgb(12 3 4)" = ["12", "3", "4"] ∧
    normalize "rgb(1 23 4)" = normalize "rgb(12 3 4)" ∧
    (arguments "rgb(1 23 4)").map Text.lower ≠ (arguments "rgb(12 3 4)").map Text.lower := by
  decide +kernel

end VerticalSlice.Color
