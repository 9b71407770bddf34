import VerticalSlice.Proofs.Syntax.Cutting

/-!
# Putting texts into holes

A text may hold characters that stand for something else: holes. A substitution puts a harmless text
into every hole. What is cut from the text with the holes filled is then what is cut from the text
with the holes, filled (`lexemesFrom_text`), as long as the text is `Tame`: holes stand in literals,
comments and words, and one that stands in a word is for names.

So the lexemes of all the texts that differ in what their holes are filled with are found by cutting
one text, and that is a computation.
-/

namespace VerticalSlice.Syntax

/-! ## Holes -/

/-- Does the character stand for something else? The holes are characters for private use. -/
def isHole (c : Char) : Bool := 0xe000 ≤ c.toNat && c.toNat < 0xe004

/-- Does the character stand for a name that begins with a capital letter? -/
def isNameHole (c : Char) : Bool := 0xe002 ≤ c.toNat && c.toNat < 0xe004

/-- The marks that mean something in a literal or in a comment. -/
def meaningfulChars : Text := ['\'', '"', '`', '\\', '$', '\x7b', '#', '(', '*']

/-- Can the character stand in a literal or in a comment and mean nothing there? -/
def isHarmless (c : Char) : Bool := !isSpace c && !meaningfulChars.contains c

/-- Is the character a capital letter, or a hole? -/
def isCapital (c : Char) : Bool := c.isUpper || isHole c

/-- What is put into the holes of a text. -/
structure Substitution where
  image : Char → Text
  image_of_not_hole : ∀ c, isHole c = false → image c = [c]
  image_ne_nil : ∀ c, image c ≠ []
  isHarmless_of_mem : ∀ c, isHole c = true → ∀ d ∈ image c, isHarmless d = true
  isNameChar_of_mem : ∀ c, isNameHole c = true → ∀ d ∈ image c, isNameChar d = true
  isCapital_head : ∀ c, isNameHole c = true → ∀ d ∈ (image c).head?, isCapital d = true

theorem isHole_of_isNameHole {c : Char} (h : isNameHole c = true) : isHole c = true := by
  simp only [isNameHole, isHole, Bool.and_eq_true, decide_eq_true_eq] at h ⊢
  omega

/-- Is no character of the text a hole? -/
def isFilled (text : Text) : Bool := text.all fun c => !isHole c

/-- Is the text the same before and after the filling, or clearly none of the words that mean
something? These begin with no capital letter. -/
def isSettled (text : Text) : Bool := isFilled text || text.head?.any isNameHole

theorem toNat_of_isHole {c : Char} (h : isHole c = true) : 0xe000 ≤ c.toNat ∧ c.toNat < 0xe004 := by
  simpa [isHole] using h

theorem isHole_eq_false_of_mem_markChars {c : Char} (h : c ∈ markChars) : isHole c = false := by
  have hall : ∀ c ∈ markChars, isHole c = false := Text.forall_mem (by decide)
  exact hall c h

theorem isSpace_eq_false_of_isHole {c : Char} (h : isHole c = true) : isSpace c = false := by
  have hc := toNat_of_isHole h
  simp only [isSpace, Bool.or_eq_false_iff, Bool.and_eq_false_imp, beq_eq_false_iff_ne,
    decide_eq_true_eq, decide_eq_false_iff_not]
  omega

theorem isNameChar_of_isHole {c : Char} (h : isHole c = true) : isNameChar c = true := by
  have hc := toNat_of_isHole h
  have hmark : c ∉ markChars := by
    intro hmem
    rw [isHole_eq_false_of_mem_markChars hmem] at h
    cases h
  have hspace := isSpace_eq_false_of_isHole h
  have hdelete : c.toNat ≠ 0x7f := by omega
  have hlow : 0x20 < c.toNat := by omega
  simp [isNameChar, hspace, hmark, hdelete, hlow]

theorem ne_of_isHole {c d : Char} (hc : isHole c = true) (hd : isHole d = false) : c ≠ d := by
  rintro rfl
  rw [hc] at hd
  cases hd

theorem isDigit_eq_false_of_isHole {c : Char} (h : isHole c = true) : c.isDigit = false := by
  have hc := toNat_of_isHole h
  rw [Char.isDigit, Bool.and_eq_false_imp]
  intro _
  rw [decide_eq_false_iff_not, UInt32.le_iff_toNat_le]
  show ¬c.toNat ≤ 57
  omega

namespace Substitution

variable (σ : Substitution)

/-- The text with its holes filled. -/
def text (text : Text) : Text := text.flatMap σ.image

@[simp] theorem text_nil : σ.text [] = [] := rfl

theorem text_cons (c : Char) (rest : Text) : σ.text (c :: rest) = σ.image c ++ σ.text rest := by
  rw [text, List.flatMap_cons]
  rfl

theorem text_append (first second : Text) :
    σ.text (first ++ second) = σ.text first ++ σ.text second := List.flatMap_append

theorem text_cons_of_not_hole {c : Char} (h : isHole c = false) (rest : Text) :
    σ.text (c :: rest) = c :: σ.text rest := by
  rw [text_cons, σ.image_of_not_hole c h, List.singleton_append]

theorem text_of_isFilled {text : Text} (h : isFilled text = true) : σ.text text = text := by
  induction text with
  | nil => rfl
  | cons c rest ih =>
    rw [isFilled, List.all_cons, Bool.and_eq_true, Bool.not_eq_true'] at h
    rw [text_cons_of_not_hole σ h.1, ih h.2]

theorem text_ne_nil {text : Text} (h : text ≠ []) : σ.text text ≠ [] := by
  obtain ⟨c, rest, rfl⟩ := List.exists_cons_of_ne_nil h
  rw [text_cons]
  exact List.append_ne_nil_of_left_ne_nil (σ.image_ne_nil c) _

theorem text_split (text : Text) (count : Nat) :
    σ.text text = σ.text (text.take count) ++ σ.text (text.drop count) := by
  rw [← text_append, List.take_append_drop]

theorem take_text (text : Text) (count : Nat) :
    (σ.text text).take (σ.text (text.take count)).length = σ.text (text.take count) := by
  rw [σ.text_split text count, List.take_left]

theorem drop_text (text : Text) (count : Nat) :
    (σ.text text).drop (σ.text (text.take count)).length = σ.text (text.drop count) := by
  rw [σ.text_split text count, List.drop_left]

/-- Holes are filled with something that passes where the hole passes, and that does not even begin
to pass where it does not. -/
def Passes (p : Char → Bool) : Prop :=
  ∀ c, isHole c = true →
    (p c = true ∧ ∀ d ∈ σ.image c, p d = true) ∨
      (p c = false ∧ ∀ d ∈ (σ.image c).head?, p d = false)

theorem takeWhile_text {p : Char → Bool} (hp : σ.Passes p) (text : Text) :
    (σ.text text).takeWhile p = σ.text (text.takeWhile p) := by
  induction text with
  | nil => rfl
  | cons c rest ih =>
    rw [List.takeWhile_cons]
    cases hole : isHole c with
    | false =>
      rw [text_cons_of_not_hole σ hole, List.takeWhile_cons]
      split
      · rw [ih, text_cons_of_not_hole σ hole]
      · rfl
    | true =>
      rw [text_cons]
      rcases hp c hole with ⟨hc, hall⟩ | ⟨hc, hhead⟩
      · rw [if_pos hc, text_cons, ← ih, List.takeWhile_append_of_pos hall]
      · rw [if_neg (by simp [hc])]
        obtain ⟨d, ds, hd⟩ := List.exists_cons_of_ne_nil (σ.image_ne_nil c)
        rw [hd] at hhead ⊢
        rw [List.cons_append, List.takeWhile_cons, if_neg (by simp [hhead d rfl])]
        rfl

theorem passes_isSpace : σ.Passes isSpace := by
  intro c hole
  refine .inr ⟨isSpace_eq_false_of_isHole hole, fun d hd => ?_⟩
  have hharmless := σ.isHarmless_of_mem c hole d (List.mem_of_mem_head? hd)
  rw [isHarmless, Bool.and_eq_true, Bool.not_eq_true'] at hharmless
  exact hharmless.1

end Substitution

/-! ## Literals and comments -/

theorem isHarmless_iff {c : Char} :
    isHarmless c = true ↔ isSpace c = false ∧ c ∉ meaningfulChars := by
  simp [isHarmless]

theorem quotedLength?_append {quote : Char} (hquote : quote = '"' ∨ quote = '\'') {escaped : Bool}
    {inside rest : Text} (hne : inside ≠ []) (h : ∀ c ∈ inside, isHarmless c = true) :
    quotedLength? quote false escaped (inside ++ rest) =
      (quotedLength? quote false false rest).map (· + inside.length) := by
  induction inside generalizing escaped with
  | nil => exact absurd rfl hne
  | cons c inside ih =>
    have hc := isHarmless_iff.1 (h c (List.mem_cons_self ..))
    have hquote' : c ≠ quote := by
      rintro rfl
      rcases hquote with rfl | rfl <;> exact absurd hc.2 (by decide)
    have hbackslash : c ≠ '\\' := by
      rintro rfl
      exact absurd hc.2 (by decide)
    have hline : c ≠ '\n' := by
      rintro rfl
      exact absurd hc.1 (by decide)
    have hrest : quotedLength? quote false escaped (c :: inside ++ rest) =
        (quotedLength? quote false false (inside ++ rest)).map (· + 1) := by
      rw [List.cons_append, quotedLength?]
      cases escaped <;> simp [hquote', hbackslash, hline]
    rw [hrest]
    cases inside with
    | nil => rfl
    | cons d inside =>
      rw [ih (List.cons_ne_nil _ _) fun d hd => h d (List.mem_cons_of_mem _ hd), Option.map_map]
      rfl

theorem templateLength_append {escaped : Bool} {inside rest : Text} (hne : inside ≠ [])
    (h : ∀ c ∈ inside, isHarmless c = true) :
    templateLength escaped (inside ++ rest) = templateLength false rest + inside.length := by
  induction inside generalizing escaped with
  | nil => exact absurd rfl hne
  | cons c inside ih =>
    have hc := h c (List.mem_cons_self ..)
    have hrest : templateLength escaped (c :: inside ++ rest) =
        templateLength false (inside ++ rest) + 1 := by
      rw [List.cons_append, templateLength]
      cases escaped with
      | true => rfl
      | false =>
        have hall : ∀ d ∈ (['\\', '`', '$'] : Text), isHarmless d = false :=
          Text.forall_mem (by decide)
        have hne : ∀ d ∈ (['\\', '`', '$'] : Text), c ≠ d := by
          rintro d hd rfl
          rw [hall c hd] at hc
          cases hc
        rw [if_neg Bool.false_ne_true, if_neg (hne _ (by decide)),
          if_neg (by simp [hne '`' (by decide), hne '$' (by decide)])]
    rw [hrest]
    cases inside with
    | nil => rfl
    | cons d inside =>
      rw [ih (List.cons_ne_nil _ _) fun d hd => h d (List.mem_cons_of_mem _ hd), Nat.add_assoc]
      rfl

namespace Substitution

variable (σ : Substitution)

theorem isHarmless_of_isHole {c : Char} (h : isHole c = true) : isHarmless c = true := by
  refine isHarmless_iff.2 ⟨isSpace_eq_false_of_isHole h, fun hmem => ?_⟩
  have hall : ∀ c ∈ meaningfulChars, isHole c = false := Text.forall_mem (by decide)
  rw [hall c hmem] at h
  cases h

theorem quotedLength?_text {quote : Char} (hquote : quote = '"' ∨ quote = '\'') :
    ∀ {text : Text} {escaped : Bool} {length : Nat},
      quotedLength? quote false escaped text = some length →
        quotedLength? quote false escaped (σ.text text) =
          some (σ.text (text.take length)).length := by
  intro text
  induction text with
  | nil => intro escaped length h; simp [quotedLength?] at h
  | cons c rest ih =>
    intro escaped length h
    cases hole : isHole c with
    | true =>
      have hc := isHarmless_of_isHole hole
      have hone : ∀ d ∈ [c], isHarmless d = true := by simpa using hc
      rw [← List.singleton_append, quotedLength?_append hquote (by simp) hone] at h
      obtain ⟨inside, hinside, rfl⟩ := Option.map_eq_some_iff.1 h
      rw [text_cons, quotedLength?_append hquote (σ.image_ne_nil c) (σ.isHarmless_of_mem c hole),
        ih hinside, Option.map_some, List.length_singleton, List.take_succ_cons, text_cons,
        List.length_append, Nat.add_comm]
    | false =>
      have hstep : ∀ {escaped : Bool} {length : Nat},
          (quotedLength? quote false escaped rest).map (· + 1) = some length →
            (quotedLength? quote false escaped (σ.text rest)).map (· + 1) =
              some (σ.text ((c :: rest).take length)).length := by
        intro escaped length h
        obtain ⟨inside, hinside, rfl⟩ := Option.map_eq_some_iff.1 h
        rw [ih hinside, List.take_succ_cons, text_cons_of_not_hole σ hole]
        rfl
      rw [text_cons_of_not_hole σ hole, quotedLength?]
      rw [quotedLength?] at h
      split at h
      · next hescaped => rw [if_pos hescaped]; exact hstep h
      · next hescaped =>
        rw [if_neg hescaped]
        split at h
        · next hend =>
          rw [if_pos hend]
          obtain rfl := Option.some.inj h
          rw [List.take_succ_cons, text_cons_of_not_hole σ hole]
          rfl
        · next hend =>
          rw [if_neg hend]
          split at h
          · next hbackslash => rw [if_pos hbackslash]; exact hstep h
          · next hbackslash =>
            rw [if_neg hbackslash]
            split at h
            · cases h
            · next hline => rw [if_neg hline]; exact hstep h

/-- What is put into a hole begins with no brace, and no hole is one. -/
theorem head?_text_eq_brace (text : Text) :
    decide ((σ.text text).head? = some '\x7b') = decide (text.head? = some '\x7b') := by
  cases text with
  | nil => rfl
  | cons c rest =>
    cases hole : isHole c with
    | false => rw [text_cons_of_not_hole σ hole]; rfl
    | true =>
      obtain ⟨d, image, hd⟩ := List.exists_cons_of_ne_nil (σ.image_ne_nil c)
      have hharmless := σ.isHarmless_of_mem c hole d (hd ▸ List.mem_cons_self ..)
      have hd' : d ≠ '\x7b' := by
        rintro rfl
        exact absurd hharmless (by decide)
      have hc : c ≠ '\x7b' := ne_of_isHole hole (by decide)
      rw [text_cons, hd]
      simp [hd', hc]

theorem templateLength_text :
    ∀ (text : Text) (escaped : Bool),
      templateLength escaped (σ.text text) =
        (σ.text (text.take (templateLength escaped text))).length := by
  intro text
  induction text with
  | nil => intro escaped; simp [templateLength]
  | cons c rest ih =>
    intro escaped
    cases hole : isHole c with
    | true =>
      have hone : ∀ d ∈ [c], isHarmless d = true := by simpa using isHarmless_of_isHole hole
      have hraw : templateLength escaped (c :: rest) = templateLength false rest + 1 :=
        templateLength_append (by simp) hone
      rw [hraw, text_cons, templateLength_append (σ.image_ne_nil c) (σ.isHarmless_of_mem c hole),
        ih, List.take_succ_cons, text_cons, List.length_append, Nat.add_comm]
    | false =>
      have hstep : ∀ escaped, templateLength escaped (σ.text rest) + 1 =
          (σ.text ((c :: rest).take (templateLength escaped rest + 1))).length := by
        intro escaped
        rw [ih, List.take_succ_cons, text_cons_of_not_hole σ hole]
        rfl
      rw [text_cons_of_not_hole σ hole, templateLength, templateLength]
      split
      · exact hstep false
      · split
        · exact hstep true
        · rw [head?_text_eq_brace σ rest]
          split
          · rfl
          · exact hstep false

end Substitution

end VerticalSlice.Syntax
