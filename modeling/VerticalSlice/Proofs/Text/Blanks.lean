import VerticalSlice.Text.Blank

/-!
# Texts of blanks

There are few blanks, and so what is said of all of them is found out by going through them
(`of_isBlank`). A text is what is left of it between blanks at its ends (`exists_trim`), and what neither
begins nor ends with a blank is left (`trim_append`).
-/

namespace VerticalSlice.Text

/-- The code points of the blanks. -/
def blankCodes : List Nat :=
  [9, 10, 11, 12, 13, 28, 29, 30, 31, 32, 0x85, 0xa0, 0x1680, 0x2000, 0x2001, 0x2002, 0x2003, 0x2004,
    0x2005, 0x2006, 0x2007, 0x2008, 0x2009, 0x200a, 0x2028, 0x2029, 0x202f, 0x205f, 0x3000]

/-- What holds of the blanks one by one holds of each of them. -/
theorem of_isBlank {p : Char → Bool} (h : (blankCodes.all fun code => p (Char.ofNat code)) = true)
    {c : Char} (hc : isBlank c = true) : p c = true := by
  have hcode : c.toNat ∈ blankCodes := by
    simp only [isBlank, Bool.or_eq_true, Bool.and_eq_true, decide_eq_true_eq, beq_iff_eq] at hc
    simp only [blankCodes, List.mem_cons, List.not_mem_nil, or_false]
    omega
  have hp := List.all_eq_true.1 h _ hcode
  rwa [Char.ofNat_toNat] at hp

/-- Does the text consist of blanks? -/
def Blank (text : Text) : Prop := ∀ c ∈ text, isBlank c = true

instance : DecidablePred Blank := fun text =>
  decidable_of_iff (text.all isBlank = true) List.all_eq_true

/-! ## Blanks at the ends -/

variable {inner lead trail : Text}

theorem exists_trim (text : Text) :
    ∃ lead trail, Blank lead ∧ Blank trail ∧ text = lead ++ (trim text ++ trail) := by
  have hblank : ∀ text : Text, Blank (text.takeWhile isBlank) := fun text =>
    List.all_eq_true.1 List.all_takeWhile
  refine ⟨text.takeWhile isBlank, ((text.dropWhile isBlank).reverse.takeWhile isBlank).reverse, hblank _,
    fun c hc => hblank _ c (List.mem_reverse.1 hc), ?_⟩
  rw [trim, ← List.reverse_append, List.takeWhile_append_dropWhile, List.reverse_reverse,
    List.takeWhile_append_dropWhile]

/-- What neither begins nor ends with a blank is left. -/
theorem trim_append (hlead : Blank lead) (htrail : Blank trail) (hfirst : ∀ c ∈ inner.head?, isBlank c = false)
    (hlast : ∀ c ∈ inner.getLast?, isBlank c = false) (hne : inner ≠ []) :
    trim (lead ++ (inner ++ trail)) = inner := by
  have hstays : ∀ text rest : Text, text ≠ [] → (∀ c ∈ text.head?, isBlank c = false) →
      (text ++ rest).dropWhile isBlank = text ++ rest := by
    intro text rest hne hhead
    obtain ⟨c, tail, rfl⟩ := List.exists_cons_of_ne_nil hne
    rw [List.cons_append, List.dropWhile_cons, hhead c rfl]
    rfl
  have hback : ∀ c ∈ trail.reverse, isBlank c = true := fun c hc => htrail c (List.mem_reverse.1 hc)
  rw [trim, List.dropWhile_append_of_pos hlead, hstays inner trail hne hfirst, List.reverse_append,
    List.dropWhile_append_of_pos hback]
  have hinner := hstays inner.reverse [] (by simpa using hne) (by simpa using hlast)
  rw [List.append_nil] at hinner
  rw [hinner, List.reverse_reverse]

end VerticalSlice.Text
