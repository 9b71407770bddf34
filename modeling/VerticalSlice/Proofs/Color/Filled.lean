import VerticalSlice.Proofs.Color.Colorless
import VerticalSlice.Proofs.Syntax.Substitution

/-!
# Filled texts without colours

What is put into holes has neither a `#` nor a parenthesis nor an asterisk. So a filled text has no
colours if the characters around those of the text with holes leave no room for one, which
`isColorless` finds out.
-/

namespace VerticalSlice

open Syntax

namespace Color

/-- Do the characters just before a place, given nearest first, name no function that gives colours,
whatever is put into holes? -/
def namesNone (before : Text) : Bool :=
  (before.take 4).all (fun c => !isHole c) &&
    functionNames.all fun name => !beginsWithWord name (before.take name.length).reverse

/-- Does no colour and no comment begin from a place on, whatever is put into holes? The characters
before the place are given nearest first. -/
def isColorlessFrom (before : Text) : Text → Bool
  | [] => true
  | c :: rest =>
    c ≠ '*' && (c ≠ '(' || namesNone before) &&
      (c ≠ '#' || !rest.head?.any fun d => isHole d || isHexDigit d) &&
      isColorlessFrom (c :: before) rest

/-- Has the text neither colours nor comments, whatever is put into holes? -/
def isColorless (text : Text) : Bool := isColorlessFrom [] text

theorem isColorlessFrom_append {before first second : Text}
    (h : isColorlessFrom before (first ++ second) = true) :
    isColorlessFrom (first.reverse ++ before) second = true := by
  induction first generalizing before with
  | nil => exact h
  | cons c first ih =>
    rw [List.cons_append, isColorlessFrom, Bool.and_eq_true] at h
    rw [List.reverse_cons, List.append_assoc]
    exact ih h.2

theorem length_of_mem_functionNames {name : Text} (h : name ∈ functionNames) : name.length ≤ 4 := by
  have hall : ∀ name ∈ functionNames, name.length ≤ 4 := by decide
  exact hall name h

theorem beginsWithWord_take {word text : Text} :
    beginsWithWord word (text.take word.length) = beginsWithWord word text := by
  induction word generalizing text with
  | nil => rfl
  | cons letter word ih =>
    cases text with
    | nil => rfl
    | cons c text => rw [List.length_cons, List.take_succ_cons, beginsWithWord, beginsWithWord, ih]

end Color

namespace Syntax.Substitution

open Color

variable (σ : Substitution)

/-- A character that means something stands in a filled text where it stood before the filling. -/
theorem exists_of_text_eq_append {text front rest : Text} {c : Char} (hc : isHarmless c = false)
    (h : σ.text text = front ++ c :: rest) :
    ∃ before after, text = before ++ c :: after ∧ σ.text before = front ∧ σ.text after = rest := by
  induction text generalizing front with
  | nil => cases front <;> cases h
  | cons d text ih =>
    cases hole : isHole d with
    | false =>
      rw [text_cons_of_not_hole σ hole] at h
      cases front with
      | nil =>
        obtain ⟨rfl, rfl⟩ := List.cons.inj h
        exact ⟨[], text, rfl, rfl, rfl⟩
      | cons e front =>
        obtain ⟨rfl, htext⟩ := List.cons.inj h
        obtain ⟨before, after, rfl, hbefore, hafter⟩ := ih htext
        exact ⟨d :: before, after, rfl, by rw [text_cons_of_not_hole σ hole, hbefore], hafter⟩
    | true =>
      rw [text_cons] at h
      -- the place lies behind what is put into the hole
      rcases List.append_eq_append_iff.1 h with ⟨more, rfl, htext⟩ | ⟨more, himage, hrest⟩
      · obtain ⟨before, after, rfl, hbefore, hafter⟩ := ih htext
        exact ⟨d :: before, after, rfl, by rw [text_cons, hbefore], hafter⟩
      · cases more with
        | nil =>
          obtain ⟨before, after, rfl, hbefore, hafter⟩ := @ih [] hrest.symm
          rw [List.append_nil] at himage
          refine ⟨d :: before, after, rfl, ?_, hafter⟩
          rw [text_cons, hbefore, List.append_nil, himage]
        | cons e more =>
          obtain ⟨rfl, -⟩ := List.cons.inj hrest
          rw [σ.isHarmless_of_mem d hole c (by rw [himage]; simp)] at hc
          cases hc

/-- Where no hole is near, the last characters of a filled text are those of the text. -/
theorem reverse_take_text {text : Text} {count : Nat}
    (h : (text.reverse.take count).all (fun c => !isHole c) = true) :
    (σ.text text).reverse.take count = text.reverse.take count := by
  have hsplit : text = (text.reverse.drop count).reverse ++ (text.reverse.take count).reverse := by
    rw [← List.reverse_append, List.take_append_drop, List.reverse_reverse]
  have hlast : σ.text (text.reverse.take count).reverse = (text.reverse.take count).reverse :=
    text_of_isFilled σ (by rw [isFilled, List.all_reverse]; exact h)
  have htext : (σ.text text).reverse =
      text.reverse.take count ++ (σ.text (text.reverse.drop count).reverse).reverse := by
    conv => lhs; rw [hsplit, text_append, hlast, List.reverse_append, List.reverse_reverse]
  rw [htext]
  by_cases hlength : count ≤ text.reverse.length
  · rw [List.take_left' (List.length_take_of_le hlength)]
  · rw [List.drop_of_length_le (by omega), List.reverse_nil, text_nil, List.reverse_nil,
      List.append_nil, List.take_take, Nat.min_self]

variable {σ} in
/-- A filled text has no colours if none begins whatever is put into holes. -/
theorem colorless_text {text : Text} (h : isColorless text = true) : Colorless (σ.text text) := by
  rintro tail ⟨front, hfront⟩
  rw [mayBegin, Bool.or_eq_false_iff]
  constructor
  · unfold opensHex
    split
    · next c rest =>
      obtain ⟨before, after, rfl, -, hafter⟩ :=
        exists_of_text_eq_append σ (by decide) hfront.symm
      have hhere := isColorlessFrom_append h
      rw [isColorlessFrom, Bool.and_eq_true, Bool.and_eq_true] at hhere
      have hhead := hhere.1.2
      cases after with
      | nil => cases hafter
      | cons d after =>
        simp only [ne_eq, not_true_eq_false, decide_false, Bool.false_or, List.head?_cons,
          Option.any_some, Bool.not_eq_true', Bool.or_eq_false_iff] at hhead
        rw [text_cons_of_not_hole σ hhead.1] at hafter
        rw [← (List.cons.inj hafter).1]
        exact hhead.2
    · rfl
  · rw [callsFunction, List.any_eq_false]
    intro name hname hcall
    rw [Bool.and_eq_true, decide_eq_true_eq] at hcall
    obtain ⟨hword, hopen⟩ := hcall
    obtain ⟨rest, hrest⟩ : ∃ rest, tail.drop name.length = '(' :: rest := by
      cases hdrop : tail.drop name.length with
      | nil => rw [hdrop] at hopen; cases hopen
      | cons c rest => exact ⟨rest, by rw [hdrop] at hopen; rw [Option.some.inj hopen]⟩
    have hsplit : σ.text text = (front ++ tail.take name.length) ++ '(' :: rest := by
      rw [← hfront, List.append_assoc, ← hrest, List.take_append_drop]
    obtain ⟨before, after, rfl, hbefore, -⟩ := exists_of_text_eq_append σ (by decide) hsplit
    have hhere := isColorlessFrom_append h
    rw [isColorlessFrom, Bool.and_eq_true, Bool.and_eq_true, Bool.and_eq_true] at hhere
    have hnames := hhere.1.1.2
    simp only [ne_eq, not_true_eq_false, decide_false, Bool.false_or, List.append_nil, namesNone,
      Bool.and_eq_true] at hnames
    -- the word stands at the end of what is before the parenthesis, and no hole is there
    have hlength : (tail.take name.length).length = name.length :=
      List.length_take_of_le (length_le_of_beginsWithWord hword)
    have hnear : (before.reverse.take name.length).all (fun c => !isHole c) = true := by
      rw [List.all_eq_true] at hnames ⊢
      intro c hc
      exact hnames.1 c (List.take_subset_take_left _ (length_of_mem_functionNames hname) hc)
    have hend : before.reverse.take name.length = (tail.take name.length).reverse := by
      rw [← reverse_take_text σ hnear, hbefore, List.reverse_append,
        List.take_left' (by rw [List.length_reverse, hlength])]
    have hnot := List.all_eq_true.1 hnames.2 name hname
    rw [hend, List.reverse_reverse, beginsWithWord_take, hword] at hnot
    cases hnot

variable {σ} in
theorem uncommented_text {text : Text} (h : isColorless text = true) :
    Uncommented (σ.text text) := by
  rintro ⟨front, rest, hfront⟩
  have hsplit : σ.text text = (front ++ ['/']) ++ '*' :: rest := by
    rw [← hfront]
    simp
  obtain ⟨before, after, rfl, -⟩ := exists_of_text_eq_append σ (by decide) hsplit
  have hhere := isColorlessFrom_append h
  rw [isColorlessFrom] at hhere
  simp at hhere

end Syntax.Substitution

end VerticalSlice
