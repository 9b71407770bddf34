import Mathlib.Data.List.Infix
import VerticalSlice.Proofs.Color.Colorless
import VerticalSlice.Proofs.Syntax.Located

/-!
# Texts without colours, and what is put into them

What begins a colour or a comment ends before the next blank. So when lines without colours and comments are put into
a text that has none, it has none afterwards (`Colorless.insert`, `Uncommented.insert`). A source text that has none
has none in its literals either, since they are parts of it (`inSource_eq_nil`).
-/

namespace VerticalSlice.Color

open Syntax

variable {front back entry text rest : Text} {c : Char}

/-! ## Lines that are put into a text -/

/-- The text begins with blanks and ends with the end of a line. -/
structure IsLines (entry : Text) : Prop where
  opens : ∃ more, entry = ' ' :: more
  ends : ∃ less, entry = less ++ ['\n']

/-- What begins nowhere in a text and nowhere in some lines begins nowhere when the lines are put into the text, if it
is over before the next blank. -/
theorem forall_suffix_insert {Begins : Text → Prop}
    (hlonger : ∀ {text : Text}, Begins text → ∀ rest, Begins (text ++ rest))
    (hshorter : ∀ {text : Text} {c : Char} {rest : Text}, c = ' ' ∨ c = '\n' → Begins (text ++ c :: rest) → Begins text)
    (h : ∀ tail, tail <:+ front ++ back → ¬Begins tail) (hentry : ∀ tail, tail <:+ entry → ¬Begins tail)
    (hlines : IsLines entry) : ∀ tail, tail <:+ front ++ (entry ++ back) → ¬Begins tail := by
  rintro tail ⟨start, hstart⟩ hbegins
  rcases List.append_eq_append_iff.1 hstart with ⟨inside, rfl, rfl⟩ | ⟨inside, rfl, hinside⟩
  · -- it begins in front of the lines
    obtain ⟨more, rfl⟩ := hlines.opens
    exact h (inside ++ back) ⟨start, by simp⟩ (hlonger (hshorter (.inl rfl) hbegins) back)
  · rcases List.append_eq_append_iff.1 hinside with ⟨part, rfl, rfl⟩ | ⟨part, rfl, rfl⟩
    · exact h tail ⟨front ++ part, by simp⟩ hbegins
    · rcases List.eq_nil_or_concat part with rfl | ⟨less, last, rfl⟩
      · exact h back (List.suffix_append _ _) hbegins
      · -- it begins in the lines, of which the last character ends one
        obtain ⟨all, hall⟩ := hlines.ends
        rw [List.concat_eq_append, ← List.append_assoc] at hall
        obtain ⟨-, hlast⟩ := List.append_inj' hall rfl
        obtain rfl := (List.cons.inj hlast).1
        rw [List.concat_eq_append, List.append_assoc] at hbegins
        refine hentry _ ⟨inside, rfl⟩ ?_
        rw [List.concat_eq_append]
        exact hlonger (hshorter (.inr rfl) hbegins) _

/-! ## Colours and comments -/

theorem beginsWithWord_of_append {word : Text} (hword : ∀ small ∈ word, sameLetter small c = false)
    (h : beginsWithWord word (text ++ c :: rest) = true) : beginsWithWord word text = true := by
  induction word generalizing text with
  | nil => rfl
  | cons small word ih =>
    rw [List.forall_mem_cons] at hword
    cases text with
    | nil =>
      rw [List.nil_append, beginsWithWord, hword.1] at h
      cases h
    | cons d text =>
      rw [List.cons_append, beginsWithWord, Bool.and_eq_true] at h
      rw [beginsWithWord, h.1, ih hword.2 h.2]
      rfl

theorem callsFunction_of_append (hc : c = ' ' ∨ c = '\n') (h : callsFunction (text ++ c :: rest) = true) :
    callsFunction text = true := by
  rw [callsFunction, List.any_eq_true] at h ⊢
  obtain ⟨name, hname, h⟩ := h
  rw [Bool.and_eq_true, decide_eq_true_eq] at h
  have hletters : ∀ small ∈ name, sameLetter small c = false := by
    have hall : ∀ name ∈ functionNames,
        (name.all fun small => !sameLetter small ' ' && !sameLetter small '\n') = true := by
      decide
    intro small hsmall
    have hsmall := List.all_eq_true.1 (hall name hname) small hsmall
    rw [Bool.and_eq_true, Bool.not_eq_true', Bool.not_eq_true'] at hsmall
    rcases hc with rfl | rfl
    · exact hsmall.1
    · exact hsmall.2
  have hword := beginsWithWord_of_append hletters h.1
  have hopen := h.2
  rw [List.drop_append_of_le_length (length_le_of_beginsWithWord hword)] at hopen
  refine ⟨name, hname, ?_⟩
  rw [Bool.and_eq_true, decide_eq_true_eq]
  refine ⟨hword, ?_⟩
  cases hdrop : text.drop name.length with
  | nil =>
    rw [hdrop] at hopen
    rcases hc with rfl | rfl <;> exact absurd (Option.some.inj hopen) (by decide)
  | cons d more =>
    rw [hdrop] at hopen
    exact hopen

theorem opensHex_of_append (hc : c = ' ' ∨ c = '\n') (h : opensHex (text ++ c :: rest) = true) :
    opensHex text = true := by
  have hdigit : c ≠ '#' ∧ isHexDigit c = false := by rcases hc with rfl | rfl <;> decide
  match text with
  | [] =>
    unfold opensHex at h
    split at h
    · next heq => exact absurd (List.cons.inj heq).1 hdigit.1
    · cases h
  | [d] =>
    unfold opensHex at h
    split at h
    · next heq =>
      rw [← (List.cons.inj (List.cons.inj heq).2).1, hdigit.2] at h
      cases h
    · cases h
  | d :: e :: more =>
    unfold opensHex at h ⊢
    split at h
    · next heq =>
      obtain ⟨rfl, hrest⟩ := List.cons.inj heq
      rw [← (List.cons.inj hrest).1] at h
      exact h
    · cases h

/-- What begins a colour is over before the next blank. -/
theorem mayBegin_of_append (hc : c = ' ' ∨ c = '\n') (h : mayBegin (text ++ c :: rest) = true) :
    mayBegin text = true := by
  rw [mayBegin, Bool.or_eq_true] at h ⊢
  exact h.imp (opensHex_of_append hc) (callsFunction_of_append hc)

theorem Colorless.insert (h : Colorless (front ++ back)) (hentry : Colorless entry) (hlines : IsLines entry) :
    Colorless (front ++ (entry ++ back)) := by
  simp only [Colorless, ← Bool.not_eq_true] at h hentry ⊢
  exact forall_suffix_insert mayBegin_append mayBegin_of_append h hentry hlines

theorem uncommented_iff : Uncommented text ↔ ∀ tail, tail <:+ text → ¬['/', '*'] <+: tail := by
  refine ⟨fun h tail htail hopens => h (hopens.isInfix.trans htail.isInfix), fun h => ?_⟩
  rintro ⟨front, back, rfl⟩
  exact h (['/', '*'] ++ back) ⟨front, by simp⟩ (List.prefix_append _ _)

/-- Does neither a colour nor a comment begin anywhere in the text? -/
def isBare (text : Text) : Bool := text.tails.all fun tail => !mayBegin tail && !List.isPrefixOf ['/', '*'] tail

theorem isBare_iff : isBare text = true ↔ Colorless text ∧ Uncommented text := by
  simp only [isBare, List.all_eq_true, List.mem_tails, Bool.and_eq_true, Bool.not_eq_true', ← Bool.not_eq_true,
    List.isPrefixOf_iff_prefix, uncommented_iff, Colorless]
  exact ⟨fun h => ⟨fun tail htail => (h tail htail).1, fun tail htail => (h tail htail).2⟩,
    fun h tail htail => ⟨h.1 tail htail, h.2 tail htail⟩⟩

theorem Uncommented.insert (h : Uncommented (front ++ back)) (hentry : Uncommented entry) (hlines : IsLines entry) :
    Uncommented (front ++ (entry ++ back)) := by
  rw [uncommented_iff] at h hentry ⊢
  refine forall_suffix_insert (fun hopens rest => hopens.trans (List.prefix_append _ rest)) ?_ h hentry hlines
  intro text c rest hc hopens
  match text with
  | [] =>
    rw [List.nil_append, List.cons_prefix_cons] at hopens
    rcases hc with rfl | rfl <;> exact absurd hopens.1 (by decide)
  | [d] =>
    rw [List.singleton_append, List.cons_prefix_cons, List.cons_prefix_cons] at hopens
    rcases hc with rfl | rfl <;> exact absurd hopens.2.1 (by decide)
  | d :: e :: more =>
    rw [List.cons_append, List.cons_append, List.cons_prefix_cons, List.cons_prefix_cons] at hopens
    rw [List.cons_prefix_cons, List.cons_prefix_cons]
    exact ⟨hopens.1, hopens.2.1, List.nil_prefix⟩

/-! ## Sources -/

/-- What a literal says is a part of the text. -/
theorem infix_of_mem_literals {nodes : List Node}
    (h : programNodes? false (place (lexemes false text)) = some nodes) {literal : Text × Nat}
    (hliteral : literal ∈ (Node.branch .program nodes).literals) : literal.1 <:+: text := by
  rw [Node.literals, Node.walk_eq_preorder, List.mem_filterMap] at hliteral
  obtain ⟨node, hnode, hcontents⟩ := hliteral
  obtain ⟨contents, hvalue, rfl⟩ := Option.map_eq_some_iff.1 hcontents
  rw [Node.literal?, Option.ite_none_right_eq_some] at hvalue
  obtain ⟨front, back, rfl, -⟩ := exists_part_of_mem_preorder h hnode
  have hinside : contents <:+: node.text := by
    rw [← Option.some.inj hvalue.2, Syntax.inner]
    exact (List.dropLast_prefix _).isInfix.trans (List.drop_suffix _ _).isInfix
  have hsource : node.text <:+: node.source := (List.dropWhile_suffix _).isInfix
  exact (hinside.trans hsource).trans ⟨front, back, by simp⟩

/-- A source text without colours and comments has no colours. -/
theorem inSource_eq_nil {nodes : List Node}
    (h : programNodes? false (place (lexemes false text)) = some nodes) (hcolors : Colorless text)
    (hcomments : Uncommented text) : inSource (.branch .program nodes) = [] := by
  rw [inSource, List.flatMap_eq_nil_iff]
  intro literal hliteral
  have hpart := infix_of_mem_literals h hliteral
  exact inLiteral_eq_nil (hcolors.of_infix hpart) (hcomments.of_infix hpart) literal.2

end VerticalSlice.Color
