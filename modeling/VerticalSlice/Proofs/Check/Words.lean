import VerticalSlice.Rule.Check

/-!
# The first words of violations

Violations are told apart by their words. Of a file that cannot be read it is said in words that no
other violation begins with: the first two letters differ already.
-/

namespace VerticalSlice

theorem Text.take_concat_cons {first : Text} {n : Nat} (pieces : List Text) (h : n ≤ first.length) :
    (concat (first :: pieces)).take n = first.take n := by
  rw [concat, List.flatten_cons, List.take_append_of_le_length h]

theorem Text.take_concat_ne {first start : Text} {n : Nat} {pieces : List Text} (h : n ≤ first.length)
    (hne : first.take n ≠ start) : (concat (first :: pieces)).take n ≠ start := by
  rw [take_concat_cons pieces h]
  exact hne

/-- The words that begin what is said of a file that cannot be read. -/
def unreadableWords : Text := "Cannot read file: "

/-- Does the violation say that a file cannot be read? -/
def Violation.saysUnreadable (violation : Violation) : Bool :=
  unreadableWords.isPrefixOf violation.message

namespace Violation

variable {violation : Violation}

theorem message_unreadable (file : Text) (fault : ReadFault) :
    (unreadable file fault).message.take 2 = ['C', 'a'] := by
  have hlength : 2 ≤ "Cannot read file: ".toList.length := by decide
  exact Text.take_concat_cons _ hlength

theorem saysUnreadable_unreadable (file : Text) (fault : ReadFault) :
    (unreadable file fault).saysUnreadable = true := by
  refine List.isPrefixOf_iff_prefix.2 ⟨fault.message, ?_⟩
  rw [unreadable, Text.concat, List.flatten_cons, List.flatten_singleton]
  rfl

theorem not_saysUnreadable (h : violation.message.take 2 ≠ ['C', 'a']) :
    violation.saysUnreadable = false := by
  rw [← Bool.not_eq_true]
  intro hsays
  obtain ⟨rest, hrest⟩ := List.isPrefixOf_iff_prefix.1 hsays
  have hlength : 2 ≤ unreadableWords.length := by decide
  refine h ?_
  rw [← hrest, List.take_append_of_le_length hlength]
  decide

end Violation

theorem Structure.Breach.take_message (breach : Breach) :
    breach.message.take 2 ≠ ['C', 'a'] := by
  cases breach with
  | httpClient | providedInRoot => decide
  | noAppFolder | noFeaturesFolder | noFeatures | missingFile =>
    exact Text.take_concat_ne (by decide) (by decide)

theorem FeatureRoutes.Breach.take_message (breach : Breach) :
    breach.message.take 2 ≠ ['C', 'a'] := by
  cases breach with
  | noArray => decide
  | empty | notAnObject | component | firstPath | noProviders | emptyProviders | firstLoader
    | foreignPage | missingFile =>
    exact Text.take_concat_ne (by decide) (by decide)

theorem FeatureImports.Crossing.take_message (crossing : Crossing) :
    crossing.message.take 2 ≠ ['C', 'a'] :=
  Text.take_concat_ne (by decide) (by decide)

theorem RawColors.take_message_inFile (file : Text) (sighting : Color.Sighting) :
    (inFile file sighting).message.take 2 ≠ ['C', 'a'] :=
  Text.take_concat_ne (by decide) (by decide)

end VerticalSlice
