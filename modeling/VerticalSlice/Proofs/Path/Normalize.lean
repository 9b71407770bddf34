import Mathlib.Data.List.Induction
import VerticalSlice.Path

/-!
# Normal ways

A way is normal if taking every `..` back leaves it as it is. Normalizing makes a way normal
(`isNormal_fold`), and so is every way that a normal way goes on from (`IsNormal.of_append`). So what
lies below a folder after normalizing is what was put behind the folder
(`fold_append_of_prefix`).
-/

namespace VerticalSlice.Path

/-- The names with every `..` taken back. -/
def fold (absolute : Bool) (names : List Text) : List Text := names.foldl (step absolute) []

theorem names_normalize (path : Path) :
    path.normalize.names = fold (path.anchor ≠ .relative) path.names := rfl

theorem fold_concat (absolute : Bool) (names : List Text) (name : Text) :
    fold absolute (names ++ [name]) = step absolute (fold absolute names) name := by
  rw [fold, List.foldl_append, List.foldl_cons, List.foldl_nil, fold]

/-- Is nothing left to be taken back? -/
def IsNormal (absolute : Bool) (names : List Text) : Prop := fold absolute names = names

/-- A step goes on to the name or takes the last one back. -/
theorem step_cases (absolute : Bool) (way : List Text) (name : Text) :
    step absolute way name = way ++ [name] ∨ step absolute way name = way.dropLast := by
  unfold step
  split
  · exact .inl rfl
  · split
    · next hnil =>
      subst hnil
      cases absolute
      · exact .inl rfl
      · exact .inr rfl
    · split
      · exact .inl rfl
      · exact .inr rfl

theorem length_fold_le (absolute : Bool) (names : List Text) :
    (fold absolute names).length ≤ names.length := by
  induction names using List.reverseRecOn with
  | nil => exact Nat.le_refl 0
  | append_singleton names name ih =>
    rw [fold_concat, List.length_append, List.length_singleton]
    rcases step_cases absolute (fold absolute names) name with h | h
    · rw [h, List.length_append, List.length_singleton]
      omega
    · rw [h, List.length_dropLast]
      omega

theorem IsNormal.of_concat {absolute : Bool} {names : List Text} {name : Text}
    (h : IsNormal absolute (names ++ [name])) : IsNormal absolute names := by
  rw [IsNormal, fold_concat] at h
  have hle := length_fold_le absolute names
  have hlength := congrArg List.length h
  rw [List.length_append, List.length_singleton] at hlength
  rcases step_cases absolute (fold absolute names) name with hstep | hstep
  · rw [hstep] at h
    exact List.append_cancel_right h
  · rw [hstep, List.length_dropLast] at hlength
    omega

theorem IsNormal.dropLast {absolute : Bool} {names : List Text} (h : IsNormal absolute names) :
    IsNormal absolute names.dropLast := by
  rcases List.eq_nil_or_concat names with rfl | ⟨front, last, rfl⟩
  · exact h
  · rw [List.concat_eq_append] at h ⊢
    rw [List.dropLast_concat]
    exact h.of_concat

theorem IsNormal.step {absolute : Bool} {way : List Text} (h : IsNormal absolute way) (name : Text) :
    IsNormal absolute (step absolute way name) := by
  rcases step_cases absolute way name with hstep | hstep
  · have hfold := fold_concat absolute way name
    rw [IsNormal] at h
    rw [IsNormal, hstep, hfold, h, hstep]
  · rw [hstep]
    exact h.dropLast

/-- Normalizing a way leaves nothing to be taken back. -/
theorem isNormal_fold (absolute : Bool) (names : List Text) :
    IsNormal absolute (fold absolute names) := by
  induction names using List.reverseRecOn with
  | nil => rfl
  | append_singleton names name ih =>
    rw [fold_concat]
    exact ih.step name

theorem IsNormal.of_append {absolute : Bool} {first second : List Text}
    (h : IsNormal absolute (first ++ second)) : IsNormal absolute first := by
  induction second using List.reverseRecOn with
  | nil => rwa [List.append_nil] at h
  | append_singleton second name ih => exact ih (List.append_assoc first second _ ▸ h).of_concat

/-- An absolute way keeps nothing to be taken back. -/
theorem parentName_notMem_fold (names : List Text) : parentName ∉ fold true names := by
  induction names using List.reverseRecOn with
  | nil => exact List.not_mem_nil
  | append_singleton names name ih =>
    rw [fold_concat]
    unfold Path.step
    split
    · next hne =>
      rw [List.mem_append, List.mem_singleton, not_or]
      exact ⟨ih, Ne.symm hne⟩
    · split
      · exact List.not_mem_nil
      · split
        · next hlast => exact absurd (List.mem_of_getLast? hlast) ih
        · exact fun h => ih (List.dropLast_subset _ h)

theorem IsNormal.parentName_notMem {names : List Text} (h : IsNormal true names) :
    parentName ∉ names := by
  rw [← (h : fold true names = names)]
  exact parentName_notMem_fold names

/-- A normal way stays normal when names other than `..` are put behind it. -/
theorem IsNormal.append {absolute : Bool} {names more : List Text} (h : IsNormal absolute names)
    (hmore : parentName ∉ more) : IsNormal absolute (names ++ more) := by
  induction more using List.reverseRecOn with
  | nil => rwa [List.append_nil]
  | append_singleton more name ih =>
    rw [List.mem_append, List.mem_singleton, not_or] at hmore
    have hfront : fold absolute (names ++ more) = names ++ more := ih hmore.1
    rw [IsNormal, ← List.append_assoc, fold_concat, hfront, Path.step, if_pos (Ne.symm hmore.2)]

/-- A way that is reached by normalizing goes on from a folder above it just as it is written. -/
theorem fold_append_of_prefix {absolute : Bool} {names more : List Text} {rest : List Text}
    (hmore : parentName ∉ more) (h : fold absolute (names ++ more) = names ++ rest) :
    rest = more := by
  have hnormal : IsNormal absolute names :=
    (h ▸ isNormal_fold absolute (names ++ more) : IsNormal absolute (names ++ rest)).of_append
  have hfold : fold absolute (names ++ more) = names ++ more := hnormal.append hmore
  rw [hfold] at h
  exact (List.append_cancel_left h).symm

end VerticalSlice.Path
