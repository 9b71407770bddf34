import VerticalSlice.Proofs.Path.Written
import VerticalSlice.Rule.RawColors

/-!
# The places of token files

The check of colours tells files apart by the places that their paths lead to, so before anything else
it turns the path of every token file into a place. A path through a name that no entry can have leads
to none, and with such a token file there is no verdict at all (`exists_tokenPlaces_iff`). Otherwise
the places are those of the token files and no others (`mem_tokenPlaces_iff`).
-/

namespace VerticalSlice

/-- Is there no name on the way that holds the character that ends names? -/
def Path.NulFree (path : Path) : Prop := ∀ name ∈ path.names, '\x00' ∉ name

instance (path : Path) : Decidable path.NulFree :=
  inferInstanceAs (Decidable (∀ name ∈ path.names, '\x00' ∉ name))

namespace Path

theorem any_contains_nul_eq_false_iff {path : Path} :
    path.names.any (·.contains '\x00') = false ↔ path.NulFree := by
  rw [List.any_eq_false]
  simp only [List.contains_iff_mem]
  rfl

theorem NulFree.join {base rest : Path} (hbase : base.NulFree) (hrest : rest.NulFree) :
    (base.join rest).NulFree := by
  unfold Path.join
  split
  · intro name hname
    rcases List.mem_append.1 hname with hname | hname
    · exact hbase name hname
    · exact hrest name hname
  · exact hrest

end Path

namespace Text

/-- Every character of a text but the separators is in one of its pieces. -/
theorem exists_mem_splitOn (separator : Char) {c : Char} {text : Text} (hc : c ∈ text)
    (hne : c ≠ separator) :
    ∃ piece ∈ splitOn separator text, c ∈ piece := by
  induction text with
  | nil => cases hc
  | cons d rest ih =>
    rw [splitOn]
    by_cases hd : d = separator
    · have hrest : c ∈ rest := (List.mem_cons.1 hc).resolve_left fun heq => hne (heq.trans hd)
      obtain ⟨piece, hpiece, hmem⟩ := ih hrest
      rw [if_pos hd]
      exact ⟨piece, List.mem_cons_of_mem _ hpiece, hmem⟩
    · rw [if_neg hd]
      cases hsplit : splitOn separator rest with
      | nil =>
        rcases List.mem_cons.1 hc with rfl | hrest
        · exact ⟨[c], List.mem_cons_self .., List.mem_cons_self ..⟩
        · obtain ⟨piece, hpiece, -⟩ := ih hrest
          rw [hsplit] at hpiece
          cases hpiece
      | cons first pieces =>
        rcases List.mem_cons.1 hc with rfl | hrest
        · exact ⟨c :: first, List.mem_cons_self .., List.mem_cons_self ..⟩
        · obtain ⟨piece, hpiece, hmem⟩ := ih hrest
          rw [hsplit] at hpiece
          rcases List.mem_cons.1 hpiece with rfl | hpiece
          · exact ⟨d :: piece, List.mem_cons_self .., List.mem_cons_of_mem _ hmem⟩
          · exact ⟨piece, List.mem_cons_of_mem _ hpiece, hmem⟩

theorem subset_of_mem_splitOn {separator : Char} {text piece : Text}
    (h : piece ∈ splitOn separator text) : piece ⊆ text := by
  induction text generalizing piece with
  | nil =>
    rw [splitOn, List.mem_singleton] at h
    rw [h]
    exact List.nil_subset _
  | cons d rest ih =>
    rw [splitOn] at h
    split at h
    · rcases List.mem_cons.1 h with rfl | h
      · exact List.nil_subset _
      · exact List.Subset.trans (ih h) (List.subset_cons_self ..)
    · split at h
      · rw [List.mem_singleton.1 h]
        exact List.cons_subset_cons d (List.nil_subset _)
      · next first pieces hsplit =>
        rcases List.mem_cons.1 h with rfl | h
        · exact List.cons_subset_cons d (ih (hsplit ▸ List.mem_cons_self ..))
        · exact List.Subset.trans (ih (hsplit ▸ List.mem_cons_of_mem _ h)) (List.subset_cons_self ..)

end Text

/-- A written path leads through a name with the character that ends names exactly if the character is
in the text. -/
theorem Path.nulFree_ofText_iff {text : Text} : (Path.ofText text).NulFree ↔ '\x00' ∉ text := by
  constructor
  · intro h hnul
    obtain ⟨piece, hpiece, hmem⟩ := Text.exists_mem_splitOn '/' hnul (by decide)
    refine h piece (List.mem_filter.2 ⟨hpiece, ?_⟩) hmem
    -- the pieces that are dropped, the empty one and the dot, do not hold the character
    rw [Bool.and_eq_true, decide_eq_true_eq, decide_eq_true_eq]
    constructor
    · rintro rfl
      cases hmem
    · rintro rfl
      exact absurd hmem (by decide)
  · intro h name hname hnul
    exact h (Text.subset_of_mem_splitOn (List.mem_filter.1 hname).1 hnul)

/-! ## Resolving paths -/

namespace Workspace

variable {here path place : Path}

theorem resolve_eq_ok_iff : resolve here path = .ok place ↔
    path.NulFree ∧ { (here.join path).normalize with anchor := .root } = place := by
  unfold resolve
  cases hnul : path.names.any (·.contains '\x00') with
  | true =>
    have hnot : ¬path.NulFree := by
      rw [← Path.any_contains_nul_eq_false_iff, hnul]
      exact Bool.noConfusion
    rw [if_pos rfl]
    exact iff_of_false (fun h => by cases h) fun h => hnot h.1
  | false =>
    rw [if_neg Bool.false_ne_true, Except.ok.injEq]
    exact (and_iff_right (Path.any_contains_nul_eq_false_iff.1 hnul)).symm

theorem exists_resolve_iff : (∃ place, resolve here path = .ok place) ↔ path.NulFree := by
  simp only [resolve_eq_ok_iff]
  exact ⟨fun ⟨_, h, _⟩ => h, fun h => ⟨_, h, rfl⟩⟩

/-- A path that does not resolve has such a name on its way. -/
theorem problem_of_resolve {fault : FileFault} (h : resolve here path = .error fault) :
    fault.problem = .nulInName := by
  unfold resolve at h
  split at h
  · rw [← Except.error.inj h]
  · cases h

end Workspace

/-! ## Steps that may fail -/

section

variable {α β ε : Type} {f : α → Except ε β} {list : List α} {results : List β} {fault : ε}

/-- A row of steps that succeeds has succeeded at each of them. -/
theorem exists_of_mapM_eq_ok (h : list.mapM f = .ok results) : ∀ a ∈ list, ∃ b, f a = .ok b := by
  induction list generalizing results with
  | nil => exact fun a ha => by cases ha
  | cons first list ih =>
    rw [List.mapM_cons] at h
    obtain ⟨b, hb, h⟩ := Workspace.exists_of_bind_eq_ok h
    obtain ⟨rest, hrest, -⟩ := Workspace.exists_of_bind_eq_ok h
    exact List.forall_mem_cons.2 ⟨⟨b, hb⟩, ih hrest⟩

theorem mem_iff_of_mapM_eq_ok (h : list.mapM f = .ok results) {b : β} :
    b ∈ results ↔ ∃ a ∈ list, f a = .ok b := by
  induction list generalizing results with
  | nil =>
    rw [← Except.ok.inj h]
    simp
  | cons first list ih =>
    rw [List.mapM_cons] at h
    obtain ⟨c, hc, h⟩ := Workspace.exists_of_bind_eq_ok h
    obtain ⟨rest, hrest, h⟩ := Workspace.exists_of_bind_eq_ok h
    rw [← Except.ok.inj h, List.mem_cons, ih hrest]
    simp only [List.mem_cons, exists_eq_or_imp, hc, Except.ok.injEq]
    rw [eq_comm]

/-- A row of steps that fails has failed at one of them. -/
theorem exists_of_mapM_eq_error (h : list.mapM f = .error fault) : ∃ a ∈ list, f a = .error fault := by
  induction list with
  | nil => cases h
  | cons a list ih =>
    rw [List.mapM_cons] at h
    cases ha : f a with
    | error first =>
      rw [ha] at h
      cases h
      exact ⟨a, List.mem_cons_self .., ha⟩
    | ok b =>
      rw [ha] at h
      cases hrest : list.mapM f with
      | error later =>
        rw [hrest] at h
        cases h
        obtain ⟨other, hother, hfails⟩ := ih hrest
        exact ⟨other, List.mem_cons_of_mem _ hother, hfails⟩
      | ok rest =>
        rw [hrest] at h
        cases h

end

/-! ## The check of colours -/

namespace RawColors

variable {context : Context} {places : List Path} {place path : Path}

/-- Do the paths of all token files lead through names that entries can have? -/
def TokensNamed (context : Context) : Prop := ∀ token ∈ tokenFiles context, token.2.NulFree

instance (context : Context) : Decidable (TokensNamed context) :=
  inferInstanceAs (Decidable (∀ token ∈ tokenFiles context, token.2.NulFree))

theorem mem_tokenPlaces_iff (h : tokenPlaces context = .ok places) :
    place ∈ places ↔
      ∃ token ∈ tokenFiles context, Workspace.resolve context.root token.2 = .ok place :=
  mem_iff_of_mapM_eq_ok h

theorem exists_tokenPlaces_iff :
    (∃ places, tokenPlaces context = .ok places) ↔ TokensNamed context := by
  constructor
  · rintro ⟨places, h⟩ token htoken
    exact Workspace.exists_resolve_iff.1 (exists_of_mapM_eq_ok h token htoken)
  · intro h
    cases hplaces : tokenPlaces context with
    | ok places => exact ⟨places, rfl⟩
    | error fault =>
      obtain ⟨token, htoken, hfails⟩ := exists_of_mapM_eq_error hplaces
      obtain ⟨place, hresolve⟩ := Workspace.exists_resolve_iff.2 (h token htoken)
      rw [hresolve] at hfails
      cases hfails

theorem problem_of_tokenPlaces {fault : FileFault} (h : tokenPlaces context = .error fault) :
    fault.problem = .nulInName := by
  obtain ⟨token, -, hfails⟩ := exists_of_mapM_eq_error h
  exact Workspace.problem_of_resolve hfails

/-- A file is among the places exactly if it is where one of the token files is. -/
theorem isAmong_iff (h : tokenPlaces context = .ok places) :
    isAmong context places path = true ↔ ∃ place, Workspace.resolve context.root path = .ok place ∧
      ∃ token ∈ tokenFiles context, Workspace.resolve context.root token.2 = .ok place := by
  unfold isAmong
  cases hpath : Workspace.resolve context.root path with
  | error fault => simp
  | ok place =>
    dsimp only
    rw [List.contains_iff_mem, mem_tokenPlaces_iff h]
    simp only [Except.ok.injEq, exists_eq_left']

end RawColors

end VerticalSlice
