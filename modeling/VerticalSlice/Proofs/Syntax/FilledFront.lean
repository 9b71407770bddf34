import VerticalSlice.Proofs.Syntax.FilledTree
import VerticalSlice.Proofs.Syntax.Front

/-!
# The front of a filled text

What the front of a text with holes is cut into is a computation (`cutWithin`), and the front of the
filled text is cut into the same lexemes, filled (`Cuts.fill`).
-/

namespace VerticalSlice.Syntax

/-- What the text is cut into with `behind` behind it, in at most `count` steps, and the state at its
end, if a lexeme ends there. -/
def cutWithin (behind : Text) : Nat → LexState → Text → Option (List Lexeme × LexState)
  | _, state, [] => some ([], state)
  | 0, _, _ => none
  | count + 1, state, text =>
    let blanks := leadingBlanks state.stack text
    match text.drop blanks.length with
    | [] => none
    | c :: rest =>
      let (sort, length, after) := cut false state (c :: (rest ++ behind))
      if length ≤ rest.length + 1 then
        (cutWithin behind count after (rest.drop (length - 1))).map fun (lexemes, last) =>
          (⟨sort, blanks, c :: rest.take (length - 1)⟩ :: lexemes, last)
      else none

theorem cuts_of_cutWithin {behind : Text} :
    ∀ {count : Nat} {state last : LexState} {text : Text} {lexemes : List Lexeme},
      cutWithin behind count state text = some (lexemes, last) →
        Cuts behind state text lexemes last := by
  intro count
  induction count with
  | zero =>
    intro state last text lexemes h
    cases text with
    | nil =>
      obtain ⟨rfl, rfl⟩ := Prod.mk.inj (Option.some.inj h)
      exact .done
    | cons c text => cases h
  | succ count ih =>
    intro state last text lexemes h
    cases text with
    | nil =>
      obtain ⟨rfl, rfl⟩ := Prod.mk.inj (Option.some.inj h)
      exact .done
    | cons d text =>
      have hsplit := leadingBlanks_append_drop state.stack (d :: text)
      rw [cutWithin] at h
      · dsimp only at h
        split at h
        · cases h
        · next c rest hcode =>
          split at h
          · next hlength =>
            obtain ⟨⟨more, end'⟩, hmore, heq⟩ := Option.map_eq_some_iff.1 h
            obtain ⟨rfl, rfl⟩ := Prod.mk.inj heq
            rw [hcode] at hsplit
            generalize hblanks : leadingBlanks state.stack (d :: text) = blanks at *
            rw [← hsplit] at hblanks ⊢
            exact .lexeme (leadingBlanks_append_cons hblanks _) rfl hlength (ih hmore)
          · cases h
      · exact List.cons_ne_nil d text

section

variable {behind : Text}

theorem Cuts.of_code {state after last : LexState} {blanks code : Text} {sort : TokenClass}
    {length : Nat} {lexemes : List Lexeme} (hne : code ≠ [])
    (hblanks : leadingBlanks state.stack (blanks ++ code) = blanks)
    (hcut : cut false state (code ++ behind) = (sort, length, after)) (hpos : 0 < length)
    (hlength : length ≤ code.length) (hrest : Cuts behind after (code.drop length) lexemes last) :
    Cuts behind state (blanks ++ code) (⟨sort, blanks, code.take length⟩ :: lexemes) last := by
  obtain ⟨c, rest, rfl⟩ := List.exists_cons_of_ne_nil hne
  obtain ⟨length, rfl⟩ : ∃ n, length = n + 1 := ⟨length - 1, by omega⟩
  exact .lexeme (leadingBlanks_append_cons hblanks _) hcut hlength hrest

/-- The front of a filled text is cut into the filled lexemes. -/
theorem Cuts.fill (σ : Substitution) {state last : LexState} {text : Text} {lexemes : List Lexeme}
    (h : Cuts behind state text lexemes last) {count : Nat}
    (htame : tameWithin count state (text ++ behind) = true) :
    Cuts (σ.text behind) (σ.state state) (σ.text text) (lexemes.map σ.lexeme) (σ.state last) := by
  induction h generalizing count with
  | done => exact .done
  | @lexeme state after last blanks rest c sort length lexemes hblanks hcut hlength hrest ih =>
    cases count with
    | zero => cases htame
    | succ count =>
      have hcode : (blanks ++ c :: rest ++ behind).drop
          (leadingBlanks state.stack (blanks ++ c :: rest ++ behind)).length =
          c :: (rest ++ behind) := by
        rw [List.append_assoc, List.cons_append, hblanks, List.drop_left]
      rw [tameWithin, hcode] at htame
      dsimp only at htame
      rw [Bool.and_eq_true, hcut] at htame
      obtain ⟨sort', length', after', hcut', hpos, hfilled⟩ :=
        Substitution.cutsAlike_of_isTame σ (List.cons_ne_nil c (rest ++ behind)) htame.1
      rw [hcut] at hcut'
      obtain ⟨rfl, rfl, rfl⟩ := hcut'
      obtain ⟨length, rfl⟩ : ∃ n, length = n + 1 := ⟨length - 1, by omega⟩
      have hle : length ≤ rest.length := Nat.le_of_succ_le_succ hlength
      have htake : (c :: (rest ++ behind)).take (length + 1) = (c :: rest).take (length + 1) := by
        rw [List.take_succ_cons, List.take_append_of_le_length hle, List.take_succ_cons]
      rw [htake, ← List.cons_append, Substitution.text_append] at hfilled
      have hblanks' := Substitution.leadingBlanks_text σ state.stack (blanks ++ c :: rest)
      have hfront := leadingBlanks_append_cons hblanks rest
      rw [hfront, List.drop_left] at hblanks'
      obtain ⟨hsame, hdrop⟩ := hblanks'
      have hsplit : σ.text (blanks ++ c :: rest) = blanks ++ σ.text (c :: rest) := by
        have := leadingBlanks_append_drop state.stack (σ.text (blanks ++ c :: rest))
        rw [hsame, hdrop] at this
        exact this.symm
      have hne : σ.text (c :: rest) ≠ [] := Substitution.text_ne_nil σ (List.cons_ne_nil c rest)
      have hpiece : σ.text ((c :: rest).take (length + 1)) ≠ [] :=
        Substitution.text_ne_nil σ (by rw [List.take_succ_cons]; exact List.cons_ne_nil _ _)
      have hshort : (σ.text ((c :: rest).take (length + 1))).length ≤ (σ.text (c :: rest)).length := by
        rw [Substitution.text_split σ (c :: rest) (length + 1), List.length_append]
        exact Nat.le_add_right _ _
      have hmore : tameWithin count after (rest.drop length ++ behind) = true := by
        have hrest := htame.2
        rw [List.drop_succ_cons, List.drop_append_of_le_length hle] at hrest
        exact hrest
      have hlater : Cuts (σ.text behind) (σ.state after)
          ((σ.text (c :: rest)).drop (σ.text ((c :: rest).take (length + 1))).length)
          (lexemes.map σ.lexeme) (σ.state last) := by
        rw [Substitution.drop_text, List.drop_succ_cons]
        exact ih hmore
      rw [hsplit, List.map_cons]
      have hfirst := Cuts.of_code hne (by rw [← hsplit]; exact hsame) hfilled
        (List.length_pos_iff.2 hpiece) hshort hlater
      rw [Substitution.take_text] at hfirst
      exact hfirst

end

end VerticalSlice.Syntax
