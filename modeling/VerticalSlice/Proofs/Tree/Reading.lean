import VerticalSlice.Proofs.Text.Utf8
import VerticalSlice.Proofs.Tree.Growth

/-!
# What can be read

The text of a file can be read if there is a file and its bytes encode a text. There are two reasons
why it cannot: there is no file, or its bytes encode none (`Undecodable`).
-/

namespace VerticalSlice.FileTree

variable {tree : FileTree} {path : Path} {bytes : List UInt8}

/-- Is there a file at the path whose bytes are no encoding of a text? -/
def Undecodable (tree : FileTree) (path : Path) : Prop :=
  ∃ bytes, tree.read path = .ok bytes ∧ ∀ raw, Text.Utf8.encode raw ≠ bytes

theorem exists_read_iff : (∃ bytes, tree.read path = .ok bytes) ↔ tree.hasFile path = true := by
  rw [read, hasFile, entry?]
  cases tree.locate path with
  | error problem => simp
  | ok place =>
    dsimp only
    cases tree.get? place with
    | none => simp
    | some entry => cases entry <;> simp [isFile, isFolder]

theorem Undecodable.hasFile (h : tree.Undecodable path) : tree.hasFile path = true := by
  obtain ⟨bytes, hread, -⟩ := h
  exact exists_read_iff.1 ⟨bytes, hread⟩

/-- Where a file is, either its text can be read or its bytes are to blame. -/
theorem readText_cases (h : tree.read path = .ok bytes) :
    (∃ raw, Text.Utf8.encode raw = bytes ∧ tree.readText path = .ok (Text.normalizeNewlines raw)) ∨
      (tree.Undecodable path ∧ ∃ fault, Text.Utf8.decode bytes = .error fault ∧
        tree.readText path = .error (.encoding fault)) := by
  cases hdecode : Text.Utf8.decode bytes with
  | ok raw =>
    have hraw := Text.Utf8.decode_eq_ok_iff.1 hdecode
    exact .inl ⟨raw, hraw, readText_of_read h hraw⟩
  | error fault =>
    have hnone : ∀ raw, Text.Utf8.encode raw ≠ bytes := by
      intro raw hraw
      rw [Text.Utf8.decode_eq_ok_iff.2 hraw] at hdecode
      cases hdecode
    refine .inr ⟨⟨bytes, h, hnone⟩, fault, rfl, ?_⟩
    rw [readText, h]
    dsimp only
    rw [Text.ofBytes, hdecode]
    rfl

theorem readText_eq_ok_iff {text : Text} : tree.readText path = .ok text ↔
    ∃ raw, tree.read path = .ok (Text.Utf8.encode raw) ∧ Text.normalizeNewlines raw = text := by
  constructor
  · intro h
    cases hread : tree.read path with
    | error fault =>
      rw [readText, hread] at h
      cases h
    | ok bytes =>
      rcases readText_cases hread with ⟨raw, rfl, htext⟩ | ⟨-, fault, -, hfault⟩
      · exact ⟨raw, rfl, Except.ok.inj (htext.symm.trans h)⟩
      · rw [hfault] at h
        cases h
  · rintro ⟨raw, hread, rfl⟩
    exact readText_of_read hread rfl

theorem readText_eq_encoding_iff :
    (∃ fault, tree.readText path = .error (.encoding fault)) ↔ tree.Undecodable path := by
  constructor
  · rintro ⟨fault, h⟩
    cases hread : tree.read path with
    | error fault =>
      rw [readText, hread] at h
      cases h
    | ok bytes =>
      rcases readText_cases hread with ⟨raw, -, htext⟩ | ⟨hnone, -⟩
      · rw [htext] at h
        cases h
      · exact hnone
  · rintro ⟨bytes, hread, hnone⟩
    exact exists_readText_eq_error hread hnone

end VerticalSlice.FileTree
