import VerticalSlice.Proofs.Feature.Keeping
import VerticalSlice.Proofs.Feature.Table

/-!
# The bytes of the route table

The entry of a feature is put into the text of the route table, and that text is not quite what the
file holds: reading it brings all line ends to one form, and writing leaves them in this form. Where
the lines of the file end with line feeds, the new bytes are the old ones with the bytes of the entry
between them. Where they do not, every carriage return of the file is lost with the first route that
is put in, and the bytes from before are no longer there, in one piece or in two
(`inserts_encode_iff`).

The main result is `register_inserts`, and `register_loses_lineEnds` is a file that it tells apart.
-/

namespace VerticalSlice

namespace Feature

open FileTree Text Utf8

/-- The new bytes are the old ones with one piece put in between. -/
def Inserts (old new : List UInt8) : Prop :=
  ∃ front piece back, old = front ++ back ∧ new = front ++ piece ++ back

theorem Inserts.subset {old new : List UInt8} (h : Inserts old new) : old ⊆ new := by
  obtain ⟨front, piece, back, rfl, rfl⟩ := h
  intro byte hbyte
  rcases List.mem_append.1 hbyte with hbyte | hbyte
  · exact List.mem_append_left _ (List.mem_append_left _ hbyte)
  · exact List.mem_append_right _ hbyte

variable {raw before after entry : Text}

/-- An entry without carriage returns goes in between the bytes of a text exactly if there are none in
the text either. -/
theorem inserts_encode_iff (hsplit : before ++ after = normalizeNewlines raw) (hentry : '\r' ∉ entry) :
    Inserts (encode raw) (encode (before ++ entry ++ after)) ↔ '\r' ∉ raw := by
  constructor
  · intro h hraw
    -- its byte would still be there, but it is neither in the text that was read nor in the entry
    have hbyte : UInt8.ofNat '\r'.toNat ∈ encode (before ++ entry ++ after) :=
      h.subset ((ofNat_mem_encode_iff (by decide)).2 hraw)
    have hmem : '\r' ∈ before ++ entry ++ after := (ofNat_mem_encode_iff (by decide)).1 hbyte
    have hnone : '\r' ∉ before ++ after := hsplit ▸ carriageReturn_notMem_normalizeNewlines raw
    rw [List.mem_append, List.mem_append] at hmem
    rw [List.mem_append, not_or] at hnone
    rcases hmem with (hmem | hmem) | hmem
    · exact hnone.1 hmem
    · exact hentry hmem
    · exact hnone.2 hmem
  · intro hraw
    rw [normalizeNewlines_eq_self hraw] at hsplit
    refine ⟨encode before, encode entry, encode after, ?_, ?_⟩
    · rw [← hsplit, encode_append]
    · rw [encode_append, encode_append]

variable {tree changed : FileTree} {file : Path} {route : Text} {name : FeatureName}

/-- What is written to a file is what it holds then, and nothing else is touched. -/
theorem read_of_writeText {text : Text} (h : tree.writeText file text = .ok changed) :
    ∃ place, tree.locate file = .ok place ∧ changed.read file = .ok (encode text) ∧
      Alters (· = place) tree changed := by
  obtain ⟨place, hplace, hbytes, halters⟩ := exists_of_write h
  refine ⟨place, hplace, ?_, halters⟩
  rw [FileTree.read, halters.folder.locate_eq_ok hplace]
  dsimp only
  rw [hbytes]

/-- A call that puts a route in changes no other file. The entry is put into the text that was read. So
if the file had no carriage return, its bytes stay and those of the entry come in between; and if it had
one, the new bytes are not the old ones with a piece in between, unless the entry has one too. -/
theorem register_inserts (h : register tree file route name = .ok (changed, false)) :
    ∃ raw before after place,
      tree.read file = .ok (encode raw) ∧ before ++ after = normalizeNewlines raw ∧
      changed.read file = .ok (encode (before ++ routeEntry route name ++ after)) ∧
      tree.locate file = .ok place ∧ Alters (· = place) tree changed ∧
      ('\r' ∉ raw → encode raw = encode before ++ encode after ∧
        changed.read file = .ok (encode before ++ encode (routeEntry route name) ++ encode after)) ∧
      ('\r' ∉ routeEntry route name →
        (Inserts (encode raw) (encode (before ++ routeEntry route name ++ after)) ↔ '\r' ∉ raw)) := by
  obtain ⟨text, before, after, htext, hpoint, hwritten⟩ := exists_text_of_register h
  obtain ⟨raw, hraw, rfl⟩ := exists_read_of_readText htext
  obtain ⟨place, hplace, hnew, halters⟩ := read_of_writeText hwritten
  have hsplit := insertionPoint?_append hpoint
  have hconcat : Text.concat [before, routeEntry route name, after] =
      before ++ routeEntry route name ++ after := by
    simp [Text.concat]
  rw [hconcat] at hnew
  refine ⟨raw, before, after, place, hraw, hsplit, hnew, hplace, halters, fun hplain => ?_,
    inserts_encode_iff hsplit⟩
  rw [normalizeNewlines_eq_self hplain] at hsplit
  refine ⟨?_, ?_⟩
  · rw [← hsplit, encode_append]
  · rw [hnew, encode_append, encode_append]

theorem read_treeWith (text : Text) :
    (treeWith text).read AppRoutes.tableContext.appRoutes = .ok (encode text) := rfl

/-- An empty route table whose lines end with line feeds. -/
def emptyTable : Text := "export const routes = [\n];\n"

/-- The same table with a carriage return in front of each line feed. -/
def windowsTable : Text := "export const routes = [\r\n];\r\n"

/-- The two are read as the same text, which does not have the route of the orders. -/
theorem emptyTable_shape : normalizeNewlines windowsTable = emptyTable ∧ '\r' ∉ emptyTable ∧
    insertionPoint? emptyTable = some ("export const routes = [\n".toList, "];\n".toList) ∧
    occursIn (routeMark "orders") emptyTable = false := by
  rw [insertionPoint?, wildcardOffset?, ofText_eq_treeOf]
  unfold windowsTable emptyTable routeMark
  repeat rw [String.toList_ofList]
  decide +kernel

/-- Where the lines end with line feeds, the bytes stay as they are around the entry. -/
theorem register_inserts_emptyTable : ∃ changed new,
    register (treeWith emptyTable) AppRoutes.tableContext.appRoutes "orders" ordersName = .ok (changed, false) ∧
      changed.read AppRoutes.tableContext.appRoutes = .ok new ∧ Inserts (encode emptyTable) new := by
  obtain ⟨-, hnormal, hpoint, hmark⟩ := emptyTable_shape
  have hdone := @register_treeWith ordersName "orders" _ _ _ hnormal hmark hpoint
  obtain ⟨raw, before, after, place, hraw, -, hnew, -, -, -, hinserts⟩ := register_inserts hdone
  obtain rfl : raw = emptyTable :=
    encode_injective (Except.ok.inj (hraw.symm.trans (read_treeWith emptyTable)))
  exact ⟨_, _, hdone, hnew, (hinserts (by decide)).2 hnormal⟩

/-- Where a carriage return is in front of each line feed, all of them are lost. -/
theorem register_loses_lineEnds : ∃ changed old new,
    (treeWith windowsTable).read AppRoutes.tableContext.appRoutes = .ok old ∧
      register (treeWith windowsTable) AppRoutes.tableContext.appRoutes "orders" ordersName =
        .ok (changed, false) ∧
      changed.read AppRoutes.tableContext.appRoutes = .ok new ∧ ¬Inserts old new := by
  obtain ⟨heq, -, hpoint, hmark⟩ := emptyTable_shape
  have hsplit := (insertionPoint?_append hpoint).trans heq.symm
  rw [← heq] at hpoint hmark
  have hdone := @register_treeWith_normalized ordersName "orders" _ _ _ hmark hpoint
  refine ⟨_, _, _, read_treeWith windowsTable, hdone, read_treeWith _, ?_⟩
  have hiff := @inserts_encode_iff windowsTable _ _ (routeEntry "orders" ordersName) hsplit (by decide)
  rw [List.append_assoc] at hiff
  exact fun h => hiff.1 h (by decide)

end Feature

end VerticalSlice
