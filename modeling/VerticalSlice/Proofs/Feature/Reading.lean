import Mathlib.Data.List.Basic
import VerticalSlice.Proofs.Feature.Writing
import VerticalSlice.Rule.Source

/-!
# Reading a workspace with a new feature

A file that was there before a feature was written is read as before, and a file of the feature is
read as it was written (`IsWritten.readText_of_mem_render`). A listing holds the files from before and
those of the feature, so what is gathered from all files of a listing changes by what the new files
contribute (`IsWritten.flatMap_collectFiles_eq`).
-/

namespace VerticalSlice

/-! ## Extensions -/

theorem Text.splitAtLast_eq_none {c : Char} {text : Text} (h : c ∉ text) :
    splitAtLast [c] text = none := by
  induction text with
  | nil => rfl
  | cons d rest ih =>
    rw [List.mem_cons, not_or] at h
    rw [splitAtLast, ih h.2]
    simp [List.isPrefixOf, h.1]

theorem Text.splitAtLast_append_cons {c : Char} {rest : Text} (h : c ∉ rest) (front : Text) :
    splitAtLast [c] (front ++ c :: rest) = some (front, c :: rest) := by
  induction front with
  | nil =>
    rw [List.nil_append, splitAtLast, splitAtLast_eq_none h]
    simp [List.isPrefixOf]
  | cons d front ih => rw [List.cons_append, splitAtLast, ih]

theorem Path.extensionOf_append {front rest : Text} (hfront : front ≠ []) (hrest : rest ≠ [])
    (hdot : '.' ∉ rest) : extensionOf (front ++ '.' :: rest) = '.' :: rest := by
  obtain ⟨c, front, rfl⟩ := List.exists_cons_of_ne_nil hfront
  obtain ⟨d, rest, rfl⟩ := List.exists_cons_of_ne_nil hrest
  rw [extensionOf, Text.splitAtLast_append_cons hdot]

namespace FileTree

variable {tree changed : FileTree} {path base : Path} {isNew : List Text → Prop}

/-- A file from before is read as before. -/
theorem Grows.readText_eq (h : Grows isNew tree changed) (hfile : tree.hasFile path = true) :
    changed.readText path = tree.readText path := by
  obtain ⟨place, bytes, hplace, hbytes⟩ := locate_of_hasFile hfile
  refine readText_congr hplace (h.locate_eq_ok hplace) ?_
  have hsight := sight_eq_file_iff.2 hbytes
  rw [h.sight_eq_of_some hsight, hsight]

theorem Grows.readSource_eq (h : Grows isNew tree changed) (hfile : tree.hasFile path = true) :
    changed.readSource path = tree.readSource path := by
  rw [readSource, readSource, h.readText_eq hfile]

theorem Grows.hasEntry (h : Grows isNew tree changed) (hentry : tree.hasEntry path = true) :
    changed.hasEntry path = true := by
  obtain ⟨place, entry, hplace, hthere⟩ := locate_of_hasEntry hentry
  have hseen : tree.sight place = some entry.bytes? := by
    rw [sight, hthere]
    rfl
  rw [hasEntry_eq_of_locate (h.locate_eq_ok hplace),
    h.sight_eq_of_some hseen]
  rfl

theorem Grows.hasFile (h : Grows isNew tree changed) (hfile : tree.hasFile path = true) :
    changed.hasFile path = true := by
  obtain ⟨place, bytes, hplace, hbytes⟩ := locate_of_hasFile hfile
  rw [hasFile_eq_of_locate (h.locate_eq_ok hplace),
    h.sight_eq_of_some (sight_eq_file_iff.2 hbytes)]
  rfl

theorem Grows.hasFolder (h : Grows isNew tree changed) (hfolder : tree.hasFolder path = true) :
    changed.hasFolder path = true := by
  obtain ⟨place, entries, hplace, hthere⟩ := locate_of_hasFolder hfolder
  rw [hasFolder_eq_of_locate (h.locate_eq_ok hplace),
    h.sight_eq_of_some (sight_eq_folder_iff.2 ⟨entries, hthere⟩)]
  rfl

/-- The folder around a place that a path leads to. -/
theorem locate_of_locate_child {place : List Text} {name : Text} (hname : name ≠ parentName)
    (h : tree.locate (base.child name) = .ok place) :
    ∃ outer entries, tree.locate base = .ok outer ∧ tree.get? outer = some (.folder entries) ∧
      place = outer ++ [name] := by
  unfold locate at h ⊢
  split at h
  · cases h
  · next hnul =>
    rw [Path.child, List.any_append, Bool.or_eq_true, not_or] at hnul
    rw [if_neg hnul.1]
    rw [Path.child, walk_append] at h
    cases hwalk : tree.walk [] base.names with
    | error problem => rw [hwalk] at h; cases h
    | ok outer =>
      rw [hwalk] at h
      have hstep : tree.walk outer [name] = .ok place := h
      rw [walk] at hstep
      split at hstep
      · cases hstep
      · cases hstep
      · next entries hentries =>
        rw [if_neg hname, walk] at hstep
        exact ⟨outer, entries, rfl, hentries, (Except.ok.inj hstep).symm⟩

end FileTree

namespace Feature

open FileTree

variable {context : Context} {name : FeatureName} {place : List Text} {tree changed : FileTree}
  {file text : Text}

/-- The files of a feature are sources, but for one. -/
theorem hasSuffix_of_mem_render (h : (file, text) ∈ render name) :
    hasSuffix [".ts"] file = true ∧ Path.extensionOf file = ".ts" ∨ file = "README.md".toList := by
  have hsource : ∀ rest : Text, rest ≠ [] → '.' ∉ rest →
      hasSuffix [".ts"] (name.kebab ++ '.' :: (rest ++ ".ts".toList)) = true ∧
        Path.extensionOf (name.kebab ++ '.' :: (rest ++ ".ts".toList)) = ".ts" := by
    intro rest hrest hdot
    have hsplit : name.kebab ++ '.' :: (rest ++ ".ts".toList) =
        (name.kebab ++ '.' :: rest) ++ '.' :: ['t', 's'] := by simp
    constructor
    · rw [hsplit, hasSuffix, List.any_eq_true]
      exact ⟨_, List.mem_cons_self .., List.isSuffixOf_iff_suffix.2 (List.suffix_append _ _)⟩
    · rw [hsplit]
      exact Path.extensionOf_append (by simp) (by decide) (by decide)
  rw [render_eq] at h
  simp only [List.mem_cons, Prod.mk.injEq, List.not_mem_nil, or_false] at h
  rcases h with ⟨rfl, -⟩ | ⟨rfl, -⟩ | ⟨rfl, -⟩ | ⟨rfl, -⟩ | ⟨rfl, -⟩ | ⟨rfl, -⟩
  · exact .inl (hsource "routes".toList (by decide) (by decide))
  · exact .inl (hsource "page".toList (by decide) (by decide))
  · exact .inl (hsource "data".toList (by decide) (by decide))
  · exact .inl (hsource "state".toList (by decide) (by decide))
  · exact .inl (hsource "models".toList (by decide) (by decide))
  · exact .inr rfl

theorem IsWritten.locate_file (h : IsWritten context name place tree changed)
    (hname : name.IsSpelling) (hfile : (file, text) ∈ render name) :
    changed.locate ((Feature.folder context name).child file) = .ok (place ++ [name.kebab, file]) := by
  have hnames : ∀ other ∈ [name.kebab, file], IsName other := by
    intro other hother
    rcases List.mem_cons.1 hother with rfl | hother
    · exact isName_kebab hname
    · rw [List.mem_singleton.1 hother]
      exact isName_of_mem_render hname _ hfile
  have hlocate := locate_eq_ok_append (h.grows.locate_eq_ok h.locate) hnames (h.files _ hfile)
  rw [Feature.folder, Path.child, Path.child, List.append_assoc]
  exact hlocate

/-- A file of the feature is read as it was written. -/
theorem IsWritten.readText_of_mem_render (h : IsWritten context name place tree changed)
    (hname : name.IsSpelling) (hfile : (file, text) ∈ render name) :
    changed.readText ((Feature.folder context name).child file) = .ok text := by
  rw [readText, FileTree.read, h.locate_file hname hfile]
  dsimp only
  rw [h.files _ hfile]
  dsimp only
  rw [ofBytes_of_mem_render hname hfile]

/-! ## Listings -/

/-- A listing of a folder around the feature has no new files but those of the feature. -/
theorem IsWritten.exists_of_mem_collectFiles (h : IsWritten context name place tree changed)
    {base path : Path} {above below : List Text} (hbase : tree.locate base = .ok above)
    (hplace : place = above ++ below)
    (hfolder : context.featuresFolder = ⟨base.anchor, base.names ++ below⟩)
    {suffixes ignored : List Text} (hpath : path ∈ changed.collectFiles base suffixes ignored)
    (hnew : tree.hasFile path = false) :
    ∃ file text, (file, text) ∈ render name ∧ path = (Feature.folder context name).child file ∧
      hasSuffix suffixes file = true := by
  have hlater := h.grows.locate_eq_ok hbase
  obtain ⟨found, names, hfound, hlists, rfl⟩ := (mem_collectFiles_iff h.wellFormed).1 hpath
  rw [entry?_eq_of_locate hlater] at hfound
  have hnames := isName_of_lists (wellFormed_of_get? h.wellFormed hfound) hlists
  have hinside : found.get? names = changed.get? (above ++ names) := by
    rw [get?_append, hfound]
    rfl
  have hfile := hlists.2.1
  rw [hinside, any_isFile_eq] at hfile
  -- the file lies at a new place, which is no folder
  have hplaceNew : IsPlaceOf tree place name (above ++ names) := by
    by_contra hold
    rw [h.grows.same _ hold, ← any_isFile_eq, ← entry?_append hbase hnames] at hfile
    rw [FileTree.hasFile, hfile] at hnew
    cases hnew
  rcases hplaceNew with ⟨heq, -⟩ | ⟨⟨file, text⟩, hrender, heq⟩
  · obtain ⟨entries, hentries⟩ := h.folder
    rw [heq, sight_eq_folder_iff.2 ⟨entries, hentries⟩] at hfile
    cases hfile
  · rw [hplace, List.append_assoc, List.append_cancel_left_eq] at heq
    refine ⟨file, text, hrender, ?_, ?_⟩
    · rw [Feature.folder, hfolder, Path.child, Path.child, heq]
      simp
    · have hlast : names.getLastD [] = file := by
        rw [heq]
        simp
      rw [← hlast]
      exact hlists.2.2.1

variable {α : Type}

theorem flatMap_filter_of_nil {β : Type} {list : List β} {p : β → Bool} {f : β → List α}
    (h : ∀ b ∈ list, p b = false → f b = []) : list.flatMap f = (list.filter p).flatMap f := by
  induction list with
  | nil => rfl
  | cons b rest ih =>
    have hrest := ih fun c hc => h c (List.mem_cons_of_mem _ hc)
    rw [List.flatMap_cons, hrest]
    cases hb : p b with
    | true => rw [List.filter_cons_of_pos hb, List.flatMap_cons]
    | false =>
      rw [List.filter_cons_of_neg (by rw [hb]; exact Bool.false_ne_true),
        h b (List.mem_cons_self ..) hb, List.nil_append]

theorem hasFile_of_mem_collectFiles {base path : Path} {suffixes ignored : List Text}
    (hwf : tree.WellFormed) (h : path ∈ tree.collectFiles base suffixes ignored) :
    tree.hasFile path = true := by
  obtain ⟨found, names, hfound, hlists, rfl⟩ := (mem_collectFiles_iff hwf).1 h
  have hinside := wellFormed_of_entry? hwf hfound
  have hnames := isName_of_lists hinside hlists
  unfold entry? at hfound
  cases hlocate : tree.locate base with
  | error problem => rw [hlocate] at hfound; cases hfound
  | ok place =>
    rw [hlocate] at hfound
    dsimp only at hfound
    rw [hasFile, entry?_append hlocate hnames, get?_append, hfound]
    exact hlists.2.1

/-- What is gathered from the files of a listing is what was gathered from those from before, if the
new files contribute nothing and the others the same. -/
theorem IsWritten.flatMap_collectFiles_eq (h : IsWritten context name place tree changed)
    (hwf : tree.WellFormed) {base : Path} {above below : List Text} {entries : List (Text × FileTree)}
    (hbase : tree.locate base = .ok above) (habove : tree.get? above = some (.folder entries))
    (hplace : place = above ++ below)
    (hfolder : context.featuresFolder = ⟨base.anchor, base.names ++ below⟩)
    (suffixes ignored : List Text) (gather before : Path → List α)
    (hnew : ∀ file text, (file, text) ∈ render name → hasSuffix suffixes file = true →
      gather ((Feature.folder context name).child file) = [])
    (hold : ∀ path, tree.hasFile path = true → gather path = before path) :
    (changed.collectFiles base suffixes ignored).flatMap gather =
      (tree.collectFiles base suffixes ignored).flatMap before := by
  have hhasFolder : tree.hasFolder base = true := by
    rw [hasFolder_eq_of_locate hbase, sight_eq_folder_iff.2 ⟨entries, habove⟩]
    rfl
  rw [← List.flatMap_congr fun path hpath => hold path (hasFile_of_mem_collectFiles hwf hpath),
    collectFiles_eq_filter h.grows hwf h.wellFormed hhasFolder]
  refine flatMap_filter_of_nil fun path hpath hno => ?_
  obtain ⟨file, text, hrender, rfl, hsuffix⟩ :=
    h.exists_of_mem_collectFiles hbase hplace hfolder hpath hno
  exact hnew file text hrender hsuffix

end Feature

end VerticalSlice
