import VerticalSlice.Feature.Generation
import VerticalSlice.Proofs.Feature.Files
import VerticalSlice.Proofs.Tree.Order

/-!
# What writing a feature does to the file tree

The folder of a feature is made if it is not there, and its files are put into it, where nothing was
before (`exists_isWritten`). All else stays as it is: the tree grows by these places and no others.
-/

namespace VerticalSlice

namespace FileTree

variable {tree : FileTree} {base : Path} {place : List Text} {inside : List (Text × FileTree)}

theorem locate_child (hplace : tree.locate base = .ok place)
    (hfolder : tree.get? place = some (.folder inside)) {name : Text} (hname : IsName name) :
    tree.locate (base.child name) = .ok (place ++ [name]) := by
  have hnames : ∀ other ∈ [name], IsName other := by simpa using hname
  have hwalk := locate_append hplace hnames
  rw [Path.child, hwalk, walk, hfolder]
  dsimp only
  rw [if_neg hname.2.2.1, walk]

/-- Below a folder a folder is made where nothing is, and left alone where one is already. -/
theorem makeFolders_child (hplace : tree.locate base = .ok place)
    (hfolder : tree.get? place = some (.folder inside)) {name : Text} (hname : IsName name) :
    tree.makeFolders (base.child name) =
      match tree.get? (place ++ [name]) with
      | none => (tree.put (place ++ [name]) empty, .ok ())
      | some (.folder _) => (tree, .ok ())
      | some (.file _) => (tree, .error ⟨.alreadyThere, base.child name⟩) := by
  have hlocate := locate_child hplace hfolder hname
  have hnames : (base.child name).names.reverse = name :: base.names.reverse := by
    rw [Path.child, List.reverse_append]
    rfl
  have hpath : Path.mk base.anchor (name :: base.names.reverse).reverse = base.child name := by
    rw [Path.child, List.reverse_cons, List.reverse_reverse]
  rw [makeFolders, hnames]
  show makeFoldersRev tree base.anchor _ = _
  rw [makeFoldersRev, hpath, makeFolder, hlocate]
  dsimp only
  rw [List.dropLast_concat, hfolder]
  cases hentry : tree.get? (place ++ [name]) with
  | none => rfl
  | some entry =>
    have hasFolder : tree.hasFolder (base.child name) = entry.isFolder := by
      rw [hasFolder_child hplace hname, hentry]
      rfl
    dsimp only
    rw [tolerate, hasFolder]
    cases entry <;> rfl

/-- Below a folder a file is written where nothing is. -/
theorem writeText_child (hplace : tree.locate base = .ok place)
    (hfolder : tree.get? place = some (.folder inside)) {name : Text} (hname : IsName name)
    (habsent : tree.get? (place ++ [name]) = none) (text : Text) :
    tree.writeText (base.child name) text =
      .ok (tree.put (place ++ [name]) (.file (Text.Utf8.encode text))) := by
  rw [writeText, write, locate_child hplace hfolder hname]
  dsimp only
  rw [habsent, List.dropLast_concat, hfolder]

end FileTree

namespace Feature

open FileTree

variable {tree changed : FileTree}

theorem hasEntry_eq_false_of_existing {files : List (Path × Text)} (h : existing? tree files = none) :
    ∀ file ∈ files, tree.hasEntry file.1 = false := by
  rw [existing?, Option.map_eq_none_iff, List.find?_eq_none] at h
  intro file hfile
  simpa using h file hfile

/-- Files with different names are written into a folder that has none of them. -/
theorem exists_writeAll {base : Path} {place : List Text} {files : List (Text × Text)}
    {inside : List (Text × FileTree)} (hwf : tree.WellFormed)
    (hplace : tree.locate base = .ok place) (hfolder : tree.get? place = some (.folder inside))
    (hnames : ∀ file ∈ files, IsName file.1) (hnodup : (files.map (·.1)).Nodup)
    (habsent : ∀ file ∈ files, tree.get? (place ++ [file.1]) = none) :
    ∃ changed, writeAll tree (files.map fun file => (base.child file.1, file.2)) =
        (changed, .ok ()) ∧ changed.WellFormed ∧
      Grows (fun names => ∃ file ∈ files, names = place ++ [file.1]) tree changed ∧
      ∀ file ∈ files, changed.get? (place ++ [file.1]) = some (.file (Text.Utf8.encode file.2)) := by
  induction files generalizing tree inside with
  | nil =>
    refine ⟨tree, rfl, hwf, (grows_refl tree).congr fun names => ?_, fun file hfile => ?_⟩
    · simp
    · cases hfile
  | cons file rest ih =>
    have hname := hnames file (List.mem_cons_self ..)
    have hnone := habsent file (List.mem_cons_self ..)
    rw [List.map_cons, List.nodup_cons] at hnodup
    let written := tree.put (place ++ [file.1]) (.file (Text.Utf8.encode file.2))
    have hgrows : Grows (· = place ++ [file.1]) tree written := grows_put hfolder hnone rfl
    obtain ⟨others, hothers⟩ := hgrows.get?_folder hfolder
    have hrest : ∀ other ∈ rest, written.get? (place ++ [other.1]) = none := by
      intro other hother
      have hne : place ++ [other.1] ≠ place ++ [file.1] := by
        intro heq
        have hsame := List.head_eq_of_cons_eq (List.append_cancel_left heq)
        exact hnodup.1 (hsame ▸ List.mem_map_of_mem hother)
      rw [← sight_eq_none_iff, hgrows.same _ hne, sight_eq_none_iff]
      exact habsent other (List.mem_cons_of_mem _ hother)
    obtain ⟨changed, hchanged, hwfChanged, hlater, hfiles⟩ :=
      ih (wellFormed_put hwf hfolder hname (wellFormed_file _)) (hgrows.locate_eq_ok hplace) hothers
        (fun other hother => hnames other (List.mem_cons_of_mem _ hother)) hnodup.2 hrest
    refine ⟨changed, ?_, hwfChanged, (hgrows.trans hlater).congr fun names => ?_, ?_⟩
    · rw [List.map_cons, writeAll, writeText_child hplace hfolder hname hnone]
      exact hchanged
    · simp
    · intro other hother
      rcases List.mem_cons.1 hother with rfl | hother
      · exact hlater.get?_file (get?_put_self hfolder)
      · exact hfiles other hother

/-! ## The places of a feature -/

variable {context : Context} {name : FeatureName}

theorem isName_kebab (hname : name.IsSpelling) : IsName name.kebab := by
  obtain ⟨c, rest, hkebab, hlower, hall⟩ := hname.kebab
  have hletter : c ≠ '.' := by
    rintro rfl
    exact absurd hlower (by decide)
  rw [hkebab]
  refine ⟨List.cons_ne_nil _ _, fun h => hletter (List.cons.inj h).1,
    fun h => hletter (List.cons.inj h).1, fun h => ?_, fun h => ?_⟩
  · exact absurd (hall _ h) (by decide)
  · exact absurd (hall _ h) (by decide)

/-- A name goes on as a name behind the spelling for files. -/
theorem isName_kebab_append (hname : name.IsSpelling) {rest : Text} (hslash : '/' ∉ rest)
    (hnul : '\x00' ∉ rest) : IsName (name.kebab ++ rest) := by
  obtain ⟨c, kebab, hkebab, hlower, -⟩ := hname.kebab
  have hletter : c ≠ '.' := by
    rintro rfl
    exact absurd hlower (by decide)
  have hold := isName_kebab hname
  refine ⟨?_, ?_, ?_, ?_, ?_⟩
  · rw [hkebab]
    exact List.cons_ne_nil _ _
  · rw [hkebab]
    exact fun h => hletter (List.cons.inj h).1
  · rw [hkebab]
    exact fun h => hletter (List.cons.inj h).1
  · rw [List.mem_append, not_or]
    exact ⟨hold.2.2.2.1, hslash⟩
  · rw [List.mem_append, not_or]
    exact ⟨hold.2.2.2.2, hnul⟩

theorem isName_of_mem_render (hname : name.IsSpelling) :
    ∀ file ∈ render name, IsName file.1 := by
  rw [render_eq]
  simp only [List.forall_mem_cons, List.not_mem_nil, false_implies, implies_true, and_true]
  exact ⟨isName_kebab_append hname (by decide) (by decide),
    isName_kebab_append hname (by decide) (by decide),
    isName_kebab_append hname (by decide) (by decide),
    isName_kebab_append hname (by decide) (by decide),
    isName_kebab_append hname (by decide) (by decide), by decide⟩

theorem nodup_render (hname : name.IsSpelling) : ((render name).map (·.1)).Nodup := by
  obtain ⟨c, rest, hkebab, hlower, -⟩ := hname.kebab
  have hreadme : ∀ rest, name.kebab ++ rest ≠ "README.md".toList := by
    rw [hkebab]
    intro more heq
    have hletter : c = 'R' := (List.cons.inj heq).1
    rw [hletter] at hlower
    exact absurd hlower (by decide)
  rw [render_eq]
  simp only [List.map_cons, List.map_nil, List.nodup_cons, List.mem_cons, List.append_cancel_left_eq,
    hreadme, List.not_mem_nil, or_false, not_false_eq_true, List.nodup_nil, and_true]
  decide

/-- Where the folder of the features is there, a file that is not found is not there. -/
theorem get?_eq_none_of_existing (hname : name.IsSpelling) {place : List Text}
    (hplace : tree.locate context.featuresFolder = .ok place)
    (h : existing? tree (files context name) = none) {file : Text × Text} (hfile : file ∈ render name) :
    tree.get? (place ++ [name.kebab, file.1]) = none := by
  have hnames : ∀ other ∈ [name.kebab, file.1], IsName other := by
    simp only [List.forall_mem_cons, List.not_mem_nil, false_implies, implies_true, and_true]
    exact ⟨isName_kebab hname, isName_of_mem_render hname file hfile⟩
  have hnone : tree.hasEntry ((Feature.folder context name).child file.1) = false :=
    hasEntry_eq_false_of_existing h _ (List.mem_map_of_mem hfile)
  have hentry := entry?_append hplace hnames
  rw [hasEntry, Feature.folder, Path.child, Path.child, List.append_assoc, List.singleton_append,
    hentry] at hnone
  simpa using hnone

/-- The places that come into being with a feature in the folder at `place`: that of its own folder,
if it is not there, and those of its files. -/
def IsPlaceOf (tree : FileTree) (place : List Text) (name : FeatureName) (names : List Text) : Prop :=
  names = place ++ [name.kebab] ∧ tree.get? names = none ∨
    ∃ file ∈ render name, names = place ++ [name.kebab, file.1]

/-- The files of a feature were written where nothing was, and nothing else happened. -/
structure IsWritten (context : Context) (name : FeatureName) (place : List Text)
    (tree changed : FileTree) : Prop where
  locate : tree.locate context.featuresFolder = .ok place
  wellFormed : changed.WellFormed
  grows : Grows (IsPlaceOf tree place name) tree changed
  folder : ∃ entries, changed.get? (place ++ [name.kebab]) = some (.folder entries)
  files : ∀ file ∈ render name,
    changed.get? (place ++ [name.kebab, file.1]) = some (.file (Text.Utf8.encode file.2))

/-- Unless a file is in the place of its folder, a feature whose files are not there is written. -/
theorem exists_isWritten (hwf : tree.WellFormed) (hname : name.IsSpelling) {place : List Text}
    {inside : List (Text × FileTree)} (hplace : tree.locate context.featuresFolder = .ok place)
    (hfolder : tree.get? place = some (.folder inside))
    (habsent : ∀ file ∈ render name, tree.get? (place ++ [name.kebab, file.1]) = none)
    (hnoFile : (tree.get? (place ++ [name.kebab])).any isFile = false) :
    ∃ changed, writeFeature context tree name = (changed, .ok ()) ∧
      IsWritten context name place tree changed := by
  have hkebab := isName_kebab hname
  -- the folder: it is made now, or it has been there
  obtain ⟨made, hmade, hwfMade, hgrows, entries, hentries⟩ : ∃ made,
      tree.makeFolders (Feature.folder context name) = (made, .ok ()) ∧ made.WellFormed ∧
        Grows (fun names => names = place ++ [name.kebab] ∧ tree.get? names = none) tree made ∧
        ∃ entries, made.get? (place ++ [name.kebab]) = some (.folder entries) := by
    rw [Feature.folder, makeFolders_child hplace hfolder hkebab]
    cases hentry : tree.get? (place ++ [name.kebab]) with
    | none =>
      refine ⟨_, rfl, wellFormed_put hwf hfolder hkebab wellFormed_empty,
        (grows_put hfolder hentry rfl).congr fun names => ?_, [], get?_put_self hfolder⟩
      exact ⟨fun h => ⟨h, h ▸ hentry⟩, fun h => h.1⟩
    | some entry =>
      cases entry with
      | file bytes => rw [hentry] at hnoFile; cases hnoFile
      | folder entries =>
        refine ⟨tree, rfl, hwf, (grows_refl tree).congr fun names => ?_, entries, hentry⟩
        refine ⟨False.elim, fun h => ?_⟩
        rw [h.1, hentry] at h
        cases h.2
  have hlocate : made.locate (Feature.folder context name) = .ok (place ++ [name.kebab]) := by
    obtain ⟨others, hothers⟩ := hgrows.get?_folder hfolder
    exact locate_child (hgrows.locate_eq_ok hplace) hothers hkebab
  have hnone : ∀ file ∈ render name, made.get? (place ++ [name.kebab] ++ [file.1]) = none := by
    intro file hfile
    rw [List.append_assoc, List.singleton_append, ← sight_eq_none_iff, hgrows.same, sight_eq_none_iff]
    · exact habsent file hfile
    · rintro ⟨heq, -⟩
      have hlength := congrArg List.length heq
      simp at hlength
  obtain ⟨changed, hchanged, hwfChanged, hlater, hfiles⟩ := exists_writeAll hwfMade hlocate hentries
    (isName_of_mem_render hname) (nodup_render hname) hnone
  refine ⟨changed, ?_, hplace, hwfChanged, (hgrows.trans hlater).congr fun names => ?_,
    hlater.get?_folder hentries, fun file hfile => ?_⟩
  · rw [writeFeature, hmade]
    exact hchanged
  · rw [IsPlaceOf]
    simp only [List.append_assoc, List.singleton_append]
  · have hthere := hfiles file hfile
    rwa [List.append_assoc, List.singleton_append] at hthere

end Feature

end VerticalSlice
