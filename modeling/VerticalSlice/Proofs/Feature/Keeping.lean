import VerticalSlice.Proofs.Feature.Faults
import VerticalSlice.Proofs.Feature.Registrations
import VerticalSlice.Proofs.FeatureImports.SourceRoot

/-!
# What a generation keeps

A generation looks for files in its way before it makes the first folder, and then it writes.
`IsGenerated` says of a call which places it may have touched, however it ends (`exists_isGenerated`). So a
call that may not replace files takes nothing away, puts new files into the folder of the feature only, and
leaves every other file but the route table as it was (`generate_keeps`). There is one way around the
refusal: where the way to the features turns back behind a folder that is missing, no file is found before
the first step, and making the missing folder opens the way to files that are there
(`page_lost_behind_ghost`).
-/

namespace VerticalSlice

namespace Feature

open FileTree

variable {context : Context} {request : Request} {name : FeatureName} {written : List (Path × Text)}
  {tree changed : FileTree} {outcome : Except GenerationFault Generated}

/-! ## The route table -/

/-- Registering a route touches the file with the table only, which is a file before and after. -/
theorem alters_register {file : Path} {route : Text} {present : Bool}
    (h : register tree file route name = .ok (changed, present)) :
    ∃ place, tree.locate file = .ok place ∧ Alters (· = place) tree changed ∧
      (changed.get? place).any isFile = (tree.get? place).any isFile := by
  obtain ⟨text, htext, hcases⟩ := register_ok_cases h
  obtain ⟨place, bytes, hplace, hbytes⟩ := locate_of_hasFile (hasFile_of_readText htext)
  rcases hcases with ⟨-, -, rfl⟩ | ⟨-, -, before, after, -, hwrite⟩
  · exact ⟨place, hplace, (alters_refl changed).mono fun _ => False.elim, rfl⟩
  · obtain ⟨other, hother, hnew, halters⟩ := exists_of_write hwrite
    rw [hplace] at hother
    obtain rfl := Except.ok.inj hother
    exact ⟨place, hplace, halters, by rw [hbytes, hnew]; rfl⟩

/-! ## What a call may touch -/

/-- These files of the feature were written, behind folders that are new, and if that was asked for, the
route table may have been. -/
structure IsGenerated (context : Context) (request : Request) (name : FeatureName)
    (written : List (Path × Text)) (tree changed : FileTree) : Prop where
  alters : Alters (fun place => IsNewFolder tree changed (folder context name) place ∨
    (∃ file ∈ written, changed.locate file.1 = .ok place) ∨
      request.register = true ∧ changed.locate context.appRoutes = .ok place) tree changed
  read : ∀ file ∈ written, changed.read file.1 = .ok (Text.Utf8.encode file.2)
  table : ∀ place, changed.locate context.appRoutes = .ok place →
    (changed.get? place).any isFile = (tree.get? place).any isFile

theorem IsPartlyWritten.isGenerated (hname : name.IsSpelling) (hwritten : written ⊆ files context name)
    (h : IsPartlyWritten context name written tree changed) :
    IsGenerated context request name written tree changed where
  alters := h.alters.mono fun place hplace => hplace.imp_right .inl
  read := h.read
  table place htable := by
    rw [any_isFile_eq, any_isFile_eq]
    by_cases hnew : IsNewFolder tree changed (folder context name) place
    · rw [hnew.1, hnew.2.1]
      rfl
    · rw [h.alters.same place]
      rintro (hfolder | ⟨file, hfile, hplace⟩)
      · exact hnew hfolder
      · exact ne_of_locate_appRoutes hname (hwritten hfile) hplace htable rfl

/-- Registering a route afterwards leaves the files of the feature alone. -/
theorem IsGenerated.register (hname : name.IsSpelling) (hwritten : written ⊆ files context name)
    (h : IsGenerated context request name written tree changed) (hasked : request.register = true)
    {later : FileTree} {route : Text} {present : Bool}
    (hregister : Feature.register changed context.appRoutes route name = .ok (later, present)) :
    IsGenerated context request name written tree later := by
  obtain ⟨table, htable, halters, hfile⟩ := alters_register hregister
  have hthere := halters.folder.locate_eq_ok htable
  refine ⟨(h.alters.trans halters).mono fun place hplace => ?_, fun file hmem => ?_, fun place hplace => ?_⟩
  · rcases hplace with (hnew | ⟨file, hmem, hplace⟩ | ⟨-, hplace⟩) | rfl
    · exact .inl (hnew.mono halters.folder rfl (List.prefix_refl _))
    · exact .inr (.inl ⟨file, hmem, halters.folder.locate_eq_ok hplace⟩)
    · exact .inr (.inr ⟨hasked, halters.folder.locate_eq_ok hplace⟩)
    · exact .inr (.inr ⟨hasked, hthere⟩)
  · obtain ⟨place, hplace, -⟩ := locate_of_read (h.read file hmem)
    have hother := ne_of_locate_appRoutes hname (hwritten hmem) hplace htable
    rw [read_congr hplace (halters.folder.locate_eq_ok hplace) (halters.same place hother)]
    exact h.read file hmem
  · rw [hthere] at hplace
    obtain rfl := Except.ok.inj hplace
    rw [hfile, h.table _ htable]

/-- Whatever comes of a call under an accepted name, it has written the first files of the feature, and all
of them if it succeeds. -/
theorem exists_isGenerated_of_generateNamed (hname : name.IsSpelling)
    (h : generateNamed context tree name request = (changed, outcome)) :
    ∃ written rest, written ++ rest = files context name ∧
      IsGenerated context request name written tree changed ∧
      ∀ done, outcome = .ok done → done.name = name ∧ rest = [] := by
  rw [generateNamed] at h
  cases hfeature : writeFeature context tree name with
  | mk made result =>
    obtain ⟨written, rest, hall, hpart, hrest⟩ := writeFeature_cases hname hfeature
    have hwritten : written ⊆ files context name := hall ▸ List.subset_append_left _ _
    have hmade : IsGenerated context request name written tree made := hpart.isGenerated hname hwritten
    rw [hfeature] at h
    cases result with
    | error fault =>
      obtain ⟨rfl, rfl⟩ := Prod.mk.inj h
      exact ⟨written, rest, hall, hmade, fun done hdone => by cases hdone⟩
    | ok =>
      dsimp only at h
      split at h
      · next hasked =>
        cases hregister : register made context.appRoutes (request.routePath name) name with
        | error fault =>
          rw [hregister] at h
          obtain ⟨rfl, rfl⟩ := Prod.mk.inj h
          exact ⟨written, rest, hall, hmade, fun done hdone => by cases hdone⟩
        | ok registered =>
          rw [hregister] at h
          obtain ⟨rfl, rfl⟩ := Prod.mk.inj h
          refine ⟨written, rest, hall, hmade.register hname hwritten hasked hregister, ?_⟩
          rintro done ⟨⟩
          exact ⟨rfl, hrest.2 rfl⟩
      · obtain ⟨rfl, rfl⟩ := Prod.mk.inj h
        refine ⟨written, rest, hall, hmade, ?_⟩
        rintro done ⟨⟩
        exact ⟨rfl, hrest.2 rfl⟩

/-- A call that is not refused leaves what `IsGenerated` says, and one that is refused leaves the tree. -/
theorem exists_isGenerated (hkeep : request.overwrite = false)
    (h : generate context tree request = (changed, outcome)) :
    (changed = tree ∧ ∃ fault, outcome = .error fault) ∨
      ∃ name written rest, FeatureName.ofText? request.name = some name ∧
        existing? tree (files context name) = none ∧ written ++ rest = files context name ∧
        IsGenerated context request name written tree changed ∧
        ∀ done, outcome = .ok done → done.name = name ∧ rest = [] := by
  rw [generate, hkeep] at h
  cases hspelled : FeatureName.ofText? request.name with
  | none =>
    rw [hspelled] at h
    obtain ⟨rfl, rfl⟩ := Prod.mk.inj h
    exact .inl ⟨rfl, _, rfl⟩
  | some name =>
    rw [hspelled] at h
    dsimp only at h
    rw [if_neg Bool.false_ne_true] at h
    cases hfree : existing? tree (files context name) with
    | some path =>
      rw [hfree] at h
      obtain ⟨rfl, rfl⟩ := Prod.mk.inj h
      exact .inl ⟨rfl, _, rfl⟩
    | none =>
      rw [hfree] at h
      obtain ⟨written, rest, hall, hgenerated, hdone⟩ :=
        exists_isGenerated_of_generateNamed ⟨request.name, hspelled⟩ h
      exact .inr ⟨name, written, rest, rfl, hfree, hall, hgenerated, hdone⟩

/-! ## Files in the way -/

/-- The file at the place was in the way of the feature and was not found before the first step, because the
way to the features turns back and led nowhere then. -/
structure IsOverrun (context : Context) (request : Request) (tree changed : FileTree)
    (place : List Text) : Prop where
  turns : parentName ∈ context.featuresFolder.names
  unseen : tree.hasFolder context.featuresFolder = false
  replaced : ∃ name file, FeatureName.ofText? request.name = some name ∧ file ∈ files context name ∧
    changed.locate file.1 = .ok place ∧ changed.read file.1 = .ok (Text.Utf8.encode file.2)

/-- The route table is never overrun. -/
theorem not_isOverrun_appRoutes {place : List Text} (h : changed.locate context.appRoutes = .ok place) :
    ¬IsOverrun context request tree changed place := by
  rintro ⟨-, -, name, file, hspelled, hfile, hplace, -⟩
  exact ne_of_locate_appRoutes ⟨request.name, hspelled⟩ hfile hplace h rfl

/-- A file that is not found before the first step, though it is there, lies behind a turn of a way that led
nowhere. -/
theorem unseen_of_existing (hname : name.IsSpelling) (hfree : existing? tree (files context name) = none)
    (hkeeps : KeepsFolders tree changed) {file : Path × Text} (hfile : file ∈ files context name)
    {place : List Text} {bytes : List UInt8} (hbytes : tree.get? place = some (.file bytes))
    (hplace : changed.locate file.1 = .ok place) :
    parentName ∈ context.featuresFolder.names ∧ tree.hasFolder context.featuresFolder = false := by
  have habsent := hasEntry_eq_false_of_existing hfree file hfile
  have hnever : tree.locate file.1 ≠ .ok place := by
    intro hbefore
    rw [hasEntry_eq_of_locate hbefore, sight_eq_file_iff.2 hbytes] at habsent
    cases habsent
  obtain ⟨rendered, hrendered, rfl⟩ := List.mem_map.1 hfile
  have hlast := isName_of_mem_render hname rendered hrendered
  have hown := isName_kebab hname
  constructor
  · by_contra hdots
    refine hnever (locate_eq_ok_of_get? ?_ hplace hbytes)
    simp [Feature.folder, Path.child, hdots, hlast.2.2.1.symm, hown.2.2.1.symm]
  · rw [Bool.eq_false_iff]
    intro hfolder
    -- the way to the features leads where it led before, so the file is found
    obtain ⟨features, _, hfeatures, -⟩ := locate_of_hasFolder hfolder
    obtain ⟨own, _, hownPlace, -, rfl⟩ := locate_of_locate_child hlast.2.2.1 hplace
    obtain ⟨features', _, hfeatures', -, rfl⟩ := locate_of_locate_child hown.2.2.1 hownPlace
    rw [hkeeps.locate_eq_ok hfeatures] at hfeatures'
    obtain rfl := Except.ok.inj hfeatures'
    have hnone := get?_eq_none_of_existing hname hfeatures hfree hrendered
    rw [List.append_assoc, List.singleton_append, hnone] at hbytes
    cases hbytes

/-- A call that may not replace files, however it ends, takes nothing away, and leaves each file as it was,
but for the route table where a route is to be registered and for files that are overrun; the route table
stays if no route is to be registered. New files are those of the feature, and lie in its folder; when the
call succeeds, they hold what is written for them. -/
theorem generate_keeps (hkeep : request.overwrite = false)
    (h : generate context tree request = (changed, outcome)) :
    (∀ place, (tree.get? place).any isFolder = true → (changed.get? place).any isFolder = true) ∧
      (∀ place, (tree.get? place).any isFile = true → (changed.get? place).any isFile = true) ∧
      (∀ place bytes, tree.get? place = some (.file bytes) →
        ¬(request.register = true ∧ changed.locate context.appRoutes = .ok place) →
          changed.get? place = some (.file bytes) ∨ IsOverrun context request tree changed place) ∧
      (request.register = false → ∀ place bytes, changed.locate context.appRoutes = .ok place →
        tree.get? place = some (.file bytes) → changed.get? place = some (.file bytes)) ∧
      (∀ place, (tree.get? place).any isFile = false → (changed.get? place).any isFile = true →
        ∃ name outer file, FeatureName.ofText? request.name = some name ∧
          changed.locate (folder context name) = .ok outer ∧ file ∈ render name ∧
          place = outer ++ [file.1]) ∧
      ∀ done, outcome = .ok done → FeatureName.ofText? request.name = some done.name ∧
        ∀ file ∈ files context done.name, changed.read file.1 = .ok (Text.Utf8.encode file.2) := by
  rcases exists_isGenerated hkeep h with
    ⟨rfl, fault, rfl⟩ | ⟨name, written, rest, hspelled, hfree, hall, hgenerated, hdone⟩
  · refine ⟨fun _ => id, fun _ => id, fun place bytes hbytes _ => .inl hbytes,
      fun _ place bytes _ hbytes => hbytes, ?_, nofun⟩
    intro place hnone hfile
    rw [hnone] at hfile
    cases hfile
  · have hname : name.IsSpelling := ⟨request.name, hspelled⟩
    have hwritten : written ⊆ files context name := hall ▸ List.subset_append_left _ _
    have hkeeps := hgenerated.alters.folder
    have hfile : ∀ file ∈ written, ∀ place, changed.locate file.1 = .ok place →
        changed.get? place = some (.file (Text.Utf8.encode file.2)) := by
      intro file hmem place hplace
      obtain ⟨other, hother, hbytes⟩ := locate_of_read (hgenerated.read file hmem)
      rw [hplace] at hother
      rwa [← Except.ok.inj hother] at hbytes
    -- what there can be at a place, by what may have been done to it
    have hcases : ∀ place, changed.sight place = tree.sight place ∨
        IsNewFolder tree changed (folder context name) place ∨
        (∃ file ∈ written, changed.locate file.1 = .ok place) ∨
        request.register = true ∧ changed.locate context.appRoutes = .ok place := fun place =>
      or_iff_not_imp_right.2 (hgenerated.alters.same place)
    have hkept : ∀ place bytes, tree.get? place = some (.file bytes) →
        ¬(request.register = true ∧ changed.locate context.appRoutes = .ok place) →
          changed.get? place = some (.file bytes) ∨ IsOverrun context request tree changed place := by
      intro place bytes hbytes htable
      rcases hcases place with hsame | hnew | ⟨file, hmem, hplace⟩ | hasked
      · rw [sight_eq_file_iff.2 hbytes, sight_eq_file_iff] at hsame
        exact .inl hsame
      · have hnone := sight_eq_none_iff.1 hnew.1
        rw [hbytes] at hnone
        cases hnone
      · obtain ⟨hturns, hunseen⟩ :=
          unseen_of_existing hname hfree hkeeps (hwritten hmem) hbytes hplace
        exact .inr ⟨hturns, hunseen, name, file, hspelled, hwritten hmem, hplace,
          hgenerated.read file hmem⟩
      · exact absurd hasked htable
    refine ⟨fun place => ?_, fun place hthere => ?_, hkept, fun hasked place bytes hplace hbytes => ?_,
      fun place hnone hthere => ?_, ?_⟩
    · rw [any_isFolder_eq, any_isFolder_eq]
      intro hfolder
      obtain ⟨seen, hseen, hnone⟩ := (Option.any_eq_true _ _).1 hfolder
      rw [Option.isNone_iff_eq_none.1 hnone] at hseen
      rw [hkeeps place hseen]
      rfl
    · rcases hcases place with hsame | hnew | ⟨file, hmem, hplace⟩ | ⟨-, hplace⟩
      · rwa [any_isFile_eq, hsame, ← any_isFile_eq]
      · rw [any_isFile_eq, hnew.1] at hthere
        cases hthere
      · rw [hfile file hmem place hplace]
        rfl
      · rwa [hgenerated.table place hplace]
    · refine (hkept place bytes hbytes fun h => ?_).resolve_right (not_isOverrun_appRoutes hplace)
      rw [hasked] at h
      cases h.1
    · rcases hcases place with hsame | hnew | ⟨file, hmem, hplace⟩ | ⟨-, hplace⟩
      · rw [any_isFile_eq, hsame, ← any_isFile_eq, hnone] at hthere
        cases hthere
      · rw [any_isFile_eq, hnew.2.1] at hthere
        cases hthere
      · obtain ⟨rendered, hrendered, rfl⟩ := List.mem_map.1 (hwritten hmem)
        have hlast := (isName_of_mem_render hname rendered hrendered).2.2.1
        obtain ⟨outer, _, houter, -, rfl⟩ := locate_of_locate_child hlast hplace
        exact ⟨name, outer, rendered, hspelled, houter, hrendered, rfl⟩
      · rw [hgenerated.table place hplace, hnone] at hthere
        cases hthere
    · intro done hok
      obtain ⟨rfl, rfl⟩ := hdone done hok
      rw [List.append_nil] at hall
      subst hall
      exact ⟨hspelled, hgenerated.read⟩

/-! ## A feature beside other files -/

/-- Another file in the folder of a feature that is to be generated, and a route table that is no text. -/
def notesTree : FileTree :=
  .folder [("src", .folder [("app", .folder [
    ("features", .folder [("orders", .folder [("notes.txt", .file [7])])]),
    ("app.routes.ts", .file [255])])])]

/-- The feature is written beside the other file, which stays, and the route table is no obstacle if no route
is to be registered. -/
theorem generate_keeps_notesTree : ∃ changed done,
    generate plainContext notesTree { name := "orders" } = (changed, .ok done) ∧
      changed.get? ["src", "app", "features", "orders", "notes.txt"] = some (.file [7]) ∧
      changed.get? ["src", "app", "app.routes.ts"] = some (.file [255]) ∧
      ∀ file ∈ files plainContext done.name, changed.read file.1 = .ok (Text.Utf8.encode file.2) := by
  obtain ⟨changed, done, hgenerate⟩ : ∃ changed done,
      generate plainContext notesTree { name := "orders" } = (changed, .ok done) := ⟨_, _, rfl⟩
  obtain ⟨-, -, hkept, htable, -, hdone⟩ := generate_keeps rfl hgenerate
  have hseen : plainContext.featuresFolder.names.contains parentName = false := by decide
  have hnever : ∀ place, ¬IsOverrun plainContext { name := "orders" } notesTree changed place :=
    fun place hoverrun => absurd (List.contains_iff_mem.2 hoverrun.turns) (by rw [hseen]; decide)
  have hlocate : changed.locate plainContext.appRoutes = .ok ["src", "app", "app.routes.ts"] := by
    obtain ⟨rfl, -⟩ := Prod.mk.inj hgenerate
    rfl
  refine ⟨changed, done, hgenerate, ?_, htable rfl _ [255] hlocate rfl, (hdone done rfl).2⟩
  exact (hkept _ [7] rfl (fun hasked => absurd hasked.1 (by decide))).resolve_right (hnever _)

/-- A workspace whose source root turns back behind a folder that is not there. -/
def ghostContext : Context := FeatureImports.contextWith "ghost/../src"

/-- A workspace with a page of its own for the feature that is to be generated. -/
def ghostTree : FileTree :=
  .folder [("src", .folder [("app", .folder [("features", .folder [("orders", .folder [
    ("orders.page.ts", .file [7])])])])])]

/-- The page is replaced, although the call may not replace files. -/
theorem page_lost_behind_ghost : ∃ changed done,
    Workspace.select ⟨.root, []⟩ (FeatureImports.manifestWith "ghost/../src") {} none =
        .ok ghostContext ∧
      generate ghostContext ghostTree { name := "orders" } = (changed, .ok done) ∧
      ghostTree.get? ["src", "app", "features", "orders", "orders.page.ts"] = some (.file [7]) ∧
      changed.get? ["src", "app", "features", "orders", "orders.page.ts"] ≠ some (.file [7]) := by
  refine ⟨(generate ghostContext ghostTree { name := "orders" }).1, _, rfl, rfl, rfl, ?_⟩
  have hsight : (generate ghostContext ghostTree { name := "orders" }).1.sight
      ["src", "app", "features", "orders", "orders.page.ts"] ≠ some (some [7]) := by decide +kernel
  rwa [ne_eq, sight_eq_file_iff] at hsight

end Feature

end VerticalSlice
