import VerticalSlice.Proofs.Feature.Reading
import VerticalSlice.Proofs.Tree.Rewriting

/-!
# What a failed generation leaves

A generation is a row of steps, and when one of them fails the ones before it stay done. So a call that
fails is not undone (`orders_stays_without_table`): folders on the way to the feature may have been made,
and the first of its files written. That is all there can be (`leaves_of_generate_error`): folders stay,
the route table is as before, and a name that is refused or files that are there already stop the call
before the first step.
-/

namespace VerticalSlice

namespace FileTree

variable {tree changed : FileTree} {base path : Path} {place : List Text}

/-- Two names in one folder lead to two places. -/
theorem eq_of_locate_child {name other : Text} (hname : name ≠ parentName)
    (hother : other ≠ parentName) (h : tree.locate (base.child name) = .ok place)
    (h' : tree.locate (base.child other) = .ok place) : name = other := by
  obtain ⟨outer, entries, houter, -, rfl⟩ := locate_of_locate_child hname h
  obtain ⟨outer', entries', houter', -, heq⟩ := locate_of_locate_child hother h'
  rw [houter] at houter'
  obtain rfl := Except.ok.inj houter'
  exact List.head_eq_of_cons_eq (List.append_cancel_left heq)

/-- If a way without turns leads to what was there before, it led there before. -/
theorem locate_eq_ok_of_get? {entry : FileTree} (hdots : parentName ∉ path.names)
    (h : changed.locate path = .ok place) (hentry : tree.get? place = some entry) :
    tree.locate path = .ok place := by
  have hnames := names_eq_of_locate h hdots
  unfold locate at h ⊢
  split at h
  · cases h
  · next hnul =>
    rw [← hnames] at hentry
    rw [if_neg hnul, ← hnames, walk_eq_ok_of_get? hdots hentry, List.nil_append]

end FileTree

namespace Feature

open FileTree

variable {context : Context} {request : Request} {name : FeatureName} {tree changed : FileTree}

/-! ## The steps -/

/-- Folders were made on the way to the feature, these files were written, and nothing else
happened. -/
structure IsPartlyWritten (context : Context) (name : FeatureName) (written : List (Path × Text))
    (tree changed : FileTree) : Prop where
  alters : Alters (fun place => IsNewFolder tree changed (folder context name) place ∨
    ∃ file ∈ written, changed.locate file.1 = .ok place) tree changed
  read : ∀ file ∈ written, changed.read file.1 = .ok (Text.Utf8.encode file.2)

/-- Files with different names are written one after the other, up to the first that cannot be. -/
theorem writeAll_cases {base : Path} {files : List (Text × Text)} {result : Except FileFault Unit}
    (hnames : ∀ file ∈ files, file.1 ≠ parentName) (hnodup : (files.map (·.1)).Nodup)
    (h : writeAll tree (files.map fun file => (base.child file.1, file.2)) = (changed, result)) :
    ∃ written rest, written ++ rest = files ∧
      Alters (fun place => ∃ file ∈ written, changed.locate (base.child file.1) = .ok place)
        tree changed ∧
      (∀ file ∈ written, changed.read (base.child file.1) = .ok (Text.Utf8.encode file.2)) ∧
      (rest = [] ↔ result = .ok ()) := by
  induction files generalizing tree with
  | nil =>
    obtain ⟨rfl, rfl⟩ := Prod.mk.inj h
    refine ⟨[], [], rfl, (alters_refl tree).mono fun _ => False.elim, fun file hfile => ?_, by simp⟩
    cases hfile
  | cons file rest ih =>
    rw [List.map_cons, writeAll] at h
    rw [List.map_cons, List.nodup_cons] at hnodup
    have hname := hnames file (List.mem_cons_self ..)
    have hrest : ∀ other ∈ rest, other.1 ≠ parentName := fun other hother =>
      hnames other (List.mem_cons_of_mem _ hother)
    cases hwrite : tree.writeText (base.child file.1) file.2 with
    | error fault =>
      rw [hwrite] at h
      obtain ⟨rfl, rfl⟩ := Prod.mk.inj h
      refine ⟨[], file :: rest, rfl, (alters_refl tree).mono fun _ => False.elim,
        fun file hfile => ?_, by simp⟩
      cases hfile
    | ok next =>
      rw [hwrite] at h
      obtain ⟨written, unwritten, rfl, halters, hread, hresult⟩ := ih hrest hnodup.2 h
      obtain ⟨place, hlocate, hfile, hfirst⟩ := exists_of_write hwrite
      have hthere : changed.locate (base.child file.1) = .ok place :=
        halters.folder.locate_eq_ok (hfirst.folder.locate_eq_ok hlocate)
      -- the files that follow have other names, so they leave this one alone
      have hkept : changed.sight place = next.sight place := by
        refine halters.same place ?_
        rintro ⟨other, hother, hplace⟩
        have hmem := List.mem_append_left unwritten hother
        have hsame := eq_of_locate_child hname (hrest other hmem) hthere hplace
        exact hnodup.1 (hsame ▸ List.mem_map_of_mem hmem)
      refine ⟨file :: written, unwritten, rfl, (hfirst.trans halters).mono fun other hother => ?_, ?_,
        hresult⟩
      · rcases hother with rfl | ⟨later, hlater, hplace⟩
        · exact ⟨file, List.mem_cons_self .., hthere⟩
        · exact ⟨later, List.mem_cons_of_mem _ hlater, hplace⟩
      · intro other hother
        rcases List.mem_cons.1 hother with rfl | hother
        · rw [sight_eq_file_iff.2 hfile, sight_eq_file_iff] at hkept
          rw [FileTree.read, hthere]
          dsimp only
          rw [hkept]
        · exact hread other hother

/-- Writing a feature makes its folder and writes its files in their order, as far as it gets. -/
theorem writeFeature_cases (hname : name.IsSpelling) {result : Except FileFault Unit}
    (h : writeFeature context tree name = (changed, result)) :
    ∃ written rest, written ++ rest = files context name ∧
      IsPartlyWritten context name written tree changed ∧ (rest = [] ↔ result = .ok ()) := by
  rw [writeFeature] at h
  split at h
  · next made fault hmade =>
    obtain ⟨rfl, rfl⟩ := Prod.mk.inj h
    refine ⟨[], files context name, rfl, ⟨(alters_makeFolders hmade).mono fun _ => .inl, ?_⟩, ?_⟩
    · intro file hfile
      cases hfile
    · simp [files, render_eq]
  · next made hmade =>
    have hnames : ∀ file ∈ render name, file.1 ≠ parentName := fun file hfile =>
      (isName_of_mem_render hname file hfile).2.2.1
    obtain ⟨written, rest, heq, halters, hread, hresult⟩ :=
      writeAll_cases hnames (nodup_render hname) h
    have hfiles : files context name =
        (render name).map fun file => ((folder context name).child file.1, file.2) := rfl
    refine ⟨written.map fun file => ((folder context name).child file.1, file.2),
      rest.map fun file => ((folder context name).child file.1, file.2), ?_, ⟨?_, ?_⟩, ?_⟩
    · rw [hfiles, ← heq, List.map_append]
    · refine ((alters_makeFolders hmade).trans halters).mono fun place hplace => ?_
      rcases hplace with hplace | ⟨file, hfile, hplace⟩
      · exact .inl (hplace.mono halters.folder rfl (List.prefix_refl _))
      · exact .inr ⟨_, List.mem_map_of_mem hfile, hplace⟩
    · rw [List.forall_mem_map]
      exact hread
    · rw [List.map_eq_nil_iff, hresult]

/-! ## What is left alone -/

/-- The file of a feature lies three names below the folder of the application. -/
theorem exists_of_locate_file (hname : name.IsSpelling) {file : Path × Text}
    (hfile : file ∈ files context name) {place : List Text}
    (h : tree.locate file.1 = .ok place) :
    ∃ app last, tree.locate context.appFolder = .ok app ∧
      place = app ++ ["features".toList, name.kebab, last] := by
  obtain ⟨rendered, hrendered, rfl⟩ := List.mem_map.1 hfile
  obtain ⟨own, _, hown, -, rfl⟩ :=
    locate_of_locate_child (isName_of_mem_render hname rendered hrendered).2.2.1 h
  obtain ⟨features, _, hfeatures, -, rfl⟩ := locate_of_locate_child (isName_kebab hname).2.2.1 hown
  obtain ⟨app, _, happ, -, rfl⟩ := locate_of_locate_child (by decide) hfeatures
  exact ⟨app, rendered.1, happ, by simp⟩

/-- The route table lies beside the folder of the features, so it is none of the files of a feature. -/
theorem ne_of_locate_appRoutes (hname : name.IsSpelling) {file : Path × Text}
    (hfile : file ∈ files context name) {place table : List Text}
    (hplace : tree.locate file.1 = .ok place) (htable : tree.locate context.appRoutes = .ok table) :
    place ≠ table := by
  obtain ⟨app, last, happ, rfl⟩ := exists_of_locate_file hname hfile hplace
  obtain ⟨app', _, happ', -, rfl⟩ := locate_of_locate_child (by decide) htable
  rw [happ] at happ'
  obtain rfl := Except.ok.inj happ'
  intro heq
  have hlength := congrArg List.length heq
  simp at hlength

/-- The text of the table stays. -/
theorem IsPartlyWritten.readText_appRoutes {written : List (Path × Text)} (hname : name.IsSpelling)
    (hwritten : written ⊆ files context name)
    (h : IsPartlyWritten context name written tree changed)
    (htable : tree.hasFile context.appRoutes = true) :
    changed.readText context.appRoutes = tree.readText context.appRoutes := by
  obtain ⟨place, bytes, hplace, hbytes⟩ := locate_of_hasFile htable
  have hthere := h.alters.folder.locate_eq_ok hplace
  refine readText_congr hplace hthere (h.alters.same place ?_)
  rintro (hnew | ⟨file, hfile, hlocate⟩)
  · have hnone := sight_eq_none_iff.1 hnew.1
    rw [hbytes] at hnone
    cases hnone
  · exact ne_of_locate_appRoutes hname (hwritten hfile) hlocate hthere rfl

/-- Files that are not found before the first step are not there, if the way to them has no turns. -/
theorem IsPartlyWritten.keeps_files {written : List (Path × Text)} (hname : name.IsSpelling)
    (hwritten : written ⊆ files context name)
    (h : IsPartlyWritten context name written tree changed)
    (hfree : existing? tree (files context name) = none)
    (hdots : parentName ∉ context.featuresFolder.names) {place : List Text} {bytes : List UInt8}
    (hbytes : tree.get? place = some (.file bytes)) : changed.get? place = some (.file bytes) := by
  rw [← sight_eq_file_iff] at hbytes ⊢
  rw [h.alters.same place, hbytes]
  rintro (hnew | ⟨file, hfile, hlocate⟩)
  · rw [hnew.1] at hbytes
    cases hbytes
  · have hmem := hwritten hfile
    have habsent := hasEntry_eq_false_of_existing hfree file hmem
    obtain ⟨rendered, hrendered, rfl⟩ := List.mem_map.1 hmem
    have hstraight : parentName ∉ ((folder context name).child rendered.1).names := by
      have hlast := (isName_of_mem_render hname rendered hrendered).2.2.1
      have hown := (isName_kebab hname).2.2.1
      simp [Feature.folder, Path.child, hdots, hlast.symm, hown.symm]
    have hbefore := locate_eq_ok_of_get? hstraight hlocate (sight_eq_file_iff.1 hbytes)
    rw [hasEntry_eq_of_locate hbefore, hbytes] at habsent
    cases habsent

/-! ## A call that fails -/

/-- What a call that failed leaves, by what it failed with: after a refusal the tree from before, after
a fault at a file the first files of the feature, and after a fault at the route table the feature as
the same call writes it without registering it. -/
def Leaves (context : Context) (request : Request) (tree changed : FileTree) :
    GenerationFault → Prop
  | .badName _ => changed = tree
  | .wouldOverwrite _ => changed = tree
  | .file _ => ∃ name written rest, FeatureName.ofText? request.name = some name ∧
      written ++ rest = files context name ∧ rest ≠ [] ∧
      IsPartlyWritten context name written tree changed
  | .registration _ => ∃ name done, FeatureName.ofText? request.name = some name ∧
      IsPartlyWritten context name (files context name) tree changed ∧
      generate context tree { request with register := false } = (changed, .ok done)

theorem generate_eq_generateNamed (request : Request)
    (hspelled : FeatureName.ofText? request.name = some name)
    (hfree : request.overwrite = false → existing? tree (files context name) = none) :
    generate context tree request = generateNamed context tree name request := by
  rw [generate, hspelled]
  cases hoverwrite : request.overwrite with
  | true => rfl
  | false =>
    dsimp only
    rw [if_neg Bool.false_ne_true, hfree hoverwrite]

theorem generateNamed_of_register {problem : RegistrationFault}
    (hfeature : writeFeature context tree name = (changed, .ok ())) (hregister : request.register = true)
    (h : register changed context.appRoutes (request.routePath name) name = .error problem) :
    generateNamed context tree name request = (changed, .error (.registration problem)) := by
  rw [generateNamed, hfeature]
  dsimp only
  rw [if_pos hregister, h]

theorem generateNamed_of_registered {made : FileTree} {present : Bool}
    (hfeature : writeFeature context tree name = (made, .ok ())) (hregister : request.register = true)
    (h : register made context.appRoutes (request.routePath name) name = .ok (changed, present)) :
    generateNamed context tree name request =
      (changed, .ok (generated context name (some (request.routePath name)) present)) := by
  rw [generateNamed, hfeature]
  dsimp only
  rw [if_pos hregister, h]

/-- A call that is not refused generates the feature under an accepted name. -/
theorem exists_generateNamed_of_generate {done : Generated}
    (h : generate context tree request = (changed, .ok done)) :
    ∃ name, FeatureName.ofText? request.name = some name ∧
      generateNamed context tree name request = (changed, .ok done) := by
  rw [generate] at h
  cases hspelled : FeatureName.ofText? request.name with
  | none => rw [hspelled] at h; cases (Prod.mk.inj h).2
  | some name =>
    rw [hspelled] at h
    dsimp only at h
    split at h
    · cases (Prod.mk.inj h).2
    · exact ⟨name, rfl, h⟩

/-- A call that puts its route into the table and succeeds has written the feature before. -/
theorem exists_register_of_generateNamed {done : Generated} (hregister : request.register = true)
    (h : generateNamed context tree name request = (changed, .ok done)) :
    ∃ made present, writeFeature context tree name = (made, .ok ()) ∧
      register made context.appRoutes (request.routePath name) name = .ok (changed, present) ∧
      done = generated context name (some (request.routePath name)) present := by
  rw [generateNamed] at h
  cases hfeature : writeFeature context tree name with
  | mk made result =>
    rw [hfeature] at h
    cases result with
    | error fault => cases (Prod.mk.inj h).2
    | ok =>
      dsimp only at h
      rw [if_pos hregister] at h
      cases hregistered : register made context.appRoutes (request.routePath name) name with
      | error fault =>
        rw [hregistered] at h
        cases (Prod.mk.inj h).2
      | ok registered =>
        rw [hregistered] at h
        obtain ⟨rfl, hok⟩ := Prod.mk.inj h
        exact ⟨made, registered.2, rfl, hregistered, (Except.ok.inj hok).symm⟩

/-- Behind the refusals a call fails at a file of the feature, or at the route table with all files
written. -/
theorem generateNamed_error_cases {fault : GenerationFault}
    (h : generateNamed context tree name request = (changed, .error fault)) :
    (∃ problem, fault = .file problem ∧
        writeFeature context tree name = (changed, .error problem)) ∨
      ∃ problem, fault = .registration problem ∧
        writeFeature context tree name = (changed, .ok ()) := by
  rw [generateNamed] at h
  cases hfeature : writeFeature context tree name with
  | mk made result =>
    rw [hfeature] at h
    cases result with
    | error problem =>
      obtain ⟨rfl, hfault⟩ := Prod.mk.inj h
      exact .inl ⟨problem, (Except.error.inj hfault).symm, rfl⟩
    | ok done =>
      dsimp only at h
      split at h
      · cases hregister : register made context.appRoutes (request.routePath name) name with
        | error problem =>
          rw [hregister] at h
          obtain ⟨rfl, hfault⟩ := Prod.mk.inj h
          exact .inr ⟨problem, (Except.error.inj hfault).symm, rfl⟩
        | ok registered =>
          rw [hregister] at h
          cases (Prod.mk.inj h).2
      · cases (Prod.mk.inj h).2

/-- A call that fails leaves folders, the route table and, unless files may be replaced, all files as
they were; what it may have done is to begin writing the feature. -/
theorem leaves_of_generate_error {fault : GenerationFault}
    (h : generate context tree request = (changed, .error fault)) :
    Leaves context request tree changed fault ∧
      (tree.hasFile context.appRoutes = true →
        changed.readText context.appRoutes = tree.readText context.appRoutes) ∧
      (request.overwrite = false → parentName ∉ context.featuresFolder.names →
        ∀ place bytes, tree.get? place = some (.file bytes) →
          changed.get? place = some (.file bytes)) := by
  cases hspelled : FeatureName.ofText? request.name with
  | none =>
    rw [generate, hspelled] at h
    obtain ⟨rfl, hfault⟩ := Prod.mk.inj h
    obtain rfl := Except.error.inj hfault
    exact ⟨rfl, fun _ => rfl, fun _ _ _ _ hbytes => hbytes⟩
  | some name =>
    by_cases hfree : request.overwrite = false → existing? tree (files context name) = none
    · have hname : name.IsSpelling := ⟨request.name, hspelled⟩
      -- what holds of all that writing the files may leave
      have hkept : ∀ {written}, written ⊆ files context name →
          IsPartlyWritten context name written tree changed →
          (tree.hasFile context.appRoutes = true →
            changed.readText context.appRoutes = tree.readText context.appRoutes) ∧
          (request.overwrite = false → parentName ∉ context.featuresFolder.names →
            ∀ place bytes, tree.get? place = some (.file bytes) →
              changed.get? place = some (.file bytes)) := fun hwritten hpart =>
        ⟨hpart.readText_appRoutes hname hwritten, fun hkeep hdots _ _ hbytes =>
          hpart.keeps_files hname hwritten (hfree hkeep) hdots hbytes⟩
      rw [generate_eq_generateNamed request hspelled hfree] at h
      rcases generateNamed_error_cases h with ⟨problem, rfl, hfeature⟩ | ⟨problem, rfl, hfeature⟩
      · obtain ⟨written, rest, hall, hpart, hrest⟩ := writeFeature_cases hname hfeature
        refine ⟨⟨name, written, rest, hspelled, hall, fun hnil => ?_, hpart⟩, hkept ?_ hpart⟩
        · cases hrest.1 hnil
        · rw [← hall]
          exact List.subset_append_left _ _
      · obtain ⟨written, rest, hall, hpart, hrest⟩ := writeFeature_cases hname hfeature
        rw [hrest.2 rfl, List.append_nil] at hall
        subst hall
        refine ⟨⟨name, generated context name none false, hspelled, hpart, ?_⟩,
          hkept (List.Subset.refl _) hpart⟩
        rw [generate_eq_generateNamed { request with register := false } hspelled hfree,
          generateNamed, hfeature]
        rfl
    · obtain ⟨hkeep, hexisting⟩ := Classical.not_imp.1 hfree
      obtain ⟨path, hpath⟩ := Option.ne_none_iff_exists'.1 hexisting
      rw [generate, hspelled, hkeep] at h
      dsimp only at h
      rw [if_neg Bool.false_ne_true, hpath] at h
      obtain ⟨rfl, hfault⟩ := Prod.mk.inj h
      obtain rfl := Except.error.inj hfault
      exact ⟨rfl, fun _ => rfl, fun _ _ _ _ hbytes => hbytes⟩

/-! ## A route table that cannot be used -/

/-- A workspace at the root of the file system. -/
def plainContext : Context := ⟨⟨.root, []⟩, ⟨[]⟩, [], [], ⟨.root, ["src"]⟩, {}⟩

/-- An application without features, with these entries beside the folder for them. -/
def appTree (entries : List (Text × FileTree)) : FileTree :=
  .folder [("src", .folder [("app", .folder (("features", empty) :: entries))])]

/-- A feature that is to be put into the route table. -/
def ordersRequest : Request := { name := "orders", register := true }

def ordersPlace : List Text := ["src", "app", "features", "orders"]

/-- A route table that is no text. -/
def badTable : List (Text × FileTree) := [("app.routes.ts", .file [255])]

def badTableFault : ReadFault := .encoding ⟨0, [255], .invalidStart⟩

theorem generate_badTable : ∃ changed, generate plainContext (appTree badTable) ordersRequest =
    (changed, .error (.registration (.unreadable badTableFault))) := by
  let changed := (writeFeature plainContext (appTree badTable) (FeatureName.spell "orders")).1
  have hthere : changed.hasFile plainContext.appRoutes = true := by decide +kernel
  have hread : changed.readText plainContext.appRoutes = .error badTableFault := by decide +kernel
  have hregister : register changed plainContext.appRoutes "orders" (FeatureName.spell "orders") =
      .error (.unreadable badTableFault) := by
    rw [register, if_pos hthere, hread]
  refine ⟨changed, ?_⟩
  rw [generate_eq_generateNamed ordersRequest rfl fun _ => rfl]
  exact generateNamed_of_register rfl rfl hregister

/-- Where the route table is no text, the call fails with all files of the feature written. -/
theorem leaves_of_badTable : ∃ changed name done,
    generate plainContext (appTree badTable) ordersRequest =
        (changed, .error (.registration (.unreadable badTableFault))) ∧
      IsPartlyWritten plainContext name (files plainContext name) (appTree badTable) changed ∧
      generate plainContext (appTree badTable) { name := "orders" } = (changed, .ok done) ∧
      changed.readText plainContext.appRoutes = .error badTableFault ∧
      changed.get? ["src", "app", "app.routes.ts"] = some (.file [255]) := by
  obtain ⟨changed, hgenerate⟩ := generate_badTable
  obtain ⟨⟨name, done, -, hpart, hplain⟩, htable, hkeeps⟩ := leaves_of_generate_error hgenerate
  refine ⟨changed, name, done, hgenerate, hpart, hplain, ?_, hkeeps rfl (by decide) _ _ rfl⟩
  rw [htable (by decide)]
  decide +kernel

/-- Where there is no route table, the call fails and the folder of the feature is there. -/
theorem orders_stays_without_table : ∃ changed,
    generate plainContext (appTree []) ordersRequest =
        (changed, .error (.registration (.noTable ⟨.root, ["src", "app", "app.routes.ts"]⟩))) ∧
      (appTree []).get? ordersPlace = none ∧
      (changed.get? ordersPlace).any isFolder = true := by
  refine ⟨(generate plainContext (appTree []) ordersRequest).1, rfl, rfl, ?_⟩
  decide +kernel

end Feature

end VerticalSlice
