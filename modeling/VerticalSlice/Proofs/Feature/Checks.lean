import Mathlib.Data.List.Flatten
import VerticalSlice.Proofs.Feature.Reading
import VerticalSlice.Rule.Check

/-!
# What the checks find in a workspace with a new feature

Of the files of a new feature no check has anything to say, and the files from before are read as
before. So no check finds anything that it did not find before: each check is gone through in turn.
The check of the structure and that of route tables may find less, since the new files may have been
missing before. The check of colours may find less only if a token file comes within reach.
-/

namespace VerticalSlice.Feature

open FileTree Syntax

variable {context : Context} {name : FeatureName} {place : List Text} {tree changed : FileTree}
  {file text : Text}

/-! ## The folders around a feature -/

/-- The folder of the application lies around that of the features. -/
theorem IsWritten.exists_appFolder (h : IsWritten context name place tree changed) :
    ∃ above entries, tree.locate context.appFolder = .ok above ∧
      tree.get? above = some (.folder entries) ∧ place = above ++ ["features".toList] :=
  locate_of_locate_child (by decide) h.locate

theorem IsWritten.hasFolder_features (h : IsWritten context name place tree changed)
    {inside : List (Text × FileTree)} (hfolder : tree.get? place = some (.folder inside)) :
    tree.hasFolder context.featuresFolder = true := by
  rw [hasFolder_eq_of_locate h.locate, sight_eq_folder_iff.2 ⟨inside, hfolder⟩]
  rfl

theorem IsWritten.hasFolder_app (h : IsWritten context name place tree changed) :
    tree.hasFolder context.appFolder = true := by
  obtain ⟨above, entries, habove, hentries, -⟩ := h.exists_appFolder
  rw [hasFolder_eq_of_locate habove, sight_eq_folder_iff.2 ⟨entries, hentries⟩]
  rfl

/-- What is gathered from the files of the application. -/
theorem IsWritten.flatMap_appFiles_eq {α : Type} (h : IsWritten context name place tree changed)
    (hwf : tree.WellFormed) (suffixes ignored : List Text) (gather before : Path → List α)
    (hnew : ∀ file text, (file, text) ∈ render name → hasSuffix suffixes file = true →
      gather ((Feature.folder context name).child file) = [])
    (hold : ∀ path, tree.hasFile path = true → gather path = before path) :
    (changed.collectFiles context.appFolder suffixes ignored).flatMap gather =
      (tree.collectFiles context.appFolder suffixes ignored).flatMap before := by
  obtain ⟨above, entries, habove, hentries, hplace⟩ := h.exists_appFolder
  exact h.flatMap_collectFiles_eq hwf habove hentries hplace rfl suffixes ignored gather before hnew hold

theorem IsWritten.readSource_of_mem_render (h : IsWritten context name place tree changed)
    (hname : name.IsSpelling) (hfile : (file, text) ∈ render name)
    (hsource : hasSuffix [".ts"] file = true) :
    ∃ root, changed.readSource ((Feature.folder context name).child file) = .ok ⟨root, true⟩ ∧
      SyntaxTree.ofText text ".ts" = ⟨root, true⟩ ∧ IsQuiet name.kebab root := by
  obtain ⟨root, hroot, hquiet⟩ := exists_quiet_of_mem_render hname hfile hsource
  have hextension : ((Feature.folder context name).child file).extension = ".ts" := by
    rw [Path.extension, Path.fileName, Path.child, List.getLastD_concat]
    rcases hasSuffix_of_mem_render hfile with ⟨-, hextension⟩ | rfl
    · exact hextension
    · exact absurd hsource (by decide)
  refine ⟨root, ?_, hroot, hquiet⟩
  rw [readSource, h.readText_of_mem_render hname hfile]
  dsimp only
  rw [hextension, hroot]

/-! ## The folders of features -/

variable {inside : List (Text × FileTree)}

/-- The only folder that there may be in addition is that of the feature. -/
theorem IsWritten.eq_kebab_of_new (h : IsWritten context name place tree changed)
    (hfolder : tree.get? place = some (.folder inside)) {feature : Text}
    (hpresent : feature ∈ changed.folderNames context.featuresFolder)
    (hnew : tree.hasFolder (context.featuresFolder.child feature) = false) :
    feature = name.kebab := by
  obtain ⟨others, hothers⟩ := h.grows.get?_folder hfolder
  rw [mem_folderNames_iff h.wellFormed (h.grows.locate_eq_ok h.locate) hothers] at hpresent
  obtain ⟨entry, hentry, -⟩ := (Option.any_eq_true _ _).1 hpresent
  have hname := isName_of_get? h.wellFormed hentry feature (by simp)
  have hplaceNew : IsPlaceOf tree place name (place ++ [feature]) := by
    by_contra hold
    rw [any_isFolder_eq, h.grows.same _ hold, ← any_isFolder_eq] at hpresent
    rw [hasFolder_child h.locate hname, hpresent] at hnew
    cases hnew
  rcases hplaceNew with ⟨heq, -⟩ | ⟨other, -, heq⟩
  · exact (List.cons.inj (List.append_cancel_left heq)).1
  · have hlength := congrArg List.length heq
    simp at hlength

theorem IsWritten.mem_folderNames (h : IsWritten context name place tree changed)
    (hfolder : tree.get? place = some (.folder inside)) :
    name.kebab ∈ changed.folderNames context.featuresFolder := by
  obtain ⟨others, hothers⟩ := h.grows.get?_folder hfolder
  obtain ⟨entries, hentries⟩ := h.folder
  rw [mem_folderNames_iff h.wellFormed (h.grows.locate_eq_ok h.locate) hothers, hentries]
  rfl

/-- What is gathered from the features is part of what was gathered before, if the new feature
contributes nothing and the others no more than before. -/
theorem IsWritten.flatMap_folderNames_sublist {α : Type}
    (h : IsWritten context name place tree changed) (hwf : tree.WellFormed)
    (hfolder : tree.get? place = some (.folder inside)) {gather before : Text → List α}
    (hown : gather name.kebab = [])
    (hother : ∀ feature ∈ tree.folderNames context.featuresFolder, feature ≠ name.kebab →
      (gather feature).Sublist (before feature)) :
    ((changed.folderNames context.featuresFolder).flatMap gather).Sublist
      ((tree.folderNames context.featuresFolder).flatMap before) := by
  have hold := folderNames_eq_filter h.grows hwf h.wellFormed (h.hasFolder_features hfolder)
  rw [flatMap_filter_of_nil (p := fun feature =>
    tree.hasFolder (context.featuresFolder.child feature)), ← hold]
  · refine List.Sublist.flatMap_right _ fun feature hfeature => ?_
    by_cases heq : feature = name.kebab
    · rw [heq, hown]
      exact List.nil_sublist _
    · exact hother feature hfeature heq
  · intro feature hfeature hnew
    rw [h.eq_kebab_of_new hfolder hfeature hnew, hown]

/-! ## The structure -/

theorem IsWritten.missingFiles_eq_nil (h : IsWritten context name place tree changed)
    (hname : name.IsSpelling) : Structure.missingFiles context changed name.kebab = [] := by
  rw [Structure.missingFiles, List.filterMap_eq_nil_iff]
  intro file hfile
  obtain ⟨text, hrender⟩ := exists_text_of_mem_requiredFiles hfile
  have hthere : changed.hasEntry ((context.featuresFolder.child name.kebab).child file) = true := by
    have hlocate := h.locate_file hname hrender
    rw [Feature.folder] at hlocate
    rw [hasEntry_eq_of_locate hlocate, sight_eq_file_iff.2 (h.files _ hrender)]
    rfl
  rw [if_pos hthere]

theorem IsWritten.missingFiles_sublist (h : IsWritten context name place tree changed)
    (feature : Text) :
    (Structure.missingFiles context changed feature).Sublist
      (Structure.missingFiles context tree feature) := by
  rw [Structure.missingFiles, Structure.missingFiles]
  induction Structure.requiredFiles feature with
  | nil => exact List.Sublist.refl _
  | cons file rest ih =>
    rw [List.filterMap_cons, List.filterMap_cons]
    dsimp only
    cases hold : tree.hasEntry ((context.featuresFolder.child feature).child file) with
    | true =>
      rw [h.grows.hasEntry hold]
      exact ih
    | false =>
      cases changed.hasEntry ((context.featuresFolder.child feature).child file) with
      | true => exact ih.cons _
      | false => exact ih.cons_cons _

theorem IsWritten.placementIn_eq_nil (h : IsWritten context name place tree changed)
    (hname : name.IsSpelling) (hfile : (file, text) ∈ render name)
    (hsource : hasSuffix [".ts"] file = true) :
    Structure.placementIn context changed ((Feature.folder context name).child file) = [] := by
  obtain ⟨root, hread, -, hquiet⟩ := h.readSource_of_mem_render hname hfile hsource
  rw [Structure.placementIn]
  split
  · rw [hread]
    dsimp only
    rw [Structure.misplaced, hquiet.usesHttpClient, hquiet.providesInRoot, Bool.and_false,
      Bool.and_false]
    rfl
  · rfl

theorem Structure.placementIn_congr {path : Path}
    (h : changed.readSource path = tree.readSource path) :
    Structure.placementIn context changed path = Structure.placementIn context tree path := by
  rw [Structure.placementIn, Structure.placementIn, h]

/-- The check of the structure finds nothing new. -/
theorem IsWritten.structure_sublist (h : IsWritten context name place tree changed)
    (hwf : tree.WellFormed) (hname : name.IsSpelling)
    (hfolder : tree.get? place = some (.folder inside)) :
    (Structure.violations context changed).Sublist (Structure.violations context tree) := by
  have happ := h.hasFolder_app
  have hfeatures := h.hasFolder_features hfolder
  rw [Structure.violations, Structure.violations, happ, hfeatures, h.grows.hasFolder happ,
    h.grows.hasFolder hfeatures]
  show (Structure.violationsWithin context changed).Sublist (Structure.violationsWithin context tree)
  rw [Structure.violationsWithin, Structure.violationsWithin]
  refine List.Sublist.append (List.Sublist.append ?_ ?_) ?_
  · have hsome : (Structure.features context changed).isEmpty = false := by
      rw [List.isEmpty_eq_false_iff]
      exact List.ne_nil_of_mem (h.mem_folderNames hfolder)
    rw [hsome]
    exact List.nil_sublist _
  · exact h.flatMap_folderNames_sublist hwf hfolder (h.missingFiles_eq_nil hname)
      fun feature _ _ => h.missingFiles_sublist feature
  · have hsame := h.flatMap_appFiles_eq hwf [".ts"] context.settings.ignoredFolders
      (Structure.placementIn context changed) (Structure.placementIn context tree)
      (fun file text hfile hsource => h.placementIn_eq_nil hname hfile hsource)
      fun path hpath => Structure.placementIn_congr (h.grows.readSource_eq hpath)
    rw [Structure.sourceFiles, Structure.sourceFiles, hsame]

/-! ## The route tables of features -/

/-- The file with the routes of a feature with a proper name. -/
theorem routesFile_of_isName (context : Context) {feature : Text} (hfeature : IsName feature) :
    FeatureRoutes.routesFile context feature =
        (context.featuresFolder.child feature).child (feature ++ ".routes.ts".toList) ∧
      IsName (feature ++ ".routes.ts".toList) := by
  have hrest : IsName (feature ++ ".routes.ts".toList) :=
    isName_append hfeature (by decide) (by decide) (by decide)
  have hconcat : Text.concat [feature, ".routes.ts".toList] = feature ++ ".routes.ts".toList := by
    simp [Text.concat]
  rw [FeatureRoutes.routesFile, hconcat, Path.ofText_of_isName hfeature, Path.ofText_of_isName hrest]
  exact ⟨rfl, hrest⟩

theorem IsWritten.routes_eq_nil (h : IsWritten context name place tree changed)
    (hname : name.IsSpelling) :
    FeatureRoutes.violationsOf context changed name.kebab = [] := by
  obtain ⟨text, hrender⟩ : ∃ text, (name.kebab ++ ".routes.ts".toList, text) ∈ render name := by
    rw [render_eq]
    exact ⟨_, .head _⟩
  have hpath := (routesFile_of_isName context (isName_kebab hname)).1
  obtain ⟨root, hroot, hfindings⟩ := findings_of_mem_render hname hrender
  have hsource : hasSuffix [".ts"] (name.kebab ++ ".routes.ts".toList) = true := by
    rcases hasSuffix_of_mem_render hrender with ⟨hsource, -⟩ | heq
    · exact hsource
    · obtain ⟨c, rest, hkebab, hlower, -⟩ := hname.kebab
      rw [hkebab] at heq
      have hletter : c = 'R' := (List.cons.inj heq).1
      rw [hletter] at hlower
      exact absurd hlower (by decide)
  obtain ⟨other, hread, hother, -⟩ := h.readSource_of_mem_render hname hrender hsource
  have hthere : changed.hasFile ((Feature.folder context name).child
      (name.kebab ++ ".routes.ts".toList)) = true := by
    rw [hasFile_eq_of_locate (h.locate_file hname hrender), sight_eq_file_iff.2 (h.files _ hrender)]
    rfl
  rw [Feature.folder] at hthere hread
  rw [FeatureRoutes.violationsOf, hpath, hthere, hread, ← hother, hroot]
  show (FeatureRoutes.findings root).map _ = []
  rw [hfindings, List.map_nil]

theorem IsWritten.routes_eq (h : IsWritten context name place tree changed)
    {feature : Text} (hfeature : IsName feature) (hne : feature ≠ name.kebab) :
    FeatureRoutes.violationsOf context changed feature =
      FeatureRoutes.violationsOf context tree feature := by
  obtain ⟨hpath, hrest⟩ := routesFile_of_isName context hfeature
  have hnames : ∀ other ∈ [feature, feature ++ ".routes.ts".toList], IsName other := by
    simp only [List.forall_mem_cons, List.not_mem_nil, false_implies, implies_true, and_true]
    exact ⟨hfeature, hrest⟩
  have hthere : ∀ {some : FileTree}, some.locate context.featuresFolder = .ok place →
      some.hasFile (FeatureRoutes.routesFile context feature) =
        (some.sight (place ++ [feature, feature ++ ".routes.ts".toList])).any Option.isSome := by
    intro some hlocate
    have hentry := entry?_append hlocate hnames
    rw [hpath, Path.child, Path.child, List.append_assoc, ← any_isFile_eq, hasFile]
    exact congrArg _ hentry
  have hold : ¬IsPlaceOf tree place name (place ++ [feature, feature ++ ".routes.ts".toList]) := by
    rintro (⟨heq, -⟩ | ⟨other, -, heq⟩)
    · have hlength := congrArg List.length heq
      simp at hlength
    · exact hne (List.cons.inj (List.append_cancel_left heq)).1
  have hsame : changed.hasFile (FeatureRoutes.routesFile context feature) =
      tree.hasFile (FeatureRoutes.routesFile context feature) := by
    rw [hthere (h.grows.locate_eq_ok h.locate), hthere h.locate, h.grows.same _ hold]
  rw [FeatureRoutes.violationsOf, FeatureRoutes.violationsOf, hsame]
  cases hfile : tree.hasFile (FeatureRoutes.routesFile context feature) with
  | true => rw [h.grows.readSource_eq hfile]
  | false => rfl

/-- The check of the route tables of features finds nothing new. -/
theorem IsWritten.featureRoutes_sublist (h : IsWritten context name place tree changed)
    (hwf : tree.WellFormed) (hname : name.IsSpelling)
    (hfolder : tree.get? place = some (.folder inside)) :
    (FeatureRoutes.check context changed).violations.Sublist
      (FeatureRoutes.check context tree).violations := by
  refine h.flatMap_folderNames_sublist hwf hfolder (h.routes_eq_nil hname) fun feature hfeature hne => ?_
  rw [mem_folderNames_iff hwf h.locate hfolder] at hfeature
  obtain ⟨entry, hentry, -⟩ := (Option.any_eq_true _ _).1 hfeature
  rw [h.routes_eq (isName_of_get? hwf hentry feature (by simp)) hne]

/-! ## The route table of the application -/

/-- The route table of the application is read as before. -/
theorem IsWritten.readTable_eq (h : IsWritten context name place tree changed) :
    AppRoutes.readTable context changed = AppRoutes.readTable context tree := by
  obtain ⟨above, entries, habove, hentries, hplace⟩ := h.exists_appFolder
  have htable : IsName "app.routes.ts" := by decide
  have hlocate : tree.locate context.appRoutes = .ok (above ++ ["app.routes.ts".toList]) :=
    locate_child habove hentries htable
  have hlater := h.grows.locate_eq_ok hlocate
  have hsight : changed.sight (above ++ ["app.routes.ts".toList]) =
      tree.sight (above ++ ["app.routes.ts".toList]) := by
    refine h.grows.same _ ?_
    rintro (⟨heq, -⟩ | ⟨other, -, heq⟩)
    · have hlength := congrArg List.length heq
      simp [hplace] at hlength
    · have hlength := congrArg List.length heq
      simp [hplace] at hlength
  have hread : changed.readSource context.appRoutes = tree.readSource context.appRoutes := by
    rw [readSource, readSource, readText_congr hlocate hlater hsight]
  rw [AppRoutes.readTable, AppRoutes.readTable, hasFile_eq_of_locate hlater,
    hasFile_eq_of_locate hlocate, hsight, hread]

/-- The check of the route table of the application ends as before. -/
theorem IsWritten.appRoutes_eq (h : IsWritten context name place tree changed) :
    AppRoutes.check context changed = AppRoutes.check context tree := by
  rw [AppRoutes.check, AppRoutes.check, h.readTable_eq]

/-! ## The boundaries between features -/

theorem IsWritten.crossings_eq_nil (h : IsWritten context name place tree changed)
    (hname : name.IsSpelling) (hfile : (file, text) ∈ render name)
    (hsource : hasSuffix [".ts"] file = true) :
    FeatureImports.violationsIn context changed ((Feature.folder context name).child file) = [] := by
  obtain ⟨root, hread, -, hquiet⟩ := h.readSource_of_mem_render hname hfile hsource
  have hbelow : Path.namesBelow? context.featuresFolder ((Feature.folder context name).child file) =
      some [name.kebab, file] :=
    Path.namesBelow?_eq_some_iff.2 ⟨rfl, List.append_assoc _ [name.kebab] [file]⟩
  have hown : FeatureImports.featureOf context.featuresFolder
      ((Feature.folder context name).child file) = some name.kebab := by
    rw [FeatureImports.featureOf, hbelow]
    rfl
  have hparent : ((Feature.folder context name).child file).parent =
      context.featuresFolder.child name.kebab := by
    rw [Path.parent, Path.child, List.dropLast_concat]
    rfl
  rw [FeatureImports.violationsIn, hown]
  dsimp only
  rw [hread]
  dsimp only
  rw [hquiet.crossings _ _ hparent, List.map_nil]

theorem FeatureImports.violationsIn_congr {path : Path}
    (h : changed.readSource path = tree.readSource path) :
    FeatureImports.violationsIn context changed path =
      FeatureImports.violationsIn context tree path := by
  rw [FeatureImports.violationsIn, FeatureImports.violationsIn, h]

/-- The check of the boundaries finds the same as before. -/
theorem IsWritten.featureImports_eq (h : IsWritten context name place tree changed)
    (hwf : tree.WellFormed) (hname : name.IsSpelling)
    (hfolder : tree.get? place = some (.folder inside)) :
    FeatureImports.check context changed = FeatureImports.check context tree := by
  have hfeatures := h.hasFolder_features hfolder
  have hsame : (FeatureImports.sourceFiles context changed).flatMap
        (FeatureImports.violationsIn context changed) =
      (FeatureImports.sourceFiles context tree).flatMap
        (FeatureImports.violationsIn context tree) := by
    have hplace : place = place ++ [] := (List.append_nil place).symm
    have hbase : context.featuresFolder =
        ⟨context.featuresFolder.anchor, context.featuresFolder.names ++ []⟩ := by
      rw [List.append_nil]
    have hgathered := h.flatMap_collectFiles_eq hwf h.locate hfolder hplace hbase [".ts"]
      context.settings.ignoredFolders (FeatureImports.violationsIn context changed)
      (FeatureImports.violationsIn context tree)
      (fun file text hfile hsource => h.crossings_eq_nil hname hfile hsource)
      fun path hpath => FeatureImports.violationsIn_congr (h.grows.readSource_eq hpath)
    rw [FeatureImports.sourceFiles, FeatureImports.sourceFiles, hgathered]
  have hlater := h.grows.hasFolder hfeatures
  unfold FeatureImports.check
  dsimp only
  rw [hlater, hfeatures, if_pos rfl, if_pos rfl, if_pos rfl, hsame]

/-! ## The colours -/

/-- Each token file that can be read now could be read before or is a file of the feature. -/
def TokensKept (context : Context) (name : FeatureName) (tree changed : FileTree) : Prop :=
  ∀ token ∈ RawColors.tokenFiles context, changed.hasFile token.2 = true →
    tree.hasFile token.2 = true ∨ ∃ file ∈ files context name,
      changed.locate token.2 = changed.locate file.1

theorem approvedIn_subset {isNew : List Text → Prop} (h : Grows isNew tree changed) (path : Path) :
    RawColors.approvedIn tree path ⊆ RawColors.approvedIn changed path := by
  intro color hcolor
  rw [RawColors.approvedIn] at hcolor ⊢
  split at hcolor
  · next hfile =>
    rw [if_pos (h.hasFile hfile), h.readText_eq hfile]
    exact hcolor
  · cases hcolor

theorem mem_approved_iff {color : Text} :
    color ∈ RawColors.approved context tree ↔
      ∃ token ∈ RawColors.tokenFiles context, color ∈ RawColors.approvedIn tree token.2 := by
  rw [RawColors.approved, List.mem_eraseDups, List.mem_flatMap]

theorem IsWritten.approved_subset (h : IsWritten context name place tree changed) :
    RawColors.approved context tree ⊆ RawColors.approved context changed := by
  intro color hcolor
  rw [mem_approved_iff] at hcolor ⊢
  obtain ⟨token, htoken, hcolor⟩ := hcolor
  exact ⟨token, htoken, approvedIn_subset h.grows token.2 hcolor⟩

theorem IsWritten.approvedIn_eq_nil (h : IsWritten context name place tree changed)
    (hname : name.IsSpelling) {path : Path} (hfile : (file, text) ∈ render name)
    (hpath : changed.locate path = changed.locate ((Feature.folder context name).child file)) :
    RawColors.approvedIn changed path = [] := by
  have hbytes : changed.readText path = .ok text := by
    have hread := h.readText_of_mem_render hname hfile
    rw [h.locate_file hname hfile] at hpath
    rw [readText, FileTree.read, hpath]
    dsimp only
    rw [h.files _ hfile]
    dsimp only
    rw [ofBytes_of_mem_render hname hfile]
  rw [RawColors.approvedIn, hbytes]
  dsimp only
  rw [find_eq_nil_of_mem_render hname hfile]
  split <;> rfl

/-- No more colours are approved than before, if no other file comes within reach as a token file. -/
theorem IsWritten.subset_approved (h : IsWritten context name place tree changed)
    (hname : name.IsSpelling) (htokens : TokensKept context name tree changed) :
    RawColors.approved context changed ⊆ RawColors.approved context tree := by
  intro color hcolor
  rw [mem_approved_iff] at hcolor ⊢
  obtain ⟨token, htoken, hcolor⟩ := hcolor
  have hfile : changed.hasFile token.2 = true := by
    rw [RawColors.approvedIn] at hcolor
    split at hcolor
    · assumption
    · cases hcolor
  rcases htokens token htoken hfile with hold | ⟨file, hmem, hlocate⟩
  · refine ⟨token, htoken, ?_⟩
    rw [RawColors.approvedIn, if_pos hfile, h.grows.readText_eq hold] at hcolor
    rw [RawColors.approvedIn, if_pos hold]
    exact hcolor
  · obtain ⟨⟨other, text⟩, hrender, rfl⟩ := List.mem_map.1 hmem
    rw [h.approvedIn_eq_nil hname hrender hlocate] at hcolor
    cases hcolor

theorem unapproved_sublist {approved approved' : List Text} (h : approved ⊆ approved')
    (sightings : List Color.Sighting) :
    (RawColors.unapproved approved' sightings).Sublist
      (RawColors.unapproved approved sightings) := by
  refine List.monotone_filter_right _ fun sighting hsighting => ?_
  rw [Bool.not_eq_true', ← Bool.not_eq_true, List.contains_iff_mem] at hsighting ⊢
  exact fun hmem => hsighting (h hmem)

theorem IsWritten.rawColors_eq_nil (h : IsWritten context name place tree changed)
    (hname : name.IsSpelling) (hfile : (file, text) ∈ render name)
    (hscanned : hasSuffix RawColors.scannedSuffixes file = true) (approved : List Text) :
    RawColors.violationsIn context changed approved ((Feature.folder context name).child file) =
      [] := by
  rcases hasSuffix_of_mem_render hfile with ⟨hsource, hextension⟩ | rfl
  · obtain ⟨root, -, hroot, hquiet⟩ := h.readSource_of_mem_render hname hfile hsource
    have hpath : ((Feature.folder context name).child file).extension = ".ts" := by
      rw [Path.extension, Path.fileName, Path.child, List.getLastD_concat, hextension]
    have hsightings : RawColors.sightings changed ((Feature.folder context name).child file) =
        .ok [] := by
      rw [RawColors.sightings, h.readText_of_mem_render hname hfile, hpath, Except.map, Color.inFile,
        if_pos rfl, hroot, hquiet.colors]
      rfl
    rw [RawColors.violationsIn, hsightings]
    rfl
  · exact absurd hscanned (by decide)

theorem RawColors.violationsIn_congr {path : Path} (approved : List Text)
    (h : changed.readText path = tree.readText path) :
    RawColors.violationsIn context changed approved path =
      RawColors.violationsIn context tree approved path := by
  rw [RawColors.violationsIn, RawColors.violationsIn, RawColors.sightings, RawColors.sightings, h]

/-- The colours that are not among the approved ones are found where they were found before. -/
theorem IsWritten.flatMap_scannedFiles_eq (h : IsWritten context name place tree changed)
    (hwf : tree.WellFormed) (hname : name.IsSpelling) (places : List Path) (approved : List Text) :
    (RawColors.scannedFiles context changed places).flatMap
        (RawColors.violationsIn context changed approved) =
      (RawColors.scannedFiles context tree places).flatMap
        (RawColors.violationsIn context tree approved) := by
  have hsame := h.flatMap_appFiles_eq hwf RawColors.scannedSuffixes
    context.settings.ignoredFolders
    (fun path => if RawColors.isAmong context places path then []
      else RawColors.violationsIn context changed approved path)
    (fun path => if RawColors.isAmong context places path then []
      else RawColors.violationsIn context tree approved path)
    (fun file text hfile hscanned => by
      split
      · rfl
      · exact h.rawColors_eq_nil hname hfile hscanned approved)
    fun path hpath => by
      rw [RawColors.violationsIn_congr approved (h.grows.readText_eq hpath)]
  have hskip : ∀ (some : FileTree) (files : List Path),
      (files.filter fun path => !RawColors.isAmong context places path).flatMap
          (RawColors.violationsIn context some approved) =
        files.flatMap fun path => if RawColors.isAmong context places path then []
          else RawColors.violationsIn context some approved path := by
    intro some files
    induction files with
    | nil => rfl
    | cons path rest ih =>
      cases hplace : RawColors.isAmong context places path <;> simp [hplace, ih]
  rw [RawColors.scannedFiles, RawColors.scannedFiles, hskip, hskip, hsame]

end VerticalSlice.Feature
