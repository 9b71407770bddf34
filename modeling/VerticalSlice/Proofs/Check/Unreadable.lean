import VerticalSlice.Proofs.Check.Locality
import VerticalSlice.Proofs.Check.Words
import VerticalSlice.Proofs.Color.TokenFiles
import VerticalSlice.Proofs.Feature.Checks
import VerticalSlice.Proofs.FeatureImports.Destination
import VerticalSlice.Proofs.Structure.Placement
import VerticalSlice.Proofs.Tree.Reading

/-!
# Files that cannot be read

Every check reads files, and the bytes of a file need not encode a text. Four checks take that as a
violation of the file and go on, so that they come to a verdict on every tree (`run_ends`): of each file
that they have to read (`Check.Looks`) and cannot, they tell so once, and of no other file. The check of
the route table has one file to read and ends without a verdict if there is nothing in it to check.
-/

namespace VerticalSlice

open FileTree

variable {context : Context} {tree : FileTree} {path : Path}

/-! ## The files that are read -/

/-- Is there a file below the folder that is listed, with one of these suffixes? -/
def IsListed (context : Context) (tree : FileTree) (base : Path) (suffixes : List Text) (path : Path) :
    Prop :=
  ∃ found way, tree.entry? base = some found ∧
    Lists suffixes context.settings.ignoredFolders found way ∧ path = ⟨base.anchor, base.names ++ way⟩

/-- Is the file at the place of a token file, whatever ways lead to the two? -/
def IsTokenFile (context : Context) (path : Path) : Prop :=
  ∃ place, Workspace.resolve context.root path = .ok place ∧
    ∃ token ∈ RawColors.tokenFiles context, Workspace.resolve context.root token.2 = .ok place

/-- Is this one of the files that the check has to read and that it can go on without? -/
def Check.Looks (context : Context) (tree : FileTree) (path : Path) : Check → Prop
  | .layout => tree.hasFolder context.appFolder = true ∧ tree.hasFolder context.featuresFolder = true ∧
      IsListed context tree context.appFolder [".ts"] path ∧ Structure.concerns context path = true
  | .appRoutes => False
  | .featureRoutes => ∃ feature, IsName feature ∧
      tree.hasFolder (context.featuresFolder.child feature) = true ∧
      tree.hasFile path = true ∧
      path = (context.featuresFolder.child feature).child (feature ++ ".routes.ts")
  | .featureImports => IsListed context tree context.featuresFolder [".ts"] path
  | .rawColors => IsListed context tree context.appFolder RawColors.scannedSuffixes path ∧
      ¬IsTokenFile context path

/-- Of every file that the check has to read and cannot, and of no other, it is told once that it cannot
be read, and why. -/
def Check.TellsUnreadable (check : Check) (context : Context) (tree : FileTree)
    (violations : List Violation) : Prop :=
  ∃ paths : List Path, (paths.map context.relative).Nodup ∧
    (∀ path, path ∈ paths ↔ check.Looks context tree path ∧ tree.Undecodable path) ∧
    List.Forall₂ (fun path violation => ∃ fault, tree.readText path = .error fault ∧
        violation = Violation.unreadable (context.relative path) fault)
      paths (violations.filter (·.saysUnreadable))

/-! ## Going through files -/

/-- What a check tells of one file: that it cannot be read if that is so, and else something else. -/
structure ToldOf (context : Context) (tree : FileTree) (path : Path) (concerned : Prop)
    (told : List Violation) : Prop where
  unreadable : concerned → tree.Undecodable path → ∃ fault, tree.readText path = .error fault ∧
    told = [Violation.unreadable (context.relative path) fault]
  other : ¬(concerned ∧ tree.Undecodable path) →
    ∀ violation ∈ told, violation.saysUnreadable = false

theorem filter_saysUnreadable_eq_nil {violations : List Violation}
    (h : ∀ violation ∈ violations, violation.saysUnreadable = false) :
    violations.filter (·.saysUnreadable) = [] :=
  List.filter_eq_nil_iff.2 fun violation hviolation => by
    rw [h violation hviolation]
    exact Bool.false_ne_true

/-- A check that goes through files tells of some of them that they cannot be read. -/
theorem exists_forall₂_flatMap {paths : List Path} {concerned : Path → Prop}
    {look : Path → List Violation}
    (h : ∀ path ∈ paths, ToldOf context tree path (concerned path) (look path)) :
    ∃ found, found.Sublist paths ∧
      (∀ path, path ∈ found ↔ path ∈ paths ∧ concerned path ∧ tree.Undecodable path) ∧
      List.Forall₂ (fun path violation => ∃ fault, tree.readText path = .error fault ∧
          violation = Violation.unreadable (context.relative path) fault)
        found ((paths.flatMap look).filter (·.saysUnreadable)) := by
  induction paths with
  | nil => exact ⟨[], List.Sublist.refl _, by simp, .nil⟩
  | cons path paths ih =>
    obtain ⟨found, hsublist, hfound, htold⟩ := ih fun other hother =>
      h other (List.mem_cons_of_mem _ hother)
    have hpath := h path (List.mem_cons_self ..)
    rw [List.flatMap_cons, List.filter_append]
    by_cases hnone : concerned path ∧ tree.Undecodable path
    · obtain ⟨fault, hfault, hlook⟩ := hpath.unreadable hnone.1 hnone.2
      refine ⟨path :: found, hsublist.cons_cons path, fun other => ?_, ?_⟩
      · rw [List.mem_cons, List.mem_cons, hfound, or_and_right]
        refine or_congr_left (iff_self_and.2 ?_)
        rintro rfl
        exact hnone
      · rw [hlook, List.filter_cons_of_pos (Violation.saysUnreadable_unreadable _ fault),
          List.filter_nil]
        exact .cons ⟨fault, hfault, rfl⟩ htold
    · refine ⟨found, hsublist.cons path, fun other => ?_, ?_⟩
      · rw [List.mem_cons, hfound, or_and_right]
        refine (or_iff_right ?_).symm
        rintro ⟨rfl, hother⟩
        exact hnone hother
      · rw [filter_saysUnreadable_eq_nil (hpath.other hnone)]
        exact htold

/-- So does a check that has something else to tell before. -/
theorem Check.tellsUnreadable_of_flatMap {check : Check} {paths : List Path} (concerned : Path → Prop)
    {look : Path → List Violation} {before : List Violation}
    (hrooted : context.IsRooted) (hnodup : paths.Nodup) (hsource : ∀ path ∈ paths, context.IsSource path)
    (hbefore : ∀ violation ∈ before, violation.saysUnreadable = false)
    (hlook : ∀ path ∈ paths, ToldOf context tree path (concerned path) (look path))
    (hlooks : ∀ path, check.Looks context tree path ↔ path ∈ paths ∧ concerned path) :
    check.TellsUnreadable context tree (before ++ paths.flatMap look) := by
  obtain ⟨found, hsublist, hfound, htold⟩ := exists_forall₂_flatMap hlook
  refine ⟨found, ?_, fun path => ?_, ?_⟩
  · refine (List.Nodup.map_on ?_ hnodup).sublist (hsublist.map context.relative)
    intro first hfirst second hsecond heq
    exact hrooted.eq_of_isSource (hsource first hfirst) (hsource second hsecond) heq
  · rw [hfound, hlooks, and_assoc]
  · rw [List.filter_append, filter_saysUnreadable_eq_nil hbefore, List.nil_append]
    exact htold

theorem toldOf_of_read {concerned : Prop} {told : List Violation} (hfile : tree.hasFile path = true)
    (hfault : concerned → ∀ fault, tree.readText path = .error fault →
      told = [Violation.unreadable (context.relative path) fault])
    (htext : concerned → ∀ text, tree.readText path = .ok text →
      ∀ violation ∈ told, violation.saysUnreadable = false)
    (hnot : ¬concerned → told = []) : ToldOf context tree path concerned told := by
  refine ⟨fun hconcerned hnone => ?_, fun hother violation hviolation => ?_⟩
  · obtain ⟨fault, hread⟩ := readText_eq_encoding_iff.2 hnone
    exact ⟨_, hread, hfault hconcerned _ hread⟩
  · by_cases hconcerned : concerned
    · obtain ⟨bytes, hread⟩ := exists_read_iff.2 hfile
      rcases readText_cases hread with ⟨raw, -, hraw⟩ | ⟨hnone, -⟩
      · exact htext hconcerned _ hraw violation hviolation
      · exact absurd ⟨hconcerned, hnone⟩ hother
    · rw [hnot hconcerned] at hviolation
      cases hviolation

theorem readSource_eq_error {fault : ReadFault} (h : tree.readText path = .error fault) :
    tree.readSource path = .error fault := by
  rw [readSource, h]

theorem readSource_eq_ok {text : Text} (h : tree.readText path = .ok text) :
    tree.readSource path = .ok (Syntax.SyntaxTree.ofText text path.extension) := by
  rw [readSource, h]

/-! ## The checks -/

theorem Structure.toldOf_placementIn (hfile : tree.hasFile path = true) :
    ToldOf context tree path (concerns context path = true) (placementIn context tree path) := by
  refine toldOf_of_read hfile (fun hconcerned fault hread => ?_) (fun hconcerned text hread => ?_)
    fun hconcerned => ?_
  · rw [placementIn, if_pos hconcerned, readSource_eq_error hread]
  · rw [placementIn, if_pos hconcerned, readSource_eq_ok hread]
    intro violation hviolation
    obtain ⟨breach, -, rfl⟩ := List.mem_map.1 hviolation
    exact Violation.not_saysUnreadable breach.take_message
  · rw [placementIn, if_neg hconcerned]

theorem FeatureRoutes.toldOf_violationsIn (hfile : tree.hasFile path = true) :
    ToldOf context tree path True (violationsIn (context.relative path) (tree.readSource path)) := by
  refine toldOf_of_read hfile (fun _ fault hread => ?_) (fun _ text hread => ?_)
    fun hnot => absurd trivial hnot
  · rw [readSource_eq_error hread]
    rfl
  · rw [readSource_eq_ok hread]
    intro violation hviolation
    obtain ⟨finding, -, rfl⟩ := List.mem_map.1 hviolation
    exact Violation.not_saysUnreadable finding.breach.take_message

theorem FeatureImports.toldOf_violationsIn {own : Text} (hfile : tree.hasFile path = true)
    (hown : featureOf context.featuresFolder path = some own) :
    ToldOf context tree path True (violationsIn context tree path) := by
  refine toldOf_of_read hfile (fun _ fault hread => ?_) (fun _ text hread => ?_)
    fun hnot => absurd trivial hnot
  · rw [violationsIn, hown, readSource_eq_error hread]
  · rw [violationsIn, hown, readSource_eq_ok hread]
    intro violation hviolation
    obtain ⟨crossing, -, rfl⟩ := List.mem_map.1 hviolation
    exact Violation.not_saysUnreadable crossing.take_message

theorem RawColors.toldOf_violationsIn (approved : List Text) (hfile : tree.hasFile path = true) :
    ToldOf context tree path True (violationsIn context tree approved path) := by
  refine toldOf_of_read hfile (fun _ fault hread => ?_) (fun _ text hread => ?_)
    fun hnot => absurd trivial hnot
  · rw [violationsIn, sightings, hread]
    rfl
  · rw [violationsIn, sightings, hread]
    intro violation hviolation
    obtain ⟨sighting, -, rfl⟩ := List.mem_map.1 hviolation
    exact Violation.not_saysUnreadable (take_message_inFile _ sighting)

/-! ## The listings -/

theorem isListed_iff (hwf : tree.WellFormed) {base : Path} {suffixes : List Text} :
    IsListed context tree base suffixes path ↔
      path ∈ tree.collectFiles base suffixes context.settings.ignoredFolders :=
  (mem_collectFiles_iff hwf).symm

theorem IsListed.hasFile (hwf : tree.WellFormed) {base : Path} {suffixes : List Text}
    (h : IsListed context tree base suffixes path) : tree.hasFile path = true := by
  obtain ⟨found, way, hfound, hlists, rfl⟩ := h
  obtain ⟨-, bytes, -, -, -, hread⟩ := exists_read_of_lists hwf hfound hlists
  exact exists_read_iff.1 ⟨bytes, hread⟩

theorem IsListed.isSource (hwf : tree.WellFormed) {base : Path} {suffixes : List Text}
    (hbase : context.IsSource base) (h : IsListed context tree base suffixes path) :
    context.IsSource path := by
  obtain ⟨found, way, hfound, hlists, rfl⟩ := h
  exact hbase.append fun name hname =>
    (isName_of_lists ( wellFormed_of_entry? hwf hfound) hlists name hname).isStep

theorem IsListed.exists_featureOf {suffixes : List Text}
    (h : IsListed context tree context.featuresFolder suffixes path) :
    ∃ own, FeatureImports.featureOf context.featuresFolder path = some own := by
  obtain ⟨found, way, -, hlists, rfl⟩ := h
  obtain ⟨own, below, rfl⟩ := List.exists_cons_of_ne_nil hlists.1
  exact ⟨own, FeatureImports.featureOf_eq_some_iff.2 ⟨rfl, below, rfl⟩⟩

theorem IsListed.hasFolder {base : Path} {suffixes : List Text}
    (h : IsListed context tree base suffixes path) : tree.hasFolder base = true := by
  obtain ⟨found, way, hfound, hlists, rfl⟩ := h
  rw [FileTree.hasFolder, hfound]
  exact isFolder_of_lists hlists

/-! ## The four checks -/

section

variable (hwf : tree.WellFormed) (hrooted : context.IsRooted)

include hwf hrooted

theorem Structure.tellsUnreadable :
    Check.layout.TellsUnreadable context tree (check context tree).violations := by
  have hbreach : ∀ (breach : Breach) (file : Option Text),
      (breach.inFile file).saysUnreadable = false := fun breach _ =>
    Violation.not_saysUnreadable breach.take_message
  by_cases hfolders : tree.hasFolder context.appFolder = true ∧
      tree.hasFolder context.featuresFolder = true
  · have hviolations : (check context tree).violations = violationsWithin context tree := by
      show violations context tree = _
      rw [violations, hfolders.1, hfolders.2]
      rfl
    rw [hviolations, violationsWithin]
    refine Check.tellsUnreadable_of_flatMap (fun path => concerns context path = true) hrooted
      (nodup_collectFiles hwf _ _ _) (fun path hpath => ?_) ?_ (fun path hpath => ?_) fun path => ?_
    · exact ((isListed_iff hwf).2 hpath).isSource hwf (Context.isSource_appFolder context)
    · intro violation hviolation
      rcases List.mem_append.1 hviolation with hviolation | hviolation
      · split at hviolation
        · rw [List.mem_singleton.1 hviolation]
          exact hbreach _ _
        · cases hviolation
      · rw [flatMap_missingFiles] at hviolation
        obtain ⟨pair, -, rfl⟩ := List.mem_map.1 hviolation
        exact hbreach _ _
    · exact toldOf_placementIn (((isListed_iff hwf).2 hpath).hasFile hwf)
    · rw [Check.Looks, isListed_iff hwf]
      exact ⟨fun h => h.2.2, fun h => ⟨hfolders.1, hfolders.2, h⟩⟩
  · have hviolations : ∃ breach : Breach, (check context tree).violations = [breach.inFile none] := by
      show ∃ breach : Breach, violations context tree = [breach.inFile none]
      unfold violations
      split
      · exact ⟨_, rfl⟩
      · split
        · exact ⟨_, rfl⟩
        · next happ hfeatures =>
          rw [Bool.not_eq_true', Bool.not_eq_false] at happ hfeatures
          exact absurd ⟨happ, hfeatures⟩ hfolders
    obtain ⟨breach, hviolations⟩ := hviolations
    rw [hviolations]
    refine ⟨[], List.nodup_nil, fun path => ?_, ?_⟩
    · refine iff_of_false List.not_mem_nil fun h => hfolders ?_
      exact ⟨h.1.1, h.1.2.1⟩
    · rw [filter_saysUnreadable_eq_nil (List.forall_mem_singleton.2 (hbreach _ _))]
      exact .nil

theorem FeatureRoutes.tellsUnreadable :
    Check.featureRoutes.TellsUnreadable context tree (check context tree).violations := by
  have hviolations : (check context tree).violations = [] ++
      ((tree.folderNames context.featuresFolder).map (routesFile context)).flatMap fun path =>
        if tree.hasFile path then violationsIn (context.relative path) (tree.readSource path)
        else [Finding.inFile (context.relative path) ⟨.missingFile (context.relative path), none⟩] := by
    rw [List.nil_append, List.flatMap_map]
    rfl
  rw [hviolations]
  refine Check.tellsUnreadable_of_flatMap (fun path => tree.hasFile path = true) hrooted
    ?_ (fun path hpath => ?_) (fun _ h => by cases h) (fun path hpath => ?_) fun path => ?_
  · refine List.Nodup.map_on ?_ (nodup_folderNames hwf _)
    intro first hfirst second hsecond heq
    rw [(Feature.routesFile_of_isName context (isName_of_mem_folderNames hwf hfirst)).1,
      (Feature.routesFile_of_isName context (isName_of_mem_folderNames hwf hsecond)).1] at heq
    have hnames := List.append_inj_left' (congrArg Path.names heq) rfl
    exact List.singleton_inj.1 (List.append_cancel_left hnames)
  · obtain ⟨feature, hmem, rfl⟩ := List.mem_map.1 hpath
    have hname := isName_of_mem_folderNames hwf hmem
    obtain ⟨hroutes, hfile⟩ := Feature.routesFile_of_isName context hname
    rw [hroutes]
    exact context.isSource_of_feature hname hfile
  · cases hfile : tree.hasFile path with
    | true =>
      have htold := @toldOf_violationsIn context tree path hfile
      exact ⟨fun _ => htold.unreadable trivial, fun hother =>
        htold.other fun h => hother ⟨rfl, h.2⟩⟩
    | false =>
      refine ⟨fun h => (by cases h), fun _ => List.forall_mem_singleton.2 ?_⟩
      exact Violation.not_saysUnreadable (Breach.missingFile _).take_message
  · rw [Check.Looks, List.mem_map]
    constructor
    · rintro ⟨feature, hname, hfolder, hfile, rfl⟩
      refine ⟨⟨feature, (mem_folderNames_iff_hasFolder hwf).2 ⟨hname, hfolder⟩, ?_⟩, hfile⟩
      exact (Feature.routesFile_of_isName context hname).1
    · rintro ⟨⟨feature, hmem, rfl⟩, hfile⟩
      obtain ⟨hname, hfolder⟩ := (mem_folderNames_iff_hasFolder hwf).1 hmem
      exact ⟨feature, hname, hfolder, hfile, (Feature.routesFile_of_isName context hname).1⟩

theorem FeatureImports.tellsUnreadable :
    Check.featureImports.TellsUnreadable context tree (check context tree).violations := by
  show Check.featureImports.TellsUnreadable context tree
    (if tree.hasFolder context.featuresFolder then
      (sourceFiles context tree).flatMap (violationsIn context tree) else [])
  by_cases hfolder : tree.hasFolder context.featuresFolder = true
  · rw [if_pos hfolder, ← List.nil_append (List.flatMap _ _)]
    refine Check.tellsUnreadable_of_flatMap (fun _ => True) hrooted
      (nodup_collectFiles hwf _ _ _) (fun path hpath => ?_) (fun _ h => by cases h)
      (fun path hpath => ?_) fun path => ?_
    · exact ((isListed_iff hwf).2 hpath).isSource hwf (Context.isSource_featuresFolder context)
    · have hlisted := (isListed_iff hwf).2 hpath
      obtain ⟨own, hown⟩ := hlisted.exists_featureOf
      exact toldOf_violationsIn (hlisted.hasFile hwf) hown
    · rw [Check.Looks, isListed_iff hwf, and_true]
      rfl
  · rw [if_neg hfolder]
    refine ⟨[], List.nodup_nil, fun path => ?_, .nil⟩
    exact iff_of_false List.not_mem_nil fun h => hfolder h.1.hasFolder

theorem RawColors.exists_tellsUnreadable (hnamed : TokensNamed context) :
    ∃ verdict, check context tree = .ok verdict ∧
      Check.rawColors.TellsUnreadable context tree verdict.violations := by
  obtain ⟨places, hplaces⟩ := exists_tokenPlaces_iff.2 hnamed
  rw [check, hplaces]
  refine ⟨_, rfl, ?_⟩
  dsimp only
  have hlisted : ∀ path ∈ scannedFiles context tree places,
      IsListed context tree context.appFolder scannedSuffixes path := fun path hpath =>
    (isListed_iff hwf).2 (List.mem_filter.1 hpath).1
  rw [← List.nil_append (List.flatMap _ _)]
  refine Check.tellsUnreadable_of_flatMap (fun _ => True) hrooted
    ((nodup_collectFiles hwf _ _ _).filter _) (fun path hpath => ?_) (fun _ h => by cases h)
    (fun path hpath => ?_) fun path => ?_
  · exact (hlisted path hpath).isSource hwf (Context.isSource_appFolder context)
  · exact toldOf_violationsIn _ ((hlisted path hpath).hasFile hwf)
  · rw [Check.Looks, isListed_iff hwf, and_true, IsTokenFile, ← isAmong_iff hplaces, scannedFiles,
      List.mem_filter, Bool.not_eq_true', Bool.not_eq_true]

end

/-! ## The check of the route table -/

/-- There is no route table to check if there is no file, or if its bytes encode no text, or if it
exports no array of that name. -/
theorem AppRoutes.check_eq_error_iff : (∃ fault, check context tree = .error fault) ↔
    tree.hasFile context.appRoutes = false ∨ tree.Undecodable context.appRoutes ∨
      ∃ raw, tree.read context.appRoutes = .ok (Text.Utf8.encode raw) ∧
        ∀ exported ∈ (Syntax.SyntaxTree.ofText (Text.normalizeNewlines raw)
          context.appRoutes.extension).root.exportedArrays, exported.name ≠ "routes".toList := by
  rw [check, readTable]
  cases hfile : tree.hasFile context.appRoutes with
  | false => exact iff_of_true ⟨_, rfl⟩ (.inl rfl)
  | true =>
    obtain ⟨bytes, hread⟩ := exists_read_iff.2 hfile
    rcases readText_cases hread with ⟨raw, rfl, htext⟩ | ⟨hnone, fault, -, htext⟩
    · have hnot : ¬tree.Undecodable context.appRoutes := by
        rintro ⟨bytes, hbytes, hnone⟩
        rw [hread] at hbytes
        exact hnone raw (Except.ok.inj hbytes)
      have htable : ∀ root : Syntax.Node, root.exportedArray? tableName = none ↔
          ∀ exported ∈ root.exportedArrays, exported.name ≠ "routes".toList := by
        intro root
        rw [Syntax.Node.exportedArray?, List.find?_eq_none]
        simp only [decide_eq_true_eq]
        rfl
      rw [if_pos rfl, readSource_eq_ok htext]
      constructor
      · rintro ⟨fault, hfault⟩
        refine .inr (.inr ⟨raw, hread, (htable _).1 ?_⟩)
        cases hexported : (Syntax.SyntaxTree.ofText (Text.normalizeNewlines raw)
            context.appRoutes.extension).root.exportedArray? tableName with
        | none => rfl
        | some table =>
          dsimp only at hfault
          rw [hexported] at hfault
          cases hfault
      · rintro (h | h | ⟨other, hother, hnone⟩)
        · cases h
        · exact absurd h hnot
        · rw [hread] at hother
          rw [← Text.Utf8.encode_injective (Except.ok.inj hother), ← htable] at hnone
          dsimp only
          rw [hnone]
          exact ⟨_, rfl⟩
    · rw [if_pos rfl, readSource_eq_error htext]
      exact iff_of_true ⟨_, rfl⟩ (.inr (.inl hnone))

/-! ## Every tree -/

theorem nulFree_of_hasFile (h : tree.hasFile path = true) : path.NulFree := by
  obtain ⟨place, bytes, hplace, -⟩ := locate_of_hasFile h
  unfold locate at hplace
  split at hplace
  · cases hplace
  · next hnul => exact Path.any_contains_nul_eq_false_iff.1 (Bool.eq_false_iff.2 hnul)

theorem root_of_select {root : Path} {manifest : Manifest} {settings : Settings} {asked : Option Text}
    (h : Workspace.select root manifest settings asked = .ok context) : context.root = root := by
  unfold Workspace.select at h
  split at h
  · cases h
  · split at h
    · cases h
    · rw [← Except.ok.inj h]

/-- The root of a workspace is where a manifest is. -/
theorem nulFree_root_of_context {here start : Path} {asked : Option Text}
    (h : Workspace.context tree here start asked = .ok context) : context.root.NulFree := by
  obtain ⟨root, hroot, h⟩ := Workspace.exists_of_bind_eq_ok h
  have hfile : tree.hasFile (root.child Manifest.fileName) = true := by
    unfold Workspace.findRoot at hroot
    split at hroot
    · cases hroot
    · split at hroot
      · next found hfound =>
        rw [Workspace.root?] at hfound
        have hmanifest := List.find?_some hfound
        rw [← Except.ok.inj hroot]
        exact hmanifest
      · cases hroot
  have heq : context.root = root := by
    obtain ⟨manifest, -, h⟩ := Workspace.exists_of_bind_eq_ok h
    split at h
    · cases h
    · exact root_of_select h
  rw [heq]
  intro name hname
  exact nulFree_of_hasFile hfile name (List.mem_append_left _ hname)

theorem RawColors.tokensNamed_of_notMem (hroot : context.root.NulFree)
    (h : ∀ token ∈ context.settings.tokenFiles, '\x00' ∉ token) : TokensNamed context := by
  intro token htoken
  obtain ⟨name, hname, rfl⟩ := List.mem_map.1 htoken
  exact hroot.join (Path.nulFree_ofText_iff.2 (h name hname))

theorem undecodable_page : (pageTree [0xff]).Undecodable
    ((pageContext.featuresFolder.child "a").child "a.page.ts") := by
  have hdecode : (Text.Utf8.decode [0xff]).toOption = none := by decide +kernel
  refine ⟨[0xff], rfl, fun raw hraw => ?_⟩
  rw [← hraw, Text.Utf8.decode_encode] at hdecode
  cases hdecode

theorem looks_page : Check.layout.Looks pageContext (pageTree [0xff])
    ((pageContext.featuresFolder.child "a").child "a.page.ts") := by
  refine ⟨rfl, rfl, ⟨_, ["features", "a", "a.page.ts"], rfl, ?_, rfl⟩, by decide⟩
  rw [FileTree.Lists]
  decide

end VerticalSlice
