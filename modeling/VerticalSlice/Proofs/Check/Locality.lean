import Mathlib
import VerticalSlice.Proofs.Path.Written
import VerticalSlice.Proofs.Text.Utf8
import VerticalSlice.Proofs.Tree.Alike
import VerticalSlice.Rule.Check

/-!
# What one file can change

Each of four checks goes through files and looks at every file on its own: of the tree it asks only
what its names are, and of a file only what is read there. So when a workspace is changed in one file,
whatever the bytes of the file were and are, the verdict stays as it was but for the violations that are
told of this file (`run_alike`). The file must be none that approves colours, since these are asked
about every other file; and the table of the application is not among the checks, for it is one file.
-/

namespace VerticalSlice

open FileTree

/-- Is the violation told of the file at this place? What it names is taken from the root of the
workspace. -/
def Violation.isAbout (context : Context) (tree : FileTree) (place : List Text)
    (violation : Violation) : Bool :=
  violation.file.any fun file =>
    (tree.locate (context.root.join (Path.ofText file))).toOption = some place

/-- The verdict without some violations. -/
def Verdict.without (verdict : Verdict) (isLeftOut : Violation → Bool) : Verdict :=
  { verdict with violations := verdict.violations.filter fun violation => !isLeftOut violation }

/-- Verdicts that differ in their violations only are the same where these do not. -/
theorem Verdict.without_congr {first second : Verdict} {isLeftOut : Violation → Bool}
    (hrest : { first with violations := [] } = { second with violations := [] })
    (h : (first.violations.filter fun violation => !isLeftOut violation) =
      second.violations.filter fun violation => !isLeftOut violation) :
    first.without isLeftOut = second.without isLeftOut := by
  obtain ⟨check, title, summary, violations, featuresChecked⟩ := first
  cases hrest
  rw [without, h]
  rfl

variable {context : Context} {tree changed : FileTree} {place : List Text}

/-! ## One file -/

/-- What is told of a file, by a look at what is read there, is the same in both trees, or it is left
out of both. -/
theorem filter_eq_of_readText (halike : AlikeBut place tree changed) (path : Path)
    (look : FileTree → List Violation)
    (hlook : ∀ tree other, tree.readText path = other.readText path → look tree = look other)
    (hfile : ∀ tree, ∀ violation ∈ look tree, violation.file = some (context.relative path))
    (hshown : context.root.join (Path.ofText (context.relative path)) = path) :
    (look changed).filter (fun violation => !violation.isAbout context tree place) =
      (look tree).filter fun violation => !violation.isAbout context tree place := by
  by_cases hpath : tree.locate path = .ok place
  · have hnone : ∀ other, (look other).filter
        (fun violation => !violation.isAbout context tree place) = [] := by
      intro other
      rw [List.filter_eq_nil_iff]
      intro violation hviolation
      rw [Violation.isAbout, hfile other violation hviolation, Option.any_some, hshown, hpath]
      simp [Except.toOption]
    rw [hnone, hnone]
  · rw [hlook changed tree (halike.readText_eq hpath)]

theorem readSource_eq_of_readText {other : FileTree} {path : Path}
    (h : tree.readText path = other.readText path) : tree.readSource path = other.readSource path := by
  rw [readSource, readSource, h]

/-- The violations of many files are left out file by file. -/
theorem filter_flatMap_congr {α : Type} {files : List α} {first second : α → List Violation}
    {keep : Violation → Bool}
    (h : ∀ file ∈ files, (first file).filter keep = (second file).filter keep) :
    (files.flatMap first).filter keep = (files.flatMap second).filter keep := by
  rw [List.filter_flatMap, List.filter_flatMap]
  exact List.flatMap_congr h

/-! ## The paths of the files -/

section

variable (hrooted : context.IsRooted)

include hrooted

/-- Every file that is listed below a folder of the sources is shown so that it is found again. -/
theorem join_ofText_relative_of_mem_collectFiles (hwf : tree.WellFormed) {path : Path}
    (inside : List Text) (hinside : ∀ name ∈ inside, IsName name) {suffixes ignored : List Text}
    (hpath : path ∈ tree.collectFiles
      ⟨context.sourceRoot.anchor, context.sourceRoot.names ++ inside⟩ suffixes ignored) :
    context.root.join (Path.ofText (context.relative path)) = path := by
  obtain ⟨found, names, hfound, hlists, rfl⟩ := (mem_collectFiles_iff hwf).1 hpath
  have hnames := isName_of_lists ( wellFormed_of_entry? hwf hfound) hlists
  dsimp only
  rw [List.append_assoc]
  exact hrooted.join_ofText_relative fun name hname =>
    (List.mem_append.1 hname).elim (fun h => (hinside name h).isStep) fun h => (hnames name h).isStep

theorem join_ofText_relative_routesFile {feature : Text} (hfeature : IsName feature) :
    context.root.join (Path.ofText (context.relative (FeatureRoutes.routesFile context feature))) =
      FeatureRoutes.routesFile context feature := by
  have hfile : IsName (Text.concat [feature, ".routes.ts"]) := by
    rw [Text.concat, List.flatten_cons, List.flatten_singleton]
    exact isName_append hfeature (by decide) (by decide) (by decide)
  have hpath : FeatureRoutes.routesFile context feature =
      ⟨context.sourceRoot.anchor, context.sourceRoot.names ++
        ["app".toList, "features".toList, feature, Text.concat [feature, ".routes.ts"]]⟩ := by
    rw [FeatureRoutes.routesFile, Path.ofText_of_isName hfeature, Path.ofText_of_isName hfile,
      Context.featuresFolder, Context.appFolder, Path.child, Path.child, Path.join, Path.join]
    simp only [List.append_assoc, List.cons_append, List.nil_append]
  rw [hpath]
  refine hrooted.join_ofText_relative fun name hname => ?_
  simp only [List.mem_cons, List.not_mem_nil, or_false] at hname
  rcases hname with rfl | rfl | rfl | rfl
  · exact IsName.isStep (by decide)
  · exact IsName.isStep (by decide)
  · exact hfeature.isStep
  · exact hfile.isStep

end

theorem isName_of_mem_folderNames (hwf : tree.WellFormed) {base : Path} {name : Text}
    (h : name ∈ tree.folderNames base) : IsName name := by
  cases hbase : tree.hasFolder base with
  | false =>
    rw [folderNames_eq_nil hbase] at h
    cases h
  | true =>
    obtain ⟨there, entries, hthere, hfolder⟩ := locate_of_hasFolder hbase
    rw [mem_folderNames_iff hwf hthere hfolder] at h
    obtain ⟨entry, hentry, -⟩ := (Option.any_eq_true _ _).1 h
    exact isName_of_get? hwf hentry name (by simp)

/-- Around a folder with a proper name there is a folder. -/
theorem hasFolder_of_child {base : Path} {name : Text} (h : tree.hasFolder (base.child name) = true) :
    tree.hasFolder base = true := by
  obtain ⟨place, entries, hplace, -⟩ := locate_of_hasFolder h
  unfold locate at hplace
  split at hplace
  · cases hplace
  · next hnul =>
    rw [Path.child, List.any_append, Bool.or_eq_true, not_or] at hnul
    rw [Path.child, walk_append] at hplace
    obtain ⟨there, hthere, hwalk⟩ := Workspace.exists_of_bind_eq_ok hplace
    rw [hasFolder, entry?, locate, if_neg hnul.1, hthere]
    rw [walk] at hwalk
    dsimp only
    split at hwalk
    · cases hwalk
    · cases hwalk
    · next hget =>
      rw [hget]
      rfl

theorem mem_folderNames_iff_hasFolder (hwf : tree.WellFormed) {base : Path} {name : Text} :
    name ∈ tree.folderNames base ↔ IsName name ∧ tree.hasFolder (base.child name) = true := by
  cases hbase : tree.hasFolder base with
  | false =>
    rw [folderNames_eq_nil hbase]
    refine iff_of_false List.not_mem_nil fun h => ?_
    rw [hasFolder_of_child h.2] at hbase
    cases hbase
  | true =>
    obtain ⟨there, entries, hthere, hfolder⟩ := locate_of_hasFolder hbase
    constructor
    · intro h
      have hname := isName_of_mem_folderNames hwf h
      rw [mem_folderNames_iff hwf hthere hfolder] at h
      exact ⟨hname, (hasFolder_child hthere hname).trans h⟩
    · rintro ⟨hname, h⟩
      rw [hasFolder_child hthere hname] at h
      exact (mem_folderNames_iff hwf hthere hfolder).2 h

/-! ## The checks -/

section

variable {path : Path} {violation : Violation}

theorem Structure.file_of_mem_placementIn (h : violation ∈ placementIn context tree path) :
    violation.file = some (context.relative path) := by
  unfold placementIn at h
  split at h
  · dsimp only at h
    split at h
    · rw [List.mem_singleton.1 h]
      rfl
    · obtain ⟨breach, -, rfl⟩ := List.mem_map.1 h
      rfl
  · cases h

theorem FeatureRoutes.file_of_mem_violationsIn {file : Text} {source : Except ReadFault _}
    (h : violation ∈ violationsIn file source) : violation.file = some file := by
  unfold violationsIn at h
  split at h
  · rw [List.mem_singleton.1 h]
    rfl
  · obtain ⟨finding, -, rfl⟩ := List.mem_map.1 h
    rfl

theorem FeatureImports.file_of_mem_violationsIn (h : violation ∈ violationsIn context tree path) :
    violation.file = some (context.relative path) := by
  unfold violationsIn at h
  split at h
  · cases h
  · dsimp only at h
    split at h
    · rw [List.mem_singleton.1 h]
      rfl
    · obtain ⟨crossing, -, rfl⟩ := List.mem_map.1 h
      rfl

theorem RawColors.file_of_mem_violationsIn {approved : List Text}
    (h : violation ∈ violationsIn context tree approved path) :
    violation.file = some (context.relative path) := by
  unfold violationsIn at h
  dsimp only at h
  split at h
  · rw [List.mem_singleton.1 h]
    rfl
  · obtain ⟨sighting, -, rfl⟩ := List.mem_map.1 h
    rfl

end

section

variable (hrooted : context.IsRooted) (halike : AlikeBut place tree changed) (hwf : tree.WellFormed)
  (hchanged : changed.WellFormed)

include hrooted halike hwf hchanged

theorem Structure.filter_violations_eq :
    (violations context changed).filter (fun violation => !violation.isAbout context tree place) =
      (violations context tree).filter fun violation => !violation.isAbout context tree place := by
  have hmissing : missingFiles context changed = missingFiles context tree := by
    funext feature
    simp only [missingFiles, halike.hasEntry_eq]
  have hfeatures : features context changed = features context tree :=
    halike.folderNames_eq hwf hchanged _
  have hsources : sourceFiles context changed = sourceFiles context tree :=
    halike.collectFiles_eq hwf hchanged _ _ _
  have hplacement : ∀ path ∈ sourceFiles context tree,
      (placementIn context changed path).filter
          (fun violation => !violation.isAbout context tree place) =
        (placementIn context tree path).filter
          fun violation => !violation.isAbout context tree place := by
    intro path hpath
    refine filter_eq_of_readText halike path (fun tree => placementIn context tree path)
      (fun tree other htext => ?_) (fun tree violation => file_of_mem_placementIn) ?_
    · simp only [placementIn, readSource_eq_of_readText htext]
    · exact join_ofText_relative_of_mem_collectFiles hrooted hwf ["app"] (by decide) hpath
  rw [violations, violations, halike.hasFolder_eq, halike.hasFolder_eq]
  split
  · rfl
  · split
    · rfl
    · rw [violationsWithin, violationsWithin, hmissing, hfeatures, hsources, List.filter_append,
        List.filter_append, List.filter_append, List.filter_append, filter_flatMap_congr hplacement]

theorem FeatureRoutes.filter_violations_eq :
    ((check context changed).violations).filter (fun violation => !violation.isAbout context tree place) =
      ((check context tree).violations).filter
        fun violation => !violation.isAbout context tree place := by
  have hfeatures : changed.folderNames context.featuresFolder = tree.folderNames context.featuresFolder :=
    halike.folderNames_eq hwf hchanged _
  show ((changed.folderNames context.featuresFolder).flatMap (violationsOf context changed)).filter _ =
    ((tree.folderNames context.featuresFolder).flatMap (violationsOf context tree)).filter _
  rw [hfeatures]
  refine filter_flatMap_congr fun feature hfeature => ?_
  rw [violationsOf, violationsOf, halike.hasFile_eq]
  split
  · refine filter_eq_of_readText halike (routesFile context feature)
      (fun tree => violationsIn (context.relative (routesFile context feature))
        (tree.readSource (routesFile context feature)))
      (fun tree other htext => ?_) (fun tree violation => file_of_mem_violationsIn) ?_
    · simp only [readSource_eq_of_readText htext]
    · exact join_ofText_relative_routesFile hrooted (isName_of_mem_folderNames hwf hfeature)
  · rfl

theorem FeatureImports.filter_violations_eq :
    ((check context changed).violations).filter (fun violation => !violation.isAbout context tree place) =
      ((check context tree).violations).filter
        fun violation => !violation.isAbout context tree place := by
  have hsources : sourceFiles context changed = sourceFiles context tree :=
    halike.collectFiles_eq hwf hchanged _ _ _
  show (if changed.hasFolder context.featuresFolder = true then
      (sourceFiles context changed).flatMap (violationsIn context changed) else []).filter _ =
    (if tree.hasFolder context.featuresFolder = true then
      (sourceFiles context tree).flatMap (violationsIn context tree) else []).filter _
  rw [halike.hasFolder_eq, hsources]
  split
  · refine filter_flatMap_congr fun path hpath => ?_
    refine filter_eq_of_readText halike path (fun tree => violationsIn context tree path)
      (fun tree other htext => ?_) (fun tree violation => file_of_mem_violationsIn) ?_
    · simp only [violationsIn, readSource_eq_of_readText htext]
    · have hfolder : context.featuresFolder = ⟨context.sourceRoot.anchor,
          context.sourceRoot.names ++ ["app".toList, "features".toList]⟩ := by
        rw [Context.featuresFolder, Context.appFolder, Path.child, Path.child, List.append_assoc]
        rfl
      rw [sourceFiles, hfolder] at hpath
      exact join_ofText_relative_of_mem_collectFiles hrooted hwf _ (by decide) hpath
  · rfl

theorem RawColors.map_without_check_eq
    (htokens : ∀ token ∈ tokenFiles context, tree.locate token.2 ≠ .ok place) :
    (check context changed).map (·.without (·.isAbout context tree place)) =
      (check context tree).map (·.without (·.isAbout context tree place)) := by
  have happroved : approved context changed = approved context tree := by
    rw [approved, approved, List.flatMap_congr fun token htoken => ?_]
    rw [approvedIn, approvedIn, halike.hasFile_eq, halike.readText_eq (htokens token htoken)]
  have hscanned : ∀ places, scannedFiles context changed places = scannedFiles context tree places := by
    intro places
    rw [scannedFiles, scannedFiles, halike.collectFiles_eq hwf hchanged]
  rw [check, check]
  cases tokenPlaces context with
  | error fault => rfl
  | ok places =>
    dsimp only [bind, Except.bind, pure, Except.pure, Except.map]
    rw [Verdict.without, Verdict.without, happroved, hscanned]
    have hviolations : ((scannedFiles context tree places).flatMap
        (violationsIn context changed (approved context tree))).filter
          (fun violation => !violation.isAbout context tree place) =
        ((scannedFiles context tree places).flatMap
          (violationsIn context tree (approved context tree))).filter
            fun violation => !violation.isAbout context tree place := by
      refine filter_flatMap_congr fun path hpath => ?_
      refine filter_eq_of_readText halike path
        (fun other => violationsIn context other (approved context tree) path)
        (fun first second htext => ?_) (fun other violation => file_of_mem_violationsIn) ?_
      · simp only [violationsIn, sightings, htext]
      · exact join_ofText_relative_of_mem_collectFiles hrooted hwf ["app"] (by decide)
          (List.mem_filter.1 hpath).1
    rw [hviolations]

end

/-- A check other than that of the table of the application comes to the same verdict on two workspaces
that differ in one file, but for what is told of this file. -/
theorem Check.run_alike {here start : Path} {asked : Option Text} (check : Check)
    (hcheck : check ≠ .appRoutes) (hwf : tree.WellFormed) (hchanged : changed.WellFormed)
    (hcontext : Workspace.context tree here start asked = .ok context)
    (halike : AlikeBut place tree changed)
    (htokens : ∀ token ∈ RawColors.tokenFiles context, tree.locate token.2 ≠ .ok place) :
    (check.run context changed).map (·.without (·.isAbout context tree place)) =
      (check.run context tree).map (·.without (·.isAbout context tree place)) := by
  have hrooted := Workspace.isRooted_of_context hcontext
  cases check with
  | appRoutes => exact absurd rfl hcheck
  | layout =>
    have hfeatures : Structure.features context changed = Structure.features context tree :=
      halike.folderNames_eq hwf hchanged _
    refine congrArg Except.ok (Verdict.without_congr ?_
      (Structure.filter_violations_eq hrooted halike hwf hchanged))
    unfold Structure.check
    rw [hfeatures]
  | featureRoutes =>
    have hfeatures := halike.folderNames_eq hwf hchanged context.featuresFolder
    refine congrArg Except.ok (Verdict.without_congr ?_
      (FeatureRoutes.filter_violations_eq hrooted halike hwf hchanged))
    unfold FeatureRoutes.check
    rw [hfeatures]
  | featureImports =>
    refine congrArg Except.ok (Verdict.without_congr ?_
      (FeatureImports.filter_violations_eq hrooted halike hwf hchanged))
    unfold FeatureImports.check
    rw [halike.hasFolder_eq]
  | rawColors =>
    have hverdicts := RawColors.map_without_check_eq hrooted halike hwf hchanged htokens
    have hcommute : ∀ verdict : Except FileFault Verdict,
        (verdict.mapError CheckFault.file).map (·.without (·.isAbout context tree place)) =
          (verdict.map (·.without (·.isAbout context tree place))).mapError CheckFault.file :=
      fun verdict => by cases verdict <;> rfl
    unfold run
    dsimp only
    rw [hcommute, hcommute, hverdicts]

/-! ## A small workspace -/

/-- The manifest of the small workspace. -/
def pageManifest : Text :=
  "\x7b\"projects\": \x7b\"demo\": \x7b\"projectType\": \"application\"\x7d\x7d\x7d"

/-- A workspace with a page of these bytes, and with a style sheet that has a colour. -/
def pageTree (bytes : List UInt8) : FileTree :=
  .folder [("angular.json", .file (Text.Utf8.encode pageManifest)),
    ("src", .folder [("app", .folder [("features", .folder [("a", .folder [("a.page.ts", .file bytes)])]),
      ("app.css", .file (Text.Utf8.encode "a \x7b color: #fff \x7d\n"))])])]

/-- The names of the page. -/
def pagePlace : List Text := ["src", "app", "features", "a", "a.page.ts"]

/-- The page has a colour too. -/
def colorBytes : List UInt8 := Text.Utf8.encode "export const c = '#123456';\n"

/-- What the manifest says of the application. -/
def pageProject : Members := [("projectType", .text "application")]

/-- The workspace around it. -/
def pageContext : Context :=
  ⟨⟨.root, []⟩, ⟨[("projects", .object [("demo", .object pageProject)])]⟩, "demo", pageProject,
    ⟨.root, ["src"]⟩, {}⟩

theorem toOption_eq_some {ε α : Type} {result : Except ε α} {a : α} (h : result.toOption = some a) :
    result = .ok a := by
  cases result with
  | error fault => cases h
  | ok b => exact congrArg Except.ok (Option.some.inj h)

/-- A workspace is found where its root, its manifest and its settings are. -/
theorem context_eq_ok {here start root : Path} {text : Text} {members : Members} {settings : Settings}
    {notices : List SettingsNotice} (hroot : Workspace.findRoot tree here start = .ok root)
    (hread : tree.readText (root.child Manifest.fileName) = .ok text)
    (hjson : Json.ofText text = .ok (.object members))
    (hsettings : Settings.load tree root = .ok (settings, notices)) :
    Workspace.context tree here start none = Workspace.select root ⟨members⟩ settings none := by
  have hmanifest : Workspace.readManifest tree root = .ok ⟨members⟩ := by
    rw [Workspace.readManifest, hread]
    dsimp only
    rw [hjson]
  rw [Workspace.context, hroot]
  show (Workspace.readManifest tree root >>= _) = _
  rw [hmanifest]
  rw [hsettings]
  rfl

/-- A workspace around that manifest, without settings, is the small one, whatever else it holds. -/
theorem context_eq_pageContext
    (hroot : Workspace.findRoot tree ⟨.root, []⟩ ⟨.root, []⟩ = .ok ⟨.root, []⟩)
    (hread : tree.read (Path.child ⟨.root, []⟩ Manifest.fileName) = .ok (Text.Utf8.encode pageManifest))
    (hnone : tree.hasFile (Path.join ⟨.root, []⟩ Settings.path) = false) :
    Workspace.context tree ⟨.root, []⟩ ⟨.root, []⟩ none = .ok pageContext := by
  have htext := readText_of_read hread rfl
  rw [Text.normalizeNewlines_eq_self (by decide +kernel)] at htext
  have hjson : Json.ofText pageManifest = .ok (.object pageContext.manifest.members) := by cbv
  have hsettings : Settings.load tree ⟨.root, []⟩ = .ok ({}, []) := by
    rw [Settings.load, hnone]
    rfl
  rw [context_eq_ok hroot htext hjson hsettings]
  cbv

theorem context_pageTree :
    Workspace.context (pageTree colorBytes) ⟨.root, []⟩ ⟨.root, []⟩ none = .ok pageContext :=
  context_eq_pageContext (toOption_eq_some (by decide +kernel)) (toOption_eq_some (by decide +kernel))
    (by decide +kernel)

theorem alikeBut_pageTree : AlikeBut pagePlace (pageTree colorBytes) (pageTree [0xff]) :=
  @alikeBut_put (pageTree colorBytes) ["src", "app", "features", "a"] "a.page.ts" _ colorBytes rfl rfl
    [0xff]

/-- Where the page cannot be read any more, the colours of the small workspace are told as before, but
for those of the page. -/
theorem run_alike_pageTree : Check.rawColors ≠ .appRoutes ∧ (pageTree colorBytes).WellFormed ∧
    (pageTree [0xff]).WellFormed ∧
    Workspace.context (pageTree colorBytes) ⟨.root, []⟩ ⟨.root, []⟩ none = .ok pageContext ∧
    AlikeBut pagePlace (pageTree colorBytes) (pageTree [0xff]) ∧
    (∀ token ∈ RawColors.tokenFiles pageContext,
      (pageTree colorBytes).locate token.2 ≠ .ok pagePlace) ∧
    (Check.rawColors.run pageContext (pageTree [0xff])).map
        (·.without (·.isAbout pageContext (pageTree colorBytes) pagePlace)) =
      (Check.rawColors.run pageContext (pageTree colorBytes)).map
        (·.without (·.isAbout pageContext (pageTree colorBytes) pagePlace)) := by
  have hcheck : Check.rawColors ≠ .appRoutes := by decide
  have hwf : (pageTree colorBytes).WellFormed := by decide +kernel
  have hchanged : (pageTree [0xff]).WellFormed := by decide +kernel
  have htokens : ∀ token ∈ RawColors.tokenFiles pageContext,
      (pageTree colorBytes).locate token.2 ≠ .ok pagePlace := by
    intro token htoken hlocate
    have hnone : ∀ token ∈ RawColors.tokenFiles pageContext,
        ((pageTree colorBytes).locate token.2).toOption ≠ some pagePlace := by decide +kernel
    exact hnone token htoken (congrArg Except.toOption hlocate)
  exact ⟨hcheck, hwf, hchanged, context_pageTree, alikeBut_pageTree, htokens,
    Check.run_alike .rawColors hcheck hwf hchanged context_pageTree alikeBut_pageTree htokens⟩

end VerticalSlice
