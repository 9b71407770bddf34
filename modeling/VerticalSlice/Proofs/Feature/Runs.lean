import VerticalSlice.Proofs.Check.Locality
import VerticalSlice.Proofs.Feature.Faults
import VerticalSlice.Proofs.Feature.Retabling
import VerticalSlice.Proofs.Feature.Routing

/-!
# Runs of generations

Features are generated one after the other in a workspace that begins without any (`IsFresh`), each with a route of
its own that is registered. No call fails, in the end no check finds anything, and the table has the routes in the
order of the calls (`generateAll_passes`). A call depends on what the ones before it left, so what a workspace is like
after some calls is named once (`IsReady`): nothing lies below the folder of the features but theirs, the table has
their routes and no others, and nothing is told of but that there are no features, before the first is there. One
call keeps that up (`IsReady.exists_generate`), and so does a run (`IsReady.exists_generateAll`).
-/

namespace VerticalSlice.Feature

open FileTree Syntax

/-- Generates features one after the other, each in what the one before left. -/
def generateAll (context : Context) (tree : FileTree) :
    List Request → FileTree × List (Except GenerationFault Generated)
  | [] => (tree, [])
  | request :: rest =>
    let made := generate context tree request
    let later := generateAll context made.1 rest
    (later.1, made.2 :: later.2)

/-- The route that a request asks for, and the feature that it leads to. -/
def Request.call (request : Request) : Call :=
  ⟨request.routePath (FeatureName.spell request.name), FeatureName.spell request.name⟩

/-- The name is an accepted one, a route that is given is a proper one, and it is registered. Nothing is replaced. -/
structure Request.IsProper (request : Request) : Prop where
  accepted : FeatureName.isAccepted request.name = true
  given : ∀ route, request.route = some route → IsRoute route
  register : request.register = true
  overwrite : request.overwrite = false

/-- What a call tells when it is done: the route was not in the table before. -/
def Request.generated (context : Context) (request : Request) : Generated :=
  Feature.generated context request.call.name (some request.call.route) false

/-- The violation of a workspace that has no features. -/
def noFeatures (context : Context) : Violation :=
  (Structure.Breach.noFeatures (context.relative context.featuresFolder)).inFile none

/-- The workspace is as these calls leave it. -/
structure IsReady (context : Context) (calls : List Call) (tree : FileTree) : Prop where
  wellFormed : tree.WellFormed
  folder : tree.hasFolder context.featuresFolder = true
  only : ∀ name, IsName name → tree.hasEntry (context.featuresFolder.child name) = true →
    ∃ call ∈ calls, call.name.kebab = name
  some : calls ≠ [] → tree.folderNames context.featuresFolder ≠ []
  table : ∃ text, tree.readText context.appRoutes = .ok text ∧ IsTable calls text
  layout : ∀ violation ∈ Structure.violations context tree, violation = noFeatures context
  routes : (FeatureRoutes.check context tree).violations = []
  imports : (FeatureImports.check context tree).violations = []
  colors : found (Check.rawColors.run context tree) = .ok []

variable {context : Context} {tree : FileTree} {calls : List Call} {request : Request}

namespace Request.IsProper

variable (h : request.IsProper)

include h

theorem isSpelling : request.call.name.IsSpelling :=
  ⟨request.name, FeatureName.ofText?_eq_some_iff.2 ⟨h.accepted, rfl⟩⟩

theorem isRoute : IsRoute request.call.route := by
  rw [Request.call, Request.routePath]
  cases hroute : request.route with
  | none => exact isRoute_kebab h.isSpelling
  | some route => exact h.given route hroute

end Request.IsProper

/-- The workspace has the small table and no features yet, and else nothing in it breaks a rule. -/
structure IsFresh (context : Context) (tree : FileTree) : Prop where
  wellFormed : tree.WellFormed
  table : tree.readText context.appRoutes = .ok startTable
  features : tree.entry? context.featuresFolder = some (.folder [])
  layout : ∀ violation ∈ Structure.violations context tree, violation = noFeatures context
  colors : ∃ verdict, Check.rawColors.run context tree = .ok verdict ∧ verdict.passed = true

/-! ## Before the first call -/

theorem folderNames_of_empty {base : Path} (h : tree.entry? base = some (.folder [])) : tree.folderNames base = [] := by
  rw [folderNames, sortedEntries, h]
  simp [entries]

/-- A workspace without features is ready for the first one. -/
theorem IsFresh.isReady (h : IsFresh context tree) : IsReady context [] tree := by
  have hfolder : tree.hasFolder context.featuresFolder = true := by
    rw [hasFolder, h.features]
    rfl
  have hfiles : FeatureImports.sourceFiles context tree = [] := by
    rw [FeatureImports.sourceFiles, collectFiles, h.features]
    simp [sorted, sortedEach, filesWithin, filesAmong]
  refine ⟨h.wellFormed, hfolder, fun name hisName hentry => ?_, fun hne => absurd rfl hne,
    ⟨startTable, h.table, isTable_startTable⟩, h.layout, ?_, ?_, ?_⟩
  · -- an empty folder has nothing below it
    obtain ⟨place, entries, hplace, -⟩ := locate_of_hasFolder hfolder
    have hempty : tree.get? place = some (.folder []) := entry?_eq_of_locate hplace ▸ h.features
    have hbelow := entry?_append hplace (List.forall_mem_singleton.2 hisName)
    rw [get?_append, hempty] at hbelow
    rw [hasEntry, Path.child, hbelow] at hentry
    cases hentry
  · show (tree.folderNames context.featuresFolder).flatMap (FeatureRoutes.violationsOf context tree) = []
    rw [folderNames_of_empty h.features, List.flatMap_nil]
  · show (if tree.hasFolder context.featuresFolder = true then (FeatureImports.sourceFiles context tree).flatMap
      (FeatureImports.violationsIn context tree) else []) = []
    rw [hfiles, List.flatMap_nil, ite_self]
  · obtain ⟨verdict, hrun, hpassed⟩ := h.colors
    rw [hrun]
    exact congrArg Except.ok (List.isEmpty_iff.1 hpassed)

/-! ## One call -/

/-- Where nothing has the name of the feature, nothing is below it. -/
theorem get?_eq_none_of_name {place : List Text} {name file : Text} (h : tree.get? (place ++ [name]) = none) :
    tree.get? (place ++ [name, file]) = none := by
  have hbelow := get?_append tree (place ++ [name]) [file]
  rwa [h, Option.bind_none, List.append_assoc] at hbelow

/-- Where nothing has the name of the feature, its files are not there. -/
theorem existing?_eq_none {name : FeatureName} {place : List Text} (hname : name.IsSpelling)
    (hplace : tree.locate context.featuresFolder = .ok place) (hnone : tree.get? (place ++ [name.kebab]) = none) :
    existing? tree (files context name) = none := by
  rw [existing?, Option.map_eq_none_iff, List.find?_eq_none]
  intro file hfile
  obtain ⟨rendered, hrendered, rfl⟩ := List.mem_map.1 hfile
  have hnames : ∀ other ∈ [name.kebab, rendered.1], IsName other := List.forall_mem_cons.2
    ⟨isName_kebab hname, List.forall_mem_singleton.2 (isName_of_mem_render hname rendered hrendered)⟩
  have hentry := entry?_append hplace hnames
  rw [get?_eq_none_of_name hnone] at hentry
  dsimp only
  rw [hasEntry, folder, Path.child, Path.child, List.append_assoc]
  dsimp only [List.singleton_append]
  rw [hentry]
  exact Bool.false_ne_true

/-- Below the folder of the features there is what was there, and the feature. -/
theorem IsWritten.eq_or_hasEntry {name : FeatureName} {place : List Text} {changed : FileTree}
    (h : IsWritten context name place tree changed) {other : Text} (hother : IsName other)
    (hentry : changed.hasEntry (context.featuresFolder.child other) = true) :
    other = name.kebab ∨ tree.hasEntry (context.featuresFolder.child other) = true := by
  have hnames : ∀ name ∈ [other], IsName name := List.forall_mem_singleton.2 hother
  have hthere : ∀ {some : FileTree}, some.locate context.featuresFolder = .ok place →
      some.hasEntry (context.featuresFolder.child other) = (some.sight (place ++ [other])).isSome := by
    intro some hlocate
    rw [hasEntry, Path.child, entry?_append hlocate hnames, sight, Option.isSome_map]
  rw [hthere (h.grows.locate_eq_ok h.locate)] at hentry
  rw [hthere h.locate]
  by_cases hnew : IsPlaceOf tree place name (place ++ [other])
  · rcases hnew with ⟨heq, -⟩ | ⟨file, -, heq⟩
    · exact .inl (List.cons.inj (List.append_cancel_left heq)).1
    · have hlength := congrArg List.length heq
      simp at hlength
  · rw [h.grows.same _ hnew] at hentry
    exact .inr hentry

/-- Where nothing was found and nothing is added, nothing is found. -/
theorem AddsNothing.found_eq_nil {before after : Except CheckFault Verdict} (h : AddsNothing before after)
    (hnil : found before = .ok []) : found after = .ok [] := by
  cases before with
  | error fault => cases hnil
  | ok verdict =>
    have hverdict : verdict.violations = [] := Except.ok.inj hnil
    cases after with
    | error fault => exact h.elim
    | ok verdict' =>
      have hsublist : verdict'.violations.Sublist verdict.violations := h
      rw [hverdict, List.sublist_nil] at hsublist
      exact congrArg Except.ok hsublist

/-- A call whose feature and route are new is done, and the workspace is as it leaves it. -/
theorem IsReady.exists_generate (h : IsReady context calls tree) (hcalls : ∀ call ∈ calls, IsRoute call.route)
    (hproper : request.IsProper) (hkebab : ∀ call ∈ calls, call.name.kebab ≠ request.call.name.kebab)
    (hroute : ∀ call ∈ calls, call.route ≠ request.call.route) :
    ∃ changed, generate context tree request = (changed, .ok (request.generated context)) ∧
      IsReady context (calls ++ [request.call]) changed := by
  have hname := hproper.isSpelling
  obtain ⟨place, inside, hplace, hfolder⟩ := locate_of_hasFolder h.folder
  -- nothing is where the folder of the feature is to be
  have hnone : tree.get? (place ++ [request.call.name.kebab]) = none := by
    by_contra hthere
    obtain ⟨entry, hentry⟩ := Option.ne_none_iff_exists'.1 hthere
    have hnames : ∀ other ∈ [request.call.name.kebab], IsName other :=
      List.forall_mem_singleton.2 (isName_kebab hname)
    have hfound := entry?_append hplace hnames
    obtain ⟨call, hcall, heq⟩ := h.only _ (isName_kebab hname) (by
      rw [hasEntry, Path.child, hfound, hentry]
      rfl)
    exact hkebab call hcall heq
  have hfree := existing?_eq_none hname hplace hnone
  obtain ⟨written, hwritten, hspec⟩ := exists_isWritten h.wellFormed hname hplace hfolder (fun file _ =>
    get?_eq_none_of_name hnone) (by rw [hnone]; rfl)
  -- the route goes into the table
  obtain ⟨text, htext, htable⟩ := h.table
  have hread := (hspec.grows.readText_eq (hasFile_of_readText htext)).trans htext
  obtain ⟨before, after, hpoint, hsplit, hgrown⟩ := htable.insert hcalls hname hproper.isRoute
  obtain ⟨changed, hwrite, hretabled⟩ := exists_isRetabled hspec.wellFormed hread
    (Text.concat [before, routeEntry request.call.route request.call.name, after])
  have hmark : ¬routeMark request.call.route <:+: text := fun hmark => by
    obtain ⟨call, hcall, heq⟩ := htable.marks _ hproper.isRoute hmark
    exact hroute call hcall heq
  have hregister := register_of_unmarked hread hmark hpoint hwrite
  have hnew := readText_insert hname hproper.isRoute hread hsplit hwrite
  -- what held is carried over the files of the feature first (`hspec`) and over the new table then (`hretabled`)
  refine ⟨changed, ?_, hretabled.wellFormed, ?_, fun name hisName hentry => ?_, fun _ => ?_, ⟨_, hnew, hgrown⟩,
    fun violation hviolation => ?_, ?_, ?_, ?_⟩
  · have hspelled := FeatureName.ofText?_eq_some_iff.2 ⟨hproper.accepted, rfl⟩
    rw [generate_eq_generateNamed request hspelled fun _ => hfree]
    exact generateNamed_of_registered hwritten hproper.register hregister
  · obtain ⟨table, -, halike⟩ := hretabled.alike
    rw [halike.hasFolder_eq]
    exact hspec.grows.hasFolder h.folder
  · obtain ⟨table, -, halike⟩ := hretabled.alike
    rw [halike.hasEntry_eq] at hentry
    rcases hspec.eq_or_hasEntry hisName hentry with rfl | hold
    · exact ⟨request.call, List.mem_append_right _ (List.mem_singleton_self _), rfl⟩
    · obtain ⟨call, hcall, heq⟩ := h.only name hisName hold
      exact ⟨call, List.mem_append_left _ hcall, heq⟩
  · obtain ⟨table, -, halike⟩ := hretabled.alike
    rw [halike.folderNames_eq hspec.wellFormed hretabled.wellFormed]
    exact List.ne_nil_of_mem (hspec.mem_folderNames hfolder)
  · rw [hretabled.structure_eq hspec.wellFormed] at hviolation
    exact h.layout violation ((hspec.structure_sublist h.wellFormed hname hfolder).subset hviolation)
  · have hsublist := hspec.featureRoutes_sublist h.wellFormed hname hfolder
    rw [h.routes, List.sublist_nil] at hsublist
    exact (hretabled.featureRoutes_eq hspec.wellFormed).trans hsublist
  · rw [hretabled.featureImports_eq hspec.wellFormed, hspec.featureImports_eq h.wellFormed hname hfolder]
    exact h.imports
  · rw [hretabled.found_rawColors_eq hspec.wellFormed hread
      (hasNoColors_of_isProgram htable.program htable.colorless htable.uncommented) hnew
      (hasNoColors_of_isProgram hgrown.program hgrown.colorless hgrown.uncommented)]
    exact (hspec.rawColors_adds_nothing h.wellFormed hname).found_eq_nil h.colors

/-! ## A run -/

/-- Calls whose features and routes are all different are done, and the workspace is as they leave it. -/
theorem IsReady.exists_generateAll {requests : List Request} (h : IsReady context calls tree)
    (hcalls : ∀ call ∈ calls, IsRoute call.route) (hproper : ∀ request ∈ requests, request.IsProper)
    (hkebabs : ((calls ++ requests.map Request.call).map fun call => call.name.kebab).Nodup)
    (hroutes : ((calls ++ requests.map Request.call).map Call.route).Nodup) :
    ∃ changed, generateAll context tree requests =
        (changed, requests.map fun request => .ok (request.generated context)) ∧
      IsReady context (calls ++ requests.map Request.call) changed := by
  -- the calls that were made grow, and what is left to do is done in the workspace that they left
  induction requests generalizing calls tree with
  | nil => exact ⟨tree, rfl, by rwa [List.map_nil, List.append_nil]⟩
  | cons request rest ih =>
    rw [List.forall_mem_cons] at hproper
    have hdiffers : ∀ {α : Type} {f : Call → α}, ((calls ++ (request :: rest).map Request.call).map f).Nodup →
        ∀ call ∈ calls, f call ≠ f request.call := fun {α} {f} hnodup call hcall => by
      rw [List.map_append, List.nodup_append] at hnodup
      exact hnodup.2.2 _ (List.mem_map_of_mem hcall) _ (List.mem_map_of_mem (List.mem_cons_self ..))
    obtain ⟨made, hmade, hready⟩ := h.exists_generate hcalls hproper.1 (hdiffers hkebabs) (hdiffers hroutes)
    have hsplit : calls ++ (request :: rest).map Request.call =
        calls ++ [request.call] ++ rest.map Request.call := by
      rw [List.map_cons, List.append_assoc]
      rfl
    rw [hsplit] at hkebabs hroutes ⊢
    obtain ⟨changed, hchanged, hlast⟩ := ih hready
      (List.forall_mem_append.2 ⟨hcalls, List.forall_mem_singleton.2 hproper.1.isRoute⟩) hproper.2 hkebabs hroutes
    refine ⟨changed, ?_, hlast⟩
    rw [generateAll, hmade]
    dsimp only
    rw [hchanged, List.map_cons]

/-! ## The checks afterwards -/

/-- A workspace with features is not told to have none. -/
theorem noFeatures_notMem (hfolder : tree.hasFolder context.featuresFolder = true)
    (hsome : tree.folderNames context.featuresFolder ≠ []) :
    noFeatures context ∉ Structure.violations context tree := by
  have happ : tree.hasFolder context.appFolder = true := hasFolder_of_child hfolder
  have hnames : (Structure.features context tree).isEmpty = false := List.isEmpty_eq_false_iff.2 hsome
  intro hmem
  rw [Structure.violations, happ, hfolder] at hmem
  have hwithin : noFeatures context ∈ Structure.violationsWithin context tree := hmem
  rw [Structure.violationsWithin, hnames] at hwithin
  have hrest : noFeatures context ∈ (Structure.features context tree).flatMap (Structure.missingFiles context tree) ++
      (Structure.sourceFiles context tree).flatMap (Structure.placementIn context tree) := hwithin
  rcases List.mem_append.1 hrest with hmissing | hplacement
  · obtain ⟨feature, -, hmissing⟩ := List.mem_flatMap.1 hmissing
    rw [Structure.missingFiles, List.mem_filterMap] at hmissing
    obtain ⟨file, -, hfile⟩ := hmissing
    dsimp only at hfile
    split at hfile
    · cases hfile
    · cases congrArg Violation.file (Option.some.inj hfile)
  · obtain ⟨path, -, hplacement⟩ := List.mem_flatMap.1 hplacement
    cases Structure.file_of_mem_placementIn hplacement

/-- Where calls were made, no check finds anything. -/
theorem IsReady.passes (h : IsReady context calls tree) (hcalls : ∀ call ∈ calls, IsRoute call.route)
    (hne : calls ≠ []) (check : Check) :
    ∃ verdict, check.run context tree = .ok verdict ∧ verdict.passed = true := by
  have hpassed : ∀ {verdict : Verdict}, verdict.violations = [] → verdict.passed = true := fun hnil => by
    rw [Verdict.passed, hnil]
    rfl
  cases check with
  | layout =>
    -- what may be told is that there are no features, and there are some
    refine ⟨_, rfl, hpassed (List.eq_nil_iff_forall_not_mem.2 fun violation hviolation => ?_)⟩
    have hviolation : violation ∈ Structure.violations context tree := hviolation
    exact noFeatures_notMem h.folder (h.some hne) (h.layout violation hviolation ▸ hviolation)
  | appRoutes =>
    obtain ⟨text, htext, htable⟩ := h.table
    obtain ⟨table, hexported, -, hcomposed⟩ := htable.routing.wellComposed fun call hcall =>
      (hcalls call hcall).isOrdinary
    have hread : tree.readSource context.appRoutes = .ok (SyntaxTree.ofText text ".ts") := by
      rw [readSource, htext, extension_appRoutes]
    obtain ⟨verdict, hrun, hviolations⟩ := AppRoutes.exists_verdict (hasFile_of_readText htext) hread hexported
    rw [AppRoutes.findings_eq_nil_iff.2 hcomposed, List.map_nil] at hviolations
    exact ⟨verdict, by rw [Check.run, hrun]; rfl, hpassed hviolations⟩
  | featureRoutes => exact ⟨_, rfl, hpassed h.routes⟩
  | featureImports => exact ⟨_, rfl, hpassed h.imports⟩
  | rawColors =>
    have hcolors := h.colors
    cases hrun : Check.rawColors.run context tree with
    | error fault => rw [hrun] at hcolors; cases hcolors
    | ok verdict =>
      rw [hrun] at hcolors
      exact ⟨verdict, rfl, hpassed (Except.ok.inj hcolors)⟩

/-- The page that the small table leads to where no route is found. -/
def notFoundText : Text :=
  "import \x7b Component \x7d from '@angular/core';\n\n@Component(\x7b\n  standalone: true,\n" ++
    "  template: `<p class=\"text-on-surface\">Page not found</p>`,\n\x7d)\nexport class NotFoundPage \x7b\x7d\n"

/-- Where that page is. -/
def notFoundPath : Path := ⟨.root, ["src", "app", "shared", "pages", "not-found.page.ts"]⟩

/-- A workspace with a table and a page of these bytes, and without features. -/
def emptyTree (table page : List UInt8) : FileTree :=
  .folder [("angular.json", .file (Text.Utf8.encode pageManifest)),
    ("src", .folder [("app", .folder [("features", .folder []), ("app.routes.ts", .file table),
      ("shared", .folder [("pages", .folder [("not-found.page.ts", .file page)])])])])]

/-- The workspace with the small table. -/
def freshTree : FileTree := emptyTree (Text.Utf8.encode startTable) (Text.Utf8.encode notFoundText)

theorem context_freshTree : Workspace.context freshTree ⟨.root, []⟩ ⟨.root, []⟩ none = .ok pageContext :=
  context_eq_pageContext (toOption_eq_some (by decide +kernel)) rfl rfl

/-- The bytes of the files stay variables here, for the files are listed by their names only. -/
theorem collectFiles_emptyTree (table page : List UInt8) {suffixes : List Text}
    (hsuffixes : suffixes ∈ [[".ts".toList], RawColors.scannedSuffixes]) :
    (emptyTree table page).collectFiles pageContext.appFolder suffixes pageContext.settings.ignoredFolders =
      [pageContext.appRoutes, notFoundPath] := by
  rw [List.mem_cons, List.mem_singleton] at hsuffixes
  obtain rfl | rfl := hsuffixes <;> cbv

theorem notFoundText_shape : '\r' ∉ notFoundText ∧ (treeOf notFoundText).isProgram = true ∧
    Color.isBare notFoundText = true ∧ Structure.misplaced true false (treeOf notFoundText).root = [] := by
  unfold notFoundText
  repeat rw [String.toList_ofList]
  decide +kernel

theorem hasNoColors_notFoundText : HasNoColors notFoundText := by
  obtain ⟨-, hprogram, hbare, -⟩ := notFoundText_shape
  exact hasNoColors_of_isProgram (ofText_eq_treeOf notFoundText ▸ hprogram) (Color.isBare_iff.1 hbare).1
    (Color.isBare_iff.1 hbare).2

/-- The text of a file without returns is read as it was written. -/
theorem readText_of_encode {tree : FileTree} {path : Path} {text : Text}
    (hread : tree.read path = .ok (Text.Utf8.encode text)) (hreturns : '\r' ∉ text) :
    tree.readText path = .ok text := by
  have htext := readText_of_read hread rfl
  rwa [Text.normalizeNewlines_eq_self hreturns] at htext

/-- The page breaks none of the rules for sources. -/
theorem placementIn_notFoundPath (hpage : freshTree.readText notFoundPath = .ok notFoundText) :
    Structure.placementIn pageContext freshTree notFoundPath = [] := by
  have hsource : freshTree.readSource notFoundPath = .ok (treeOf notFoundText) := by
    rw [readSource, hpage]
    exact congrArg Except.ok (ofText_eq_treeOf notFoundText)
  rw [Structure.placementIn, hsource]
  dsimp only
  rw [show Structure.isRestricted notFoundPath = true from rfl,
    show pageContext.featuresFolder.isBelow notFoundPath = false from rfl, notFoundText_shape.2.2.2, List.map_nil,
    ite_self]

theorem isFresh_freshTree : IsFresh pageContext freshTree := by
  obtain ⟨-, -, -, -, -, -, hreturns, -⟩ := startTable_shape
  have htable : freshTree.readText pageContext.appRoutes = .ok startTable :=
    readText_of_encode rfl hreturns
  have hpage : freshTree.readText notFoundPath = .ok notFoundText :=
    readText_of_encode rfl notFoundText_shape.1
  have hsources : Structure.sourceFiles pageContext freshTree = [pageContext.appRoutes, notFoundPath] :=
    collectFiles_emptyTree _ _ (List.mem_cons_self ..)
  refine ⟨by decide +kernel, htable, rfl, fun violation hviolation => ?_, ?_⟩
  · have htablePlacement : Structure.placementIn pageContext freshTree pageContext.appRoutes = [] := by
      rw [Structure.placementIn, concerns_appRoutes]
      rfl
    have hnames : Structure.features pageContext freshTree = [] := folderNames_of_empty rfl
    rw [Structure.violations, show freshTree.hasFolder pageContext.appFolder = true from rfl,
      show freshTree.hasFolder pageContext.featuresFolder = true from rfl, Structure.violationsWithin, hnames, hsources,
      List.flatMap_cons, List.flatMap_singleton, htablePlacement, placementIn_notFoundPath hpage] at hviolation
    simpa [noFeatures] using hviolation
  · obtain ⟨places, hplaces⟩ : ∃ places, RawColors.tokenPlaces pageContext = .ok places := ⟨_, rfl⟩
    refine ⟨_, by rw [Check.run, RawColors.check, hplaces]; rfl, List.isEmpty_iff.2 (List.flatMap_eq_nil_iff.2
      fun path hpath => ?_)⟩
    have hfile : path ∈ [pageContext.appRoutes, notFoundPath] :=
      collectFiles_emptyTree _ _ (List.mem_cons_of_mem _ (List.mem_singleton_self _)) ▸ (List.mem_filter.1 hpath).1
    rw [List.mem_cons, List.mem_singleton] at hfile
    rcases hfile with rfl | rfl
    · exact violationsIn_eq_nil htable rfl (hasNoColors_of_isProgram isTable_startTable.program
        isTable_startTable.colorless isTable_startTable.uncommented) _
    · exact violationsIn_eq_nil hpage rfl hasNoColors_notFoundText _

/-- Two features, of which one is given a route. -/
def twoRequests : List Request :=
  [{ name := "UserProfile", register := true },
    { name := "orders", route := some "shop/orders".toList, register := true }]

end VerticalSlice.Feature
