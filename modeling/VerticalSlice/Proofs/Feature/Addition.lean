import VerticalSlice.Proofs.Feature.Checks

/-!
# What a new feature does to the verdicts

Generating a feature, where nothing is replaced and no route is registered, breaks no rule: every
check finds a part of what it found before, in the same order, and a check that came to no verdict
comes to none for the same reason (`generate_adds_nothing`). The rules about features may be kept
where they were broken, because the files of the feature were missing. The other checks find what
they found before; only the colours need a condition for that, since the way to a token file may lead
through the new folder (`approves_more_through_new_folder`).
-/

namespace VerticalSlice.Feature

open FileTree

variable {context : Context} {name : FeatureName} {place : List Text} {tree changed : FileTree}
  {request : Request} {done : Generated}

/-! ## What was written -/

/-- A generation that succeeds, replaces nothing and registers nothing has written the feature. -/
theorem isWritten_of_generate (hwf : tree.WellFormed)
    (hfeatures : tree.hasFolder context.featuresFolder = true) (hregister : request.register = false)
    (hkeep : request.overwrite = false) (h : generate context tree request = (changed, .ok done)) :
    ∃ place inside, done.name.IsSpelling ∧ tree.get? place = some (.folder inside) ∧
      IsWritten context done.name place tree changed := by
  obtain ⟨place, inside, hplace, hfolder⟩ := locate_of_hasFolder hfeatures
  rw [generate] at h
  cases hspelled : FeatureName.ofText? request.name with
  | none => rw [hspelled] at h; cases h
  | some name =>
    have hname : name.IsSpelling := ⟨request.name, hspelled⟩
    rw [hspelled, hkeep] at h
    dsimp only at h
    rw [if_neg Bool.false_ne_true] at h
    cases hexisting : existing? tree (files context name) with
    | some path => rw [hexisting] at h; cases h
    | none =>
      rw [hexisting] at h
      dsimp only at h
      have habsent : ∀ file ∈ render name, tree.get? (place ++ [name.kebab, file.1]) = none :=
        fun file => get?_eq_none_of_existing hname hplace hexisting
      have hnoFile : (tree.get? (place ++ [name.kebab])).any isFile = false := by
        cases hentry : tree.get? (place ++ [name.kebab]) with
        | none => rfl
        | some entry =>
          cases entry with
          | folder entries => rfl
          | file bytes =>
            have hmade := makeFolders_child hplace hfolder (isName_kebab hname)
            rw [hentry] at hmade
            dsimp only at hmade
            rw [generateNamed, writeFeature, Feature.folder, hmade] at h
            cases h
      obtain ⟨written, hwritten, hspec⟩ := exists_isWritten hwf hname hplace hfolder habsent hnoFile
      rw [generateNamed, hwritten, hregister] at h
      cases h
      exact ⟨place, inside, hname, hfolder, hspec⟩

/-! ## What the checks find -/

/-- The second outcome of a check brings nothing new: it is the same fault, or a verdict with a part
of the violations in the same order. -/
def AddsNothing : Except CheckFault Verdict → Except CheckFault Verdict → Prop
  | .ok before, .ok after => after.violations.Sublist before.violations
  | .error before, .error after => after = before
  | _, _ => False

theorem AddsNothing.of_eq {before after : Except CheckFault Verdict} (h : after = before) :
    AddsNothing before after := by
  subst h
  cases after with
  | ok verdict => exact List.Sublist.refl _
  | error fault => rfl

/-- The violations that the outcome of a check tells of. -/
def found (outcome : Except CheckFault Verdict) : Except CheckFault (List Violation) :=
  outcome.map (·.violations)

theorem IsWritten.rawColors_adds_nothing (h : IsWritten context name place tree changed)
    (hwf : tree.WellFormed) (hname : name.IsSpelling) :
    AddsNothing (Check.rawColors.run context tree) (Check.rawColors.run context changed) := by
  rw [Check.run, Check.run, RawColors.check, RawColors.check]
  cases RawColors.tokenPlaces context with
  | error fault => rfl
  | ok places =>
    show ((RawColors.scannedFiles context changed places).flatMap
      (RawColors.violationsIn context changed (RawColors.approved context changed))).Sublist
      ((RawColors.scannedFiles context tree places).flatMap
        (RawColors.violationsIn context tree (RawColors.approved context tree)))
    rw [h.flatMap_scannedFiles_eq hwf hname]
    refine List.Sublist.flatMap_right _ fun path _ => ?_
    rw [RawColors.violationsIn, RawColors.violationsIn]
    cases RawColors.sightings tree path with
    | error fault => exact List.Sublist.refl _
    | ok sightings => exact (unapproved_sublist h.approved_subset sightings).map _

theorem unapproved_congr {approved approved' : List Text} (h : approved ⊆ approved')
    (h' : approved' ⊆ approved) (sightings : List Color.Sighting) :
    RawColors.unapproved approved sightings = RawColors.unapproved approved' sightings :=
  (unapproved_sublist h' sightings).antisymm (unapproved_sublist h sightings)

/-- The colours are found where they were, unless another file comes within reach as a token file. -/
theorem IsWritten.found_rawColors_eq (h : IsWritten context name place tree changed)
    (hwf : tree.WellFormed) (hname : name.IsSpelling) (htokens : TokensKept context name tree changed) :
    found (Check.rawColors.run context changed) = found (Check.rawColors.run context tree) := by
  rw [Check.run, Check.run, RawColors.check, RawColors.check]
  cases RawColors.tokenPlaces context with
  | error fault => rfl
  | ok places =>
    show Except.ok ((RawColors.scannedFiles context changed places).flatMap
      (RawColors.violationsIn context changed (RawColors.approved context changed))) =
      Except.ok ((RawColors.scannedFiles context tree places).flatMap
        (RawColors.violationsIn context tree (RawColors.approved context tree)))
    rw [h.flatMap_scannedFiles_eq hwf hname]
    congr 2
    funext path
    rw [RawColors.violationsIn, RawColors.violationsIn]
    cases RawColors.sightings tree path with
    | error fault => rfl
    | ok sightings =>
      dsimp only
      rw [unapproved_congr (h.subset_approved hname htokens) h.approved_subset]

/-- A feature that is generated without replacing or registering anything adds no violation to what
any check finds, in the same order, and leaves a check without a verdict as it was. The checks of the
application's route table and of the boundaries find exactly what they found before, and so does that
of the colours, unless a file other than those of the feature has come within reach as a token
file. -/
theorem generate_adds_nothing (hwf : tree.WellFormed)
    (hfeatures : tree.hasFolder context.featuresFolder = true) (hregister : request.register = false)
    (hkeep : request.overwrite = false) (h : generate context tree request = (changed, .ok done)) :
    (∀ check : Check, AddsNothing (check.run context tree) (check.run context changed)) ∧
      (∀ check ∈ [Check.appRoutes, Check.featureImports],
        found (check.run context changed) = found (check.run context tree)) ∧
      (TokensKept context done.name tree changed →
        found (Check.rawColors.run context changed) = found (Check.rawColors.run context tree)) := by
  obtain ⟨place, inside, hname, hfolder, hwritten⟩ :=
    isWritten_of_generate hwf hfeatures hregister hkeep h
  have happRoutes : Check.appRoutes.run context changed = Check.appRoutes.run context tree := by
    rw [Check.run, Check.run, hwritten.appRoutes_eq]
  have himports : Check.featureImports.run context changed = Check.featureImports.run context tree := by
    rw [Check.run, Check.run, hwritten.featureImports_eq hwf hname hfolder]
  refine ⟨fun check => ?_, ?_, hwritten.found_rawColors_eq hwf hname⟩
  · cases check with
    | layout => exact hwritten.structure_sublist hwf hname hfolder
    | appRoutes => exact .of_eq happRoutes
    | featureRoutes => exact hwritten.featureRoutes_sublist hwf hname hfolder
    | featureImports => exact .of_eq himports
    | rawColors => exact hwritten.rawColors_adds_nothing hwf hname
  · intro check hcheck
    simp only [List.mem_cons, List.not_mem_nil, or_false] at hcheck
    rcases hcheck with rfl | rfl
    · rw [happRoutes]
    · rw [himports]

/-! ## A token file behind the new folder -/

/-- A workspace at the root of the file system that names its token file like this. -/
def tokenContext (token : Text) : Context :=
  ⟨⟨.root, []⟩, ⟨[]⟩, [], [], ⟨.root, ["src"]⟩, { tokenFiles := [token] }⟩

/-- A style sheet uses the colour that the style sheet of the workspace defines. -/
def tokenTree : FileTree :=
  .folder [("src", .folder [
    ("styles.css", .file (Text.Utf8.encode ":root \x7b --brand: #123456; \x7d")),
    ("app", .folder [("features", .folder [
      ("theme.css", .file (Text.Utf8.encode ".a \x7b color: #123456; \x7d"))])])])]

/-- A feature that is generated beside a readable token file leaves the colours as they were. -/
theorem generate_adds_nothing_tokenTree : ∃ changed done,
    generate (tokenContext "src/styles.css") tokenTree { name := "orders" } = (changed, .ok done) ∧
      (∀ check : Check, AddsNothing (check.run (tokenContext "src/styles.css") tokenTree)
        (check.run (tokenContext "src/styles.css") changed)) ∧
      found (Check.rawColors.run (tokenContext "src/styles.css") changed) =
        found (Check.rawColors.run (tokenContext "src/styles.css") tokenTree) := by
  have hdone : (generate (tokenContext "src/styles.css") tokenTree
      { name := "orders" }).2.toOption.isSome = true := by decide +kernel
  cases hgenerate : generate (tokenContext "src/styles.css") tokenTree { name := "orders" } with
  | mk changed outcome =>
    rw [hgenerate] at hdone
    cases outcome with
    | error fault => cases hdone
    | ok done =>
      obtain ⟨hadds, -, hcolors⟩ := generate_adds_nothing (by decide) (by decide) rfl rfl hgenerate
      refine ⟨changed, done, rfl, hadds, hcolors fun token htoken _ => .inl ?_⟩
      have heq : token = ("src/styles.css".toList, ⟨.root, ["src", "styles.css"]⟩) :=
        List.mem_singleton.1 htoken
      rw [heq]
      decide

/-- The way to the token file leads through the folder of the new feature and out of it again. -/
def detour : Text := "src/app/features/orders/../../../styles.css"

/-- The one file that is looked through. -/
def themeFile : Path := ⟨.root, ["src", "app", "features", "theme.css"]⟩

theorem scannedFiles_tokenTree {places : List Path}
    (h : RawColors.isAmong (tokenContext detour) places themeFile = false) :
    RawColors.scannedFiles (tokenContext detour) tokenTree places = [themeFile] := by
  have happ : tokenTree.entry? (tokenContext detour).appFolder = some (.folder [("features",
      .folder [("theme.css", .file (Text.Utf8.encode ".a \x7b color: #123456; \x7d"))])]) := rfl
  have hsuffix : hasSuffix RawColors.scannedSuffixes "theme.css" = true := by decide
  have hkept : (tokenContext detour).settings.ignoredFolders.contains "features".toList = false := by
    decide
  have hfiles : tokenTree.collectFiles (tokenContext detour).appFolder RawColors.scannedSuffixes
      (tokenContext detour).settings.ignoredFolders = [themeFile] := by
    rw [collectFiles, happ]
    simp only [sorted, sortedEach, List.mergeSort_singleton, filesWithin, filesAmong, hsuffix, hkept]
    rfl
  rw [RawColors.scannedFiles, hfiles, List.filter_cons_of_pos (by rw [h]; rfl), List.filter_nil]

/-- A new feature can make a colour an approved one: its folder opens the way to a token file. -/
theorem approves_more_through_new_folder : ∃ changed done before after,
    generate (tokenContext detour) tokenTree { name := "orders" } = (changed, .ok done) ∧
      Check.rawColors.run (tokenContext detour) tokenTree = .ok before ∧
      Check.rawColors.run (tokenContext detour) changed = .ok after ∧
      before.violations = [RawColors.inFile "src/app/features/theme.css" ("#123456", 1)] ∧
      after.violations = [] := by
  have hdone : (generate (tokenContext detour) tokenTree
      { name := "orders" }).2.toOption.isSome = true := by decide +kernel
  have happroved : RawColors.approved (tokenContext detour)
      (generate (tokenContext detour) tokenTree { name := "orders" }).1 = ["#123456".toList] := by
    decide +kernel
  have hthen : RawColors.violationsIn (tokenContext detour) tokenTree
      (RawColors.approved (tokenContext detour) tokenTree) themeFile =
        [RawColors.inFile "src/app/features/theme.css" ("#123456", 1)] := by decide +kernel
  have hnow : RawColors.violationsIn (tokenContext detour) tokenTree ["#123456"] themeFile = [] := by
    decide +kernel
  obtain ⟨places, hplaces, hamong⟩ : ∃ places, RawColors.tokenPlaces (tokenContext detour) =
      .ok places ∧ RawColors.isAmong (tokenContext detour) places themeFile = false :=
    ⟨_, rfl, by decide +kernel⟩
  have hfiles := scannedFiles_tokenTree hamong
  have hrun : ∀ some : FileTree, ∃ verdict,
      Check.rawColors.run (tokenContext detour) some = .ok verdict ∧ verdict.violations =
        (RawColors.scannedFiles (tokenContext detour) some places).flatMap
          (RawColors.violationsIn (tokenContext detour) some
            (RawColors.approved (tokenContext detour) some)) := by
    intro some
    rw [Check.run, RawColors.check, hplaces]
    exact ⟨_, rfl, rfl⟩
  cases hgenerate : generate (tokenContext detour) tokenTree { name := "orders" } with
  | mk changed outcome =>
    rw [hgenerate] at hdone happroved
    cases outcome with
    | error fault => cases hdone
    | ok done =>
      obtain ⟨place, inside, hname, hfolder, hwritten⟩ :=
        isWritten_of_generate (by decide) (by decide) rfl rfl hgenerate
      obtain ⟨before, hbefore, hbeforeFound⟩ := hrun tokenTree
      obtain ⟨after, hafter, hafterFound⟩ := hrun changed
      refine ⟨changed, done, before, after, rfl, hbefore, hafter, ?_, ?_⟩
      · rw [hbeforeFound, hfiles, List.flatMap_singleton, hthen]
      · rw [hafterFound, hwritten.flatMap_scannedFiles_eq (by decide) hname, happroved, hfiles,
          List.flatMap_singleton, hnow]

end VerticalSlice.Feature
