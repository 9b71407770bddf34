import VerticalSlice.Proofs.Check.Locality
import VerticalSlice.Proofs.Check.Words
import VerticalSlice.Proofs.Feature.Checks
import VerticalSlice.Proofs.FeatureRoutes.Composition
import VerticalSlice.Proofs.Path.Written
import VerticalSlice.Proofs.Structure.Placement

/-!
# Features without a file of routes

Two checks ask for the file of routes of every feature. The check of the structure asks whether there is
anything of that name, and the check of route tables whether there is a file. So what the first one
reports the second one reports too, and the two agree on a feature exactly if no folder has the name of
its file of routes (`reportsMissing_iff_iff`). Such a folder hides from the check of the structure that
the file is missing (`reportsMissing_ne_folderTree`).
-/

namespace VerticalSlice

open FileTree

variable {context : Context} {tree : FileTree} {feature : Text}

/-! ## The check of route tables -/

namespace FeatureRoutes

/-- What is told of a feature without a file of routes. -/
def missingViolation (context : Context) (feature : Text) : Violation :=
  Finding.inFile (context.relative (routesFile context feature))
    ⟨.missingFile (context.relative (routesFile context feature)), none⟩

/-- Does the check of route tables tell that the file of routes of the feature is missing? -/
def ReportsMissing (context : Context) (tree : FileTree) (feature : Text) : Prop :=
  missingViolation context feature ∈ (check context tree).violations

theorem isSome_line_of_mem_elementFindings {table : Text} {index : Nat} {elements : List Syntax.Node}
    {finding : Finding} (h : finding ∈ elementFindings table index elements) :
    finding.line.isSome = true := by
  induction elements generalizing index with
  | nil => cases h
  | cons element rest ih =>
    rw [elementFindings] at h
    rcases List.mem_append.1 h with h | h
    · obtain ⟨breach, -, rfl⟩ := List.mem_map.1 h
      rfl
    · exact ih h

/-- Everything that is found in a file is on a line, but that there is no table. -/
theorem breach_of_line_eq_none {root : Syntax.Node} {finding : Finding} (h : finding ∈ findings root)
    (hline : finding.line = none) : finding.breach = .noArray := by
  have hsome : finding.line.isSome ≠ true := by
    rw [hline]
    exact Bool.false_ne_true
  unfold findings at h
  split at h
  · rw [List.mem_singleton.1 h]
  · obtain ⟨exported, -, h⟩ := List.mem_flatMap.1 h
    unfold tableFindings at h
    split at h
    · rw [List.mem_singleton.1 h] at hline
      cases hline
    · rcases List.mem_append.1 h with h | h
      · exact absurd (isSome_line_of_mem_elementFindings h) hsome
      · obtain ⟨object, -, rfl⟩ := List.mem_map.1 h
        cases hline

/-- In a file that is there nobody finds that it is missing. -/
theorem missingViolation_notMem {shown feature : Text} {source : Except ReadFault Syntax.SyntaxTree} :
    missingViolation context feature ∉ violationsIn shown source := by
  have hwords : (missingViolation context feature).message.take 2 = ['M', 'i'] :=
    Text.take_concat_cons _ (show 2 ≤ "Missing feature routes file: ".toList.length by decide)
  intro h
  cases source with
  | error fault =>
    have hunreadable := Violation.message_unreadable shown fault
    rw [← List.mem_singleton.1 h, hwords] at hunreadable
    exact absurd hunreadable (by decide)
  | ok source =>
    obtain ⟨finding, hfinding, heq⟩ := List.mem_map.1 h
    have hline : finding.line = none :=
      Option.map_eq_none_iff.1 (congrArg Violation.line heq)
    rw [← heq, Finding.inFile, breach_of_line_eq_none hfinding hline] at hwords
    exact absurd hwords (show Breach.noArray.message.take 2 ≠ ['M', 'i'] by decide)

theorem reportsMissing_iff (hwf : tree.WellFormed) (hrooted : context.IsRooted)
    (hfeature : feature ∈ tree.folderNames context.featuresFolder) :
    ReportsMissing context tree feature ↔ tree.hasFile (routesFile context feature) = false := by
  have hname := isName_of_mem_folderNames hwf hfeature
  constructor
  · intro h
    obtain ⟨other, hother, h⟩ := List.mem_flatMap.1 h
    have hnameOther := isName_of_mem_folderNames hwf hother
    cases hfile : tree.hasFile (routesFile context other) with
    | true =>
      rw [violationsOf, hfile] at h
      exact absurd h missingViolation_notMem
    | false =>
      rw [violationsOf, hfile] at h
      -- what is told is told of the file of routes of this feature
      have heq := Option.some.inj (congrArg Violation.file (List.mem_singleton.1 h))
      have hpath := Feature.routesFile_of_isName context hname
      have hpathOther := Feature.routesFile_of_isName context hnameOther
      change context.relative (routesFile context feature) =
        context.relative (routesFile context other) at heq
      rw [hpath.1, hpathOther.1] at heq
      rw [hpath.1, hrooted.eq_of_isSource (context.isSource_of_feature hname hpath.2)
        (context.isSource_of_feature hnameOther hpathOther.2) heq, ← hpathOther.1]
      exact hfile
  · intro hfile
    refine List.mem_flatMap.2 ⟨feature, hfeature, ?_⟩
    rw [violationsOf, hfile]
    exact List.mem_singleton.2 rfl

end FeatureRoutes

/-! ## The check of the structure -/

namespace Structure

/-- Does the check of the structure tell that the file of routes of the feature is missing? -/
def ReportsMissing (context : Context) (tree : FileTree) (feature : Text) : Prop :=
  missingViolation context (feature, "routes".toList) ∈ (check context tree).violations

theorem isName_of_mem_kinds {feature kind : Text} (hfeature : IsName feature) (hkind : kind ∈ kinds) :
    IsName (feature ++ "." ++ kind ++ ".ts") := by
  have hrest : ∀ kind ∈ kinds, 2 ≤ (".".toList ++ kind ++ ".ts".toList).length ∧
      '/' ∉ ".".toList ++ kind ++ ".ts".toList ∧ '\x00' ∉ ".".toList ++ kind ++ ".ts".toList := by
    decide
  obtain ⟨hlength, hslash, hnul⟩ := hrest kind hkind
  have hname := isName_append hfeature hlength hslash hnul
  rwa [← List.append_assoc, ← List.append_assoc] at hname

/-- What is told of the place of a source is told in other words. -/
theorem missingViolation_notMem {pair : Text × Text} {path : Path} :
    missingViolation context pair ∉ placementIn context tree path := by
  have hwords : (missingViolation context pair).message.take 2 = ['F', 'e'] :=
    Text.take_concat_cons _ (show 2 ≤ "Feature \"".toList.length by decide)
  intro h
  unfold placementIn at h
  split at h
  · dsimp only at h
    split at h
    · next fault _ =>
      have hunreadable := Violation.message_unreadable (context.relative path) fault
      rw [← List.mem_singleton.1 h, hwords] at hunreadable
      exact absurd hunreadable (by decide)
    · obtain ⟨breach, hbreach, heq⟩ := List.mem_map.1 h
      rw [← heq] at hwords
      rcases List.mem_append.1 hbreach with hbreach | hbreach
      · split at hbreach
        · rw [List.mem_singleton.1 hbreach] at hwords
          exact absurd hwords (show Breach.httpClient.message.take 2 ≠ ['F', 'e'] by decide)
        · cases hbreach
      · split at hbreach
        · rw [List.mem_singleton.1 hbreach] at hwords
          exact absurd hwords (show Breach.providedInRoot.message.take 2 ≠ ['F', 'e'] by decide)
        · cases hbreach
  · cases h

/-- The check of the structure tells of the file exactly if nothing has its name. -/
theorem reportsMissing_iff (hwf : tree.WellFormed) (hrooted : context.IsRooted)
    (happ : tree.hasFolder context.appFolder = true)
    (hfeatures : tree.hasFolder context.featuresFolder = true) {feature : Text}
    (hfeature : feature ∈ tree.folderNames context.featuresFolder) :
    ReportsMissing context tree feature ↔
      tree.hasEntry (requiredPath context (feature, "routes".toList)) = false := by
  have hroutes : "routes".toList ∈ kinds := by decide
  have hname := isName_of_mem_folderNames hwf hfeature
  have hviolations : (check context tree).violations = violationsWithin context tree := by
    show violations context tree = _
    rw [violations, happ, hfeatures]
    rfl
  rw [ReportsMissing, hviolations, violationsWithin, flatMap_missingFiles]
  constructor
  · intro h
    rcases List.mem_append.1 h with h | h
    · rcases List.mem_append.1 h with h | h
      · split at h
        · cases congrArg Violation.file (List.mem_singleton.1 h)
        · cases h
      · obtain ⟨⟨other, kind⟩, hpair, heq⟩ := List.mem_map.1 h
        obtain ⟨hpair, hmissing⟩ := List.mem_filter.1 hpair
        obtain ⟨hother, hkind⟩ := List.mem_product.1 hpair
        -- what is told is told of the file of routes of this feature
        have hshown := Option.some.inj (congrArg Violation.file heq)
        have hnameOther := isName_of_mem_folderNames hwf hother
        have hpath := hrooted.eq_of_isSource
          (context.isSource_of_feature hnameOther (isName_of_mem_kinds hnameOther hkind))
          (context.isSource_of_feature hname (isName_of_mem_kinds hname hroutes)) hshown
        rw [Bool.not_eq_true', requiredPath, hpath] at hmissing
        exact hmissing
    · obtain ⟨path, -, h⟩ := List.mem_flatMap.1 h
      exact absurd h missingViolation_notMem
  · intro hmissing
    refine List.mem_append_left _ (List.mem_append_right _ (List.mem_map_of_mem ?_))
    refine List.mem_filter.2 ⟨List.mem_product.2 ⟨hfeature, hroutes⟩, ?_⟩
    rw [hmissing]
    rfl

end Structure

/-! ## The two checks -/

theorem requiredPath_routes (context : Context) {feature : Text} (hfeature : IsName feature) :
    Structure.requiredPath context (feature, "routes".toList) =
      FeatureRoutes.routesFile context feature := by
  rw [(Feature.routesFile_of_isName context hfeature).1, Structure.requiredPath, List.append_assoc,
    List.append_assoc]
  rfl

/-- What is at a path is a file or a folder. -/
theorem hasEntry_eq_or (tree : FileTree) (path : Path) :
    tree.hasEntry path = (tree.hasFile path || tree.hasFolder path) := by
  rw [hasEntry, hasFile, hasFolder]
  cases tree.entry? path with
  | none => rfl
  | some entry => cases entry <;> rfl

theorem hasFolder_eq_false_of_hasFile {path : Path} (h : tree.hasFile path = true) :
    tree.hasFolder path = false := by
  rw [hasFile] at h
  obtain ⟨entry, hentry, hfile⟩ := (Option.any_eq_true _ _).1 h
  rw [hasFolder, hentry, Option.any_some, ← Bool.not_eq_true']
  exact hfile

/-- If the check of the structure tells that a feature has no file of routes, the check of route tables
tells it too; and they agree on the feature exactly if no folder has the name of the file. -/
theorem reportsMissing_iff_iff {here start : Path} {asked : Option Text} {feature : Text}
    (hwf : tree.WellFormed) (hcontext : Workspace.context tree here start asked = .ok context)
    (happ : tree.hasFolder context.appFolder = true)
    (hfeatures : tree.hasFolder context.featuresFolder = true)
    (hfeature : feature ∈ tree.folderNames context.featuresFolder) :
    (Structure.ReportsMissing context tree feature →
        FeatureRoutes.ReportsMissing context tree feature) ∧
      ((FeatureRoutes.ReportsMissing context tree feature ↔
          Structure.ReportsMissing context tree feature) ↔
        tree.hasFolder (FeatureRoutes.routesFile context feature) = false) := by
  have hrooted := Workspace.isRooted_of_context hcontext
  rw [FeatureRoutes.reportsMissing_iff hwf hrooted hfeature,
    Structure.reportsMissing_iff hwf hrooted happ hfeatures hfeature,
    requiredPath_routes context (isName_of_mem_folderNames hwf hfeature), hasEntry_eq_or]
  cases hfile : tree.hasFile (FeatureRoutes.routesFile context feature) with
  | true => simp [hasFolder_eq_false_of_hasFile hfile]
  | false => simp

/-! ## A small workspace -/

/-- A workspace with a feature that has a folder in the place of its file of routes. -/
def folderTree : FileTree :=
  .folder [("angular.json", .file (Text.Utf8.encode pageManifest)),
    ("src", .folder [("app", .folder [("features", .folder [("a", .folder [
      ("a.routes.ts", .folder [])])])])])]

theorem context_folderTree :
    Workspace.context folderTree ⟨.root, []⟩ ⟨.root, []⟩ none = .ok pageContext :=
  context_eq_pageContext (toOption_eq_some (by decide +kernel)) (toOption_eq_some (by decide +kernel))
    (by decide +kernel)

theorem folderNames_folderTree :
    folderTree.folderNames pageContext.featuresFolder = ["a".toList] := by
  have hentry : folderTree.entry? pageContext.featuresFolder = some (.folder [
      ("a", .folder [("a.routes.ts", .folder [])])]) := rfl
  rw [folderNames, sortedEntries, hentry]
  simp only [FileTree.entries, List.mergeSort_singleton]
  rfl

/-- In the small workspace the two checks do not agree, as the theorem says. -/
theorem reportsMissing_iff_iff_folderTree : folderTree.WellFormed ∧
    folderTree.hasFolder pageContext.appFolder = true ∧
    folderTree.hasFolder pageContext.featuresFolder = true ∧
    "a".toList ∈ folderTree.folderNames pageContext.featuresFolder ∧
    ¬(FeatureRoutes.ReportsMissing pageContext folderTree "a" ↔
      Structure.ReportsMissing pageContext folderTree "a") := by
  have hwf : folderTree.WellFormed := by decide +kernel
  have hfeature : "a".toList ∈ folderTree.folderNames pageContext.featuresFolder := by
    rw [folderNames_folderTree]
    exact List.mem_singleton.2 rfl
  have hiff := (reportsMissing_iff_iff hwf context_folderTree rfl rfl hfeature).2
  refine ⟨hwf, rfl, rfl, hfeature, fun hagree => ?_⟩
  exact absurd (hiff.1 hagree) (by decide +kernel)

/-- The check of route tables tells that the file is missing, and the check of the structure does not. -/
theorem reportsMissing_ne_folderTree :
    Workspace.context folderTree ⟨.root, []⟩ ⟨.root, []⟩ none = .ok pageContext ∧
      folderTree.hasFolder pageContext.appFolder = true ∧
      folderTree.hasFolder pageContext.featuresFolder = true ∧
      "a".toList ∈ folderTree.folderNames pageContext.featuresFolder ∧
      FeatureRoutes.ReportsMissing pageContext folderTree "a" ∧
      ¬Structure.ReportsMissing pageContext folderTree "a" := by
  have hwf : folderTree.WellFormed := by decide +kernel
  have hrooted := Workspace.isRooted_of_context context_folderTree
  have hfeature : "a".toList ∈ folderTree.folderNames pageContext.featuresFolder := by
    rw [folderNames_folderTree]
    exact List.mem_singleton.2 rfl
  refine ⟨context_folderTree, rfl, rfl, hfeature, ?_, ?_⟩
  · rw [FeatureRoutes.reportsMissing_iff hwf hrooted hfeature]
    decide +kernel
  · rw [Structure.reportsMissing_iff hwf hrooted rfl rfl hfeature]
    decide +kernel

end VerticalSlice
