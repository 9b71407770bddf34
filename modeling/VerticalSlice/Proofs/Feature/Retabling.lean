import VerticalSlice.Proofs.Check.Locality
import VerticalSlice.Proofs.Color.Joined
import VerticalSlice.Proofs.Feature.Addition
import VerticalSlice.Proofs.Feature.Table

/-!
# Another text in the file of the route table

When the file of the route table gets another text (`IsRetabled`), the checks that are not about the table find
what they found before. Those of the features do not look at this file: it lies beside the folder of the features,
and its name is none of those that are restricted. The colours do, so they are the same if there are none in
either text (`IsRetabled.found_rawColors_eq`).
-/

namespace VerticalSlice.Feature

open FileTree Syntax

variable {context : Context} {tree changed : FileTree} {table : List Text} {text : Text}

/-- The trees are the same but for the bytes of the file with the route table. -/
structure IsRetabled (context : Context) (tree changed : FileTree) : Prop where
  wellFormed : changed.WellFormed
  alike : ∃ table, tree.locate context.appRoutes = .ok table ∧ AlikeBut table tree changed

/-- A table that can be read can be written. -/
theorem exists_isRetabled (hwf : tree.WellFormed) (htext : tree.readText context.appRoutes = .ok text) (new : Text) :
    ∃ changed, tree.writeText context.appRoutes new = .ok changed ∧ IsRetabled context tree changed := by
  obtain ⟨table, bytes, htable, hbytes⟩ := locate_of_hasFile (hasFile_of_readText htext)
  obtain ⟨app, entries, happ, hentries, hplace⟩ := locate_of_locate_child (by decide) htable
  rw [hplace] at htable hbytes
  refine ⟨_, ?_, wellFormed_put hwf hentries (by decide) (wellFormed_file (Text.Utf8.encode new)), _, htable,
    alikeBut_put hentries hbytes _⟩
  rw [writeText, write, htable]
  dsimp only
  rw [hbytes]
  dsimp only
  rw [List.dropLast_concat, hentries]

/-! ## Where the table lies -/

/-- Nothing below the folder of the features is the table. -/
theorem locate_ne_of_below {names : List Text} (hnames : ∀ name ∈ names, IsName name)
    (htable : tree.locate context.appRoutes = .ok table) :
    tree.locate ⟨context.featuresFolder.anchor, context.featuresFolder.names ++ names⟩ ≠ .ok table := by
  obtain ⟨app, entries, happ, -, rfl⟩ := locate_of_locate_child (by decide) htable
  have hall : ∀ name ∈ "features".toList :: names, IsName name := List.forall_mem_cons.2 ⟨by decide, hnames⟩
  have hpath : (⟨context.featuresFolder.anchor, context.featuresFolder.names ++ names⟩ : Path) =
      ⟨context.appFolder.anchor, context.appFolder.names ++ "features".toList :: names⟩ := by
    rw [Context.featuresFolder, Path.child, List.append_assoc]
    rfl
  rw [hpath, locate_append happ hall]
  intro hwalk
  have hplace := eq_append_of_walk hwalk fun hmem => (hall _ hmem).2.2.1 rfl
  exact absurd (List.cons.inj (List.append_cancel_left hplace)).1 (by decide)

/-- A file that is listed below the folder of the application is the table only by its path. -/
theorem eq_appRoutes_of_locate (hwf : tree.WellFormed) {path : Path} {suffixes ignored : List Text}
    (hpath : path ∈ tree.collectFiles context.appFolder suffixes ignored)
    (hlocate : tree.locate path = .ok table) (htable : tree.locate context.appRoutes = .ok table) :
    path = context.appRoutes := by
  obtain ⟨app, entries, happ, -, rfl⟩ := locate_of_locate_child (by decide) htable
  obtain ⟨found, names, hfound, hlists, rfl⟩ := (mem_collectFiles_iff hwf).1 hpath
  have hnames := isName_of_lists ( wellFormed_of_entry? hwf hfound) hlists
  rw [locate_append happ hnames] at hlocate
  have hplace := eq_append_of_walk hlocate fun hmem => (hnames _ hmem).2.2.1 rfl
  rw [← List.append_cancel_left hplace]
  rfl

/-- The rules of placement do not concern the table. -/
theorem concerns_appRoutes (context : Context) : Structure.concerns context context.appRoutes = false := by
  have hname : context.appRoutes.fileName = "app.routes.ts".toList := by
    rw [Path.fileName, Context.appRoutes, Path.child, List.getLastD_concat]
  have hbelow : Path.namesBelow? context.featuresFolder context.appRoutes = none := by
    rw [Option.eq_none_iff_forall_ne_some]
    intro names h
    obtain ⟨-, hnames⟩ := Path.namesBelow?_eq_some_iff.1 h
    rw [Context.appRoutes, Context.featuresFolder, Path.child, Path.child, List.append_assoc] at hnames
    exact absurd (List.cons.inj (List.append_cancel_left hnames)).1 (by decide)
  rw [Structure.concerns, Structure.isRestricted, hname, Path.isBelow, hbelow]
  decide

/-! ## The checks of the features -/

section

variable (h : IsRetabled context tree changed) (hwf : tree.WellFormed)

include h hwf

/-- The check of the structure finds the same. -/
theorem IsRetabled.structure_eq : Structure.violations context changed = Structure.violations context tree := by
  obtain ⟨table, htable, halike⟩ := h.alike
  have hmissing : Structure.missingFiles context changed = Structure.missingFiles context tree := by
    funext feature
    simp only [Structure.missingFiles, halike.hasEntry_eq]
  have hfeatures : Structure.features context changed = Structure.features context tree :=
    halike.folderNames_eq hwf h.wellFormed _
  have hsources : Structure.sourceFiles context changed = Structure.sourceFiles context tree :=
    halike.collectFiles_eq hwf h.wellFormed _ _ _
  have hplacement : ∀ path ∈ Structure.sourceFiles context tree,
      Structure.placementIn context changed path = Structure.placementIn context tree path := by
    intro path hpath
    by_cases hlocate : tree.locate path = .ok table
    · rw [eq_appRoutes_of_locate hwf hpath hlocate htable, Structure.placementIn, Structure.placementIn,
        concerns_appRoutes]
      rfl
    · exact Structure.placementIn_congr (readSource_eq_of_readText (halike.readText_eq hlocate))
  rw [Structure.violations, Structure.violations, halike.hasFolder_eq, halike.hasFolder_eq,
    Structure.violationsWithin, Structure.violationsWithin, hmissing, hfeatures, hsources,
    List.flatMap_congr hplacement]

/-- The check of the route tables of features finds the same. -/
theorem IsRetabled.featureRoutes_eq :
    (FeatureRoutes.check context changed).violations = (FeatureRoutes.check context tree).violations := by
  obtain ⟨table, htable, halike⟩ := h.alike
  have hfeatures := halike.folderNames_eq hwf h.wellFormed context.featuresFolder
  show (changed.folderNames context.featuresFolder).flatMap (FeatureRoutes.violationsOf context changed) =
    (tree.folderNames context.featuresFolder).flatMap (FeatureRoutes.violationsOf context tree)
  rw [hfeatures]
  refine List.flatMap_congr fun feature hfeature => ?_
  have hname := isName_of_mem_folderNames hwf hfeature
  obtain ⟨hpath, hrest⟩ := routesFile_of_isName context hname
  have hother : tree.locate (FeatureRoutes.routesFile context feature) ≠ .ok table := by
    rw [hpath, Path.child, Path.child, List.append_assoc]
    exact locate_ne_of_below (List.forall_mem_cons.2 ⟨hname, List.forall_mem_singleton.2 hrest⟩) htable
  rw [FeatureRoutes.violationsOf, FeatureRoutes.violationsOf, halike.hasFile_eq,
    readSource_eq_of_readText (halike.readText_eq hother)]

/-- The check of the boundaries finds the same. -/
theorem IsRetabled.featureImports_eq :
    (FeatureImports.check context changed).violations = (FeatureImports.check context tree).violations := by
  obtain ⟨table, htable, halike⟩ := h.alike
  have hsources : FeatureImports.sourceFiles context changed = FeatureImports.sourceFiles context tree :=
    halike.collectFiles_eq hwf h.wellFormed _ _ _
  have hcrossings : ∀ path ∈ FeatureImports.sourceFiles context tree,
      FeatureImports.violationsIn context changed path = FeatureImports.violationsIn context tree path := by
    intro path hpath
    obtain ⟨found, names, hfound, hlists, rfl⟩ := (mem_collectFiles_iff hwf).1 hpath
    have hnames := isName_of_lists ( wellFormed_of_entry? hwf hfound) hlists
    exact FeatureImports.violationsIn_congr
      (readSource_eq_of_readText (halike.readText_eq (locate_ne_of_below hnames htable)))
  show (if changed.hasFolder context.featuresFolder = true then (FeatureImports.sourceFiles context changed).flatMap
      (FeatureImports.violationsIn context changed) else []) =
    if tree.hasFolder context.featuresFolder = true then (FeatureImports.sourceFiles context tree).flatMap
      (FeatureImports.violationsIn context tree) else []
  rw [halike.hasFolder_eq, hsources, List.flatMap_congr hcrossings]

end

/-! ## The colours -/

/-- No colours are found in the text, neither as the text of a token file nor as a source. -/
def HasNoColors (text : Text) : Prop := Color.find text = [] ∧ Color.inFile ".ts" text = []

theorem hasNoColors_of_isProgram (hprogram : (SyntaxTree.ofText text ".ts").isProgram = true)
    (hcolors : Color.Colorless text) (hcomments : Color.Uncommented text) : HasNoColors text := by
  obtain ⟨nodes, hnodes, htree⟩ := exists_nodes_of_isProgram hprogram
  refine ⟨hcolors.find_eq_nil, ?_⟩
  rw [Color.inFile, if_pos rfl, htree, Color.inSource_eq_nil hnodes hcolors hcomments]
  rfl

/-- All ways to a file read the same. -/
theorem readText_of_locate_eq {path other : Path} {place : List Text} (hpath : tree.locate path = .ok place)
    (hother : tree.locate other = .ok place) (htext : tree.readText other = .ok text) :
    tree.readText path = .ok text := by
  rw [readText, FileTree.read, hother] at htext
  rw [readText, FileTree.read, hpath]
  dsimp only at htext ⊢
  cases hentry : tree.get? place with
  | none => rw [hentry] at htext; cases htext
  | some entry =>
    rw [hentry] at htext
    cases entry with
    | folder entries => cases htext
    | file bytes => exact htext

/-- A table without colours approves none. -/
theorem approvedIn_eq_nil_of_table (htable : tree.locate context.appRoutes = .ok table)
    (htext : tree.readText context.appRoutes = .ok text) (hcolors : HasNoColors text) {path : Path}
    (hpath : tree.locate path = .ok table) : RawColors.approvedIn tree path = [] := by
  rw [RawColors.approvedIn, readText_of_locate_eq hpath htable htext]
  dsimp only
  rw [hcolors.1]
  split <;> rfl

/-- A source without colours uses none that is not approved. -/
theorem violationsIn_eq_nil {path : Path} (htext : tree.readText path = .ok text)
    (hextension : path.extension = ".ts".toList) (hcolors : HasNoColors text) (approved : List Text) :
    RawColors.violationsIn context tree approved path = [] := by
  rw [RawColors.violationsIn, RawColors.sightings, htext, hextension, Except.map, hcolors.2]
  rfl

/-- The check of the colours finds the same, if the table had no colours and has none. -/
theorem IsRetabled.found_rawColors_eq (h : IsRetabled context tree changed) (hwf : tree.WellFormed) {new : Text}
    (htext : tree.readText context.appRoutes = .ok text) (hcolors : HasNoColors text)
    (htext' : changed.readText context.appRoutes = .ok new) (hcolors' : HasNoColors new) :
    found (Check.rawColors.run context changed) = found (Check.rawColors.run context tree) := by
  obtain ⟨table, htable, halike⟩ := h.alike
  have happroved : RawColors.approved context changed = RawColors.approved context tree := by
    rw [RawColors.approved, RawColors.approved, List.flatMap_congr fun token htoken => ?_]
    by_cases hlocate : tree.locate token.2 = .ok table
    · rw [approvedIn_eq_nil_of_table htable htext hcolors hlocate, approvedIn_eq_nil_of_table
        ((halike.locate_eq _).trans htable) htext' hcolors' ((halike.locate_eq _).trans hlocate)]
    · rw [RawColors.approvedIn, RawColors.approvedIn, halike.hasFile_eq, halike.readText_eq hlocate]
  have hscanned : ∀ places, RawColors.scannedFiles context changed places =
      RawColors.scannedFiles context tree places := fun places => by
    rw [RawColors.scannedFiles, RawColors.scannedFiles, halike.collectFiles_eq hwf h.wellFormed]
  have hcolored : ∀ places, ∀ path ∈ RawColors.scannedFiles context tree places,
      RawColors.violationsIn context changed (RawColors.approved context tree) path =
        RawColors.violationsIn context tree (RawColors.approved context tree) path := by
    intro places path hpath
    by_cases hlocate : tree.locate path = .ok table
    · rw [eq_appRoutes_of_locate hwf (List.mem_filter.1 hpath).1 hlocate htable,
        violationsIn_eq_nil htext (extension_appRoutes context) hcolors,
        violationsIn_eq_nil htext' (extension_appRoutes context) hcolors']
    · exact RawColors.violationsIn_congr _ (halike.readText_eq hlocate)
  rw [Check.run, Check.run, RawColors.check, RawColors.check]
  cases RawColors.tokenPlaces context with
  | error fault => rfl
  | ok places =>
    show Except.ok ((RawColors.scannedFiles context changed places).flatMap
      (RawColors.violationsIn context changed (RawColors.approved context changed))) =
      Except.ok ((RawColors.scannedFiles context tree places).flatMap
        (RawColors.violationsIn context tree (RawColors.approved context tree)))
    rw [happroved, hscanned, List.flatMap_congr (hcolored places)]

end VerticalSlice.Feature
