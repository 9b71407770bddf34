import VerticalSlice.Proofs.Feature.Appending
import VerticalSlice.Proofs.Feature.Writing
import VerticalSlice.Proofs.Path.Written
import VerticalSlice.Rule.FeatureImports

/-!
# The files of a feature belong together

The sources of a feature are written from separate texts, and each of them names files, classes and
functions of the others. The main result, `render_links`, is that they agree for every name: every
relative import leads to a file of the same feature, and that file exports what is taken from it. The entry
of the feature in a route table is linked in the same way.

Which source takes what from which is written down with holes (`parts`). That the outlines have these
interfaces is found out by the kernel, and that they fit together is seen from them alone
(`isLinked_of_fits`), once for all names.
-/

namespace VerticalSlice.Feature

open Syntax

/-! ## What it is to be linked -/

/-- The file that a relative import means. -/
def completed (target : Path) : Path :=
  ⟨target.anchor, target.names.dropLast ++ [target.fileName ++ ".ts".toList]⟩

/-- At the place there is a file of the feature with this tree. -/
def IsModule (context : Context) (name : FeatureName) (target : Path) (source : Node) : Prop :=
  ∃ file ∈ files context name, file.1.normalize = completed target ∧
    SyntaxTree.ofText file.2 ".ts" = ⟨source, true⟩

/-- The relative imports of an interface, seen from the file at `path`, lead to files of the feature, and these
export what is taken from them. Every module that is loaded by a call is handed on, so that nothing is taken from one
in another way. -/
structure IsLinked (context : Context) (name : FeatureName) (path : Path) (interface : Interface) : Prop where
  handedOn_eq : interface.handedOn = interface.deferred
  modules : ∀ specifier ∈ interface.modules, ∀ target,
    FeatureImports.resolve path specifier = some target → ∃ source, IsModule context name target source
  takings : ∀ taking ∈ interface.takings, ∀ target,
    FeatureImports.resolve path taking.1 = some target →
      ∃ source, IsModule context name target source ∧ taking.2 ∈ source.interface.exports

/-- An entry that is put into the text becomes an element of the array: in front of the first wildcard of the
text, or at the last end of an array if there is none. -/
def TakesEntry (text : Text) (table : ExportedArray) : Prop :=
  (∃ wildcard ∈ table.array.children, wildcardObject? (SyntaxTree.ofText text ".ts").root = some wildcard) ∨
    NoWildcard (SyntaxTree.ofText text ".ts").root ∧ EndsOpen text table

/-! ## The interfaces of the sources -/

/-- A source of a feature: the end of its name, its contents and its interface, with holes. -/
structure Part where
  ending : Text
  contents : List Piece
  interface : Interface

/-- The specifier of a source beside the present one. -/
def beside (ending : Text) : Text := outline ["./", Hole.kebab, .fixed ending]

/-- The sources of a feature. -/
def parts : List Part := [
  { ending := ".routes"
    contents := routesFile
    interface := {
      modules := ["@angular/router", beside ".state", beside ".data", beside ".page"]
      deferred := [beside ".page"]
      handedOn := [beside ".page"]
      takings := [("@angular/router", "Routes"), (beside ".state", "provideFeatureState"),
        (beside ".data", "provideFeatureData"), (beside ".page", outline [Hole.pascal, "Page"])]
      exports := [outline [Hole.const, "_ROUTES"]] } },
  { ending := ".page"
    contents := pageFile
    interface := {
      modules := ["@angular/core", "@angular/common", beside ".state"]
      deferred := []
      handedOn := []
      takings := [("@angular/core", "Component"), ("@angular/core", "inject"), ("@angular/common", "CommonModule"),
        (beside ".state", outline [Hole.pascal, "Store"])]
      exports := [outline [Hole.pascal, "Page"]] } },
  { ending := ".data"
    contents := dataFile
    interface := {
      modules := ["@angular/core", "rxjs", "rxjs", beside ".models"]
      deferred := []
      handedOn := []
      takings := [("@angular/core", "Injectable"), ("@angular/core", "Provider"), ("rxjs", "of"), ("rxjs", "delay"),
        ("rxjs", "Observable"), (beside ".models", outline [Hole.pascal, "Summary"])]
      exports := [outline [Hole.pascal, "Data"], "provideFeatureData"] } },
  { ending := ".state"
    contents := stateFile
    interface := {
      modules := ["@angular/core", "rxjs", beside ".data"]
      deferred := []
      handedOn := []
      takings := [("@angular/core", "inject"), ("@angular/core", "Injectable"), ("@angular/core", "Provider"),
        ("@angular/core", "signal"), ("rxjs", "firstValueFrom"), (beside ".data", outline [Hole.pascal, "Data"])]
      exports := [outline [Hole.pascal, "Status"], outline [Hole.pascal, "Store"], "provideFeatureState"] } },
  { ending := ".models"
    contents := modelsFile
    interface := {
      modules := []
      deferred := []
      handedOn := []
      takings := []
      exports := [outline [Hole.pascal, "Summary"]] } }]

/-- The sources are programs with these interfaces, whatever stands in their holes. -/
theorem isProgramWith_parts :
    ∀ part ∈ parts, isProgramWith (fun root => root.interface = part.interface) part.contents = true := by
  rw [parts, routesFile, pageFile, dataFile, stateFile, modelsFile]
  repeat rw [String.toList_ofList]
  decide +kernel

/-- Is the specifier that of a package, or that of an accepted source behind `front`? -/
def reaches (front specifier : Text) (accept : Part → Bool) : Bool :=
  namesPackage specifier || parts.any fun part => specifier = front ++ part.ending && accept part

/-- Do the imports of an interface reach packages, and sources behind `front` that export what is taken? -/
def fits (front : Text) (interface : Interface) : Bool :=
  interface.handedOn = interface.deferred &&
    (interface.modules.all fun specifier => reaches front specifier fun _ => true) &&
    interface.takings.all fun taking => reaches front taking.1 fun part => part.interface.exports.contains taking.2

/-- The sources import from packages and from one another. -/
theorem fits_parts : ∀ part ∈ parts, fits (beside []) part.interface = true := by
  rw [parts]
  repeat rw [String.toList_ofList]
  decide +kernel

/-- The entry imports from one of the sources. -/
theorem fits_entry : fits (outline ["./features/", Hole.kebab, "/", Hole.kebab])
    (.loading (outline ["./features/", Hole.kebab, "/", Hole.kebab, ".routes"]) (outline [Hole.const, "_ROUTES"])) =
      true := by
  decide +kernel

/-- There are no holes in what the names of sources end with, and nothing that a name may not have. No source has the
route in it. -/
theorem plain_parts : ∀ part ∈ parts, isFilled part.ending = true ∧ '/' ∉ part.ending ∧ '\x00' ∉ part.ending ∧
    Piece.hole Hole.route ∉ part.contents := by
  rw [parts, routesFile, pageFile, dataFile, stateFile, modelsFile]
  repeat rw [String.toList_ofList]
  decide +kernel

variable {context : Context} {name : FeatureName} {path : Path} {part : Part}

theorem mem_render_of_mem_parts (h : part ∈ parts) :
    (name.kebab ++ part.ending ++ ".ts".toList, fill (holeValues name []) part.contents) ∈ render name := by
  rw [render_eq, List.append_assoc]
  simp only [parts, List.mem_cons, List.not_mem_nil, or_false] at h
  rcases h with rfl | rfl | rfl | rfl | rfl
  · exact .head _
  · exact .tail _ (.head _)
  · exact .tail _ (.tail _ (.head _))
  · exact .tail _ (.tail _ (.tail _ (.head _)))
  · exact .tail _ (.tail _ (.tail _ (.tail _ (.head _))))

/-- The files of a feature that are sources are its parts. -/
theorem exists_part_of_mem_render {file text : Text} (h : (file, text) ∈ render name)
    (hsource : FileTree.hasSuffix [".ts"] file = true) :
    ∃ part ∈ parts, text = fill (holeValues name []) part.contents := by
  rw [render_eq] at h
  simp only [List.mem_cons, Prod.mk.injEq, List.not_mem_nil, or_false] at h
  rcases h with ⟨-, rfl⟩ | ⟨-, rfl⟩ | ⟨-, rfl⟩ | ⟨-, rfl⟩ | ⟨-, rfl⟩ | ⟨rfl, -⟩
  · exact ⟨_, .head _, rfl⟩
  · exact ⟨_, .tail _ (.head _), rfl⟩
  · exact ⟨_, .tail _ (.tail _ (.head _)), rfl⟩
  · exact ⟨_, .tail _ (.tail _ (.tail _ (.head _))), rfl⟩
  · exact ⟨_, .tail _ (.tail _ (.tail _ (.tail _ (.head _)))), rfl⟩
  · exact absurd hsource (by decide)

/-- What is written has the filled interface of its outline. -/
theorem interface_of_isTreeOf {σ : Substitution} {filled raw : Node} (h : IsTreeOf σ filled raw) :
    filled.interface = raw.interface.map σ.text := by
  have hfilled := (Substitution.regular_identity filled).relabels.interface
  rw [← Substitution.node_eq_relabel, h.node_eq, Substitution.node_eq_relabel, h.regular.relabels.interface,
    show Substitution.identity.text = id from funext Substitution.identity_text, Interface.map_id] at hfilled
  exact hfilled.symm

/-! ## Where imports lead -/

/-- A specifier with plain names behind a dot is followed name by name. -/
theorem resolve_dot (path : Path) (names : List Text) (hsteps : ∀ name ∈ names, IsStep name) :
    FeatureImports.resolve path ('.' :: '/' :: Text.joinWith ['/'] names) =
      some (path.parent.join ⟨.relative, names⟩).normalize := by
  have hsplit := @Text.splitOn_append_cons '/' ['.'] (Text.joinWith ['/'] names) (by decide)
  have hrest := Path.namesOfText_joinWith hsteps
  rw [List.singleton_append] at hsplit
  rw [Path.namesOfText] at hrest
  have hnames : Path.ofText ('.' :: '/' :: Text.joinWith ['/'] names) = ⟨.relative, names⟩ := by
    rw [Path.ofText, Path.namesOfText, hsplit, List.filter_cons_of_neg (by decide), hrest]
    rfl
  rw [FeatureImports.resolve, hnames]

/-- The file beside a stem has its name in the same place. -/
theorem completed_normalize_child (folder : Path) {stem : Text} (hstem : stem ≠ parentName)
    (hfile : stem ++ ".ts".toList ≠ parentName) :
    completed (folder.child stem).normalize = (folder.child (stem ++ ".ts".toList)).normalize := by
  have hchild : ∀ {name : Text}, name ≠ parentName → (folder.child name).normalize =
      ⟨folder.anchor, Path.fold (folder.anchor ≠ .relative) folder.names ++ [name]⟩ := by
    intro name hname
    have hnames := Path.names_normalize (folder.child name)
    rw [Path.child, Path.fold_concat, Path.step, if_pos hname] at hnames
    rw [← hnames]
    rfl
  rw [hchild hstem, hchild hfile, completed, Path.fileName, List.dropLast_concat, List.getLastD_concat]

section

variable (hname : name.IsSpelling)

include hname

theorem isName_part (hpart : part ∈ parts) : IsName (name.kebab ++ part.ending) := by
  obtain ⟨-, hslash, hnul, -⟩ := plain_parts part hpart
  exact isName_kebab_append hname hslash hnul

theorem completed_part (hpart : part ∈ parts) :
    completed ((folder context name).child (name.kebab ++ part.ending)).normalize =
      ((folder context name).child (name.kebab ++ part.ending ++ ".ts".toList)).normalize := by
  have hfile := isName_append (isName_part hname hpart) (show 2 ≤ ".ts".toList.length by decide)
    (by decide) (by decide)
  exact completed_normalize_child _ (isName_part hname hpart).2.2.1 hfile.2.2.1

/-- From a file of the feature a specifier of a source beside it leads there. -/
theorem resolve_beside (hpart : part ∈ parts) (hparent : path.parent = folder context name) :
    FeatureImports.resolve path ('.' :: '/' :: (name.kebab ++ part.ending)) =
      some ((folder context name).child (name.kebab ++ part.ending)).normalize := by
  have hresolve := resolve_dot path [name.kebab ++ part.ending]
    (List.forall_mem_singleton.2 (isName_part hname hpart).isStep)
  rwa [Text.joinWith_singleton, hparent] at hresolve

/-- From the route table of the application a specifier of a source in the folder of the feature leads there. -/
theorem resolve_from_appRoutes (hpart : part ∈ parts) :
    FeatureImports.resolve context.appRoutes
        ("./features/".toList ++ (name.kebab ++ '/' :: (name.kebab ++ part.ending))) =
      some ((folder context name).child (name.kebab ++ part.ending)).normalize := by
  have hresolve := resolve_dot context.appRoutes ["features".toList, name.kebab, name.kebab ++ part.ending] (by
    simp only [List.forall_mem_cons, List.not_mem_nil, false_implies, implies_true, and_true]
    exact ⟨by decide, (isName_kebab hname).isStep, (isName_part hname hpart).isStep⟩)
  have hfolder : context.appRoutes.parent.join ⟨.relative, ["features".toList, name.kebab, name.kebab ++ part.ending]⟩ =
      (folder context name).child (name.kebab ++ part.ending) := by
    rw [Context.appRoutes, folder, Context.featuresFolder, Path.parent, Path.child, List.dropLast_concat]
    simp [Path.join, Path.child]
  rw [hfolder, Text.joinWith_cons_cons, Text.joinWith_cons_cons, Text.joinWith_singleton] at hresolve
  exact hresolve

/-! ## The feature is linked -/

/-- What stands in the holes of the files of a feature. -/
def filler : Substitution := filling name name.kebab hname (isRoute_kebab hname)

theorem exists_tree (hpart : part ∈ parts) : ∃ source,
    SyntaxTree.ofText (fill (holeValues name []) part.contents) ".ts" = ⟨source, true⟩ ∧
      source.interface = part.interface.map (filler hname).text := by
  obtain ⟨raw, filled, haccept, htree, hfilled⟩ := exists_root_of_isProgramWith hname
    (isProgramWith_parts part hpart) (plain_parts part hpart).2.2.2
  exact ⟨filled, hfilled, by rw [interface_of_isTreeOf htree, of_decide_eq_true haccept]; rfl⟩

/-- In the place of a part there is a file with the filled interface of the part. -/
theorem exists_module (context : Context) (hpart : part ∈ parts) :
    ∃ source, IsModule context name ((folder context name).child (name.kebab ++ part.ending)).normalize source ∧
      source.interface = part.interface.map (filler hname).text := by
  obtain ⟨source, hsource, hinterface⟩ := exists_tree hname hpart
  have hfile : ((folder context name).child (name.kebab ++ part.ending ++ ".ts".toList),
      fill (holeValues name []) part.contents) ∈ files context name :=
    List.mem_map.2 ⟨_, mem_render_of_mem_parts hpart, rfl⟩
  exact ⟨source, ⟨_, hfile, (completed_part hname hpart).symm, hsource⟩, hinterface⟩

/-- A specifier that reaches an accepted source leads to the file of that source, if it is relative. -/
theorem exists_module_of_reaches {front specifier : Text} {accept : Part → Bool}
    (hreaches : reaches front specifier accept = true)
    (hfront : ∀ part ∈ parts, FeatureImports.resolve path ((filler hname).text front ++ part.ending) =
      some ((folder context name).child (name.kebab ++ part.ending)).normalize)
    {target : Path} (htarget : FeatureImports.resolve path ((filler hname).text specifier) = some target) :
    ∃ part source, accept part = true ∧ IsModule context name target source ∧
      source.interface = part.interface.map (filler hname).text := by
  rw [reaches, Bool.or_eq_true] at hreaches
  rcases hreaches with hpackage | hany
  · -- a package is not looked for among files
    rw [namesPackage, Bool.and_eq_true, Bool.and_eq_true, decide_eq_true_eq] at hpackage
    rw [Substitution.text_of_isFilled _ hpackage.1.1] at htarget
    unfold FeatureImports.resolve at htarget
    split at htarget
    · exact absurd rfl hpackage.1.2
    · cases htarget
  · obtain ⟨part, hpart, hboth⟩ := List.any_eq_true.1 hany
    rw [Bool.and_eq_true, decide_eq_true_eq] at hboth
    rw [hboth.1, Substitution.text_append, Substitution.text_of_isFilled _ (plain_parts part hpart).1,
      hfront part hpart, Option.some.injEq] at htarget
    obtain ⟨source, hmodule, hinterface⟩ := exists_module hname context hpart
    exact ⟨part, source, hboth.2, htarget ▸ hmodule, hinterface⟩

/-- What fits with its holes is linked for every name. -/
theorem isLinked_of_fits {front : Text} {interface : Interface} (hfits : fits front interface = true)
    (hfront : ∀ part ∈ parts, FeatureImports.resolve path ((filler hname).text front ++ part.ending) =
      some ((folder context name).child (name.kebab ++ part.ending)).normalize) :
    IsLinked context name path (interface.map (filler hname).text) := by
  rw [fits, Bool.and_eq_true, Bool.and_eq_true, decide_eq_true_eq, List.all_eq_true, List.all_eq_true] at hfits
  obtain ⟨⟨hcalls, hmodules⟩, htakings⟩ := hfits
  refine ⟨congrArg (List.map _) hcalls, ?_, ?_⟩
  · intro specifier hspecifier target htarget
    obtain ⟨outlined, houtlined, rfl⟩ := List.mem_map.1 hspecifier
    obtain ⟨-, source, -, hmodule, -⟩ := exists_module_of_reaches hname (hmodules _ houtlined) hfront htarget
    exact ⟨source, hmodule⟩
  · intro taking htaking target htarget
    obtain ⟨outlined, houtlined, rfl⟩ := List.mem_map.1 htaking
    obtain ⟨part, source, hexports, hmodule, hinterface⟩ :=
      exists_module_of_reaches hname (htakings _ houtlined) hfront htarget
    refine ⟨source, hmodule, ?_⟩
    rw [hinterface]
    exact List.mem_map_of_mem (List.contains_iff_mem.1 hexports)

theorem isLinked_part (hpart : part ∈ parts) (hparent : path.parent = folder context name) :
    IsLinked context name path (part.interface.map (filler hname).text) := by
  refine isLinked_of_fits hname (fits_parts part hpart) fun other hother => ?_
  have hfront : (filler hname).text (beside []) = '.' :: '/' :: name.kebab := by
    rw [filler, beside, ← fill_eq_text hname _ (by decide)]
    show '.' :: '/' :: (name.kebab ++ []) = _
    rw [List.append_nil]
  rw [hfront]
  exact resolve_beside hname hother hparent

theorem isLinked_entry (context : Context) : IsLinked context name context.appRoutes (entryInterface name) := by
  have hinterface : (Interface.loading (outline ["./features/", Hole.kebab, "/", Hole.kebab, ".routes"])
      (outline [Hole.const, "_ROUTES"])).map (filler hname).text = entryInterface name := by
    rw [Interface.map_loading, filler, ← fill_eq_text hname _ (by decide), ← fill_eq_text hname _ (by decide)]
    rfl
  rw [← hinterface]
  refine isLinked_of_fits hname fits_entry fun part hpart => ?_
  have hfront : (filler hname).text (outline ["./features/", Hole.kebab, "/", Hole.kebab]) =
      "./features/".toList ++ (name.kebab ++ '/' :: name.kebab) := by
    rw [filler, ← fill_eq_text hname _ (by decide)]
    show "./features/".toList ++ (name.kebab ++ (['/'] ++ (name.kebab ++ []))) = _
    rw [List.append_nil]
    rfl
  rw [hfront]
  simpa using resolve_from_appRoutes hname hpart

end

/-! ## The entry -/

/-- A call that loads a module and takes a name from it. -/
def loaderText (target taken : Text) : Text := Text.concat ["import('", target, "').then((m) => m.", taken, ")"]

/-- The entry has the call that its interface speaks of, whatever its route is. -/
theorem loaderText_infix_routeEntry (route : Text) (name : FeatureName) :
    loaderText (routesModule name.kebab) (name.const ++ "_ROUTES".toList) <:+: routeEntry route name := by
  refine ⟨fill (holeValues name route) (entryPieces.take 4 ++ [.fixed "    loadChildren: () =>\n      "]),
    ",\n  \x7d,\n".toList, ?_⟩
  rw [routeEntry, loaderText, routesModule, entryPieces]
  simp [fill, Text.concat, Piece.fill, holeValues]

section

variable {text route exported new : Text} {table : ExportedArray}

/-- A table that takes an entry has it among its children, in one of the two places, with a comma behind it. -/
theorem TakesEntry.exists_grown (htakes : TakesEntry text table) (hname : name.IsSpelling)
    (hroute : isQuotable route = true) (hprogram : (SyntaxTree.ofText text ".ts").isProgram = true)
    (htable : (SyntaxTree.ofText text ".ts").root.exportedArray? exported = some table) :
    ∃ before after, insertionPoint? text = some (before, after) ∧
      ∃ (grown : Node) (label : Label) (first second : List Node) (entry comma : Node),
        SyntaxTree.ofText (before ++ (routeEntry route name ++ after)) ".ts" = ⟨grown, true⟩ ∧
        grown.exportedArray? exported = some ⟨table.name, .mk label (first ++ entry :: comma :: second)⟩ ∧
        LeadsTo route (routesModule name.kebab) entry ∧ entry.interface = entryInterface name ∧
        comma.kind = .mark := by
  rcases htakes with ⟨wildcard, hmem, hfound⟩ | ⟨hnone, hends⟩
  · obtain ⟨before, after, hpoint, -, grown, move, first, second, entry, comma, htree, -, harray, hleads, hinterface,
      hcomma, -⟩ := Feature.exists_grown hname hroute hprogram htable hmem hfound
    exact ⟨before, after, hpoint, grown, _, _, _, entry, comma, htree, harray, hleads, hinterface, hcomma⟩
  · obtain ⟨before, after, hpoint, -, grown, move, first, closing, entry, comma, htree, -, -, harray, hleads,
      hinterface, hcomma, -⟩ := exists_appended hname hroute hprogram htable hnone hends
    exact ⟨before, after, hpoint, grown, _, _, _, entry, comma, htree, harray, hleads, hinterface, hcomma⟩

/-- An entry that is put into a table is an element of it with the interface of the entry. -/
theorem exists_entry_of_registerIn (hname : name.IsSpelling) (hroute : isQuotable route = true)
    (hprogram : (SyntaxTree.ofText text ".ts").isProgram = true)
    (htable : (SyntaxTree.ofText text ".ts").root.exportedArray? exported = some table) (htakes : TakesEntry text table)
    (hnew : registerIn text route name = .ok (.inserted new)) :
    ∃ grown array entry, SyntaxTree.ofText new ".ts" = ⟨grown, true⟩ ∧ grown.exportedArray? exported = some array ∧
      entry ∈ array.array.elements ∧ entry.propertyString? "path" = some route ∧
      entry.interface = entryInterface name := by
  obtain ⟨before, after, hpoint, grown, label, first, second, entry, comma, htree, harray, hleads, hinterface,
    hcomma⟩ := htakes.exists_grown hname hroute hprogram htable
  rw [registerIn, hpoint] at hnew
  split at hnew
  · cases hnew
  · obtain rfl := Registered.inserted.inj (Except.ok.inj hnew)
    have hconcat : Text.concat [before, routeEntry route name, after] = before ++ (routeEntry route name ++ after) := by
      simp [Text.concat]
    refine ⟨grown, _, entry, hconcat ▸ htree, harray, ?_, hleads.path_eq, hinterface⟩
    dsimp only
    rw [elements_insert _ _ _ hleads.kind_eq hcomma]
    exact List.mem_append_right _ (List.mem_cons_self ..)

end

/-- **The files of a feature belong together.** For every name, every relative import of a source of the feature leads
to a file of the feature, which exports all that is taken from it; and so does the import of the entry, from the route
table of the application, wherever the entry is put and whatever its route is. The files that every feature must have
are among them. -/
theorem render_links (hname : name.IsSpelling) (context : Context) :
    (∀ file ∈ files context name, FileTree.hasSuffix [".ts"] file.1.fileName = true →
      ∃ root, SyntaxTree.ofText file.2 ".ts" = ⟨root, true⟩ ∧ IsLinked context name file.1 root.interface) ∧
    (∀ file ∈ Structure.requiredFiles name.kebab, ∃ text, (file, text) ∈ render name) ∧
    IsLinked context name context.appRoutes (entryInterface name) ∧
    (∀ route, loaderText (routesModule name.kebab) (name.const ++ "_ROUTES".toList) <:+: routeEntry route name) ∧
    ∀ {text route exported new : Text} {table : ExportedArray}, isQuotable route = true →
      (SyntaxTree.ofText text ".ts").isProgram = true →
      (SyntaxTree.ofText text ".ts").root.exportedArray? exported = some table → TakesEntry text table →
      registerIn text route name = .ok (.inserted new) →
      ∃ grown array entry, SyntaxTree.ofText new ".ts" = ⟨grown, true⟩ ∧ grown.exportedArray? exported = some array ∧
        entry ∈ array.array.elements ∧ entry.propertyString? "path" = some route ∧
        entry.interface = entryInterface name := by
  refine ⟨fun file hfile hsource => ?_, fun file hfile => exists_text_of_mem_requiredFiles hfile,
    isLinked_entry hname context, fun route => loaderText_infix_routeEntry route name,
    fun hroute hprogram htable htakes hnew => exists_entry_of_registerIn hname hroute hprogram htable htakes hnew⟩
  obtain ⟨⟨file, text⟩, hrender, rfl⟩ := List.mem_map.1 hfile
  dsimp only at hsource ⊢
  have hname' : ((folder context name).child file).fileName = file := by
    rw [Path.fileName, Path.child, List.getLastD_concat]
  rw [hname'] at hsource
  obtain ⟨part, hpart, rfl⟩ := exists_part_of_mem_render hrender hsource
  obtain ⟨root, hroot, hinterface⟩ := exists_tree hname hpart
  refine ⟨root, hroot, ?_⟩
  rw [hinterface]
  refine isLinked_part hname hpart ?_
  rw [Path.parent, Path.child, List.dropLast_concat]

/-- The routes of the orders take the page from the file of the page, which exports it. In front of the end of the small
table the entry of the orders becomes an element that takes the table of the feature from the file of its routes. -/
theorem render_links_orders :
    (∃ root source, SyntaxTree.ofText (fill (holeValues ordersName []) routesFile) ".ts" = ⟨root, true⟩ ∧
      ("./orders.page".toList, "OrdersPage".toList) ∈ root.interface.takings ∧
      IsModule AppRoutes.tableContext ordersName ⟨.root, ["src", "app", "features", "orders", "orders.page"]⟩ source ∧
      "OrdersPage".toList ∈ source.interface.exports) ∧
    ∃ new grown array entry source, registerIn homeTable "orders" ordersName = .ok (.inserted new) ∧
      SyntaxTree.ofText new ".ts" = ⟨grown, true⟩ ∧ grown.exportedArray? AppRoutes.tableName = some array ∧
      entry ∈ array.array.elements ∧ entry.propertyString? "path" = some "orders".toList ∧
      entry.interface = .loading "./features/orders/orders.routes" "ORDERS_ROUTES" ∧
      IsModule AppRoutes.tableContext ordersName ⟨.root, ["src", "app", "features", "orders", "orders.routes"]⟩ source ∧
      "ORDERS_ROUTES".toList ∈ source.interface.exports := by
  obtain ⟨hfiles, -, hentry, -, hregistered⟩ :=
    @render_links ordersName ⟨"orders", by decide⟩ AppRoutes.tableContext
  constructor
  · have hfile : ((folder AppRoutes.tableContext ordersName).child "orders.routes.ts",
        fill (holeValues ordersName []) routesFile) ∈ files AppRoutes.tableContext ordersName :=
      List.mem_map.2 ⟨_, mem_render_of_mem_parts (.head _), rfl⟩
    obtain ⟨root, hroot, hlinked⟩ := hfiles _ hfile (by decide)
    have htaking : ("./orders.page".toList, "OrdersPage".toList) ∈ root.interface.takings := by
      have hroot' : (treeOf (fill (holeValues ordersName []) routesFile)).root = root := by
        rw [← ofText_eq_treeOf, hroot]
      rw [← hroot']
      decide +kernel
    obtain ⟨source, hmodule, hexports⟩ := hlinked.takings _ htaking _ rfl
    exact ⟨root, source, hroot, htaking, hmodule, hexports⟩
  · obtain ⟨table, htable, hprogram, -, hnone, hends, hsplit, -, hmark⟩ := homeTable_shape
    rw [← ofText_eq_treeOf] at htable hprogram hnone
    have hpoint : insertionPoint? homeTable = some (homeFront, tableEnd) := by
      rw [insertionPoint?, wildcardOffset?, wildcardObject?_eq_none_iff.2 hnone, ← hsplit]
      rfl
    have hnew : registerIn homeTable "orders" ordersName =
        .ok (.inserted (Text.concat [homeFront, routeEntry "orders" ordersName, tableEnd])) := by
      rw [registerIn, hmark, hpoint]
      rfl
    obtain ⟨grown, array, entry, hgrown, harray, hmem, hpath, hinterface⟩ :=
      hregistered (by decide) hprogram htable (.inr ⟨hnone, hends⟩) hnew
    obtain ⟨source, hmodule, hexports⟩ := hentry.takings _ (List.mem_singleton_self _) _ rfl
    exact ⟨_, grown, array, entry, source, hnew, hgrown, harray, hmem, hpath, hinterface, hmodule, hexports⟩

end VerticalSlice.Feature
