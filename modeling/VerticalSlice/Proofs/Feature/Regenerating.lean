import VerticalSlice.Proofs.Feature.Keeping
import VerticalSlice.Proofs.Feature.Presence
import VerticalSlice.Proofs.Feature.Table

/-!
# Generating a feature again

A generation that replaces files and puts the route into the table ends where it would start from if it
were made once more. What is written where it stands already leaves the tree as it is
(`write_child_self`, `makeFolders_self`), so the six files and their folder do nothing the second time. The
table holds the mark of the route once a registration succeeds, whether it was there before or came in with
the entry (`routeMark_infix_of_register`), so the second call finds the route and leaves the table alone
(`generate_again`).
-/

namespace VerticalSlice

namespace FileTree

variable {tree entry : FileTree} {names : List Text} {path base : Path} {name : Text} {bytes : List UInt8}

/-! ## Writing what is there -/

theorem setEntry_self {entries : List (Text × FileTree)} (h : entries.lookup name = some entry) :
    setEntry name entry entries = entries := by
  induction entries with
  | nil => cases h
  | cons pair rest ih =>
    obtain ⟨other, old⟩ := pair
    rw [setEntry]
    by_cases hother : other = name
    · subst hother
      rw [List.lookup_cons_self] at h
      rw [if_pos rfl, Option.some.inj h]
    · rw [List.lookup_cons, beq_eq_false_iff_ne.2 (Ne.symm hother)] at h
      rw [if_neg hother, ih h]

/-- To put an entry where it is changes nothing. -/
theorem put_self (h : tree.get? names = some entry) : tree.put names entry = tree := by
  induction names generalizing tree with
  | nil => exact (Option.some.inj h).symm
  | cons first names ih =>
    obtain ⟨entries, next, rfl, hnext, hrest⟩ := exists_entry_of_get?_cons h
    rw [put_cons hnext, ih hrest, setEntry_self hnext]

/-- To write the bytes that a file has already changes nothing. -/
theorem write_child_self (hname : name ≠ parentName) (h : tree.read (base.child name) = .ok bytes) :
    tree.write (base.child name) bytes = .ok tree := by
  obtain ⟨place, hplace, hbytes⟩ := locate_of_read h
  obtain ⟨outer, entries, -, hfolder, rfl⟩ := locate_of_locate_child hname hplace
  rw [write, hplace]
  dsimp only
  rw [hbytes, List.dropLast_concat, hfolder]
  dsimp only
  rw [put_self hbytes]

/-- Where a folder is none is made. -/
theorem makeFolders_self (h : tree.hasFolder path = true) : tree.makeFolders path = (tree, .ok ()) := by
  obtain ⟨place, entries, hplace, hfolder⟩ := locate_of_hasFolder h
  have hmake : tree.makeFolder path = .error ⟨.alreadyThere, path⟩ := by
    rw [makeFolder, hplace]
    dsimp only
    rw [hfolder]
  have htolerate : tolerate tree path (tree.makeFolder path) = (tree, .ok ()) := by
    rw [hmake, tolerate, h]
    rfl
  have hpath : path = ⟨path.anchor, path.names.reverse.reverse⟩ := by rw [List.reverse_reverse]
  rw [makeFolders]
  rw [hpath] at hmake htolerate
  cases hnames : path.names.reverse with
  | nil =>
    rw [hnames] at htolerate
    rw [makeFoldersRev]
    exact htolerate
  | cons name outer =>
    rw [hnames] at hmake htolerate
    rw [hmake] at htolerate
    rw [makeFoldersRev, hmake]
    exact htolerate

end FileTree

namespace Feature

open FileTree

variable {context : Context} {request : Request} {name : FeatureName} {tree changed : FileTree}
  {done : Generated}

/-! ## The files -/

theorem writeAll_self {files : List (Path × Text)} (h : ∀ file ∈ files, tree.writeText file.1 file.2 = .ok tree) :
    writeAll tree files = (tree, .ok ()) := by
  induction files with
  | nil => rfl
  | cons file rest ih =>
    rw [writeAll, h file (List.mem_cons_self ..)]
    exact ih fun other hother => h other (List.mem_cons_of_mem _ hother)

/-- A feature whose files are all there with what is written into them is not changed by writing it. -/
theorem writeFeature_self (hname : name.IsSpelling)
    (h : ∀ file ∈ files context name, tree.read file.1 = .ok (Text.Utf8.encode file.2)) :
    writeFeature context tree name = (tree, .ok ()) := by
  have hwrite : ∀ file ∈ files context name, tree.writeText file.1 file.2 = .ok tree := by
    intro file hfile
    obtain ⟨rendered, hrendered, rfl⟩ := List.mem_map.1 hfile
    exact write_child_self (isName_of_mem_render hname rendered hrendered).2.2.1 (h _ hfile)
  have hfolder : tree.hasFolder (folder context name) = true := by
    -- the folder holds the first of the files
    have hfirst : ((folder context name).child (name.kebab ++ ".routes.ts".toList),
        fill (holeValues name []) routesFile) ∈ files context name := by
      rw [files, render_eq]
      exact List.mem_cons_self ..
    have hlast : name.kebab ++ ".routes.ts".toList ≠ parentName :=
      (isName_of_mem_render hname _ (by rw [render_eq]; exact List.mem_cons_self ..)).2.2.1
    obtain ⟨place, hplace, -⟩ := locate_of_read (h _ hfirst)
    obtain ⟨outer, entries, houter, hentries, -⟩ := locate_of_locate_child hlast hplace
    rw [hasFolder, entry?_eq_of_locate houter, hentries]
    rfl
  rw [writeFeature, makeFolders_self hfolder]
  exact writeAll_self hwrite

/-! ## The route table -/

/-- A route that is there already is not put in again. -/
theorem register_present {file : Path} {route : Text}
    (h : register tree file route name = .ok (changed, true)) :
    changed = tree ∧ ∃ text, tree.readText file = .ok text ∧ routeMark route <:+: text := by
  obtain ⟨text, htext, ⟨hmark, -, rfl⟩ | ⟨-, habsent, -⟩⟩ := register_ok_cases h
  · exact ⟨rfl, text, htext, hmark⟩
  · cases habsent

/-- The table has the route once a registration succeeds. -/
theorem routeMark_infix_of_register {file : Path} {route : Text} {present : Bool} (hname : name.IsSpelling)
    (hroute : ∀ c ∈ route, isRouteChar c = true)
    (h : register tree file route name = .ok (changed, present)) :
    ∃ text, changed.readText file = .ok text ∧ routeMark route <:+: text := by
  cases present with
  | true =>
    obtain ⟨rfl, hpresent⟩ := register_present h
    exact hpresent
  | false =>
    obtain ⟨text, before, after, htext, hpoint, hwritten⟩ := exists_text_of_register h
    have hsplit := insertionPoint?_append hpoint
    refine ⟨_, readText_insert_of_notMem hname (notMem_of_isRouteChar hroute (by decide)) htext hsplit
      hwritten, ?_⟩
    -- the mark comes with the entry
    have hentry := (routeMark_infix_routeEntry_iff hname hroute hroute).2 rfl
    exact hentry.trans ((List.prefix_append _ _).isInfix.trans (List.suffix_append _ _).isInfix)

/-! ## Once more -/

/-- What a call under an accepted name leaves when it replaces files and puts the route into the table. -/
structure IsSettled (context : Context) (request : Request) (name : FeatureName) (tree : FileTree) : Prop where
  read : ∀ file ∈ files context name, tree.read file.1 = .ok (Text.Utf8.encode file.2)
  route : ∃ text, tree.readText context.appRoutes = .ok text ∧ routeMark (request.routePath name) <:+: text

theorem isSettled_of_generateNamed (hname : name.IsSpelling) (hregister : request.register = true)
    (hroute : ∀ c ∈ request.routePath name, isRouteChar c = true)
    (h : generateNamed context tree name request = (changed, .ok done)) :
    IsSettled context request name changed ∧
      ∃ present, done = generated context name (some (request.routePath name)) present := by
  obtain ⟨written, rest, hall, hgenerated, hdone⟩ := exists_isGenerated_of_generateNamed hname h
  obtain ⟨-, rfl⟩ := hdone done rfl
  rw [List.append_nil] at hall
  subst hall
  obtain ⟨made, present, -, hregistered, rfl⟩ := exists_register_of_generateNamed hregister h
  exact ⟨⟨hgenerated.read, routeMark_infix_of_register hname hroute hregistered⟩, present, rfl⟩

/-- Where a call would leave everything as it is, it does so and finds its route. -/
theorem IsSettled.generateNamed (hname : name.IsSpelling) (hregister : request.register = true)
    (h : IsSettled context request name tree) :
    generateNamed context tree name request =
      (tree, .ok (generated context name (some (request.routePath name)) true)) := by
  obtain ⟨text, htext, hmark⟩ := h.route
  exact generateNamed_of_registered (writeFeature_self hname h.read) hregister
    ((register_present_iff_marked htext).2 hmark)

/-- If a call that replaces files and puts its route into the table succeeds, the same call made after it
succeeds too. It finds the route in the table and leaves every file and every folder as it is. -/
theorem generate_again (hregister : request.register = true) (hoverwrite : request.overwrite = true)
    (hroute : ∀ route ∈ request.route, ∀ c ∈ route, isRouteChar c = true)
    (h : generate context tree request = (changed, .ok done)) :
    generate context changed request = (changed, .ok { done with alreadyPresent := true }) := by
  cases hspelled : FeatureName.ofText? request.name with
  | none =>
    rw [generate, hspelled] at h
    cases (Prod.mk.inj h).2
  | some name =>
    have hname : name.IsSpelling := ⟨request.name, hspelled⟩
    have hfree : ∀ {tree : FileTree}, request.overwrite = false →
        existing? tree (files context name) = none := by
      intro tree hkeep
      rw [hoverwrite] at hkeep
      cases hkeep
    have hpath : ∀ c ∈ request.routePath name, isRouteChar c = true := by
      rw [Request.routePath]
      cases hgiven : request.route with
      | none => exact (isRoute_kebab hname).2
      | some route => exact hroute route hgiven
    rw [generate_eq_generateNamed request hspelled hfree] at h ⊢
    obtain ⟨hsettled, present, rfl⟩ := isSettled_of_generateNamed hname hregister hpath h
    exact hsettled.generateNamed hname hregister

/-! ## A page of someone else -/

/-- A table whose lines end in two characters, and a file of the feature that says something else. -/
def foreignTree : FileTree :=
  .folder [("src", .folder [("app", .folder [
    ("features", .folder [("orders", .folder [("orders.page.ts", .file [7])])]),
    ("app.routes.ts", .file (Text.Utf8.encode "export const routes = [\r\n];\r\n"))])])]

/-- What can be read of the table. -/
def foreignTable : Text := "export const routes = [\n];\n"

/-- What the two calls ask for. -/
def replacingRequest : Request := { name := "orders", route := some "shop/:id", register := true, overwrite := true }

/-- The first call replaces the page and puts the route in, and the second one has nothing left to do. -/
theorem generate_again_foreignTree : ∃ changed done,
    generate plainContext foreignTree replacingRequest = (changed, .ok done) ∧ done.alreadyPresent = false ∧
      generate plainContext changed replacingRequest = (changed, .ok { done with alreadyPresent := true }) := by
  let made := (writeFeature plainContext foreignTree (FeatureName.spell "orders")).1
  have hfeature : writeFeature plainContext foreignTree (FeatureName.spell "orders") = (made, .ok ()) := rfl
  have htext : made.readText plainContext.appRoutes = .ok foreignTable := by decide +kernel
  have hpoint : insertionPoint? foreignTable = some ("export const routes = [\n".toList, "];\n".toList) := by
    rw [insertionPoint?, wildcardOffset?_eq]
    decide +kernel
  have hmark : Text.occursIn (routeMark "shop/:id") foreignTable = false := by decide +kernel
  obtain ⟨written, hwritten⟩ : ∃ written, made.writeText plainContext.appRoutes
      (Text.concat ["export const routes = [\n".toList, routeEntry "shop/:id" (FeatureName.spell "orders"),
        "];\n".toList]) = .ok written := ⟨_, rfl⟩
  have hregister : register made plainContext.appRoutes "shop/:id" (FeatureName.spell "orders") =
      .ok (written, false) := by
    refine register_of_unmarked htext ?_ hpoint hwritten
    rw [← Text.occursIn_iff_infix, hmark]
    exact Bool.false_ne_true
  have hgenerate : generate plainContext foreignTree replacingRequest =
      (written, .ok (generated plainContext (FeatureName.spell "orders") (some "shop/:id".toList) false)) := by
    rw [generate_eq_generateNamed replacingRequest rfl (by rintro ⟨⟩)]
    exact generateNamed_of_registered hfeature rfl hregister
  refine ⟨written, _, hgenerate, rfl, generate_again rfl rfl ?_ hgenerate⟩
  intro route hroute
  obtain rfl := Option.some.inj hroute
  exact Text.forall_mem (by decide)

end Feature

end VerticalSlice
