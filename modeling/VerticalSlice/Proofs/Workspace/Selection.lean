import Mathlib
import VerticalSlice.Proofs.Json.WellFormed
import VerticalSlice.Proofs.Path.Written
import VerticalSlice.Proofs.Workspace.Faults

/-!
# Which application is checked

An application may be asked for, or the settings may name one, or the manifest is searched for one. The name
comes from one place and the project is looked up in another, and the two ask for different things: whatever
is asked for has to be an object of the manifest and no more, but what is found without being asked for is
always an application.

`Chosen` says what is chosen by what stands in the manifest, without the functions that search it.
`select_exact` compares the two: they agree on what is chosen, and where nothing is, the fault is that of the
place that the name should have come from. A manifest that is searched never gives a name that is then not
found.
-/

namespace VerticalSlice

/-! ## One thing or else another -/

section

variable {α : Type} {first second : Option α}

theorem orElse_eq_some_iff {a : α} :
    (first <|> second) = some a ↔ first = some a ∨ first = none ∧ second = some a := by
  cases first <;> simp

theorem orElse_eq_none_iff : (first <|> second) = none ↔ first = none ∧ second = none := by
  cases first <;> simp

end

namespace Manifest

/-! ## What stands in a manifest -/

/-- The manifest has this project under this name. -/
def Lists (manifest : Manifest) (name : Text) (project : Json) : Prop :=
  ∃ projects, ("projects".toList, Json.object projects) ∈ manifest.members ∧ (name, project) ∈ projects

/-- The project is an object that is told to be an application. -/
def IsApplication (project : Json) : Prop :=
  ∃ members, project = .object members ∧ ("projectType".toList, Json.text "application") ∈ members

/-- The default of the manifest is a text that names one of its applications. -/
def DeclaresDefault (manifest : Manifest) (name : Text) : Prop :=
  ("defaultProject".toList, Json.text name) ∈ manifest.members ∧
    ∃ project, manifest.Lists name project ∧ IsApplication project

/-- Of all projects of the manifest that are applications the first one has this name. -/
def IsFirst (manifest : Manifest) (name : Text) : Prop :=
  ∃ before project behind,
    ("projects".toList, Json.object (before ++ (name, project) :: behind)) ∈ manifest.members ∧
    IsApplication project ∧ ∀ entry ∈ before, ¬IsApplication entry.2

/-! ## What is found in it -/

section

variable {manifest : Manifest} {name : Text}

theorem isApplication_iff {project : Json} (h : project.WellFormed) :
    isApplication project = true ↔ IsApplication project := by
  cases project with
  | object members =>
    have hlookup := @lookup_eq_some_iff _ "projectType" (Json.text "application") _
      (Json.wellFormed_object_iff.1 h).1
    simp only [IsApplication, Json.object.injEq, exists_eq_left', ← hlookup]
    rw [isApplication, Json.member?]
    cases members.lookup ("projectType" : Text) with
    | none => exact iff_of_false nofun nofun
    | some value =>
      cases value with
      | text kind => rw [Option.some.injEq, Json.text.injEq]; exact decide_eq_true_iff
      | _ => exact iff_of_false nofun nofun
  | _ => exact iff_of_false nofun fun ⟨_, heq, _⟩ => nomatch heq

theorem projects_eq_iff {projects : Members} (h : (Json.object manifest.members).WellFormed)
    (hsome : projects ≠ []) :
    manifest.projects = projects ↔ ("projects".toList, Json.object projects) ∈ manifest.members := by
  rw [← lookup_eq_some_iff (Json.wellFormed_object_iff.1 h).1, Manifest.projects]
  cases manifest.members.lookup ("projects" : Text) with
  | none => simpa using hsome.symm
  | some value => cases value <;> simp [hsome.symm]

variable (h : (Json.object manifest.members).WellFormed)
include h

/-- The projects of a well-formed manifest make up an object that is well-formed, too. -/
theorem wellFormed_projects : (Json.object manifest.projects).WellFormed := by
  rw [Json.wellFormed_object_iff] at h
  rw [Manifest.projects]
  split
  · next hlookup => exact h.2 _ (mem_of_lookup hlookup)
  · exact Json.wellFormed_object_nil

theorem mem_projects_iff {project : Json} : (name, project) ∈ manifest.projects ↔ manifest.Lists name project := by
  constructor
  · intro hmem
    exact ⟨manifest.projects, (projects_eq_iff h (List.ne_nil_of_mem hmem)).1 rfl, hmem⟩
  · rintro ⟨projects, hprojects, hmem⟩
    rwa [(projects_eq_iff h (List.ne_nil_of_mem hmem)).2 hprojects]

theorem lookup_projects_iff {project : Json} :
    manifest.projects.lookup name = some project ↔ manifest.Lists name project := by
  rw [lookup_eq_some_iff (Json.wellFormed_object_iff.1 (wellFormed_projects h)).1, mem_projects_iff h]

theorem wellFormed_of_lists {project : Json} (hlists : manifest.Lists name project) : project.WellFormed :=
  (Json.wellFormed_object_iff.1 (wellFormed_projects h)).2 _ ((mem_projects_iff h).2 hlists)

theorem project?_eq_some_iff {project : Members} :
    manifest.project? name = some project ↔ manifest.Lists name (.object project) := by
  rw [← lookup_projects_iff h, project?]
  cases manifest.projects.lookup name with
  | none => simp
  | some value => cases value <;> simp

theorem declaredDefault?_eq_some_iff : manifest.declaredDefault? = some name ↔ manifest.DeclaresDefault name := by
  rw [DeclaresDefault, ← lookup_eq_some_iff (Json.wellFormed_object_iff.1 h).1, declaredDefault?]
  have hany : ∀ other, (manifest.projects.lookup other).any isApplication = true ↔
      ∃ project, manifest.Lists other project ∧ IsApplication project := by
    intro other
    rw [Option.any_eq_true]
    refine exists_congr fun project => ?_
    rw [lookup_projects_iff h]
    exact and_congr_right fun hlists => isApplication_iff (wellFormed_of_lists h hlists)
  cases manifest.members.lookup ("defaultProject" : Text) with
  | none => simp
  | some value =>
    cases value with
    | text other =>
      simp only [Option.some.injEq, Json.text.injEq, Option.ite_none_right_eq_some, hany]
      constructor
      · rintro ⟨happlication, rfl⟩
        exact ⟨rfl, happlication⟩
      · rintro ⟨rfl, happlication⟩
        exact ⟨happlication, rfl⟩
    | _ => simp

theorem firstApplication?_eq_some_iff : manifest.firstApplication? = some name ↔ manifest.IsFirst name := by
  have hwf := (Json.wellFormed_object_iff.1 (wellFormed_projects h)).2
  simp only [firstApplication?, Option.map_eq_some_iff, List.find?_eq_some_iff_append, IsFirst]
  constructor
  · rintro ⟨⟨other, project⟩, ⟨happlication, before, behind, hsplit, hbefore⟩, rfl⟩
    rw [hsplit] at hwf
    refine ⟨before, project, behind, (projects_eq_iff h (by simp)).1 hsplit,
      (isApplication_iff (hwf _ (by simp))).1 happlication, fun entry hentry => ?_⟩
    rw [← isApplication_iff (hwf entry (List.mem_append_left _ hentry))]
    simpa using hbefore entry hentry
  · rintro ⟨before, project, behind, hprojects, happlication, hbefore⟩
    have hsplit := (projects_eq_iff h (by simp)).2 hprojects
    rw [hsplit] at hwf ⊢
    refine ⟨(name, project), ⟨(isApplication_iff (hwf _ (by simp))).2 happlication, before, behind, rfl,
      fun entry hentry => ?_⟩, rfl⟩
    rw [Bool.not_eq_true', ← Bool.not_eq_true, isApplication_iff (hwf entry (List.mem_append_left _ hentry))]
    exact hbefore entry hentry

theorem firstApplication?_eq_none_iff :
    manifest.firstApplication? = none ↔ ∀ name project, manifest.Lists name project → ¬IsApplication project := by
  rw [firstApplication?, Option.map_eq_none_iff, List.find?_eq_none]
  constructor
  · intro hnone name project hlists happlication
    exact hnone _ ((mem_projects_iff h).2 hlists)
      ((isApplication_iff (wellFormed_of_lists h hlists)).2 happlication)
  · intro hnone entry hentry happlication
    have hlists := (mem_projects_iff h).1 hentry
    exact hnone _ _ hlists ((isApplication_iff (wellFormed_of_lists h hlists)).1 happlication)

/-- A default that is declared counts, and the first application only where none is. -/
theorem defaultProject?_eq_some_iff : manifest.defaultProject? = some name ↔
    manifest.DeclaresDefault name ∨ (∀ other, ¬manifest.DeclaresDefault other) ∧ manifest.IsFirst name := by
  have hnone : manifest.declaredDefault? = none ↔ ∀ other, ¬manifest.DeclaresDefault other := by
    simp only [← declaredDefault?_eq_some_iff h, Option.eq_none_iff_forall_ne_some, ne_eq]
  rw [defaultProject?, orElse_eq_some_iff, declaredDefault?_eq_some_iff h, hnone,
    firstApplication?_eq_some_iff h]

theorem defaultProject?_eq_none_iff :
    manifest.defaultProject? = none ↔ ∀ name project, manifest.Lists name project → ¬IsApplication project := by
  rw [defaultProject?, orElse_eq_none_iff, firstApplication?_eq_none_iff h]
  refine and_iff_right_of_imp fun hnone => ?_
  rw [Option.eq_none_iff_forall_ne_some]
  intro name hdefault
  obtain ⟨-, project, hlists, happlication⟩ := (declaredDefault?_eq_some_iff h).1 hdefault
  exact hnone name project hlists happlication

/-- What the search of the manifest finds is an application that is then found by its name. -/
theorem exists_project_of_defaultProject? (hdefault : manifest.defaultProject? = some name) :
    ∃ project, manifest.project? name = some project ∧ IsApplication (.object project) := by
  have hlisted : ∃ project, manifest.Lists name project ∧ IsApplication project := by
    rcases (defaultProject?_eq_some_iff h).1 hdefault with ⟨-, hlisted⟩ | ⟨-, hfirst⟩
    · exact hlisted
    · obtain ⟨before, project, behind, hprojects, happlication, -⟩ := hfirst
      exact ⟨project, ⟨_, hprojects, List.mem_append_right _ (List.mem_cons_self ..)⟩, happlication⟩
  obtain ⟨project, hlists, members, rfl, hkind⟩ := hlisted
  exact ⟨members, (project?_eq_some_iff h).2 hlists, members, rfl, hkind⟩

end

end Manifest

namespace Workspace

open Manifest

/-! ## What is asked for -/

/-- The name is asked for, or nothing is and the settings have it. An empty name counts as none. -/
inductive Requests (settings : Settings) (asked : Option Text) (name : Text) : Prop
  | asked (h : asked = some name) (hne : name ≠ [])
  | settings (hnone : asked = none ∨ asked = some []) (h : settings.project = some name) (hne : name ≠ [])

/-- The project with this name is the one to check: it is requested, or nothing is and it is the default of
the manifest, or there is no default either and it is the first application. -/
inductive Chosen (manifest : Manifest) (settings : Settings) (asked : Option Text) (name : Text)
    (project : Members) : Prop
  | requested (h : Requests settings asked name) (hlists : manifest.Lists name (.object project))
  | default (hnone : ∀ other, ¬Requests settings asked other) (h : manifest.DeclaresDefault name)
    (hlists : manifest.Lists name (.object project))
  | first (hnone : ∀ other, ¬Requests settings asked other) (hdefault : ∀ other, ¬manifest.DeclaresDefault other)
    (h : manifest.IsFirst name) (hlists : manifest.Lists name (.object project))

variable {root : Path} {manifest : Manifest} {settings : Settings} {asked : Option Text} {name : Text}
  {project : Members}

theorem given_eq_some_iff {asked : Option Text} : given asked = some name ↔ asked = some name ∧ name ≠ [] := by
  rw [given, Option.filter_eq_some_iff, decide_eq_true_eq]

theorem given_eq_none_iff : given asked = none ↔ asked = none ∨ asked = some [] := by
  cases asked with
  | none => simp [given]
  | some name => simp [given, Option.filter_eq_none_iff]

theorem requests_iff : (given asked <|> given settings.project) = some name ↔ Requests settings asked name := by
  rw [orElse_eq_some_iff, given_eq_some_iff, given_eq_none_iff, given_eq_some_iff]
  constructor
  · rintro (⟨h, hne⟩ | ⟨hnone, h, hne⟩)
    · exact .asked h hne
    · exact .settings hnone h hne
  · rintro (⟨h, hne⟩ | ⟨hnone, h, hne⟩)
    · exact .inl ⟨h, hne⟩
    · exact .inr ⟨hnone, h, hne⟩

theorem requested_eq_none_iff :
    (given asked <|> given settings.project) = none ↔ ∀ name, ¬Requests settings asked name := by
  rw [Option.eq_none_iff_forall_ne_some]
  exact forall_congr' fun name => not_congr requests_iff

theorem projectName?_eq : projectName? manifest settings asked =
    ((given asked <|> given settings.project) <|> manifest.defaultProject?) := by
  rw [projectName?]
  cases given asked <;> rfl

/-- The name is the one that is requested, or if none is the one that the manifest is searched for. -/
theorem projectName?_eq_some_iff : projectName? manifest settings asked = some name ↔
    Requests settings asked name ∨
      (∀ other, ¬Requests settings asked other) ∧ manifest.defaultProject? = some name := by
  rw [projectName?_eq, orElse_eq_some_iff, requests_iff, requested_eq_none_iff]

theorem projectName?_eq_none_iff : projectName? manifest settings asked = none ↔
    (∀ other, ¬Requests settings asked other) ∧ manifest.defaultProject? = none := by
  rw [projectName?_eq, orElse_eq_none_iff, requested_eq_none_iff]

/-! ## What is selected -/

theorem exists_select_iff :
    (∃ context, select root manifest settings asked = .ok context ∧ context.projectName = name ∧
      context.project = project) ↔
    projectName? manifest settings asked = some name ∧ manifest.project? name = some project := by
  unfold select
  cases projectName? manifest settings asked with
  | none => simp
  | some other =>
    dsimp only
    cases hproject : manifest.project? other with
    | none =>
      refine iff_of_false nofun ?_
      rintro ⟨hname, hfound⟩
      rw [← Option.some.inj hname, hproject] at hfound
      cases hfound
    | some members =>
      constructor
      · rintro ⟨context, hcontext, rfl, rfl⟩
        rw [← Except.ok.inj hcontext]
        exact ⟨rfl, hproject⟩
      · rintro ⟨hname, hfound⟩
        obtain rfl := Option.some.inj hname
        rw [hproject] at hfound
        exact ⟨_, rfl, rfl, Option.some.inj hfound⟩

theorem select_eq_error_iff {fault : WorkspaceFault} : select root manifest settings asked = .error fault ↔
    (∃ name, projectName? manifest settings asked = some name ∧ manifest.project? name = none ∧
      fault = .unknownProject name) ∨
    projectName? manifest settings asked = none ∧ fault = .noApplication := by
  unfold select
  cases projectName? manifest settings asked with
  | none => simp [eq_comm]
  | some name =>
    dsimp only
    cases hproject : manifest.project? name <;> simp [hproject, eq_comm]

section

variable (h : (Json.object manifest.members).WellFormed)
include h

theorem select_chooses_iff :
    (∃ context, select root manifest settings asked = .ok context ∧ context.projectName = name ∧
      context.project = project) ↔ Chosen manifest settings asked name project := by
  rw [exists_select_iff, projectName?_eq_some_iff, defaultProject?_eq_some_iff h, project?_eq_some_iff h]
  constructor
  · rintro ⟨hrequest | ⟨hnone, hdefault | ⟨hnodefault, hfirst⟩⟩, hlists⟩
    · exact .requested hrequest hlists
    · exact .default hnone hdefault hlists
    · exact .first hnone hnodefault hfirst hlists
  · intro hchosen
    cases hchosen with
    | requested hrequest hlists => exact ⟨.inl hrequest, hlists⟩
    | default hnone hdefault hlists => exact ⟨.inr ⟨hnone, .inl hdefault⟩, hlists⟩
    | first hnone hnodefault hfirst hlists => exact ⟨.inr ⟨hnone, .inr ⟨hnodefault, hfirst⟩⟩, hlists⟩

theorem select_fails_iff {fault : WorkspaceFault} :
    select root manifest settings asked = .error fault ↔
      (∃ name, Requests settings asked name ∧ (∀ project, ¬manifest.Lists name (.object project)) ∧
        fault = .unknownProject name) ∨
      (∀ name, ¬Requests settings asked name) ∧
        (∀ name project, manifest.Lists name project → ¬IsApplication project) ∧ fault = .noApplication := by
  have hunknown : ∀ name, manifest.project? name = none ↔ ∀ project, ¬manifest.Lists name (.object project) := by
    intro name
    simp only [← project?_eq_some_iff h, Option.eq_none_iff_forall_ne_some, ne_eq]
  rw [select_eq_error_iff, projectName?_eq_none_iff, defaultProject?_eq_none_iff h, and_assoc]
  refine or_congr_left (exists_congr fun name => ?_)
  rw [projectName?_eq_some_iff, hunknown]
  refine and_congr_left fun hfault => ⟨fun hname => hname.resolve_right fun hfound => ?_, .inl⟩
  -- a name that the manifest is searched for would be found
  obtain ⟨project, hproject, -⟩ := exists_project_of_defaultProject? h hfound.2
  exact hfault.1 project ((project?_eq_some_iff h).1 hproject)

end

/-- A name that is requested is chosen if it is that of an object in the manifest, and is unknown otherwise.
Without one the default of the manifest is chosen if it names an application, else the first application, and
only if there is no application at all there is nothing to check. A name that the manifest is searched for is
never unknown. -/
theorem select_exact (h : (Json.object manifest.members).WellFormed) :
    (∀ name project, (∃ context, select root manifest settings asked = .ok context ∧
        context.projectName = name ∧ context.project = project) ↔ Chosen manifest settings asked name project) ∧
    (∀ fault, select root manifest settings asked = .error fault ↔
      (∃ name, Requests settings asked name ∧ (∀ project, ¬manifest.Lists name (.object project)) ∧
        fault = .unknownProject name) ∨
      (∀ name, ¬Requests settings asked name) ∧
        (∀ name project, manifest.Lists name project → ¬IsApplication project) ∧ fault = .noApplication) ∧
    ∀ name, manifest.defaultProject? = some name →
      ∃ project, manifest.project? name = some project ∧ IsApplication (.object project) :=
  ⟨fun _ _ => select_chooses_iff h, fun _ => select_fails_iff h,
    fun _ => exists_project_of_defaultProject? h⟩

/-- A manifest whose default is no application, and whose first project is no object. -/
def shopText : Text :=
  "\x7b\"defaultProject\": \"library\", \"projects\": \x7b\"note\": 3,
    \"library\": \x7b\"projectType\": \"library\"\x7d, \"shop\": \x7b\"projectType\": \"application\"\x7d,
    \"admin\": \x7b\"projectType\": \"application\"\x7d\x7d\x7d"

/-- The projects of `shopText`. -/
def shopProjects : Members :=
  [("note", .whole 3), ("library", .object [("projectType", .text "library")]),
    ("shop", .object [("projectType", .text "application")]),
    ("admin", .object [("projectType", .text "application")])]

/-- The manifest that `shopText` says. -/
def shopManifest : Manifest := ⟨[("defaultProject", .text "library"), ("projects", .object shopProjects)]⟩

theorem ofText_shopText : Json.ofText shopText = .ok (.object shopManifest.members) := by cbv

/-- Without a request the first application is chosen, as the default is none; and what is no object cannot be
requested. -/
theorem select_exact_shopManifest : (Json.object shopManifest.members).WellFormed ∧
    (∃ context, select ⟨.root, []⟩ shopManifest {} none = .ok context ∧ context.projectName = "shop" ∧
      context.project = [("projectType".toList, .text "application")]) ∧
    select ⟨.root, []⟩ shopManifest {} (some "note") = .error (.unknownProject "note") := by
  have hwf : (Json.object shopManifest.members).WellFormed := Json.wellFormed_ofText ofText_shopText
  refine ⟨hwf, ((select_exact hwf).1 _ _).2 ?_, ((select_exact hwf).2.1 _).2 (.inl ⟨"note", ?_, ?_, rfl⟩)⟩
  · have hnone : ∀ other, ¬Requests {} none other := by
      rintro other (⟨h, -⟩ | ⟨-, h, -⟩) <;> cases h
    have hdefault : shopManifest.declaredDefault? = none := rfl
    refine .first hnone (fun other hdeclared => ?_) ((firstApplication?_eq_some_iff hwf).1 rfl)
      ((project?_eq_some_iff hwf).1 rfl)
    rw [← declaredDefault?_eq_some_iff hwf, hdefault] at hdeclared
    cases hdeclared
  · exact .asked rfl (by decide)
  · intro project hlists
    have hproject : shopManifest.project? "note" = none := rfl
    rw [← project?_eq_some_iff hwf, hproject] at hlists
    cases hlists

/-! ## A workspace that is found -/

theorem wellFormed_of_readManifest {tree : FileTree} (h : readManifest tree root = .ok manifest) :
    (Json.object manifest.members).WellFormed := by
  obtain ⟨raw, -, hjson⟩ := readManifest_eq_ok_iff.1 h
  exact Json.wellFormed_ofText hjson

theorem of_select {context : Context} (h : select root manifest settings asked = .ok context) :
    context.manifest = manifest ∧ context.settings = settings := by
  unfold select at h
  split at h
  · cases h
  · split at h
    · cases h
    · rw [← Except.ok.inj h]
      exact ⟨rfl, rfl⟩

/-- The application of a workspace is the chosen one of its manifest. -/
theorem chosen_of_context {tree : FileTree} {here start : Path} {context : Context}
    (h : Workspace.context tree here start asked = .ok context) :
    Chosen context.manifest context.settings asked context.projectName context.project := by
  obtain ⟨root, -, h⟩ := exists_of_bind_eq_ok h
  obtain ⟨manifest, hmanifest, h⟩ := exists_of_bind_eq_ok h
  split at h
  · cases h
  · next settings notices _ =>
    obtain ⟨hsame, hsettings⟩ := of_select h
    rw [hsame, hsettings]
    exact (select_chooses_iff (wellFormed_of_readManifest hmanifest)).1 ⟨context, h, rfl, rfl⟩

end Workspace

end VerticalSlice
