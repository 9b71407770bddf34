import VerticalSlice.Command.Order

/-!
# The nearest workspace

A workspace is looked for from a folder upwards, and the nearest manifest counts: of all folders around
the start that hold one, the folder that lies in all the others. A folder that is called like a manifest
is none.

Nothing that comes after the search looks at the start again. Two starts with the same nearest manifest
are therefore starts in the same workspace, and whatever a command does there, finds there or says there
is the same for both (`findRoot_exact`).
-/

namespace VerticalSlice

open Command

namespace Path

variable {base path : Path}

theorem isBelow_iff : base.isBelow path = true ↔ base.anchor = path.anchor ∧ base.names <+: path.names := by
  rw [isBelow, Option.isSome_iff_exists]
  simp only [namesBelow?_eq_some_iff]
  exact ⟨fun ⟨rest, hanchor, hnames⟩ => ⟨hanchor, rest, hnames.symm⟩,
    fun ⟨hanchor, rest, hnames⟩ => ⟨rest, hanchor, hnames.symm⟩⟩

/-- Folders in one another are the same. -/
theorem eq_of_isBelow (h : base.isBelow path = true) (h' : path.isBelow base = true) : base = path := by
  rw [isBelow_iff] at h h'
  have hnames : base.names = path.names := h.2.eq_of_length_le h'.2.length_le
  cases base
  cases path
  rw [mk.injEq]
  exact ⟨h.1, hnames⟩

end Path

namespace Workspace

/-- The folder is the nearest one with a manifest, from `place` on upwards. -/
structure IsNearest (tree : FileTree) (place root : Path) : Prop where
  isBelow : root.isBelow place = true
  hasManifest : tree.hasFile (root.child Manifest.fileName) = true
  nearest : ∀ folder : Path, folder.isBelow place = true → tree.hasFile (folder.child Manifest.fileName) = true →
    folder.isBelow root = true

variable {tree : FileTree} {here start place root folder : Path}

theorem IsNearest.unique {other : Path} (h : IsNearest tree place root) (hother : IsNearest tree place other) :
    root = other :=
  Path.eq_of_isBelow (hother.nearest root h.isBelow h.hasManifest) (h.nearest other hother.isBelow hother.hasManifest)

/-! ## The way up -/

theorem mem_ancestors_iff : folder ∈ ancestors place ↔ folder.isBelow place = true := by
  rw [ancestors, List.mem_map, Path.isBelow_iff]
  constructor
  · rintro ⟨count, -, rfl⟩
    exact ⟨rfl, List.take_prefix ..⟩
  · rintro ⟨hanchor, hnames⟩
    refine ⟨place.names.length - folder.names.length, List.mem_range.2 (by omega), ?_⟩
    rw [Nat.sub_sub_self hnames.length_le, ← List.prefix_iff_eq_take.1 hnames, ← hanchor]

/-- On the way up every folder lies in those that come after it. -/
theorem pairwise_ancestors (place : Path) :
    (ancestors place).Pairwise fun inner outer => outer.isBelow inner = true := by
  rw [ancestors, List.pairwise_map]
  refine List.pairwise_lt_range.imp fun {first second} hlt => ?_
  exact Path.isBelow_iff.2 ⟨rfl, List.take_prefix_take_left (by omega)⟩

theorem root?_eq_none_iff : root? tree place = none ↔
    ∀ folder : Path, folder.isBelow place = true → ¬tree.hasFile (folder.child Manifest.fileName) = true := by
  rw [root?, List.find?_eq_none]
  simp only [mem_ancestors_iff]

theorem isNearest_of_root? (h : root? tree place = some root) : IsNearest tree place root := by
  obtain ⟨hmanifest, before, after, hsplit, hbefore⟩ := List.find?_eq_some_iff_append.1 h
  have hpairwise := hsplit ▸ pairwise_ancestors place
  refine ⟨mem_ancestors_iff.1 (hsplit ▸ List.mem_append_right _ (List.mem_cons_self ..)), hmanifest, ?_⟩
  intro folder hfolder hfile
  rw [← mem_ancestors_iff, hsplit, List.mem_append, List.mem_cons] at hfolder
  rcases hfolder with hfolder | rfl | hfolder
  · -- the folders before it hold no manifest
    have := hbefore folder hfolder
    rw [hfile] at this
    cases this
  · exact Path.isBelow_iff.2 ⟨rfl, List.prefix_rfl⟩
  · exact (List.pairwise_cons.1 (List.pairwise_append.1 hpairwise).2.1).1 folder hfolder

theorem root?_eq_some_iff : root? tree place = some root ↔ IsNearest tree place root := by
  refine ⟨isNearest_of_root?, fun h => ?_⟩
  cases hfound : root? tree place with
  | none => exact absurd h.hasManifest (root?_eq_none_iff.1 hfound root h.isBelow)
  | some found => rw [(isNearest_of_root? hfound).unique h]

/-! ## The search -/

theorem findRoot_eq_ok_iff (h : resolve here start = .ok place) :
    findRoot tree here start = .ok root ↔ IsNearest tree place root := by
  rw [← root?_eq_some_iff, findRoot, h]
  dsimp only
  cases root? tree place <;> simp

theorem findRoot_eq_error_iff (h : resolve here start = .ok place) {fault : WorkspaceFault} :
    findRoot tree here start = .error fault ↔ fault = .noManifest place ∧
      ∀ folder : Path, folder.isBelow place = true →
        ¬tree.hasFile (folder.child Manifest.fileName) = true := by
  rw [← root?_eq_none_iff, findRoot, h]
  dsimp only
  cases root? tree place <;> simp [eq_comm]

variable {there other : Path}

/-- What comes after the search looks at the root only. -/
theorem context_eq_of_findRoot (h : findRoot tree here start = findRoot tree there other) (asked : Option Text) :
    context tree here start asked = context tree there other asked := by
  rw [context, context, h]

theorem notices_eq_of_findRoot (h : findRoot tree here start = findRoot tree there other) :
    notices tree here start = notices tree there other := by
  rw [notices, notices, h]

theorem run_eq_of_findRoot (h : findRoot tree here start = findRoot tree there other) (job : Job)
    (asked : Option Text) (loudness : Loudness) :
    Order.run ⟨job, start, asked⟩ loudness tree here = Order.run ⟨job, other, asked⟩ loudness tree there := by
  rw [Order.run, Order.run]
  dsimp only
  rw [context_eq_of_findRoot h, notices_eq_of_findRoot h]

/-- **The start does not matter within a workspace.** The search finds the nearest folder with a manifest,
and it fails exactly if there is none around the start. Two starts with the same nearest one, in whatever
folders they are named, have the same workspace for every application that is asked for, or the same fault;
and every check, like every other job, has the same outcome on the same tree. -/
theorem findRoot_exact (h : resolve here start = .ok place) :
    (∀ root, findRoot tree here start = .ok root ↔ IsNearest tree place root) ∧
      (∀ fault, findRoot tree here start = .error fault ↔ fault = .noManifest place ∧
        ∀ folder : Path, folder.isBelow place = true →
          ¬tree.hasFile (folder.child Manifest.fileName) = true) ∧
      ∀ {there other elsewhere root : Path}, resolve there other = .ok elsewhere →
        IsNearest tree place root → IsNearest tree elsewhere root → ∀ asked,
          context tree here start asked = context tree there other asked ∧
            ∀ job loudness, Order.run ⟨job, start, asked⟩ loudness tree here =
              Order.run ⟨job, other, asked⟩ loudness tree there := by
  refine ⟨fun root => findRoot_eq_ok_iff h, fun fault => findRoot_eq_error_iff h, ?_⟩
  intro there other elsewhere root hother hroot hroot' asked
  have hsame : findRoot tree here start = findRoot tree there other := by
    rw [(findRoot_eq_ok_iff h).2 hroot, (findRoot_eq_ok_iff hother).2 hroot']
  exact ⟨context_eq_of_findRoot hsame asked, fun job loudness => run_eq_of_findRoot hsame job asked loudness⟩

/-! ## A workspace within another one -/

/-- A workspace in a folder of another one. In one of its folders there is a folder that is called like a
manifest. -/
def nestedWorkspaces : FileTree :=
  .folder [("angular.json", .file []),
    ("shop", .folder [("angular.json", .file []),
      ("apps", .folder [("angular.json", .folder []), ("web", .folder [])])])]

/-- From the folder with that folder in it, and from another one that is named in a roundabout way, it is the
inner workspace. -/
theorem findRoot_nested :
    resolve ⟨.root, ["shop"]⟩ ⟨.relative, ["apps"]⟩ = .ok ⟨.root, ["shop", "apps"]⟩ ∧
      findRoot nestedWorkspaces ⟨.root, ["shop"]⟩ ⟨.relative, ["apps"]⟩ = .ok ⟨.root, ["shop"]⟩ ∧
      resolve ⟨.root, []⟩ ⟨.relative, ["shop", "apps", "..", "apps", "web"]⟩ =
        .ok ⟨.root, ["shop", "apps", "web"]⟩ ∧
      IsNearest nestedWorkspaces ⟨.root, ["shop", "apps"]⟩ ⟨.root, ["shop"]⟩ ∧
      IsNearest nestedWorkspaces ⟨.root, ["shop", "apps", "web"]⟩ ⟨.root, ["shop"]⟩ ∧
      ∀ asked, context nestedWorkspaces ⟨.root, ["shop"]⟩ ⟨.relative, ["apps"]⟩ asked =
        context nestedWorkspaces ⟨.root, []⟩ ⟨.relative, ["shop", "apps", "..", "apps", "web"]⟩ asked := by
  have hstart : resolve ⟨.root, ["shop"]⟩ ⟨.relative, ["apps"]⟩ = .ok ⟨.root, ["shop", "apps"]⟩ := rfl
  have hother : resolve ⟨.root, []⟩ ⟨.relative, ["shop", "apps", "..", "apps", "web"]⟩ =
      .ok ⟨.root, ["shop", "apps", "web"]⟩ := rfl
  have hroot : IsNearest nestedWorkspaces ⟨.root, ["shop", "apps"]⟩ ⟨.root, ["shop"]⟩ := isNearest_of_root? rfl
  have hroot' : IsNearest nestedWorkspaces ⟨.root, ["shop", "apps", "web"]⟩ ⟨.root, ["shop"]⟩ :=
    isNearest_of_root? rfl
  obtain ⟨hok, -, hsame⟩ := @findRoot_exact nestedWorkspaces _ _ _ hstart
  exact ⟨hstart, (hok _).2 hroot, hother, hroot, hroot', fun asked => (hsame hother hroot hroot' asked).1⟩

end Workspace

end VerticalSlice
