import VerticalSlice.Path
import VerticalSlice.Workspace.Context
import VerticalSlice.Proofs.Tree.WellFormed

/-!
# Paths that are written and read

A path that has been read has names of a simple form, and written out it reads as itself again
(`ofText_toText`). The paths of a workspace are such paths, and so a path that is shown from the
root of the workspace leads from there to where it led before (`join_ofText_relative`).
-/

namespace VerticalSlice

open Text

/-- Can the name stand between the slashes of a written path? -/
def IsStep (name : Text) : Prop := name ≠ [] ∧ name ≠ ['.'] ∧ '/' ∉ name

instance : DecidablePred IsStep := fun name =>
  inferInstanceAs (Decidable (name ≠ [] ∧ name ≠ ['.'] ∧ '/' ∉ name))

theorem IsName.isStep {name : Text} (h : IsName name) : IsStep name := ⟨h.1, h.2.1, h.2.2.2.1⟩

namespace Text

variable {separator : Char} {text rest : Text}

theorem splitOn_append_cons (h : separator ∉ text) :
    splitOn separator (text ++ separator :: rest) = text :: splitOn separator rest := by
  induction text with
  | nil => rw [List.nil_append, splitOn, if_pos rfl]
  | cons c text ih =>
    rw [List.mem_cons, not_or] at h
    rw [List.cons_append, splitOn, if_neg (Ne.symm h.1), ih h.2]

theorem notMem_of_mem_splitOn {piece : Text} (h : piece ∈ splitOn separator text) :
    separator ∉ piece := by
  induction text generalizing piece with
  | nil =>
    rw [splitOn, List.mem_singleton] at h
    rw [h]
    exact List.not_mem_nil
  | cons c text ih =>
    rw [splitOn] at h
    split at h
    · rcases List.mem_cons.1 h with rfl | h
      · exact List.not_mem_nil
      · exact ih h
    · next hc =>
      split at h
      · rw [List.mem_singleton.1 h, List.mem_singleton]
        exact Ne.symm hc
      · next first pieces hsplit =>
        rcases List.mem_cons.1 h with rfl | h
        · rw [List.mem_cons, not_or]
          exact ⟨Ne.symm hc, ih (hsplit ▸ List.mem_cons_self ..)⟩
        · exact ih (hsplit ▸ List.mem_cons_of_mem _ h)

theorem joinWith_cons_cons (glue piece next : Text) (more : List Text) :
    joinWith glue (piece :: next :: more) = piece ++ (glue ++ joinWith glue (next :: more)) := rfl

theorem joinWith_singleton (glue piece : Text) : joinWith glue [piece] = piece := by
  rw [joinWith, List.intersperse_singleton, List.flatten_singleton]

theorem splitOn_joinWith {pieces : List Text} (hne : pieces ≠ [])
    (h : ∀ piece ∈ pieces, separator ∉ piece) :
    splitOn separator (joinWith [separator] pieces) = pieces := by
  induction pieces with
  | nil => exact absurd rfl hne
  | cons piece more ih =>
    have hpiece := h piece (List.mem_cons_self ..)
    cases more with
    | nil =>
      rw [joinWith, List.intersperse_singleton, List.flatten_singleton, splitOn_of_notMem hpiece]
    | cons next more =>
      have hjoin : joinWith [separator] (piece :: next :: more) =
          piece ++ separator :: joinWith [separator] (next :: more) := rfl
      rw [hjoin, splitOn_append_cons hpiece,
        ih (List.cons_ne_nil _ _) fun other hother => h other (List.mem_cons_of_mem _ hother)]

end Text

namespace Path

variable {names : List Text}

/-- Is every name of a simple form? -/
def Written (path : Path) : Prop := ∀ name ∈ path.names, IsStep name

theorem written_ofText (text : Text) : (ofText text).Written := by
  intro name hname
  rw [ofText, namesOfText, List.mem_filter] at hname
  have hkept := hname.2
  simp only [ne_eq, Bool.and_eq_true, decide_eq_true_eq] at hkept
  exact ⟨hkept.1, hkept.2, notMem_of_mem_splitOn hname.1⟩

theorem written_append {anchor : Anchor} {more : List Text} (h : ∀ name ∈ names, IsStep name)
    (hmore : ∀ name ∈ more, IsStep name) : Written ⟨anchor, names ++ more⟩ := fun name hname =>
  (List.mem_append.1 hname).elim (h name) (hmore name)

theorem Written.join {base rest : Path} (hbase : base.Written) (hrest : rest.Written) :
    (base.join rest).Written := by
  unfold Path.join
  split
  · exact written_append hbase hrest
  · exact hrest

theorem namesOfText_joinWith (h : ∀ name ∈ names, IsStep name) :
    namesOfText (joinWith ['/'] names) = names := by
  cases names with
  | nil => rfl
  | cons name more =>
    rw [namesOfText, splitOn_joinWith (List.cons_ne_nil _ _) fun other hother => (h other hother).2.2,
      List.filter_eq_self]
    intro other hother
    simp [(h other hother).1, (h other hother).2.1]

theorem head?_joinWith (h : ∀ name ∈ names, IsStep name) :
    ∀ c ∈ (joinWith ['/'] names).head?, c ≠ '/' := by
  cases names with
  | nil => exact fun c hc => by cases hc
  | cons name more =>
    have hname := h name (List.mem_cons_self ..)
    obtain ⟨d, rest, rfl⟩ := List.exists_cons_of_ne_nil hname.1
    have hhead : (joinWith ['/'] ((d :: rest) :: more)).head? = some d := by
      cases more <;> rfl
    rintro c hc rfl
    rw [hhead, Option.mem_some_iff] at hc
    exact hname.2.2 (hc ▸ List.mem_cons_self ..)

theorem anchor_ofText {text : Text} (h : ∀ c ∈ text.head?, c ≠ '/') (anchor : Anchor) :
    Anchor.ofText (anchorText anchor ++ text) = anchor := by
  cases text with
  | nil => cases anchor <;> rfl
  | cons c rest =>
    have hc : c ≠ '/' := h c rfl
    cases anchor <;> simp [anchorText, Anchor.ofText, hc]

/-- A path whose names are of a simple form is read as it is written. -/
theorem ofText_toText {path : Path} (h : path.Written) : ofText path.toText = path := by
  obtain ⟨anchor, names⟩ := path
  have hnames : namesOfText (anchorText anchor ++ joinWith ['/'] names) = names := by
    cases anchor <;> exact namesOfText_joinWith h
  have hread : ofText (anchorText anchor ++ joinWith ['/'] names) = ⟨anchor, names⟩ := by
    rw [ofText, anchor_ofText (head?_joinWith h), hnames]
  unfold toText
  split
  · next heq =>
    rw [heq]
    rfl
  · next heq =>
    cases heq
    exact hread

end Path

/-! ## The paths of a workspace -/

namespace Context

variable {context : Context} {path rest : Path} {more : List Text}

theorem join_append (base rest : Path) (more : List Text) :
    base.join ⟨rest.anchor, rest.names ++ more⟩ =
      ⟨(base.join rest).anchor, (base.join rest).names ++ more⟩ := by
  obtain ⟨anchor, names⟩ := rest
  cases anchor with
  | relative => exact congrArg (Path.mk base.anchor) (List.append_assoc ..).symm
  | root | doubleRoot => rfl

/-- A path as it is shown leads, from the root of the workspace, to where the path leads. -/
theorem join_ofText_relative (hrest : rest.Written) (hpath : context.root.join rest = path) :
    context.root.join (Path.ofText (context.relative path)) = path := by
  have hbelow : ∀ names, context.root.namesBelow? path = some names → (∀ name ∈ names, IsStep name) →
      context.root.join (Path.ofText (Path.mk .relative names).toText) = path := by
    intro names hnames hsteps
    have hwritten : (Path.mk .relative names).Written := hsteps
    obtain ⟨hanchor, hsplit⟩ := Path.namesBelow?_eq_some_iff.1 hnames
    obtain ⟨anchor, names⟩ := path
    rw [Path.ofText_toText hwritten]
    cases hanchor
    cases hsplit
    rfl
  by_cases hanchor : rest.anchor = .relative
  · have hnames : context.root.namesBelow? path = some rest.names := by
      obtain ⟨anchor, names⟩ := rest
      cases hanchor
      exact Path.namesBelow?_eq_some_iff.2 (hpath ▸ ⟨rfl, rfl⟩)
    rw [relative, hnames]
    exact hbelow rest.names hnames hrest
  · have habsolute : ∀ base : Path, base.join rest = rest := by
      intro base
      obtain ⟨anchor, names⟩ := rest
      cases anchor with
      | relative => exact absurd rfl hanchor
      | root | doubleRoot => rfl
    obtain rfl : rest = path := (habsolute _).symm.trans hpath
    rw [relative]
    split
    · next names hnames =>
      refine hbelow names hnames fun name hname => hrest name ?_
      rw [(Path.namesBelow?_eq_some_iff.1 hnames).2]
      exact List.mem_append_right _ hname
    · rw [Path.ofText_toText hrest, habsolute]

/-- The sources are where a written path leads from the root of the workspace. -/
def IsRooted (context : Context) : Prop :=
  ∃ text, context.sourceRoot = context.root.join (Path.ofText text)

/-- Below the sources every path is shown so that it leads there. -/
theorem IsRooted.join_ofText_relative (h : context.IsRooted) (hmore : ∀ name ∈ more, IsStep name) :
    context.root.join (Path.ofText (context.relative
      ⟨context.sourceRoot.anchor, context.sourceRoot.names ++ more⟩)) =
        ⟨context.sourceRoot.anchor, context.sourceRoot.names ++ more⟩ := by
  obtain ⟨text, htext⟩ := h
  have hwritten : (Path.mk (Path.ofText text).anchor ((Path.ofText text).names ++ more)).Written :=
    Path.written_append (Path.written_ofText text) hmore
  refine Context.join_ofText_relative hwritten ?_
  rw [htext, join_append]

/-- Two places below the sources are told apart by how they are shown. -/
theorem IsRooted.eq_of_relative_eq (h : context.IsRooted) {other : List Text}
    (hmore : ∀ name ∈ more, IsStep name) (hother : ∀ name ∈ other, IsStep name)
    (heq : context.relative ⟨context.sourceRoot.anchor, context.sourceRoot.names ++ more⟩ =
      context.relative ⟨context.sourceRoot.anchor, context.sourceRoot.names ++ other⟩) :
    more = other := by
  have hpaths := h.join_ofText_relative hmore
  rw [heq, h.join_ofText_relative hother] at hpaths
  exact (List.append_cancel_left (congrArg Path.names hpaths)).symm

/-- Does the path lead to something below the sources? -/
def IsSource (context : Context) (path : Path) : Prop :=
  ∃ more, (∀ name ∈ more, IsStep name) ∧
    path = ⟨context.sourceRoot.anchor, context.sourceRoot.names ++ more⟩

theorem IsSource.append (h : context.IsSource path) {names : List Text}
    (hnames : ∀ name ∈ names, IsStep name) : context.IsSource ⟨path.anchor, path.names ++ names⟩ := by
  obtain ⟨more, hmore, rfl⟩ := h
  refine ⟨more ++ names, fun name hname => ?_, ?_⟩
  · exact (List.mem_append.1 hname).elim (hmore name) (hnames name)
  · rw [List.append_assoc]

theorem IsSource.child (h : context.IsSource path) {name : Text} (hname : IsStep name) :
    context.IsSource (path.child name) :=
  h.append (List.forall_mem_singleton.2 hname)

theorem isSource_appFolder (context : Context) : context.IsSource context.appFolder :=
  ⟨["app".toList], List.forall_mem_singleton.2 (by decide), rfl⟩

theorem isSource_featuresFolder (context : Context) : context.IsSource context.featuresFolder :=
  (isSource_appFolder context).child (by decide)

/-- The files of features lie below the sources. -/
theorem isSource_of_feature (context : Context) {feature file : Text} (hfeature : IsName feature)
    (hfile : IsName file) :
    context.IsSource ((context.featuresFolder.child feature).child file) :=
  ((isSource_featuresFolder context).child hfeature.isStep).child hfile.isStep

/-- What lies below the sources is told apart by how it is shown. -/
theorem IsRooted.eq_of_isSource (h : context.IsRooted) {other : Path} (hpath : context.IsSource path)
    (hother : context.IsSource other) (heq : context.relative path = context.relative other) :
    path = other := by
  obtain ⟨more, hmore, rfl⟩ := hpath
  obtain ⟨rest, hrest, rfl⟩ := hother
  rw [h.eq_of_relative_eq hmore hrest heq]

/-- Where a place below the sources lies in the workspace, it is shown by the names that lead to it from the root. -/
theorem IsRooted.names_eq_append (h : context.IsRooted) (hpath : context.IsSource path)
    (hbelow : context.root.isBelow path = true) :
    path.names = context.root.names ++ Path.namesOfText (context.relative path) := by
  obtain ⟨text, htext⟩ := h
  obtain ⟨more, hmore, rfl⟩ := hpath
  obtain ⟨names, hnames⟩ := Option.isSome_iff_exists.1 hbelow
  obtain ⟨-, hsplit⟩ := Path.namesBelow?_eq_some_iff.1 hnames
  have hsteps : (Path.mk .relative ((Path.ofText text).names ++ more)).Written :=
    Path.written_append (Path.written_ofText text) hmore
  have hwritten : (Path.mk .relative names).Written := by
    intro name hname
    refine hsteps name ?_
    rw [htext] at hsplit
    dsimp only at hsplit
    cases hanchor : (Path.ofText text).anchor with
    | relative =>
      rw [Path.join, hanchor, List.append_assoc] at hsplit
      exact List.append_cancel_left hsplit ▸ hname
    | root | doubleRoot =>
      rw [Path.join, hanchor] at hsplit
      exact hsplit ▸ List.mem_append_right _ hname
  have hread : Path.namesOfText (Path.mk .relative names).toText = names :=
    congrArg Path.names (Path.ofText_toText hwritten)
  rw [relative, hnames]
  dsimp only
  rw [hread]
  exact hsplit

end Context

namespace Workspace

variable {tree : FileTree} {here start : Path} {asked : Option Text} {found : Context}

theorem exists_of_bind_eq_ok {ε α β : Type} {first : Except ε α} {next : α → Except ε β} {b : β}
    (h : first >>= next = .ok b) : ∃ a, first = .ok a ∧ next a = .ok b := by
  cases first with
  | error fault => cases h
  | ok a => exact ⟨a, rfl, h⟩

theorem isRooted_of_select {root : Path} {manifest : Manifest} {settings : Settings}
    (h : select root manifest settings asked = .ok found) : found.IsRooted := by
  unfold select at h
  split at h
  · cases h
  · split at h
    · cases h
    · next project _ =>
      rw [← Except.ok.inj h]
      exact ⟨sourceRootOf project, rfl⟩

/-- A workspace is always found so. -/
theorem isRooted_of_context (h : context tree here start asked = .ok found) : found.IsRooted := by
  obtain ⟨root, -, h⟩ := exists_of_bind_eq_ok h
  obtain ⟨manifest, -, h⟩ := exists_of_bind_eq_ok h
  split at h
  · cases h
  · exact isRooted_of_select h

end Workspace

end VerticalSlice
