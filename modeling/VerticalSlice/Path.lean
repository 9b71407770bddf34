import VerticalSlice.Text.Basic
import VerticalSlice.Text.Search

/-!
# Paths

A path is a way through folders, given by the names along it. Empty names and the name `.` add
nothing to the way and are dropped when a path is read, but `..` is kept, because what it leads to
is only known when the way is walked. `normalize` takes it to lead back to the folder before.
-/

namespace VerticalSlice

/-- Where a path starts. A path that begins with exactly two slashes keeps both. -/
inductive Anchor
  | relative
  | root
  | doubleRoot
deriving DecidableEq, Repr

/-- A starting point and the names on the way from it. -/
structure Path where
  anchor : Anchor
  names : List Text
deriving DecidableEq, Repr

/-- The name that leads back to the enclosing folder. -/
def parentName : Text := ['.', '.']

namespace Path

/-- The leading slashes of a written path. -/
def Anchor.ofText : Text → Anchor
  | '/' :: '/' :: '/' :: _ => .root
  | '/' :: '/' :: _ => .doubleRoot
  | '/' :: _ => .root
  | _ => .relative

/-- The names between the slashes that lead somewhere. -/
def namesOfText (text : Text) : List Text :=
  (Text.splitOn '/' text).filter fun name => name ≠ [] && name ≠ ['.']

/-- Reads a written path. -/
def ofText (text : Text) : Path := ⟨Anchor.ofText text, namesOfText text⟩

/-- How the starting point is written. -/
def anchorText : Anchor → Text
  | .relative => []
  | .root => ['/']
  | .doubleRoot => ['/', '/']

/-- The written form; the empty relative path is written as a dot. -/
def toText (path : Path) : Text :=
  match path with
  | ⟨.relative, []⟩ => ['.']
  | ⟨anchor, names⟩ => anchorText anchor ++ Text.joinWith ['/'] names

/-- The path of `rest` taken from `base`; an absolute `rest` leaves `base` behind. -/
def join (base rest : Path) : Path :=
  match rest.anchor with
  | .relative => ⟨base.anchor, base.names ++ rest.names⟩
  | _ => rest

/-- The path of an entry inside a folder. -/
def child (folder : Path) (name : Text) : Path := ⟨folder.anchor, folder.names ++ [name]⟩

/-- The path without its last name. -/
def parent (path : Path) : Path := ⟨path.anchor, path.names.dropLast⟩

/-- The last name on the way, empty if there is none. -/
def fileName (path : Path) : Text := path.names.getLastD []

/-- The end of a file name from its last dot on. A dot in front of everything or behind everything
starts no extension. -/
def extensionOf (name : Text) : Text :=
  match Text.splitAtLast ['.'] name with
  | some (_ :: _, dot :: c :: rest) => dot :: c :: rest
  | _ => []

/-- The extension of the last name. -/
def extension (path : Path) : Text := extensionOf path.fileName

/-- The names that lead from `base` to `path`, when `path` continues `base` name by name. -/
def namesBelow? (base path : Path) : Option (List Text) :=
  if base.anchor = path.anchor && base.names.isPrefixOf path.names then
    some (path.names.drop base.names.length)
  else none

/-- Is `path` the folder `base` itself or below it? -/
def isBelow (base path : Path) : Bool := (namesBelow? base path).isSome

/-- One more name on a way that has no turning back left in it, except at its start when the way
is relative. -/
def step (absolute : Bool) (way : List Text) (name : Text) : List Text :=
  if name ≠ parentName then way ++ [name]
  else if way = [] then (if absolute then [] else [name])
  else if way.getLast? = some parentName then way ++ [name]
  else way.dropLast

/-- The same way with every `..` taken to undo the name before it. At the root there is nothing to
undo; a relative way keeps the ones at its start. -/
def normalize (path : Path) : Path :=
  ⟨path.anchor, path.names.foldl (step (path.anchor ≠ .relative)) []⟩

theorem namesBelow?_eq_some_iff {base path : Path} {rest : List Text} :
    namesBelow? base path = some rest ↔
      base.anchor = path.anchor ∧ path.names = base.names ++ rest := by
  unfold namesBelow?
  constructor
  · intro h
    split at h
    · next hb =>
      simp only [Bool.and_eq_true, decide_eq_true_eq, List.isPrefixOf_iff_prefix] at hb
      obtain ⟨hanchor, tail, htail⟩ := hb
      simp only [Option.some.injEq] at h
      subst h
      simp [hanchor, ← htail]
    · simp at h
  · rintro ⟨hanchor, hnames⟩
    simp [hanchor, hnames, List.isPrefixOf_iff_prefix]

end Path

end VerticalSlice
