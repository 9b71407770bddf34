import VerticalSlice.Json.Value

/-!
# The manifest of a workspace

The manifest is a JSON object that lists the projects of a workspace. A project is chosen by name,
or else the manifest says which application is meant: the default project if it is an application,
and the first application otherwise.
-/

namespace VerticalSlice

/-- The members of a JSON object. -/
abbrev Members := List (Text × Json)

/-- The manifest of a workspace. -/
structure Manifest where
  members : Members

namespace Manifest

/-- The name of the file that holds the manifest. -/
def fileName : Text := "angular.json"

/-- The projects by name, in the order of the manifest. -/
def projects (manifest : Manifest) : Members :=
  match manifest.members.lookup ("projects" : Text) with
  | some (.object projects) => projects
  | _ => []

/-- Is the value the description of an application? -/
def isApplication (project : Json) : Bool :=
  match project.member? "projectType" with
  | some (.text kind) => kind = "application"
  | _ => false

/-- The name under `defaultProject`, if it is that of an application. -/
def declaredDefault? (manifest : Manifest) : Option Text :=
  match manifest.members.lookup ("defaultProject" : Text) with
  | some (.text name) =>
    if (manifest.projects.lookup name).any isApplication then some name else none
  | _ => none

/-- The first application of the manifest. -/
def firstApplication? (manifest : Manifest) : Option Text :=
  (manifest.projects.find? fun project => isApplication project.2).map (·.1)

/-- The application that is meant when none is named. -/
def defaultProject? (manifest : Manifest) : Option Text :=
  manifest.declaredDefault? <|> manifest.firstApplication?

/-- The description of a project, if it is an object. -/
def project? (manifest : Manifest) (name : Text) : Option Members :=
  match manifest.projects.lookup name with
  | some (.object project) => some project
  | _ => none

end Manifest

end VerticalSlice
