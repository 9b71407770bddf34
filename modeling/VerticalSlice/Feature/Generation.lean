import VerticalSlice.Feature.Registration
import VerticalSlice.Feature.Template
import VerticalSlice.Workspace.Context

/-!
# Generating a feature

A new feature gets a folder with its files in it, and on request an entry in the route table of the
application. Files that are there already are only replaced on request. The steps are taken one
after the other, and when one of them fails the ones before it stay done.
-/

namespace VerticalSlice.Feature

/-- What to generate, and how. -/
structure Request where
  name : Text
  /-- The path of the route; the hyphenated name if none is given. -/
  route : Option Text := none
  /-- Put the route into the table of the application? -/
  register : Bool := false
  /-- Replace files that are there already? -/
  overwrite : Bool := false

/-- What was generated. -/
structure Generated where
  name : FeatureName
  folder : Path
  files : List Path
  /-- The route that was to be put into the table. -/
  route : Option Text
  /-- Did the table have the route already? -/
  alreadyPresent : Bool

/-- Why a feature could not be generated. -/
inductive GenerationFault
  | badName (name : Text)
  | wouldOverwrite (file : Text)
  | file (fault : FileFault)
  | registration (fault : RegistrationFault)

/-- The fault in words. -/
def GenerationFault.message : GenerationFault → Text
  | .badName name => FeatureName.rejection name
  | .wouldOverwrite shown =>
    Text.concat ["Refusing to overwrite existing file: ", shown, "\nUse --overwrite to force."]
  | .file fault => fault.message
  | .registration fault => fault.message

/-- The folder of a feature. -/
def folder (context : Context) (name : FeatureName) : Path :=
  context.featuresFolder.child name.kebab

/-- The files of a feature with their paths. -/
def files (context : Context) (name : FeatureName) : List (Path × Text) :=
  (render name).map fun (file, text) => ((folder context name).child file, text)

/-- Writes files one after the other, up to the first that cannot be written. -/
def writeAll (tree : FileTree) : List (Path × Text) → FileTree × Except FileFault Unit
  | [] => (tree, .ok ())
  | (path, text) :: rest =>
    match tree.writeText path text with
    | .error fault => (tree, .error fault)
    | .ok written => writeAll written rest

/-- The first of the files that is there already. -/
def existing? (tree : FileTree) (files : List (Path × Text)) : Option Path :=
  (files.find? fun file => tree.hasEntry file.1).map (·.1)

/-- Makes the folder of a feature and writes its files. -/
def writeFeature (context : Context) (tree : FileTree) (name : FeatureName) :
    FileTree × Except FileFault Unit :=
  match tree.makeFolders (folder context name) with
  | (changed, .error fault) => (changed, .error fault)
  | (changed, .ok ()) => writeAll changed (files context name)

/-- The path of the route that the request asks for. -/
def Request.routePath (request : Request) (name : FeatureName) : Text :=
  request.route.getD name.kebab

/-- What there is to say when the files of a feature are written. -/
def generated (context : Context) (name : FeatureName) (route : Option Text)
    (alreadyPresent : Bool) : Generated :=
  { name := name
    folder := folder context name
    files := (files context name).map (·.1)
    route := route
    alreadyPresent := alreadyPresent }

/-- Generates a feature under an accepted name. -/
def generateNamed (context : Context) (tree : FileTree) (name : FeatureName) (request : Request) :
    FileTree × Except GenerationFault Generated :=
  match writeFeature context tree name with
  | (changed, .error fault) => (changed, .error (.file fault))
  | (changed, .ok ()) =>
    if request.register then
      let route := request.routePath name
      match register changed context.appRoutes route name with
      | .error fault => (changed, .error (.registration fault))
      | .ok (registered, present) =>
        (registered, .ok (generated context name (some route) present))
    else (changed, .ok (generated context name none false))

/-- Generates a feature: the tree as it is afterwards, and what was done or why it was not. -/
def generate (context : Context) (tree : FileTree) (request : Request) :
    FileTree × Except GenerationFault Generated :=
  match FeatureName.ofText? request.name with
  | none => (tree, .error (.badName request.name))
  | some name =>
    match if request.overwrite then none else existing? tree (files context name) with
    | some path => (tree, .error (.wouldOverwrite (context.relative path)))
    | none => generateNamed context tree name request

/-- What is told while a feature is generated. -/
def notices (context : Context) (tree : FileTree) (request : Request) : List Notice :=
  match FeatureName.ofText? request.name with
  | none => []
  | some name =>
    if !request.overwrite && (existing? tree (files context name)).isSome then []
    else
      match writeFeature context tree name with
      | (_, .error _) => []
      | (changed, .ok ()) =>
        ⟨.info, .scaffold, Text.concat ["Created feature ", name.kebab, " (",
          Text.ofNat (files context name).length, " files)"]⟩ ::
          if request.register && changed.hasFile context.appRoutes then
            registrationNotices changed context.appRoutes (request.routePath name)
          else []

end VerticalSlice.Feature
