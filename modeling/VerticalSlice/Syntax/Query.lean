import VerticalSlice.Syntax.Tree

/-!
# Questions about a syntax tree

What the checks want to know of a source file: its quoted literals, the properties of its objects,
the arrays it exports, the modules it imports and the names it uses. Comments never count.
-/

namespace VerticalSlice.Syntax

/-! ## Literals -/

/-- The text without its first and its last character. -/
def inner (text : Text) : Text := (text.drop 1).dropLast

namespace Node

/-- The contents of a quoted literal, as they are written. -/
def stringValue? (node : Node) : Option Text :=
  if node.kind = .string then some (inner node.text) else none

/-- The contents of a quoted literal or of a template. -/
def literal? (node : Node) : Option Text :=
  if node.kind = .string || node.kind = .templateString then some (inner node.text) else none

/-- The contents of all quoted literals and templates, with their lines. -/
def literals (root : Node) : List (Text × Nat) :=
  root.walk.filterMap fun node => node.literal?.map (·, node.line)

/-- Does a quoted literal of the tree have these contents? -/
def containsString (root : Node) (value : Text) : Bool :=
  (root.find? fun node => node.stringValue? = some value).isSome

/-! ## Names -/

/-- Is the node an identifier of any sort? -/
def isIdentifier (node : Node) : Bool :=
  node.kind = .identifier || node.kind = .propertyIdentifier || node.kind = .typeIdentifier ||
    node.kind = .shorthandPropertyIdentifier

/-- Is the name used anywhere in the tree? -/
def containsIdentifier (root : Node) (name : Text) : Bool :=
  (root.find? fun node => node.isIdentifier && node.text = name).isSome

/-! ## Arrays and objects -/

/-- The elements of an array. -/
def elements (array : Node) : List Node :=
  array.namedChildren.filter fun child => child.kind ≠ .comment

/-- The name of a property, if its key is a plain name or a quoted literal. -/
def propertyName? (key : Node) : Option Text :=
  if key.kind = .propertyIdentifier then some key.text else key.stringValue?

/-- The pairs of an object, with the names of their keys. -/
def pairs (object : Node) : List (Option Text × Option Node) :=
  (object.namedChildren.filter fun child => child.kind = .pair).map fun pair =>
    ((pair.child? .key).bind propertyName?, pair.child? .value)

/-- Does the object give a value to the property? -/
def hasProperty (object : Node) (name : Text) : Bool :=
  object.pairs.any fun pair => pair.1 = some name

/-- The value that the object first gives to the property. -/
def property? (object : Node) (name : Text) : Option Node :=
  (object.pairs.find? fun pair => pair.1 = some name).bind (·.2)

/-- The contents of the quoted literal that the object first gives to the property. -/
def propertyString? (object : Node) (name : Text) : Option Text :=
  (object.property? name).bind stringValue?

/-! ## Exported arrays -/

end Node

/-- An array that a variable of an export is bound to. -/
structure ExportedArray where
  name : Text
  array : Node

/-- The line on which the array starts. -/
def ExportedArray.line (exported : ExportedArray) : Nat := exported.array.line

namespace Node

/-- The array that a variable is directly bound to. -/
def boundArray? (declarator : Node) : Option ExportedArray := do
  let name ← declarator.child? .name
  let value ← declarator.child? .value
  if declarator.kind = .variableDeclarator && name.kind = .identifier && value.kind = .array then
    some ⟨name.text, value⟩
  else none

/-- The arrays that the variables of an export statement are bound to. -/
def arraysOfExport (node : Node) : List ExportedArray :=
  if node.kind = .exportStatement then
    match node.child? .declaration with
    | some declaration =>
      if declaration.kind = .lexicalDeclaration || declaration.kind = .variableDeclaration then
        declaration.namedChildren.filterMap boundArray?
      else []
    | none => []
  else []

/-- All exported arrays of the tree. -/
def exportedArrays (root : Node) : List ExportedArray := root.walk.flatMap arraysOfExport

/-- The first array that is exported under this name. -/
def exportedArray? (root : Node) (name : Text) : Option ExportedArray :=
  root.exportedArrays.find? fun exported => exported.name = name

end Node

/-! ## Imports -/

/-- How a statement or a call refers to a module. -/
inductive ImportKind
  | static
  | reExport
  | deferred
deriving DecidableEq, Repr

/-- A reference to a module: what is written, on which line it starts, and of what kind it is. -/
structure ImportReference where
  specifier : Text
  line : Nat
  kind : ImportKind
deriving DecidableEq, Repr

namespace Node

/-- The first argument of a call of `import`. -/
def deferredArgument? (node : Node) : Option Node := do
  if node.kind = .callExpression then
    let function ← node.child? .function
    if function.kind = .importKeyword then
      let arguments ← node.child? .arguments
      arguments.namedChildren.find? fun child => child.kind ≠ .comment
    else none
  else none

/-- The module that a node loads when it is run. -/
def deferredTarget? (node : Node) : Option Text := node.deferredArgument?.bind stringValue?

/-- The modules that are loaded by calls of `import` in the tree. -/
def deferredImports (root : Node) : List Text := root.walk.filterMap deferredTarget?

/-- Does some deferred import in the tree have a target with the property? -/
def hasDeferredImport (root : Node) (accept : Text → Bool) : Bool :=
  root.deferredImports.any accept

/-- The reference to a module that the node itself is. -/
def importReference? (includeDeferred : Bool) (node : Node) : Option ImportReference :=
  if node.kind = .importStatement then
    ((node.child? .source).bind stringValue?).map fun specifier => ⟨specifier, node.line, .static⟩
  else if node.kind = .exportStatement then
    ((node.child? .source).bind stringValue?).map fun specifier =>
      ⟨specifier, node.line, .reExport⟩
  else if includeDeferred then
    node.deferredTarget?.map fun specifier => ⟨specifier, node.line, .deferred⟩
  else none

/-- All references to modules in the tree. -/
def importReferences (root : Node) (includeDeferred : Bool) : List ImportReference :=
  root.walk.filterMap (importReference? includeDeferred)

/-- The references of import statements. -/
def staticImports (root : Node) : List ImportReference :=
  (root.importReferences false).filter fun reference => reference.kind = .static

end Node

end VerticalSlice.Syntax
