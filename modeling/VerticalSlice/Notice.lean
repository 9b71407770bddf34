import VerticalSlice.Text.Basic

/-!
# Notices

Besides its result the program has things to tell about what it is doing. Each of them has a level,
and the part of the program that it comes from; how many of them are shown is for the reader to
say.
-/

namespace VerticalSlice

/-- How much a notice matters. -/
inductive Level
  | debug
  | info
  | warning
  | error
deriving DecidableEq, Repr

namespace Level

/-- The place of the level in the order of importance. -/
def rank : Level → Nat
  | .debug => 0
  | .info => 1
  | .warning => 2
  | .error => 3

def name : Level → Text
  | .debug => "DEBUG"
  | .info => "INFO"
  | .warning => "WARNING"
  | .error => "ERROR"

end Level

/-- The parts of the program that have something to tell. -/
inductive Origin
  | workspace
  | syntaxTree
  | structureCheck
  | appRoutesCheck
  | featureRoutesCheck
  | importsCheck
  | colorsCheck
  | scaffold
deriving DecidableEq, Repr

/-- The name under which a part speaks. -/
def Origin.name : Origin → Text
  | .workspace => "sliceguard.workspace"
  | .syntaxTree => "sliceguard.syntax"
  | .structureCheck => "sliceguard.checks.structure"
  | .appRoutesCheck => "sliceguard.checks.app_routes"
  | .featureRoutesCheck => "sliceguard.checks.feature_routes"
  | .importsCheck => "sliceguard.checks.cross_feature"
  | .colorsCheck => "sliceguard.checks.raw_colors"
  | .scaffold => "sliceguard.scaffold"

/-- Something worth telling. -/
structure Notice where
  level : Level
  origin : Origin
  message : Text
deriving DecidableEq, Repr

/-- The notice with its level and its origin. -/
def Notice.toText (notice : Notice) : Text :=
  Text.concat [notice.level.name, " ", notice.origin.name, ": ", notice.message]

end VerticalSlice
