import VerticalSlice.Rule.AppRoutes
import VerticalSlice.Rule.FeatureImports
import VerticalSlice.Rule.FeatureRoutes
import VerticalSlice.Rule.RawColors
import VerticalSlice.Rule.Structure

/-!
# The checks

A workspace goes through five checks, each of which looks at it on its own.
-/

namespace VerticalSlice

/-- A check. -/
inductive Check
  | layout
  | appRoutes
  | featureRoutes
  | featureImports
  | rawColors
deriving DecidableEq, Repr

/-- Why a check came to no verdict. -/
inductive CheckFault
  | table (fault : AppRoutes.TableFault)
  | file (fault : FileFault)

/-- The fault in words. -/
def CheckFault.message : CheckFault → Text
  | .table fault => fault.message
  | .file fault => fault.message

namespace Check

/-- All checks, in the order in which they are run. -/
def all : List Check := [.layout, .appRoutes, .featureRoutes, .featureImports, .rawColors]

def name : Check → Text
  | .layout => "structure"
  | .appRoutes => "app-routes"
  | .featureRoutes => "feature-routes"
  | .featureImports => "cross-feature-imports"
  | .rawColors => "raw-colors"

/-- The check with this name. -/
def ofName? (name : Text) : Option Check := all.find? fun check => check.name = name

/-- The verdict of a check on a workspace. -/
def run (check : Check) (context : Context) (tree : FileTree) : Except CheckFault Verdict :=
  match check with
  | .layout => .ok (Structure.check context tree)
  | .appRoutes => (AppRoutes.check context tree).mapError .table
  | .featureRoutes => .ok (FeatureRoutes.check context tree)
  | .featureImports => .ok (FeatureImports.check context tree)
  | .rawColors => (RawColors.check context tree).mapError .file

/-- What is told during a check. -/
def notices (check : Check) (context : Context) (tree : FileTree) : List Notice :=
  match check with
  | .layout => Structure.notices context tree
  | .appRoutes => AppRoutes.notices context tree
  | .featureRoutes => FeatureRoutes.notices context tree
  | .featureImports => FeatureImports.notices context tree
  | .rawColors => RawColors.notices context tree

end Check

end VerticalSlice
