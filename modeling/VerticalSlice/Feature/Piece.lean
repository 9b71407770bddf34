import VerticalSlice.Feature.Name

/-!
# Texts with holes

What is written for a feature is fixed but for a few holes, where a spelling of the feature's name or
its route stands. Such a text is a list of pieces; with values for the holes it becomes a text.
-/

namespace VerticalSlice.Feature

/-- What may stand in a hole. -/
inductive Hole
  | kebab
  | pascal
  | const
  | route
deriving DecidableEq, Repr

/-- A piece of a text: fixed characters, or a hole. -/
inductive Piece
  | fixed (text : Text)
  | hole (kind : Hole)
deriving DecidableEq, Repr

instance : Coe String Piece := ⟨fun text => .fixed text⟩

instance : Coe Hole Piece := ⟨.hole⟩

/-- The text of a piece. -/
def Piece.fill (values : Hole → Text) : Piece → Text
  | .fixed text => text
  | .hole kind => values kind

/-- The text of pieces. -/
def fill (values : Hole → Text) (pieces : List Piece) : Text := pieces.flatMap (Piece.fill values)

/-- What stands in the holes for a feature with this route. -/
def holeValues (name : FeatureName) (route : Text) : Hole → Text
  | .kebab => name.kebab
  | .pascal => name.pascal
  | .const => name.const
  | .route => route

end VerticalSlice.Feature
