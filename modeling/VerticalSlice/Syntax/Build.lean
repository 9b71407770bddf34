import VerticalSlice.Syntax.Node
import VerticalSlice.Syntax.Reading

/-!
# Building nodes

The steps of a reading build nodes in places that are inside one another: leaves are added to the
innermost place, and when it is finished its nodes go to the place around it. Comments in front of a
token become leaves beside it; a node that begins with comments leaves them in front of itself.
-/

namespace VerticalSlice.Syntax

def Node.isComment (node : Node) : Bool := node.kind == .comment

/-- The leaf of a token, with the comments in front of it. -/
def Item.leaves (kind : Kind) (item : Item) : List Node :=
  item.comments.map (Node.leaf .comment) ++ [Node.leaf kind item.token]

/-- One node of this kind around the given ones; comments in front of them stay outside. -/
def enclose (kind : Kind) (nodes : List Node) : List Node :=
  nodes.takeWhile Node.isComment ++ [Node.branch kind (nodes.dropWhile Node.isComment)]

/-- The nodes, where the first that is no comment gets the role. -/
def withFirstRole (role : Role) (nodes : List Node) : List Node :=
  nodes.takeWhile Node.isComment ++
    match nodes.dropWhile Node.isComment with
    | [] => []
    | node :: rest => node.withRole role :: rest

/-- A place with the nodes that are built in it so far. -/
structure Site where
  kind : Option Kind
  nodes : List Node

/-- What a finished place gives to the one around it. -/
def Site.result (site : Site) : List Node :=
  match site.kind with
  | none => site.nodes
  | some kind => enclose kind site.nodes

/-- The state of building: the innermost place, the places around it from the inside to the outside,
and the items that are no leaves yet. -/
structure Building where
  site : Site
  around : List Site
  items : List Item

namespace Building

/-- The innermost place with other nodes. -/
def setNodes (building : Building) (nodes : List Node) : Building :=
  { building with site := { building.site with nodes := nodes } }

/-- The next token becomes a leaf of this kind. -/
def addLeaf (building : Building) (kind : Kind) : Building :=
  match building.items with
  | [] => building
  | item :: rest =>
    { building.setNodes (building.site.nodes ++ item.leaves kind) with items := rest }

/-- One step of building. -/
def step (building : Building) : Step → Building
  | .leaf kind => building.addLeaf kind
  | .bound _ => building.addLeaf .mark
  | .begin kind =>
    { building with site := ⟨kind, []⟩, around := building.site :: building.around }
  | .finish =>
    match building.around with
    | [] => building
    | outer :: around =>
      { building with
        site := { outer with nodes := outer.nodes ++ building.site.result }, around := around }
  | .fold kind => building.setNodes (enclose kind building.site.nodes)
  | .role role => building.setNodes (withFirstRole role building.site.nodes)

/-- All steps one after the other. -/
def run (building : Building) (steps : List Step) : Building := steps.foldl step building

end Building

/-- The nodes that the steps build from the items. -/
def build (steps : List Step) (items : List Item) : List Node :=
  ((Building.mk ⟨none, []⟩ [] items).run steps).site.nodes

end VerticalSlice.Syntax
