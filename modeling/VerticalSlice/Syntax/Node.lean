import VerticalSlice.Syntax.Token

/-!
# Syntax trees

A source text is read into a tree whose leaves are its tokens. A node has a kind, and some children
have a role in their parent, such as the value of a pair. Kinds that no rule asks about are not told
apart: they are phrases.

`walk` visits a tree with a stack of the subtrees that are still to come. `walk_eq_preorder` says
that this is the recursive order: a node, then its children from left to right.
-/

namespace VerticalSlice.Syntax

/-- What a node is. -/
inductive Kind
  | program
  | comment
  | importStatement
  | exportStatement
  | lexicalDeclaration
  | variableDeclaration
  | variableDeclarator
  | array
  | object
  | pair
  | string
  | templateString
  | callExpression
  | importKeyword
  | identifier
  | propertyIdentifier
  | typeIdentifier
  | shorthandPropertyIdentifier
  /-- A keyword, an operator or a punctuation mark. -/
  | mark
  /-- Everything else. -/
  | phrase
deriving DecidableEq, Repr

/-- What a child is to its parent. -/
inductive Role
  | declaration
  | name
  | value
  | key
  | source
  | function
  | arguments
deriving DecidableEq, Repr

/-- What a node says about itself: its kind and role, the offset and the line, from 1, of its first
character, and, for a leaf, its token. -/
structure Label where
  kind : Kind
  role : Option Role
  offset : Nat
  line : Nat
  blanks : Text
  text : Text
deriving DecidableEq, Repr

/-- A node with its children from left to right. -/
inductive Node
  | mk (label : Label) (children : List Node)

namespace Node

def label : Node → Label
  | .mk label _ => label

def children : Node → List Node
  | .mk _ children => children

def kind (node : Node) : Kind := node.label.kind

def role (node : Node) : Option Role := node.label.role

/-- The line, from 1, on which the node starts. -/
def line (node : Node) : Nat := node.label.line

/-- The offset of the first character of the node. -/
def offset (node : Node) : Nat := node.label.offset

/-- The leaf of a token. -/
def leaf (kind : Kind) (token : Token) : Node :=
  .mk ⟨kind, none, token.offset, token.line, token.blanks, token.text⟩ []

/-- A node of this kind that starts where its first child starts. -/
def branch (kind : Kind) (children : List Node) : Node :=
  let first := children.head?.map label
  .mk ⟨kind, none, (first.map (·.offset)).getD 0, (first.map (·.line)).getD 1, [], []⟩ children

/-- The same node with this role in its parent. -/
def withRole (role : Role) : Node → Node
  | .mk label children => .mk { label with role := some role } children

mutual

/-- The node and all its descendants, each before its children, children from left to right. -/
def preorder : Node → List Node
  | .mk label children => .mk label children :: preorderAll children

/-- The preorders of neighbours one after the other. -/
def preorderAll : List Node → List Node
  | [] => []
  | node :: rest => preorder node ++ preorderAll rest

end

mutual

/-- The number of nodes of a tree. -/
def size : Node → Nat
  | .mk _ children => sizeAll children + 1

/-- The number of nodes of neighbouring trees. -/
def sizeAll : List Node → Nat
  | [] => 0
  | node :: rest => size node + sizeAll rest

end

theorem sizeAll_append (first second : List Node) :
    sizeAll (first ++ second) = sizeAll first + sizeAll second := by
  induction first with
  | nil => simp [sizeAll]
  | cons node rest ih => simp [sizeAll, ih, Nat.add_assoc]

theorem preorderAll_append (first second : List Node) :
    preorderAll (first ++ second) = preorderAll first ++ preorderAll second := by
  induction first with
  | nil => simp [preorderAll]
  | cons node rest ih => simp [preorderAll, ih]

/-- Visits the subtrees on the stack: the top one is taken off and its children go on the stack in
its place. -/
def walkFrom : List Node → List Node
  | [] => []
  | .mk label children :: stack => .mk label children :: walkFrom (children ++ stack)
termination_by stack => sizeAll stack
decreasing_by simp [sizeAll, size, sizeAll_append]

/-- The node and all its descendants in the order of the source. -/
def walk (node : Node) : List Node := walkFrom [node]

theorem walkFrom_eq_preorderAll (stack : List Node) : walkFrom stack = preorderAll stack := by
  fun_induction walkFrom stack with
  | case1 => rfl
  | case2 label children stack ih => simp [preorderAll, preorder, ih, preorderAll_append]

theorem walk_eq_preorder (node : Node) : walk node = preorder node := by
  simp [walk, walkFrom_eq_preorderAll, preorderAll]

/-- The first node of the tree that has the property. -/
def find? (node : Node) (accept : Node → Bool) : Option Node := node.walk.find? accept

/-- The tokens of the tree with the blanks in front of them. -/
def source (node : Node) : Text := node.walk.flatMap fun n => n.label.blanks ++ n.label.text

/-- The text of a node, from its first character to its last. -/
def text (node : Node) : Text := node.source.dropWhile isSpace

/-- The first child with this role. -/
def child? (node : Node) (role : Role) : Option Node :=
  node.children.find? fun child => child.role = some role

/-- The children that are no marks. -/
def namedChildren (node : Node) : List Node :=
  node.children.filter fun child => child.kind ≠ .mark

end Node

end VerticalSlice.Syntax
