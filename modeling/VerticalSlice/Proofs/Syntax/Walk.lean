import VerticalSlice.Syntax.Node

/-!
# The walk through a syntax tree

A walk keeps the subtrees that are still to come on a stack. A round visits the top one and puts its children
in its place, so what is still to come, tree by tree in preorder, loses its first node to what is visited
(`Walking.visited_round`, `Walking.toCome_round`). Hence a walk has visited the first nodes of the preorder at
any time, and it ends after as many rounds as the tree has nodes.

Equal nodes may stand at several places of a tree, so that a node is visited once is said of the ways that lead
to the nodes: in the order of the walk these ways grow, and each way of the tree is among them
(`Node.pairwise_placed`, `Node.mem_placed_iff`).
-/

namespace VerticalSlice.Syntax

open Node (preorderAll sizeAll)

/-! ## Rounds -/

/-- A walk under way: the nodes that are visited, and the subtrees that are still to come, the next one on
top. -/
structure Walking where
  visited : List Node
  stack : List Node

namespace Walking

/-- The walk through a tree before its first round. -/
def start (root : Node) : Walking := ⟨[], [root]⟩

/-- One round: the top of the stack is taken off and visited, and its children are put on the stack, the last
one first. There is nothing to do when the stack is empty. -/
def round (walking : Walking) : Walking :=
  match walking.stack with
  | [] => walking
  | node :: stack =>
    ⟨walking.visited ++ [node], node.children.reverse.foldl (fun stack child => child :: stack) stack⟩

/-- The walk after so many rounds more. -/
def rounds (walking : Walking) : Nat → Walking
  | 0 => walking
  | n + 1 => (walking.rounds n).round

/-- What is still to come: the trees on the stack one after the other, each in preorder. -/
def toCome (walking : Walking) : List Node := preorderAll walking.stack

theorem round_cases (walking : Walking) :
    (walking.stack = [] ∧ walking.round = walking) ∨
    ∃ node stack, walking.stack = node :: stack ∧
      walking.round = ⟨walking.visited ++ [node], node.children ++ stack⟩ := by
  obtain ⟨visited, _ | ⟨node, stack⟩⟩ := walking
  · exact .inl ⟨rfl, rfl⟩
  · refine .inr ⟨node, stack, rfl, ?_⟩
    simp only [round, List.foldl_flip_cons_eq_append', List.reverse_reverse]

theorem toCome_of_cons {walking : Walking} {node : Node} {stack : List Node}
    (h : walking.stack = node :: stack) :
    walking.toCome = node :: (preorderAll node.children ++ preorderAll stack) := by
  obtain ⟨label, children⟩ := node
  rw [toCome, h, preorderAll, Node.preorder, List.cons_append, Node.children]

theorem toCome_of_nil {walking : Walking} (h : walking.stack = []) : walking.toCome = [] := by
  rw [toCome, h, preorderAll]

/-- A round visits the first of the nodes that are to come. -/
theorem visited_round (walking : Walking) :
    walking.round.visited = walking.visited ++ walking.toCome.take 1 := by
  rcases walking.round_cases with ⟨hstack, hround⟩ | ⟨node, stack, hstack, hround⟩
  · rw [hround, toCome_of_nil hstack, List.take_nil, List.append_nil]
  · rw [hround, toCome_of_cons hstack]
    rfl

/-- After a round the others are still to come, in the same order. -/
theorem toCome_round (walking : Walking) : walking.round.toCome = walking.toCome.drop 1 := by
  rcases walking.round_cases with ⟨hstack, hround⟩ | ⟨node, stack, hstack, hround⟩
  · rw [hround, toCome_of_nil hstack, List.drop_nil]
  · rw [hround, toCome_of_cons hstack, toCome, Node.preorderAll_append]
    rfl

theorem toCome_rounds (walking : Walking) (n : Nat) :
    (walking.rounds n).toCome = walking.toCome.drop n := by
  induction n with
  | zero => rfl
  | succ n ih => rw [rounds, toCome_round, ih, List.drop_drop]

theorem visited_rounds (walking : Walking) (n : Nat) :
    (walking.rounds n).visited = walking.visited ++ walking.toCome.take n := by
  induction n with
  | zero => exact (List.append_nil _).symm
  | succ n ih => rw [rounds, visited_round, toCome_rounds, ih, List.append_assoc, ← List.take_add]

end Walking

/-! ## The end of a walk -/

namespace Node

mutual

theorem length_preorder : ∀ node : Node, node.preorder.length = node.size
  | .mk _ children => by rw [preorder, size, List.length_cons, length_preorderAll children]

theorem length_preorderAll : ∀ nodes : List Node, (preorderAll nodes).length = sizeAll nodes
  | [] => rfl
  | node :: rest => by
    rw [preorderAll, sizeAll, List.length_append, length_preorder node, length_preorderAll rest]

end

theorem sizeAll_eq_zero_iff {nodes : List Node} : sizeAll nodes = 0 ↔ nodes = [] := by
  rcases nodes with _ | ⟨⟨label, children⟩, rest⟩
  · exact iff_of_true rfl rfl
  · exact iff_of_false (by rw [sizeAll, size]; omega) (List.cons_ne_nil _ _)

end Node

namespace Walking

/-- Each round takes one node off the trees on the stack, until none is left. -/
theorem sizeAll_stack_rounds (walking : Walking) (n : Nat) :
    sizeAll (walking.rounds n).stack = sizeAll walking.stack - n := by
  rw [← Node.length_preorderAll, ← Node.length_preorderAll, ← toCome, ← toCome, toCome_rounds,
    List.length_drop]

theorem toCome_start (root : Node) : (start root).toCome = root.preorder := by
  rw [toCome, start, preorderAll, preorderAll, List.append_nil]

theorem visited_rounds_start (root : Node) (n : Nat) :
    ((start root).rounds n).visited = root.preorder.take n := by
  rw [visited_rounds, toCome_start]
  rfl

theorem stack_rounds_start_eq_nil_iff (root : Node) (n : Nat) :
    ((start root).rounds n).stack = [] ↔ root.size ≤ n := by
  rw [← Node.sizeAll_eq_zero_iff, sizeAll_stack_rounds, Nat.sub_eq_zero_iff_le, start, sizeAll, sizeAll,
    Nat.add_zero]

end Walking

/-! ## Ways to nodes -/

namespace Node

/-- The node to which a way leads. A way tells the number of the child to go to at each node, from 0. -/
def get? : Node → List Nat → Option Node
  | node, [] => some node
  | node, number :: way => node.children[number]?.bind fun child => child.get? way

mutual

/-- The nodes of a tree in the order of `preorder`, with the ways to them. -/
def placed : Node → List (List Nat × Node)
  | .mk label children => ([], .mk label children) :: placedFrom 0 children

/-- The nodes of neighbouring trees, the first of which is the child with this number. -/
def placedFrom (number : Nat) : List Node → List (List Nat × Node)
  | [] => []
  | node :: rest =>
    (placed node).map (fun inner => (number :: inner.1, inner.2)) ++ placedFrom (number + 1) rest

end

mutual

theorem map_snd_placed : ∀ node : Node, node.placed.map Prod.snd = node.preorder
  | .mk _ children => by rw [placed, preorder, List.map_cons, map_snd_placedFrom children]

theorem map_snd_placedFrom :
    ∀ {number : Nat} (nodes : List Node), (placedFrom number nodes).map Prod.snd = preorderAll nodes
  | _, [] => rfl
  | _, node :: rest => by
    rw [placedFrom, preorderAll, List.map_append, List.map_map, map_snd_placedFrom rest, ← map_snd_placed node]
    rfl

end

mutual

theorem mem_placed_iff {inner : Node} :
    ∀ {way : List Nat} {node : Node}, (way, inner) ∈ node.placed ↔ node.get? way = some inner
  | [], .mk label children => by
    rw [placed, List.mem_cons, mem_placedFrom_iff, get?]
    simp [eq_comm]
  | number :: way, .mk label children => by
    rw [placed, List.mem_cons, mem_placedFrom_iff, get?, Option.bind_eq_some_iff]
    constructor
    · rintro (h | ⟨i, rest, child, hway, hchild, hinner⟩)
      · cases h
      · obtain ⟨rfl, rfl⟩ := List.cons.inj hway
        exact ⟨child, by rwa [Nat.zero_add], hinner⟩
    · rintro ⟨child, hchild, hinner⟩
      exact .inr ⟨number, way, child, by rw [Nat.zero_add], hchild, hinner⟩

theorem mem_placedFrom_iff {inner : Node} :
    ∀ {number : Nat} {way : List Nat} {nodes : List Node}, (way, inner) ∈ placedFrom number nodes ↔
      ∃ i rest child, way = (number + i) :: rest ∧ nodes[i]? = some child ∧ child.get? rest = some inner
  | _, _, [] => by simp [placedFrom]
  | number, way, node :: nodes => by
    rw [placedFrom, List.mem_append, List.mem_map, mem_placedFrom_iff]
    constructor
    · rintro (⟨⟨rest, other⟩, hother, heq⟩ | ⟨i, rest, child, rfl, hchild, hinner⟩)
      · obtain ⟨rfl, rfl⟩ := Prod.mk.inj heq
        exact ⟨0, rest, node, rfl, rfl, mem_placed_iff.1 hother⟩
      · -- what has number `i` behind the first neighbour has the next number with it
        exact ⟨i + 1, rest, child, by rw [Nat.add_assoc, Nat.add_comm 1], hchild, hinner⟩
    · rintro ⟨_ | i, rest, child, rfl, hchild, hinner⟩
      · obtain rfl := Option.some.inj hchild
        exact .inl ⟨(rest, inner), mem_placed_iff.2 hinner, rfl⟩
      · exact .inr ⟨i, rest, child, by rw [Nat.add_assoc, Nat.add_comm 1], hchild, hinner⟩

end

mutual

/-- In preorder the ways to the nodes grow: a way comes before the ways that go on from it, and before those that
turn to a later child. -/
theorem pairwise_placed :
    ∀ node : Node, node.placed.Pairwise fun earlier later => List.Lex (· < ·) earlier.1 later.1
  | .mk label children => by
    rw [placed, List.pairwise_cons]
    refine ⟨fun later hlater => ?_, pairwise_placedFrom children⟩
    obtain ⟨i, rest, -, hway, -⟩ := mem_placedFrom_iff.1 hlater
    rw [hway]
    exact .nil

theorem pairwise_placedFrom : ∀ {number : Nat} (nodes : List Node),
    (placedFrom number nodes).Pairwise fun earlier later => List.Lex (· < ·) earlier.1 later.1
  | _, [] => .nil
  | number, node :: rest => by
    rw [placedFrom, List.pairwise_append, List.pairwise_map]
    refine ⟨(pairwise_placed node).imp fun h => .cons h, pairwise_placedFrom rest,
      fun earlier hearlier later hlater => ?_⟩
    -- the ways into the later neighbours begin with greater numbers
    obtain ⟨inner, -, rfl⟩ := List.mem_map.1 hearlier
    obtain ⟨i, way, -, hway, -⟩ := mem_placedFrom_iff.1 hlater
    rw [hway]
    exact .rel (by omega)

end

example : ((branch .program [branch .array [branch .object []], branch .object []]).placed.map (·.1)) =
    [[], [0], [0, 0], [1]] := by decide

/-! ## What a walk finds -/

theorem preorderAll_eq_flatMap (nodes : List Node) : preorderAll nodes = nodes.flatMap preorder := by
  induction nodes with
  | nil => rfl
  | cons node rest ih => rw [preorderAll, ih, List.flatMap_cons]

theorem walk_eq_flatMap (node : Node) : node.walk = node :: node.children.flatMap walk := by
  obtain ⟨label, children⟩ := node
  rw [funext walk_eq_preorder, preorder, preorderAll_eq_flatMap, Node.children]

theorem find?_eq_some_iff {root node : Node} {accept : Node → Bool} :
    root.find? accept = some node ↔
      ∃ before behind, root.walk = before ++ node :: behind ∧ accept node = true ∧
        ∀ other ∈ before, accept other = false := by
  rw [find?, List.find?_eq_some_iff_append]
  simp only [Bool.not_eq_true']
  constructor
  · rintro ⟨haccept, before, behind, hwalk, hbefore⟩
    exact ⟨before, behind, hwalk, haccept, hbefore⟩
  · rintro ⟨before, behind, hwalk, haccept, hbefore⟩
    exact ⟨haccept, before, behind, hwalk, hbefore⟩

theorem find?_eq_none_iff {root : Node} {accept : Node → Bool} :
    root.find? accept = none ↔ ∀ node ∈ root.walk, accept node = false := by
  rw [find?, List.find?_eq_none]
  simp only [Bool.not_eq_true]

/-- A walk through a tree visits its nodes in preorder: a node, and then what is below it, child by child from
left to right. After `n` rounds it has visited the first `n` nodes of that order, and it ends when it has visited
them all. Each node of the tree is visited once: the ways to the visited nodes grow, and they are the ways of the
tree. What is found is the first node of that order with the property, and nothing is found exactly if no node of
that order has it. -/
theorem walk_exact (root : Node) :
    (root.walk = root.preorder ∧ root.walk = root :: root.children.flatMap walk) ∧
    (∀ n, ((Walking.start root).rounds n).visited = root.walk.take n ∧
      (((Walking.start root).rounds n).stack = [] ↔ root.walk.length ≤ n)) ∧
    (root.placed.map Prod.snd = root.walk ∧
      (root.placed.Pairwise fun earlier later => List.Lex (· < ·) earlier.1 later.1) ∧
      ∀ way node, (way, node) ∈ root.placed ↔ root.get? way = some node) ∧
    ∀ accept : Node → Bool,
      (∀ node, root.find? accept = some node ↔
        ∃ before behind, root.walk = before ++ node :: behind ∧ accept node = true ∧
          ∀ other ∈ before, accept other = false) ∧
      (root.find? accept = none ↔ ∀ node ∈ root.walk, accept node = false) := by
  refine ⟨⟨root.walk_eq_preorder, root.walk_eq_flatMap⟩, fun n => ?_,
    ⟨?_, root.pairwise_placed, fun _ _ => mem_placed_iff⟩,
    fun accept => ⟨fun _ => find?_eq_some_iff, find?_eq_none_iff⟩⟩
  · rw [walk_eq_preorder, length_preorder]
    exact ⟨Walking.visited_rounds_start root n, Walking.stack_rounds_start_eq_nil_iff root n⟩
  · rw [map_snd_placed, walk_eq_preorder]

end Node

end VerticalSlice.Syntax
