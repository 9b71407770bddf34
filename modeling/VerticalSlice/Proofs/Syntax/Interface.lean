import VerticalSlice.Proofs.Syntax.Relabeling

/-!
# The interface of a source

What a source has to do with other sources is its interface: the modules that it imports, the names that it
takes from each of them, and the names that it exports. Names are taken by statements, which write them down,
and by a call of a member of a deferred import, whose argument gets the module and takes properties of it.
All names that are written in such a statement and all properties in such an argument count as taken, so
that none is missed.

Other labels give the same interface with other names (`Relabels.interface`).
-/

namespace VerticalSlice.Syntax

/-- The interface of a source. -/
structure Interface where
  /-- The modules that are imported in any way. -/
  modules : List Text
  /-- The modules that are loaded by calls. -/
  deferred : List Text
  /-- The modules that are loaded by calls and then handed on by a call of a member of the result. -/
  handedOn : List Text
  /-- The names that are taken, with the modules that they are taken from. -/
  takings : List (Text × Text)
  exports : List Text
deriving DecidableEq, Repr

/-- The interface with other names. -/
def Interface.map (g : Text → Text) (interface : Interface) : Interface where
  modules := interface.modules.map g
  deferred := interface.deferred.map g
  handedOn := interface.handedOn.map g
  takings := interface.takings.map (Prod.map g g)
  exports := interface.exports.map g

theorem Interface.map_id (interface : Interface) : interface.map id = interface := by
  simp [Interface.map]

/-- The interface of what loads a module and takes one name from it. -/
def Interface.loading (target name : Text) : Interface := ⟨[target], [target], [target], [(target, name)], []⟩

theorem Interface.map_loading (g : Text → Text) (target name : Text) :
    (loading target name).map g = loading (g target) (g name) := rfl

namespace Node

/-- The texts of the nodes of some kinds inside a node. -/
def textsOf (kinds : List Kind) (node : Node) : List Text :=
  (node.preorder.filter fun other => kinds.contains other.kind).map text

/-- The kinds of names. -/
def nameKinds : List Kind := [.identifier, .propertyIdentifier, .typeIdentifier, .shorthandPropertyIdentifier]

/-- The module that a statement names. -/
def statementModule? (node : Node) : Option Text :=
  if node.kind = .importStatement || node.kind = .exportStatement then (node.child? .source).bind stringValue?
  else none

/-- The module that a call hands on: it calls a member of a deferred import. -/
def callModule? (node : Node) : Option Text :=
  if node.kind = .callExpression then
    (node.child? .function).bind fun function => (function.children.filterMap deferredTarget?).head?
  else none

/-- What a node itself takes from modules. -/
def takingsAt (node : Node) : List (Text × Text) :=
  match node.statementModule?, node.callModule? with
  | some specifier, _ => (node.textsOf nameKinds).map (specifier, ·)
  | none, some specifier =>
    ((node.child? .arguments).toList.flatMap (textsOf [.propertyIdentifier])).map (specifier, ·)
  | none, none => []

/-- The text of a node that is a name. -/
def nameText? (node : Node) : Option Text := if nameKinds.contains node.kind then some node.text else none

/-- The names that the declaration of an export gives. -/
def declaredNames (declaration : Node) : List Text :=
  if declaration.kind = .lexicalDeclaration || declaration.kind = .variableDeclaration then
    declaration.namedChildren.filterMap fun declarator => (declarator.child? .name).bind nameText?
  else (declaration.children.filterMap nameText?).take 1

/-- The names that a node itself exports. -/
def exportsAt (node : Node) : List Text :=
  if node.kind = .exportStatement then (node.child? .declaration).toList.flatMap declaredNames else []

/-- The interface of the source with this tree. -/
def interface (root : Node) : Interface where
  modules := (root.importReferences true).map (·.specifier)
  deferred := root.deferredImports
  handedOn := root.walk.filterMap callModule?
  takings := root.walk.flatMap takingsAt
  exports := root.walk.flatMap exportsAt

/-- The module that a node imports in any way. -/
def module? (node : Node) : Option Text :=
  if node.kind = .importStatement || node.kind = .exportStatement then node.statementModule?
  else node.deferredTarget?

theorem specifier_importReference? (node : Node) :
    (node.importReference? true).map (·.specifier) = node.module? := by
  have hmap : ∀ (target : Option Text) (kind : ImportKind),
      (target.map fun specifier => (⟨specifier, node.line, kind⟩ : ImportReference)).map (·.specifier) = target := by
    intro target kind
    cases target <;> rfl
  rw [importReference?, module?, statementModule?]
  by_cases himport : node.kind = .importStatement
  · rw [if_pos himport, hmap, if_pos (by simp [himport]), if_pos (by simp [himport])]
  rw [if_neg himport]
  by_cases hexport : node.kind = .exportStatement
  · rw [if_pos hexport, hmap, if_pos (by simp [hexport]), if_pos (by simp [hexport])]
  · rw [if_neg hexport, if_pos rfl, hmap, if_neg (by simp [himport, hexport])]

theorem modules_eq (root : Node) :
    (root.importReferences true).map (·.specifier) = root.walk.filterMap module? := by
  rw [importReferences, List.map_filterMap]
  exact List.filterMap_congr fun node _ => node.specifier_importReference?

end Node

/-! ## Other labels -/

variable {f : Label → Label} {g : Text → Text} {root node : Node}

section

variable {α β : Type} {nodes : List Node} {k : α → β}

/-- What is found among nodes with other labels is what has become of what is found among the nodes. -/
theorem filterMap_relabel {q : Node → Option α} {q' : Node → Option β}
    (h : ∀ node ∈ nodes, q' (node.relabel f) = (q node).map k) :
    (nodes.map (Node.relabel f)).filterMap q' = (nodes.filterMap q).map k := by
  rw [List.filterMap_map, List.map_filterMap]
  exact List.filterMap_congr h

theorem flatMap_relabel {q : Node → List α} {q' : Node → List β}
    (h : ∀ node ∈ nodes, q' (node.relabel f) = (q node).map k) :
    (nodes.map (Node.relabel f)).flatMap q' = (nodes.flatMap q).map k := by
  rw [List.flatMap_map, List.map_flatMap]
  exact List.flatMap_congr h

end

namespace Renames

theorem textsOf (h : Renames f g node) {kinds : List Kind} (hkinds : ∀ kind ∈ kinds, kind.isName = true) :
    (node.relabel f).textsOf kinds = (node.textsOf kinds).map g := by
  have hfilter : ((fun other : Node => kinds.contains other.kind) ∘ Node.relabel f) =
      fun other => kinds.contains other.kind := by
    funext other
    rw [Function.comp_apply, h.kind_relabel]
  rw [Node.textsOf, Node.textsOf, Node.preorder_relabel, List.filter_map, hfilter, List.map_map, List.map_map]
  refine List.map_congr_left fun other hother => ?_
  obtain ⟨hother, hkind⟩ := List.mem_filter.1 hother
  exact h.text_eq other hother (hkinds _ (List.contains_iff_mem.1 hkind))

theorem isName_of_mem_nameKinds : ∀ kind ∈ Node.nameKinds, kind.isName = true := by decide

theorem nameText? (h : Renames f g node) : (node.relabel f).nameText? = node.nameText?.map g := by
  rw [Node.nameText?, Node.nameText?, h.kind_relabel]
  split
  · next hkind =>
    rw [h.text_self (isName_of_mem_nameKinds _ (List.contains_iff_mem.1 hkind))]
    rfl
  · rfl

theorem declaredNames (h : Renames f g node) :
    (node.relabel f).declaredNames = node.declaredNames.map g := by
  rw [Node.declaredNames, Node.declaredNames, h.kind_relabel]
  split
  · rw [h.namedChildren_relabel]
    refine filterMap_relabel fun declarator hdeclarator => ?_
    have hdeclarator := h.of_mem_children (Node.mem_children_of_mem_namedChildren hdeclarator)
    rw [h.child?_relabel]
    cases hname : declarator.child? .name with
    | none => rfl
    | some name => exact (hdeclarator.of_mem_children (Node.mem_children_of_child? hname)).nameText?
  · rw [Node.children_relabel, List.map_take,
      filterMap_relabel fun child hchild => (h.of_mem_children hchild).nameText?]

theorem exportsAt (h : Renames f g node) : (node.relabel f).exportsAt = node.exportsAt.map g := by
  rw [Node.exportsAt, Node.exportsAt, h.kind_relabel]
  split
  · rw [h.child?_relabel]
    cases hchild : node.child? .declaration with
    | none => rfl
    | some declaration =>
      show List.flatMap _ [declaration.relabel f] = List.map g (List.flatMap _ [declaration])
      rw [List.flatMap_singleton, List.flatMap_singleton,
        (h.of_mem_children (Node.mem_children_of_child? hchild)).declaredNames]
  · rfl

end Renames

namespace Relabels

theorem statementModule? (h : Relabels f g node) :
    (node.relabel f).statementModule? = node.statementModule?.map g := by
  rw [Node.statementModule?, Node.statementModule?, h.kind_relabel]
  split
  · rw [h.child?_relabel]
    cases hchild : node.child? .source with
    | none => rfl
    | some child => exact (h.of_mem_children (Node.mem_children_of_child? hchild)).stringValue?
  · rfl

theorem callModule? (h : Relabels f g node) : (node.relabel f).callModule? = node.callModule?.map g := by
  rw [Node.callModule?, Node.callModule?, h.kind_relabel]
  split
  · rw [h.child?_relabel]
    cases hchild : node.child? .function with
    | none => rfl
    | some function =>
      have hfunction := h.of_mem_children (Node.mem_children_of_child? hchild)
      show (List.filterMap _ (function.relabel f).children).head? =
        ((function.children.filterMap Node.deferredTarget?).head?).map g
      rw [Node.children_relabel,
        filterMap_relabel fun child hchild => (hfunction.of_mem_children hchild).deferredTarget?, List.head?_map]
  · rfl

theorem takingsAt (h : Relabels f g node) :
    (node.relabel f).takingsAt = node.takingsAt.map (Prod.map g g) := by
  have hpairs : ∀ (specifier : Text) (names : List Text),
      (names.map g).map (g specifier, ·) = (names.map (specifier, ·)).map (Prod.map g g) := by
    intro specifier names
    rw [List.map_map, List.map_map]
    rfl
  rw [Node.takingsAt, Node.takingsAt, h.statementModule?, h.callModule?]
  cases node.statementModule? with
  | some specifier =>
    dsimp only [Option.map_some]
    rw [h.textsOf Renames.isName_of_mem_nameKinds, hpairs]
  | none =>
    cases node.callModule? with
    | none => rfl
    | some specifier =>
      dsimp only [Option.map_some, Option.map_none]
      rw [← hpairs, h.child?_relabel]
      cases hchild : node.child? .arguments with
      | none => rfl
      | some arguments =>
        have harguments := h.of_mem_children (Node.mem_children_of_child? hchild)
        show List.map _ (List.flatMap _ [arguments.relabel f]) = List.map _ (List.map g (List.flatMap _ [arguments]))
        rw [List.flatMap_singleton, List.flatMap_singleton, harguments.textsOf (by decide)]

theorem modules (h : Relabels f g root) : ((root.relabel f).importReferences true).map (·.specifier) =
    ((root.importReferences true).map (·.specifier)).map g := by
  rw [Node.modules_eq, Node.modules_eq, Node.walk_relabel, Node.walk_eq_preorder]
  refine filterMap_relabel fun node hnode => ?_
  rw [Node.module?, Node.module?, h.kind_relabel, (h.of_mem hnode).statementModule?, (h.of_mem hnode).deferredTarget?]
  split <;> rfl

/-- Other labels give the same interface with other names. -/
theorem interface (h : Relabels f g root) : (root.relabel f).interface = root.interface.map g := by
  rw [Node.interface, Interface.map, Node.interface, Interface.mk.injEq]
  refine ⟨h.modules, h.deferredImports, ?_, ?_, ?_⟩
  · rw [Node.walk_relabel, Node.walk_eq_preorder]
    exact filterMap_relabel fun node hnode => (h.of_mem hnode).callModule?
  · rw [Node.walk_relabel, Node.walk_eq_preorder]
    exact flatMap_relabel fun node hnode => (h.of_mem hnode).takingsAt
  · rw [Node.walk_relabel, Node.walk_eq_preorder]
    exact flatMap_relabel fun node hnode => (h.of_mem hnode).exportsAt

end Relabels

end VerticalSlice.Syntax
