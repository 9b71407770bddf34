import Mathlib.Data.List.Basic
import VerticalSlice.Syntax.Query

/-!
# What the questions about imports say of one another

There are two ways through a tree that look for imports. One asks each node whether it is a statement that
names a module, and only otherwise whether it is a call of `import`; the other asks for the call alone. Both
find the same calls, in the same order and as often, wherever they stand: no node is a statement and a call
(`deferred_importReference?`), and neither way stops at a node that it has something to say about.

What a call of `import` is, is said by `Defers`, from the shape of the node and without the functions that
look for it.
-/

namespace VerticalSlice.Syntax.Node

/-- The node is a call of `import`, and behind comments at most its first argument is a quoted literal with
these contents. -/
def Defers (node : Node) (target : Text) : Prop :=
  node.kind = .callExpression ∧
  (∃ function, node.child? .function = some function ∧ function.kind = .importKeyword) ∧
  ∃ arguments argument before behind, node.child? .arguments = some arguments ∧
    arguments.namedChildren = before ++ argument :: behind ∧ (∀ child ∈ before, child.kind = .comment) ∧
    argument.kind = .string ∧ target = inner argument.text

/-! ## What a single node is -/

theorem deferredArgument?_eq_some_iff {node argument : Node} :
    node.deferredArgument? = some argument ↔
      node.kind = .callExpression ∧
      (∃ function, node.child? .function = some function ∧ function.kind = .importKeyword) ∧
      ∃ arguments, node.child? .arguments = some arguments ∧
        arguments.namedChildren.find? (fun child => child.kind ≠ .comment) = some argument := by
  unfold deferredArgument?
  split
  · next hkind =>
    simp only [hkind, Option.bind_eq_bind, Option.bind_eq_some_iff, Option.ite_none_right_eq_some, true_and,
      ← exists_and_right, and_assoc]
  · next hkind => simp [hkind]

theorem stringValue?_eq_some_iff {node : Node} {value : Text} :
    node.stringValue? = some value ↔ node.kind = .string ∧ value = inner node.text := by
  rw [stringValue?, Option.ite_none_right_eq_some, Option.some.injEq, eq_comm (a := value)]

/-- The module that a node loads when it is run is the one that it defers. -/
theorem deferredTarget?_eq_some_iff {node : Node} {target : Text} :
    node.deferredTarget? = some target ↔ node.Defers target := by
  simp only [deferredTarget?, Option.bind_eq_some_iff, deferredArgument?_eq_some_iff, stringValue?_eq_some_iff,
    List.find?_eq_some_iff_append, Defers]
  constructor
  · rintro ⟨argument, ⟨hkind, hfunction, arguments, harguments, -, before, behind, hsplit, hbefore⟩, hvalue⟩
    exact ⟨hkind, hfunction, arguments, argument, before, behind, harguments, hsplit,
      fun child hchild => by simpa using hbefore child hchild, hvalue⟩
  · rintro ⟨hkind, hfunction, arguments, argument, before, behind, harguments, hsplit, hbefore, hvalue⟩
    refine ⟨argument, ⟨hkind, hfunction, arguments, harguments, ?_, before, behind, hsplit, ?_⟩, hvalue⟩
    · rw [hvalue.1]
      rfl
    · exact fun child hchild => by simp [hbefore child hchild]

theorem deferredTarget?_eq_none {node : Node} (h : node.kind ≠ .callExpression) :
    node.deferredTarget? = none := by
  rw [deferredTarget?, deferredArgument?, if_neg h, Option.bind_none]

/-- Without the deferred imports a node is the reference that it is with them, if that is not deferred. -/
theorem importReference?_false (node : Node) :
    node.importReference? false =
      (node.importReference? true).filter fun reference => reference.kind ≠ .deferred := by
  have hkeeps : ∀ (target : Option Text) (kind : ImportKind), kind ≠ .deferred →
      (target.map fun specifier => (⟨specifier, node.line, kind⟩ : ImportReference)).filter
        (fun reference => reference.kind ≠ .deferred) =
      target.map fun specifier => ⟨specifier, node.line, kind⟩ := by
    rintro (_ | specifier) kind hkind
    · rfl
    · simp [Option.filter, hkind]
  unfold importReference?
  split
  · exact (hkeeps _ _ (by decide)).symm
  · split
    · exact (hkeeps _ _ (by decide)).symm
    · cases node.deferredTarget? <;> rfl

/-- The deferred reference that a node is names the module that the node loads, and no statement loads one. -/
theorem deferred_importReference? (node : Node) :
    ((node.importReference? true).filter fun reference => reference.kind = .deferred).map (·.specifier) =
      node.deferredTarget? := by
  have hdrops : ∀ (target : Option Text) (kind : ImportKind), kind ≠ .deferred →
      ((target.map fun specifier => (⟨specifier, node.line, kind⟩ : ImportReference)).filter
        fun reference => reference.kind = .deferred).map (·.specifier) = none := by
    rintro (_ | specifier) kind hkind
    · rfl
    · simp [Option.filter, hkind]
  unfold importReference?
  split
  · next hkind =>
    rw [deferredTarget?_eq_none (by simp [hkind])]
    exact hdrops _ _ (by decide)
  · split
    · next hkind =>
      rw [deferredTarget?_eq_none (by simp [hkind])]
      exact hdrops _ _ (by decide)
    · cases node.deferredTarget? <;> rfl

/-! ## What a whole tree says -/

variable (root : Node)

theorem importReferences_false :
    root.importReferences false =
      (root.importReferences true).filter fun reference => reference.kind ≠ .deferred := by
  rw [importReferences, importReferences, List.filter_filterMap]
  exact List.filterMap_congr fun node _ => node.importReference?_false

theorem staticImports_eq :
    root.staticImports = (root.importReferences true).filter fun reference => reference.kind = .static := by
  rw [staticImports, importReferences_false, List.filter_filter]
  refine List.filter_congr fun reference _ => ?_
  cases reference.kind <;> rfl

theorem deferredImports_eq :
    root.deferredImports =
      ((root.importReferences true).filter fun reference => reference.kind = .deferred).map (·.specifier) := by
  rw [importReferences, List.filter_filterMap, List.map_filterMap, deferredImports]
  exact List.filterMap_congr fun node _ => node.deferred_importReference?.symm

theorem mem_deferredImports {target : Text} :
    target ∈ root.deferredImports ↔ ∃ node ∈ root.preorder, node.Defers target := by
  rw [deferredImports, walk_eq_preorder, List.mem_filterMap]
  simp only [deferredTarget?_eq_some_iff]

theorem hasDeferredImport_iff (accept : Text → Bool) :
    root.hasDeferredImport accept = true ↔
      ∃ node ∈ root.preorder, ∃ target, node.Defers target ∧ accept target = true := by
  rw [hasDeferredImport, List.any_eq_true]
  constructor
  · rintro ⟨target, htarget, haccept⟩
    obtain ⟨node, hnode, hdefers⟩ := root.mem_deferredImports.1 htarget
    exact ⟨node, hnode, target, hdefers, haccept⟩
  · rintro ⟨node, hnode, target, hdefers, haccept⟩
    exact ⟨target, root.mem_deferredImports.2 ⟨node, hnode, hdefers⟩, haccept⟩

/-- The questions about imports agree. The list without deferred imports is the full one without its deferred
references, the static imports are the static references of the full one, and the modules that calls load are
those of the deferred references, in the same order and as often. There is an accepted deferred import exactly
if some node of the tree is one, which is to say if some deferred reference of the full list is accepted. -/
theorem imports_agree :
    (root.importReferences false =
      (root.importReferences true).filter fun reference => reference.kind ≠ .deferred) ∧
    (root.staticImports = (root.importReferences true).filter fun reference => reference.kind = .static) ∧
    (root.deferredImports =
      ((root.importReferences true).filter fun reference => reference.kind = .deferred).map (·.specifier)) ∧
    ∀ accept : Text → Bool,
      (root.hasDeferredImport accept = true ↔
        ∃ node ∈ root.preorder, ∃ target, node.Defers target ∧ accept target = true) ∧
      (root.hasDeferredImport accept = true ↔
        ∃ reference ∈ root.importReferences true,
          reference.kind = .deferred ∧ accept reference.specifier = true) := by
  refine ⟨root.importReferences_false, root.staticImports_eq, root.deferredImports_eq, fun accept =>
    ⟨root.hasDeferredImport_iff accept, ?_⟩⟩
  rw [hasDeferredImport, deferredImports_eq, List.any_map, List.any_filter, List.any_eq_true]
  simp

end VerticalSlice.Syntax.Node
