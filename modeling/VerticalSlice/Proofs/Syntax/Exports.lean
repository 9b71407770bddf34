import VerticalSlice.Proofs.Syntax.Lexical
import VerticalSlice.Proofs.Syntax.Origin

/-!
# The exported array in focus

The first array that a program exports under some name can be put in focus: whatever is put into it, it is
still the first one that is exported under the name, and nothing else in the tree changes
(`exists_focused_of_exportedArray?`). Exports around it may lie in front of it, but these have other names, and
no name depends on what is in the array.
-/

namespace VerticalSlice.Syntax

/-- The first array of an export statement that has the name. -/
def Node.exportNamed? (name : Text) (node : Node) : Option ExportedArray :=
  node.arraysOfExport.find? fun exported => exported.name = name

theorem exportedArray?_branch (nodes : List Node) (name : Text) :
    (Node.branch .program nodes).exportedArray? name =
      (Node.preorderAll nodes).findSome? (Node.exportNamed? name) := by
  rw [Node.exportedArray?, Node.exportedArrays, Node.walk_eq_preorder, List.find?_flatMap, Node.branch,
    Node.preorder, List.findSome?_cons]
  rfl

/-! ## Names do not depend on the array -/

/-- A child with a role is the same whatever is in one of the children, or it is that child. -/
theorem child?_cases (outer : Label) (before : List Node) (label : Label) (behind : List Node)
    (role : Role) :
    (∃ found, ∀ inner, (Node.mk outer (before ++ .mk label inner :: behind)).child? role = found) ∨
      ∀ inner, (Node.mk outer (before ++ .mk label inner :: behind)).child? role =
        some (.mk label inner) := by
  have hchild : ∀ inner, (Node.mk outer (before ++ .mk label inner :: behind)).child? role =
      (before.find? fun child => child.role = some role).or
        (if label.role = some role then some (.mk label inner)
          else behind.find? fun child => child.role = some role) := by
    intro inner
    show List.find? _ (before ++ .mk label inner :: behind) = _
    rw [List.find?_append, List.find?_cons]
    show _ = Option.or _ (if (Node.mk label inner).role = some role then _ else _)
    by_cases hrole : (Node.mk label inner).role = some role
    · rw [if_pos hrole, decide_eq_true hrole]
    · rw [if_neg hrole, decide_eq_false hrole]
  simp only [hchild]
  cases before.find? fun child => child.role = some role with
  | some found => exact .inl ⟨some found, fun _ => rfl⟩
  | none =>
    by_cases hrole : label.role = some role
    · exact .inr fun inner => by rw [if_pos hrole, Option.none_or]
    · exact .inl ⟨_, fun inner => by rw [if_neg hrole]⟩

theorem name_boundArray? (label : Label) (children : List Node) :
    (Node.mk label children).boundArray?.map (·.name) =
      ((Node.mk label children).child? .name).bind fun name =>
        ((Node.mk label children).child? .value).bind fun value =>
          if label.kind = .variableDeclarator && name.kind = .identifier && value.kind = .array then
            some name.text
          else none := by
  rw [Node.boundArray?]
  cases (Node.mk label children).child? .name with
  | none => rfl
  | some name =>
    cases (Node.mk label children).child? .value with
    | none => rfl
    | some value =>
      show Option.map _ (if _ then _ else none) = if _ then _ else none
      split
      · next hkinds => exact (if_pos hkinds).symm
      · next hkinds => exact (if_neg hkinds).symm

/-- The name of an array does not depend on what is in it, or in another one. -/
theorem Focused.name_boundArray? {rows : List Node → List Node} (h : Focused rows) (outer : Label)
    (inner inner' : List Node) :
    (Node.mk outer (rows inner)).boundArray?.map (·.name) =
      (Node.mk outer (rows inner')).boundArray?.map (·.name) := by
  obtain ⟨before, label, seen, behind, hlabel, rfl, -⟩ := h.exists_node
  rw [Syntax.name_boundArray?, Syntax.name_boundArray?]
  rcases child?_cases outer before label behind .name with ⟨found, hname⟩ | hname
  · rw [hname, hname]
    rcases child?_cases outer before label behind .value with ⟨found, hvalue⟩ | hvalue
    · rw [hvalue, hvalue]
    · rw [hvalue, hvalue]
      rfl
  · -- a node around an array is no name
    have hidentifier : decide (label.kind = .identifier) = false := by
      refine decide_eq_false fun hkind => ?_
      rw [hkind] at hlabel
      cases hlabel
    have hnone : ∀ (kind : Bool) (value : Option Node) (text : Text),
        (value.bind fun value => if kind && decide (label.kind = .identifier) && value.kind = .array then
          some text else none) = none := by
      intro kind value text
      rw [hidentifier, Bool.and_false]
      cases value <;> rfl
    rw [hname, hname, Option.bind_some, Option.bind_some]
    exact (hnone _ _ _).trans (hnone _ _ _).symm

theorem boundArray?_eq_none {node : Node} (h : node.kind ≠ .variableDeclarator) :
    node.boundArray? = none := by
  obtain ⟨label, children⟩ := node
  have hname := name_boundArray? label children
  rw [← Option.map_eq_none_iff, hname]
  have hkind : decide (label.kind = .variableDeclarator) = false := decide_eq_false h
  simp only [hkind, Bool.false_and, Bool.false_eq_true, if_false]
  simp

/-- Nor do the names of the arrays of a declaration. -/
theorem Focused.names_boundArrays {rows : List Node → List Node} (h : Focused rows)
    (inner inner' : List Node) :
    ((rows inner).filterMap fun node => node.boundArray?.map (·.name)) =
      (rows inner').filterMap fun node => node.boundArray?.map (·.name) := by
  have hnode : ∀ {before behind : List Node} {first second : Node},
      first.boundArray?.map (·.name) = second.boundArray?.map (·.name) →
      ((before ++ first :: behind).filterMap fun node => node.boundArray?.map (·.name)) =
        (before ++ second :: behind).filterMap fun node => node.boundArray?.map (·.name) := by
    intro before behind first second hsame
    rw [List.filterMap_append, List.filterMap_append, List.filterMap_cons, List.filterMap_cons, hsame]
  cases h with
  | here before hkind behind =>
    refine hnode ?_
    rw [boundArray?_eq_none, boundArray?_eq_none]
    all_goals
      show _ ≠ _
      rw [Node.kind, Node.label, hkind]
      decide
  | within before hkind hrows behind => exact hnode (hrows.name_boundArray? _ inner inner')

theorem namedChildren_boundArrays (node : Node) :
    node.namedChildren.filterMap Node.boundArray? = node.children.filterMap Node.boundArray? := by
  rw [Node.namedChildren, List.filterMap_filter]
  congr 1
  funext child
  by_cases hkind : child.kind = .mark
  · rw [if_neg (by simp [hkind]), boundArray?_eq_none (by rw [hkind]; decide)]
  · rw [if_pos (by simp [hkind])]

/-! ## Exports and declarations -/

/-- Declares a statement of this kind variables? -/
def Kind.declares (kind : Kind) : Bool := kind = .lexicalDeclaration || kind = .variableDeclaration

/-- The first variable of a declaration that is bound to an array and has the name. -/
def Node.declaresNamed? (name : Text) (declaration : Node) : Option ExportedArray :=
  (declaration.children.find? fun node => node.boundArray?.any fun exported => exported.name = name).bind
    Node.boundArray?

theorem exportNamed?_eq (name : Text) (label : Label) (children : List Node) :
    (Node.mk label children).exportNamed? name =
      if label.kind = .exportStatement then
        ((Node.mk label children).child? .declaration).bind fun declaration =>
          if declaration.kind.declares then declaration.declaresNamed? name else none
      else none := by
  unfold Node.exportNamed? Node.arraysOfExport
  show List.find? _ (if label.kind = .exportStatement then _ else []) = _
  split
  · cases (Node.mk label children).child? .declaration with
    | none => rfl
    | some declaration =>
      show List.find? _ (if _ then _ else []) = if declaration.kind.declares = true then _ else none
      rw [Kind.declares]
      split
      · rw [namedChildren_boundArrays, List.find?_filterMap]
        rfl
      · rfl
  · rfl

theorem declaresNamed?_eq_none_iff {name : Text} {declaration : Node} :
    declaration.declaresNamed? name = none ↔
      name ∉ declaration.children.filterMap fun node => node.boundArray?.map (·.name) := by
  rw [Node.declaresNamed?, Option.bind_eq_none_iff, List.mem_filterMap]
  constructor
  · rintro hnone ⟨node, hnode, hname⟩
    obtain ⟨exported, hbound, rfl⟩ := Option.map_eq_some_iff.1 hname
    obtain ⟨found, hfound⟩ : ∃ found, (declaration.children.find? fun node =>
        node.boundArray?.any fun other => other.name = exported.name) = some found := by
      rw [← Option.isSome_iff_exists, List.find?_isSome]
      exact ⟨node, hnode, by rw [hbound, Option.any_some, decide_eq_true rfl]⟩
    have hany := List.find?_some hfound
    rw [hnone found hfound] at hany
    cases hany
  · intro hnone found hfound
    cases hbound : found.boundArray? with
    | none => rfl
    | some exported =>
      have hany := List.find?_some hfound
      rw [hbound, Option.any_some, decide_eq_true_eq] at hany
      exact (hnone ⟨found, List.mem_of_find?_eq_some hfound, by rw [hbound, Option.map_some, hany]⟩).elim

/-- Whether there is an array with a name does not depend on what is in another one. -/
theorem Focused.exportNamed?_eq_none {rows : List Node → List Node} (h : Focused rows) {outer : Label}
    {name : Text} {inner : List Node} (hnone : (Node.mk outer (rows inner)).exportNamed? name = none)
    (inner' : List Node) : (Node.mk outer (rows inner')).exportNamed? name = none := by
  rw [exportNamed?_eq] at hnone ⊢
  split at hnone
  · next hexport =>
    rw [if_pos hexport]
    cases h with
    | @here before label hkind behind =>
      rcases child?_cases outer before label behind .declaration with ⟨found, hchild⟩ | hchild
      · rwa [hchild] at hnone ⊢
      · rw [hchild, Option.bind_some]
        refine if_neg ?_
        show ¬label.kind.declares = true
        rw [hkind]
        decide
    | @within rows before label hkind hrows behind =>
      rcases child?_cases outer before label behind .declaration with ⟨found, hchild⟩ | hchild
      · rwa [hchild] at hnone ⊢
      · rw [hchild, Option.bind_some] at hnone ⊢
        change (if label.kind.declares = true then _ else none) = _ at hnone ⊢
        split at hnone
        · next hdeclares =>
          rw [declaresNamed?_eq_none_iff] at hnone
          rw [if_pos hdeclares, declaresNamed?_eq_none_iff]
          show name ∉ (rows inner').filterMap _
          rwa [hrows.names_boundArrays inner' inner]
        · next hdeclares => exact if_neg hdeclares
  · next hexport => exact if_neg hexport

/-! ## The array in focus -/

/-- A child that is found by its role may be exchanged for others with the same label. -/
theorem exists_of_child? {outer : Label} {children : List Node} {role : Role} {child : Node}
    (h : (Node.mk outer children).child? role = some child) :
    ∃ before behind, children = before ++ child :: behind ∧
      ∀ other : Node, other.label = child.label →
        (Node.mk outer (before ++ other :: behind)).child? role = some other := by
  obtain ⟨hrole, before, behind, hchildren, hbefore⟩ := List.find?_eq_some_iff_append.1 h
  refine ⟨before, behind, hchildren, fun other hother => ?_⟩
  refine List.find?_eq_some_iff_append.2 ⟨?_, before, behind, rfl, hbefore⟩
  rwa [Node.role, hother]

/-- A variable that is bound to an array, with another array of the same label. -/
theorem exists_rows_of_boundArray? {outer : Label} {children : List Node} {exported : ExportedArray}
    (h : (Node.mk outer children).boundArray? = some exported) :
    ∃ rows, Focused rows ∧ rows exported.array.children = children ∧
      ∀ inner, (Node.mk outer (rows inner)).boundArray? =
        some ⟨exported.name, .mk exported.array.label inner⟩ := by
  unfold Node.boundArray? at h
  obtain ⟨name, hname, h⟩ := Option.bind_eq_some_iff.1 h
  obtain ⟨value, hvalue, h⟩ := Option.bind_eq_some_iff.1 h
  split at h
  · next hkinds =>
    obtain rfl := Option.some.inj h
    obtain ⟨before, behind, rfl, hother⟩ := exists_of_child? hvalue
    obtain ⟨label, inside⟩ := value
    rw [Bool.and_eq_true, Bool.and_eq_true, decide_eq_true_eq, decide_eq_true_eq, decide_eq_true_eq]
      at hkinds
    obtain ⟨⟨houter, hidentifier⟩, harray⟩ := hkinds
    change outer.kind = _ at houter
    change label.kind = _ at harray
    refine ⟨_, .here before harray behind, rfl, fun inner => ?_⟩
    have hname' : (Node.mk outer (before ++ .mk label inner :: behind)).child? .name = some name := by
      rcases child?_cases outer before label behind .name with ⟨found, hfound⟩ | hfound
      · rw [hfound, ← hfound inside, hname]
      · -- the value is an array and no name
        have hsame := (hfound inside).symm.trans hname
        rw [← Option.some.inj hsame] at hidentifier
        cases hidentifier.symm.trans harray
    show (Node.mk outer (before ++ .mk label inner :: behind)).boundArray? = _
    rw [Node.boundArray?, hname', hother (.mk label inner) rfl]
    show (if decide (outer.kind = _) && _ && decide (label.kind = _) then _ else none) = _
    rw [houter, hidentifier, harray]
    rfl
  · cases h

/-- A declaration with another array of the same label. -/
theorem exists_rows_of_declaresNamed? {outer : Label} {children : List Node} {name : Text}
    {exported : ExportedArray} (h : (Node.mk outer children).declaresNamed? name = some exported) :
    ∃ rows, Focused rows ∧ rows exported.array.children = children ∧
      ∀ inner, (Node.mk outer (rows inner)).declaresNamed? name =
        some ⟨exported.name, .mk exported.array.label inner⟩ := by
  obtain ⟨declarator, hdeclarator, hbound⟩ := Option.bind_eq_some_iff.1 h
  obtain ⟨hname, before, behind, hchildren, hbefore⟩ := List.find?_eq_some_iff_append.1 hdeclarator
  obtain rfl : children = before ++ declarator :: behind := hchildren
  obtain ⟨label, inside⟩ := declarator
  have hkind : label.kind = .variableDeclarator := by
    by_contra hkind
    rw [boundArray?_eq_none (show (Node.mk label inside).kind ≠ _ from hkind)] at hbound
    cases hbound
  obtain ⟨rows, hrows, rfl, hnew⟩ := exists_rows_of_boundArray? hbound
  refine ⟨_, .within before (by rw [hkind]; rfl) hrows behind, rfl, fun inner => ?_⟩
  have hfound : (before ++ Node.mk label (rows inner) :: behind).find?
      (fun node => node.boundArray?.any fun exported => exported.name = name) =
        some (.mk label (rows inner)) := by
    refine List.find?_eq_some_iff_append.2 ⟨?_, before, behind, rfl, hbefore⟩
    rw [hbound] at hname
    rw [hnew]
    exact hname
  exact Option.bind_eq_some_iff.2 ⟨_, hfound, hnew inner⟩

/-- An export statement with another array of the same label. -/
theorem exists_rows_of_exportNamed? {outer : Label} {children : List Node} {name : Text}
    {exported : ExportedArray} (h : (Node.mk outer children).exportNamed? name = some exported) :
    outer.kind = .exportStatement ∧ ∃ rows, Focused rows ∧ rows exported.array.children = children ∧
      ∀ inner, (Node.mk outer (rows inner)).exportNamed? name =
        some ⟨exported.name, .mk exported.array.label inner⟩ := by
  rw [exportNamed?_eq] at h
  split at h
  · next hexport =>
    obtain ⟨declaration, hdeclaration, hnamed⟩ := Option.bind_eq_some_iff.1 h
    split at hnamed
    · next hkind =>
      obtain ⟨before, behind, rfl, hother⟩ := exists_of_child? hdeclaration
      obtain ⟨label, inside⟩ := declaration
      obtain ⟨rows, hrows, rfl, hnew⟩ := exists_rows_of_declaresNamed? hnamed
      have hencloses : label.kind.encloses = true := by
        have hcases : label.kind = .lexicalDeclaration ∨ label.kind = .variableDeclaration := by
          change label.kind.declares = true at hkind
          simpa [Kind.declares] using hkind
        rcases hcases with hlabel | hlabel <;> rw [hlabel] <;> rfl
      refine ⟨hexport, _, .within before hencloses hrows behind, rfl, fun inner => ?_⟩
      rw [exportNamed?_eq, if_pos hexport, hother (.mk label (rows inner)) rfl, Option.bind_some,
        hnew inner]
      exact if_pos hkind
    · cases hnamed
  · cases h

/-- The first array with the name among some nodes and all that is in them may be another one with the same
label. -/
def FocusesOn (name : Text) (exported : ExportedArray) (nodes : List Node) : Prop :=
  ∃ rows, Focused rows ∧ rows exported.array.children = nodes ∧
    ∀ inner, (Node.preorderAll (rows inner)).findSome? (Node.exportNamed? name) =
      some ⟨exported.name, .mk exported.array.label inner⟩

theorem FocusesOn.prepend {name : Text} {exported : ExportedArray} {nodes first : List Node}
    (h : FocusesOn name exported nodes)
    (hfirst : (Node.preorderAll first).findSome? (Node.exportNamed? name) = none) :
    FocusesOn name exported (first ++ nodes) := by
  obtain ⟨rows, hrows, rfl, hnew⟩ := h
  refine ⟨_, hrows.prepend first, rfl, fun inner => ?_⟩
  rw [Node.preorderAll_append, List.findSome?_append, hfirst, Option.none_or, hnew]

theorem FocusesOn.append {name : Text} {exported : ExportedArray} {nodes : List Node}
    (h : FocusesOn name exported nodes) (more : List Node) :
    FocusesOn name exported (nodes ++ more) := by
  obtain ⟨rows, hrows, rfl, hnew⟩ := h
  refine ⟨_, hrows.append more, rfl, fun inner => ?_⟩
  rw [Node.preorderAll_append, List.findSome?_append, hnew, Option.some_or]

theorem exportNamed?_eq_none_of_childless {name : Text} {node : Node} (h : node.children = []) :
    node.exportNamed? name = none := by
  obtain ⟨label, children⟩ := node
  obtain rfl : children = [] := h
  rw [exportNamed?_eq]
  split <;> rfl

mutual

theorem focusesOn_of_node {name : Text} {exported : ExportedArray}
    (hinner : exported.array.children ≠ []) :
    ∀ {node : Node}, node.Lexical → node.preorder.findSome? (Node.exportNamed? name) = some exported →
      FocusesOn name exported [node]
  | .mk label children, hnode, h => by
    rw [Node.preorder, List.findSome?_cons] at h
    cases hself : (Node.mk label children).exportNamed? name with
    | some found =>
      rw [hself] at h
      obtain rfl := Option.some.inj h
      obtain ⟨hexport, rows, hrows, rfl, hnew⟩ := exists_rows_of_exportNamed? hself
      refine ⟨_, .within [] (by rw [hexport]; rfl) hrows [], rfl, fun inner => ?_⟩
      show List.findSome? _ (Node.preorderAll [.mk label (rows inner)]) = _
      rw [Node.preorderAll, Node.preorder, List.cons_append, List.findSome?_cons, hnew]
    | none =>
      rw [hself] at h
      have hchildren : label.kind.encloses = true ∧ ∀ child ∈ children, child.Lexical := by
        cases hnode with
        | token => cases h
        | @name _ inside =>
          have hnone : (Node.mk inside []).exportNamed? name = none := exportNamed?_eq_none_of_childless rfl
          simp only [Node.preorderAll, Node.preorder, List.append_nil, List.findSome?_cons, hnone,
            List.findSome?_nil] at h
          cases h
        | branch hkind hlexical => exact ⟨hkind, hlexical⟩
      obtain ⟨rows, hrows, rfl, hnew⟩ := focusesOn_of_each hinner hchildren.2 h
      refine ⟨_, .within [] hchildren.1 hrows [], rfl, fun inner => ?_⟩
      show List.findSome? _ (Node.preorderAll [.mk label (rows inner)]) = _
      rw [Node.preorderAll, Node.preorder, Node.preorderAll, List.append_nil, List.findSome?_cons,
        hrows.exportNamed?_eq_none hself, hnew]

theorem focusesOn_of_each {name : Text} {exported : ExportedArray}
    (hinner : exported.array.children ≠ []) :
    ∀ {nodes : List Node}, (∀ node ∈ nodes, node.Lexical) →
      (Node.preorderAll nodes).findSome? (Node.exportNamed? name) = some exported →
      FocusesOn name exported nodes
  | [], _, h => by cases h
  | node :: rest, hnodes, h => by
    rw [List.forall_mem_cons] at hnodes
    rw [Node.preorderAll, List.findSome?_append] at h
    cases hnode : node.preorder.findSome? (Node.exportNamed? name) with
    | some found =>
      rw [hnode, Option.some_or] at h
      rw [← Option.some.inj h] at hinner ⊢
      exact (focusesOn_of_node hinner hnodes.1 hnode).append rest
    | none =>
      rw [hnode, Option.none_or] at h
      show FocusesOn name exported ([node] ++ rest)
      refine (focusesOn_of_each hinner hnodes.2 h).prepend ?_
      rw [Node.preorderAll, Node.preorderAll, List.append_nil, hnode]

end

/-- The exported array of a program in focus. -/
theorem exists_focused_of_exportedArray? {nodes : List Node} (hnodes : ∀ node ∈ nodes, node.Lexical)
    {name : Text} {exported : ExportedArray}
    (h : (Node.branch .program nodes).exportedArray? name = some exported)
    (hinner : exported.array.children ≠ []) :
    ∃ rows, Focused rows ∧ rows exported.array.children = nodes ∧
      ∀ inner, (Node.branch .program (rows inner)).exportedArray? name =
        some ⟨exported.name, .mk exported.array.label inner⟩ := by
  rw [exportedArray?_branch] at h
  simp only [exportedArray?_branch]
  exact focusesOn_of_each hinner hnodes h

end VerticalSlice.Syntax
