import Mathlib.Data.List.Forall2
import Mathlib.Data.List.TakeWhile
import VerticalSlice.Proofs.Syntax.Exports

/-!
# Trees that differ in comments and quotes

A source text can get comments or lose them, and its quoted literals can change their quotes, without
meaning anything else. Then the node of everything that stays has the kind, the role and the line from
before, and other nodes inside only as far as these are comments (`Node.Edited`). Every question steps over
comments in its own way: some take the children that are no marks, some the first child with a role, some
walk through the whole tree. The walks of two such trees differ by comments only (`Node.Edited.preorder`),
and so do the children, so it is enough that a question takes no comment (`EditedEach.filter`,
`EditedEach.find?`, `EditedEach.flatMap`).
-/

namespace VerticalSlice

/-! ## Related options and lists -/

section

variable {α β : Type} {R : α → α → Prop}

theorem bind_eq_of_rel {first second : Option α} (h : Option.Rel R first second) {ask : α → Option β}
    (hask : ∀ a b, R a b → ask b = ask a) : second.bind ask = first.bind ask := by
  cases h with
  | none => rfl
  | some h => exact hask _ _ h

theorem rel_bind {S : β → β → Prop} {first second : Option α} (h : Option.Rel R first second)
    {ask other : α → Option β} (hask : ∀ a b, R a b → Option.Rel S (ask a) (other b)) :
    Option.Rel S (first.bind ask) (second.bind other) := by
  cases h with
  | none => exact .none
  | some h => exact hask _ _ h

theorem rel_eq_refl (result : Option α) : Option.Rel Eq result result := by
  cases result with
  | none => exact .none
  | some a => exact .some rfl

theorem forall₂_toList {first second : Option α} (h : Option.Rel R first second) :
    List.Forall₂ R first.toList second.toList := by
  cases h with
  | none => exact .nil
  | some h => exact .cons h .nil

theorem isSome_eq_of_rel {first second : Option α} (h : Option.Rel R first second) :
    second.isSome = first.isSome := by
  cases h <;> rfl

theorem isNone_eq_of_rel {first second : Option α} (h : Option.Rel R first second) :
    second.isNone = first.isNone := by
  cases h <;> rfl

theorem any_eq_of_rel {first second : Option α} (h : Option.Rel R first second) {ask : α → Bool}
    (hask : ∀ a b, R a b → ask b = ask a) : second.any ask = first.any ask := by
  cases h with
  | none => rfl
  | some h => exact hask _ _ h

variable {first second : List α} (h : List.Forall₂ R first second)

include h

theorem rel_find? {accepts : α → Bool} (haccepts : ∀ a b, R a b → accepts b = accepts a) :
    Option.Rel R (first.find? accepts) (second.find? accepts) := by
  induction h with
  | nil => exact .none
  | @cons a b first second hab _ ih =>
    rw [List.find?_cons, List.find?_cons, haccepts a b hab]
    split
    · exact .some hab
    · exact ih

theorem isEmpty_eq_of_forall₂ : second.isEmpty = first.isEmpty := by
  cases h <;> rfl

theorem any_eq_of_forall₂ {ask : α → Bool} (hask : ∀ a b, R a b → ask b = ask a) :
    second.any ask = first.any ask := by
  induction h with
  | nil => rfl
  | cons hab _ ih => rw [List.any_cons, List.any_cons, hask _ _ hab, ih]

theorem countP_eq_of_forall₂ {ask : α → Bool} (hask : ∀ a b, R a b → ask b = ask a) :
    second.countP ask = first.countP ask := by
  induction h with
  | nil => rfl
  | cons hab _ ih => rw [List.countP_cons, List.countP_cons, hask _ _ hab, ih]

theorem map_eq_of_forall₂ {ask : α → β} (hask : ∀ a b, R a b → ask b = ask a) :
    second.map ask = first.map ask := by
  induction h with
  | nil => rfl
  | cons hab _ ih => rw [List.map_cons, List.map_cons, hask _ _ hab, ih]

theorem flatMap_eq_of_forall₂ {ask : α → List β} (hask : ∀ a b, R a b → ask b = ask a) :
    second.flatMap ask = first.flatMap ask := by
  rw [List.flatMap_def, List.flatMap_def, map_eq_of_forall₂ h hask]

end

namespace Syntax

/-- The text of a literal, and one with other quotes around the same contents. -/
inductive Requoted : Text → Text → Prop
  | same (text : Text) : Requoted text text
  | switched (quote other : Char) (contents : Text) :
      Requoted (quote :: (contents ++ [quote])) (other :: (contents ++ [other]))

theorem Requoted.inner_eq {text other : Text} (h : Requoted text other) : inner other = inner text := by
  cases h with
  | same => rfl
  | switched quote other contents => simp [inner]

namespace Node

/-- Is this a comment that is nothing to its parent? -/
structure IsTrivia (node : Node) : Prop where
  kind_eq : node.kind = .comment
  role_eq : node.role = none
  children_eq : node.children = []

mutual

/-- The second tree is the first one with other comments and other quotes. Names say what they said, and
where things are in their lines does not matter. -/
inductive Edited : Node → Node → Prop
  | mk {label other : Label} {children others : List Node} (kind_eq : other.kind = label.kind)
      (role_eq : other.role = label.role) (line_eq : other.line = label.line)
      (name : label.kind.isName = true → label.kind ≠ .string →
        (Node.mk other others).text = (Node.mk label children).text)
      (literal : label.kind = .string → Requoted (Node.mk label children).text (Node.mk other others).text)
      (inside : EditedEach children others) : Edited (.mk label children) (.mk other others)

/-- The second row of trees is the first one, edited, with comments put in or left out. -/
inductive EditedEach : List Node → List Node → Prop
  | nil : EditedEach [] []
  | keep {node other : Node} {first second : List Node} (h : Edited node other)
      (rest : EditedEach first second) : EditedEach (node :: first) (other :: second)
  | put {comment : Node} {first second : List Node} (h : comment.IsTrivia)
      (rest : EditedEach first second) : EditedEach first (comment :: second)
  | drop {comment : Node} {first second : List Node} (h : comment.IsTrivia)
      (rest : EditedEach first second) : EditedEach (comment :: first) second

end

theorem IsTrivia.preorder_eq {comment : Node} (h : comment.IsTrivia) : comment.preorder = [comment] := by
  obtain ⟨label, children⟩ := comment
  obtain rfl : children = [] := h.children_eq
  rw [preorder, preorderAll]

namespace Edited

variable {node other : Node}

theorem kind_eq (h : node.Edited other) : other.kind = node.kind := by
  cases h
  assumption

theorem role_eq (h : node.Edited other) : other.role = node.role := by
  cases h
  assumption

theorem line_eq (h : node.Edited other) : other.line = node.line := by
  cases h
  assumption

theorem text_eq (h : node.Edited other) (hname : node.kind.isName = true) (hkind : node.kind ≠ .string) :
    other.text = node.text := by
  cases h with
  | mk _ _ _ name => exact name hname hkind

theorem requoted (h : node.Edited other) (hkind : node.kind = .string) : Requoted node.text other.text := by
  cases h with
  | mk _ _ _ _ literal => exact literal hkind

theorem inside (h : node.Edited other) : EditedEach node.children other.children := by
  cases h with
  | mk _ _ _ _ _ inside => exact inside

end Edited

/-! ## Walking -/

theorem EditedEach.append : ∀ {first second : List Node}, EditedEach first second →
    ∀ {more others : List Node}, EditedEach more others → EditedEach (first ++ more) (second ++ others)
  | _, _, .nil, _, _, hmore => hmore
  | _, _, .keep h rest, _, _, hmore => .keep h (rest.append hmore)
  | _, _, .put h rest, _, _, hmore => .put h (rest.append hmore)
  | _, _, .drop h rest, _, _, hmore => .drop h (rest.append hmore)

mutual

/-- The walks through two such trees differ by comments only. -/
theorem Edited.preorder : ∀ {node other : Node}, Edited node other →
    EditedEach node.preorder other.preorder
  | _, _, .mk kind_eq role_eq line_eq name literal inside => by
    rw [Node.preorder, Node.preorder]
    exact .keep (.mk kind_eq role_eq line_eq name literal inside) inside.preorderAll

theorem EditedEach.preorderAll : ∀ {first second : List Node}, EditedEach first second →
    EditedEach (preorderAll first) (preorderAll second)
  | _, _, .nil => .nil
  | _, _, .keep h rest => by
    rw [Node.preorderAll, Node.preorderAll]
    exact h.preorder.append rest.preorderAll
  | _, _, .put h rest => by
    rw [Node.preorderAll, h.preorder_eq]
    exact .put h rest.preorderAll
  | _, _, .drop h rest => by
    rw [Node.preorderAll, h.preorder_eq]
    exact .drop h rest.preorderAll

end

/-! ## Looking for something that is no comment -/

section

variable {accepts : Node → Bool} (hcomment : ∀ comment : Node, comment.IsTrivia → accepts comment = false)
  (hsame : ∀ node other : Node, node.Edited other → accepts other = accepts node)

include hcomment hsame

theorem EditedEach.filter : ∀ {first second : List Node}, EditedEach first second →
    List.Forall₂ Edited (first.filter accepts) (second.filter accepts)
  | _, _, .nil => .nil
  | node :: _, other :: _, .keep h rest => by
    rw [List.filter_cons, List.filter_cons, hsame node other h]
    split
    · exact .cons h rest.filter
    · exact rest.filter
  | _, comment :: _, .put h rest => by
    rw [List.filter_cons, hcomment comment h]
    exact rest.filter
  | comment :: _, _, .drop h rest => by
    rw [List.filter_cons, hcomment comment h]
    exact rest.filter

theorem EditedEach.find? : ∀ {first second : List Node}, EditedEach first second →
    Option.Rel Edited (first.find? accepts) (second.find? accepts)
  | _, _, .nil => .none
  | node :: _, other :: _, .keep h rest => by
    rw [List.find?_cons, List.find?_cons, hsame node other h]
    split
    · exact .some h
    · exact rest.find?
  | _, comment :: _, .put h rest => by
    rw [List.find?_cons, hcomment comment h]
    exact rest.find?
  | comment :: _, _, .drop h rest => by
    rw [List.find?_cons, hcomment comment h]
    exact rest.find?

end

/-- Where comments may be among what is looked for, they still make the only difference. -/
theorem EditedEach.sieve {accepts : Node → Bool}
    (hsame : ∀ node other : Node, node.Edited other → accepts other = accepts node) :
    ∀ {first second : List Node}, EditedEach first second →
      EditedEach (first.filter accepts) (second.filter accepts)
  | _, _, .nil => .nil
  | node :: _, other :: _, .keep h rest => by
    rw [List.filter_cons, List.filter_cons, hsame node other h]
    split
    · exact .keep h (rest.sieve hsame)
    · exact rest.sieve hsame
  | _, comment :: _, .put h rest => by
    rw [List.filter_cons]
    split
    · exact .put h (rest.sieve hsame)
    · exact rest.sieve hsame
  | comment :: _, _, .drop h rest => by
    rw [List.filter_cons]
    split
    · exact .drop h (rest.sieve hsame)
    · exact rest.sieve hsame

/-- What is gathered from nodes that are no comments. -/
theorem EditedEach.flatMap {α : Type} {R : α → α → Prop} {gather : Node → List α}
    (hcomment : ∀ comment : Node, comment.IsTrivia → gather comment = [])
    (hsame : ∀ node other : Node, node.Edited other → List.Forall₂ R (gather node) (gather other)) :
    ∀ {first second : List Node}, EditedEach first second →
      List.Forall₂ R (first.flatMap gather) (second.flatMap gather)
  | _, _, .nil => .nil
  | node :: _, other :: _, .keep h rest => by
    rw [List.flatMap_cons, List.flatMap_cons]
    exact List.rel_append (hsame node other h) (rest.flatMap hcomment hsame)
  | _, comment :: _, .put h rest => by
    rw [List.flatMap_cons, hcomment comment h]
    exact rest.flatMap hcomment hsame
  | comment :: _, _, .drop h rest => by
    rw [List.flatMap_cons, hcomment comment h]
    exact rest.flatMap hcomment hsame

theorem EditedEach.rel_filterMap {α : Type} {R : α → α → Prop} {gather : Node → Option α}
    (hcomment : ∀ comment : Node, comment.IsTrivia → gather comment = none)
    (hsame : ∀ node other : Node, node.Edited other → Option.Rel R (gather node) (gather other))
    {first second : List Node} (h : EditedEach first second) :
    List.Forall₂ R (first.filterMap gather) (second.filterMap gather) := by
  rw [List.filterMap_eq_flatMap_toList, List.filterMap_eq_flatMap_toList]
  refine h.flatMap (fun comment htrivia => ?_) fun node other hedited => ?_
  · rw [hcomment comment htrivia]
    rfl
  · exact forall₂_toList (hsame node other hedited)

theorem EditedEach.filterMap {α : Type} {gather : Node → Option α}
    (hcomment : ∀ comment : Node, comment.IsTrivia → gather comment = none)
    (hsame : ∀ node other : Node, node.Edited other → gather other = gather node) {first second : List Node}
    (h : EditedEach first second) : second.filterMap gather = first.filterMap gather := by
  have hgathered : List.Forall₂ Eq (first.filterMap gather) (second.filterMap gather) := by
    refine h.rel_filterMap hcomment fun node other hedited => ?_
    rw [hsame node other hedited]
    exact rel_eq_refl _
  rw [List.forall₂_eq_eq_eq] at hgathered
  exact hgathered.symm

/-! ## Questions about one node -/

namespace Edited

variable {node other root edited : Node}

theorem stringValue? (h : node.Edited other) : other.stringValue? = node.stringValue? := by
  rw [Node.stringValue?, Node.stringValue?, h.kind_eq]
  split
  · next hkind => rw [(h.requoted hkind).inner_eq]
  · rfl

theorem isIdentifier (h : node.Edited other) : other.isIdentifier = node.isIdentifier := by
  rw [Node.isIdentifier, Node.isIdentifier, h.kind_eq]

theorem text_of_isIdentifier (h : node.Edited other) (hname : node.isIdentifier = true) :
    other.text = node.text := by
  have hkind : node.kind.isName = true ∧ node.kind ≠ .string := by
    unfold Node.isIdentifier at hname
    revert hname
    cases node.kind <;> decide
  exact h.text_eq hkind.1 hkind.2

theorem propertyName? (h : node.Edited other) : other.propertyName? = node.propertyName? := by
  rw [Node.propertyName?, Node.propertyName?, h.kind_eq]
  split
  · next hkind => rw [h.text_eq (by rw [hkind]; rfl) (by rw [hkind]; decide)]
  · exact h.stringValue?

/-! ## Children -/

theorem child? (h : node.Edited other) (role : Role) :
    Option.Rel Edited (node.child? role) (other.child? role) := by
  refine h.inside.find? (fun comment htrivia => ?_) fun child kept hchild => ?_
  · rw [htrivia.role_eq]
    rfl
  · rw [hchild.role_eq]

theorem namedChildren (h : node.Edited other) : EditedEach node.namedChildren other.namedChildren :=
  h.inside.sieve fun child kept hchild => by rw [hchild.kind_eq]

theorem elements (h : node.Edited other) : List.Forall₂ Edited node.elements other.elements := by
  refine h.namedChildren.filter (fun comment htrivia => ?_) fun child kept hchild => ?_
  · rw [htrivia.kind_eq]
    rfl
  · rw [hchild.kind_eq]

/-! ## Properties of objects -/

theorem pairs (h : node.Edited other) :
    List.Forall₂ (fun pair kept => kept.1 = pair.1 ∧ Option.Rel Edited pair.2 kept.2) node.pairs other.pairs := by
  have hpairs : List.Forall₂ Edited (node.namedChildren.filter fun child => child.kind = .pair)
      (other.namedChildren.filter fun child => child.kind = .pair) := by
    refine h.namedChildren.filter (fun comment htrivia => ?_) fun child kept hchild => ?_
    · rw [htrivia.kind_eq]
      rfl
    · rw [hchild.kind_eq]
  refine List.rel_map (fun pair kept hpair => ⟨?_, hpair.child? .value⟩) hpairs
  exact bind_eq_of_rel (hpair.child? .key) fun key keptKey hkey => hkey.propertyName?

theorem hasProperty (h : node.Edited other) (name : Text) :
    other.hasProperty name = node.hasProperty name :=
  any_eq_of_forall₂ h.pairs fun pair kept hpair => by rw [hpair.1]

theorem property? (h : node.Edited other) (name : Text) :
    Option.Rel Edited (node.property? name) (other.property? name) :=
  rel_bind (rel_find? h.pairs fun _ _ hpair => by rw [hpair.1]) fun _ _ hpair => hpair.2

theorem propertyString? (h : node.Edited other) (name : Text) :
    other.propertyString? name = node.propertyString? name :=
  bind_eq_of_rel (h.property? name) fun _ _ hvalue => hvalue.stringValue?

/-! ## Exported arrays -/

end Edited

end Node

/-- The exported array with other comments and quotes. -/
structure ExportedArray.Edited (exported other : ExportedArray) : Prop where
  name_eq : other.name = exported.name
  array : exported.array.Edited other.array

namespace Node.Edited

variable {node other root edited : Node}

theorem boundArray? (h : node.Edited other) :
    Option.Rel ExportedArray.Edited node.boundArray? other.boundArray? := by
  unfold Node.boundArray?
  refine rel_bind (h.child? .name) fun name otherName hname => ?_
  refine rel_bind (h.child? .value) fun value otherValue hvalue => ?_
  rw [h.kind_eq, hname.kind_eq, hvalue.kind_eq]
  split
  · next hkinds =>
    rw [Bool.and_eq_true, Bool.and_eq_true, decide_eq_true_eq, decide_eq_true_eq] at hkinds
    refine .some ⟨?_, hvalue⟩
    exact hname.text_of_isIdentifier (by rw [Node.isIdentifier, hkinds.1.2]; rfl)
  · exact .none

theorem forall₂_arraysOfExport (h : node.Edited other) :
    List.Forall₂ ExportedArray.Edited node.arraysOfExport other.arraysOfExport := by
  rw [Node.arraysOfExport, Node.arraysOfExport, h.kind_eq]
  split
  · have hdeclaration := h.child? .declaration
    generalize node.child? .declaration = first at hdeclaration ⊢
    generalize other.child? .declaration = second at hdeclaration ⊢
    cases hdeclaration with
    | none => exact .nil
    | @some declaration kept hkept =>
      dsimp only
      rw [hkept.kind_eq]
      split
      · refine hkept.namedChildren.rel_filterMap (fun comment htrivia => ?_) fun _ _ => boundArray?
        exact boundArray?_eq_none (by rw [htrivia.kind_eq]; decide)
      · exact .nil
  · exact .nil

theorem forall₂_exportedArrays (h : root.Edited edited) :
    List.Forall₂ ExportedArray.Edited root.exportedArrays edited.exportedArrays := by
  rw [Node.exportedArrays, Node.exportedArrays, walk_eq_preorder, walk_eq_preorder]
  refine h.preorder.flatMap (fun comment htrivia => ?_) fun node other => forall₂_arraysOfExport
  rw [Node.arraysOfExport, htrivia.kind_eq]
  rfl

theorem exportedArray? (h : root.Edited edited) (name : Text) :
    Option.Rel ExportedArray.Edited (root.exportedArray? name) (edited.exportedArray? name) :=
  rel_find? h.forall₂_exportedArrays fun _ _ hexported => by rw [hexported.name_eq]

/-! ## Imports -/

theorem deferredArgument? (h : node.Edited other) :
    Option.Rel Edited node.deferredArgument? other.deferredArgument? := by
  rw [Node.deferredArgument?, Node.deferredArgument?, h.kind_eq]
  split
  · refine rel_bind (h.child? .function) fun function otherFunction hfunction => ?_
    rw [hfunction.kind_eq]
    split
    · refine rel_bind (h.child? .arguments) fun arguments otherArguments harguments => ?_
      refine harguments.namedChildren.find? (fun comment htrivia => ?_) fun child kept hchild => ?_
      · rw [htrivia.kind_eq]
        rfl
      · rw [hchild.kind_eq]
    · exact .none
  · exact .none

theorem deferredTarget? (h : node.Edited other) : other.deferredTarget? = node.deferredTarget? :=
  bind_eq_of_rel h.deferredArgument? fun _ _ hargument => hargument.stringValue?

theorem deferredTarget?_comment {comment : Node} (h : comment.IsTrivia) : comment.deferredTarget? = none := by
  rw [Node.deferredTarget?, Node.deferredArgument?, h.kind_eq]
  rfl

theorem deferredImports (h : root.Edited edited) : edited.deferredImports = root.deferredImports := by
  rw [Node.deferredImports, Node.deferredImports, walk_eq_preorder, walk_eq_preorder]
  exact h.preorder.filterMap (fun _ => deferredTarget?_comment) fun _ _ => deferredTarget?

theorem hasDeferredImport (h : root.Edited edited) (accept : Text → Bool) :
    edited.hasDeferredImport accept = root.hasDeferredImport accept := by
  rw [Node.hasDeferredImport, Node.hasDeferredImport, h.deferredImports]

theorem importReference? (h : node.Edited other) (includeDeferred : Bool) :
    other.importReference? includeDeferred = node.importReference? includeDeferred := by
  have hsource : (other.child? .source).bind Node.stringValue? = (node.child? .source).bind Node.stringValue? :=
    bind_eq_of_rel (h.child? .source) fun _ _ hsource => hsource.stringValue?
  rw [Node.importReference?, Node.importReference?, h.kind_eq, hsource, h.line_eq, h.deferredTarget?]

theorem importReferences (h : root.Edited edited) (includeDeferred : Bool) :
    edited.importReferences includeDeferred = root.importReferences includeDeferred := by
  rw [Node.importReferences, Node.importReferences, walk_eq_preorder, walk_eq_preorder]
  refine h.preorder.filterMap (fun comment htrivia => ?_) fun _ _ hedited => hedited.importReference? _
  rw [Node.importReference?, htrivia.kind_eq, deferredTarget?_comment htrivia]
  cases includeDeferred <;> rfl

theorem staticImports (h : root.Edited edited) : edited.staticImports = root.staticImports := by
  rw [Node.staticImports, Node.staticImports, h.importReferences]

/-! ## Names and literals -/

theorem containsIdentifier (h : root.Edited edited) (name : Text) :
    edited.containsIdentifier name = root.containsIdentifier name := by
  rw [Node.containsIdentifier, Node.containsIdentifier, Node.find?, Node.find?, walk_eq_preorder,
    walk_eq_preorder]
  refine isSome_eq_of_rel (h.preorder.find? (fun comment htrivia => ?_) fun node other hedited => ?_)
  · rw [Node.isIdentifier, htrivia.kind_eq]
    rfl
  · rw [hedited.isIdentifier]
    cases hname : node.isIdentifier with
    | false => rfl
    | true => rw [hedited.text_of_isIdentifier hname]

theorem containsString (h : root.Edited edited) (value : Text) :
    edited.containsString value = root.containsString value := by
  rw [Node.containsString, Node.containsString, Node.find?, Node.find?, walk_eq_preorder, walk_eq_preorder]
  refine isSome_eq_of_rel (h.preorder.find? (fun comment htrivia => ?_) fun node other hedited => ?_)
  · rw [Node.stringValue?, htrivia.kind_eq]
    rfl
  · rw [hedited.stringValue?]

end Node.Edited

/-- Is the node a quoted literal or a template? -/
def Node.isLiteral (node : Node) : Bool := node.kind = .string || node.kind = .templateString

/-- The quoted literals and the templates of a tree. -/
def Node.literalNodes (root : Node) : List Node := root.walk.filter isLiteral

/-- What is told of a literal: its contents and its line. -/
def Node.literalEntry (node : Node) : Text × Nat := (inner node.text, node.line)

theorem Node.literals_eq (root : Node) : root.literals = root.literalNodes.map literalEntry := by
  rw [literals, literalNodes]
  induction root.walk with
  | nil => rfl
  | cons node rest ih =>
    rw [List.filterMap_cons, List.filter_cons, ih, literal?]
    cases hliteral : node.isLiteral with
    | false =>
      rw [isLiteral] at hliteral
      rw [hliteral]
      rfl
    | true =>
      rw [isLiteral] at hliteral
      rw [hliteral]
      rfl

/-- A literal stays what it is, on its line. What is quoted stays as well; the contents of a template are its
text in the source, whatever is edited there. -/
structure Node.KeepsLiteral (node other : Node) : Prop where
  kind_eq : other.kind = node.kind
  line_eq : other.line = node.line
  inner_eq : node.kind = .string → inner other.text = inner node.text

theorem Node.Edited.forall₂_literalNodes {root edited : Node} (h : root.Edited edited) :
    List.Forall₂ Node.KeepsLiteral root.literalNodes edited.literalNodes := by
  rw [Node.literalNodes, Node.literalNodes, walk_eq_preorder, walk_eq_preorder]
  refine (h.preorder.filter (fun comment htrivia => ?_) fun node other hedited => ?_).imp
    fun node other hedited => ⟨hedited.kind_eq, hedited.line_eq, fun hkind => (hedited.requoted hkind).inner_eq⟩
  · rw [Node.isLiteral, htrivia.kind_eq]
    rfl
  · rw [Node.isLiteral, Node.isLiteral, hedited.kind_eq]

/-- Where the templates keep their texts, all literals say the same. -/
theorem Node.Edited.literals {root edited : Node} (h : root.Edited edited)
    (htemplates : List.Forall₂ (fun node other => node.kind = .templateString → other.text = node.text)
      root.literalNodes edited.literalNodes) : edited.literals = root.literals := by
  have hkept : List.Forall₂ (fun node other => Node.literalEntry other = node.literalEntry)
      root.literalNodes edited.literalNodes := by
    have hliterals : List.Forall₂ (fun node other => node.isLiteral = true ∧ node.KeepsLiteral other)
        root.literalNodes edited.literalNodes :=
      (List.forall₂_and_left _ _).2 ⟨fun node hnode => (List.mem_filter.1 hnode).2, h.forall₂_literalNodes⟩
    refine hliterals.mp (fun node other ⟨hliteral, hkeeps⟩ htemplate => ?_) htemplates
    have hinner : inner other.text = inner node.text := by
      rw [Node.isLiteral, Bool.or_eq_true, decide_eq_true_eq, decide_eq_true_eq] at hliteral
      rcases hliteral with hstring | hkind
      · exact hkeeps.inner_eq hstring
      · rw [htemplate hkind]
    rw [Node.literalEntry, Node.literalEntry, hinner, hkeeps.line_eq]
  rw [Node.literals_eq, Node.literals_eq]
  exact map_eq_of_forall₂ hkept fun _ _ hentry => hentry

/-! ## Comparing two trees -/

/-- Are these the texts of a literal with other quotes at most? -/
def requotes (text other : Text) : Bool :=
  text == other ||
    match text, other with
    | quote :: _, mark :: _ => text == quote :: (inner text ++ [quote]) && other == mark :: (inner text ++ [mark])
    | _, _ => false

theorem requoted_of_requotes {text other : Text} (h : requotes text other = true) : Requoted text other := by
  unfold requotes at h
  rcases (Bool.or_eq_true _ _).mp h with h | h
  · obtain rfl := eq_of_beq h
    exact .same text
  · cases text with
    | nil => cases h
    | cons quote rest =>
      cases other with
      | nil => cases h
      | cons mark more =>
        dsimp only at h
        rw [Bool.and_eq_true, beq_iff_eq, beq_iff_eq] at h
        rw [h.1, h.2]
        exact .switched quote mark _

namespace Node

def isTrivia (node : Node) : Bool := node.kind = .comment && node.role = none && node.children.isEmpty

theorem isTrivia_iff {node : Node} : node.isTrivia = true ↔ node.IsTrivia := by
  rw [isTrivia, Bool.and_eq_true, Bool.and_eq_true, decide_eq_true_eq, decide_eq_true_eq, List.isEmpty_iff]
  exact ⟨fun h => ⟨h.1.1, h.1.2, h.2⟩, fun h => ⟨⟨h.kind_eq, h.role_eq⟩, h.children_eq⟩⟩

/-- Does the node say of itself what the other one says? -/
def saysAlike (node other : Node) : Bool :=
  other.kind = node.kind && other.role = node.role && other.line = node.line &&
    if node.kind = .string then requotes node.text other.text
    else !node.kind.isName || other.text = node.text

mutual

/-- Compares two trees, comments and quotes aside. -/
def isEdited : Node → Node → Bool
  | .mk label children, other => (mk label children).saysAlike other && isEditedEach children other.children

def isEditedEach : List Node → List Node → Bool
  | [], others => others.all isTrivia
  | node :: first, others =>
    if node.isTrivia then isEditedEach first others
    else
      match others.dropWhile isTrivia with
      | [] => false
      | other :: second => isEdited node other && isEditedEach first second

end

theorem EditedEach.prepend {first second : List Node} (h : EditedEach first second) {comments : List Node}
    (hcomments : ∀ comment ∈ comments, comment.IsTrivia) : EditedEach first (comments ++ second) := by
  induction comments with
  | nil => exact h
  | cons comment rest ih =>
    rw [List.forall_mem_cons] at hcomments
    exact .put hcomments.1 (ih hcomments.2)

mutual

theorem edited_of_isEdited : ∀ {node other : Node}, node.isEdited other = true → node.Edited other
  | .mk label children, .mk other others, h => by
    rw [isEdited, saysAlike, Bool.and_eq_true, Bool.and_eq_true, Bool.and_eq_true, Bool.and_eq_true,
      decide_eq_true_eq, decide_eq_true_eq, decide_eq_true_eq] at h
    obtain ⟨⟨⟨⟨hkind, hrole⟩, hline⟩, htext⟩, hchildren⟩ := h
    change (if label.kind = .string then _ else !label.kind.isName || _) = true at htext
    refine .mk hkind hrole hline (fun hname hstring => ?_) (fun hstring => ?_) (editedEach_of_isEditedEach hchildren)
    · rw [if_neg hstring, hname, Bool.not_true, Bool.false_or, decide_eq_true_eq] at htext
      exact htext
    · rw [if_pos hstring] at htext
      exact requoted_of_requotes htext

theorem editedEach_of_isEditedEach :
    ∀ {first second : List Node}, isEditedEach first second = true → EditedEach first second
  | [], others, h => by
    rw [isEditedEach, List.all_eq_true] at h
    have hcomments := EditedEach.nil.prepend fun comment hcomment => isTrivia_iff.1 (h comment hcomment)
    rwa [List.append_nil] at hcomments
  | node :: first, others, h => by
    rw [isEditedEach] at h
    split at h
    · next htrivia => exact .drop (isTrivia_iff.1 htrivia) (editedEach_of_isEditedEach h)
    · split at h
      · cases h
      · next other second hrest =>
        rw [Bool.and_eq_true] at h
        rw [← List.takeWhile_append_dropWhile (p := isTrivia) (l := others), hrest]
        refine (EditedEach.keep (edited_of_isEdited h.1) (editedEach_of_isEditedEach h.2)).prepend ?_
        exact fun comment hcomment => isTrivia_iff.1 (List.mem_takeWhile_imp hcomment)

end

end Node

end Syntax

end VerticalSlice
