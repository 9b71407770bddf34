import VerticalSlice.Proofs.Syntax.Enclosing

/-!
# Building around an array

When an array is finished, what is built around it does not depend on what is in it. `Focused` says of rows
of nodes that they are the same but for the children of one array among them or below them. Each step keeps
that up (`FocusedIn.step`), and so does a run (`FocusedIn.run`).
-/

namespace VerticalSlice.Syntax

/-! ## Rows of nodes -/

/-- Is a node of this kind the name of something, or a literal? -/
def Kind.isName (kind : Kind) : Bool :=
  kind == .string || kind == .identifier || kind == .propertyIdentifier || kind == .typeIdentifier ||
    kind == .shorthandPropertyIdentifier

/-- Can there be an array in a node of this kind? -/
def Kind.encloses (kind : Kind) : Bool := kind != .comment && !kind.isName

theorem Kind.ne_comment_of_encloses {kind : Kind} (h : kind.encloses = true) : kind ≠ .comment := by
  rintro rfl
  cases h

/-- Rows that differ in the children of one array. -/
inductive Focused : (List Node → List Node) → Prop
  | here (before : List Node) {label : Label} (hkind : label.kind = .array) (behind : List Node) :
    Focused fun inner => before ++ .mk label inner :: behind
  | within {rows : List Node → List Node} (before : List Node) {label : Label}
    (hkind : label.kind.encloses = true) (hrows : Focused rows) (behind : List Node) :
    Focused fun inner => before ++ .mk label (rows inner) :: behind

namespace Focused

variable {rows : List Node → List Node}

theorem append (h : Focused rows) (more : List Node) : Focused fun inner => rows inner ++ more := by
  cases h with
  | here before hkind behind =>
    simp only [List.append_assoc, List.cons_append]
    exact .here before hkind (behind ++ more)
  | within before hkind hrows behind =>
    simp only [List.append_assoc, List.cons_append]
    exact .within before hkind hrows (behind ++ more)

theorem prepend (more : List Node) (h : Focused rows) : Focused fun inner => more ++ rows inner := by
  cases h with
  | here before hkind behind =>
    simp only [← List.append_assoc more]
    exact .here (more ++ before) hkind behind
  | within before hkind hrows behind =>
    simp only [← List.append_assoc more]
    exact .within (more ++ before) hkind hrows behind

/-- The array or the node around it, as one node among others that may have another role there. -/
theorem exists_node (h : Focused rows) :
    ∃ (before : List Node) (label : Label) (inner : List Node → List Node) (behind : List Node),
      label.kind.encloses = true ∧ (rows = fun seen => before ++ .mk label (inner seen) :: behind) ∧
      ∀ before' behind' role,
        Focused fun seen => before' ++ .mk { label with role := role } (inner seen) :: behind' := by
  cases h with
  | @here before label hkind behind =>
    exact ⟨before, label, id, behind, by rw [hkind]; rfl, rfl, fun before' behind' role =>
      @Focused.here before' { label with role := role } hkind behind'⟩
  | @within inner before label hkind hrows behind =>
    exact ⟨before, label, inner, behind, hkind, rfl, fun before' behind' role =>
      @Focused.within inner before' { label with role := role } hkind hrows behind'⟩

theorem enclose (h : Focused rows) {kind : Kind} (hkind : kind.encloses = true) :
    Focused fun inner => Syntax.enclose kind (rows inner) := by
  obtain ⟨before, label, inner, behind, hlabel, rfl, hall⟩ := h.exists_node
  have hnode : ∀ seen, (Node.mk label (inner seen)).isComment = false := fun seen =>
    isComment_mk (Kind.ne_comment_of_encloses hlabel) _
  cases hbefore : before.all Node.isComment with
  | true =>
    simp only [enclose_eq hbefore (hnode _)]
    exact @Focused.within _ before (enclosing kind label) hkind (hall [] behind label.role) []
  | false =>
    obtain ⟨comments, first, rest, rfl, hcomments, hfirst⟩ := exists_first_of_all_isComment hbefore
    simp only [List.append_assoc, List.cons_append, enclose_eq hcomments hfirst]
    exact @Focused.within _ comments (enclosing kind first.label) hkind
      (hall (first :: rest) behind label.role) []

theorem withFirstRole (h : Focused rows) (role : Role) :
    Focused fun inner => Syntax.withFirstRole role (rows inner) := by
  obtain ⟨before, label, inner, behind, hlabel, rfl, hall⟩ := h.exists_node
  have hnode : ∀ seen, (Node.mk label (inner seen)).isComment = false := fun seen =>
    isComment_mk (Kind.ne_comment_of_encloses hlabel) _
  cases hbefore : before.all Node.isComment with
  | true =>
    simp only [withFirstRole_eq hbefore (hnode _)]
    exact hall before behind (some role)
  | false =>
    obtain ⟨comments, first, rest, rfl, hcomments, hfirst⟩ := exists_first_of_all_isComment hbefore
    simp only [List.append_assoc, List.cons_append, withFirstRole_eq hcomments hfirst]
    exact (hall (first.withRole role :: rest) behind label.role).prepend comments

end Focused

/-! ## States of building -/

/-- A place in which an array may be. -/
def Site.Encloses (site : Site) : Prop := ∀ kind ∈ site.kind, kind.encloses = true

/-- States of building that differ in the children of an array in one of their places. -/
inductive FocusedIn : (List Node → Building) → Prop
  | inner {rows : List Node → List Node} {kind : Option Kind} {around : List Site}
    (hkind : ∀ k ∈ kind, k.encloses = true) (hrows : Focused rows)
    (haround : ∀ site ∈ around, site.Encloses) (items : List Item) :
    FocusedIn fun seen => ⟨⟨kind, rows seen⟩, around, items⟩
  | outer {rows : List Node → List Node} {kind : Option Kind} {around : List Site} (site : Site)
    (opened : List Site) (hkind : ∀ k ∈ kind, k.encloses = true) (hrows : Focused rows)
    (haround : ∀ site ∈ around, site.Encloses) (items : List Item) :
    FocusedIn fun seen => ⟨site, opened ++ ⟨kind, rows seen⟩ :: around, items⟩

/-- Does the step put only such nodes around others as an array can be in? -/
def Step.encloses : Step → Bool
  | .fold kind => kind.encloses
  | _ => true

namespace FocusedIn

variable {states : List Node → Building}

theorem addLeaf (h : FocusedIn states) (kind : Kind) :
    FocusedIn fun seen => (states seen).addLeaf kind := by
  cases h with
  | inner hkind hrows haround items =>
    cases items with
    | nil => exact .inner hkind hrows haround []
    | cons item rest => exact .inner hkind (hrows.append (item.leaves kind)) haround rest
  | outer site opened hkind hrows haround items =>
    cases items with
    | nil => exact .outer site opened hkind hrows haround []
    | cons item rest =>
      exact .outer { site with nodes := site.nodes ++ item.leaves kind } opened hkind hrows haround rest

theorem finish (h : FocusedIn states) : FocusedIn fun seen => (states seen).step .finish := by
  cases h with
  | @inner rows kind around hkind hrows haround items =>
    cases around with
    | nil => exact .inner hkind hrows haround items
    | cons outer around =>
      have houter := haround outer (List.mem_cons_self ..)
      have haround' : ∀ site ∈ around, site.Encloses := fun site hsite =>
        haround site (List.mem_cons_of_mem _ hsite)
      cases kind with
      | none => exact .inner houter (hrows.prepend outer.nodes) haround' items
      | some kind =>
        exact .inner houter ((hrows.enclose (hkind kind rfl)).prepend outer.nodes) haround' items
  | outer site opened hkind hrows haround items =>
    cases opened with
    | nil => exact .inner hkind (hrows.append site.result) haround items
    | cons next opened =>
      exact .outer { next with nodes := next.nodes ++ site.result } opened hkind hrows haround items

/-- A step does to all the states the same. -/
theorem step (h : FocusedIn states) {step : Step} (hstep : step.encloses = true) :
    FocusedIn fun seen => (states seen).step step := by
  cases step with
  | leaf kind => exact h.addLeaf kind
  | bound kind => exact h.addLeaf .mark
  | finish => exact h.finish
  | begin kind =>
    cases h with
    | inner hkind hrows haround items => exact .outer ⟨kind, []⟩ [] hkind hrows haround items
    | outer site opened hkind hrows haround items =>
      exact .outer ⟨kind, []⟩ (site :: opened) hkind hrows haround items
  | fold kind =>
    cases h with
    | inner hkind hrows haround items => exact .inner hkind (hrows.enclose hstep) haround items
    | outer site opened hkind hrows haround items =>
      exact .outer { site with nodes := enclose kind site.nodes } opened hkind hrows haround items
  | role role =>
    cases h with
    | inner hkind hrows haround items => exact .inner hkind (hrows.withFirstRole role) haround items
    | outer site opened hkind hrows haround items =>
      exact .outer { site with nodes := withFirstRole role site.nodes } opened hkind hrows haround items

theorem run (h : FocusedIn states) {steps : List Step} (hsteps : ∀ step ∈ steps, step.encloses = true) :
    FocusedIn fun seen => (states seen).run steps := by
  induction steps generalizing states with
  | nil => exact h
  | cons first rest ih =>
    exact ih (h.step (hsteps first (List.mem_cons_self ..))) fun step hstep =>
      hsteps step (List.mem_cons_of_mem _ hstep)

end FocusedIn

end VerticalSlice.Syntax
