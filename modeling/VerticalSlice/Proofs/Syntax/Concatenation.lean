import VerticalSlice.Proofs.Syntax.FilledTree
import VerticalSlice.Proofs.Syntax.Insertion

/-!
# Texts, tokens and steps that are put together

What is made of two rows that come one behind the other is what is made of each, put together: the places
of lexemes (`placeFrom_append`), the views of items (`viewsFrom_append`) and the nodes that steps build. For
the nodes the steps have to keep to the places that they begin themselves (`keepsInside`): then they add
the nodes that they build from their tokens to whatever place they are taken in (`run_of_keepsInside`).
-/

namespace VerticalSlice.Syntax

/-! ## Places -/

/-- The text that lexemes make up. -/
def spelled (lexemes : List Lexeme) : Text := lexemes.flatMap fun lexeme => lexeme.blanks ++ lexeme.text

theorem spelled_cons (lexeme : Lexeme) (rest : List Lexeme) :
    spelled (lexeme :: rest) = lexeme.blanks ++ lexeme.text ++ spelled rest := List.flatMap_cons

theorem spelled_append (first second : List Lexeme) :
    spelled (first ++ second) = spelled first ++ spelled second := List.flatMap_append

/-- Has a line break come since the last lexeme that is no comment? `broken` says so of what is in front. -/
def brokenBehind (broken : Bool) : List Lexeme → Bool
  | [] => broken
  | lexeme :: rest =>
    brokenBehind (lexeme.sort == .comment &&
      ((broken || lexeme.blanks.any isLineBreak) || lexeme.text.any isLineBreak)) rest

/-- The second of two rows is placed where the first one ends. -/
theorem placeFrom_append (first second : List Lexeme) (offset line : Nat) (broken : Bool) :
    placeFrom offset line broken (first ++ second) =
      placeFrom offset line broken first ++
        placeFrom (offset + (spelled first).length) (line + (spelled first).count '\n')
          (brokenBehind broken first) second := by
  induction first generalizing offset line broken with
  | nil => rfl
  | cons lexeme rest ih =>
    rw [List.cons_append, placeFrom, placeFrom, List.cons_append, spelled_cons, List.length_append,
      List.length_append, List.count_append, List.count_append, ← Nat.add_assoc, ← Nat.add_assoc,
      ← Nat.add_assoc, ← Nat.add_assoc, brokenBehind]
    exact congrArg _ (ih _ _ _)

/-! ## Items and views -/

/-- The comments at the end of the first of two rows go to the first item of the second. -/
theorem itemsFrom_append (waiting first second : List Token) :
    itemsFrom waiting (first ++ second) =
      ((itemsFrom waiting first).1 ++ (itemsFrom (itemsFrom waiting first).2 second).1,
        (itemsFrom (itemsFrom waiting first).2 second).2) := by
  induction first generalizing waiting with
  | nil => rfl
  | cons token rest ih =>
    rw [List.cons_append, itemsFrom, itemsFrom]
    split
    · exact ih _
    · rw [ih]
      rfl

/-- Does a new item of the text begin behind these views? `apart` says so where there are none. -/
def beginsBehind (apart : Bool) (views : List View) : Bool :=
  views.getLast?.elim apart View.beginsItem

theorem viewsFrom_append (apart : Bool) (first second : List Item) :
    viewsFrom apart (first ++ second) =
      viewsFrom apart first ++ viewsFrom (beginsBehind apart (viewsFrom apart first)) second := by
  induction first generalizing apart with
  | nil => rfl
  | cons item rest ih =>
    rw [List.cons_append, viewsFrom, viewsFrom, List.cons_append, ih]
    have hlast : ∀ (view : View) (views : List View),
        beginsBehind apart (view :: views) = beginsBehind view.beginsItem views := by
      intro view views
      cases views with
      | nil => rfl
      | cons other views => rw [beginsBehind, List.getLast?_cons_cons, beginsBehind,
          List.getLast?_cons, Option.elim_some, Option.elim_some]
    rw [hlast]

/-! ## Steps -/

/-- Do the steps, taken in a place with `depth` more around it that they have begun, finish what they begin
and leave alone what is around? -/
def keepsInside : Nat → List Step → Bool
  | depth, [] => depth == 0
  | depth, .leaf _ :: rest | depth, .bound _ :: rest => keepsInside depth rest
  | depth, .begin _ :: rest => keepsInside (depth + 1) rest
  | 0, .finish :: _ | 0, .fold _ :: _ | 0, .role _ :: _ => false
  | depth + 1, .finish :: rest => keepsInside depth rest
  | depth + 1, .fold _ :: rest | depth + 1, .role _ :: rest => keepsInside (depth + 1) rest

namespace Building

theorem run_append (building : Building) (first second : List Step) :
    building.run (first ++ second) = (building.run first).run second := List.foldl_append

theorem items_step (building : Building) (step : Step) :
    (building.step step).items = building.items.drop (if step.takes then 1 else 0) := by
  obtain ⟨site, around, items⟩ := building
  cases step with
  | leaf kind => cases items <;> rfl
  | bound kind => cases items <;> rfl
  | finish => cases around <;> rfl
  | begin kind | fold kind | role role => rfl

theorem items_run (building : Building) (steps : List Step) :
    (building.run steps).items = building.items.drop (taken steps) := by
  induction steps generalizing building with
  | nil => rfl
  | cons step rest ih =>
    rw [run, List.foldl_cons, ← run, ih, items_step, List.drop_drop, taken_cons]

/-- The state of building with more items to come. -/
def withMore (building : Building) (more : List Item) : Building :=
  { building with items := building.items ++ more }

theorem step_withMore {building : Building} {step : Step}
    (h : (if step.takes then 1 else 0) ≤ building.items.length) (more : List Item) :
    (building.withMore more).step step = (building.step step).withMore more := by
  obtain ⟨site, around, items⟩ := building
  cases step with
  | leaf kind | bound kind =>
    cases items with
    | nil => exact absurd h (Nat.not_succ_le_zero 0)
    | cons item rest => rfl
  | finish => cases around <;> rfl
  | begin kind | fold kind | role role => rfl

/-- Steps do not see what is behind the tokens that they take. -/
theorem run_withMore {steps : List Step} {building : Building}
    (h : taken steps ≤ building.items.length) (more : List Item) :
    (building.withMore more).run steps = (building.run steps).withMore more := by
  induction steps generalizing building with
  | nil => rfl
  | cons step rest ih =>
    rw [taken_cons] at h
    rw [run, List.foldl_cons, step_withMore (by omega), ← run, ih, run, run, List.foldl_cons]
    rw [items_step, List.length_drop]
    omega

/-- The state of building in the innermost of the places `opened`, which are in the place `bottom`. -/
def inside (opened : List Site) (bottom : Site) (around : List Site) (items : List Item) : Building :=
  match opened with
  | [] => ⟨bottom, around, items⟩
  | top :: outer => ⟨top, outer ++ bottom :: around, items⟩

/-- Steps that keep inside add some nodes to the place they are taken in. -/
theorem exists_nodes_of_keepsInside {steps : List Step} {opened : List Site}
    (h : keepsInside opened.length steps = true) (items : List Item) :
    ∃ nodes, ∀ (bottom : Site) (around : List Site),
      (inside opened bottom around items).run steps =
        ⟨{ bottom with nodes := bottom.nodes ++ nodes }, around, items.drop (taken steps)⟩ := by
  induction steps generalizing opened items with
  | nil =>
    cases opened with
    | nil => exact ⟨[], fun bottom around => by rw [List.append_nil]; rfl⟩
    | cons top outer => cases h
  | cons step rest ih =>
    -- what is left to be done once the step is known to lead from one such state to another
    have hstep : ∀ opened' : List Site, keepsInside opened'.length rest = true →
        ∀ added, (∀ (bottom : Site) (around : List Site), (inside opened bottom around items).step step =
          inside opened' { bottom with nodes := bottom.nodes ++ added } around
            (items.drop (if step.takes then 1 else 0))) →
        ∃ nodes, ∀ (bottom : Site) (around : List Site),
          (inside opened bottom around items).run (step :: rest) =
            ⟨{ bottom with nodes := bottom.nodes ++ nodes }, around,
              items.drop (taken (step :: rest))⟩ := by
      intro opened' hrest added hadded
      obtain ⟨nodes, hnodes⟩ := ih hrest (items.drop (if step.takes then 1 else 0))
      refine ⟨added ++ nodes, fun bottom around => ?_⟩
      rw [run, List.foldl_cons, hadded, ← run, hnodes, List.drop_drop, ← taken_cons,
        List.append_assoc]
    have hleaf : ∀ kind, (∀ building : Building, building.step step = building.addLeaf kind) →
        step.takes = true → keepsInside opened.length rest = true →
        ∃ nodes, ∀ (bottom : Site) (around : List Site),
          (inside opened bottom around items).run (step :: rest) =
            ⟨{ bottom with nodes := bottom.nodes ++ nodes }, around,
              items.drop (taken (step :: rest))⟩ := by
      intro kind hadd htakes hrest
      cases opened with
      | nil =>
        cases items with
        | nil =>
          refine hstep [] hrest [] fun bottom around => ?_
          rw [hadd, List.append_nil, List.drop_nil]
          rfl
        | cons item items =>
          refine hstep [] hrest (item.leaves kind) fun bottom around => ?_
          rw [hadd, if_pos htakes]
          rfl
      | cons top outer =>
        cases items with
        | nil =>
          refine hstep (top :: outer) hrest [] fun bottom around => ?_
          rw [hadd, List.append_nil, List.drop_nil]
          rfl
        | cons item items =>
          refine hstep ({ top with nodes := top.nodes ++ item.leaves kind } :: outer) hrest []
            fun bottom around => ?_
          rw [hadd, if_pos htakes, List.append_nil]
          rfl
    cases step with
    | leaf kind => exact hleaf kind (fun _ => rfl) rfl h
    | bound kind => exact hleaf .mark (fun _ => rfl) rfl h
    | begin kind =>
      refine hstep (⟨kind, []⟩ :: opened) h [] fun bottom around => ?_
      rw [List.append_nil]
      cases opened <;> rfl
    | finish =>
      cases opened with
      | nil => cases h
      | cons top outer =>
        cases outer with
        | nil => exact hstep [] h top.result fun bottom around => rfl
        | cons next outer =>
          refine hstep ({ next with nodes := next.nodes ++ top.result } :: outer) h []
            fun bottom around => ?_
          rw [List.append_nil]
          rfl
    | fold kind =>
      cases opened with
      | nil => cases h
      | cons top outer =>
        refine hstep ({ top with nodes := enclose kind top.nodes } :: outer) h []
          fun bottom around => ?_
        rw [List.append_nil]
        rfl
    | role role =>
      cases opened with
      | nil => cases h
      | cons top outer =>
        refine hstep ({ top with nodes := withFirstRole role top.nodes } :: outer) h []
          fun bottom around => ?_
        rw [List.append_nil]
        rfl

/-- Steps that keep inside add the nodes that they build to the place they are taken in. -/
theorem run_of_keepsInside {steps : List Step} (h : keepsInside 0 steps = true) (site : Site)
    (around : List Site) (items : List Item) :
    (Building.mk site around items).run steps =
      ⟨{ site with nodes := site.nodes ++ build steps items }, around, items.drop (taken steps)⟩ := by
  obtain ⟨nodes, hnodes⟩ := @exists_nodes_of_keepsInside steps [] h items
  have hbuild : build steps items = nodes := by
    rw [build]
    exact congrArg (·.site.nodes) (hnodes ⟨none, []⟩ [])
  rw [hbuild]
  exact hnodes site around

end Building

theorem build_append_items {steps : List Step} {items : List Item} (h : taken steps ≤ items.length)
    (more : List Item) : build steps (items ++ more) = build steps items := by
  rw [build, build]
  exact congrArg (·.site.nodes) (@Building.run_withMore steps ⟨⟨none, []⟩, [], items⟩ h more)

end VerticalSlice.Syntax
