import VerticalSlice.Proofs.Syntax.Probe

/-!
# One more item in a list

An item in brackets, with a comma behind it, is put into a list in square brackets, in front of another
item that begins with a bracket, or of the bracket that ends the list. No test of a rule sees the difference
from in front of the item, because rules look neither into brackets nor past commas (`holds_insert`). So the
readings stay what they were, but for the steps of the item, and for readings that the item does not fit into
(`carries_read`). In particular the first reading of the whole is the first one from before with the steps of
the item in it, if it reads the list as an array (`find?_carries`).
-/

namespace VerticalSlice.Syntax

/-! ## What is seen from in front of an item -/

/-- Do the views end where an item of a list in square brackets may begin? -/
def awaitsItem (front : List View) : Bool :=
  front.getLast?.any fun view => view.sign = ['['] || view.isComma

/-- An item in brackets with the comma behind it. -/
structure IsItem (item : List View) : Prop where
  opens : (viewAt 0 item).opens = true
  group : ∀ depth rest, behindGroup depth (item ++ rest) = behindGroup depth rest
  angles : ∀ angles brackets bounded rest, behindAngles angles brackets bounded (item ++ rest) =
    behindAngles angles brackets bounded rest

theorem View.sign_of_awaitsItem {view : View} (h : awaitsItem [view] = true) :
    view.sign = ['['] ∨ view.sign = [','] := by
  simpa [awaitsItem, View.isComma] using h

theorem View.beginsItem_of_awaitsItem {view : View} (h : awaitsItem [view] = true) :
    view.beginsItem = true := by
  rcases View.sign_of_awaitsItem h with h | h <;>
    simp [View.beginsItem, View.isComma, View.opens, h]

theorem View.closes_of_awaitsItem {view : View} (h : awaitsItem [view] = true) :
    view.closes = false := by
  rcases View.sign_of_awaitsItem h with h | h <;> simp [View.closes, h]

section

variable {item behind front : List View}

theorem awaitsItem_cons {view : View} (h : awaitsItem (view :: front) = true) :
    front = [] ∧ awaitsItem [view] = true ∨ awaitsItem front = true := by
  cases front with
  | nil => exact .inl ⟨rfl, h⟩
  | cons next front => exact .inr h

theorem viewAt_insert (hfront : awaitsItem front = true) (count : Nat) :
    viewAt count (front ++ (item ++ behind)) = viewAt count (front ++ behind) := by
  induction front generalizing count with
  | nil => cases hfront
  | cons view front ih =>
    cases count with
    | zero => rfl
    | succ count =>
      rw [List.cons_append, List.cons_append, viewAt, viewAt]
      rcases awaitsItem_cons hfront with ⟨rfl, hview⟩ | hfront
      · rw [if_pos (View.beginsItem_of_awaitsItem hview),
          if_pos (View.beginsItem_of_awaitsItem hview)]
      · rw [ih hfront]

/-- Where brackets are skipped, what comes next behind them is the same. -/
theorem headD_behindGroup_insert (hitem : IsItem item) (hfront : awaitsItem front = true)
    (depth : Nat) : (behindGroup depth (front ++ (item ++ behind))).headD .finish =
      (behindGroup depth (front ++ behind)).headD .finish := by
  induction front generalizing depth with
  | nil => cases hfront
  | cons view front ih =>
    have hrest : ∀ depth, (behindGroup depth (front ++ (item ++ behind))).headD .finish =
        (behindGroup depth (front ++ behind)).headD .finish := by
      rcases awaitsItem_cons hfront with ⟨rfl, -⟩ | hfront
      · intro depth
        rw [List.nil_append, hitem.group]
        rfl
      · exact ih hfront
    unfold behindGroup
    rw [List.cons_append, List.cons_append]
    dsimp only
    split
    · exact hrest _
    · split
      · next hcloses =>
        cases depth with
        | zero =>
          rcases awaitsItem_cons hfront with ⟨rfl, hview⟩ | hfront
          · rw [View.closes_of_awaitsItem hview] at hcloses
            cases hcloses
          · cases front with
            | nil => cases hfront
            | cons next front => rfl
        | succ depth => exact hrest _
      · exact hrest _

theorem viewBehind_insert (hitem : IsItem item) (hfront : awaitsItem front = true) (count : Nat) :
    viewBehind count (front ++ (item ++ behind)) = viewBehind count (front ++ behind) := by
  induction front generalizing count with
  | nil => cases hfront
  | cons view front ih =>
    cases count with
    | zero =>
      rw [List.cons_append, List.cons_append, viewBehind, viewBehind]
      rcases awaitsItem_cons hfront with ⟨rfl, -⟩ | hfront
      · rw [List.nil_append, hitem.group]
        rfl
      · rw [headD_behindGroup_insert hitem hfront]
    | succ count =>
      rw [List.cons_append, List.cons_append, viewBehind, viewBehind]
      rcases awaitsItem_cons hfront with ⟨rfl, hview⟩ | hfront
      · rw [if_pos (View.beginsItem_of_awaitsItem hview),
          if_pos (View.beginsItem_of_awaitsItem hview)]
      · rw [ih hfront]

theorem View.isStructural_of_opens {view : View} (h : view.opens = true) : view.isStructural = true := by
  rw [View.isStructural, h, Bool.or_true, Bool.true_or]

/-- What the brackets of a list begin with is hidden where that is a bracket itself. -/
theorem viewInside_of_isStructural {bracket : View} {views : List View} (count : Nat)
    (h : (viewAt 0 views).isStructural = true) : viewInside count (bracket :: views) = .hidden := by
  cases views with
  | nil => rfl
  | cons view views =>
    have hview : view.isStructural = true := h
    rw [viewInside, hview, Bool.not_true, Bool.and_false, if_neg Bool.false_ne_true]

theorem viewInside_insert (hitem : IsItem item) (hbehind : (viewAt 0 behind).isStructural = true)
    (hfront : awaitsItem front = true) (count : Nat) :
    viewInside count (front ++ (item ++ behind)) = viewInside count (front ++ behind) := by
  cases front with
  | nil => cases hfront
  | cons bracket front =>
    rcases awaitsItem_cons hfront with ⟨rfl, -⟩ | hfront
    · have hall : (viewAt 0 (item ++ behind)).isStructural = true := by
        cases item with
        | nil => exact hbehind
        | cons view item => exact View.isStructural_of_opens hitem.opens
      rw [List.singleton_append, List.singleton_append, viewInside_of_isStructural count hall,
        viewInside_of_isStructural count hbehind]
    · cases front with
      | nil => cases hfront
      | cons view front =>
        have hat : viewAt count (view :: (front ++ (item ++ behind))) =
            viewAt count (view :: (front ++ behind)) := viewAt_insert hfront count
        rw [List.cons_append, List.cons_append, List.cons_append, List.cons_append, viewInside,
          viewInside, hat]

/-- Where angle brackets are skipped, what comes next behind them is the same. -/
theorem headD_behindAngles_insert (hitem : IsItem item) (hfront : awaitsItem front = true)
    (angles brackets : Nat) (bounded : Bool) :
    (behindAngles angles brackets bounded (front ++ (item ++ behind))).map (·.headD .finish) =
      (behindAngles angles brackets bounded (front ++ behind)).map (·.headD .finish) := by
  induction front generalizing angles brackets bounded with
  | nil => cases hfront
  | cons view front ih =>
    have hrest : ∀ angles brackets bounded,
        (behindAngles angles brackets bounded (front ++ (item ++ behind))).map (·.headD .finish) =
          (behindAngles angles brackets bounded (front ++ behind)).map (·.headD .finish) := by
      rcases awaitsItem_cons hfront with ⟨rfl, -⟩ | hfront
      · intro angles brackets bounded
        rw [List.nil_append, hitem.angles]
        rfl
      · exact ih hfront
    unfold behindAngles
    rw [List.cons_append, List.cons_append]
    dsimp only
    split
    · exact hrest _ _ _
    · split
      · cases brackets with
        | zero => rfl
        | succ brackets => exact hrest _ _ _
      · split
        · exact hrest _ _ _
        · split
          · exact hrest _ _ _
          · split
            · next hangle =>
              cases angles with
              | zero =>
                rcases awaitsItem_cons hfront with ⟨rfl, hview⟩ | hfront
                · rcases View.sign_of_awaitsItem hview with h | h <;>
                    exact absurd (hangle.symm.trans h) (by decide)
                · cases front with
                  | nil => cases hfront
                  | cons next front => rfl
              | succ angles => exact hrest _ _ _
            · split
              · exact hrest _ _ _
              · rfl

theorem viewBehindTypes_eq (view : View) (rest : List View) :
    viewBehindTypes (view :: rest) =
      ((behindAngles 0 0 false rest).map (·.headD .finish)).getD .hidden := by
  rw [viewBehindTypes]
  cases behindAngles 0 0 false rest <;> rfl

theorem viewBehindTypes_insert (hitem : IsItem item) (hfront : awaitsItem front = true) :
    viewBehindTypes (front ++ (item ++ behind)) = viewBehindTypes (front ++ behind) := by
  cases front with
  | nil => cases hfront
  | cons view front =>
    rw [List.cons_append, List.cons_append, viewBehindTypes_eq, viewBehindTypes_eq]
    rcases awaitsItem_cons hfront with ⟨rfl, -⟩ | hfront
    · rw [List.nil_append, hitem.angles]
      rfl
    · rw [headD_behindAngles_insert hitem hfront]

/-- In front of an item it cannot be seen that there is one more. -/
theorem holds_insert (hitem : IsItem item) (hbehind : (viewAt 0 behind).isStructural = true)
    (hfront : awaitsItem front = true) (test : Test) :
    test.holds (front ++ (item ++ behind)) = test.holds (front ++ behind) := by
  induction test with
  | see place look =>
    have hview : place.view (front ++ (item ++ behind)) = place.view (front ++ behind) := by
      cases place with
      | next count => exact viewAt_insert hfront count
      | inside count => exact viewInside_insert hitem hbehind hfront count
      | behind count => exact viewBehind_insert hitem hfront count
      | behindTypes => exact viewBehindTypes_insert hitem hfront
    rw [Test.holds, Test.holds, hview]
  | atEnd =>
    cases front with
    | nil => cases hfront
    | cons view front => rfl
  | not test ih => rw [Test.holds, Test.holds, ih]
  | and first second ih₁ ih₂ => rw [Test.holds, Test.holds, ih₁, ih₂]
  | or first second ih₁ ih₂ => rw [Test.holds, Test.holds, ih₁, ih₂]

end

/-! ## Readings with the item and without -/

/-- The reading behind these steps. -/
def Reading.after (steps : List Step) (reading : Reading) : Reading :=
  (steps ++ reading.1, reading.2)

theorem andThen_cons (reading : Reading) (readings : List Reading) (reader : Reader) :
    andThen (reading :: readings) reader =
      (reader reading.2).map (Reading.after reading.1) ++ andThen readings reader :=
  List.flatMap_cons

theorem andThen_nil (reader : Reader) : andThen [] reader = [] := rfl

theorem andThen_singleton (reading : Reading) (reader : Reader) :
    andThen [reading] reader = (reader reading.2).map (Reading.after reading.1) := by
  rw [andThen_cons, andThen_nil, List.append_nil]

theorem andThen_append (first second : List Reading) (reader : Reader) :
    andThen (first ++ second) reader = andThen first reader ++ andThen second reader :=
  List.flatMap_append

theorem map_after_map_after (first second : List Step) (readings : List Reading) :
    (readings.map (Reading.after second)).map (Reading.after first) =
      readings.map (Reading.after (first ++ second)) := by
  rw [List.map_map]
  refine List.map_congr_left fun reading _ => ?_
  rw [Function.comp_apply, Reading.after, Reading.after, Reading.after, List.append_assoc]

theorem andThen_map_after (steps : List Step) (readings : List Reading) (reader : Reader) :
    andThen (readings.map (Reading.after steps)) reader =
      (andThen readings reader).map (Reading.after steps) := by
  induction readings with
  | nil => rfl
  | cons reading readings ih =>
    rw [List.map_cons, andThen_cons, ih, andThen_cons, List.map_append, map_after_map_after]
    rfl

theorem andThen_assoc (readings : List Reading) (reader later : Reader) :
    andThen (andThen readings reader) later =
      andThen readings fun views => andThen (reader views) later := by
  induction readings with
  | nil => rfl
  | cons reading readings ih =>
    rw [andThen_cons, andThen_append, ih, andThen_cons, andThen_map_after]

/-- No reading of the reader leaves more than there was. -/
def Reader.Shortens (reader : Reader) : Prop :=
  ∀ views, ∀ reading ∈ reader views, reading.2.length ≤ views.length

theorem shortens_done (steps : List Step) : Reader.Shortens fun views => [(steps, views)] := by
  intro views reading h
  rw [List.mem_singleton] at h
  exact h ▸ Nat.le_refl _

theorem shortens_readMark (step : Step) (spelling : Text) :
    Reader.Shortens (readMark step spelling) := by
  intro views reading h
  obtain ⟨view, rest, rfl, -, rfl⟩ := mem_readMark.1 h
  exact Nat.le_succ _

theorem shortens_readComma (kind : Kind) (closing : Text) :
    Reader.Shortens (readComma kind closing) :=
  fun _ _ h => (suffix_of_mem_readComma h).1.length_le

theorem shortens_readMemberEnd : Reader.Shortens readMemberEnd :=
  fun _ _ h => (suffix_of_mem_readMemberEnd h).length_le

theorem shortens_read {grammar : Grammar} (hg : grammar.Grounded) (rule : Rule) :
    Reader.Shortens (read grammar rule) :=
  fun _ _ h => (suffix_of_mem_read hg h).length_le

theorem Reader.Shortens.andThen {first second : Reader} (hfirst : first.Shortens)
    (hsecond : second.Shortens) :
    Reader.Shortens fun views => Syntax.andThen (first views) second := by
  intro views reading h
  obtain ⟨one, hone, later, hlater, rfl⟩ := mem_andThen.1 h
  exact Nat.le_trans (hsecond _ later hlater) (hfirst _ one hone)

/-- Does the step take a token? -/
def Step.takes : Step → Bool
  | .leaf _ | .bound _ => true
  | _ => false

/-- The number of tokens that the steps take. -/
def taken (steps : List Step) : Nat := steps.countP Step.takes

theorem taken_append (first second : List Step) :
    taken (first ++ second) = taken first + taken second := List.countP_append

theorem taken_cons (step : Step) (rest : List Step) :
    taken (step :: rest) = (if step.takes then 1 else 0) + taken rest := by
  rw [taken, List.countP_cons, ← taken, Nat.add_comm]

/-- A reading stays in front of the item, or it has the item read in it; as the item of an array it is
read by the steps `inserted`. `count` tokens are in front of the item. -/
inductive Carried (item behind : List View) (inserted : List Step) (count : Nat) :
    Reading → Reading → Prop
  | before {steps : List Step} {front : List View} :
    awaitsItem front = true → taken steps + front.length = count →
      Carried item behind inserted count (steps, front ++ behind) (steps, front ++ (item ++ behind))
  | past {first steps more : List Step} {last : Step} {rest : List View} :
    last.takes = true → taken first + 1 = count → rest.length ≤ behind.length →
      (last = .bound .array → steps = inserted) →
        Carried item behind inserted count (first ++ last :: more, rest)
          (first ++ last :: (steps ++ more), rest)

/-- The item does not fit into the reading, which does not read the list as an array. -/
inductive Lost (behind : List View) (count : Nat) : Reading → Prop
  | intro {first more : List Step} {last : Step} {rest : List View} :
    last.takes = true → taken first + 1 = count → rest.length ≤ behind.length →
      last ≠ .bound .array → Lost behind count (first ++ last :: more, rest)

/-- The readings are carried over in their order, but for those that are lost. -/
inductive Carries (item behind : List View) (inserted : List Step) (count : Nat) :
    List Reading → List Reading → Prop
  | nil : Carries item behind inserted count [] []
  | carried {reading reading' : Reading} {readings readings' : List Reading} :
    Carried item behind inserted count reading reading' →
      Carries item behind inserted count readings readings' →
        Carries item behind inserted count (reading :: readings) (reading' :: readings')
  | lost {reading : Reading} {readings readings' : List Reading} :
    Lost behind count reading → Carries item behind inserted count readings readings' →
      Carries item behind inserted count (reading :: readings) readings'

section

variable {item behind : List View} {inserted : List Step} {count : Nat}

theorem Carried.after {reading reading' : Reading} {steps : List Step}
    (h : Carried item behind inserted count reading reading') :
    Carried item behind inserted (taken steps + count) (reading.after steps)
      (reading'.after steps) := by
  cases h with
  | before hfront hcount =>
    refine .before hfront ?_
    rw [taken_append, Nat.add_assoc, hcount]
  | past htakes hcount hrest hinserted =>
    rw [Reading.after, Reading.after, ← List.append_assoc, ← List.append_assoc]
    refine .past htakes ?_ hrest hinserted
    rw [taken_append, Nat.add_assoc, hcount]

theorem Lost.after {reading : Reading} {steps : List Step} (h : Lost behind count reading) :
    Lost behind (taken steps + count) (reading.after steps) := by
  cases h with
  | intro htakes hcount hrest hlast =>
    rw [Reading.after, ← List.append_assoc]
    refine .intro htakes ?_ hrest hlast
    rw [taken_append, Nat.add_assoc, hcount]

theorem Carries.map_after {readings readings' : List Reading} {steps : List Step} {total : Nat}
    (h : Carries item behind inserted count readings readings')
    (htotal : taken steps + count = total) :
    Carries item behind inserted total (readings.map (Reading.after steps))
      (readings'.map (Reading.after steps)) := by
  subst htotal
  induction h with
  | nil => exact .nil
  | carried hreading _ ih => exact .carried hreading.after ih
  | lost hreading _ ih => exact .lost hreading.after ih

theorem Carries.append {first first' second second' : List Reading}
    (hfirst : Carries item behind inserted count first first')
    (hsecond : Carries item behind inserted count second second') :
    Carries item behind inserted count (first ++ second) (first' ++ second') := by
  induction hfirst with
  | nil => exact hsecond
  | carried hreading _ ih => exact .carried hreading ih
  | lost hreading _ ih => exact .lost hreading ih

/-- Behind a reading that is past the item nothing changes any more. -/
theorem carries_past {first steps more : List Step} {last : Step} {readings : List Reading}
    (htakes : last.takes = true) (hcount : taken first + 1 = count)
    (hinserted : last = .bound .array → steps = inserted)
    (hrest : ∀ reading ∈ readings, reading.2.length ≤ behind.length) :
    Carries item behind inserted count (readings.map (Reading.after (first ++ last :: more)))
      (readings.map (Reading.after (first ++ last :: (steps ++ more)))) := by
  induction readings with
  | nil => exact .nil
  | cons reading readings ih =>
    refine .carried ?_ (ih fun other hother => hrest other (List.mem_cons_of_mem _ hother))
    have hlength := hrest reading (List.mem_cons_self ..)
    rw [Reading.after, Reading.after, List.append_assoc, List.cons_append, List.append_assoc,
      List.cons_append, List.append_assoc]
    exact .past htakes hcount hlength hinserted

theorem carries_lost {first more : List Step} {last : Step} {readings : List Reading}
    (htakes : last.takes = true) (hcount : taken first + 1 = count)
    (hlast : last ≠ .bound .array)
    (hrest : ∀ reading ∈ readings, reading.2.length ≤ behind.length) :
    Carries item behind inserted count (readings.map (Reading.after (first ++ last :: more))) [] := by
  induction readings with
  | nil => exact .nil
  | cons reading readings ih =>
    refine .lost ?_ (ih fun other hother => hrest other (List.mem_cons_of_mem _ hother))
    rw [Reading.after, List.append_assoc, List.cons_append]
    exact .intro htakes hcount (hrest reading (List.mem_cons_self ..)) hlast

/-- One reading behind another: what is in front of the item is read on from there, and what is past it
is read on as before. -/
theorem carries_andThen {readings readings' : List Reading} {reader : Reader}
    (h : Carries item behind inserted count readings readings') (hshortens : reader.Shortens)
    (hbefore : ∀ steps front, (steps, front ++ behind) ∈ readings → awaitsItem front = true →
      Carries item behind inserted front.length (reader (front ++ behind))
        (reader (front ++ (item ++ behind)))) :
    Carries item behind inserted count (andThen readings reader) (andThen readings' reader) := by
  have hpast : ∀ {rest : List View}, rest.length ≤ behind.length →
      ∀ later ∈ reader rest, later.2.length ≤ behind.length := fun hrest later hlater =>
    Nat.le_trans (hshortens _ later hlater) hrest
  induction h with
  | nil => exact .nil
  | carried hreading hreadings ih =>
    rw [andThen_cons, andThen_cons]
    refine .append ?_ (ih fun steps front hmem => hbefore steps front (List.mem_cons_of_mem _ hmem))
    cases hreading with
    | before hfront hcount =>
      have hlater := hbefore _ _ (List.mem_cons_self ..) hfront
      exact hlater.map_after hcount
    | past htakes hcount hrest hinserted =>
      exact carries_past htakes hcount hinserted (hpast hrest)
  | lost hreading hreadings ih =>
    rw [andThen_cons]
    cases hreading with
    | intro htakes hcount hrest hlast =>
      show Carries item behind inserted count _ ([] ++ andThen _ reader)
      exact .append (carries_lost htakes hcount hlast (hpast hrest))
        (ih fun steps front hmem => hbefore steps front (List.mem_cons_of_mem _ hmem))

theorem carries_before {steps : List Step} {front : List View} (hfront : awaitsItem front = true)
    (hcount : taken steps + front.length = count) :
    Carries item behind inserted count [(steps, front ++ behind)]
      [(steps, front ++ (item ++ behind))] :=
  .carried (.before hfront hcount) .nil

/-- The item is read at its place by these steps or not at all, and what comes behind it as before. -/
theorem carries_at_item {last : Step} {readings : List Reading} (known : Option (List Step))
    (htakes : last.takes = true) (hknown : last = .bound .array → known = some inserted)
    (hrest : ∀ reading ∈ readings, reading.2.length ≤ behind.length) :
    Carries item behind inserted 1 (readings.map (Reading.after [last]))
      (known.elim [] fun steps => readings.map (Reading.after (last :: steps))) := by
  cases known with
  | none =>
    have hlost : Carries item behind inserted 1 (readings.map (Reading.after ([] ++ [last]))) [] :=
      carries_lost htakes rfl (fun h => by cases hknown h) hrest
    exact hlost
  | some steps =>
    have hpast : Carries item behind inserted 1 (readings.map (Reading.after ([] ++ [last])))
        (readings.map (Reading.after ([] ++ last :: (steps ++ [])))) :=
      carries_past htakes rfl (fun h => Option.some.inj (hknown h)) hrest
    rwa [List.append_nil] at hpast

end

end VerticalSlice.Syntax
