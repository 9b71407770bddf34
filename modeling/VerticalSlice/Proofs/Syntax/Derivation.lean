import VerticalSlice.Proofs.Syntax.Concatenation
import VerticalSlice.Proofs.Syntax.Focus

/-!
# Derivations

A derivation says how a rule takes views and which steps come of it, without a depth and without what
stands behind (`Derives`). Every reading has one (`derives_of_program?`). What is to be known of the steps
of all readings is then proved along the derivation; where it only matters how steps are put together,
`Derives.induction_steps` leaves just that to be shown.
-/

namespace VerticalSlice.Syntax

variable {grammar : Grammar}

/-- The rule takes the views by the steps. -/
inductive Derives (grammar : Grammar) : Rule → List View → List Step → Prop
  | nothing : Derives grammar .nothing [] []
  | take {look : Look} {view : View} (kind : Kind) (hlook : look.fits view = true)
    (hplain : view.isStructural = false) : Derives grammar (.take look kind) [view] [.leaf kind]
  | group {kind : Kind} {opening closing : Text} {inside : Rule} {first last : View} {seen : List View}
    {steps : List Step} (hfirst : first.sign = opening) (hinside : Derives grammar inside seen steps)
    (hlast : last.sign = closing) :
    Derives grammar (.group kind opening inside closing) (first :: (seen ++ [last]))
      (.begin (some kind) :: (.bound kind :: (steps ++ [.bound kind]) ++ [.finish]))
  | itemsEnd {kind : Kind} {item : Rule} {closing : Text} :
    Derives grammar (.items kind item closing) [] []
  | itemsLast {kind : Kind} {item : Rule} {closing : Text} {seen : List View} {steps : List Step}
    (hitem : Derives grammar item seen steps) : Derives grammar (.items kind item closing) seen steps
  | itemsMore {kind : Kind} {item : Rule} {closing : Text} {comma : View} {seen more : List View}
    {steps rest : List Step} (hitem : Derives grammar item seen steps) (hcomma : comma.sign = [','])
    (hmore : Derives grammar (.items kind item closing) more rest) :
    Derives grammar (.items kind item closing) (seen ++ [comma] ++ more) (steps ++ [.bound kind] ++ rest)
  | listedLast {item : Rule} {seen : List View} {steps : List Step}
    (hitem : Derives grammar item seen steps) : Derives grammar (.listed item) seen steps
  | listedMore {item : Rule} {comma : View} {seen more : List View} {steps rest : List Step}
    (hitem : Derives grammar item seen steps) (hmore : Derives grammar (.listed item) more rest) :
    Derives grammar (.listed item) (seen ++ [comma] ++ more) (steps ++ [.leaf .mark] ++ rest)
  | membersEnd {item : Rule} : Derives grammar (.members item) [] []
  | membersMore {item : Rule} {seen more : List View} {steps rest : List Step}
    (hitem : Derives grammar item seen steps) (hmore : Derives grammar (.members item) more rest) :
    Derives grammar (.members item) (seen ++ more) (steps ++ rest)
  | membersMark {item : Rule} {mark : View} {seen more : List View} {steps rest : List Step}
    (hitem : Derives grammar item seen steps) (hmore : Derives grammar (.members item) more rest) :
    Derives grammar (.members item) (seen ++ [mark] ++ more) (steps ++ [.leaf .mark] ++ rest)
  | both {first second : Rule} {seen more : List View} {steps rest : List Step}
    (hfirst : Derives grammar first seen steps) (hsecond : Derives grammar second more rest) :
    Derives grammar (.both first second) (seen ++ more) (steps ++ rest)
  | chooseYes {test : Test} {yes no : Rule} {seen : List View} {steps : List Step}
    (hyes : Derives grammar yes seen steps) : Derives grammar (.choose test yes no) seen steps
  | chooseNo {test : Test} {yes no : Rule} {seen : List View} {steps : List Step}
    (hno : Derives grammar no seen steps) : Derives grammar (.choose test yes no) seen steps
  | eitherFirst {first second : Rule} {seen : List View} {steps : List Step}
    (hfirst : Derives grammar first seen steps) : Derives grammar (.either first second) seen steps
  | eitherSecond {first second : Rule} {seen : List View} {steps : List Step}
    (hsecond : Derives grammar second seen steps) : Derives grammar (.either first second) seen steps
  | manyEnd {stop : Test} {rule : Rule} : Derives grammar (.many stop rule) [] []
  | manyMore {stop : Test} {rule : Rule} {seen more : List View} {steps rest : List Step}
    (hrule : Derives grammar rule seen steps) (hmore : Derives grammar (.many stop rule) more rest) :
    Derives grammar (.many stop rule) (seen ++ more) (steps ++ rest)
  | node {rule : Rule} {seen : List View} {steps : List Step} (kind : Option Kind)
    (hrule : Derives grammar rule seen steps) :
    Derives grammar (.node kind rule) seen (.begin kind :: (steps ++ [.finish]))
  | fold (kind : Kind) : Derives grammar (.fold kind) [] [.fold kind]
  | role (role : Role) : Derives grammar (.role role) [] [.role role]
  | call {symbol : Symbol} {seen : List View} {steps : List Step}
    (hrule : Derives grammar (grammar symbol) seen steps) : Derives grammar (.call symbol) seen steps

/-! ## Readings have derivations -/

/-- The reader takes views off the front, by derivations of the rule. -/
def Derived (grammar : Grammar) (rule : Rule) (reader : Reader) : Prop :=
  ∀ views, ∀ reading ∈ reader views, ∃ seen, views = seen ++ reading.2 ∧
    Derives grammar rule seen reading.1

/-- Where the list ends no item is taken. -/
def EndsLists (self : Rule → Reader) : Prop :=
  ∀ kind item closing views, (viewAt 0 views).sign = closing →
    ∀ reading ∈ self (.items kind item closing) views, reading = ([], views)

theorem endsLists_readWith (grammar : Grammar) (self : Rule → Reader) :
    EndsLists (readWith grammar self) := by
  intro kind item closing views hclosing reading h
  rw [readWith, if_pos hclosing] at h
  exact List.mem_singleton.1 h

theorem Derived.items {self : Rule → Reader} {kind : Kind} {item : Rule} {closing : Text} {reader : Reader}
    (hitem : Derived grammar item reader) (hself : Derived grammar (.items kind item closing)
      (self (.items kind item closing))) (hends : EndsLists self) :
    Derived grammar (.items kind item closing) fun views =>
      andThen (andThen (reader views) (readComma kind closing)) (self (.items kind item closing)) := by
  intro views reading h
  obtain ⟨front, hfront, rest, hrest, rfl⟩ := mem_andThen.1 h
  obtain ⟨⟨steps, left⟩, hfirst, comma, hcomma, rfl⟩ := mem_andThen.1 hfront
  obtain ⟨seen, rfl, hone⟩ := hitem _ _ hfirst
  cases left with
  | nil => exact absurd hcomma List.not_mem_nil
  | cons view behind =>
    rw [readComma] at hcomma
    split at hcomma
    · next hclosing =>
      rw [List.mem_singleton] at hcomma
      subst hcomma
      rw [hends kind item closing (view :: behind) hclosing rest hrest]
      refine ⟨seen, rfl, ?_⟩
      rw [List.append_nil, List.append_nil]
      exact .itemsLast hone
    · obtain ⟨mark, behind', heq, hmark, rfl⟩ := mem_readMark.1 hcomma
      obtain ⟨rfl, rfl⟩ := List.cons.inj heq
      obtain ⟨more, hmore, hitems⟩ := hself _ rest hrest
      refine ⟨seen ++ [view] ++ more, ?_, .itemsMore hone hmark hitems⟩
      rw [List.append_assoc, List.append_assoc, ← hmore]
      rfl

theorem derived_readWith {self : Rule → Reader} (hself : ∀ rule, Derived grammar rule (self rule))
    (hends : EndsLists self) (rule : Rule) : Derived grammar rule (readWith grammar self rule) := by
  induction rule with
  | nothing =>
    intro views reading h
    rw [readWith, List.mem_singleton] at h
    subst h
    exact ⟨[], rfl, .nothing⟩
  | failure => exact fun _ _ h => absurd h List.not_mem_nil
  | take look kind =>
    intro views reading h
    cases views with
    | nil => exact absurd h List.not_mem_nil
    | cons view rest =>
      rw [readWith] at h
      split at h
      · next hview =>
        rw [List.mem_singleton] at h
        subst h
        rw [Bool.and_eq_true, Bool.not_eq_true'] at hview
        exact ⟨[view], rfl, .take kind hview.1 hview.2⟩
      · exact absurd h List.not_mem_nil
  | group kind opening inside closing ih =>
    intro views reading h
    rw [readWith] at h
    obtain ⟨begun, hbegun, later, hlater, rfl⟩ := mem_andThen.1 h
    rw [List.mem_singleton] at hbegun
    subst hbegun
    obtain ⟨body, hbody, ending, hending, rfl⟩ := mem_andThen.1 hlater
    obtain ⟨opened, hopened, inner, hinner, rfl⟩ := mem_andThen.1 hbody
    obtain ⟨first, rest, rfl, hfirst, rfl⟩ := mem_readMark.1 hopened
    obtain ⟨seen, hseen, hderives⟩ := ih _ inner hinner
    obtain ⟨closed, hclosed, done, hdone, rfl⟩ := mem_andThen.1 hending
    rw [List.mem_singleton] at hdone
    subst hdone
    obtain ⟨last, behind, hrest, hlast, rfl⟩ := mem_readMark.1 hclosed
    refine ⟨first :: (seen ++ [last]), ?_, ?_⟩
    · dsimp only at hseen hrest ⊢
      rw [hseen, hrest]
      simp
    · have hgroup : Derives grammar (.group kind opening inside closing) _ _ :=
        .group hfirst hderives hlast
      simpa using hgroup
  | items kind item closing ih =>
    intro views reading h
    rw [readWith] at h
    split at h
    · rw [List.mem_singleton] at h
      subst h
      exact ⟨[], rfl, .itemsEnd⟩
    · exact (Derived.items ih (hself _) hends) views reading h
  | listed item ih =>
    intro views reading h
    rw [readWith] at h
    obtain ⟨first, hfirst, later, hlater, rfl⟩ := mem_andThen.1 h
    obtain ⟨seen, hseen, hitem⟩ := ih _ first hfirst
    split at hlater
    · obtain ⟨comma, hcomma, rest, hrest, rfl⟩ := mem_andThen.1 hlater
      obtain ⟨view, behind, hviews, -, rfl⟩ := mem_readMark.1 hcomma
      obtain ⟨more, hmore, hlisted⟩ := hself _ _ rest hrest
      refine ⟨seen ++ [view] ++ more, ?_, ?_⟩
      · dsimp only at hmore ⊢
        rw [hseen, hviews, hmore]
        simp
      · have hall : Derives grammar (.listed item) (seen ++ [view] ++ more) _ :=
          .listedMore hitem hlisted
        simpa using hall
    · rw [List.mem_singleton] at hlater
      subst hlater
      refine ⟨seen, hseen, ?_⟩
      rw [List.append_nil]
      exact .listedLast hitem
  | members item ih =>
    intro views reading h
    rw [readWith] at h
    split at h
    · rw [List.mem_singleton] at h
      subst h
      exact ⟨[], rfl, .membersEnd⟩
    · obtain ⟨front, hfront, rest, hrest, rfl⟩ := mem_andThen.1 h
      obtain ⟨⟨steps, left⟩, hfirst, ending, hending, rfl⟩ := mem_andThen.1 hfront
      obtain ⟨seen, rfl, hitem⟩ := ih _ _ hfirst
      obtain ⟨more, hmore, hmembers⟩ := hself _ _ rest hrest
      have hplain : ending = ([], left) → ∃ seen', seen ++ left = seen' ++ rest.2 ∧
          Derives grammar (.members item) seen' (steps ++ ending.1 ++ rest.1) := by
        rintro rfl
        refine ⟨seen ++ more, ?_, ?_⟩
        · rw [List.append_assoc, ← hmore]
        · rw [List.append_nil]
          exact .membersMore hitem hmembers
      cases left with
      | nil => exact hplain (List.mem_singleton.1 hending)
      | cons view behind =>
        rw [readMemberEnd] at hending
        split at hending
        · rw [List.mem_singleton] at hending
          subst hending
          refine ⟨seen ++ [view] ++ more, ?_, .membersMark hitem hmembers⟩
          rw [List.append_assoc, List.append_assoc, ← hmore]
          rfl
        · split at hending
          · exact hplain (List.mem_singleton.1 hending)
          · exact absurd hending List.not_mem_nil
  | both first second ih₁ ih₂ =>
    intro views reading h
    rw [readWith] at h
    obtain ⟨front, hfront, rest, hrest, rfl⟩ := mem_andThen.1 h
    obtain ⟨seen, rfl, hfirst⟩ := ih₁ _ front hfront
    obtain ⟨more, hmore, hsecond⟩ := ih₂ _ rest hrest
    refine ⟨seen ++ more, ?_, .both hfirst hsecond⟩
    rw [List.append_assoc, ← hmore]
  | choose test yes no ih₁ ih₂ =>
    intro views reading h
    rw [readWith] at h
    split at h
    · obtain ⟨seen, hseen, hyes⟩ := ih₁ _ reading h
      exact ⟨seen, hseen, .chooseYes hyes⟩
    · obtain ⟨seen, hseen, hno⟩ := ih₂ _ reading h
      exact ⟨seen, hseen, .chooseNo hno⟩
  | either first second ih₁ ih₂ =>
    intro views reading h
    rw [readWith, List.mem_append] at h
    rcases h with h | h
    · obtain ⟨seen, hseen, hfirst⟩ := ih₁ _ reading h
      exact ⟨seen, hseen, .eitherFirst hfirst⟩
    · obtain ⟨seen, hseen, hsecond⟩ := ih₂ _ reading h
      exact ⟨seen, hseen, .eitherSecond hsecond⟩
  | many stop rule ih =>
    intro views reading h
    rw [readWith] at h
    split at h
    · rw [List.mem_singleton] at h
      subst h
      exact ⟨[], rfl, .manyEnd⟩
    · obtain ⟨front, hfront, rest, hrest, rfl⟩ := mem_andThen.1 h
      obtain ⟨seen, rfl, hrule⟩ := ih _ front hfront
      obtain ⟨more, hmore, hmany⟩ := hself _ _ rest hrest
      refine ⟨seen ++ more, ?_, .manyMore hrule hmany⟩
      rw [List.append_assoc, ← hmore]
  | node kind rule ih =>
    intro views reading h
    rw [readWith] at h
    obtain ⟨front, hfront, last, hlast, rfl⟩ := mem_andThen.1 h
    rw [List.mem_singleton] at hlast
    subst hlast
    obtain ⟨begun, hbegun, inner, hinner, rfl⟩ := mem_andThen.1 hfront
    rw [List.mem_singleton] at hbegun
    subst hbegun
    obtain ⟨seen, hseen, hrule⟩ := ih _ inner hinner
    exact ⟨seen, hseen, .node kind hrule⟩
  | fold kind =>
    intro views reading h
    rw [readWith, List.mem_singleton] at h
    subst h
    exact ⟨[], rfl, .fold kind⟩
  | role role =>
    intro views reading h
    rw [readWith, List.mem_singleton] at h
    subst h
    exact ⟨[], rfl, .role role⟩
  | call symbol =>
    intro views reading h
    obtain ⟨seen, hseen, hrule⟩ := hself _ views reading h
    exact ⟨seen, hseen, .call hrule⟩

theorem derived_readUpTo (grammar : Grammar) :
    ∀ (depth : Nat) (rule : Rule), Derived grammar rule (readUpTo grammar depth rule)
  | 0, _ => fun _ _ h => absurd h List.not_mem_nil
  | depth + 1, rule => by
    refine derived_readWith (derived_readUpTo grammar depth) ?_ rule
    cases depth with
    | zero => exact fun _ _ _ _ _ _ h => absurd h List.not_mem_nil
    | succ depth => exact endsLists_readWith grammar _

/-- The steps that build a program come of a derivation. -/
theorem derives_of_program? {markup : Bool} {views : List View} {steps : List Step}
    (h : program? markup views = some steps) :
    Derives (Syntax.grammar markup) .programRule views steps := by
  obtain ⟨reading, hreading, rfl⟩ := Option.map_eq_some_iff.1 h
  obtain ⟨seen, hseen, hderives⟩ :=
    derived_readUpTo _ _ _ views reading (List.mem_of_find?_eq_some hreading)
  have hdone := List.find?_some hreading
  rw [List.isEmpty_iff.1 hdone, List.append_nil] at hseen
  rwa [hseen]

/-! ## Along derivations -/

/-- Do the rule and all rules in it pass the test? -/
def Rule.all (test : Rule → Bool) (rule : Rule) : Bool :=
  test rule &&
    match rule with
    | .group _ _ inside _ => inside.all test
    | .items _ item _ | .listed item | .members item | .many _ item | .node _ item => item.all test
    | .both first second | .choose _ first second | .either first second =>
      first.all test && second.all test
    | .nothing | .failure | .take .. | .fold _ | .role _ | .call _ => true

/-- Whatever holds of single steps and is kept up when steps are put together and put into places holds of
the steps of all derivations, if the grammar has only rules that pass the test. -/
theorem Derives.induction_steps {test : Rule → Bool} {P : List View → List Step → Prop}
    (hgrammar : ∀ symbol, (grammar symbol).all test = true) (nil : P [] [])
    (append : ∀ {seen more : List View} {steps rest : List Step},
      P seen steps → P more rest → P (seen ++ more) (steps ++ rest))
    (mark : ∀ view, P [view] [.leaf .mark])
    (take : ∀ {look : Look} {kind : Kind} (view : View), test (.take look kind) = true →
      look.fits view = true → P [view] [.leaf kind])
    (bound : ∀ view kind, P [view] [.bound kind])
    (group : ∀ {kind : Kind} {opening closing : Text} {inside : Rule} {first last : View}
      {seen : List View} {steps : List Step},
      (Rule.group kind opening inside closing).all test = true → first.sign = opening → last.sign = closing →
      Derives grammar inside seen steps →
      P (first :: (seen ++ [last])) (.bound kind :: (steps ++ [.bound kind])) →
      P (first :: (seen ++ [last])) (.begin (some kind) :: (.bound kind :: (steps ++ [.bound kind]) ++
        [.finish])))
    (node : ∀ {kind : Option Kind} {rule : Rule} {seen : List View} {steps : List Step},
      (Rule.node kind rule).all test = true → Derives grammar rule seen steps → P seen steps →
      P seen (.begin kind :: (steps ++ [.finish])))
    (fold : ∀ {kind : Kind}, test (.fold kind) = true → P [] [.fold kind])
    (role : ∀ role, P [] [.role role])
    {rule : Rule} {seen : List View} {steps : List Step} (h : Derives grammar rule seen steps)
    (hrule : rule.all test = true) : P seen steps := by
  induction h with
  | nothing | itemsEnd | membersEnd | manyEnd => exact nil
  | take kind hlook hplain =>
    rw [Rule.all, Bool.and_eq_true] at hrule
    exact take _ hrule.1 hlook
  | @group kind opening closing inside first last seen steps hfirst hinside hlast ih =>
    have hinner := hrule
    rw [Rule.all, Bool.and_eq_true] at hinner
    refine group hrule hfirst hlast hinside ?_
    exact append (bound first kind) (append (ih hinner.2) (bound last kind))
  | itemsLast hitem ih | listedLast hitem ih =>
    rw [Rule.all, Bool.and_eq_true] at hrule
    exact ih hrule.2
  | itemsMore hitem hcomma hmore ih₁ ih₂ =>
    have hitem := hrule
    rw [Rule.all, Bool.and_eq_true] at hitem
    exact append (append (ih₁ hitem.2) (bound _ _)) (ih₂ hrule)
  | listedMore hitem hmore ih₁ ih₂ | membersMark hitem hmore ih₁ ih₂ =>
    have hitem := hrule
    rw [Rule.all, Bool.and_eq_true] at hitem
    exact append (append (ih₁ hitem.2) (mark _)) (ih₂ hrule)
  | membersMore hitem hmore ih₁ ih₂ | manyMore hitem hmore ih₁ ih₂ =>
    have hitem := hrule
    rw [Rule.all, Bool.and_eq_true] at hitem
    exact append (ih₁ hitem.2) (ih₂ hrule)
  | both hfirst hsecond ih₁ ih₂ =>
    rw [Rule.all, Bool.and_eq_true, Bool.and_eq_true] at hrule
    exact append (ih₁ hrule.2.1) (ih₂ hrule.2.2)
  | chooseYes _ ih | eitherFirst _ ih =>
    rw [Rule.all, Bool.and_eq_true, Bool.and_eq_true] at hrule
    exact ih hrule.2.1
  | chooseNo _ ih | eitherSecond _ ih =>
    rw [Rule.all, Bool.and_eq_true, Bool.and_eq_true] at hrule
    exact ih hrule.2.2
  | node kind hrule' ih =>
    have hinner := hrule
    rw [Rule.all, Bool.and_eq_true] at hinner
    exact node hrule hrule' (ih hinner.2)
  | fold kind =>
    rw [Rule.all, Bool.and_eq_true] at hrule
    exact fold hrule.1
  | role r => exact role r
  | call hrule' ih => exact ih (hgrammar _)

/-- A derivation takes as many tokens as it sees. -/
theorem Derives.taken_eq {rule : Rule} {seen : List View} {steps : List Step}
    (h : Derives grammar rule seen steps) : taken steps = seen.length := by
  induction h with
  | nothing | itemsEnd | membersEnd | manyEnd | fold | role => rfl
  | take => rfl
  | group hfirst hinside hlast ih =>
    simp only [taken_cons, taken_append, ih, List.length_cons, List.length_append]
    simp [Step.takes, taken]
    omega
  | itemsLast hitem ih | listedLast hitem ih | chooseYes hitem ih | chooseNo hitem ih
    | eitherFirst hitem ih | eitherSecond hitem ih | call hitem ih => exact ih
  | itemsMore hitem hcomma hmore ih₁ ih₂ =>
    rw [taken_append, taken_append, ih₁, ih₂, List.length_append, List.length_append]
    rfl
  | listedMore hitem hmore ih₁ ih₂ | membersMark hitem hmore ih₁ ih₂ =>
    rw [taken_append, taken_append, ih₁, ih₂, List.length_append, List.length_append]
    rfl
  | membersMore hitem hmore ih₁ ih₂ | manyMore hitem hmore ih₁ ih₂ | both hitem hmore ih₁ ih₂ =>
    rw [taken_append, ih₁, ih₂, List.length_append]
  | node kind hrule ih =>
    rw [taken_cons, taken_append, ih]
    exact Nat.zero_add _

/-! ## The place in which steps are taken -/

/-- The steps take tokens from the front, leave the places around alone, and keep the kind of the place in
which they are taken and where its nodes start. Comments in front of these nodes make no difference. -/
def StaysIn (seen : List View) (steps : List Step) : Prop :=
  ∀ (site : Site) (items : List Item), ∃ nodes,
    (∀ comments : List Node, comments.all Node.isComment = true → ∀ around : List Site,
      (Building.mk { site with nodes := comments ++ site.nodes } around items).run steps =
        ⟨{ site with nodes := comments ++ nodes }, around, items.drop seen.length⟩) ∧
    ∀ comments offset, StartsAt comments offset site.nodes → StartsAt comments offset nodes

theorem StaysIn.exists_run {seen : List View} {steps : List Step} (h : StaysIn seen steps) (site : Site)
    (items : List Item) : ∃ nodes,
      (∀ around : List Site, (Building.mk site around items).run steps =
        ⟨{ site with nodes := nodes }, around, items.drop seen.length⟩) ∧
      ∀ comments offset, StartsAt comments offset site.nodes → StartsAt comments offset nodes := by
  obtain ⟨nodes, hrun, hstarts⟩ := h site items
  exact ⟨nodes, hrun [] rfl, hstarts⟩

theorem staysIn_addLeaf {step : Step} {kind : Kind}
    (hstep : ∀ building : Building, building.step step = building.addLeaf kind) (view : View) :
    StaysIn [view] [step] := by
  intro site items
  cases items with
  | nil => exact ⟨site.nodes, fun _ _ _ => hstep _, fun _ _ h => h⟩
  | cons item items =>
    refine ⟨site.nodes ++ item.leaves kind, fun comments _ around => ?_, fun _ _ h => h.append _⟩
    rw [← List.append_assoc]
    exact hstep _

theorem staysIn_bound (view : View) (kind : Kind) : StaysIn [view] [.bound kind] :=
  staysIn_addLeaf (fun _ => rfl) view

theorem StaysIn.append {seen more : List View} {steps rest : List Step} (hfirst : StaysIn seen steps)
    (hsecond : StaysIn more rest) : StaysIn (seen ++ more) (steps ++ rest) := by
  intro site items
  obtain ⟨nodes, hrun, hstarts⟩ := hfirst site items
  obtain ⟨nodes', hrun', hstarts'⟩ := hsecond { site with nodes := nodes } (items.drop seen.length)
  refine ⟨nodes', fun comments h around => ?_, fun comments offset h =>
    hstarts' comments offset (hstarts comments offset h)⟩
  rw [Building.run_append, hrun comments h, List.length_append, ← List.drop_drop]
  exact hrun' comments h around

theorem Building.run_enclosed (kind : Option Kind) (steps : List Step) (site : Site)
    (around : List Site) (items : List Item) :
    (Building.mk site around items).run (.begin kind :: (steps ++ [.finish])) =
      ((Building.mk ⟨kind, []⟩ (site :: around) items).run steps).step .finish := by
  rw [run, List.foldl_cons, List.foldl_append]
  rfl

theorem StaysIn.enclosed {seen : List View} {steps : List Step} (h : StaysIn seen steps)
    (kind : Option Kind) : StaysIn seen (.begin kind :: (steps ++ [.finish])) := by
  intro site items
  obtain ⟨nodes, hrun, -⟩ := h.exists_run ⟨kind, []⟩ items
  refine ⟨site.nodes ++ (Site.mk kind nodes).result, fun comments _ around => ?_,
    fun _ _ hstarts => hstarts.append _⟩
  rw [Building.run_enclosed, hrun, ← List.append_assoc]
  rfl

theorem staysIn_nil : StaysIn [] [] := fun site _ => ⟨site.nodes, fun _ _ _ => rfl, fun _ _ h => h⟩

theorem staysIn_fold {kind : Kind} (hkind : kind ≠ .comment) : StaysIn [] [.fold kind] := by
  intro site items
  refine ⟨enclose kind site.nodes, fun comments hcomments around => ?_, fun _ _ h => h.enclose hkind⟩
  rw [← enclose_comments hcomments]
  rfl

theorem staysIn_role (role : Role) : StaysIn [] [.role role] := by
  intro site items
  refine ⟨withFirstRole role site.nodes, fun comments hcomments around => ?_,
    fun _ _ h => h.withFirstRole role⟩
  rw [← withFirstRole_comments hcomments]
  rfl

theorem Derives.staysIn {test : Rule → Bool}
    (hfold : ∀ kind, test (.fold kind) = true → kind ≠ .comment)
    (hgrammar : ∀ symbol, (grammar symbol).all test = true) {rule : Rule} {seen : List View}
    {steps : List Step} (h : Derives grammar rule seen steps) (hrule : rule.all test = true) :
    StaysIn seen steps :=
  h.induction_steps hgrammar (P := StaysIn) staysIn_nil StaysIn.append (staysIn_addLeaf fun _ => rfl)
    (fun view _ _ => staysIn_addLeaf (fun _ => rfl) view) staysIn_bound (fun _ _ _ _ h => h.enclosed _)
    (fun _ _ h => h.enclosed _) (fun {kind} hkind => staysIn_fold (hfold kind hkind)) staysIn_role hrule

end VerticalSlice.Syntax
