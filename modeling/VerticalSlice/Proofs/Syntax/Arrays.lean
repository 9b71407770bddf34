import VerticalSlice.Proofs.Syntax.Amount
import VerticalSlice.Proofs.Syntax.FilledQuery

/-!
# Where the objects of an array come from

In the brackets of an array there is one node at most in each place, and a comma behind it. So an object of
an array stands directly behind the bracket or behind a comma, and the steps fall into those in front of it,
its own, and those behind it (`Spot`). What is read in the brackets of an array has a spot in front of each
object in it (`Derives.hasSpots`), and one in front of the bracket that ends it.
-/

namespace VerticalSlice.Syntax

/-! ## Steps that build one node -/

theorem build_append {first second : List Step} (hfirst : keepsInside 0 first = true)
    (hsecond : keepsInside 0 second = true) (items : List Item) :
    build (first ++ second) items = build first items ++ build second (items.drop (taken first)) := by
  rw [build, Building.run_append, Building.run_of_keepsInside hfirst, Building.run_of_keepsInside hsecond]
  rfl

theorem keepsInside_append {first second : List Step} (hfirst : keepsInside 0 first = true)
    (hsecond : keepsInside 0 second = true) : keepsInside 0 (first ++ second) = true := by
  have hall : ∀ {steps : List Step} {depth : Nat}, keepsInside depth steps = true →
      keepsInside depth (steps ++ second) = true := by
    intro steps
    induction steps with
    | nil =>
      intro depth h
      rwa [beq_iff_eq.1 h]
    | cons step rest ih =>
      intro depth h
      cases step with
      | leaf | bound | begin => exact ih h
      | finish | fold | role =>
        cases depth with
        | zero => cases h
        | succ depth => exact ih h
  exact hall hfirst

variable {grammar : Grammar} {rule : Rule} {seen : List View} {steps : List Step}

/-- A rule that takes something takes something. -/
theorem Derives.seen_ne_nil (hg : grammar.Proper) (h : Derives grammar rule seen steps)
    (htakes : rule.takes = true) : seen ≠ [] := by
  induction h with
  | nothing | itemsEnd | itemsLast | itemsMore | membersEnd | membersMore | membersMark | manyEnd | manyMore |
    fold | role => cases htakes
  | take | group => exact List.cons_ne_nil _ _
  | listedLast _ ih | node _ _ ih => exact ih htakes
  | listedMore => simp
  | both _ _ ih₁ ih₂ =>
    rw [Rule.takes, Bool.or_eq_true] at htakes
    rcases htakes with htakes | htakes
    · exact List.append_ne_nil_of_left_ne_nil (ih₁ htakes) _
    · exact List.append_ne_nil_of_right_ne_nil _ (ih₂ htakes)
  | chooseYes _ ih | eitherFirst _ ih => exact ih (Bool.and_eq_true_iff.1 htakes).1
  | chooseNo _ ih | eitherSecond _ ih => exact ih (Bool.and_eq_true_iff.1 htakes).2
  | @call symbol _ _ _ ih => exact ih (hg.takes symbol)

theorem awaitsItem_append_eq_false {first second : List View} (hfirst : awaitsItem first = false)
    (hsecond : awaitsItem second = false) : awaitsItem (first ++ second) = false := by
  rw [awaitsItem, List.getLast?_append]
  cases hlast : second.getLast? with
  | none => exact hfirst
  | some view =>
    rw [awaitsItem, hlast] at hsecond
    exact hsecond

/-- Behind what ends an item no other item is awaited. -/
theorem Derives.awaitsItem_eq_false (hg : grammar.Proper) (h : Derives grammar rule seen steps)
    (hends : rule.endsItem = true) : awaitsItem seen = false := by
  induction h with
  | nothing | manyEnd | fold | role => rfl
  | itemsEnd | itemsLast | itemsMore | membersEnd | membersMore | membersMark => cases hends
  | @take look view kind hlook hplain =>
    simp only [View.isStructural, Bool.or_eq_false_iff] at hplain
    rw [awaitsItem, List.getLast?_singleton, Option.any_some, hplain.1.1, Bool.or_false, decide_eq_false_iff_not]
    rintro hsign
    have hopens := hplain.1.2
    rw [View.opens, hsign] at hopens
    cases hopens
  | @group kind opening closing inside first last seen steps hfirst hinside hlast ih =>
    rw [Rule.endsItem, Bool.not_eq_true', ← hlast] at hends
    rw [← List.cons_append, awaitsItem, List.getLast?_concat, Option.any_some, View.isComma]
    simpa using hends
  | listedLast _ ih => exact ih (Bool.and_eq_true_iff.1 hends).2
  | @listedMore item comma seen more steps rest hitem hmore _ ih =>
    have hne := hmore.seen_ne_nil hg (Bool.and_eq_true_iff.1 hends).1
    obtain ⟨view, hview⟩ := Option.isSome_iff_exists.1 (List.getLast?_isSome.2 hne)
    have hlast := ih hends
    rw [awaitsItem, hview] at hlast
    rw [awaitsItem, List.getLast?_append, hview]
    exact hlast
  | both _ _ ih₁ ih₂ =>
    rw [Rule.endsItem, Bool.and_eq_true] at hends
    exact awaitsItem_append_eq_false (ih₁ hends.1) (ih₂ hends.2)
  | chooseYes _ ih | eitherFirst _ ih => exact ih (Bool.and_eq_true_iff.1 hends).1
  | chooseNo _ ih | eitherSecond _ ih => exact ih (Bool.and_eq_true_iff.1 hends).2
  | manyMore _ _ ih₁ ih₂ => exact awaitsItem_append_eq_false (ih₁ hends) (ih₂ hends)
  | node _ _ ih => exact ih hends
  | @call symbol _ _ _ ih => exact ih (hg.endsItem symbol)

/-- A sparse rule takes nothing, or builds one node. -/
theorem Derives.sparse (hg : grammar.Proper) (h : Derives grammar rule seen steps)
    (hrule : rule.all Rule.isProper = true) (hsparse : rule.isSparse = true) :
    seen = [] ∧ steps = [] ∨ seen ≠ [] ∧ Makes seen steps ∧ keepsInside 0 steps = true := by
  have hplain : ∀ {rule : Rule}, Derives grammar rule seen steps → rule.all Rule.isProper = true →
      (decide (rule.amount .zero = some .one) && rule.addsOnly && rule.takes) = true →
      seen ≠ [] ∧ Makes seen steps ∧ keepsInside 0 steps = true := by
    intro rule h hrule hone
    rw [Bool.and_eq_true, Bool.and_eq_true, decide_eq_true_eq] at hone
    exact ⟨h.seen_ne_nil hg hone.2, h.makes hg hrule hone.1.1 hone.1.2, h.keepsInside_zero hg hone.1.2⟩
  induction rule generalizing seen steps with
  | nothing =>
    cases h
    exact .inl ⟨rfl, rfl⟩
  | choose test yes no ih₁ ih₂ =>
    rw [Rule.all, Bool.and_eq_true, Bool.and_eq_true] at hrule
    rw [Rule.isSparse, Bool.and_eq_true] at hsparse
    cases h with
    | chooseYes hyes => exact ih₁ hyes hrule.2.1 hsparse.1 hplain
    | chooseNo hno => exact ih₂ hno hrule.2.2 hsparse.2 hplain
  | _ => exact .inr (hplain h hrule hsparse)

theorem append_eq_append_cons {first second front behind : List Node} {node : Node}
    (h : first ++ second = front ++ node :: behind) :
    (∃ rest, first = front ++ node :: rest ∧ behind = rest ++ second) ∨
      ∃ rest, front = first ++ rest ∧ second = rest ++ node :: behind := by
  rcases List.append_eq_append_iff.1 h with ⟨rest, hfront, hsecond⟩ | ⟨rest, hfirst, hnode⟩
  · exact .inr ⟨rest, hfront, hsecond⟩
  · cases rest with
    | nil =>
      rw [List.append_nil] at hfirst
      exact .inr ⟨[], by rw [List.append_nil, hfirst], hnode.symm⟩
    | cons other rest =>
      obtain ⟨rfl, hbehind⟩ := List.cons.inj hnode
      exact .inl ⟨rest, hfirst, hbehind⟩

/-! ## Spots -/

/-- Among the children of an array an item may be put in front of the node: it is an object, which opens with its
brace, or the bracket that ends the array. -/
inductive Ahead : Char → Node → List Node → Prop
  | object {node : Node} {behind : List Node} (hkind : node.kind = .object) : Ahead '\x7b' node behind
  | closing {node : Node} : Ahead ']' node []

/-- A place in front of a child of an array: the views and the steps in front of it, those behind it, and the items
from there on. -/
structure Spot where
  before : List View
  after : List View
  first : List Step
  rest : List Step
  comments : List Token
  token : Token
  others : List Item

/-- What the steps in front of the spot reach. -/
def Spot.reached (spot : Spot) (building : Building) : Building :=
  building.run spot.first

/-- That with the comments in front of the token, and these nodes behind them. -/
def Spot.planted (spot : Spot) (building : Building) (seeds : List Node) : Building :=
  let reached := spot.reached building
  { site := { reached.site with
      nodes := reached.site.nodes ++ (spot.comments.map (Node.leaf .comment) ++ seeds) }
    around := reached.around
    items := ⟨[], spot.token⟩ :: spot.others }

/-- The spot is among what the steps take from the views. The token at it is this mark and has this offset, and with
some nodes in front of it the steps lead to the state that `grown` gives for the nodes. In front of an object an
item is awaited; if one is, the step in front of the spot takes a bracket or a comma of the array. -/
structure Spot.IsIn (spot : Spot) (building : Building) (seen : List View) (steps : List Step)
    (mark : Char) (offset : Nat) (grown : List Node → Building) : Prop where
  seen_eq : seen = spot.before ++ spot.after
  steps_eq : steps = spot.first ++ spot.rest
  taken_eq : taken spot.first = spot.before.length
  before_ne : spot.before ≠ []
  awaits : mark = '\x7b' → awaitsItem spot.before = true
  bound : awaitsItem spot.before = true → ∃ first, spot.first = first ++ [.bound .array]
  ahead : ∃ view rest, spot.after = view :: rest ∧ view.sign = [mark]
  items_eq : building.items.drop spot.before.length = ⟨spot.comments, spot.token⟩ :: spot.others
  offset_eq : spot.token.offset = offset
  run_eq : ∀ seeds, (spot.planted building seeds).run spot.rest = grown seeds

theorem awaitsItem_append_of_ne_nil (first : List View) {second : List View} (h : second ≠ []) :
    awaitsItem (first ++ second) = awaitsItem second := by
  obtain ⟨last, hlast⟩ := Option.isSome_iff_exists.1 (List.getLast?_isSome.2 h)
  rw [awaitsItem, awaitsItem, List.getLast?_append, hlast, Option.some_or]

namespace Spot.IsIn

variable {spot : Spot} {building : Building} {mark : Char} {offset : Nat} {grown : List Node → Building}

/-- Something may come behind. -/
theorem append (h : spot.IsIn building seen steps mark offset grown) (more : List View) (tail : List Step) :
    ({ spot with after := spot.after ++ more, rest := spot.rest ++ tail } : Spot).IsIn building
      (seen ++ more) (steps ++ tail) mark offset fun seeds => (grown seeds).run tail where
  seen_eq := by rw [h.seen_eq, List.append_assoc]
  steps_eq := by rw [h.steps_eq, List.append_assoc _ _ tail]
  taken_eq := h.taken_eq
  before_ne := h.before_ne
  awaits := h.awaits
  bound := h.bound
  ahead := by
    obtain ⟨view, rest, hafter, hsign⟩ := h.ahead
    exact ⟨view, rest ++ more, by rw [hafter, List.cons_append], hsign⟩
  items_eq := h.items_eq
  offset_eq := h.offset_eq
  run_eq seeds := by
    rw [← h.run_eq, ← Building.run_append]
    rfl

/-- Something may come in front. -/
theorem prepend {head : List Step} (h : spot.IsIn (building.run head) seen steps mark offset grown)
    (front : List View) (htaken : taken head = front.length) :
    ({ spot with before := front ++ spot.before, first := head ++ spot.first } : Spot).IsIn building
      (front ++ seen) (head ++ steps) mark offset grown where
  seen_eq := by rw [h.seen_eq, List.append_assoc]
  steps_eq := by rw [h.steps_eq, List.append_assoc]
  taken_eq := by rw [taken_append, List.length_append, htaken, h.taken_eq]
  before_ne := List.append_ne_nil_of_right_ne_nil _ h.before_ne
  awaits hmark := by
    rw [awaitsItem_append_of_ne_nil front h.before_ne]
    exact h.awaits hmark
  bound hawaits := by
    rw [awaitsItem_append_of_ne_nil front h.before_ne] at hawaits
    obtain ⟨first, hfirst⟩ := h.bound hawaits
    exact ⟨head ++ first, by rw [hfirst, List.append_assoc]⟩
  ahead := h.ahead
  items_eq := by rw [List.length_append, ← htaken, ← List.drop_drop, ← Building.items_run, h.items_eq]
  offset_eq := h.offset_eq
  run_eq seeds := by
    rw [← h.run_eq]
    dsimp only [Spot.planted, Spot.reached]
    rw [Building.run_append]

/-- The steps may be those of a place that is begun and finished. -/
theorem enclosed {kind : Option Kind} {site : Site} {around : List Site} {items : List Item}
    (h : spot.IsIn ⟨⟨kind, []⟩, site :: around, items⟩ seen steps mark offset grown) :
    ({ spot with first := .begin kind :: spot.first, rest := spot.rest ++ [.finish] } : Spot).IsIn
      ⟨site, around, items⟩ seen (.begin kind :: (steps ++ [.finish])) mark offset
      fun seeds => (grown seeds).run [.finish] := by
  have hbegun : (Building.mk site around items).run [.begin kind] = ⟨⟨kind, []⟩, site :: around, items⟩ := rfl
  rw [← hbegun] at h
  have hall := (h.append [] [.finish]).prepend [] rfl
  simpa using hall

theorem congr (h : spot.IsIn building seen steps mark offset grown) {grown' : List Node → Building}
    (hgrown : ∀ seeds, grown seeds = grown' seeds) : spot.IsIn building seen steps mark offset grown' :=
  (funext hgrown : grown = grown') ▸ h

end Spot.IsIn

/-! ## Rows -/

/-- No object is among the leaves of a token that is none. -/
theorem append_eq_of_leaves {item : Item} {kind : Kind} (hkind : kind ≠ .object)
    {nodes front behind : List Node} {object : Node} (hobject : object.kind = .object)
    (h : item.leaves kind ++ nodes = front ++ object :: behind) :
    ∃ others, front = item.leaves kind ++ others ∧ nodes = others ++ object :: behind := by
  rcases append_eq_append_cons h with ⟨rest, hleaves, -⟩ | hothers
  · have hmem : object ∈ item.leaves kind := by rw [hleaves]; simp
    rw [Item.leaves, List.mem_append, List.mem_map, List.mem_singleton] at hmem
    rcases hmem with ⟨token, -, rfl⟩ | rfl
    · cases hobject
    · exact absurd hobject hkind
  · exact hothers

/-- Behind a bracket or a comma the steps build nodes with a spot in front of each object among them. If another item
is awaited behind them, the last step takes a comma of the array. -/
structure HasSpots (seen : List View) (steps : List Step) : Prop where
  keeps : keepsInside 0 steps = true
  taken_eq : taken steps = seen.length
  steps_nil : seen = [] → steps = []
  bound : awaitsItem seen = true → ∃ first, steps = first ++ [.bound .array]
  exists_spot : ∀ {opening : View}, awaitsItem [opening] = true →
    ∀ (site : Site) (around : List Site) {items : List Item}, seen.length < items.length →
      ∀ {front behind : List Node} {object : Node}, object.kind = .object →
        build (.bound .array :: steps) items = front ++ object :: behind →
        ∃ spot : Spot, spot.IsIn ⟨site, around, items⟩ (opening :: seen) (.bound .array :: steps)
          '\x7b' object.offset fun seeds =>
            ⟨{ site with nodes := site.nodes ++ (front ++ (seeds ++ object :: behind)) }, around,
              items.drop (1 + taken steps)⟩

theorem build_bound_append {rest : List Step} (hrest : keepsInside 0 rest = true) (item : Item)
    (items : List Item) :
    build (.bound .array :: rest) (item :: items) = item.leaves .mark ++ build rest items :=
  @build_append [.bound .array] rest rfl hrest _

theorem hasSpots_nil : HasSpots [] [] where
  keeps := rfl
  taken_eq := rfl
  steps_nil _ := rfl
  bound := nofun
  exists_spot := by
    intro opening _ site around items hlength front behind object hobject heq
    cases items with
    | nil => exact absurd hlength (Nat.not_lt_zero _)
    | cons bracket items =>
      rw [build_bound_append rfl] at heq
      obtain ⟨others, -, hnone⟩ := append_eq_of_leaves (by decide) hobject heq
      exact absurd (congrArg List.length hnone) (by simp [build, Building.run])

/-- One node in one place. -/
theorem Makes.hasSpots (h : Makes seen steps) (hkeeps : keepsInside 0 steps = true)
    (htaken : taken steps = seen.length) (hne : seen ≠ []) (hends : awaitsItem seen = false) :
    HasSpots seen steps where
  keeps := hkeeps
  taken_eq := htaken
  steps_nil hnil := absurd hnil hne
  bound hawaits := absurd hawaits (Bool.eq_false_iff.1 hends)
  exists_spot := by
    intro opening hopening site around items hlength front behind object hobject heq
    cases items with
    | nil => exact absurd hlength (Nat.not_lt_zero _)
    | cons bracket items =>
      rw [List.length_cons, Nat.lt_succ_iff] at hlength
      rw [build_bound_append hkeeps] at heq
      obtain ⟨others, rfl, hone⟩ := append_eq_of_leaves (by decide) hobject heq
      obtain ⟨nodes, hrun, comments, node, rfl, hcomments, -, hopens⟩ := h ⟨none, []⟩ [] items hlength
      have hbuild : build steps items = comments ++ [node] := by rw [build, hrun]; rfl
      rw [hbuild] at hone
      obtain ⟨rfl, rfl, rfl⟩ : comments = others ∧ node = object ∧ behind = [] := by
        rcases append_eq_append_cons hone with ⟨rest, hrest, -⟩ | ⟨rest, hothers, hnode⟩
        · have hcomment := List.all_eq_true.1 hcomments object (by rw [hrest]; simp)
          rw [Node.isComment, hobject] at hcomment
          cases hcomment
        · cases rest with
          | nil =>
            obtain ⟨rfl, rfl⟩ := List.cons.inj hnode
            exact ⟨(List.append_nil comments).symm.trans hothers.symm, rfl, rfl⟩
          | cons other rest => exact absurd (List.cons.inj hnode).2 (by simp)
      obtain ⟨hopen, ⟨waiting, brace⟩, more, rfl, hoffset, rfl⟩ := hopens hobject
      have hbrace : build steps (⟨[], brace⟩ :: more) = [node] := by
        have hfloat := congrArg (·.site.nodes) (hopen.floats ⟨none, []⟩ [] waiting brace more)
        dsimp only at hfloat
        rw [← build, hbuild, Building.run_of_keepsInside hkeeps] at hfloat
        exact (List.append_cancel_left hfloat).symm
      refine ⟨⟨[opening], seen, [.bound .array], steps, waiting, brace, more⟩, rfl, rfl, rfl, List.cons_ne_nil _ _,
        fun _ => hopening, fun _ => ⟨[], rfl⟩, hopen.brace, rfl, hoffset, fun seeds => ?_⟩
      show (Building.mk { site with
        nodes := site.nodes ++ bracket.leaves .mark ++ (_ ++ seeds) } around _).run steps = _
      obtain ⟨view, views, rfl, -⟩ := hopen.brace
      rw [Building.run_of_keepsInside hkeeps, hbrace, htaken, List.length_cons]
      simp only [List.append_assoc, Nat.add_comm 1, List.drop_succ_cons]

/-- One place behind another. -/
theorem HasSpots.append {comma : View} {more : List View} {rest : List Step}
    (hfirst : HasSpots seen steps) (hcomma : awaitsItem [comma] = true) (hrest : HasSpots more rest) :
    HasSpots (seen ++ [comma] ++ more) (steps ++ [.bound .array] ++ rest) where
  keeps := keepsInside_append (keepsInside_append hfirst.keeps rfl) hrest.keeps
  taken_eq := by
    rw [taken_append, taken_append, hfirst.taken_eq, hrest.taken_eq, List.length_append,
      List.length_append]
    rfl
  steps_nil hnil := by simp at hnil
  bound hawaits := by
    cases more with
    | nil => exact ⟨steps, by rw [hrest.steps_nil rfl, List.append_nil]⟩
    | cons view more =>
      rw [awaitsItem_append_of_ne_nil _ (List.cons_ne_nil _ _)] at hawaits
      obtain ⟨first, rfl⟩ := hrest.bound hawaits
      exact ⟨steps ++ [.bound .array] ++ first, (List.append_assoc ..).symm⟩
  exists_spot := by
    intro opening hopening site around items hlength front behind object hobject heq
    have hlead : keepsInside 0 (.bound .array :: steps) = true := hfirst.keeps
    have htail : keepsInside 0 (.bound .array :: rest) = true := hrest.keeps
    have hsteps : .bound .array :: (steps ++ [.bound .array] ++ rest) =
        (.bound .array :: steps) ++ (.bound .array :: rest) := by simp
    have htaken : taken (.bound .array :: steps) = (opening :: seen).length := by
      rw [taken_cons, hfirst.taken_eq, List.length_cons, Nat.add_comm]
      rfl
    have hviews : (opening :: seen) ++ (comma :: more) = opening :: (seen ++ [comma] ++ more) := by simp
    have hbound : ∀ steps, taken (.bound .array :: steps) = 1 + taken steps := fun _ => taken_cons _ _
    have hcount : 1 + taken (steps ++ [.bound .array] ++ rest) = 1 + taken steps + (1 + taken rest) := by
      rw [List.append_assoc, List.singleton_append, taken_append, hbound]
      omega
    rw [List.length_append, List.length_append, List.length_singleton] at hlength
    rw [hsteps, build_append hlead htail] at heq
    rw [hsteps, hcount]
    rcases append_eq_append_cons heq with ⟨others, hone, rfl⟩ | ⟨others, rfl, hothers⟩
    · obtain ⟨spot, hspot⟩ := hfirst.exists_spot hopening site around (by omega) hobject hone
      refine ⟨_, hviews ▸ (hspot.append ([comma] ++ more) (.bound .array :: rest)).congr fun seeds => ?_⟩
      rw [Building.run_of_keepsInside htail, List.drop_drop, hbound, hbound]
      simp only [List.append_assoc, List.cons_append]
    · obtain ⟨spot, hspot⟩ := hrest.exists_spot hcomma
        { site with nodes := site.nodes ++ build (.bound .array :: steps) items } around
        (by rw [List.length_drop, htaken, List.length_cons]; omega) hobject hothers
      rw [← Building.run_of_keepsInside hlead] at hspot
      refine ⟨_, hviews ▸ (hspot.prepend _ htaken).congr fun seeds => ?_⟩
      simp only [List.append_assoc, List.drop_drop, hbound]

/-- The row between its brackets, as all that is in a place. -/
theorem HasSpots.bracketed (h : HasSpots seen steps) {opening closing : View}
    (hopening : awaitsItem [opening] = true) (hclosing : closing.sign = [']'])
    {kind : Option Kind} {around : List Site} {items : List Item}
    (hlength : (opening :: (seen ++ [closing])).length ≤ items.length) {front behind : List Node}
    {mark : Char} {node : Node} (hahead : Ahead mark node behind)
    (heq : ((Building.mk ⟨kind, []⟩ around items).run
      (.bound .array :: (steps ++ [.bound .array]))).site.nodes = front ++ node :: behind) :
    front.all Node.isComment = false ∧ ∃ spot : Spot,
      spot.IsIn ⟨⟨kind, []⟩, around, items⟩ (opening :: (seen ++ [closing]))
        (.bound .array :: (steps ++ [.bound .array])) mark node.offset fun seeds =>
          ⟨⟨kind, front ++ (seeds ++ node :: behind)⟩, around,
            items.drop (opening :: (seen ++ [closing])).length⟩ := by
  have hlead : keepsInside 0 (.bound .array :: steps) = true := h.keeps
  have htaken : taken (.bound .array :: steps) = 1 + seen.length := by
    rw [← h.taken_eq]
    exact taken_cons _ _
  rw [List.length_cons, List.length_append, List.length_singleton] at hlength
  obtain ⟨last, hlast⟩ : ∃ last, items.drop (1 + seen.length) = last :: items.drop (2 + seen.length) := by
    have hdrop := List.drop_eq_getElem_cons (i := 1 + seen.length) (l := items) (by omega)
    exact ⟨_, hdrop.trans (by congr 2; omega)⟩
  have hclose : ∀ site : Site, (Building.mk site around (items.drop (1 + seen.length))).run [.bound .array] =
      ⟨{ site with nodes := site.nodes ++ last.leaves .mark }, around, items.drop (2 + seen.length)⟩ := by
    intro site
    rw [hlast]
    rfl
  have hsteps : .bound .array :: (steps ++ [.bound .array]) =
      (.bound .array :: steps) ++ [.bound .array] := rfl
  rw [hsteps, Building.run_append, Building.run_of_keepsInside hlead, htaken, hclose] at heq
  dsimp only at heq
  rw [List.nil_append] at heq
  obtain ⟨bracket, rest, hitems⟩ := List.exists_cons_of_length_pos (l := items) (by omega)
  cases hahead with
  | object hobject =>
    rcases append_eq_append_cons heq with ⟨others, hrow, rfl⟩ | ⟨others, -, hleaves⟩
    · constructor
      · rw [hitems, build_bound_append h.keeps] at hrow
        obtain ⟨front', rfl, -⟩ := append_eq_of_leaves (by decide) hobject hrow
        rw [List.all_append, all_isComment_leaves (by decide), Bool.false_and]
      · obtain ⟨spot, hspot⟩ := h.exists_spot hopening ⟨kind, []⟩ around (by omega) hobject hrow
        refine ⟨_, (hspot.append [closing] [.bound .array]).congr fun seeds => ?_⟩
        rw [h.taken_eq, hclose]
        simp [Nat.add_comm 2]
    · rw [← List.append_nil (last.leaves .mark)] at hleaves
      obtain ⟨rest, -, hnone⟩ := append_eq_of_leaves (by decide) hobject hleaves
      simp at hnone
  | closing =>
    -- the last child is the leaf of the bracket, and the comments in front of it are the children before
    rw [Item.leaves, ← List.append_assoc] at heq
    obtain ⟨rfl, hnode⟩ := List.append_inj' heq rfl
    obtain rfl := List.singleton_inj.1 hnode
    constructor
    · rw [hitems, build_bound_append h.keeps, List.all_append, List.all_append, all_isComment_leaves (by decide),
        Bool.false_and, Bool.false_and]
    · refine ⟨⟨opening :: seen, [closing], .bound .array :: steps, [.bound .array], last.comments, last.token,
        items.drop (2 + seen.length)⟩, rfl, rfl, htaken.trans (Nat.add_comm ..), List.cons_ne_nil _ _,
        fun hmark => absurd hmark (by decide), fun hawaits => ?_, ⟨closing, [], rfl, hclosing⟩, ?_, rfl, fun seeds => ?_⟩
      · rcases awaitsItem_cons hawaits with ⟨hnil, -⟩ | hawaits
        · exact ⟨[], by rw [h.steps_nil hnil]; rfl⟩
        · obtain ⟨first, rfl⟩ := h.bound hawaits
          exact ⟨.bound .array :: first, rfl⟩
      · rw [List.length_cons, Nat.add_comm]
        exact hlast
      · dsimp only [Spot.planted, Spot.reached]
        have hadd : ∀ site others, (Building.mk site around (⟨[], last.token⟩ :: others)).run [.bound .array] =
            ⟨{ site with nodes := site.nodes ++ [Node.leaf .mark last.token] }, around, others⟩ := fun _ _ => rfl
        rw [Building.run_of_keepsInside hlead, hadd, List.length_cons, List.length_append, List.length_singleton,
          Nat.add_assoc, Nat.add_comm seen.length]
        simp only [List.nil_append, List.append_assoc]

/-- In the row of an array each object comes behind the bracket or behind a comma. -/
theorem Derives.hasSpots (hg : grammar.Proper) {item : Rule} {closing : Text}
    (h : Derives grammar (.items .array item closing) seen steps) (hitem : item.all Rule.isProper = true)
    (hsparse : item.isSparse = true) (hends : item.endsItem = true) : HasSpots seen steps := by
  have hplace : ∀ {seen : List View} {steps : List Step}, Derives grammar item seen steps →
      HasSpots seen steps := by
    intro seen steps hone
    rcases hone.sparse hg hitem hsparse with ⟨rfl, rfl⟩ | ⟨hne, hmakes, hkeeps⟩
    · exact hasSpots_nil
    · exact hmakes.hasSpots hkeeps hone.taken_eq hne (hone.awaitsItem_eq_false hg hends)
  generalize hrule : Rule.items .array item closing = rule at h
  induction h with
  | itemsEnd => exact hasSpots_nil
  | itemsLast hone =>
    cases hrule
    exact hplace hone
  | itemsMore hone hcomma hmore _ ih =>
    cases hrule
    refine (hplace hone).append ?_ (ih rfl)
    rw [awaitsItem, List.getLast?_singleton, Option.any_some, View.isComma, hcomma]
    rfl
  | _ => cases hrule

end VerticalSlice.Syntax
