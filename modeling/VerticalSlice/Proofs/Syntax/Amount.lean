import VerticalSlice.Proofs.Syntax.Derivation

/-!
# How much a rule builds

`Rule.amount` computes how many nodes there are in a place when a rule has been read in it, as far as that
is plain, and `Derives.builds` says that it is right. Each symbol builds one node. If that is an object, the
places that are begun in front of it have no node of their own, and the first token is the brace of the
object (`OpensObject`).
-/

namespace VerticalSlice.Syntax

/-- How many nodes that are no comments there are in a place. -/
inductive Amount
  | zero
  | one
  /-- At least one. -/
  | some
deriving DecidableEq, Repr

namespace Amount

/-- The amount with one node more. -/
def more : Amount → Amount
  | zero => one
  | _ => some

/-- What is known if there is the one amount or the other. -/
def join : Amount → Amount → Option Amount
  | zero, zero => zero
  | one, one => one
  | zero, _ | _, zero => none
  | _, _ => some

/-- There are so many nodes. If it is one, and it is an object, then the comments in front of it and its
offset have the property. -/
def Fits (p : List Node → Nat → Prop) : Amount → List Node → Prop
  | zero, nodes => nodes = []
  | one, nodes => ∃ comments node, nodes = comments ++ [node] ∧ comments.all Node.isComment = true ∧
    node.isComment = false ∧ (node.kind = .object → p comments node.offset)
  | some, nodes => nodes.all Node.isComment = false

variable {p : List Node → Nat → Prop} {first second joined : Amount} {nodes : List Node}

theorem Fits.all_isComment_eq (h : first.Fits p nodes) (hne : first ≠ zero) :
    nodes.all Node.isComment = false := by
  cases first with
  | zero => exact absurd rfl hne
  | one =>
    obtain ⟨comments, node, rfl, -, hnode, -⟩ := h
    rw [List.all_append, List.all_cons, hnode, Bool.false_and, Bool.and_false]
  | some => exact h

theorem Fits.left (h : first.Fits p nodes) (hjoin : first.join second = Option.some joined) :
    joined.Fits p nodes := by
  cases first <;> cases second <;> cases hjoin <;> first | exact h | exact h.all_isComment_eq nofun

theorem Fits.right (h : second.Fits p nodes) (hjoin : first.join second = Option.some joined) :
    joined.Fits p nodes := by
  cases first <;> cases second <;> cases hjoin <;> first | exact h | exact h.all_isComment_eq nofun

theorem Fits.imp {q : List Node → Nat → Prop} (h : first.Fits p nodes)
    (himp : ∀ comments offset, p comments offset → q comments offset) : first.Fits q nodes := by
  cases first with
  | zero | some => exact h
  | one =>
    obtain ⟨comments, node, hnodes, hcomments, hnode, hobject⟩ := h
    exact ⟨comments, node, hnodes, hcomments, hnode, fun hkind => himp _ _ (hobject hkind)⟩

theorem join_eq_zero_iff : first.join second = Option.some zero ↔ first = zero ∧ second = zero := by
  cases first <;> cases second <;> decide

theorem more_ne_zero (amount : Amount) : amount.more ≠ zero := by
  cases amount <;> exact nofun

end Amount

/-- How many nodes there are in a place when the rule has been read in it, and there were `before`; there is
no answer where that is not plain. -/
def Rule.amount : Rule → Amount → Option Amount
  | .nothing, before => before
  | .take .., before | .group .., before | .node (some _) _, before | .call _, before =>
    before.more
  | .node none rule, before => if rule.amount .zero = some .one then some before.more else none
  | .both first second, before => (first.amount before).bind second.amount
  | .choose _ first second, before | .either first second, before =>
    (first.amount before).bind fun amount => (second.amount before).bind amount.join
  | .many _ rule, before =>
    ((rule.amount before).bind before.join).bind fun joined =>
      if (rule.amount joined).bind joined.join = some joined then some joined else none
  | .fold _, before => if before = .zero then none else some .one
  | .role _, before => if before = .zero then none else some before
  | .failure, _ | .items .., _ | .listed _, _ | .members _, _ => none

/-! ## Rules of the grammar -/

/-- Does the rule leave alone what is in the place in which it is read? -/
def Rule.addsOnly : Rule → Bool
  | .fold _ | .role _ => false
  | .items _ rule _ | .listed rule | .members rule | .many _ rule => rule.addsOnly
  | .both first second | .choose _ first second | .either first second =>
    first.addsOnly && second.addsOnly
  | .nothing | .failure | .take .. | .group .. | .node .. | .call _ => true

/-- Does the rule take something and build one node, or nothing at all? -/
def Rule.isSparse : Rule → Bool
  | .nothing => true
  | .choose _ first second => first.isSparse && second.isSparse
  | rule => rule.amount .zero = some .one && rule.addsOnly && rule.takes

/-- Does what the rule takes end with something else than an opening bracket or a comma? -/
def Rule.endsItem : Rule → Bool
  | .items .. | .members _ => false
  | .group _ _ _ closing => !([['['], [',']] : List Text).contains closing
  | .listed item => item.takes && item.endsItem
  | .both first second | .choose _ first second | .either first second => first.endsItem && second.endsItem
  | .many _ rule | .node _ rule => rule.endsItem
  | .nothing | .failure | .take .. | .fold _ | .role _ | .call _ => true

/-- Is the kind one of nodes that are only built between brackets? -/
def Kind.isBracketed (kind : Kind) : Bool := kind == .array || kind == .object

/-- Are these the places of an array, with one node at most in each? -/
def Rule.isRow : Rule → Bool
  | .items kind item _ => kind == .array && item.isSparse && item.endsItem
  | _ => false

def Rule.isToken : Rule → Bool
  | .take .. => true
  | _ => false

/-- Names and literals are single tokens, and arrays and objects are lists in their brackets; in an array
each place has one node at most. -/
def Rule.isProper : Rule → Bool
  | .take _ kind => kind != .comment && !kind.isBracketed
  | .group kind opening inside closing =>
    kind.encloses && (kind != .array || (opening = ['['] && closing = [']'] && inside.isRow)) &&
      (kind != .object || opening = ['\x7b'])
  | .node (some kind) rule =>
    kind != .comment && !kind.isBracketed && (!kind.isName || rule.isToken)
  | .fold kind => kind.encloses && !kind.isBracketed
  | _ => true

/-- The rules of a grammar are proper ones, and each symbol takes something that may be an item and builds one node
behind what is there. -/
structure Grammar.Proper (grammar : Grammar) : Prop where
  proper : ∀ symbol, (grammar symbol).all Rule.isProper = true
  amount : ∀ symbol, (grammar symbol).amount .zero = some .one
  addsOnly : ∀ symbol, (grammar symbol).addsOnly = true
  takes : ∀ symbol, (grammar symbol).takes = true
  endsItem : ∀ symbol, (grammar symbol).endsItem = true

theorem proper_grammar (markup : Bool) : (grammar markup).Proper := by
  constructor <;> intro symbol <;> cases symbol <;> cases markup <;> decide +kernel

variable {grammar : Grammar} {rule : Rule} {seen : List View} {steps : List Step}

theorem Derives.staysIn_of_proper (hg : grammar.Proper) (h : Derives grammar rule seen steps)
    (hrule : rule.all Rule.isProper = true) : StaysIn seen steps := by
  refine h.staysIn (fun kind hkind => ?_) hg.proper hrule
  exact Kind.ne_comment_of_encloses (Bool.and_eq_true_iff.1 hkind).1

theorem Derives.keepsInside_eq (hg : grammar.Proper) (h : Derives grammar rule seen steps) (depth : Nat)
    (hadds : depth = 0 → rule.addsOnly = true) (rest : List Step) :
    keepsInside depth (steps ++ rest) = keepsInside depth rest := by
  induction h generalizing depth rest with
  | nothing | itemsEnd | membersEnd | manyEnd => rfl
  | take => rfl
  | @group kind opening closing inside first last seen steps hfirst hinside hlast ih =>
    show keepsInside (depth + 1) (steps ++ [.bound kind] ++ [.finish] ++ rest) = _
    rw [List.append_assoc, List.append_assoc, ih _ fun h => absurd h (Nat.succ_ne_zero depth)]
    rfl
  | itemsLast _ ih | listedLast _ ih => exact ih depth hadds rest
  | itemsMore _ _ _ ih₁ ih₂ | listedMore _ _ ih₁ ih₂ | membersMark _ _ ih₁ ih₂ =>
    rw [List.append_assoc, List.append_assoc, ih₁ depth hadds]
    exact ih₂ depth hadds rest
  | membersMore _ _ ih₁ ih₂ | manyMore _ _ ih₁ ih₂ =>
    rw [List.append_assoc, ih₁ depth hadds, ih₂ depth hadds]
  | both _ _ ih₁ ih₂ =>
    have hboth := fun hdepth => Bool.and_eq_true_iff.1 (hadds hdepth)
    rw [List.append_assoc, ih₁ depth fun h => (hboth h).1, ih₂ depth fun h => (hboth h).2]
  | chooseYes _ ih | eitherFirst _ ih => exact ih depth (fun h => (Bool.and_eq_true_iff.1 (hadds h)).1) rest
  | chooseNo _ ih | eitherSecond _ ih => exact ih depth (fun h => (Bool.and_eq_true_iff.1 (hadds h)).2) rest
  | @node rule seen steps kind _ ih =>
    show keepsInside (depth + 1) (steps ++ [.finish] ++ rest) = _
    rw [List.append_assoc, ih _ fun h => absurd h (Nat.succ_ne_zero depth)]
    rfl
  | fold | role =>
    cases depth with
    | zero => cases hadds rfl
    | succ depth => rfl
  | call _ ih => exact ih depth (fun _ => hg.addsOnly _) rest

theorem Derives.keepsInside_zero (hg : grammar.Proper) (h : Derives grammar rule seen steps)
    (hadds : rule.addsOnly = true) : keepsInside 0 steps = true := by
  have hkeeps := h.keepsInside_eq hg 0 (fun _ => hadds) []
  rw [List.append_nil] at hkeeps
  exact hkeeps

/-! ## What is built -/

/-- The steps build an object that opens with the first token, and places without a node of their own around
it: the comments in front of the token may as well be in the place in which the steps are taken. -/
structure OpensObject (seen : List View) (steps : List Step) : Prop where
  brace : ∃ view rest, seen = view :: rest ∧ view.sign = ['\x7b']
  floats : ∀ (site : Site) (around : List Site) (comments : List Token) (token : Token)
    (items : List Item), (Building.mk site around (⟨comments, token⟩ :: items)).run steps =
      (Building.mk { site with nodes := site.nodes ++ comments.map (Node.leaf .comment) } around
        (⟨[], token⟩ :: items)).run steps

theorem OpensObject.append (h : OpensObject seen steps) (more : List View) (rest : List Step) :
    OpensObject (seen ++ more) (steps ++ rest) where
  brace := by
    obtain ⟨view, views, rfl, hview⟩ := h.brace
    exact ⟨view, views ++ more, rfl, hview⟩
  floats site around comments token items := by
    rw [Building.run_append, Building.run_append, h.floats]

theorem OpensObject.enclosed (h : OpensObject seen steps) (hstays : StaysIn seen steps) :
    OpensObject seen (.begin none :: (steps ++ [.finish])) where
  brace := h.brace
  floats site around comments token items := by
    obtain ⟨nodes, hrun, -⟩ := hstays ⟨none, []⟩ (⟨[], token⟩ :: items)
    have hwith := hrun _ (all_isComment_map_leaf comments)
    have hwithout := hrun [] rfl
    dsimp only at hwith hwithout
    rw [List.append_nil] at hwith hwithout
    rw [Building.run_enclosed, Building.run_enclosed, h.floats, hwithout]
    show Building.step (Building.run ⟨⟨none, comments.map (Node.leaf .comment)⟩, _, _⟩ _) _ = _
    rw [hwith]
    show Building.mk ⟨site.kind, site.nodes ++ (_ ++ nodes)⟩ _ _ = _
    rw [← List.append_assoc]
    rfl

/-- In the braces of an object comments in front of the first of them go in front of the object. -/
theorem opensObject_of_staysIn {opening last : View} (hbrace : opening.sign = ['\x7b'])
    (h : StaysIn (seen ++ [last]) (steps ++ [.bound .object])) :
    OpensObject (opening :: (seen ++ [last]))
      (.begin (some .object) :: (.bound .object :: (steps ++ [.bound .object]) ++ [.finish])) where
  brace := ⟨opening, _, rfl, hbrace⟩
  floats site around comments token items := by
    obtain ⟨nodes, hrun, -⟩ := h ⟨some .object, [Node.leaf .mark token]⟩ items
    have hcomments := all_isComment_map_leaf comments
    have hstep : ∀ (outer : Site) (comments : List Token), (Building.mk ⟨some .object, []⟩ (outer :: around)
        (⟨comments, token⟩ :: items)).run (.bound .object :: (steps ++ [.bound .object])) =
        (Building.mk ⟨some .object, comments.map (Node.leaf .comment) ++ [Node.leaf .mark token]⟩
          (outer :: around) items).run (steps ++ [.bound .object]) := fun _ _ => rfl
    rw [Building.run_enclosed, Building.run_enclosed, hstep, hstep, hrun _ hcomments]
    show _ = Building.step (Building.run ⟨⟨some .object, [] ++ [Node.leaf .mark token]⟩, _, _⟩ _) _
    rw [hrun [] rfl]
    show Building.mk ⟨site.kind, site.nodes ++ enclose .object (_ ++ nodes)⟩ _ _ = _
    rw [enclose_comments hcomments, ← List.append_assoc]
    rfl

/-- The steps open an object at the first of the tokens, which has this offset and these comments in
front of it. -/
def OpensAt (seen : List View) (steps : List Step) (items : List Item) (comments : List Node)
    (offset : Nat) : Prop :=
  OpensObject seen steps ∧ ∃ item rest, items = item :: rest ∧ item.token.offset = offset ∧
    item.comments.map (Node.leaf .comment) = comments

/-- Where there was one amount before the steps there is the other behind them. -/
structure Builds (seen : List View) (steps : List Step) (before after : Amount) : Prop where
  zero : after = .zero → before = .zero ∧ seen = [] ∧ steps = []
  run : ∀ (p : List Node → Nat → Prop) (site : Site) (around : List Site) (items : List Item),
    seen.length ≤ items.length → before.Fits p site.nodes → ∃ nodes,
      (Building.mk site around items).run steps =
        ⟨{ site with nodes := nodes }, around, items.drop seen.length⟩ ∧
      after.Fits (fun comments offset =>
        if before = .zero then OpensAt seen steps items comments offset else p comments offset) nodes

/-- The steps add one node. -/
def Makes (seen : List View) (steps : List Step) : Prop :=
  ∀ (site : Site) (around : List Site) (items : List Item), seen.length ≤ items.length →
    ∃ nodes, (Building.mk site around items).run steps =
        ⟨{ site with nodes := site.nodes ++ nodes }, around, items.drop seen.length⟩ ∧
      Amount.one.Fits (OpensAt seen steps items) nodes

theorem Makes.builds (h : Makes seen steps) (before : Amount) : Builds seen steps before before.more where
  zero hzero := absurd hzero before.more_ne_zero
  run p site around items hlength hbefore := by
    obtain ⟨nodes, hrun, hfits⟩ := h site around items hlength
    refine ⟨_, hrun, ?_⟩
    cases before with
    | zero =>
      rw [show site.nodes = [] from hbefore, List.nil_append]
      exact hfits.imp fun comments offset hoffset => by rwa [if_pos rfl]
    | one | some =>
      show (site.nodes ++ nodes).all Node.isComment = false
      rw [List.all_append, hbefore.all_isComment_eq nofun, Bool.false_and]

namespace Builds

variable {before between after joined : Amount} {more : List View} {rest : List Step}

theorem nil (amount : Amount) : Builds [] [] amount amount where
  zero h := ⟨h, rfl, rfl⟩
  run p site around items _ h := by
    refine ⟨site.nodes, rfl, ?_⟩
    cases amount with
    | zero | some => exact h
    | one => exact h

theorem left (h : Builds seen steps before after) {other : Amount}
    (hjoin : after.join other = some joined) : Builds seen steps before joined where
  zero hzero := h.zero (Amount.join_eq_zero_iff.1 (hzero ▸ hjoin)).1
  run p site around items hlength hbefore := by
    obtain ⟨nodes, hrun, hfits⟩ := h.run p site around items hlength hbefore
    exact ⟨nodes, hrun, hfits.left hjoin⟩

theorem right (h : Builds seen steps before after) {other : Amount}
    (hjoin : other.join after = some joined) : Builds seen steps before joined where
  zero hzero := h.zero (Amount.join_eq_zero_iff.1 (hzero ▸ hjoin)).2
  run p site around items hlength hbefore := by
    obtain ⟨nodes, hrun, hfits⟩ := h.run p site around items hlength hbefore
    exact ⟨nodes, hrun, hfits.right hjoin⟩

theorem append (hfirst : Builds seen steps before between) (hsecond : Builds more rest between after) :
    Builds (seen ++ more) (steps ++ rest) before after where
  zero hzero := by
    obtain ⟨hbetween, rfl, rfl⟩ := hsecond.zero hzero
    obtain ⟨hbefore, rfl, rfl⟩ := hfirst.zero hbetween
    exact ⟨hbefore, rfl, rfl⟩
  run p site around items hlength hbefore := by
    rw [List.length_append] at hlength
    obtain ⟨nodes, hrun, hfits⟩ := hfirst.run p site around items (by omega) hbefore
    obtain ⟨nodes', hrun', hfits'⟩ := hsecond.run _ { site with nodes := nodes } around
      (items.drop seen.length) (by rw [List.length_drop]; omega) hfits
    refine ⟨nodes', ?_, ?_⟩
    · rw [Building.run_append, hrun, hrun', List.drop_drop, List.length_append]
    · by_cases hbetween : between = .zero
      · -- nothing has been taken so far
        obtain ⟨rfl, rfl, rfl⟩ := hfirst.zero hbetween
        refine hfits'.imp fun comments offset hoffset => ?_
        rw [if_pos hbetween] at hoffset
        rwa [if_pos rfl]
      · refine hfits'.imp fun comments offset hoffset => ?_
        rw [if_neg hbetween] at hoffset
        split at hoffset
        · next hzero =>
          rw [if_pos hzero]
          exact ⟨hoffset.1.append more rest, hoffset.2⟩
        · next hne => rwa [if_neg hne]

end Builds

theorem makes_take {look : Look} {kind : Kind} (view : View)
    (hkind : (Rule.take look kind).isProper = true) : Makes [view] [.leaf kind] := by
  intro site around items hlength
  cases items with
  | nil => exact absurd hlength (by simp)
  | cons item items =>
    rw [Rule.isProper, Bool.and_eq_true, Bool.not_eq_true', Kind.isBracketed, Bool.or_eq_false_iff] at hkind
    refine ⟨item.leaves kind, rfl, _, _, rfl, all_isComment_map_leaf _,
      isComment_mk (bne_iff_ne.1 hkind.1) [], fun hobject => ?_⟩
    exact absurd hobject (beq_eq_false_iff_ne.1 hkind.2.2)

/-- A place that is finished as a node is one node; it stays outside what comments come first. -/
theorem one_fits_enclose {p : List Node → Nat → Prop} {kind : Kind} (hkind : kind ≠ .comment) (nodes : List Node)
    (hobject : kind = .object → p (nodes.takeWhile Node.isComment)
      (Node.branch kind (nodes.dropWhile Node.isComment)).offset) :
    Amount.one.Fits p (enclose kind nodes) :=
  ⟨_, _, rfl, List.all_takeWhile, isComment_mk hkind _, hobject⟩

theorem StaysIn.makes (h : StaysIn seen steps) {kind : Kind} (hkind : kind ≠ .comment)
    (hobject : ∀ items nodes, kind = .object → seen.length ≤ items.length →
      (∀ around, (Building.mk ⟨some kind, []⟩ around items).run steps =
        ⟨⟨some kind, nodes⟩, around, items.drop seen.length⟩) →
      OpensAt seen (.begin (some kind) :: (steps ++ [.finish])) items
        (nodes.takeWhile Node.isComment) (Node.branch kind (nodes.dropWhile Node.isComment)).offset) :
    Makes seen (.begin (some kind) :: (steps ++ [.finish])) := by
  intro site around items hlength
  obtain ⟨nodes, hrun, -⟩ := h.exists_run ⟨some kind, []⟩ items
  refine ⟨enclose kind nodes, ?_,
    one_fits_enclose hkind nodes fun h => hobject items nodes h hlength hrun⟩
  rw [Building.run_enclosed, hrun]
  rfl

theorem makes_group {kind : Kind} {opening closing : Text} {inside : Rule} {first last : View}
    (hproper : (Rule.group kind opening inside closing).isProper = true) (hfirst : first.sign = opening)
    (h : StaysIn seen steps) :
    Makes (first :: (seen ++ [last]))
      (.begin (some kind) :: (.bound kind :: (steps ++ [.bound kind]) ++ [.finish])) := by
  have hbound := h.append (staysIn_bound last kind)
  rw [Rule.isProper, Bool.and_eq_true, Bool.and_eq_true] at hproper
  refine ((staysIn_bound first kind).append hbound).makes (Kind.ne_comment_of_encloses hproper.1.1)
    fun items nodes hkind hlength hrun => ?_
  subst hkind
  have hbrace : opening = ['\x7b'] := by simpa using hproper.2
  cases items with
  | nil => exact absurd hlength (by simp)
  | cons item items =>
    refine ⟨opensObject_of_staysIn (hfirst.trans hbrace) hbound, item, items, rfl, ?_⟩
    -- the brace is the first that is in the place, and stays so
    obtain ⟨nodes', hrun', hstarts⟩ := hbound.exists_run ⟨some .object, item.leaves .mark⟩ items
    obtain rfl : nodes = nodes' := by
      have hsame := (hrun []).symm.trans (hrun' [])
      injection hsame with hsite
      injection hsite
    obtain ⟨hcomments, node, rest, rfl, hnode, hoffset⟩ :=
      hstarts _ _ (startsAt_leaves (show Kind.mark ≠ .comment by decide) item)
    rw [takeWhile_isComment hcomments hnode, dropWhile_isComment hcomments hnode]
    exact ⟨hoffset.symm, rfl⟩

/-- A place without a kind gives its nodes as they are. -/
theorem Builds.makes_enclosed (h : Builds seen steps .zero .one) (hstays : StaysIn seen steps) :
    Makes seen (.begin none :: (steps ++ [.finish])) := by
  intro site around items hlength
  obtain ⟨nodes, hrun, -⟩ := hstays.exists_run ⟨none, []⟩ items
  obtain ⟨nodes', hrun', hfits⟩ := h.run (fun _ _ => False) ⟨none, []⟩ [] items hlength rfl
  obtain rfl : nodes = nodes' := by
    have hsame := (hrun []).symm.trans hrun'
    injection hsame with hsite
    injection hsite
  refine ⟨nodes, ?_, hfits.imp fun comments offset hoffset => ?_⟩
  · rw [Building.run_enclosed, hrun]
    rfl
  · rw [if_pos rfl] at hoffset
    exact ⟨hoffset.1.enclosed hstays, hoffset.2⟩

/-- Steps that keep inside add to what is there what they build where there is nothing. -/
theorem Builds.makes_of_keepsInside (h : Builds seen steps .zero .one)
    (hkeeps : keepsInside 0 steps = true) : Makes seen steps := by
  intro site around items hlength
  obtain ⟨nodes, hrun, hfits⟩ := h.run (fun _ _ => False) ⟨site.kind, []⟩ around items hlength rfl
  have hempty := Building.run_of_keepsInside hkeeps ⟨site.kind, []⟩ around items
  have hsite := Building.run_of_keepsInside hkeeps site around items
  rw [hempty, List.nil_append] at hrun
  have hnodes := congrArg (·.site.nodes) hrun
  have hitems := congrArg (·.items) hrun
  dsimp only at hnodes hitems
  rw [hsite, hnodes, hitems]
  refine ⟨nodes, rfl, hfits.imp fun comments offset hoffset => ?_⟩
  rwa [if_pos rfl] at hoffset

theorem builds_fold {kind : Kind} (hkind : (Rule.fold kind).isProper = true) (before : Amount) :
    Builds [] [.fold kind] before .one where
  zero h := nomatch h
  run p site around items _ _ := by
    rw [Rule.isProper, Bool.and_eq_true, Bool.not_eq_true', Kind.isBracketed, Bool.or_eq_false_iff] at hkind
    refine ⟨_, rfl, one_fits_enclose (Kind.ne_comment_of_encloses hkind.1) _ fun hobject => ?_⟩
    exact absurd hobject (beq_eq_false_iff_ne.1 hkind.2.2)

theorem builds_role (role : Role) {before : Amount} (hbefore : before ≠ .zero) :
    Builds [] [.role role] before before where
  zero h := absurd h hbefore
  run p site around items _ hfits := by
    refine ⟨_, rfl, ?_⟩
    show before.Fits _ (withFirstRole role site.nodes)
    simp only [if_neg hbefore]
    cases before with
    | zero => exact absurd rfl hbefore
    | one =>
      obtain ⟨comments, node, hnodes, hcomments, hnode, hobject⟩ := hfits
      rw [hnodes, withFirstRole_eq hcomments hnode]
      refine ⟨comments, node.withRole role, rfl, hcomments, ?_, ?_⟩
      · rw [Node.isComment_withRole, hnode]
      · rw [Node.offset_withRole]
        cases node
        exact hobject
    | some =>
      obtain ⟨comments, first, rest, hnodes, hcomments, hfirst⟩ := exists_first_of_all_isComment hfits
      rw [hnodes, withFirstRole_eq hcomments hfirst]
      show List.all _ _ = _
      rw [List.all_append, List.all_cons, Node.isComment_withRole, hfirst, Bool.false_and, Bool.and_false]

/-- What a rule builds is as much as has been computed. -/
theorem Derives.builds (hg : grammar.Proper) (h : Derives grammar rule seen steps)
    (hrule : rule.all Rule.isProper = true) {before after : Amount}
    (hamount : rule.amount before = some after) : Builds seen steps before after := by
  induction h generalizing before after with
  | nothing =>
    obtain rfl := Option.some.inj hamount
    exact .nil before
  | take kind =>
    obtain rfl := Option.some.inj hamount
    rw [Rule.all, Bool.and_eq_true] at hrule
    exact (makes_take _ hrule.1).builds before
  | group hfirst hinside hlast =>
    obtain rfl := Option.some.inj hamount
    rw [Rule.all, Bool.and_eq_true] at hrule
    exact (makes_group hrule.1 hfirst (hinside.staysIn_of_proper hg hrule.2)).builds before
  | itemsEnd | itemsLast | itemsMore | listedLast | listedMore | membersEnd | membersMore | membersMark =>
    cases hamount
  | both hfirst hsecond ih₁ ih₂ =>
    rw [Rule.all, Bool.and_eq_true, Bool.and_eq_true] at hrule
    obtain ⟨between, hbetween, hafter⟩ := Option.bind_eq_some_iff.1 hamount
    exact (ih₁ hrule.2.1 hbetween).append (ih₂ hrule.2.2 hafter)
  | chooseYes _ ih | eitherFirst _ ih =>
    rw [Rule.all, Bool.and_eq_true, Bool.and_eq_true] at hrule
    obtain ⟨first, hfirst, hrest⟩ := Option.bind_eq_some_iff.1 hamount
    obtain ⟨second, hsecond, hjoin⟩ := Option.bind_eq_some_iff.1 hrest
    exact (ih hrule.2.1 hfirst).left hjoin
  | chooseNo _ ih | eitherSecond _ ih =>
    rw [Rule.all, Bool.and_eq_true, Bool.and_eq_true] at hrule
    obtain ⟨first, hfirst, hrest⟩ := Option.bind_eq_some_iff.1 hamount
    obtain ⟨second, hsecond, hjoin⟩ := Option.bind_eq_some_iff.1 hrest
    exact (ih hrule.2.2 hsecond).right hjoin
  | manyEnd =>
    obtain ⟨joined, hjoined, hrest⟩ := Option.bind_eq_some_iff.1 hamount
    obtain ⟨amount, -, hjoin⟩ := Option.bind_eq_some_iff.1 hjoined
    split at hrest
    · obtain rfl := Option.some.inj hrest
      exact (Builds.nil before).left hjoin
    · cases hrest
  | manyMore _ _ ih₁ ih₂ =>
    obtain ⟨joined, hjoined, hrest⟩ := Option.bind_eq_some_iff.1 hamount
    obtain ⟨amount, hfirst, hjoin⟩ := Option.bind_eq_some_iff.1 hjoined
    split at hrest
    · next hagain =>
      obtain rfl := Option.some.inj hrest
      have hitem := hrule
      rw [Rule.all, Bool.and_eq_true] at hitem
      refine ((ih₁ hitem.2 hfirst).right hjoin).append (ih₂ hrule ?_)
      rw [Rule.amount, hagain, Option.bind_some, if_pos hagain]
    · cases hrest
  | @node rule seen steps kind hinside ih =>
    rw [Rule.all, Bool.and_eq_true] at hrule
    have hstays := hinside.staysIn_of_proper hg hrule.2
    cases kind with
    | none =>
      rw [Rule.amount] at hamount
      split at hamount
      · next hone =>
        obtain rfl := Option.some.inj hamount
        exact ((ih hrule.2 hone).makes_enclosed hstays).builds before
      · cases hamount
    | some kind =>
      obtain rfl := Option.some.inj hamount
      have hkind := hrule.1
      rw [Rule.isProper, Bool.and_eq_true, Bool.and_eq_true, Bool.not_eq_true', Kind.isBracketed,
        Bool.or_eq_false_iff] at hkind
      refine (hstays.makes (bne_iff_ne.1 hkind.1.1) fun _ _ hobject => ?_).builds before
      exact absurd hobject (beq_eq_false_iff_ne.1 hkind.1.2.2)
  | fold kind =>
    rw [Rule.all, Bool.and_eq_true] at hrule
    rw [Rule.amount] at hamount
    split at hamount
    · cases hamount
    · obtain rfl := Option.some.inj hamount
      exact builds_fold hrule.1 before
  | role role =>
    rw [Rule.amount] at hamount
    split at hamount
    · cases hamount
    · next hbefore =>
      obtain rfl := Option.some.inj hamount
      exact builds_role role hbefore
  | @call symbol seen steps hinside ih =>
    obtain rfl := Option.some.inj hamount
    refine (Builds.makes_of_keepsInside (ih (hg.proper symbol) (hg.amount symbol)) ?_).builds before
    exact hinside.keepsInside_zero hg (hg.addsOnly symbol)

/-- A rule that builds one node and leaves alone what is there adds that node. -/
theorem Derives.makes (hg : grammar.Proper) (h : Derives grammar rule seen steps)
    (hrule : rule.all Rule.isProper = true) (hamount : rule.amount .zero = some .one)
    (hadds : rule.addsOnly = true) : Makes seen steps :=
  (h.builds hg hrule hamount).makes_of_keepsInside (h.keepsInside_zero hg hadds)

end VerticalSlice.Syntax
