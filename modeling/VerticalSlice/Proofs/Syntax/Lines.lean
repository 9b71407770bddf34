import VerticalSlice.Proofs.Syntax.Located

/-!
# Lines along a tree

The walk through a tree goes down the text: no node begins on an earlier line than the one that is visited before
it (`pairwise_line_walk`). That is so of every text, also of one that is no program.

Nodes take their lines over from tokens, which are placed in the order of the text. Building keeps that order: a
leaf is added behind all others, and a node that is put around others begins where the first of them does. Only
a node around nothing would begin on the first line, wherever it stands. `Rule.fills` finds out that no rule of
the grammar builds one, as there is always something in a place that is no comment when its nodes are put
together.
-/

namespace VerticalSlice.Syntax

variable {nodes : List Node} {front back : List Nat}

/-! ## Lines of nodes -/

/-- The lines of the nodes and of all that is in them, in the order of the walk. -/
def linesOf (nodes : List Node) : List Nat := (Node.preorderAll nodes).map Node.line

theorem linesOf_append (first second : List Node) :
    linesOf (first ++ second) = linesOf first ++ linesOf second := by
  rw [linesOf, Node.preorderAll_append, List.map_append, linesOf, linesOf]

theorem linesOf_mk (label : Label) (children : List Node) :
    linesOf [.mk label children] = label.line :: linesOf children := by
  rw [linesOf, Node.preorderAll, Node.preorderAll, List.append_nil, Node.preorder, List.map_cons]
  rfl

theorem linesOf_cons (node : Node) (rest : List Node) : linesOf (node :: rest) = linesOf [node] ++ linesOf rest :=
  linesOf_append [node] rest

/-- A leaf has the line of its token. -/
theorem linesOf_map_tokens {leaf : Token → Node} (hleaf : ∀ token, linesOf [leaf token] = [token.line])
    (tokens : List Token) : linesOf (tokens.map leaf) = tokens.map Token.line := by
  induction tokens with
  | nil => rfl
  | cons token rest ih =>
    rw [List.map_cons, linesOf_cons, hleaf, ih]
    rfl

theorem linesOf_leaf (kind : Kind) (token : Token) : linesOf [.leaf kind token] = [token.line] := linesOf_mk _ []

theorem linesOf_leaves (item : Item) (kind : Kind) :
    linesOf (item.leaves kind) = (item.comments ++ [item.token]).map Token.line := by
  rw [Item.leaves, linesOf_append, linesOf_map_tokens (linesOf_leaf .comment), linesOf_leaf, List.map_append]
  rfl

theorem linesOf_withRole (role : Role) (node : Node) : linesOf [node.withRole role] = linesOf [node] := by
  cases node
  rw [Node.withRole, linesOf_mk, linesOf_mk]

theorem linesOf_withFirstRole (role : Role) (nodes : List Node) :
    linesOf (withFirstRole role nodes) = linesOf nodes := by
  conv_rhs => rw [← List.takeWhile_append_dropWhile (p := Node.isComment) (l := nodes), linesOf_append]
  rw [withFirstRole, linesOf_append]
  cases nodes.dropWhile Node.isComment with
  | nil => rfl
  | cons node rest => rw [linesOf_cons, linesOf_withRole, ← linesOf_cons]

/-- The walk begins with the first node. -/
theorem exists_linesOf (first : Node) (rest : List Node) :
    ∃ lines, linesOf (first :: rest) = first.line :: lines := by
  obtain ⟨label, children⟩ := first
  exact ⟨linesOf children ++ linesOf rest, by rw [linesOf_cons, linesOf_mk]; rfl⟩

/-- Where lines rise, they rise as well if one of them is there twice. -/
theorem pairwise_twice {line : Nat} (h : (front ++ line :: back).Pairwise (· ≤ ·)) :
    (front ++ line :: line :: back).Pairwise (· ≤ ·) := by
  rw [List.pairwise_append, List.pairwise_cons] at h
  obtain ⟨hfront, ⟨hline, hback⟩, hboth⟩ := h
  rw [List.pairwise_append, List.pairwise_cons, List.pairwise_cons]
  refine ⟨hfront, ⟨fun other hother => ?_, hline, hback⟩, fun other hother later hlater => ?_⟩
  · rcases List.mem_cons.1 hother with rfl | hother
    · exact Nat.le_refl _
    · exact hline other hother
  · rcases List.mem_cons.1 hlater with rfl | hlater
    · exact hboth other hother _ (List.mem_cons_self ..)
    · exact hboth other hother later hlater

/-- A node around others begins where the first of them does. -/
theorem pairwise_branch (kind : Kind) {first : Node} {rest : List Node}
    (h : (front ++ linesOf (first :: rest) ++ back).Pairwise (· ≤ ·)) :
    (front ++ linesOf [.branch kind (first :: rest)] ++ back).Pairwise (· ≤ ·) := by
  obtain ⟨lines, hlines⟩ := exists_linesOf first rest
  rw [Node.branch, linesOf_mk, hlines]
  rw [hlines, List.append_assoc, List.cons_append] at h
  rw [List.append_assoc]
  exact pairwise_twice h

theorem pairwise_enclose (kind : Kind) (hfilled : nodes.all Node.isComment = false)
    (h : (front ++ linesOf nodes ++ back).Pairwise (· ≤ ·)) :
    (front ++ linesOf (enclose kind nodes) ++ back).Pairwise (· ≤ ·) := by
  -- the comments in front stay outside, so they count as what comes before the node
  obtain ⟨comments, first, rest, rfl, hcomments, hfirst⟩ := exists_first_of_all_isComment hfilled
  rw [linesOf_append, ← List.append_assoc] at h
  rw [enclose, takeWhile_isComment hcomments hfirst, dropWhile_isComment hcomments hfirst, linesOf_append,
    ← List.append_assoc]
  exact pairwise_branch kind h

/-! ## Building -/

namespace Building

/-- The lines of all that is built, and behind them those of the tokens to come. -/
def lines (last : List Token) (building : Building) : List Nat :=
  linesOf building.row ++ (itemTokens building.items ++ last).map Token.line

/-- The lines rise. -/
def Rising (last : List Token) (building : Building) : Prop := (building.lines last).Pairwise (· ≤ ·)

/-- There is something in the innermost place that is no comment. -/
def IsFilled (building : Building) : Prop := building.site.nodes.all Node.isComment = false

variable {building : Building} {last : List Token}

theorem lines_addLeaf (kind : Kind) : (building.addLeaf kind).lines last = building.lines last := by
  obtain ⟨site, around, items⟩ := building
  cases items with
  | nil => rfl
  | cons item items =>
    have hrow : (addLeaf ⟨site, around, item :: items⟩ kind).row =
        (Building.mk site around (item :: items)).row ++ item.leaves kind := (List.append_assoc ..).symm
    have htokens : itemTokens (item :: items) = (item.comments ++ [item.token]) ++ itemTokens items := rfl
    rw [lines, lines, hrow, linesOf_append, linesOf_leaves, htokens]
    simp only [List.map_append, List.append_assoc]
    rfl

theorem isFilled_addLeaf {kind : Kind} (hitems : building.items ≠ [])
    (h : building.IsFilled ∨ kind ≠ .comment) : (building.addLeaf kind).IsFilled := by
  obtain ⟨site, around, items⟩ := building
  cases items with
  | nil => exact absurd rfl hitems
  | cons item items =>
    show (site.nodes ++ item.leaves kind).all Node.isComment = false
    rw [List.all_append]
    rcases h with hsite | hkind
    · rw [show site.nodes.all Node.isComment = false from hsite, Bool.false_and]
    · rw [all_isComment_leaves hkind, Bool.and_false]

theorem Rising.addLeaf (h : building.Rising last) (kind : Kind) : (building.addLeaf kind).Rising last := by
  rw [Rising, lines_addLeaf]
  exact h

/-- The last of the nodes may be put together, as long as their lines rise. -/
theorem Rising.exchange (h : building.Rising last) (other : Building) {before nodes nodes' : List Node}
    (hrow : building.row = before ++ nodes) (hrow' : other.row = before ++ nodes')
    (hitems : other.items = building.items)
    (hnodes : ∀ {front back}, (front ++ linesOf nodes ++ back).Pairwise (· ≤ ·) →
      (front ++ linesOf nodes' ++ back).Pairwise (· ≤ ·)) : other.Rising last := by
  rw [Rising, lines, hrow, linesOf_append] at h
  rw [Rising, lines, hrow', linesOf_append, hitems]
  exact hnodes h

/-- Where a place is finished, there is a node that is no comment in it if it becomes a node itself. -/
theorem Rising.finish {kind : Option Kind} {site : Site} {nodes : List Node} {around : List Site}
    {items : List Item} (h : (Building.mk ⟨kind, nodes⟩ (site :: around) items).Rising last)
    (hinside : kind ≠ none → nodes.all Node.isComment = false) :
    (Building.mk { site with nodes := site.nodes ++ (Site.mk kind nodes).result } around items).Rising last := by
  have hrow : (Building.mk ⟨kind, nodes⟩ (site :: around) items).row =
      (around.reverse.flatMap (·.nodes) ++ site.nodes) ++ nodes := by
    simp only [row, List.reverse_cons, List.flatMap_append, List.flatMap_singleton]
  refine h.exchange _ hrow (List.append_assoc ..).symm rfl fun hnodes => ?_
  cases kind with
  | none => exact hnodes
  | some kind => exact pairwise_enclose kind (hinside (Option.some_ne_none kind)) hnodes

end Building

/-! ## Steps -/

/-- The steps build so that lines rise, in a place that is filled if `before` asks for it. Afterwards the place is
filled if it was before, or if `after` says so. -/
structure Rises (before after : Bool) (seen : List View) (steps : List Step) : Prop where
  staysIn : StaysIn seen steps
  rising : ∀ (building : Building) (last : List Token), seen.length ≤ building.items.length →
    (before = true → building.IsFilled) → building.Rising last → (building.run steps).Rising last
  filled : ∀ building : Building, seen.length ≤ building.items.length →
    (before = true → building.IsFilled) → building.IsFilled ∨ after = true → (building.run steps).IsFilled

section

variable {before between after : Bool} {seen more : List View} {steps rest : List Step}

/-- More may be asked for, and what is asked for need not be said. -/
theorem Rises.imp (h : Rises before after seen steps) {before' after' : Bool}
    (hbefore : before = true → before' = true) (hafter : after' = true → after = true ∨ before' = true) :
    Rises before' after' seen steps where
  staysIn := h.staysIn
  rising _ _ hlength hplace hrising := h.rising _ _ hlength (fun hasked => hplace (hbefore hasked)) hrising
  filled _ hlength hplace hfilled := by
    refine h.filled _ hlength (fun hasked => hplace (hbefore hasked)) ?_
    rcases hfilled with hfilled | hasked
    · exact .inl hfilled
    · exact (hafter hasked).symm.imp_left hplace

theorem rises_nil : Rises before before [] [] where
  staysIn := staysIn_nil
  rising _ _ _ _ hrising := hrising
  filled _ _ hplace hfilled := hfilled.elim id hplace

theorem Rises.append (hfirst : Rises before between seen steps) (hsecond : Rises between after more rest) :
    Rises before after (seen ++ more) (steps ++ rest) := by
  -- the first steps leave as many items as the second ones take
  have hlengths : ∀ {building : Building}, (seen ++ more).length ≤ building.items.length →
      seen.length ≤ building.items.length ∧ more.length ≤ (building.run steps).items.length := by
    rintro ⟨site, around, items⟩ hlength
    obtain ⟨nodes, hrun, -⟩ := hfirst.staysIn.exists_run site items
    rw [hrun, List.length_drop]
    rw [List.length_append] at hlength
    dsimp only at hlength ⊢
    omega
  refine ⟨hfirst.staysIn.append hsecond.staysIn, fun _ _ hlength hplace hrising => ?_,
    fun _ hlength hplace hfilled => ?_⟩
  · obtain ⟨hseen, hmore⟩ := hlengths hlength
    rw [Building.run_append]
    exact hsecond.rising _ _ hmore (fun hasked => hfirst.filled _ hseen hplace (.inr hasked))
      (hfirst.rising _ _ hseen hplace hrising)
  · obtain ⟨hseen, hmore⟩ := hlengths hlength
    rw [Building.run_append]
    refine hsecond.filled _ hmore (fun hasked => hfirst.filled _ hseen hplace (.inr hasked)) ?_
    exact hfilled.imp_left fun hfilled => hfirst.filled _ hseen hplace (.inl hfilled)

theorem rises_addLeaf {step : Step} {kind : Kind}
    (hstep : ∀ building : Building, building.step step = building.addLeaf kind) (view : View) :
    Rises before (before || kind != .comment) [view] [step] where
  staysIn := staysIn_addLeaf hstep view
  rising building _ _ _ hrising := by
    show (building.step step).Rising _
    rw [hstep]
    exact hrising.addLeaf kind
  filled building hlength hplace hfilled := by
    show (building.step step).IsFilled
    rw [hstep]
    refine Building.isFilled_addLeaf (List.ne_nil_of_length_pos hlength) ?_
    rw [Bool.or_eq_true, bne_iff_ne] at hfilled
    rcases hfilled with hfilled | hasked | hkind
    · exact .inl hfilled
    · exact .inl (hplace hasked)
    · exact .inr hkind

theorem rises_mark {step : Step} (hstep : ∀ building : Building, building.step step = building.addLeaf .mark)
    (view : View) : Rises before true [view] [step] :=
  (rises_addLeaf hstep view).imp id fun _ => .inl (Bool.or_true before)

/-- Behind a separator there is something in the place, whatever comes in front of it. -/
theorem Rises.separated (hfirst : Rises before between seen steps) {step : Step}
    (hstep : ∀ building : Building, building.step step = building.addLeaf .mark) (view : View) {asked left : Bool}
    (hsecond : Rises asked left more rest) :
    Rises before true (seen ++ [view] ++ more) (steps ++ [step] ++ rest) :=
  (hfirst.append (rises_mark hstep view)).append (hsecond.imp (fun _ => rfl) fun _ => .inr rfl)

theorem Rises.enclosed (h : Rises false after seen steps) {kind : Option Kind}
    (hkind : kind ≠ none → after = true) :
    Rises before (before || after && kind != some .comment) seen (.begin kind :: (steps ++ [.finish])) := by
  -- inside nothing is asked for, since the place begins empty
  have hinside : ∀ {items : List Item}, seen.length ≤ items.length → ∀ site around nodes,
      (Building.mk ⟨kind, []⟩ (site :: around) items).run steps =
        ⟨⟨kind, nodes⟩, site :: around, items.drop seen.length⟩ →
      after = true → nodes.all Node.isComment = false := by
    intro items hlength site around nodes hrun hafter
    have hfilled := h.filled ⟨⟨kind, []⟩, site :: around, items⟩ hlength nofun (.inr hafter)
    rwa [hrun] at hfilled
  refine ⟨h.staysIn.enclosed kind, ?_, ?_⟩
  · rintro ⟨site, around, items⟩ last hlength - hrising
    obtain ⟨nodes, hrun, -⟩ := h.staysIn.exists_run ⟨kind, []⟩ items
    -- where a place begins and ends nothing moves but for the node that is put around it
    have hbegun : (Building.mk ⟨kind, []⟩ (site :: around) items).Rising last :=
      hrising.exchange _ (List.append_nil _).symm (by simp [Building.row]) rfl id
    have hdone := h.rising ⟨⟨kind, []⟩, site :: around, items⟩ last hlength nofun hbegun
    rw [Building.run_enclosed]
    rw [hrun] at hdone ⊢
    exact hdone.finish fun hsome => hinside hlength site around nodes (hrun _) (hkind hsome)
  · rintro ⟨site, around, items⟩ hlength hplace hfilled
    obtain ⟨nodes, hrun, -⟩ := h.staysIn.exists_run ⟨kind, []⟩ items
    rw [Building.run_enclosed, hrun]
    show (site.nodes ++ (Site.mk kind nodes).result).all Node.isComment = false
    rw [List.all_append, Bool.and_eq_false_iff]
    rw [Bool.or_eq_true, Bool.and_eq_true, bne_iff_ne] at hfilled
    rcases hfilled with hfilled | hasked | ⟨hafter, hcomment⟩
    · exact .inl hfilled
    · exact .inl (hplace hasked)
    · have hnodes := hinside hlength site around nodes (hrun _) hafter
      cases kind with
      | none => exact .inr hnodes
      | some kind => exact .inr (all_isComment_enclose (fun heq => hcomment (congrArg some heq)) nodes)

theorem rises_fold {kind : Kind} (hkind : kind ≠ .comment) : Rises true true [] [.fold kind] where
  staysIn := staysIn_fold hkind
  rising building _ _ hplace hrising :=
    hrising.exchange (building.step (.fold kind)) rfl rfl rfl (pairwise_enclose kind (hplace rfl))
  filled building _ _ _ := all_isComment_enclose hkind building.site.nodes

theorem rises_role (role : Role) : Rises before before [] [.role role] where
  staysIn := staysIn_role role
  rising building _ _ _ hrising := by
    refine hrising.exchange (building.step (.role role)) rfl rfl rfl fun h => ?_
    show (_ ++ linesOf (withFirstRole role building.site.nodes) ++ _).Pairwise (· ≤ ·)
    rwa [linesOf_withFirstRole]
  filled building _ hplace hfilled := by
    have hsite := hfilled.elim id hplace
    obtain ⟨comments, first, rest, hnodes, hcomments, hfirst⟩ := exists_first_of_all_isComment hsite
    show (withFirstRole role building.site.nodes).all Node.isComment = false
    rw [hnodes, withFirstRole_eq hcomments hfirst, List.all_append, List.all_cons, Node.isComment_withRole, hfirst,
      Bool.false_and, Bool.and_false]

end

/-! ## Rules -/

/-- Is there something in a place that is no comment, where a rule has been read in it? `before` says whether there
was something before. There is no answer if a node might be built around nothing. -/
def Rule.fills : Rule → Bool → Option Bool
  | .nothing, before | .role _, before => some before
  | .failure, _ | .call _, _ => some true
  | .take _ kind, before => some (before || kind != .comment)
  | .group kind _ inside _, before =>
    (inside.fills true).map fun _ => before || some kind != some .comment
  | .items _ item _, before | .members item, before | .many _ item, before =>
    (item.fills before).map fun _ => before
  | .listed item, before => (item.fills before).bind fun after => (item.fills true).map fun _ => after
  | .both first second, before => (first.fills before).bind second.fills
  | .choose _ first second, before | .either first second, before =>
    (first.fills before).bind fun after => (second.fills before).map (after && ·)
  | .node kind rule, before => (rule.fills false).bind fun after =>
    if kind = none ∨ after = true then some (before || after && kind != some .comment) else none
  | .fold kind, before => if before = true ∧ kind ≠ .comment then some true else none

/-- No symbol builds a node around nothing, and each one builds something, whatever is there before. -/
theorem fills_grammar (markup : Bool) (symbol : Symbol) : (grammar markup symbol).fills false = some true := by
  cases symbol <;> cases markup <;> decide +kernel

theorem Derives.rises {grammar : Grammar} (hgrammar : ∀ symbol, (grammar symbol).fills false = some true)
    {rule : Rule} {seen : List View} {steps : List Step} (h : Derives grammar rule seen steps)
    {before after : Bool} (hrule : rule.fills before = some after) : Rises before after seen steps := by
  induction h generalizing before after with
  | nothing =>
    obtain rfl := Option.some.inj hrule
    exact rises_nil
  | take kind hlook hplain =>
    obtain rfl := Option.some.inj hrule
    exact rises_addLeaf (fun _ => rfl) _
  | @group kind _ _ _ first last seen steps hfirst hinside hlast ih =>
    obtain ⟨filled, hfilled, rfl⟩ := Option.map_eq_some_iff.1 hrule
    have hbound : ∀ {before view}, Rises before true [view] [.bound kind] := rises_mark (fun _ => rfl) _
    have hbounds : Rises false true (first :: (seen ++ [last])) (.bound kind :: (steps ++ [.bound kind])) :=
      hbound.append ((ih hfilled).append hbound)
    exact (hbounds.enclosed fun _ => rfl).imp id .inl
  | itemsEnd | membersEnd | manyEnd =>
    obtain ⟨_, -, rfl⟩ := Option.map_eq_some_iff.1 hrule
    exact rises_nil
  | itemsLast hitem ih =>
    -- there may be no item, so nothing is said but what was so before
    obtain ⟨filled, hfilled, rfl⟩ := Option.map_eq_some_iff.1 hrule
    exact (ih hfilled).imp id .inr
  | itemsMore hitem hcomma hmore ih₁ ih₂ =>
    have hrest := ih₂ hrule
    obtain ⟨filled, hfilled, rfl⟩ := Option.map_eq_some_iff.1 hrule
    exact ((ih₁ hfilled).separated (fun _ => rfl) _ hrest).imp id .inr
  | listedLast hitem ih =>
    obtain ⟨filled, hfilled, hagain⟩ := Option.bind_eq_some_iff.1 hrule
    obtain ⟨_, -, rfl⟩ := Option.map_eq_some_iff.1 hagain
    exact ih hfilled
  | listedMore hitem hmore ih₁ ih₂ =>
    obtain ⟨filled, hfilled, hagain⟩ := Option.bind_eq_some_iff.1 hrule
    obtain ⟨again, hrepeated, rfl⟩ := Option.map_eq_some_iff.1 hagain
    have hlisted : Rule.fills (.listed _) true = some again :=
      Option.bind_eq_some_iff.2 ⟨again, hrepeated, Option.map_eq_some_iff.2 ⟨again, hrepeated, rfl⟩⟩
    exact ((ih₁ hfilled).separated (fun _ => rfl) _ (ih₂ hlisted)).imp id fun _ => .inl rfl
  | membersMore hitem hmore ih₁ ih₂ | manyMore hitem hmore ih₁ ih₂ =>
    have hrest := ih₂ hrule
    obtain ⟨filled, hfilled, rfl⟩ := Option.map_eq_some_iff.1 hrule
    exact ((ih₁ hfilled).imp id .inr).append hrest
  | membersMark hitem hmore ih₁ ih₂ =>
    have hrest := ih₂ hrule
    obtain ⟨filled, hfilled, rfl⟩ := Option.map_eq_some_iff.1 hrule
    exact ((ih₁ hfilled).separated (fun _ => rfl) _ hrest).imp id .inr
  | both hfirst hsecond ih₁ ih₂ =>
    obtain ⟨between, hbetween, hafter⟩ := Option.bind_eq_some_iff.1 hrule
    exact (ih₁ hbetween).append (ih₂ hafter)
  | chooseYes _ ih | eitherFirst _ ih =>
    obtain ⟨filled, hfilled, hother⟩ := Option.bind_eq_some_iff.1 hrule
    obtain ⟨_, -, rfl⟩ := Option.map_eq_some_iff.1 hother
    exact (ih hfilled).imp id fun h => .inl (Bool.and_eq_true_iff.1 h).1
  | chooseNo _ ih | eitherSecond _ ih =>
    obtain ⟨filled, -, hother⟩ := Option.bind_eq_some_iff.1 hrule
    obtain ⟨other, hfilled, rfl⟩ := Option.map_eq_some_iff.1 hother
    exact (ih hfilled).imp id fun h => .inl (Bool.and_eq_true_iff.1 h).2
  | node kind hrule' ih =>
    obtain ⟨filled, hfilled, hnode⟩ := Option.bind_eq_some_iff.1 hrule
    split at hnode
    · next hkind =>
      obtain rfl := Option.some.inj hnode
      exact (ih hfilled).enclosed fun hsome => hkind.resolve_left hsome
    · cases hnode
  | fold kind =>
    rw [Rule.fills] at hrule
    split at hrule
    · next hfold =>
      obtain ⟨rfl, hkind⟩ := hfold
      obtain rfl := Option.some.inj hrule
      exact rises_fold hkind
    · cases hrule
  | role role =>
    obtain rfl := Option.some.inj hrule
    exact rises_role role
  | call _ ih =>
    obtain rfl := Option.some.inj hrule
    exact (ih (hgrammar _)).imp nofun fun _ => .inl rfl

/-! ## Texts -/

/-- The nodes of a program have their lines in the order of its tokens. -/
theorem pairwise_linesOf_programNodes? {markup : Bool} {tokens : List Token} {nodes : List Node}
    (htokens : (tokens.map Token.line).Pairwise (· ≤ ·)) (h : programNodes? markup tokens = some nodes) :
    (linesOf nodes).Pairwise (· ≤ ·) := by
  have hitems : itemTokens (items tokens).1 ++ (items tokens).2 = tokens := itemTokens_itemsFrom [] tokens
  rw [programNodes?] at h
  cases hsplit : items tokens with | mk row last => ?_
  rw [hsplit] at h hitems
  dsimp only at h hitems
  obtain ⟨steps, hsteps, rfl⟩ := Option.map_eq_some_iff.1 h
  have hrises : Rises false false (views row) steps :=
    (derives_of_program? hsteps).rises (fills_grammar markup) rfl
  have hlength : (views row).length = row.length := length_viewsFrom false row
  have hstart : (Building.mk ⟨none, []⟩ [] row).Rising last := by
    show (((itemTokens row ++ last).map Token.line)).Pairwise (· ≤ ·)
    rw [hitems]
    exact htokens
  have hdone := hrises.rising _ last hlength.le (fun hasked => absurd hasked Bool.false_ne_true) hstart
  -- in the end no place is open, and no token is left
  obtain ⟨built, hrun, -⟩ := hrises.staysIn.exists_run ⟨none, []⟩ row
  rw [hrun, hlength, List.drop_length] at hdone
  have hbuild : build steps row = built := by rw [build, hrun]
  rw [hbuild, linesOf_append, linesOf_map_tokens (linesOf_leaf .comment)]
  exact hdone

theorem pairwise_line_placeFrom (lexemes : List Lexeme) (offset line : Nat) (broken : Bool) :
    ((placeFrom offset line broken lexemes).map Token.line).Pairwise (· ≤ ·) ∧
      ∀ token ∈ placeFrom offset line broken lexemes, line ≤ token.line := by
  induction lexemes generalizing offset line broken with
  | nil => exact ⟨.nil, List.forall_mem_nil _⟩
  | cons lexeme rest ih =>
    obtain ⟨hrest, hlines⟩ := ih (offset + lexeme.blanks.length + lexeme.text.length)
      (line + lexeme.blanks.count '\n' + lexeme.text.count '\n')
      (lexeme.sort == .comment && ((broken || lexeme.blanks.any isLineBreak) || lexeme.text.any isLineBreak))
    rw [placeFrom, List.map_cons, List.pairwise_cons, List.forall_mem_cons]
    refine ⟨⟨List.forall_mem_map.2 fun token htoken => ?_, hrest⟩, Nat.le_add_right _ _, fun token htoken => ?_⟩
    · exact (Nat.le_add_right ..).trans (hlines token htoken)
    · exact ((Nat.le_add_right ..).trans (Nat.le_add_right ..)).trans (hlines token htoken)

theorem map_line_passOverClosing (depth : Nat) (tokens : List Token) :
    (passOverClosing depth tokens).map Token.line = tokens.map Token.line := by
  fun_induction passOverClosing depth tokens with
  | case1 => rfl
  | case2 depth token rest hopens ih | case4 token rest hopens hcloses depth ih
  | case5 depth token rest hopens hcloses ih => rw [List.map_cons, ih, List.map_cons]
  | case3 => rfl

/-- Where braces are passed over, all tokens stay on their lines. -/
theorem map_line_of_mem_withoutBraces {tokens others : List Token} {behindComma : Bool}
    (h : others ∈ withoutBraces behindComma tokens) : others.map Token.line = tokens.map Token.line := by
  induction tokens generalizing behindComma others with
  | nil => cases h
  | cons token rest ih =>
    have hlater : others ∈ (withoutBraces (if token.isComment then behindComma else token.is ",") rest).map
        (token :: ·) → others.map Token.line = (token :: rest).map Token.line := by
      intro hmem
      obtain ⟨more, hmore, rfl⟩ := List.mem_map.1 hmem
      rw [List.map_cons, ih hmore, List.map_cons]
    rw [withoutBraces] at h
    split at h
    · rcases List.mem_cons.1 h with rfl | hmem
      · rw [List.map_cons, map_line_passOverClosing, List.map_cons]
        rfl
      · exact hlater hmem
    · exact hlater h

theorem linesOf_looseLeaf (token : Token) : linesOf [looseLeaf token] = [token.line] := by
  unfold looseLeaf
  split
  · split <;> exact linesOf_leaf _ token
  all_goals exact linesOf_leaf _ token

/-- The walk through the tree of a text never goes back to an earlier line. -/
theorem pairwise_line_walk (text extension : Text) :
    ((SyntaxTree.ofText text extension).root.walk.map Node.line).Pairwise (· ≤ ·) := by
  have htokens : ∀ markup, ((SyntaxTree.tokens markup text).map Token.line).Pairwise (· ≤ ·) := fun markup =>
    (pairwise_line_placeFrom (lexemes markup text) 0 1 false).1
  have hroot : ∀ nodes : List Node, (linesOf nodes).Pairwise (· ≤ ·) →
      ((Node.branch .program nodes).walk.map Node.line).Pairwise (· ≤ ·) := by
    intro nodes hnodes
    have hwalk : (Node.branch .program nodes).walk.map Node.line = linesOf [.branch .program nodes] := by
      rw [Node.walk_eq_preorder, linesOf, Node.preorderAll, Node.preorderAll, List.append_nil]
    rw [hwalk]
    cases nodes with
    | nil => exact List.pairwise_singleton _ _
    | cons first rest =>
      have hbranch := @pairwise_branch [] [] .program first rest
      rw [List.nil_append, List.append_nil, List.nil_append, List.append_nil] at hbranch
      exact hbranch hnodes
  rw [SyntaxTree.ofText, SyntaxTree.ofTokens]
  split
  · next nodes hnodes => exact hroot nodes (pairwise_linesOf_programNodes? (htokens _) hnodes)
  · refine hroot _ ?_
    rw [repaired]
    cases hfound : (withoutBraces false _).findSome? (programNodes? _) with
    | none =>
      show (linesOf ((SyntaxTree.tokens _ text).map looseLeaf)).Pairwise (· ≤ ·)
      rw [linesOf_map_tokens linesOf_looseLeaf]
      exact htokens _
    | some nodes =>
      obtain ⟨others, hothers, hnodes⟩ := List.exists_of_findSome?_eq_some hfound
      refine pairwise_linesOf_programNodes? ?_ hnodes
      rw [map_line_of_mem_withoutBraces hothers]
      exact htokens _

end VerticalSlice.Syntax
