import VerticalSlice.Proofs.Syntax.Arrays

/-!
# Where the array in focus came from

If a state that has been built has an array in focus, then either the array was there before, or it is one that the
steps have finished; and then there is a spot in front of each object in it and in front of its end (`Traced`). So
there are such spots in each array in the tree of a program (`exists_spot_of_program?`).
-/

namespace VerticalSlice.Syntax

/-! ## Rows in focus -/

theorem children_of_mem_leaves {item : Item} {kind : Kind} {node : Node} (h : node ∈ item.leaves kind) :
    node.children = [] := by
  rw [Item.leaves, List.mem_append, List.mem_map, List.mem_singleton] at h
  rcases h with ⟨token, -, rfl⟩ | rfl <;> rfl

namespace Focused

variable {rows : List Node → List Node} {inner : List Node}

theorem ne_nil (h : Focused rows) (inner : List Node) : rows inner ≠ [] := by
  obtain ⟨before, label, seen, behind, -, rfl, -⟩ := h.exists_node
  exact List.append_ne_nil_of_right_ne_nil before (List.cons_ne_nil _ _)

/-- The node in or around which the array is can have one in it and has children. -/
theorem exists_mem (h : Focused rows) (hinner : inner ≠ []) :
    ∃ node ∈ rows inner, node.isComment = false ∧ node.children ≠ [] := by
  cases h with
  | here before hkind behind =>
    refine ⟨_, List.mem_append_right before (List.mem_cons_self ..), isComment_mk ?_ inner, hinner⟩
    rw [hkind]
    decide
  | within before hkind hrows behind =>
    exact ⟨_, List.mem_append_right before (List.mem_cons_self ..),
      isComment_mk (Kind.ne_comment_of_encloses hkind) _, hrows.ne_nil inner⟩

theorem false_of_leaves (h : Focused rows) (hinner : inner ≠ [])
    (hleaves : ∀ node ∈ rows inner, node.children = []) : False := by
  obtain ⟨node, hnode, -, hchildren⟩ := h.exists_mem hinner
  exact hchildren (hleaves node hnode)

theorem false_of_comments (h : Focused rows) (hinner : inner ≠ [])
    (hcomments : (rows inner).all Node.isComment = true) : False := by
  obtain ⟨node, hnode, hcomment, -⟩ := h.exists_mem hinner
  exact Bool.false_ne_true (hcomment.symm.trans (List.all_eq_true.1 hcomments node hnode))

/-- The array is in the first part of the row or in the second. -/
theorem of_append (h : Focused rows) {first second : List Node} (heq : rows inner = first ++ second) :
    (∃ part, Focused part ∧ part inner = first ∧ ∀ seen, part seen ++ second = rows seen) ∨
      ∃ part, Focused part ∧ part inner = second ∧ ∀ seen, first ++ part seen = rows seen := by
  obtain ⟨before, label, seen, behind, -, rfl, hall⟩ := h.exists_node
  rcases append_eq_append_cons heq.symm with ⟨rest, rfl, rfl⟩ | ⟨rest, rfl, rfl⟩
  · exact .inl ⟨_, hall before rest label.role, rfl, fun _ => List.append_assoc ..⟩
  · exact .inr ⟨_, hall rest behind label.role, rfl, fun _ => (List.append_assoc ..).symm⟩

/-- Whatever is in the array, the first node of the row has the same label. -/
theorem exists_cons (h : Focused rows) : ∃ label, ∀ seen, ∃ first rest, rows seen = first :: rest ∧
    first.label = label := by
  obtain ⟨before, label, inner, behind, -, rfl, -⟩ := h.exists_node
  cases before with
  | nil => exact ⟨label, fun seen => ⟨_, behind, rfl, rfl⟩⟩
  | cons first before => exact ⟨first.label, fun seen => ⟨first, _, rfl, rfl⟩⟩

/-- The array was in a place that has become a node, or it is that node. -/
theorem of_enclose (h : Focused rows) (hinner : inner ≠ []) {kind : Kind} {nodes : List Node}
    (heq : rows inner = Syntax.enclose kind nodes) :
    (kind.encloses = true ∧ ∃ part, Focused part ∧ part inner = nodes ∧
        ∀ seen, Syntax.enclose kind (part seen) = rows seen) ∨
      kind = .array ∧ ∃ comments first rest, nodes = comments ++ inner ∧
        comments.all Node.isComment = true ∧ inner = first :: rest ∧ first.isComment = false ∧
        ∀ seen, rows seen = comments ++ [.mk (enclosing kind first.label) seen] := by
  cases hnodes : nodes.all Node.isComment with
  | true =>
    -- there is nothing in the node
    rw [Syntax.enclose, takeWhile_of_all hnodes, dropWhile_of_all hnodes] at heq
    rcases h.of_append heq with ⟨part, hpart, rfl, -⟩ | ⟨part, hpart, hsingle, -⟩
    · exact (hpart.false_of_comments hinner hnodes).elim
    · refine (hpart.false_of_leaves hinner fun node hnode => ?_).elim
      rw [hsingle, List.mem_singleton] at hnode
      rw [hnode]
      rfl
  | false =>
    obtain ⟨comments, first, rest, rfl, hcomments, hfirst⟩ := exists_first_of_all_isComment hnodes
    rw [enclose_eq hcomments hfirst] at heq
    rcases h.of_append heq with ⟨part, hpart, rfl, -⟩ | ⟨part, hpart, hsingle, hrows⟩
    · exact (hpart.false_of_comments hinner hcomments).elim
    · cases hpart with
      | @here before label hkind behind =>
        obtain ⟨rfl, hsingle⟩ | ⟨rest, -, hrest⟩ := List.append_eq_cons_iff.1 hsingle
        · obtain ⟨hnode, rfl⟩ := List.cons.inj hsingle
          injection hnode with hlabel hchildren
          subst hlabel hchildren
          exact .inr ⟨hkind, comments, first, rest, rfl, hcomments, rfl, hfirst, fun seen =>
            (hrows seen).symm⟩
        · simp at hrest
      | @within part before label hkind hpart behind =>
        obtain ⟨rfl, hsingle⟩ | ⟨rest, -, hrest⟩ := List.append_eq_cons_iff.1 hsingle
        · obtain ⟨hnode, rfl⟩ := List.cons.inj hsingle
          injection hnode with hlabel hchildren
          subst hlabel
          refine .inl ⟨hkind, fun seen => comments ++ part seen, hpart.prepend comments,
            congrArg (comments ++ ·) hchildren,
            fun seen => ?_⟩
          obtain ⟨same, hsame⟩ := hpart.exists_cons
          obtain ⟨first', rest', hpart', hfirst'⟩ := hsame seen
          obtain ⟨first'', rest'', hpart'', rfl⟩ := hsame inner
          obtain ⟨rfl, -⟩ := List.cons.inj (hpart''.symm.trans hchildren)
          have hplain : first'.isComment = false := by
            rw [Node.isComment, Node.kind, hfirst']
            exact hfirst
          rw [← hrows]
          dsimp only
          rw [hpart', enclose_eq hcomments hplain, hfirst']
          rfl
        · simp at hrest

/-- The array was in the place before its first node got a role. -/
theorem of_withFirstRole (h : Focused rows) (hinner : inner ≠ []) {role : Role} {nodes : List Node}
    (heq : rows inner = Syntax.withFirstRole role nodes) :
    ∃ part, Focused part ∧ part inner = nodes ∧ ∀ seen, Syntax.withFirstRole role (part seen) = rows seen := by
  cases hnodes : nodes.all Node.isComment with
  | true =>
    rw [Syntax.withFirstRole, takeWhile_of_all hnodes, dropWhile_of_all hnodes, List.append_nil] at heq
    rw [← heq] at hnodes
    exact (h.false_of_comments hinner hnodes).elim
  | false =>
    obtain ⟨comments, first, rest, rfl, hcomments, hfirst⟩ := exists_first_of_all_isComment hnodes
    rw [withFirstRole_eq hcomments hfirst] at heq
    rcases h.of_append heq with ⟨part, hpart, rfl, -⟩ | ⟨part, hpart, hrest, hrows⟩
    · exact (hpart.false_of_comments hinner hcomments).elim
    · have hcons : part inner = [first.withRole role] ++ rest := hrest
      rcases hpart.of_append hcons with
        ⟨one, hone, hsingle, hpart'⟩ | ⟨others, hothers, rfl, hpart'⟩
      · obtain ⟨before, label, seen, behind, -, rfl, hall⟩ := hone.exists_node
        obtain ⟨rfl, hnodes⟩ | ⟨rest', -, hrest'⟩ := List.append_eq_cons_iff.1 hsingle
        · obtain ⟨hnode, rfl⟩ := List.cons.inj hnodes
          obtain ⟨label', children⟩ := first
          injection hnode with hlabel hchildren
          subst hlabel hchildren
          refine ⟨_, (hall [] rest label'.role).prepend comments, rfl, fun inner' => ?_⟩
          rw [← hrows, ← hpart']
          have hplain : (Node.mk label' (seen inner')).isComment = false := hfirst
          exact withFirstRole_eq hcomments hplain role rest
        · simp at hrest'
      · refine ⟨fun seen => comments ++ first :: others seen,
          (hothers.prepend [first]).prepend comments, rfl, fun seen => ?_⟩
        rw [withFirstRole_eq hcomments hfirst, ← hrows, ← hpart']
        rfl

end Focused

/-! ## States in focus -/

/-- The array in focus was there before the steps, which do the same whatever is in it. -/
def ComesFrom (building : Building) (steps : List Step) (states : List Node → Building)
    (inner : List Node) : Prop :=
  ∃ before, FocusedIn before ∧ before inner = building ∧ ∀ seen, (before seen).run steps = states seen

variable {states : List Node → Building} {inner : List Node} {building : Building}

theorem ComesFrom.append {steps rest : List Step} {between : List Node → Building}
    (h : ComesFrom building steps between inner)
    (hrest : ∀ seen, (between seen).run rest = states seen) :
    ComesFrom building (steps ++ rest) states inner := by
  obtain ⟨before, hbefore, hinner, hsteps⟩ := h
  exact ⟨before, hbefore, hinner, fun seen => by rw [Building.run_append, hsteps, hrest]⟩

namespace FocusedIn

theorem comesFrom_addLeaf (h : FocusedIn states) (hinner : inner ≠ []) {step : Step} {kind : Kind}
    (hstep : ∀ building : Building, building.step step = building.addLeaf kind)
    (hitems : building.items ≠ []) (heq : states inner = building.step step) :
    ComesFrom building [step] states inner := by
  obtain ⟨⟨kind', nodes⟩, arounds, items⟩ := building
  obtain ⟨item, rest, rfl⟩ := List.exists_cons_of_ne_nil hitems
  rw [hstep] at heq
  cases h with
  | @inner rows _ around hkind hrows haround =>
    injection heq with hsite haround' hrest
    injection hsite with hkind' hnodes
    rcases hrows.of_append hnodes with ⟨part, hpart, hsame, hrows'⟩ | ⟨part, hpart, hsame, -⟩
    · refine ⟨_, .inner hkind hpart haround (item :: rest), ?_, fun seen => ?_⟩
      · rw [hsame, hkind', haround']
        rfl
      · refine (hstep _).trans ?_
        dsimp only
        rw [← hrows', hrest]
        rfl
    · refine (hpart.false_of_leaves hinner fun node hnode => ?_).elim
      rw [hsame] at hnode
      exact children_of_mem_leaves hnode
  | outer site opened hkind hrows haround =>
    injection heq with hsite haround' hrest
    refine ⟨_, .outer ⟨kind', nodes⟩ opened hkind hrows haround (item :: rest), ?_, fun seen => ?_⟩
    · rw [haround']
      rfl
    · refine (hstep _).trans ?_
      rw [hsite, hrest]
      rfl

theorem comesFrom_begin (h : FocusedIn states) {kind : Option Kind}
    (heq : states inner = building.step (.begin kind)) :
    ComesFrom building [.begin kind] states inner := by
  obtain ⟨site, arounds, rest⟩ := building
  cases h with
  | inner hkind hrows haround items =>
    injection heq with hsite
    injection hsite with hkind' hnodes
    exact absurd hnodes (hrows.ne_nil inner)
  | outer site' opened hkind hrows haround items =>
    injection heq with hsite haround' hitems
    subst hsite hitems
    cases opened with
    | nil =>
      injection haround' with hsite haround'
      subst hsite haround'
      exact ⟨_, .inner hkind hrows haround items, rfl, fun seen => rfl⟩
    | cons top opened =>
      injection haround' with hsite haround'
      subst hsite haround'
      exact ⟨_, .outer top opened hkind hrows haround items, rfl, fun seen => rfl⟩

/-- An array in focus behind the end of a place was there before, or it is what the place has become. -/
theorem comesFrom_finish (h : FocusedIn states) (hinner : inner ≠ []) {outer : Site} {around : List Site}
    (haround : building.around = outer :: around) (heq : states inner = building.step .finish) :
    ComesFrom building [.finish] states inner ∨
      building.site.kind = some .array ∧ ∃ comments first rest, building.site.nodes = comments ++ inner ∧
        comments.all Node.isComment = true ∧ inner = first :: rest ∧ first.isComment = false ∧
        ∀ seen, states seen = ⟨{ outer with
          nodes := outer.nodes ++ (comments ++ [.mk (enclosing .array first.label) seen]) }, around,
          building.items⟩ := by
  obtain ⟨⟨kind, nodes⟩, arounds, rest⟩ := building
  obtain rfl : arounds = outer :: around := haround
  cases h with
  | @inner rows kind' around' hkind hrows haround' items =>
    injection heq with hsite haround'' hitems
    injection hsite with hkind' hnodes
    subst hkind' haround'' hitems
    rcases hrows.of_append hnodes with ⟨part, hpart, hsame, hrows'⟩ | ⟨part, hpart, hsame, hrows'⟩
    · refine .inl ⟨_, .outer ⟨kind, nodes⟩ [] hkind hpart haround' items, ?_, fun seen => ?_⟩
      · rw [hsame]
        rfl
      · dsimp only
        rw [← hrows']
        rfl
    · cases kind with
      | none =>
        refine .inl ⟨_, @FocusedIn.inner part none _ nofun hpart
          (List.forall_mem_cons.2 ⟨hkind, haround'⟩) items, ?_, fun seen => ?_⟩
        · rw [hsame]
          rfl
        · dsimp only
          rw [← hrows']
          rfl
      | some kind =>
        rcases hpart.of_enclose hinner hsame with ⟨hencloses, place, hplace, rfl, hpart'⟩ |
          ⟨rfl, comments, first, rest, rfl, hcomments, hfirst, hplain, hpart'⟩
        · refine .inl ⟨_, @FocusedIn.inner place (some kind) _ (fun _ h => Option.some.inj h ▸ hencloses)
            hplace (List.forall_mem_cons.2 ⟨hkind, haround'⟩) items, rfl, fun seen => ?_⟩
          dsimp only
          rw [← hrows', ← hpart']
          rfl
        · refine .inr ⟨rfl, comments, first, rest, rfl, hcomments, hfirst, hplain, fun seen => ?_⟩
          dsimp only
          rw [← hrows', hpart']
  | outer site opened hkind hrows haround' items =>
    injection heq with hsite haround'' hitems
    subst hsite haround'' hitems
    exact .inl ⟨_, .outer ⟨kind, nodes⟩ (outer :: opened) hkind hrows haround' items, rfl, fun seen => rfl⟩

/-- In a place that is changed as a whole the array was before. -/
theorem comesFrom_setNodes (h : FocusedIn states) {step : Step} {change : List Node → List Node}
    (hstep : ∀ building : Building, building.step step = building.setNodes (change building.site.nodes))
    (hchange : ∀ {rows : List Node → List Node} {nodes : List Node}, Focused rows →
      rows inner = change nodes →
      ∃ part, Focused part ∧ part inner = nodes ∧ ∀ seen, change (part seen) = rows seen)
    (heq : states inner = building.step step) : ComesFrom building [step] states inner := by
  obtain ⟨⟨kind, nodes⟩, arounds, rest⟩ := building
  rw [hstep] at heq
  cases h with
  | @inner rows _ around hkind hrows haround items =>
    injection heq with hsite haround' hitems
    injection hsite with hkind' hnodes
    obtain ⟨part, hpart, hsame, hpart'⟩ := hchange hrows hnodes
    refine ⟨_, .inner hkind hpart haround items, ?_, fun seen => ?_⟩
    · rw [hsame, hkind', haround', hitems]
    · refine (hstep _).trans ?_
      dsimp only
      rw [← hpart']
      rfl
  | outer site opened hkind hrows haround items =>
    injection heq with hsite haround' hitems
    refine ⟨_, .outer ⟨kind, nodes⟩ opened hkind hrows haround items, ?_, fun seen => ?_⟩
    · rw [haround', hitems]
    · refine (hstep _).trans ?_
      rw [hsite]
      rfl

end FocusedIn

/-! ## Steps -/

variable {grammar : Grammar} {rule : Rule} {seen : List View} {steps : List Step}

/-- An array in focus was there before the steps, or there is a spot among them in front of each object in it and in
front of its end. -/
structure Traced (seen : List View) (steps : List Step) : Prop where
  stays : StaysIn seen steps
  taken_eq : taken steps = seen.length
  origin : ∀ (building : Building), seen.length ≤ building.items.length →
    ∀ {states : List Node → Building}, FocusedIn states →
      ∀ {front behind : List Node} {mark : Char} {node : Node}, Ahead mark node behind →
        states (front ++ node :: behind) = building.run steps →
        ComesFrom building steps states (front ++ node :: behind) ∨
          ∃ spot : Spot, spot.IsIn building seen steps mark node.offset fun seeds =>
            states (front ++ (seeds ++ node :: behind))

theorem append_cons_ne_nil (front behind : List Node) (node : Node) : front ++ node :: behind ≠ [] :=
  List.append_ne_nil_of_right_ne_nil front (List.cons_ne_nil _ _)

namespace Traced

theorem nil : Traced [] [] where
  stays := staysIn_nil
  taken_eq := rfl
  origin _ _ _ hstates _ _ _ _ _ heq := .inl ⟨_, hstates, heq, fun _ => rfl⟩

theorem addLeaf {step : Step} {kind : Kind}
    (hstep : ∀ building : Building, building.step step = building.addLeaf kind) (htakes : step.takes = true)
    (view : View) : Traced [view] [step] where
  stays := staysIn_addLeaf hstep view
  taken_eq := by rw [taken_cons, htakes]; rfl
  origin _ hlength _ hstates front behind _ node _ heq :=
    .inl (hstates.comesFrom_addLeaf (append_cons_ne_nil front behind node) hstep
      (List.length_pos_iff.1 hlength) heq)

/-- A step that changes the nodes of the place as a whole. -/
theorem inPlace {step : Step} {change : List Node → List Node} (hstays : StaysIn [] [step])
    (htaken : taken [step] = 0)
    (hstep : ∀ building : Building, building.step step = building.setNodes (change building.site.nodes))
    (hchange : ∀ {rows : List Node → List Node} {inner nodes : List Node}, Focused rows → inner ≠ [] →
      rows inner = change nodes →
      ∃ part, Focused part ∧ part inner = nodes ∧ ∀ seen, change (part seen) = rows seen) :
    Traced [] [step] where
  stays := hstays
  taken_eq := htaken
  origin _ _ _ hstates front behind _ node _ heq :=
    .inl (hstates.comesFrom_setNodes hstep (fun hrows => hchange hrows
      (append_cons_ne_nil front behind node)) heq)

theorem append {more : List View} {rest : List Step} (hfirst : Traced seen steps)
    (hsecond : Traced more rest) : Traced (seen ++ more) (steps ++ rest) where
  stays := hfirst.stays.append hsecond.stays
  taken_eq := by rw [taken_append, List.length_append, hfirst.taken_eq, hsecond.taken_eq]
  origin := by
    intro building hlength states hstates front behind mark node hahead heq
    rw [List.length_append] at hlength
    rw [Building.run_append] at heq
    have hitems : more.length ≤ (building.run steps).items.length := by
      rw [Building.items_run, List.length_drop, hfirst.taken_eq]
      omega
    rcases hsecond.origin _ hitems hstates hahead heq with ⟨between, hbetween, hsame, hrest⟩ | ⟨spot, hspot⟩
    · rcases hfirst.origin _ (by omega) hbetween hahead hsame with hcomes | ⟨spot, hspot⟩
      · exact .inl (hcomes.append hrest)
      · exact .inr ⟨_, (hspot.append more rest).congr fun seeds => hrest _⟩
    · exact .inr ⟨_, hspot.prepend _ hfirst.taken_eq⟩

/-- A place that is finished. If it becomes an array, there is a spot in front of each object in it and of its end. -/
theorem enclosed (h : Traced seen steps) {kind : Option Kind}
    (harray : kind = some .array → ∀ (around : List Site) {items : List Item},
      seen.length ≤ items.length → ∀ {front behind : List Node} {mark : Char} {node : Node},
        Ahead mark node behind →
        ((Building.mk ⟨kind, []⟩ around items).run steps).site.nodes = front ++ node :: behind →
        front.all Node.isComment = false ∧ ∃ spot : Spot,
          spot.IsIn ⟨⟨kind, []⟩, around, items⟩ seen steps mark node.offset fun seeds =>
            ⟨⟨kind, front ++ (seeds ++ node :: behind)⟩, around, items.drop seen.length⟩) :
    Traced seen (.begin kind :: (steps ++ [.finish])) where
  stays := h.stays.enclosed kind
  taken_eq := by
    rw [taken_cons, taken_append, h.taken_eq]
    exact Nat.zero_add _
  origin := by
    intro building hlength states hstates front behind mark node hahead heq
    obtain ⟨site, around, items⟩ := building
    obtain ⟨nodes, hrun, -⟩ := h.stays.exists_run ⟨kind, []⟩ items
    rw [Building.run_enclosed] at heq
    have haround : ((Building.mk ⟨kind, []⟩ (site :: around) items).run steps).around = site :: around := by
      rw [hrun]
    rcases hstates.comesFrom_finish (append_cons_ne_nil front behind node) haround heq with
      ⟨between, hbetween, hsame, hfinish⟩ |
      ⟨hkind, comments, first, rest, hnodes, hcomments, hinner, hfirst, hgrown⟩
    · rcases h.origin ⟨⟨kind, []⟩, site :: around, items⟩ hlength hbetween hahead hsame with
        ⟨before, hbefore, hsame', hsteps⟩ | ⟨spot, hspot⟩
      · have hbegun : ComesFrom ⟨site, around, items⟩ [.begin kind] before _ :=
          hbefore.comesFrom_begin hsame'
        refine .inl (hbegun.append fun seen => ?_)
        exact (Building.run_append _ _ _).trans (by rw [hsteps, hfinish])
      · exact .inr ⟨_, hspot.enclosed.congr fun seeds => hfinish _⟩
    · -- the place has become the array
      rw [hrun] at hkind hnodes hgrown
      obtain ⟨hfront, spot, hspot⟩ := harray hkind (site :: around) hlength hahead
        (show _ = comments ++ front ++ node :: behind by rw [hrun, List.append_assoc]; exact hnodes)
      refine .inr ⟨_, hspot.enclosed.congr fun seeds => ?_⟩
      cases front with
      | nil =>
        rw [List.append_nil, hcomments] at hfront
        cases hfront
      | cons top front =>
        obtain ⟨rfl, -⟩ := List.cons.inj hinner
        obtain rfl : kind = some .array := hkind
        rw [hgrown]
        show Building.mk ⟨site.kind, site.nodes ++ enclose .array (comments ++ top :: front ++ _)⟩ _ _ = _
        rw [List.append_assoc, List.cons_append, enclose_eq hcomments hfirst]

end Traced

theorem Derives.traced (hg : grammar.Proper) (h : Derives grammar rule seen steps)
    (hrule : rule.all Rule.isProper = true) : Traced seen steps := by
  refine h.induction_steps hg.proper (P := Traced) .nil .append (.addLeaf (fun _ => rfl) rfl)
    (fun view _ _ => .addLeaf (fun _ => rfl) rfl view) (fun view _ => .addLeaf (fun _ => rfl) rfl view)
    ?_ ?_ ?_ ?_ hrule
  · intro kind opening closing inside first last seen steps hgroup hfirst hlast hinside htraced
    refine htraced.enclosed fun hkind => ?_
    obtain rfl := Option.some.inj hkind
    intro around items hlength front behind mark node hahead heq
    rw [Rule.all, Bool.and_eq_true, Rule.isProper] at hgroup
    obtain ⟨hproper, hinner⟩ := hgroup
    cases inside with
    | items kind' item closing' =>
      rw [Rule.isRow] at hproper
      simp only [Bool.and_eq_true, Bool.or_eq_true, bne_self_eq_false, Bool.false_eq_true, false_or,
        decide_eq_true_eq, beq_iff_eq] at hproper
      obtain ⟨⟨-, ⟨rfl, rfl⟩, ⟨rfl, hsparse⟩, hends⟩, -⟩ := hproper
      rw [Rule.all, Bool.and_eq_true] at hinner
      have hopening : awaitsItem [first] = true := by
        rw [awaitsItem, List.getLast?_singleton, Option.any_some, hfirst]
        rfl
      exact (hinside.hasSpots hg hinner.2 hsparse hends).bracketed hopening hlast hlength hahead heq
    | _ => simp [Rule.isRow] at hproper
  · intro kind rule seen steps hnode _ htraced
    refine htraced.enclosed fun hkind => ?_
    subst hkind
    rw [Rule.all, Bool.and_eq_true, Rule.isProper] at hnode
    simp [Kind.isBracketed] at hnode
  · intro kind hfold
    rw [Rule.isProper, Bool.and_eq_true] at hfold
    refine .inPlace (staysIn_fold (Kind.ne_comment_of_encloses hfold.1)) rfl (fun _ => rfl)
      fun hrows hinner heq => ?_
    rcases hrows.of_enclose hinner heq with ⟨-, hpart⟩ | ⟨rfl, -⟩
    · exact hpart
    · exact absurd hfold.2 (by decide)
  · exact fun role => .inPlace (staysIn_role role) rfl (fun _ => rfl) fun hrows hinner heq =>
      hrows.of_withFirstRole hinner heq

/-- In front of each object of each array in the tree of a program there is a spot, and in front of the end of the
array. -/
theorem exists_spot_of_program? {markup : Bool} {items : List Item} {steps : List Step}
    (h : program? markup (views items) = some steps) {rows : List Node → List Node} (hrows : Focused rows)
    {front behind : List Node} {mark : Char} {node : Node} (hahead : Ahead mark node behind)
    (heq : rows (front ++ node :: behind) = build steps items) :
    ∃ spot : Spot, spot.IsIn ⟨⟨none, []⟩, [], items⟩ (views items) steps mark node.offset fun seeds =>
      ⟨⟨none, rows (front ++ (seeds ++ node :: behind))⟩, [], []⟩ := by
  have hproper : Rule.programRule.all Rule.isProper = true := by decide
  have hderives := derives_of_program? h
  have htraced := hderives.traced (proper_grammar markup) hproper
  have hlength : (views items).length = items.length := length_viewsFrom false items
  have hrun := Building.run_of_keepsInside
    (hderives.keepsInside_zero (proper_grammar markup) (by decide)) ⟨none, []⟩ [] items
  rw [htraced.taken_eq, hlength, List.drop_length] at hrun
  have hfocused : FocusedIn fun inner => ⟨⟨none, rows inner⟩, [], []⟩ :=
    @FocusedIn.inner rows none [] nofun hrows nofun []
  rcases htraced.origin ⟨⟨none, []⟩, [], items⟩ hlength.le hfocused hahead
    (by rw [hrun, heq]; rfl) with ⟨before, hbefore, hsame, -⟩ | hspot
  · -- there is nothing before the first step
    cases hbefore with
    | inner hkind hrows' =>
      injection hsame with hsite
      injection hsite with _ hnodes
      exact absurd hnodes (hrows'.ne_nil _)
    | outer site opened =>
      injection hsame with _ haround
      exact absurd haround (List.append_ne_nil_of_right_ne_nil opened (List.cons_ne_nil _ _))
  · exact hspot

end VerticalSlice.Syntax
