import VerticalSlice.Proofs.Syntax.InsertedItem
import VerticalSlice.Proofs.Syntax.Origin

/-!
# Planting an entry in an array

An entry is an object with the comma behind it that is read the same way wherever an item of an array may
begin (`IsEntry`). When the items of one are put in front of those of an object of an array, or in front of the end
of the array where an item is awaited, the text is a program as before, the nodes of the entry are in the array in
front of the object or the end, and nothing else in the tree changes (`build_insert`). The comments that stood there
stand in front of the entry then.
-/

namespace VerticalSlice.Syntax

/-! ## Views of items -/

theorem beginsBehind_of_awaitsItem {views : List View} (h : awaitsItem views = true) (apart : Bool) :
    beginsBehind apart views = true := by
  obtain ⟨last, hlast, hview⟩ := (Option.any_eq_true _ _).1 h
  rw [beginsBehind, hlast, Option.elim_some]
  refine View.beginsItem_of_awaitsItem ?_
  rw [awaitsItem, List.getLast?_singleton, Option.any_some, hview]

theorem views_append {front : List Item} (h : awaitsItem (views front) = true) (more : List Item) :
    views (front ++ more) = views front ++ viewsFrom true more := by
  rw [views, viewsFrom_append]
  exact congrArg (_ ++ viewsFrom · more) (beginsBehind_of_awaitsItem h false)

/-- Comments are not seen. -/
theorem viewsFrom_cons_comments (apart : Bool) (comments comments' : List Token) (token : Token)
    (rest : List Item) :
    viewsFrom apart (⟨comments, token⟩ :: rest) = viewsFrom apart (⟨comments', token⟩ :: rest) := rfl

/-! ## Items -/

/-- Do the brackets of the views close one another, with only commas around them? -/
def closesAll (depth : Nat) : List View → Bool
  | [] => depth == 0
  | view :: rest =>
    if view.opens then closesAll (depth + 1) rest
    else if view.closes then
      match depth with
      | 0 => false
      | depth + 1 => closesAll depth rest
    else (0 < depth || view.isComma) && closesAll depth rest

theorem behindGroup_of_closesAll {item : List View} {count : Nat} (h : closesAll count item = true)
    (depth : Nat) (rest : List View) : behindGroup (depth + count) (item ++ rest) = behindGroup depth rest := by
  induction item generalizing count with
  | nil => rw [closesAll, beq_iff_eq] at h; rw [h]; rfl
  | cons view item ih =>
    unfold closesAll at h
    rw [List.cons_append, behindGroup.eq_def]
    dsimp only
    split
    · next hopens => rw [if_pos hopens] at h; exact ih h
    · next hopens =>
      rw [if_neg hopens] at h
      split
      · next hcloses =>
        rw [if_pos hcloses] at h
        cases count with
        | zero => cases h
        | succ count => exact ih h
      · next hcloses =>
        rw [if_neg hcloses, Bool.and_eq_true] at h
        exact ih h.2

theorem behindAngles_of_closesAll {item : List View} {count : Nat} (h : closesAll count item = true)
    (angles brackets : Nat) (bounded : Bool) (rest : List View) :
    behindAngles angles (brackets + count) bounded (item ++ rest) =
      behindAngles angles brackets bounded rest := by
  induction item generalizing count with
  | nil => rw [closesAll, beq_iff_eq] at h; rw [h]; rfl
  | cons view item ih =>
    unfold closesAll at h
    rw [List.cons_append, behindAngles.eq_def]
    dsimp only
    split
    · next hopens => rw [if_pos hopens] at h; exact ih h
    · next hopens =>
      rw [if_neg hopens] at h
      split
      · next hcloses =>
        rw [if_pos hcloses] at h
        cases count with
        | zero => cases h
        | succ count => exact ih h
      · next hcloses =>
        rw [if_neg hcloses, Bool.and_eq_true] at h
        split
        · exact ih h.2
        · next hbrackets =>
          obtain ⟨rfl, rfl⟩ : brackets = 0 ∧ count = 0 := by omega
          have hcomma : view.sign = [','] := by simpa [View.isComma] using h.1
          have htype : view.standsInType bounded = true := by simp [View.standsInType, hcomma]
          have hbound : (bounded || decide (view.sign = "extends".toList)) = bounded := by simp [hcomma]
          rw [if_neg (by rw [hcomma]; decide), if_neg (by rw [hcomma]; decide), if_pos htype, hbound]
          exact ih h.2

/-- A bracketed item with commas. -/
theorem isItem_of_closesAll {item : List View} (hopens : (viewAt 0 item).opens = true)
    (h : closesAll 0 item = true) : IsItem item :=
  ⟨hopens, behindGroup_of_closesAll h, behindAngles_of_closesAll h⟩

/-! ## Entries -/

/-- The views are those of an item of an array with the comma behind it, which is read by these steps or not
at all. -/
structure IsEntry (markup : Bool) (item : List View) (steps : List Step) : Prop where
  isItem : IsItem item
  awaits : awaitsItem item = true
  reading : onlyReading? (grammar markup) item (.call .assignment) = some (some steps)
  admits : ∀ symbol,
    (grammar markup symbol).admits (grammar markup) item (steps ++ [.bound .array]) = true
  admitsProgram : Rule.programRule.admits (grammar markup) item (steps ++ [.bound .array]) = true

variable {markup : Bool} {item : List View} {steps : List Step}

/-- An entry has a derivation up to its comma. -/
theorem IsEntry.exists_derives (h : IsEntry markup item steps) :
    ∃ seen comma, item = seen ++ [comma] ∧ Derives (grammar markup) (.call .assignment) seen steps := by
  obtain ⟨comma, -, hread⟩ := read_item (grounded_grammar markup) rfl h.reading []
  have hmem : (steps, [comma]) ∈ read (grammar markup) (.call .assignment) (item ++ []) := by
    rw [hread]
    exact List.mem_singleton_self _
  obtain ⟨seen, hseen, hderives⟩ := derived_readUpTo _ _ _ _ _ hmem
  rw [List.append_nil] at hseen
  exact ⟨seen, comma, hseen, hderives⟩

/-- A place among the items of a text: those in front of it, the comments in front of the next token, that token, and
the items behind it. -/
structure Opening where
  front : List Item
  comments : List Token
  token : Token
  others : List Item

namespace Opening

/-- All items of the text. -/
def items (opening : Opening) : List Item :=
  opening.front ++ ⟨opening.comments, opening.token⟩ :: opening.others

/-- The items of the text with others in front of the token; the comments are in front of these. -/
def insert (opening : Opening) (first : Token) (more : List Item) : List Item :=
  opening.front ++ (⟨opening.comments, first⟩ :: more ++ ⟨[], opening.token⟩ :: opening.others)

variable {opening : Opening}

/-- Of a child of an array whose offset is that of the token the spot is just here. -/
theorem eq_of_isIn (hsorted : opening.items.Pairwise fun item later => item.token.offset < later.token.offset)
    {spot : Spot} {seen : List View} {steps : List Step} {mark : Char} {grown : List Node → Building} {site : Site}
    {around : List Site}
    (h : spot.IsIn ⟨site, around, opening.items⟩ seen steps mark opening.token.offset grown) :
    spot.before.length = opening.front.length ∧ spot.comments = opening.comments ∧
      spot.token = opening.token ∧ spot.others = opening.others := by
  have hitems : opening.items.drop spot.before.length = ⟨spot.comments, spot.token⟩ :: spot.others :=
    h.items_eq
  have hspot : opening.items[spot.before.length]? = some ⟨spot.comments, spot.token⟩ := by
    rw [← List.head?_drop, hitems, List.head?_cons]
  have hopening : opening.items[opening.front.length]? = some ⟨opening.comments, opening.token⟩ := by
    rw [items, List.getElem?_append_right Nat.le.refl, Nat.sub_self]
    rfl
  obtain ⟨hlt, hget⟩ := List.getElem?_eq_some_iff.1 hspot
  obtain ⟨hlt', hget'⟩ := List.getElem?_eq_some_iff.1 hopening
  have hoffset : (opening.items[spot.before.length]).token.offset =
      (opening.items[opening.front.length]).token.offset := by
    rw [hget, hget']
    exact h.offset_eq
  have hlength : spot.before.length = opening.front.length := by
    rw [List.pairwise_iff_getElem] at hsorted
    rcases Nat.lt_trichotomy spot.before.length opening.front.length with hless | heq | hmore
    · exact absurd hoffset (Nat.ne_of_lt (hsorted _ _ hlt hlt' hless))
    · exact heq
    · exact absurd hoffset.symm (Nat.ne_of_lt (hsorted _ _ hlt' hlt hmore))
  rw [hlength, items, List.drop_left, List.cons.injEq, Item.mk.injEq] at hitems
  obtain ⟨⟨hcomments, htoken⟩, hothers⟩ := hitems
  exact ⟨hlength, hcomments.symm, htoken.symm, hothers.symm⟩

/-- What is seen in front of the spot and behind it. -/
theorem views_eq {spot : Spot} {all : List Step} {mark : Char} {grown : List Node → Building} {site : Site}
    {around : List Site}
    (h : spot.IsIn ⟨site, around, opening.items⟩ (views opening.items) all mark opening.token.offset grown)
    (hawaits : awaitsItem (views opening.front) = true)
    (hlength : spot.before.length = opening.front.length) :
    views opening.front = spot.before ∧
      viewsFrom true (⟨[], opening.token⟩ :: opening.others) = spot.after := by
  have hseen := h.seen_eq
  rw [items, views, viewsFrom_append, ← views] at hseen
  obtain ⟨hfront, hbehind⟩ := List.append_inj hseen
    (by rw [views, length_viewsFrom, hlength])
  refine ⟨hfront, ?_⟩
  rw [← hbehind, beginsBehind_of_awaitsItem hawaits]
  rfl

end Opening

/-- In the place where they are taken the steps of an entry add its nodes behind the comments that are in
front of it. -/
theorem IsEntry.run_eq (hentry : IsEntry markup item steps) {first : Token} {more : List Item}
    (hviews : viewsFrom true (⟨[], first⟩ :: more) = item) {node : Node}
    (hnode : build steps (⟨[], first⟩ :: more) = [node]) (hobject : node.kind = .object)
    (site : Site) (around : List Site) (comments : List Token) (behind : List Item) :
    (Building.mk site around (⟨comments, first⟩ :: more ++ behind)).run (steps ++ [.bound .array]) =
      ⟨{ site with nodes := site.nodes ++ (comments.map (Node.leaf .comment) ++
          build (steps ++ [.bound .array]) (⟨[], first⟩ :: more)) }, around, behind⟩ := by
  obtain ⟨seen, comma, hitem, hderives⟩ := hentry.exists_derives
  have hlength : more.length = seen.length := by
    have hall := congrArg List.length (hviews.trans hitem)
    rw [length_viewsFrom, List.length_cons, List.length_append, List.length_singleton] at hall
    omega
  have hproper := proper_grammar markup
  have hkeeps : keepsInside 0 (steps ++ [.bound .array]) = true :=
    keepsInside_append (hderives.keepsInside_zero hproper rfl) rfl
  have htaken : taken (steps ++ [.bound .array]) = (⟨[], first⟩ :: more : List Item).length := by
    rw [taken_append, hderives.taken_eq, List.length_cons, hlength]
    rfl
  have hopens : OpensObject seen steps := by
    obtain ⟨nodes, hrun, comments, other, rfl, -, -, hopens⟩ :=
      hderives.makes hproper rfl rfl rfl ⟨none, []⟩ [] (⟨[], first⟩ :: more)
        (by rw [List.length_cons, hlength]; exact Nat.le_succ _)
    have hnodes : comments ++ [other] = [] ++ [node] := by
      rw [← hnode, build, hrun]
      rfl
    obtain ⟨-, hother⟩ := List.append_inj' hnodes rfl
    obtain rfl := (List.cons.inj hother).1
    exact (hopens hobject).1
  rw [Building.run_append]
  show ((Building.mk site around (⟨comments, first⟩ :: (more ++ behind))).run steps).run _ = _
  rw [hopens.floats, ← Building.run_append, Building.run_of_keepsInside hkeeps, htaken]
  show Building.mk _ around (List.drop _ ((⟨[], first⟩ :: more) ++ behind)) = _
  rw [List.drop_left, ← List.cons_append, build_append_items htaken.le, List.append_assoc]

/-- With an entry in front of an object of an array or of its end, where an item is awaited, the text is a program as
before, and its tree has the nodes of the entry there. -/
theorem build_insert (hentry : IsEntry markup item steps) {first : Token} {more : List Item}
    (hviews : viewsFrom true (⟨[], first⟩ :: more) = item) {node : Node}
    (hnode : build steps (⟨[], first⟩ :: more) = [node]) (hkind : node.kind = .object)
    {opening : Opening} (hawaits : awaitsItem (views opening.front) = true) {all : List Step}
    (hprogram : program? markup (views opening.items) = some all)
    (hsorted : opening.items.Pairwise fun item later => item.token.offset < later.token.offset)
    {rows : List Node → List Node} (hrows : Focused rows) {before behind : List Node} {mark : Char} {next : Node}
    (hahead : Ahead mark next behind) (heq : rows (before ++ next :: behind) = build all opening.items)
    (hoffset : next.offset = opening.token.offset) :
    ∃ all', program? markup (views (opening.insert first more)) = some all' ∧
      build all' (opening.insert first more) =
        rows (before ++ (build (steps ++ [.bound .array]) (⟨[], first⟩ :: more) ++ next :: behind)) := by
  obtain ⟨spot, hspot⟩ := exists_spot_of_program? hprogram hrows hahead heq
  rw [hoffset] at hspot
  obtain ⟨hlength, hcomments, htoken, hothers⟩ := Opening.eq_of_isIn hsorted hspot
  obtain ⟨hbefore, hafter⟩ := Opening.views_eq hspot hawaits hlength
  obtain ⟨head, hhead⟩ := hspot.bound (hbefore ▸ hawaits)
  have hcount : taken head + 1 = spot.before.length := by
    rw [← hspot.taken_eq, hhead, taken_append]
    rfl
  refine ⟨head ++ .bound .array :: (steps ++ [.bound .array] ++ spot.rest), ?_, ?_⟩
  · -- what is read with the entry is what was read without it, and the steps of the entry
    have hfits : Fits (grammar markup) item spot.after (steps ++ [.bound .array]) := by
      obtain ⟨view, rest, hview, hsign⟩ := hspot.ahead
      refine ⟨grounded_grammar markup, hentry.isItem, ?_, hentry.admits⟩
      rw [hview, viewAt, View.isStructural, View.isComma, View.opens, View.closes, hsign]
      cases hahead <;> rfl
    have hall : program? markup (spot.before ++ spot.after) =
        some (head ++ .bound .array :: spot.rest) := by
      rw [← hspot.seen_eq, hprogram, hspot.steps_eq, hhead, List.append_assoc, List.singleton_append]
    have hinserted : views (opening.insert first more) = spot.before ++ (item ++ spot.after) := by
      rw [Opening.insert, views_append hawaits, viewsFrom_append, ← hafter, hbefore]
      congr 1
      rw [viewsFrom_cons_comments true _ [], hviews, beginsBehind_of_awaitsItem hentry.awaits]
    rw [hinserted]
    exact program?_insert hfits hentry.admitsProgram (hbefore ▸ hawaits) hcount hall
  · have htaken : taken spot.first = opening.front.length := hspot.taken_eq.trans hlength
    -- the steps in front of the spot see nothing of what is behind it
    have hreached : ∀ items : List Item,
        (Building.mk ⟨none, []⟩ [] (opening.front ++ items)).run spot.first =
          ((Building.mk ⟨none, []⟩ [] opening.front).run spot.first).withMore items :=
      fun items => @Building.run_withMore _ ⟨⟨none, []⟩, [], opening.front⟩ htaken.le items
    have hnone := Building.items_run ⟨⟨none, []⟩, [], opening.front⟩ spot.first
    rw [htaken, List.drop_length] at hnone
    have hplanted := hspot.run_eq (build (steps ++ [.bound .array]) (⟨[], first⟩ :: more))
    rw [Spot.planted, Spot.reached, Opening.items, hreached, hcomments, htoken, hothers] at hplanted
    have hsteps : head ++ .bound .array :: (steps ++ [.bound .array] ++ spot.rest) =
        spot.first ++ (steps ++ [.bound .array]) ++ spot.rest := by simp [hhead]
    rw [build, hsteps, Building.run_append, Building.run_append, Opening.insert, hreached]
    generalize (Building.mk ⟨none, []⟩ [] opening.front).run spot.first = reached at hnone hplanted ⊢
    obtain ⟨site, around, items⟩ := reached
    obtain rfl : items = [] := hnone
    show (((Building.mk site around _).run _).run _).site.nodes = _
    rw [List.nil_append, hentry.run_eq hviews hnode hkind]
    exact congrArg (·.site.nodes) hplanted

end VerticalSlice.Syntax
