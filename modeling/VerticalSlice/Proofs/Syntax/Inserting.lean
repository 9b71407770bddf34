import Mathlib.Data.List.Induction
import VerticalSlice.Proofs.Syntax.Exports
import VerticalSlice.Proofs.Syntax.Planting
import VerticalSlice.Proofs.Syntax.Splicing

/-!
# The tree of a text with one more item

A `Splice` is a row of lexemes with those of an entry put in front of a mark. The tokens behind the entry
move on, and so do the nodes. If the text was a program and the mark opens an object of an exported array, or ends
that array, the new text is a program, and its tree is the moved tree with the node of the entry in front of the
object or of the end (`Splice.exists_program`).
-/

namespace VerticalSlice.Syntax

/-! ## Tokens without their places -/

/-- What is seen of tokens does not depend on where they are. -/
theorem viewsFrom_placeFrom (lexemes : List Lexeme) (apart broken : Bool) (waiting waiting' : List Token)
    (offset line offset' line' : Nat) :
    viewsFrom apart (itemsFrom waiting (placeFrom offset line broken lexemes)).1 =
      viewsFrom apart (itemsFrom waiting' (placeFrom offset' line' broken lexemes)).1 := by
  induction lexemes generalizing apart broken waiting waiting' offset line offset' line' with
  | nil => rfl
  | cons lexeme rest ih =>
    rw [placeFrom, placeFrom, itemsFrom, itemsFrom]
    cases hcomment : lexeme.sort == .comment with
    | true =>
      simp only [Token.isComment, hcomment, if_true]
      exact ih _ _ _ _ _ _ _ _
    | false =>
      simp only [Token.isComment, hcomment, Bool.false_eq_true, if_false]
      exact congrArg (_ :: ·) (ih _ _ _ _ _ _ _ _)

/-- Where a new item begins, it is not seen what stands in front of its first token. -/
theorem viewsFrom_cons_congr {item item' : Item} (hsort : item.token.sort = item'.token.sort)
    (htext : item.token.text = item'.token.text) {rest rest' : List Item}
    (hrest : ∀ apart, viewsFrom apart rest = viewsFrom apart rest') :
    viewsFrom true (item :: rest) = viewsFrom true (item' :: rest') := by
  have hview : View.ofToken true item.token = View.ofToken true item'.token := by
    rw [View.ofToken, View.ofToken, View.signOf, View.signOf, hsort, htext]
    simp only [Bool.not_true, Bool.and_false]
  rw [viewsFrom, viewsFrom, hview]
  exact congrArg (_ :: ·) (hrest _)

theorem itemsFrom_of_plain {tokens : List Token} (h : ∀ token ∈ tokens, token.isComment = false)
    (more : List Token) :
    itemsFrom [] (tokens ++ more) =
      (tokens.map (Item.mk []) ++ (itemsFrom [] more).1, (itemsFrom [] more).2) := by
  induction tokens with
  | nil => rfl
  | cons token rest ih =>
    rw [List.forall_mem_cons] at h
    rw [List.cons_append, itemsFrom, h.1, if_neg Bool.false_ne_true, ih h.2]
    rfl

theorem brokenBehind_of_plain {lexemes : List Lexeme} (h : ∀ lexeme ∈ lexemes, lexeme.sort ≠ .comment)
    (hne : lexemes ≠ []) (broken : Bool) : brokenBehind broken lexemes = false := by
  induction lexemes generalizing broken with
  | nil => exact absurd rfl hne
  | cons lexeme rest ih =>
    rw [List.forall_mem_cons] at h
    rw [brokenBehind, beq_eq_false_iff_ne.2 h.1, Bool.false_and]
    cases rest with
    | nil => rfl
    | cons next rest => exact ih h.2 (List.cons_ne_nil _ _) false

theorem isComment_of_mem_placeFrom {lexemes : List Lexeme} (h : ∀ lexeme ∈ lexemes, lexeme.sort ≠ .comment)
    {offset line : Nat} {broken : Bool} :
    ∀ token ∈ placeFrom offset line broken lexemes, token.isComment = false := by
  induction lexemes generalizing offset line broken with
  | nil => exact fun _ h => by cases h
  | cons lexeme rest ih =>
    rw [List.forall_mem_cons] at h
    rw [placeFrom, List.forall_mem_cons]
    exact ⟨beq_eq_false_iff_ne.2 h.1, ih h.2⟩

/-! ## Objects among the lexemes -/

/-- The token of a mark. -/
theorem mark_of_signOf {token : Token} {mark : Text} (h : View.signOf token = mark) (hne : mark ≠ [])
    (hword : mark ∉ knownWords) : token.sort = .mark ∧ token.text = mark := by
  unfold View.signOf at h
  split at h
  · next hsort => exact ⟨hsort, h⟩
  · split at h
    · next hknown => exact absurd (h ▸ List.contains_iff_mem.1 hknown) hword
    · exact absurd h.symm hne
  · exact absurd h.symm hne

/-- Where an item is awaited there is a bracket or a comma, with comments behind it. -/
theorem endsBound_of_awaits {lexemes : List Lexeme}
    (h : awaitsItem (views (items (place lexemes)).1) = true) : EndsBound lexemes := by
  induction lexemes using List.reverseRecOn with
  | nil => cases h
  | append_singleton front last ih =>
    rw [place, placeFrom_append, items, itemsFrom_append, placeFrom, placeFrom, itemsFrom] at h
    cases hcomment : last.sort == .comment with
    | true =>
      simp only [Token.isComment, hcomment, if_true, itemsFrom, List.append_nil] at h
      obtain ⟨head, bound, comments, rfl, hbound, hcomments⟩ := ih h
      refine ⟨head, bound, comments ++ [last], by simp, hbound, List.forall_mem_append.2 ⟨hcomments, ?_⟩⟩
      exact List.forall_mem_singleton.2 (eq_of_beq hcomment)
    | false =>
      simp only [Token.isComment, hcomment, Bool.false_eq_true, if_false, itemsFrom] at h
      refine ⟨front, last, [], rfl, ?_, fun _ h => by cases h⟩
      rw [views, viewsFrom_append, viewsFrom, awaitsItem, List.getLast?_append, viewsFrom,
        List.getLast?_singleton, Option.some_or, Option.any_some, Bool.or_eq_true, View.isComma,
        decide_eq_true_eq, decide_eq_true_eq] at h
      have hmark : ∀ mark : Text, mark ≠ [] → mark ∉ knownWords →
          View.signOf (last.tokenAt (0 + (spelled front).length) (1 + (spelled front).count '\n')
            (brokenBehind false front)) = mark → last.sort = .mark ∧ last.text = mark :=
        fun mark hne hword hsign => mark_of_signOf hsign hne hword
      have hmark' : last.sort = .mark ∧ (last.text = ['['] ∨ last.text = [',']) := by
        rcases h with h | h
        · exact (hmark ['['] (by decide) (by decide) h).imp_right .inl
        · exact (hmark [','] (by decide) (by decide) h).imp_right .inr
      rw [Lexeme.isBound, Bool.and_eq_true, Bool.or_eq_true, beq_iff_eq, beq_iff_eq, beq_iff_eq]
      exact hmark'

/-- Behind a bracket or a comma, with comments behind it, an item is awaited. -/
theorem awaits_of_endsBound {lexemes : List Lexeme} (h : EndsBound lexemes) :
    awaitsItem (views (items (place lexemes)).1) = true := by
  obtain ⟨head, bound, comments, rfl, hbound, hcomments⟩ := h
  induction comments using List.reverseRecOn with
  | nil =>
    rw [Lexeme.isBound, Bool.and_eq_true, Bool.or_eq_true, beq_iff_eq, beq_iff_eq, beq_iff_eq] at hbound
    have hcomment : (bound.sort == .comment) = false := beq_eq_false_iff_ne.2 (by rw [hbound.1]; decide)
    rw [place, placeFrom_append, items, itemsFrom_append, placeFrom, placeFrom, itemsFrom]
    simp only [Token.isComment, hcomment, Bool.false_eq_true, if_false, itemsFrom]
    rw [views, viewsFrom_append, viewsFrom, awaitsItem, List.getLast?_append, viewsFrom,
      List.getLast?_singleton, Option.some_or, Option.any_some, View.isComma]
    rcases hbound.2 with htext | htext <;> simp [View.ofToken, View.signOf, hbound.1, htext]
  | append_singleton comments last ih =>
    rw [List.forall_mem_append, List.forall_mem_singleton] at hcomments
    have hcomment : (last.sort == .comment) = true := beq_iff_eq.2 hcomments.2
    rw [← List.cons_append, ← List.append_assoc, place, placeFrom_append, items, itemsFrom_append, placeFrom,
      placeFrom, itemsFrom]
    simp only [Token.isComment, hcomment, if_true, itemsFrom, List.append_nil]
    exact ih hcomments.1

/-! ## Splices -/

/-- A row of lexemes, and an entry that is put in front of a mark among them; the mark has other blanks
then. The entry, with the new blanks of the mark, has at least as many characters and lines as the old
blanks. -/
structure Splice where
  front : List Lexeme
  mark : Lexeme
  behind : List Lexeme
  head : Lexeme
  tail : List Lexeme
  blanks : Text
  mark_sort : mark.sort = .mark
  mark_ne : mark.text ≠ []
  front_ne : ∀ lexeme ∈ front, lexeme.text ≠ []
  plain : ∀ lexeme ∈ head :: tail, lexeme.sort ≠ .comment
  chars_le : mark.blanks.length ≤ (spelled (head :: tail)).length + blanks.length
  lines_le : mark.blanks.count '\n' ≤ (spelled (head :: tail)).count '\n' + blanks.count '\n'

namespace Splice

variable (splice : Splice)

/-- The row as it was. -/
def before : List Lexeme := splice.front ++ splice.mark :: splice.behind

/-- The row with the entry. -/
def after : List Lexeme :=
  splice.front ++ (splice.head :: splice.tail ++
    { splice.mark with blanks := splice.blanks } :: splice.behind)

/-- How what is behind the entry moves. -/
def move : Move where
  start := (spelled splice.front).length + splice.mark.blanks.length
  chars := (spelled (splice.head :: splice.tail)).length + splice.blanks.length - splice.mark.blanks.length
  lines := (spelled (splice.head :: splice.tail)).count '\n' + splice.blanks.count '\n' -
    splice.mark.blanks.count '\n'
  blanks := splice.blanks

/-- The first token of the entry. -/
def first : Token :=
  splice.head.tokenAt (spelled splice.front).length (1 + (spelled splice.front).count '\n')
    (brokenBehind false splice.front)

/-- The other tokens of the entry. -/
def more : List Token :=
  placeFrom (splice.first.offset + splice.head.text.length)
    (splice.first.line + splice.head.text.count '\n') false splice.tail

/-- The mark where it is behind the entry. -/
def moved : Token :=
  Lexeme.tokenAt { splice.mark with blanks := splice.blanks }
    ((spelled splice.front).length + (spelled (splice.head :: splice.tail)).length)
    (1 + (spelled splice.front).count '\n' + (spelled (splice.head :: splice.tail)).count '\n') false

/-- The tokens behind the mark. -/
def others : List Token :=
  placeFrom (splice.moved.offset + splice.mark.text.length)
    (splice.moved.line + splice.mark.text.count '\n') false splice.behind

theorem placeFrom_entry :
    placeFrom (spelled splice.front).length (1 + (spelled splice.front).count '\n')
      (brokenBehind false splice.front) (splice.head :: splice.tail) = splice.first :: splice.more := by
  have hsort := splice.plain splice.head (List.mem_cons_self ..)
  rw [placeFrom, beq_eq_false_iff_ne.2 hsort, Bool.false_and]
  rfl

theorem placeFrom_moved :
    placeFrom ((spelled splice.front).length + (spelled (splice.head :: splice.tail)).length)
      (1 + (spelled splice.front).count '\n' + (spelled (splice.head :: splice.tail)).count '\n') false
      ({ splice.mark with blanks := splice.blanks } :: splice.behind) = splice.moved :: splice.others := by
  have hsort : (splice.mark.sort == .comment) = false := by
    rw [splice.mark_sort]
    rfl
  rw [placeFrom]
  dsimp only
  rw [hsort, Bool.false_and]
  rfl

theorem place_after :
    place splice.after = place splice.front ++ (splice.first :: splice.more ++ splice.moved :: splice.others) := by
  rw [after, place, placeFrom_append, placeFrom_append,
    brokenBehind_of_plain splice.plain (List.cons_ne_nil _ _), Nat.zero_add, placeFrom_entry, placeFrom_moved]
  rfl

theorem map_place_before :
    (place splice.before).map splice.move.token = place splice.front ++ splice.moved :: splice.others := by
  have hchars := splice.chars_le
  have hlines := splice.lines_le
  have hsort : splice.mark.sort ≠ .comment := by
    rw [splice.mark_sort]
    exact fun h => by cases h
  have hfront : (placeFrom 0 1 false splice.front).map splice.move.token = placeFrom 0 1 false splice.front :=
    splice.move.map_placeFrom_front splice.front_ne (by rw [Nat.zero_add]; exact Nat.le_add_right _ _) 1 false
  rw [before, place, placeFrom_append, List.map_append, hfront, Nat.zero_add]
  have hbehind : (placeFrom (spelled splice.front).length (1 + (spelled splice.front).count '\n')
      (brokenBehind false splice.front) (splice.mark :: splice.behind)).map splice.move.token =
        placeFrom ((spelled splice.front).length + (spelled (splice.head :: splice.tail)).length)
          (1 + (spelled splice.front).count '\n' + (spelled (splice.head :: splice.tail)).count '\n') false
          ({ splice.mark with blanks := splice.blanks } :: splice.behind) :=
    splice.move.map_placeFrom_at splice.mark_ne hsort rfl (by simp only [move]; omega) (by simp only [move]; omega)
      (brokenBehind false splice.front) splice.behind
  rw [hbehind]
  exact congrArg (_ ++ ·) splice.placeFrom_moved

/-- The mark where it is behind the entry, among the items. -/
def opening : Opening :=
  ⟨(items (place splice.front)).1, (items (place splice.front)).2, splice.moved,
    (itemsFrom [] splice.others).1⟩

theorem items_map_before :
    items ((place splice.before).map splice.move.token) =
      (splice.opening.items, (itemsFrom [] splice.others).2) := by
  have hmoved : splice.moved.isComment = false := by
    rw [Token.isComment, moved, Lexeme.tokenAt, splice.mark_sort]
    rfl
  rw [map_place_before, items, itemsFrom_append, itemsFrom, hmoved, if_neg Bool.false_ne_true]
  rfl

theorem items_after :
    items (place splice.after) =
      (splice.opening.insert splice.first (splice.more.map (Item.mk [])),
        (itemsFrom [] splice.others).2) := by
  have hmoved : splice.moved.isComment = false := by
    rw [Token.isComment, moved, Lexeme.tokenAt, splice.mark_sort]
    rfl
  have hentry := @isComment_of_mem_placeFrom _ splice.plain (spelled splice.front).length
    (1 + (spelled splice.front).count '\n') (brokenBehind false splice.front)
  rw [placeFrom_entry, List.forall_mem_cons] at hentry
  rw [place_after, items, itemsFrom_append, List.cons_append, itemsFrom, hentry.1,
    if_neg Bool.false_ne_true, itemsFrom_of_plain hentry.2, itemsFrom, hmoved, if_neg Bool.false_ne_true]
  rfl

/-- Behind a bracket or a comma the moved tokens are seen as they were. -/
theorem views_opening (h : awaitsItem (views splice.opening.front) = true) :
    views splice.opening.items = views (items (place splice.before)).1 := by
  have hsort : (splice.mark.sort == .comment) = false := by
    rw [splice.mark_sort]
    rfl
  have hbefore : (items (place splice.before)).1 = splice.opening.front ++
      (itemsFrom splice.opening.comments (placeFrom (0 + (spelled splice.front).length)
        (1 + (spelled splice.front).count '\n') (brokenBehind false splice.front)
        (splice.mark :: splice.behind))).1 := by
    rw [before, place, placeFrom_append, items, itemsFrom_append]
    rfl
  rw [hbefore, Opening.items, views_append h, views_append h]
  congr 1
  rw [placeFrom, itemsFrom]
  simp only [Token.isComment, hsort, Bool.false_eq_true, if_false, Bool.false_and]
  refine viewsFrom_cons_congr ?_ ?_ fun apart => ?_
  · rfl
  · rfl
  · exact viewsFrom_placeFrom _ _ _ _ _ _ _ _ _

end Splice

/-! ## Objects of an exported array -/

/-- Comments export nothing. -/
theorem exportedArray?_comments (nodes : List Node) (comments : List Token) (name : Text) :
    (Node.branch .program (nodes ++ comments.map (Node.leaf .comment))).exportedArray? name =
      (Node.branch .program nodes).exportedArray? name := by
  have hnone : (Node.preorderAll (comments.map (Node.leaf .comment))).findSome? (Node.exportNamed? name) =
      none := by
    rw [List.findSome?_eq_none_iff]
    intro node hnode
    obtain ⟨child, hchild, hnode⟩ := Node.mem_preorderAll_iff.1 hnode
    obtain ⟨comment, -, rfl⟩ := List.mem_map.1 hchild
    rcases Node.mem_preorder_iff.1 hnode with rfl | ⟨inside, hinside, -⟩
    · exact exportNamed?_eq_none_of_childless rfl
    · cases hinside
  rw [exportedArray?_branch, exportedArray?_branch, Node.preorderAll_append, List.findSome?_append, hnone,
    Option.or_none]

/-- A reading of the lexemes of a program gives its nodes, which are names, literals and what is around
them. -/
theorem exists_steps_of_programNodes? {lexemes : List Lexeme} (hcut : ∀ lexeme ∈ lexemes, lexeme.IsCut)
    {nodes : List Node} (h : programNodes? false (place lexemes) = some nodes) :
    ∃ steps, program? false (views (items (place lexemes)).1) = some steps ∧
      nodes = build steps (items (place lexemes)).1 ++ (items (place lexemes)).2.map (Node.leaf .comment) ∧
      ∀ node ∈ build steps (items (place lexemes)).1, node.Lexical := by
  rw [programNodes?] at h
  dsimp only at h
  obtain ⟨steps, hsteps, rfl⟩ := Option.map_eq_some_iff.1 h
  exact ⟨steps, hsteps, rfl, lexical_build hsteps fun item hitem => blanks_of_mem_items hcut hitem⟩

/-- An object of an exported array opens with a brace, and in front of the brace an item is awaited. -/
theorem exists_brace_of_object {lexemes : List Lexeme} (hcut : ∀ lexeme ∈ lexemes, lexeme.IsCut)
    {nodes : List Node} (hprogram : programNodes? false (place lexemes) = some nodes) {name : Text}
    {table : ExportedArray} (htable : (Node.branch .program nodes).exportedArray? name = some table)
    {object : Node} (hmem : object ∈ table.array.children) (hobject : object.kind = .object) :
    ∃ front mark behind, lexemes = front ++ mark :: behind ∧ mark.sort = .mark ∧ mark.text = ['\x7b'] ∧
      object.offset = (spelled front).length + mark.blanks.length ∧
      awaitsItem (views (items (place front)).1) = true := by
  obtain ⟨steps, hsteps, rfl, hlexical⟩ := exists_steps_of_programNodes? hcut hprogram
  rw [exportedArray?_comments] at htable
  obtain ⟨rows, hrows, hinner, -⟩ :=
    exists_focused_of_exportedArray? hlexical htable (List.ne_nil_of_mem hmem)
  obtain ⟨before, behind, hchildren⟩ := List.append_of_mem hmem
  rw [hchildren] at hinner
  obtain ⟨spot, hspot⟩ := exists_spot_of_program? hsteps hrows (.object hobject) hinner
  have hitems : (items (place lexemes)).1 =
      (items (place lexemes)).1.take spot.before.length ++ ⟨spot.comments, spot.token⟩ :: spot.others := by
    have hdrop := hspot.items_eq
    dsimp only at hdrop
    rw [← hdrop, List.take_append_drop]
  obtain ⟨front, mark, others, rfl, hfront, -, htoken⟩ := exists_lexemes_of_items hitems
  obtain ⟨view, rest, hafter, hsign⟩ := hspot.ahead
  -- what is seen at the brace is what is seen of its token
  have hseen := hspot.seen_eq
  rw [hitems, views, viewsFrom_append, ← views] at hseen
  have hlength := congrArg List.length hitems
  rw [List.length_append, List.length_take, List.length_cons] at hlength
  obtain ⟨hbefore, hbehind⟩ := List.append_inj hseen (by
    rw [views, length_viewsFrom, List.length_take]
    omega)
  rw [hafter, viewsFrom, List.cons.injEq] at hbehind
  have hbrace : View.signOf spot.token = ['\x7b'] := by
    rw [← hsign, ← hbehind.1]
    rfl
  obtain ⟨hsort, htext⟩ := mark_of_signOf hbrace (by decide) (by decide)
  rw [htoken] at hsort htext
  refine ⟨front, mark, others, rfl, hsort, htext, ?_, ?_⟩
  · rw [← hspot.offset_eq, htoken]
    rfl
  · rw [hfront, hbefore]
    exact hspot.awaits rfl

/-! ## Trees that move -/

namespace Move

variable (move : Move)

theorem offset_token (token : Token) :
    (move.token token).offset =
      if token.offset < move.start then token.offset else token.offset + move.chars := by
  rw [Move.token]
  split <;> rfl

theorem isComment_token (token : Token) : (move.token token).isComment = token.isComment := by
  rw [Move.token]
  split <;> rfl

theorem all_isSpace_token (hmove : move.blanks.all isSpace = true) {token : Token}
    (h : token.blanks.all isSpace = true) : (move.token token).blanks.all isSpace = true := by
  rw [Move.token]
  split
  · exact h
  · dsimp only
    split
    · exact hmove
    · exact h

theorem spaced_item (hmove : move.blanks.all isSpace = true) {item : Item} (h : item.Spaced) :
    (item.map move.token).Spaced :=
  ⟨List.forall_mem_map.2 fun _ hcomment => move.all_isSpace_token hmove (h.1 _ hcomment),
    move.all_isSpace_token hmove h.2⟩

/-- Moved items are in the same order. -/
theorem pairwise_offset {items : List Item}
    (h : items.Pairwise fun item later => item.token.offset < later.token.offset) :
    (items.map (Item.map move.token)).Pairwise fun item later => item.token.offset < later.token.offset := by
  refine List.pairwise_map.2 (h.imp fun {item later} hlt => ?_)
  rw [Item.map, Item.map, offset_token, offset_token]
  split <;> split <;> omega

/-- The array that is exported by a tree that moves is the moved array. -/
theorem exportedArray?_node {root : Node} (hroot : root.Lexical) (hmove : move.blanks.all isSpace = true)
    (name : Text) :
    (move.node root).exportedArray? name =
      (root.exportedArray? name).map fun exported => ⟨exported.name, move.node exported.array⟩ := by
  rw [Node.exportedArray?, Move.node, (hroot.renames hmove).exportedArrays, List.find?_map]
  rfl

end Move

/-! ## The new tree -/

theorem Ahead.isAhead {mark : Char} {node : Node} {behind : List Node} (h : Ahead mark node behind) :
    IsAhead mark := by
  cases h with
  | object => exact .inl rfl
  | closing => exact .inr rfl

/-- An item may be put in front of the same child when the tree moves. -/
theorem Ahead.map {mark : Char} {node : Node} {behind : List Node} (h : Ahead mark node behind) (move : Move) :
    Ahead mark (move.node node) (behind.map move.node) := by
  cases h with
  | object hkind => exact .object (by rw [Move.kind_node, hkind])
  | closing => exact .closing

/-- With an entry in front of an object of the array that is exported under a name, or in front of the end of that
array, a program is a program again. Its tree is the moved tree, with the nodes of the entry in that array in front
of the object or of the end. -/
theorem Splice.exists_program (splice : Splice) (hblanks : splice.blanks.all isSpace = true)
    (hcut : ∀ lexeme ∈ splice.before, lexeme.IsCut)
    (hawaits : awaitsItem (views splice.opening.front) = true)
    {item : List View} {steps : List Step} (hentry : IsEntry false item steps)
    (hviews : viewsFrom true (⟨[], splice.first⟩ :: splice.more.map (Item.mk [])) = item) {entry : Node}
    (hnode : build steps (⟨[], splice.first⟩ :: splice.more.map (Item.mk [])) = [entry])
    (hkind : entry.kind = .object) {nodes : List Node}
    (hprogram : programNodes? false (place splice.before) = some nodes) {name : Text} {table : ExportedArray}
    (htable : (Node.branch .program nodes).exportedArray? name = some table)
    {before behind : List Node} {mark : Char} {next : Node}
    (hchildren : table.array.children = before ++ next :: behind) (hahead : Ahead mark next behind)
    (hoffset : next.offset = splice.move.start) :
    ∃ rows, Focused rows ∧
      rows ((before ++ next :: behind).map splice.move.node) = nodes.map splice.move.node ∧
      programNodes? false (place splice.after) = some (rows (before.map splice.move.node ++
        (build (steps ++ [.bound .array]) (⟨[], splice.first⟩ :: splice.more.map (Item.mk [])) ++
          (next :: behind).map splice.move.node))) ∧
      ∀ inner, (Node.branch .program (rows inner)).exportedArray? name =
        some ⟨table.name, .mk (splice.move.label table.array.label) inner⟩ := by
  obtain ⟨all, hall, rfl, hnodes⟩ := exists_steps_of_programNodes? hcut hprogram
  have hpos : 0 < splice.move.start := by
    obtain ⟨last, hlast, -⟩ := (Option.any_eq_true _ _).1 hawaits
    have hne : splice.front ≠ [] := by
      intro hnil
      rw [opening, hnil] at hlast
      cases hlast
    obtain ⟨lexeme, rest, hfront⟩ := List.exists_cons_of_ne_nil hne
    have htext := List.length_pos_iff.2 (splice.front_ne lexeme (hfront ▸ List.mem_cons_self ..))
    rw [move, hfront, spelled_cons, List.length_append, List.length_append]
    dsimp only
    omega
  have htranslates := splice.move.translates hpos
  have hitems := items_map (τ := splice.move.token) splice.move.isComment_token (place splice.before)
  rw [splice.items_map_before, Prod.mk.injEq] at hitems
  obtain ⟨hopening, hlast⟩ := hitems
  have hspaced : ∀ item ∈ (items (place splice.before)).1, item.Spaced :=
    fun item hitem => blanks_of_mem_items hcut hitem
  have hmoved : build all splice.opening.items = (build all (items (place splice.before)).1).map splice.move.node := by
    rw [hopening, htranslates.build_map]
  have hall' : program? false (views splice.opening.items) = some all := by
    rw [splice.views_opening hawaits, hall]
  -- the moved tree exports the moved array
  rw [exportedArray?_comments] at htable
  have hroot : (Node.branch .program (build all (items (place splice.before)).1)).Lexical :=
    .branch rfl hnodes
  have htable' := splice.move.exportedArray?_node hroot hblanks name
  rw [htable, Move.node_branch _ hpos, ← hmoved, Option.map_some] at htable'
  have hchildren' : (splice.move.node table.array).children = (before ++ next :: behind).map splice.move.node := by
    rw [Move.node, Node.children_relabel, hchildren]
    rfl
  have hlexical : ∀ node ∈ build all splice.opening.items, node.Lexical := by
    refine lexical_build hall' fun item hitem => ?_
    rw [hopening] at hitem
    obtain ⟨old, hold, rfl⟩ := List.mem_map.1 hitem
    exact splice.move.spaced_item hblanks (hspaced old hold)
  obtain ⟨rows, hrows, hinner, hexported⟩ := exists_focused_of_exportedArray? hlexical htable' (by
    dsimp only
    rw [hchildren', List.map_append]
    exact List.append_ne_nil_of_right_ne_nil _ (List.cons_ne_nil _ _))
  dsimp only at hinner hexported
  rw [hchildren', List.map_append, List.map_cons] at hinner
  have hsorted : splice.opening.items.Pairwise fun item later => item.token.offset < later.token.offset := by
    rw [hopening]
    exact splice.move.pairwise_offset (pairwise_offset_items hcut _ _ _ _)
  have hmark : (splice.move.node next).offset = splice.opening.token.offset := by
    have hchars := splice.chars_le
    rw [Move.offset_node, hoffset, if_neg (Nat.lt_irrefl _)]
    simp only [move, opening, moved, Lexeme.tokenAt]
    omega
  obtain ⟨all', hnew, hbuild⟩ := build_insert hentry hviews hnode hkind hawaits hall' hsorted hrows
    (hahead.map splice.move) hinner hmark
  refine ⟨_, hrows.append ((itemsFrom [] splice.others).2.map (Node.leaf .comment)), ?_, ?_, fun inner => ?_⟩
  · rw [List.map_append, List.map_cons, hinner, hmoved, List.map_append, hlast, List.map_map, List.map_map]
    congr 2
    exact funext fun token => (splice.move.node_leaf .comment token).symm
  · rw [programNodes?, splice.items_after]
    dsimp only
    rw [hnew, Option.map_some, hbuild]
    rfl
  · rw [exportedArray?_comments, hexported, Move.node, Node.label_relabel]

end VerticalSlice.Syntax
