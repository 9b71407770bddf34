import VerticalSlice.Proofs.Syntax.Lexical
import VerticalSlice.Proofs.Syntax.Relabeling

/-!
# Where nodes stand in a text

The leaves of a program are its tokens, in the order of the text, and no step of building changes that: it adds
the next token behind the last one, or it puts a node around the last ones (`Building.Located.step`). So each
node of the tree stands for a part of the text, and it says at which offset its first child stands
(`exists_part_of_mem_preorder`).
-/

namespace VerticalSlice.Syntax

variable {start : Nat} {nodes : List Node} {text : Text}

/-! ## The text of nodes -/

/-- The tokens of the nodes with the blanks in front of them. -/
def sourceAll (nodes : List Node) : Text :=
  (Node.preorderAll nodes).flatMap fun node => node.label.blanks ++ node.label.text

theorem source_mk (label : Label) (children : List Node) :
    (Node.mk label children).source = label.blanks ++ label.text ++ sourceAll children := by
  rw [Node.source, Node.walk_eq_preorder, Node.preorder, List.flatMap_cons, sourceAll]
  rfl

theorem sourceAll_append (first second : List Node) :
    sourceAll (first ++ second) = sourceAll first ++ sourceAll second := by
  rw [sourceAll, Node.preorderAll_append, List.flatMap_append, sourceAll, sourceAll]

theorem sourceAll_cons (node : Node) (rest : List Node) :
    sourceAll (node :: rest) = node.source ++ sourceAll rest := by
  rw [sourceAll, Node.preorderAll, List.flatMap_append, Node.source, Node.walk_eq_preorder, sourceAll]

theorem sourceAll_singleton (node : Node) : sourceAll [node] = node.source := by
  rw [sourceAll_cons]
  exact List.append_nil _

theorem source_branch (kind : Kind) (nodes : List Node) : (Node.branch kind nodes).source = sourceAll nodes :=
  source_mk _ nodes

theorem source_withRole (role : Role) (node : Node) : (node.withRole role).source = node.source := by
  cases node
  rw [Node.withRole, source_mk, source_mk]

theorem sourceAll_enclose (kind : Kind) (nodes : List Node) : sourceAll (enclose kind nodes) = sourceAll nodes := by
  rw [enclose, sourceAll_append, sourceAll_singleton, source_branch, ← sourceAll_append,
    List.takeWhile_append_dropWhile]

theorem sourceAll_withFirstRole (role : Role) (nodes : List Node) :
    sourceAll (withFirstRole role nodes) = sourceAll nodes := by
  have hsplit := List.takeWhile_append_dropWhile (p := Node.isComment) (l := nodes)
  rw [withFirstRole, sourceAll_append]
  conv_rhs => rw [← hsplit, sourceAll_append]
  cases nodes.dropWhile Node.isComment with
  | nil => rfl
  | cons node rest => rw [sourceAll_cons, sourceAll_cons, source_withRole]

/-! ## Nodes in a row -/

/-- The node stands in a text where `start` characters are in front of it: a token behind its blanks, any other
node where its first child stands, and its children one behind the other. -/
inductive Node.LocatedAt : Nat → Node → Prop
  | token {start : Nat} {label : Label} (hoffset : label.offset = start + label.blanks.length) :
    LocatedAt start (.mk label [])
  | branch {start : Nat} {label : Label} {children : List Node} (hblanks : label.blanks = [])
    (htext : label.text = []) (hoffset : ∀ first ∈ children.head?, label.offset = first.offset)
    (hchildren : ∀ front child back, children = front ++ child :: back →
      LocatedAt (start + (sourceAll front).length) child) : LocatedAt start (.mk label children)

/-- The nodes stand one behind the other, where `start` characters are in front of the first. -/
def RowAt (start : Nat) (nodes : List Node) : Prop :=
  ∀ front node back, nodes = front ++ node :: back → node.LocatedAt (start + (sourceAll front).length)

theorem rowAt_nil : RowAt start [] :=
  fun _ _ _ h => absurd h.symm (List.append_ne_nil_of_right_ne_nil _ (List.cons_ne_nil _ _))

theorem rowAt_cons {node : Node} {rest : List Node} :
    RowAt start (node :: rest) ↔ node.LocatedAt start ∧ RowAt (start + node.source.length) rest := by
  constructor
  · intro h
    refine ⟨h [] node rest rfl, fun front other back hrest => ?_⟩
    have hother := h (node :: front) other back (by rw [hrest, List.cons_append])
    rwa [sourceAll_cons, List.length_append, ← Nat.add_assoc] at hother
  · rintro ⟨hnode, hrest⟩ front other back hsplit
    cases front with
    | nil =>
      obtain ⟨rfl, -⟩ := List.cons.inj hsplit
      exact hnode
    | cons first front =>
      obtain ⟨rfl, hbehind⟩ := List.cons.inj hsplit
      rw [sourceAll_cons, List.length_append, ← Nat.add_assoc]
      exact hrest front other back hbehind

theorem rowAt_append {first second : List Node} :
    RowAt start (first ++ second) ↔ RowAt start first ∧ RowAt (start + (sourceAll first).length) second := by
  induction first generalizing start with
  | nil => exact ⟨fun h => ⟨rowAt_nil, h⟩, fun h => h.2⟩
  | cons node rest ih =>
    rw [List.cons_append, rowAt_cons, rowAt_cons, ih, sourceAll_cons, List.length_append, and_assoc,
      Nat.add_assoc start]

theorem rowAt_singleton {node : Node} : RowAt start [node] ↔ node.LocatedAt start :=
  rowAt_cons.trans (and_iff_left rowAt_nil)

theorem RowAt.branch (h : RowAt start nodes) (kind : Kind) : (Node.branch kind nodes).LocatedAt start := by
  refine .branch rfl rfl (fun first hfirst => ?_) h
  rw [Option.mem_def] at hfirst
  rw [hfirst]
  rfl

theorem RowAt.enclose (h : RowAt start nodes) (kind : Kind) : RowAt start (enclose kind nodes) := by
  rw [← List.takeWhile_append_dropWhile (p := Node.isComment) (l := nodes), rowAt_append] at h
  exact rowAt_append.2 ⟨h.1, rowAt_singleton.2 (h.2.branch kind)⟩

theorem Node.LocatedAt.withRole {node : Node} (h : node.LocatedAt start) (role : Role) :
    (node.withRole role).LocatedAt start := by
  cases h with
  | token hoffset => exact .token hoffset
  | branch hblanks htext hoffset hchildren => exact .branch hblanks htext hoffset hchildren

theorem RowAt.withFirstRole (h : RowAt start nodes) (role : Role) : RowAt start (withFirstRole role nodes) := by
  rw [← List.takeWhile_append_dropWhile (p := Node.isComment) (l := nodes), rowAt_append] at h
  refine rowAt_append.2 ⟨h.1, ?_⟩
  cases hrest : nodes.dropWhile Node.isComment with
  | nil => exact rowAt_nil
  | cons node rest =>
    rw [hrest, rowAt_cons] at h
    exact rowAt_cons.2 ⟨h.2.1.withRole role, by rw [source_withRole]; exact h.2.2⟩

/-! ## Tokens in a row -/

/-- The text of the tokens. -/
def spelledTokens (tokens : List Token) : Text := tokens.flatMap fun token => token.blanks ++ token.text

/-- The tokens stand one behind the other, where `start` characters are in front of the first. -/
def TokensAt : Nat → List Token → Prop
  | _, [] => True
  | start, token :: rest =>
    token.offset = start + token.blanks.length ∧ TokensAt (start + (token.blanks ++ token.text).length) rest

theorem tokensAt_placeFrom (lexemes : List Lexeme) (offset line : Nat) (broken : Bool) :
    TokensAt offset (placeFrom offset line broken lexemes) := by
  induction lexemes generalizing offset line broken with
  | nil => trivial
  | cons lexeme rest ih =>
    refine ⟨rfl, ?_⟩
    rw [List.length_append, ← Nat.add_assoc]
    exact ih _ _ _

theorem spelledTokens_placeFrom (lexemes : List Lexeme) (offset line : Nat) (broken : Bool) :
    spelledTokens (placeFrom offset line broken lexemes) = spelled lexemes := by
  conv_rhs => rw [spelled, ← map_placeFrom offset line broken lexemes, List.flatMap_map]
  rfl

/-- A leaf for each of the tokens. -/
theorem rowAt_leaves {kind : Kind} {tokens rest : List Token} (h : TokensAt start (tokens ++ rest)) :
    RowAt start (tokens.map (Node.leaf kind)) ∧ sourceAll (tokens.map (Node.leaf kind)) = spelledTokens tokens ∧
      TokensAt (start + (spelledTokens tokens).length) rest := by
  induction tokens generalizing start with
  | nil => exact ⟨rowAt_nil, rfl, h⟩
  | cons token tokens ih =>
    obtain ⟨hoffset, h⟩ := h
    obtain ⟨hrow, hsource, hrest⟩ := ih h
    have hleaf : (Node.leaf kind token).source = token.blanks ++ token.text :=
      (source_mk _ _).trans (List.append_nil _)
    rw [List.map_cons, rowAt_cons, sourceAll_cons, hleaf, hsource]
    refine ⟨⟨.token hoffset, hrow⟩, rfl, ?_⟩
    rwa [spelledTokens, List.flatMap_cons, List.length_append, ← Nat.add_assoc]

/-- The tokens of the items with their comments. -/
def itemTokens (items : List Item) : List Token := items.flatMap fun item => item.comments ++ [item.token]

theorem itemTokens_itemsFrom (waiting tokens : List Token) :
    itemTokens (itemsFrom waiting tokens).1 ++ (itemsFrom waiting tokens).2 = waiting ++ tokens := by
  induction tokens generalizing waiting with
  | nil => rw [List.append_nil]; rfl
  | cons token rest ih =>
    rw [itemsFrom]
    split
    · rw [ih, List.append_assoc]
      rfl
    · rw [itemTokens, List.flatMap_cons, List.append_assoc, ← itemTokens, ih, List.append_assoc]
      rfl

/-! ## Building -/

/-- All nodes that are built so far, from left to right. -/
def Building.row (building : Building) : List Node :=
  building.around.reverse.flatMap (·.nodes) ++ building.site.nodes

/-- The nodes stand one behind the other in the text, and behind them the tokens of the items and the last
ones. -/
structure Building.Located (text : Text) (last : List Token) (building : Building) : Prop where
  row : RowAt 0 building.row
  tokens : TokensAt (sourceAll building.row).length (itemTokens building.items ++ last)
  text_eq : sourceAll building.row ++ spelledTokens (itemTokens building.items ++ last) = text

namespace Building.Located

variable {building : Building} {last : List Token}

/-- The nodes of the innermost place may be put together, as long as they stay where they are. -/
theorem exchange (h : building.Located text last) {other : Building} {front nodes nodes' : List Node}
    (hrow : building.row = front ++ nodes) (hrow' : other.row = front ++ nodes')
    (hitems : other.items = building.items) (hnodes : ∀ {start}, RowAt start nodes → RowAt start nodes')
    (hsource : sourceAll nodes' = sourceAll nodes) : other.Located text last := by
  have hall : sourceAll other.row = sourceAll building.row := by
    rw [hrow, hrow', sourceAll_append, sourceAll_append, hsource]
  refine ⟨?_, by rw [hall, hitems]; exact h.tokens, by rw [hall, hitems]; exact h.text_eq⟩
  have hbefore := h.row
  rw [hrow, rowAt_append] at hbefore
  rw [hrow', rowAt_append]
  exact ⟨hbefore.1, hnodes hbefore.2⟩

theorem addLeaf (h : building.Located text last) (kind : Kind) : (building.addLeaf kind).Located text last := by
  obtain ⟨site, around, items⟩ := building
  cases items with
  | nil => exact h
  | cons item items =>
    have hrow : (Building.addLeaf ⟨site, around, item :: items⟩ kind).row =
        (Building.mk site around (item :: items)).row ++ item.leaves kind := (List.append_assoc ..).symm
    have htokens : itemTokens (item :: items) ++ last =
        item.comments ++ ([item.token] ++ (itemTokens items ++ last)) := by
      rw [itemTokens, List.flatMap_cons, List.append_assoc, List.append_assoc]
      rfl
    have hbefore := h.tokens
    rw [htokens] at hbefore
    obtain ⟨hcomments, hcommentsText, hbehind⟩ := @rowAt_leaves _ .comment _ _ hbefore
    obtain ⟨htoken, htokenText, hrest⟩ := @rowAt_leaves _ kind _ _ hbehind
    have hleaves : sourceAll (item.leaves kind) = spelledTokens item.comments ++ spelledTokens [item.token] := by
      rw [Item.leaves, sourceAll_append, hcommentsText]
      exact congrArg _ htokenText
    refine ⟨?_, ?_, ?_⟩
    · rw [hrow, rowAt_append, Nat.zero_add, Item.leaves, rowAt_append, hcommentsText]
      exact ⟨h.row, hcomments, htoken⟩
    · rw [hrow, sourceAll_append, hleaves, List.length_append, List.length_append, ← Nat.add_assoc]
      exact hrest
    · rw [← h.text_eq, hrow, sourceAll_append, hleaves, htokens]
      simp only [spelledTokens, List.flatMap_append, List.append_assoc]
      rfl

theorem step (h : building.Located text last) (step : Step) : (building.step step).Located text last := by
  cases step with
  | leaf kind => exact h.addLeaf kind
  | bound kind => exact h.addLeaf .mark
  | begin kind =>
    have hrow : (building.step (.begin kind)).row = building.row ++ [] := by
      simp only [Building.row, Building.step, List.reverse_cons, List.flatMap_append, List.flatMap_singleton]
    exact h.exchange (List.append_nil _).symm hrow rfl id rfl
  | finish =>
    obtain ⟨site, around, items⟩ := building
    cases around with
    | nil => exact h
    | cons outer around =>
      have hrow : (Building.mk site (outer :: around) items).row =
          (around.reverse.flatMap (·.nodes) ++ outer.nodes) ++ site.nodes := by
        simp only [Building.row, List.reverse_cons, List.flatMap_append, List.flatMap_singleton]
      refine h.exchange hrow (List.append_assoc ..).symm rfl ?_ ?_
      · intro start h
        cases hkind : site.kind with
        | none => simpa only [Site.result, hkind] using h
        | some kind => simpa only [Site.result, hkind] using h.enclose kind
      · cases hkind : site.kind with
        | none => simp only [Site.result, hkind]
        | some kind => simpa only [Site.result, hkind] using sourceAll_enclose kind site.nodes
  | fold kind => exact h.exchange rfl rfl rfl (fun h => h.enclose kind) (sourceAll_enclose kind _)
  | role role => exact h.exchange rfl rfl rfl (fun h => h.withFirstRole role) (sourceAll_withFirstRole role _)

theorem run (h : building.Located text last) (steps : List Step) : (building.run steps).Located text last := by
  induction steps generalizing building with
  | nil => exact h
  | cons step steps ih => exact ih (h.step step)

end Building.Located

/-! ## Programs -/

/-- The nodes of a program stand one behind the other, from the beginning of its text to the end. -/
theorem rowAt_programNodes? {markup : Bool} {lexemes : List Lexeme} {nodes : List Node}
    (h : programNodes? markup (place lexemes) = some nodes) :
    RowAt 0 nodes ∧ sourceAll nodes = spelled lexemes := by
  have htokens : itemTokens (items (place lexemes)).1 ++ (items (place lexemes)).2 = place lexemes :=
    itemTokens_itemsFrom [] (place lexemes)
  rw [programNodes?] at h
  cases hitems : items (place lexemes) with | mk row last => ?_
  rw [hitems] at h htokens
  dsimp only at h htokens
  obtain ⟨steps, hsteps, rfl⟩ := Option.map_eq_some_iff.1 h
  have hstart : (Building.mk ⟨none, []⟩ [] row).Located (spelled lexemes) last := by
    refine ⟨rowAt_nil, ?_, ?_⟩ <;> rw [htokens]
    · exact tokensAt_placeFrom lexemes 0 1 false
    · exact spelledTokens_placeFrom lexemes 0 1 false
  have hrun := hstart.run steps
  -- in the end no place is open, and no token is left
  have hderives := (derives_of_program? hsteps).staysIn_of_proper (proper_grammar markup) (by decide)
  obtain ⟨built, hbuilt, -⟩ := hderives.exists_run ⟨none, []⟩ row
  rw [hbuilt, views, length_viewsFrom, List.drop_length] at hrun
  have hbuild : build steps row = built := by rw [build, hbuilt]
  have hrow : (Building.mk ⟨none, built⟩ [] []).row = built := List.nil_append _
  have hlast := hrun.tokens
  rw [hrow] at hlast
  obtain ⟨hcomments, hcommentsText, -⟩ := @rowAt_leaves _ .comment last [] (by rwa [List.append_nil])
  have htext := hrun.text_eq
  have hplaced := hrun.row
  rw [hrow] at htext hplaced
  rw [hbuild, rowAt_append, Nat.zero_add, sourceAll_append, hcommentsText]
  exact ⟨⟨hplaced, hcomments⟩, htext⟩

/-- A node stands for a part of the text that the node around it stands for. -/
theorem Node.LocatedAt.exists_part {node other : Node} (h : node.LocatedAt start) (hother : other ∈ node.preorder) :
    ∃ front back, node.source = front ++ (other.source ++ back) ∧ other.LocatedAt (start + front.length) := by
  induction h with
  | token hoffset =>
    rw [preorder, preorderAll, List.mem_singleton] at hother
    subst hother
    exact ⟨[], [], (List.append_nil _).symm, .token hoffset⟩
  | @branch start label children hblanks htext hoffset hchildren ih =>
    rcases mem_preorder_iff.1 hother with rfl | ⟨child, hchild, hinside⟩
    · exact ⟨[], [], (List.append_nil _).symm, .branch hblanks htext hoffset hchildren⟩
    · obtain ⟨first, second, hsplit⟩ := List.append_of_mem hchild
      obtain rfl : children = first ++ child :: second := hsplit
      obtain ⟨front, back, hsource, hlocated⟩ := ih first child second rfl hinside
      refine ⟨sourceAll first ++ front, back ++ sourceAll second, ?_, ?_⟩
      · rw [source_mk, hblanks, htext, sourceAll_append, sourceAll_cons, hsource]
        simp only [List.nil_append, List.append_assoc]
      · rwa [List.length_append, ← Nat.add_assoc]

/-- A node of a program stands for a part of its text. -/
theorem exists_part_of_mem_preorder {markup : Bool} {text : Text} {nodes : List Node}
    (h : programNodes? markup (place (lexemes markup text)) = some nodes) {node : Node}
    (hnode : node ∈ (Node.branch .program nodes).preorder) :
    ∃ front back, text = front ++ (node.source ++ back) ∧ node.LocatedAt front.length := by
  obtain ⟨hrow, hsource⟩ := rowAt_programNodes? h
  obtain ⟨front, back, hpart, hlocated⟩ := (hrow.branch .program).exists_part hnode
  rw [source_branch, hsource] at hpart
  rw [Nat.zero_add] at hlocated
  exact ⟨front, back, (lexemes_flatten markup text).symm.trans hpart, hlocated⟩

end VerticalSlice.Syntax
