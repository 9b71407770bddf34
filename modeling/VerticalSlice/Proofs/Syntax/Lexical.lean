import VerticalSlice.Proofs.Syntax.Amount
import VerticalSlice.Proofs.Syntax.Move

/-!
# Names and literals are tokens

In the tree of a program a name, a literal or a comment is one token, perhaps with one node around it, and
only blanks stand in front of tokens (`Node.Lexical`). So what it says does not change when the tree moves
(`Node.Lexical.renames`).
-/

namespace VerticalSlice.Syntax

/-- Names, literals and comments are tokens, and what stands in front of tokens are blanks. -/
inductive Node.Lexical : Node → Prop
  | token {label : Label} (hblanks : label.blanks.all isSpace = true) : Lexical (.mk label [])
  | name {label inside : Label} (hblanks : label.blanks = []) (htext : label.text = [])
    (hinside : inside.blanks.all isSpace = true) : Lexical (.mk label [.mk inside []])
  | branch {label : Label} {children : List Node} (hkind : label.kind.encloses = true)
    (hchildren : ∀ child ∈ children, Lexical child) : Lexical (.mk label children)

/-- The nodes that are built so far have the one property, and the items to come the other. -/
structure Building.Each (P : Node → Prop) (Q : Item → Prop) (building : Building) : Prop where
  site : ∀ node ∈ building.site.nodes, P node
  around : ∀ site ∈ building.around, ∀ node ∈ site.nodes, P node
  items : ∀ item ∈ building.items, Q item

namespace Building.Each

variable {P : Node → Prop} {Q : Item → Prop} {building : Building}

theorem setNodes (h : building.Each P Q) {nodes : List Node} (hnodes : ∀ node ∈ nodes, P node) :
    (building.setNodes nodes).Each P Q :=
  ⟨hnodes, h.around, h.items⟩

theorem addLeaf (h : building.Each P Q) {kind : Kind}
    (hleaves : ∀ item ∈ building.items.head?, ∀ node ∈ item.leaves kind, P node) :
    (building.addLeaf kind).Each P Q := by
  obtain ⟨site, around, items⟩ := building
  cases items with
  | nil => exact h
  | cons item items =>
    refine ⟨?_, h.around, fun other hother => h.items other (List.mem_cons_of_mem _ hother)⟩
    exact List.forall_mem_append.2 ⟨h.site, hleaves item rfl⟩

theorem begin (h : building.Each P Q) (kind : Option Kind) : (building.step (.begin kind)).Each P Q :=
  ⟨nofun, List.forall_mem_cons.2 ⟨h.site, h.around⟩, h.items⟩

theorem finish (h : building.Each P Q) (hresult : ∀ node ∈ building.site.result, P node) :
    (building.step .finish).Each P Q := by
  obtain ⟨site, around, items⟩ := building
  cases around with
  | nil => exact h
  | cons outer around =>
    have haround := List.forall_mem_cons.1 h.around
    exact ⟨List.forall_mem_append.2 ⟨haround.1, hresult⟩, haround.2, h.items⟩

end Building.Each

theorem forall_mem_enclose {P : Node → Prop} {kind : Kind} {nodes : List Node} (h : ∀ node ∈ nodes, P node)
    (hbranch : P (Node.branch kind (nodes.dropWhile Node.isComment))) :
    ∀ node ∈ enclose kind nodes, P node := by
  intro node hnode
  rw [enclose, List.mem_append, List.mem_singleton] at hnode
  rcases hnode with hnode | rfl
  · exact h node (List.takeWhile_subset _ hnode)
  · exact hbranch

theorem forall_mem_withFirstRole {P : Node → Prop} {nodes : List Node} {role : Role}
    (h : ∀ node ∈ nodes, P node) (hrole : ∀ node, P node → P (node.withRole role)) :
    ∀ node ∈ withFirstRole role nodes, P node := by
  have hrest : ∀ node ∈ nodes.dropWhile Node.isComment, P node := fun node hnode =>
    h node (List.dropWhile_subset _ hnode)
  refine List.forall_mem_append.2 ⟨fun node hnode => h node (List.takeWhile_subset _ hnode), ?_⟩
  cases hnodes : nodes.dropWhile Node.isComment with
  | nil => exact nofun
  | cons first rest =>
    rw [hnodes] at hrest
    exact List.forall_mem_cons.2 ⟨hrole first (hrest first (List.mem_cons_self ..)), fun node hnode =>
      hrest node (List.mem_cons_of_mem _ hnode)⟩

/-- Only blanks stand in front of the token and of the comments before it. -/
def Item.Spaced (item : Item) : Prop :=
  (∀ comment ∈ item.comments, comment.blanks.all isSpace = true) ∧ item.token.blanks.all isSpace = true

/-- The nodes are as they are in programs, and so are the tokens to come. -/
abbrev Building.Lexical (building : Building) : Prop := building.Each Node.Lexical Item.Spaced

theorem Item.Spaced.lexical_leaves {item : Item} (h : item.Spaced) (kind : Kind) :
    ∀ node ∈ item.leaves kind, node.Lexical := by
  intro node hnode
  rw [Item.leaves, List.mem_append, List.mem_map, List.mem_singleton] at hnode
  rcases hnode with ⟨comment, hcomment, rfl⟩ | rfl
  · exact .token (h.1 comment hcomment)
  · exact .token h.2

theorem Node.Lexical.withRole {node : Node} (h : node.Lexical) (role : Role) :
    (node.withRole role).Lexical := by
  cases h with
  | token hblanks => exact .token hblanks
  | name hblanks htext hinside => exact .name hblanks htext hinside
  | branch hkind hchildren => exact .branch hkind hchildren

theorem Building.Lexical.addLeaf {building : Building} (h : building.Lexical) (kind : Kind) :
    (building.addLeaf kind).Lexical :=
  Each.addLeaf h fun item hitem => (h.items item (List.mem_of_mem_head? hitem)).lexical_leaves kind

variable {grammar : Grammar} {rule : Rule} {seen : List View} {steps : List Step}

/-- Steps do not put anything into names. -/
def KeepsLexical (steps : List Step) : Prop :=
  ∀ building : Building, building.Lexical → (building.run steps).Lexical

theorem lexical_branch {kind : Kind} (hkind : kind.encloses = true) {nodes : List Node}
    (h : ∀ node ∈ nodes, node.Lexical) : ∀ node ∈ enclose kind nodes, node.Lexical :=
  forall_mem_enclose h (.branch hkind fun node hnode => h node (List.dropWhile_subset _ hnode))

theorem KeepsLexical.enclosed (h : KeepsLexical steps) (hstays : StaysIn seen steps) {kind : Option Kind}
    (hkind : ∀ k ∈ kind, k.encloses = true) : KeepsLexical (.begin kind :: (steps ++ [.finish])) := by
  rintro ⟨site, around, items⟩ hbuilding
  have hinside := h _ (hbuilding.begin kind)
  obtain ⟨nodes, hrun, -⟩ := hstays.exists_run ⟨kind, []⟩ items
  have hstep : (Building.mk site around items).step (.begin kind) =
      ⟨⟨kind, []⟩, site :: around, items⟩ := rfl
  rw [hstep, hrun] at hinside
  rw [Building.run_enclosed, hrun]
  refine hinside.finish ?_
  cases kind with
  | none => exact hinside.site
  | some kind => exact lexical_branch (hkind kind rfl) hinside.site

/-- A name with one token in it. -/
theorem keepsLexical_name (kind inside : Kind) :
    KeepsLexical [.begin (some kind), .leaf inside, .finish] := by
  rintro ⟨site, around, items⟩ h
  have hbegun := Building.Lexical.addLeaf (h.begin (some kind)) inside
  refine hbegun.finish ?_
  cases items with
  | nil => exact forall_mem_enclose nofun (.token rfl)
  | cons item items =>
    refine forall_mem_enclose hbegun.site ?_
    have hitem := h.items item (List.mem_cons_self ..)
    show (Node.branch kind (List.dropWhile Node.isComment (item.comments.map (Node.leaf .comment) ++
      [Node.leaf inside item.token]))).Lexical
    cases hleaf : (Node.leaf inside item.token).isComment with
    | true =>
      rw [dropWhile_of_all (by rw [List.all_append, all_isComment_map_leaf, List.all_cons, hleaf]; rfl)]
      exact .token rfl
    | false =>
      rw [dropWhile_isComment (all_isComment_map_leaf _) hleaf]
      exact .name rfl rfl hitem.2

theorem Derives.keepsLexical (hg : grammar.Proper) (h : Derives grammar rule seen steps)
    (hrule : rule.all Rule.isProper = true) : KeepsLexical steps := by
  refine h.induction_steps hg.proper (P := fun _ steps => KeepsLexical steps) (fun _ h => h)
    (fun hfirst hsecond building h => ?_) (fun _ _ h => h.addLeaf _) (fun _ _ _ _ h => h.addLeaf _)
    (fun _ _ _ h => h.addLeaf _) ?_ ?_ ?_ ?_ hrule
  · rw [Building.run_append]
    exact hsecond _ (hfirst _ h)
  · intro kind opening closing inside first last seen steps hgroup _ _ hinside hsteps
    rw [Rule.all, Bool.and_eq_true, Rule.isProper, Bool.and_eq_true, Bool.and_eq_true] at hgroup
    have hstays := (staysIn_bound first kind).append
      ((hinside.staysIn_of_proper hg hgroup.2).append (staysIn_bound last kind))
    exact hsteps.enclosed hstays fun k hk => Option.some.inj hk ▸ hgroup.1.1.1
  · intro kind rule seen steps hnode hinside hsteps
    rw [Rule.all, Bool.and_eq_true] at hnode
    have hstays := hinside.staysIn_of_proper hg hnode.2
    cases kind with
    | none => exact hsteps.enclosed hstays fun k hk => absurd hk (Option.not_mem_none k)
    | some kind =>
      rw [Rule.isProper, Bool.and_eq_true, Bool.and_eq_true] at hnode
      obtain ⟨⟨⟨hcomment, -⟩, htoken⟩, -⟩ := hnode
      cases hname : kind.isName with
      | false =>
        refine hsteps.enclosed hstays fun k hk => ?_
        rw [← Option.some.inj hk, Kind.encloses, hcomment, hname]
        rfl
      | true =>
        rw [hname] at htoken
        cases hinside with
        | take inside => exact keepsLexical_name kind inside
        | _ => cases htoken
  · intro kind hfold building h
    rw [Rule.isProper, Bool.and_eq_true] at hfold
    exact h.setNodes (lexical_branch hfold.1 h.site)
  · intro role building h
    exact h.setNodes (forall_mem_withFirstRole h.site fun node hnode => hnode.withRole role)

/-- The nodes of a program. -/
theorem lexical_build {markup : Bool} {items : List Item} {steps : List Step}
    (h : program? markup (views items) = some steps)
    (hitems : ∀ item ∈ items, item.Spaced) : ∀ node ∈ build steps items, node.Lexical := by
  have hproper : Rule.programRule.all Rule.isProper = true := by decide
  have hkeeps := (derives_of_program? h).keepsLexical (proper_grammar markup) hproper
  exact (hkeeps ⟨⟨none, []⟩, [], items⟩ ⟨nofun, nofun, hitems⟩).site

/-! ## Texts of names -/

namespace Node.Lexical

/-- What is in a node is as it is in programs. -/
theorem of_mem_preorder {node other : Node} (h : node.Lexical) (hother : other ∈ node.preorder) :
    other.Lexical := by
  induction h with
  | token hblanks =>
    rw [preorder, preorderAll, List.mem_singleton] at hother
    subst hother
    exact .token hblanks
  | @name label inside hblanks htext hinside =>
    simp only [preorder, preorderAll, List.append_nil, List.mem_cons, List.not_mem_nil, or_false] at hother
    rcases hother with rfl | rfl
    · exact .name hblanks htext hinside
    · exact .token hinside
  | branch hkind hchildren ih =>
    rcases mem_preorder_iff.1 hother with rfl | ⟨child, hchild, hother⟩
    · exact .branch hkind hchildren
    · exact ih child hchild hother

/-- Blanks in front of a token do not count. -/
theorem dropWhile_blanks {blanks : Text} (h : blanks.all isSpace = true) (text : Text) :
    (blanks ++ text).dropWhile isSpace = text.dropWhile isSpace :=
  List.dropWhile_append_of_pos (List.all_eq_true.1 h)

theorem text_token (label : Label) :
    (Node.mk label []).text = (label.blanks ++ label.text).dropWhile isSpace := by
  simp [text, source, walk_eq_preorder, preorder, preorderAll, Node.label]

theorem text_name {label inside : Label} (hblanks : label.blanks = []) (htext : label.text = []) :
    (Node.mk label [.mk inside []]).text = (inside.blanks ++ inside.text).dropWhile isSpace := by
  simp [text, source, walk_eq_preorder, preorder, preorderAll, Node.label, hblanks, htext]

variable {node : Node} {move : Move}

/-- A name that moves says the same. -/
theorem text_move (h : node.Lexical) (hmove : move.blanks.all isSpace = true)
    (hname : node.kind.isName = true) : (move.node node).text = node.text := by
  cases h with
  | @token label hblanks =>
    rw [Move.node, relabel, relabelEach, text_token, text_token, dropWhile_blanks hblanks,
      dropWhile_blanks (move.all_isSpace_label hmove hblanks), move.text_label]
  | @name label inside hblanks htext hinside =>
    rw [Move.node, relabel, relabelEach, relabelEach, relabel, relabelEach,
      text_name (by rw [move.blanks_label htext, hblanks]) (by rw [move.text_label, htext]),
      text_name hblanks htext, dropWhile_blanks hinside,
      dropWhile_blanks (move.all_isSpace_label hmove hinside), move.text_label]
  | @branch label children hkind hchildren =>
    have hplain : label.kind.isName = true := hname
    rw [Kind.encloses, hplain, Bool.not_true, Bool.and_false] at hkind
    cases hkind

/-- In a tree that moves all names say the same. -/
theorem renames (h : node.Lexical) (hmove : move.blanks.all isSpace = true) :
    Relabels move.label id node where
  kind_eq := move.kind_label
  role_eq label := by rw [Move.label]; split <;> rfl
  text_eq other hother hname := (h.of_mem_preorder hother).text_move hmove hname
  inner_eq _ _ _ := rfl
  key_eq _ _ _ _ _ _ := rfl

end Node.Lexical

end VerticalSlice.Syntax
