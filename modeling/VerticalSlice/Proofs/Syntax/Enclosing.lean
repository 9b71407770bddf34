import VerticalSlice.Syntax.Build

/-!
# Rows of nodes with comments

Comments in front of the first node that is none stay outside when a node is put around a row, and are
passed over when a role is given. `StartsAt` says where the first node that is no comment stands; nothing
that is added behind changes it, and neither does a node around it.
-/

namespace VerticalSlice.Syntax

/-- In front of the first node that is no comment only comments stand. -/
theorem exists_first_of_all_isComment {nodes : List Node} (h : nodes.all Node.isComment = false) :
    ∃ comments first rest, nodes = comments ++ first :: rest ∧
      comments.all Node.isComment = true ∧ first.isComment = false := by
  induction nodes with
  | nil => cases h
  | cons node nodes ih =>
    cases hnode : node.isComment with
    | false => exact ⟨[], node, nodes, rfl, rfl, hnode⟩
    | true =>
      rw [List.all_cons, hnode, Bool.true_and] at h
      obtain ⟨comments, first, rest, rfl, hcomments, hfirst⟩ := ih h
      exact ⟨node :: comments, first, rest, rfl, by rw [List.all_cons, hnode, hcomments]; rfl, hfirst⟩

theorem takeWhile_of_all {nodes : List Node} (h : nodes.all Node.isComment = true) :
    nodes.takeWhile Node.isComment = nodes := by
  have happend : (nodes ++ []).takeWhile Node.isComment = _ :=
    List.takeWhile_append_of_pos (List.all_eq_true.1 h)
  rwa [List.append_nil, List.takeWhile_nil, List.append_nil] at happend

theorem dropWhile_of_all {nodes : List Node} (h : nodes.all Node.isComment = true) :
    nodes.dropWhile Node.isComment = [] := by
  have happend : (nodes ++ []).dropWhile Node.isComment = _ :=
    List.dropWhile_append_of_pos (List.all_eq_true.1 h)
  rwa [List.append_nil, List.dropWhile_nil] at happend

section

variable {comments : List Node} {first : Node}

theorem takeWhile_isComment (hcomments : comments.all Node.isComment = true)
    (hfirst : first.isComment = false) (rest : List Node) :
    (comments ++ first :: rest).takeWhile Node.isComment = comments := by
  rw [List.takeWhile_append_of_pos (List.all_eq_true.1 hcomments), List.takeWhile_cons, hfirst,
    if_neg Bool.false_ne_true, List.append_nil]

theorem dropWhile_isComment (hcomments : comments.all Node.isComment = true)
    (hfirst : first.isComment = false) (rest : List Node) :
    (comments ++ first :: rest).dropWhile Node.isComment = first :: rest := by
  rw [List.dropWhile_append_of_pos (List.all_eq_true.1 hcomments), List.dropWhile_cons, hfirst,
    if_neg Bool.false_ne_true]

/-- The label of a node around others of which the first has this label. -/
def enclosing (kind : Kind) (first : Label) : Label := ⟨kind, none, first.offset, first.line, [], []⟩

theorem enclose_eq (hcomments : comments.all Node.isComment = true)
    (hfirst : first.isComment = false) (kind : Kind) (rest : List Node) :
    enclose kind (comments ++ first :: rest) =
      comments ++ [.mk (enclosing kind first.label) (first :: rest)] := by
  rw [enclose, takeWhile_isComment hcomments hfirst, dropWhile_isComment hcomments hfirst]
  rfl

theorem withFirstRole_eq (hcomments : comments.all Node.isComment = true)
    (hfirst : first.isComment = false) (role : Role) (rest : List Node) :
    withFirstRole role (comments ++ first :: rest) = comments ++ first.withRole role :: rest := by
  rw [withFirstRole, takeWhile_isComment hcomments hfirst, dropWhile_isComment hcomments hfirst]

/-- Comments in front stay in front when a node is put around what follows. -/
theorem enclose_comments (hcomments : comments.all Node.isComment = true) (kind : Kind)
    (nodes : List Node) : enclose kind (comments ++ nodes) = comments ++ enclose kind nodes := by
  rw [enclose, List.takeWhile_append_of_pos (List.all_eq_true.1 hcomments),
    List.dropWhile_append_of_pos (List.all_eq_true.1 hcomments), List.append_assoc, enclose]

theorem withFirstRole_comments (hcomments : comments.all Node.isComment = true) (role : Role)
    (nodes : List Node) :
    withFirstRole role (comments ++ nodes) = comments ++ withFirstRole role nodes := by
  rw [withFirstRole, List.takeWhile_append_of_pos (List.all_eq_true.1 hcomments),
    List.dropWhile_append_of_pos (List.all_eq_true.1 hcomments), List.append_assoc, withFirstRole]

end

@[simp] theorem Node.isComment_withRole (role : Role) (node : Node) :
    (node.withRole role).isComment = node.isComment := by
  cases node
  rfl

@[simp] theorem Node.offset_withRole (role : Role) (node : Node) :
    (node.withRole role).offset = node.offset := by
  cases node
  rfl

theorem isComment_mk {label : Label} (h : label.kind ≠ .comment) (children : List Node) :
    (Node.mk label children).isComment = false := beq_eq_false_iff_ne.2 h

theorem all_isComment_map_leaf (comments : List Token) :
    (comments.map (Node.leaf .comment)).all Node.isComment = true := by
  rw [List.all_map]
  exact List.all_eq_true.2 fun _ _ => rfl

theorem all_isComment_leaves {kind : Kind} (hkind : kind ≠ .comment) (item : Item) :
    (item.leaves kind).all Node.isComment = false := by
  have hleaf : (Node.leaf kind item.token).isComment = false := isComment_mk hkind []
  rw [Item.leaves, List.all_append, List.all_cons, hleaf, Bool.false_and, Bool.and_false]

theorem all_isComment_enclose {kind : Kind} (hkind : kind ≠ .comment) (nodes : List Node) :
    (enclose kind nodes).all Node.isComment = false := by
  have hbranch : (Node.branch kind (nodes.dropWhile Node.isComment)).isComment = false := isComment_mk hkind _
  rw [enclose, List.all_append, List.all_cons, hbranch, Bool.false_and, Bool.and_false]

/-- Behind these comments comes a node that is none and has this offset. -/
structure StartsAt (comments : List Node) (offset : Nat) (nodes : List Node) : Prop where
  all_comments : comments.all Node.isComment = true
  nodes_eq : ∃ first rest, nodes = comments ++ first :: rest ∧ first.isComment = false ∧
    first.offset = offset

namespace StartsAt

variable {comments nodes : List Node} {offset : Nat}

theorem append (h : StartsAt comments offset nodes) (more : List Node) :
    StartsAt comments offset (nodes ++ more) := by
  obtain ⟨hcomments, first, rest, rfl, hfirst, hoffset⟩ := h
  exact ⟨hcomments, first, rest ++ more, by rw [List.append_assoc, List.cons_append], hfirst, hoffset⟩

theorem enclose (h : StartsAt comments offset nodes) {kind : Kind} (hkind : kind ≠ .comment) :
    StartsAt comments offset (Syntax.enclose kind nodes) := by
  obtain ⟨hcomments, first, rest, rfl, hfirst, hoffset⟩ := h
  rw [enclose_eq hcomments hfirst]
  exact ⟨hcomments, _, [], rfl, isComment_mk hkind _, hoffset⟩

theorem withFirstRole (h : StartsAt comments offset nodes) (role : Role) :
    StartsAt comments offset (Syntax.withFirstRole role nodes) := by
  obtain ⟨hcomments, first, rest, rfl, hfirst, hoffset⟩ := h
  rw [withFirstRole_eq hcomments hfirst]
  refine ⟨hcomments, first.withRole role, rest, rfl, ?_, ?_⟩
  · rw [Node.isComment_withRole, hfirst]
  · rw [Node.offset_withRole, hoffset]

end StartsAt

theorem startsAt_leaves {kind : Kind} (hkind : kind ≠ .comment) (item : Item) :
    StartsAt (item.comments.map (Node.leaf .comment)) item.token.offset (item.leaves kind) :=
  ⟨all_isComment_map_leaf _, _, [], rfl, isComment_mk hkind [], rfl⟩

end VerticalSlice.Syntax
