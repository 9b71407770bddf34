import VerticalSlice.Proofs.Syntax.Lexical
import VerticalSlice.Proofs.Syntax.Places

/-!
# Nodes and how their tokens are seen

A rule takes a token for its class or its spelling, and so these decide which leaf a token can become. A
property that the leaves have for that reason (`Preserves`) goes over to all nodes of a program along its derivation
(`forall_of_programNodes?`).
-/

namespace VerticalSlice.Syntax

/-! ## Rules that take tokens of some classes -/

/-- Do only tokens of these classes look like this? -/
def Look.isOf (classes : List TokenClass) : Look → Bool
  | .isSort sort => classes.contains sort
  | .and first second => first.isOf classes || second.isOf classes
  | .or first second => first.isOf classes && second.isOf classes
  | _ => false

theorem Look.sort_mem_of_fits {look : Look} {classes : List TokenClass} (hlook : look.isOf classes = true)
    {view : View} (h : look.fits view = true) : view.sort ∈ classes := by
  induction look with
  | isSort sort =>
    rw [isOf, List.contains_iff_mem] at hlook
    rw [fits, beq_iff_eq] at h
    rwa [h]
  | and first second ih₁ ih₂ =>
    rw [isOf, Bool.or_eq_true] at hlook
    rw [fits, Bool.and_eq_true] at h
    rcases hlook with hlook | hlook
    · exact ih₁ hlook h.1
    · exact ih₂ hlook h.2
  | or first second ih₁ ih₂ =>
    rw [isOf, Bool.and_eq_true] at hlook
    rw [fits, Bool.or_eq_true] at h
    rcases h with h | h
    · exact ih₁ hlook.1 h
    · exact ih₂ hlook.2 h
  | _ => cases hlook

/-! ## All nodes of a tree -/

/-- Every node of the tree has the property. -/
def Node.Every (R : Node → Prop) (node : Node) : Prop := ∀ other ∈ node.preorder, R other

variable {R : Node → Prop}

theorem Node.every_mk {label : Label} {children : List Node} (h : ∀ child ∈ children, child.Every R)
    (hself : R (.mk label children)) : (Node.mk label children).Every R := by
  intro other hother
  rcases mem_preorder_iff.1 hother with rfl | ⟨child, hchild, hother⟩
  · exact hself
  · exact h child hchild other hother

theorem Node.every_token {label : Label} (h : R (.mk label [])) : (Node.mk label []).Every R :=
  every_mk (List.forall_mem_nil _) h

/-- The nodes of an item are comments and a token. -/
theorem Item.every_leaves {item : Item} {kind : Kind} (hcomment : ∀ token, R (Node.leaf .comment token))
    (h : R (Node.leaf kind item.token)) : ∀ node ∈ item.leaves kind, node.Every R := by
  intro node hnode
  rw [Item.leaves, List.mem_append, List.mem_map, List.mem_singleton] at hnode
  rcases hnode with ⟨comment, -, rfl⟩ | rfl
  · exact Node.every_token (hcomment comment)
  · exact Node.every_token h

theorem Node.Every.withRole {node : Node} (h : node.Every R) {role : Role}
    (hrole : R node → R (node.withRole role)) : (node.withRole role).Every R := by
  obtain ⟨label, children⟩ := node
  refine every_mk (fun child hchild other hother => ?_) (hrole (h _ (self_mem_preorder _)))
  exact h other (mem_preorder_iff.2 (.inr ⟨child, hchild, hother⟩))

theorem Node.every_enclose {kind : Kind} (hkind : ∀ label children, label.kind = kind → R (.mk label children))
    {nodes : List Node} (h : ∀ node ∈ nodes, node.Every R) : ∀ node ∈ enclose kind nodes, node.Every R :=
  forall_mem_enclose h (every_mk (fun node hnode => h node (List.dropWhile_subset _ hnode)) (hkind _ _ rfl))

/-! ## Steps -/

variable {P : Node → Prop} {Q : Item → Prop} {test : Rule → Bool}

section

variable {grammar : Grammar} {rule : Rule} {seen more : List View}
  {steps rest : List Step}

/-- What rules see of a token wherever it stands: its class and its spelling. -/
def Token.seenAs (token : Token) : TokenClass × Text := (token.sort, View.signOf token)

/-- The tokens to come are those that are seen. -/
def Building.Shows (building : Building) (seen : List View) : Prop :=
  seen.map (fun view => (view.sort, view.sign)) <+: building.items.map (·.token.seenAs)

/-- Where the tokens are those that are seen, the steps keep what holds of nodes and items. -/
structure Keeps (P : Node → Prop) (Q : Item → Prop) (seen : List View) (steps : List Step) : Prop where
  taken_eq : taken steps = seen.length
  keeps : ∀ building : Building, building.Each P Q → building.Shows seen → (building.run steps).Each P Q

theorem Keeps.append (hfirst : Keeps P Q seen steps) (hsecond : Keeps P Q more rest) :
    Keeps P Q (seen ++ more) (steps ++ rest) where
  taken_eq := by rw [taken_append, List.length_append, hfirst.taken_eq, hsecond.taken_eq]
  keeps building h hshows := by
    rw [Building.Shows, List.map_append] at hshows
    rw [Building.run_append]
    refine hsecond.keeps _ (hfirst.keeps _ h ((List.prefix_append _ _).trans hshows)) ?_
    obtain ⟨behind, hbehind⟩ := hshows
    rw [Building.Shows, Building.items_run, hfirst.taken_eq, List.map_drop, ← hbehind, List.append_assoc,
      ← show (seen.map fun view => (view.sort, view.sign)).length = seen.length from List.length_map _,
      List.drop_left]
    exact List.prefix_append _ _

theorem Keeps.addLeaf {step : Step} {kind : Kind}
    (hstep : ∀ building : Building, building.step step = building.addLeaf kind) (htakes : step.takes = true)
    {view : View} (hleaves : ∀ item, Q item → item.token.seenAs = (view.sort, view.sign) →
      ∀ node ∈ item.leaves kind, P node) : Keeps P Q [view] [step] where
  taken_eq := by rw [taken_cons, htakes]; rfl
  keeps building h hshows := by
    rw [Building.run, List.foldl_cons, List.foldl_nil, hstep]
    refine h.addLeaf fun item hitem => hleaves item (h.items item (List.mem_of_mem_head? hitem)) ?_
    obtain ⟨rest, hitems⟩ := List.head?_eq_some_iff.1 hitem
    rw [Building.Shows, hitems, List.map_cons, List.map_cons, List.cons_prefix_cons] at hshows
    exact hshows.1.symm

theorem Keeps.enclosed (h : Keeps P Q seen steps) (hstays : StaysIn seen steps) {kind : Option Kind}
    (hkind : ∀ k ∈ kind, ∀ nodes : List Node, (∀ node ∈ nodes, P node) → ∀ node ∈ enclose k nodes, P node) :
    Keeps P Q seen (.begin kind :: (steps ++ [.finish])) where
  taken_eq := by
    rw [taken_cons, taken_append, h.taken_eq]
    exact Nat.zero_add _
  keeps := by
    rintro ⟨site, around, items⟩ hbuilding hshows
    have hinside := h.keeps _ (hbuilding.begin kind) hshows
    obtain ⟨nodes, hrun, -⟩ := hstays.exists_run ⟨kind, []⟩ items
    have hstep : (Building.mk site around items).step (.begin kind) =
        ⟨⟨kind, []⟩, site :: around, items⟩ := rfl
    rw [hstep, hrun] at hinside
    rw [Building.run_enclosed, hrun]
    refine hinside.finish ?_
    cases kind with
    | none => exact hinside.site
    | some kind => exact hkind kind rfl nodes hinside.site

/-- What holds of nodes goes over from the tokens to the leaves that the rules of the test make of them, and
from nodes to the node around them. A name around its token is looked at as a whole. -/
structure Preserves (P : Node → Prop) (Q : Item → Prop) (test : Rule → Bool) : Prop where
  comment : ∀ token, P (Node.leaf .comment token)
  mark : ∀ item, Q item → ∀ node ∈ item.leaves .mark, P node
  take : ∀ look kind view item, test (.take look kind) = true → look.fits view = true →
    item.token.seenAs = (view.sort, view.sign) → Q item → ∀ node ∈ item.leaves kind, P node
  group : ∀ kind opening inside closing nodes, test (.group kind opening inside closing) = true →
    (∀ node ∈ nodes, P node) → ∀ node ∈ enclose kind nodes, P node
  node : ∀ (grammar : Grammar) kind rule seen steps, grammar.Proper → test (.node (some kind) rule) = true →
    Derives grammar rule seen steps → StaysIn seen steps → Keeps P Q seen steps →
    Keeps P Q seen (.begin (some kind) :: (steps ++ [.finish]))
  fold : ∀ kind nodes, test (.fold kind) = true → (∀ node ∈ nodes, P node) → ∀ node ∈ enclose kind nodes, P node
  fold_ne : ∀ kind, test (.fold kind) = true → kind ≠ .comment
  role : ∀ node role, P node → P (node.withRole role)

theorem Derives.keeps (hpreserves : Preserves P Q test) (hproper : grammar.Proper)
    (hg : ∀ symbol, (grammar symbol).all test = true) (h : Derives grammar rule seen steps)
    (hrule : rule.all test = true) : Keeps P Q seen steps := by
  have hstays : ∀ {rule seen steps}, Derives grammar rule seen steps → rule.all test = true →
      StaysIn seen steps := fun h hrule => h.staysIn hpreserves.fold_ne hg hrule
  refine h.induction_steps hg (P := Keeps P Q) ⟨rfl, fun _ h _ => h⟩ .append
    (fun _ => .addLeaf (fun _ => rfl) rfl fun item hitem _ => hpreserves.mark item hitem)
    (fun view htake hfits => .addLeaf (fun _ => rfl) rfl fun item hitem hseen =>
      hpreserves.take _ _ view item htake hfits hseen hitem)
    (fun _ _ => .addLeaf (fun _ => rfl) rfl fun item hitem _ => hpreserves.mark item hitem) ?_ ?_ ?_ ?_ hrule
  · intro kind opening closing inside first last seen steps hgroup _ _ hinside hsteps
    rw [Rule.all, Bool.and_eq_true] at hgroup
    refine hsteps.enclosed ?_ fun k hk nodes => ?_
    · exact (staysIn_bound first kind).append ((hstays hinside hgroup.2).append (staysIn_bound last kind))
    · exact Option.some.inj hk ▸ hpreserves.group _ opening inside closing nodes hgroup.1
  · intro kind rule seen steps hnode hinside hsteps
    rw [Rule.all, Bool.and_eq_true] at hnode
    cases kind with
    | none =>
      refine hsteps.enclosed (hstays hinside hnode.2) fun kind hkind => ?_
      cases hkind
    | some kind => exact hpreserves.node _ kind rule _ _ hproper hnode.1 hinside (hstays hinside hnode.2) hsteps
  · exact fun hfold => ⟨rfl, fun building h _ => h.setNodes (hpreserves.fold _ _ hfold h.site)⟩
  · exact fun role => ⟨rfl, fun building h _ => h.setNodes (forall_mem_withFirstRole h.site fun node hnode =>
      hpreserves.role node role hnode)⟩

end

/-! ## Programs -/

theorem map_viewsFrom (apart : Bool) (items : List Item) :
    (viewsFrom apart items).map (fun view => (view.sort, view.sign)) = items.map (·.token.seenAs) := by
  induction items generalizing apart with
  | nil => rfl
  | cons item rest ih => exact congrArg (List.cons item.token.seenAs) (ih _)

theorem forall_of_programNodes? (hpreserves : Preserves P Q test) {markup : Bool}
    (hgrammar : ∀ symbol, (grammar markup symbol).all test = true) (hprogram : Rule.programRule.all test = true)
    {tokens : List Token} {nodes : List Node} (htokens : ∀ item ∈ (items tokens).1, Q item)
    (h : programNodes? markup tokens = some nodes) : ∀ node ∈ nodes, P node := by
  rw [programNodes?] at h
  obtain ⟨steps, hsteps, rfl⟩ := Option.map_eq_some_iff.1 h
  have hkeeps := (derives_of_program? hsteps).keeps hpreserves (proper_grammar markup) hgrammar hprogram
  have hstart : (Building.mk ⟨none, []⟩ [] (items tokens).1).Each P Q := ⟨nofun, nofun, htokens⟩
  have hshows : (Building.mk ⟨none, []⟩ [] (items tokens).1).Shows (views (items tokens).1) := by
    have hseen : (views (items tokens).1).map _ = _ := map_viewsFrom false _
    exact ⟨[], (List.append_nil _).trans hseen⟩
  exact List.forall_mem_append.2 ⟨(hkeeps.keeps _ hstart hshows).site,
    List.forall_mem_map.2 fun comment _ => hpreserves.comment comment⟩

end VerticalSlice.Syntax
