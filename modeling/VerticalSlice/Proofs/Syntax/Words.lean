import Mathlib.Data.List.TakeWhile
import VerticalSlice.Proofs.Syntax.Classes

/-!
# Names are words

An identifier in a tree is one word of its text, and words are cut from characters that may stand in names. A mark
or a blank is none of them (`EndsNames.notMem_of_word`), and neither is a line break. So the name of an exported
array stands on one line (`inline_of_mem_exportedArrays`), also where the tree is that of a text that had to be
repaired.
-/

namespace VerticalSlice.Syntax

/-! ## Rules that take words -/

/-- Is an identifier that the rule builds one word? Comments are not built by rules at all. -/
def Rule.namesWords : Rule → Bool
  | .take look kind => kind != .identifier || look.isOf [.word]
  | .node (some .identifier) (.take look _) => look.isOf [.word]
  | .node (some kind) _ | .group kind _ _ _ => kind != .identifier
  | .fold kind => kind != .identifier && kind != .comment
  | _ => true

theorem namesWords_grammar (markup : Bool) (symbol : Symbol) :
    (grammar markup symbol).all Rule.namesWords = true := by
  cases symbol <;> cases markup <;> decide

/-! ## Nodes -/

/-- Every identifier in the tree stands on one line. -/
def Node.Inline (node : Node) : Prop :=
  ∀ other ∈ node.preorder, other.kind = .identifier → '\n' ∉ other.text

/-- Blanks stand in front of the token, and if it is a word it stands on one line. -/
def Token.Plain (token : Token) : Prop :=
  token.blanks.all isSpace = true ∧ (token.sort = .word → '\n' ∉ token.text)

def Item.Plain (item : Item) : Prop := item.token.Plain

theorem Node.inline_branch {kind : Kind} (hkind : kind ≠ .identifier) {nodes : List Node}
    (h : ∀ node ∈ nodes, node.Inline) : ∀ node ∈ enclose kind nodes, node.Inline :=
  every_enclose (fun _ _ hlabel heq => absurd (hlabel.symm.trans heq) hkind) h

theorem Node.Inline.withRole {node : Node} (h : node.Inline) (role : Role) :
    (node.withRole role).Inline := by
  refine Every.withRole h fun hself => ?_
  obtain ⟨label, children⟩ := node
  have htext : ((Node.mk label children).withRole role).text = (Node.mk label children).text := by
    simp only [text, source, Node.withRole, walk_eq_preorder, preorder, List.flatMap_cons]
    rfl
  rw [htext]
  exact hself

/-- A line break in a token behind blanks is one of the token. -/
theorem notMem_dropWhile {blanks text : Text} (hblanks : blanks.all isSpace = true) (htext : '\n' ∉ text) :
    '\n' ∉ (blanks ++ text).dropWhile isSpace := by
  rw [Node.Lexical.dropWhile_blanks hblanks]
  exact fun hmem => htext (List.dropWhile_subset _ hmem)

theorem Item.inline_leaves {item : Item} (h : item.Plain) {kind : Kind}
    (hkind : kind = .identifier → item.token.sort = .word) : ∀ node ∈ item.leaves kind, node.Inline := by
  refine Item.every_leaves (fun comment hother => ?_) fun hidentifier => ?_
  · cases hother
  · rw [Node.leaf, Node.Lexical.text_token]
    exact notMem_dropWhile h.1 (h.2 (hkind hidentifier))

/-! ## Steps -/

/-- An identifier with one word in it. -/
theorem keepsInline_name {inside : Kind} {view : View} (hview : view.sort = .word) :
    Keeps Node.Inline Item.Plain [view] [.begin (some .identifier), .leaf inside, .finish] where
  taken_eq := rfl
  keeps := by
    rintro ⟨site, around, items⟩ h hshows
    cases items with
    | nil => exact absurd hshows.length_le (by simp)
    | cons item items =>
      have hitem := h.items item (List.mem_cons_self ..)
      have hword : item.token.sort = .word := by
        rw [Building.Shows, List.map_cons, List.map_cons, List.cons_prefix_cons] at hshows
        exact (Prod.mk.inj hshows.1).1.symm.trans hview
      have hleaves : ∀ node ∈ item.leaves inside, node.Inline := Item.inline_leaves hitem fun _ => hword
      have hbegun : ((Building.mk site around (item :: items)).run
          [.begin (some .identifier), .leaf inside]).Each Node.Inline Item.Plain :=
        (h.begin _).addLeaf fun other hother => Option.some.inj hother ▸ hleaves
      refine hbegun.finish (forall_mem_enclose hleaves ?_)
      show Node.Inline (Node.branch .identifier (List.dropWhile Node.isComment
        (item.comments.map (Node.leaf .comment) ++ [Node.leaf inside item.token])))
      cases hleaf : (Node.leaf inside item.token).isComment with
      | true =>
        rw [dropWhile_of_all (by rw [List.all_append, all_isComment_map_leaf, List.all_cons, hleaf]; rfl)]
        refine Node.every_token fun _ => ?_
        rw [Node.Lexical.text_token]
        exact List.not_mem_nil
      | false =>
        rw [dropWhile_isComment (all_isComment_map_leaf _) hleaf]
        refine Node.every_mk (fun child hchild => ?_) fun _ => ?_
        · exact hleaves child (List.mem_append_right _ hchild)
        · rw [Node.leaf, Node.Lexical.text_name rfl rfl]
          exact notMem_dropWhile hitem.1 (hitem.2 hword)

theorem preserves_inline : Preserves Node.Inline Item.Plain Rule.namesWords where
  comment _ := Node.every_token nofun
  mark item h := Item.inline_leaves h nofun
  take look kind view item htake hfits hseen h := by
    rw [Rule.namesWords, Bool.or_eq_true, bne_iff_ne] at htake
    refine Item.inline_leaves h fun hkind => ?_
    have hword := Look.sort_mem_of_fits (htake.resolve_left fun hne => hne hkind) hfits
    exact (Prod.mk.inj hseen).1.trans (List.mem_singleton.1 hword)
  group kind opening inside closing nodes hgroup h := Node.inline_branch (bne_iff_ne.1 hgroup) h
  node grammar kind rule seen steps _ hnode hinside hstays hsteps := by
    by_cases hkind : kind = .identifier
    · subst hkind
      cases hinside with
      | take inside hlook _ => exact keepsInline_name (List.mem_singleton.1 (Look.sort_mem_of_fits hnode hlook))
      | _ => exact absurd hnode (by simp [Rule.namesWords])
    · refine hsteps.enclosed hstays fun k hk nodes => Node.inline_branch ?_
      exact Option.some.inj hk ▸ hkind
  fold kind nodes hfold h := by
    rw [Rule.namesWords, Bool.and_eq_true, bne_iff_ne] at hfold
    exact Node.inline_branch hfold.1 h
  fold_ne kind hfold := by
    rw [Rule.namesWords, Bool.and_eq_true, bne_iff_ne, bne_iff_ne] at hfold
    exact hfold.2
  role node role h := h.withRole role

/-! ## Words of a text -/

/-- The character stands in no name, and neither in an escape of a name nor between the parts of one in a tag. -/
structure EndsNames (c : Char) : Prop where
  notName : isNameChar c = false
  notSpelled : c ∉ ['\\', '\x7b', '\x7d', '-']

section

variable {c : Char}

theorem endsNames_lineFeed : EndsNames '\n' := ⟨by decide, by decide⟩

theorem EndsNames.isAlphanum_eq (hc : EndsNames c) : c.isAlphanum = false := by
  have hname := hc.notName
  rw [isNameChar] at hname
  simp only [Bool.or_eq_false_iff] at hname
  exact hname.1.1.1

theorem notMem_takeWhile {p : Char → Bool} (hp : p c = false) (text : Text) : c ∉ text.takeWhile p := fun hmem => by
  rw [List.mem_takeWhile_imp hmem] at hp
  cases hp

theorem EndsNames.notMem_escape (hc : EndsNames c) (text : Text) : c ∉ text.take (nameEscapeLength text) := by
  have hspelled := hc.notSpelled
  simp only [List.mem_cons, List.not_mem_nil, or_false, not_or] at hspelled
  obtain ⟨hbackslash, hopen, hclose, -⟩ := hspelled
  have hletter : c ≠ 'u' := by
    rintro rfl
    cases hc.isAlphanum_eq
  unfold nameEscapeLength
  split
  · next rest =>
    dsimp only
    split
    · next hbrace =>
      have htake : rest.take ((rest.takeWhile Char.isAlphanum).length + 1) =
          rest.takeWhile Char.isAlphanum ++ ['\x7d'] := by
        obtain ⟨behind, hbehind⟩ := List.head?_eq_some_iff.1 hbrace
        rw [List.take_add, hbehind, ← List.prefix_iff_eq_take.1 (List.takeWhile_prefix _)]
        rfl
      rw [List.take_succ_cons, List.take_succ_cons, List.take_succ_cons, htake]
      simpa [hbackslash, hletter, hopen, hclose] using notMem_takeWhile hc.isAlphanum_eq rest
    · exact List.not_mem_nil
  · next rest _ =>
    split
    · next hdigits =>
      rw [Bool.and_eq_true, List.all_eq_true] at hdigits
      have hrest : c ∉ rest.take 4 := fun hmem => by
        have hdigit := hdigits.1 _ hmem
        rw [hc.isAlphanum_eq] at hdigit
        cases hdigit
      simpa [hbackslash, hletter] using hrest
    · exact List.not_mem_nil
  · exact List.not_mem_nil

theorem EndsNames.notMem_nameFrom (hc : EndsNames c) {skip : Nat} {text : Text} (h : c ∉ text.take skip) :
    c ∉ text.take (nameLengthFrom skip text) := by
  fun_induction nameLengthFrom skip text with
  | case1 => exact List.not_mem_nil
  | case2 d rest skip ih =>
    rw [List.take_succ_cons, List.mem_cons, not_or] at h ⊢
    exact ⟨h.1, ih h.2⟩
  | case3 d rest hname ih =>
    rw [List.take_succ_cons, List.mem_cons, not_or]
    refine ⟨?_, ih List.not_mem_nil⟩
    rintro rfl
    rw [hc.notName] at hname
    cases hname
  | case4 => exact List.not_mem_nil
  | case5 d rest hname length hlength ih =>
    have hescape := hc.notMem_escape (d :: rest)
    rw [hlength, List.take_succ_cons, List.mem_cons, not_or] at hescape
    rw [List.take_succ_cons, List.mem_cons, not_or]
    exact ⟨hescape.1, ih hescape.2⟩

/-- If a word is cut from the text, it is not empty, and the character is not in it. -/
def Cut.Lacks (c : Char) (text : Text) (piece : Cut) : Prop :=
  piece.1 = .word → 0 < piece.2.1 ∧ c ∉ text.take piece.2.1

theorem EndsNames.lacks_cutBegunWith (hc : EndsNames c) (markup : Bool) (state : LexState) (first : Char)
    (rest : Text) : (cutBegunWith markup state first rest).Lacks c (first :: rest) := by
  unfold cutBegunWith
  split
  · split <;> exact nofun
  · split
    · exact nofun
    · split
      · next hname => exact fun _ => ⟨hname, hc.notMem_nameFrom List.not_mem_nil⟩
      · split
        · exact nofun
        · split <;> exact nofun

theorem EndsNames.lacks_cutCode (hc : EndsNames c) (markup : Bool) (state : LexState) (text : Text) :
    (cutCode markup state text).Lacks c text := by
  unfold cutCode
  split
  · exact nofun
  · exact nofun
  · exact nofun
  · split <;> exact nofun
  · exact nofun
  · exact hc.lacks_cutBegunWith markup state _ _
  · exact nofun

theorem lacks_cutTemplate (state : LexState) (text : Text) : (cutTemplate state text).Lacks c text := by
  unfold cutTemplate
  split
  · split <;> exact nofun
  · exact nofun

theorem lacks_cutContents (state : LexState) (text : Text) : (cutContents state text).Lacks c text := by
  unfold cutContents
  split
  · split <;> exact nofun
  · exact nofun

theorem EndsNames.lacks_cutTag (hc : EndsNames c) (state : LexState) (closing : Bool) (text : Text) :
    (cutTag state closing text).Lacks c text := by
  unfold cutTag
  dsimp only
  split
  · exact nofun
  · exact nofun
  · split <;> exact nofun
  · exact nofun
  · next first rest _ _ _ _ =>
    split
    · split <;> exact nofun
    · split
      · exact nofun
      · next hlength =>
        have hdash : c ≠ '-' := fun h => hc.notSpelled (by simp [h])
        refine fun _ => ⟨Nat.pos_of_ne_zero hlength, ?_⟩
        rw [← List.prefix_iff_eq_take.1 (List.takeWhile_prefix _)]
        exact notMem_takeWhile (by simp [hc.notName, hdash]) _
  · exact nofun

theorem EndsNames.lacks_cut (hc : EndsNames c) (markup : Bool) (state : LexState) (text : Text) :
    (cut markup state text).Lacks c text := by
  unfold cut
  split
  · exact lacks_cutTemplate state text
  · exact lacks_cutContents state text
  · exact hc.lacks_cutTag state _ text
  · exact hc.lacks_cutCode markup state text

/-- No such character is in a word. -/
theorem EndsNames.notMem_of_word (hc : EndsNames c) {markup : Bool} {state : LexState} {text : Text} {lexeme : Lexeme}
    (h : lexeme ∈ lexemesFrom markup state text) (hsort : lexeme.sort = .word) : c ∉ lexeme.text := by
  fun_induction lexemesFrom markup state text with
  | case1 => cases h
  | case2 state text blanks =>
    rw [List.mem_singleton] at h
    subst h
    cases hsort
  | case3 state text blanks first rest _ sort length after hcut _ ih =>
    rcases List.mem_cons.1 h with rfl | hrest
    · have hlacks := hc.lacks_cut markup state (first :: rest)
      rw [hcut] at hlacks
      obtain ⟨hlength, htext⟩ := hlacks hsort
      rwa [← Nat.sub_add_cancel hlength, List.take_succ_cons] at htext
    · exact ih hrest

end

theorem plain_of_mem_tokens {markup : Bool} {text : Text} {token : Token}
    (h : token ∈ SyntaxTree.tokens markup text) : token.Plain := by
  have hlexeme := List.mem_map_of_mem (f := fun t => Lexeme.mk t.sort t.blanks t.text) h
  rw [SyntaxTree.tokens, place, map_placeFrom] at hlexeme
  exact ⟨(isCut_of_mem_lexemesFrom hlexeme).1, endsNames_lineFeed.notMem_of_word hlexeme⟩

/-! ## The tree of a text -/

theorem inline_of_programNodes? {markup : Bool} {tokens : List Token} {nodes : List Node}
    (htokens : ∀ token ∈ tokens, token.Plain) (h : programNodes? markup tokens = some nodes) :
    ∀ node ∈ nodes, node.Inline :=
  forall_of_programNodes? preserves_inline (namesWords_grammar markup) (by decide)
    (fun _ hitem => htokens _ (mem_of_mem_items hitem).1) h

theorem plain_of_mem_passOverClosing {tokens : List Token} (h : ∀ token ∈ tokens, token.Plain)
    (depth : Nat) : ∀ token ∈ passOverClosing depth tokens, token.Plain := by
  fun_induction passOverClosing depth tokens with
  | case1 => exact nofun
  | case2 depth token rest hopens ih | case4 token rest hopens hcloses depth ih
  | case5 depth token rest hopens hcloses ih =>
    rw [List.forall_mem_cons] at h ⊢
    exact ⟨h.1, ih h.2⟩
  | case3 token rest hopens hcloses =>
    rw [List.forall_mem_cons] at h ⊢
    exact ⟨⟨h.1.1, nofun⟩, h.2⟩

theorem plain_of_mem_withoutBraces {tokens : List Token} (h : ∀ token ∈ tokens, token.Plain)
    (behindComma : Bool) {others : List Token} (hothers : others ∈ withoutBraces behindComma tokens) :
    ∀ token ∈ others, token.Plain := by
  induction tokens generalizing behindComma others with
  | nil => cases hothers
  | cons token rest ih =>
    rw [List.forall_mem_cons] at h
    have hlater : others ∈ (withoutBraces (if token.isComment then behindComma else token.is ",") rest).map
        (token :: ·) → ∀ token ∈ others, token.Plain := by
      intro hmem
      obtain ⟨more, hmore, rfl⟩ := List.mem_map.1 hmem
      exact List.forall_mem_cons.2 ⟨h.1, ih h.2 _ hmore⟩
    rw [withoutBraces] at hothers
    split at hothers
    · rcases List.mem_cons.1 hothers with rfl | hmem
      · exact List.forall_mem_cons.2 ⟨⟨h.1.1, nofun⟩, plain_of_mem_passOverClosing h.2 0⟩
      · exact hlater hmem
    · exact hlater hothers

theorem inline_looseLeaf {token : Token} (h : token.Plain) : (looseLeaf token).Inline := by
  have hleaf : ∀ kind, (kind = .identifier → token.sort = .word) → (Node.leaf kind token).Inline :=
    fun kind hkind => @Item.inline_leaves ⟨[], token⟩ h kind hkind _ (List.mem_singleton_self _)
  unfold looseLeaf
  split
  · next hword =>
    split <;> exact hleaf _ fun _ => hword
  all_goals exact hleaf _ nofun

theorem inline_ofText (text extension : Text) : (SyntaxTree.ofText text extension).root.Inline := by
  have htokens : ∀ markup, ∀ token ∈ SyntaxTree.tokens markup text, token.Plain := fun _ _ h =>
    plain_of_mem_tokens h
  have hbranch : ∀ nodes : List Node, (∀ node ∈ nodes, node.Inline) → (Node.branch .program nodes).Inline :=
    fun nodes h => Node.every_mk h nofun
  rw [SyntaxTree.ofText, SyntaxTree.ofTokens]
  split
  · next nodes hnodes => exact hbranch nodes (inline_of_programNodes? (htokens _) hnodes)
  · refine hbranch _ ?_
    rw [repaired]
    cases hfound : (withoutBraces false _).findSome? (programNodes? _) with
    | none => exact List.forall_mem_map.2 fun token htoken => inline_looseLeaf (htokens _ token htoken)
    | some nodes =>
      obtain ⟨others, hothers, hnodes⟩ := List.exists_of_findSome?_eq_some hfound
      exact inline_of_programNodes? (plain_of_mem_withoutBraces (htokens _) false hothers) hnodes

/-- The name of an array that a variable is bound to is an identifier of the variable. -/
theorem exists_name_of_boundArray? {declarator : Node} {exported : ExportedArray}
    (h : declarator.boundArray? = some exported) :
    ∃ name ∈ declarator.children, name.kind = .identifier ∧ exported.name = name.text := by
  unfold Node.boundArray? at h
  obtain ⟨name, hname, h⟩ := Option.bind_eq_some_iff.1 h
  obtain ⟨value, hvalue, h⟩ := Option.bind_eq_some_iff.1 h
  split at h
  · next hkinds =>
    rw [Bool.and_eq_true, Bool.and_eq_true, decide_eq_true_eq, decide_eq_true_eq] at hkinds
    obtain rfl := Option.some.inj h
    exact ⟨name, Node.mem_children_of_child? hname, hkinds.1.2, rfl⟩
  · cases h

/-- The name of an exported array is an identifier of the tree. -/
theorem exists_name_of_mem_exportedArrays {root : Node} {exported : ExportedArray}
    (h : exported ∈ root.exportedArrays) :
    ∃ name ∈ root.preorder, name.kind = .identifier ∧ exported.name = name.text := by
  obtain ⟨node, hnode, h⟩ := List.mem_flatMap.1 h
  rw [Node.walk_eq_preorder] at hnode
  unfold Node.arraysOfExport at h
  split at h
  · split at h
    · next declaration hdeclaration =>
      split at h
      · obtain ⟨declarator, hdeclarator, hbound⟩ := List.mem_filterMap.1 h
        obtain ⟨name, hname, hfound⟩ := exists_name_of_boundArray? hbound
        refine ⟨name, Node.mem_preorder_of_mem_children hname (Node.mem_preorder_of_mem_children
          (Node.mem_children_of_mem_namedChildren hdeclarator) (Node.mem_preorder_of_mem_children
            (Node.mem_children_of_child? hdeclaration) hnode)), hfound⟩
      · cases h
    · cases h
  · cases h

/-- The name of an exported array stands on one line. -/
theorem inline_of_mem_exportedArrays {text extension : Text} {exported : ExportedArray}
    (h : exported ∈ (SyntaxTree.ofText text extension).root.exportedArrays) : '\n' ∉ exported.name := by
  obtain ⟨name, hname, hkind, heq⟩ := exists_name_of_mem_exportedArrays h
  rw [heq]
  exact inline_ofText text extension name hname hkind

end VerticalSlice.Syntax
