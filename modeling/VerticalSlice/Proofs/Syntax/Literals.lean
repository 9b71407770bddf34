import VerticalSlice.Proofs.Syntax.Front
import VerticalSlice.Proofs.Syntax.Located
import VerticalSlice.Proofs.Syntax.Words

/-!
# How literals are spelled

In code a quoted literal begins with its quote and ends where that quote comes first without a backslash; the word
`string` counts as a literal, too, and has no quotes at all (`SpellsLiteral`). So what stands in the text between
a quote and the next one decides what the literal there says (`stringValue?_of_offset`).
-/

namespace VerticalSlice.Syntax

abbrev IsQuote (c : Char) : Prop := c = '"' ∨ c = '\''

/-- If the text begins with a quote, the first quote that closes it is the last character. -/
def EndsQuote (text : Text) : Prop := ∀ quote body, text = quote :: body → IsQuote quote →
  quotedLength? quote false false body = some body.length

/-- The character stands for itself between these quotes. -/
def IsPlainIn (quote c : Char) : Prop := c ≠ quote ∧ c ≠ '\\' ∧ c ≠ '\n'

theorem quotedLength?_le {quote : Char} {multiline escaped : Bool} {text : Text} {length : Nat}
    (h : quotedLength? quote multiline escaped text = some length) : length ≤ text.length := by
  induction text generalizing escaped length with
  | nil => cases h
  | cons c rest ih =>
    have hrest : ∀ {escaped}, (quotedLength? quote multiline escaped rest).map (· + 1) = some length →
        length ≤ rest.length + 1 := by
      intro escaped h
      obtain ⟨inside, hinside, rfl⟩ := Option.map_eq_some_iff.1 h
      exact Nat.succ_le_succ (ih hinside)
    rw [quotedLength?] at h
    rw [List.length_cons]
    split at h
    · exact hrest h
    · split at h
      · rw [← Option.some.inj h]
        exact Nat.le_add_left 1 _
      · split at h
        · exact hrest h
        · split at h
          · cases h
          · exact hrest h

/-- Without quotes, backslashes and line breaks the inside of a literal goes on to its closing quote. -/
theorem quotedLength?_plain {quote : Char} {inside : Text} (h : ∀ c ∈ inside, IsPlainIn quote c) (rest : Text) :
    quotedLength? quote false false (inside ++ quote :: rest) = some (inside.length + 1) := by
  induction inside with
  | nil => rw [List.nil_append, quotedLength?, if_neg Bool.false_ne_true, if_pos rfl]; rfl
  | cons c inside ih =>
    rw [List.forall_mem_cons] at h
    obtain ⟨⟨hquote, hbackslash, hbreak⟩, h⟩ := h
    rw [List.cons_append, quotedLength?, if_neg Bool.false_ne_true, if_neg hquote, if_neg hbackslash, ih h]
    simp [hbreak]

/-- What begins like a literal of plain characters and ends where its quote ends is that literal. -/
theorem EndsQuote.eq_of_append {text behind inside rest : Text} {quote : Char} (h : EndsQuote text)
    (hne : text ≠ []) (hquote : IsQuote quote) (hinside : ∀ c ∈ inside, IsPlainIn quote c)
    (heq : text ++ behind = quote :: (inside ++ quote :: rest)) : text = quote :: (inside ++ [quote]) := by
  obtain ⟨first, body, rfl⟩ := List.exists_cons_of_ne_nil hne
  obtain ⟨rfl, heq⟩ := List.cons.inj heq
  have hlength : quotedLength? first false false (body ++ behind) = some body.length := by
    have hclosed := @quotedLength?_append_of_some [] behind first false body false body.length
    rw [List.append_nil] at hclosed
    exact hclosed (h first body rfl hquote) (Nat.le_refl _)
  rw [show body ++ behind = inside ++ first :: rest from heq, quotedLength?_plain hinside] at hlength
  have hsplit : body ++ behind = (inside ++ [first]) ++ rest := by
    rw [List.append_assoc]
    exact heq
  have hbody := (List.append_inj hsplit (by rw [List.length_append]; exact (Option.some.inj hlength).symm)).1
  rw [hbody]

/-! ## Lexemes -/

/-- The classes of tokens that become literals; the word `string` counts as one, too. -/
def literalClasses : List TokenClass := [.string, .word]

/-- A literal is spelled like this: from a quote to the one that closes it, or as a word. -/
inductive SpellsLiteral : Text → Prop
  | quoted {quote : Char} {body : Text} (hquote : IsQuote quote)
    (hends : quotedLength? quote false false body = some body.length) : SpellsLiteral (quote :: body)
  | word {text : Text} (hword : ∀ c, EndsNames c → c ∉ text) : SpellsLiteral text

theorem IsQuote.endsNames {quote : Char} (h : IsQuote quote) : EndsNames quote := by
  rcases h with rfl | rfl
  · exact ⟨by decide, by decide⟩
  · exact ⟨by decide, by decide⟩

theorem SpellsLiteral.endsQuote {text : Text} (h : SpellsLiteral text) : EndsQuote text := by
  intro quote body hbody hquote
  cases h with
  | quoted _ hends =>
    obtain ⟨rfl, rfl⟩ := List.cons.inj hbody
    exact hends
  | word hword => exact absurd (hbody ▸ List.mem_cons_self ..) (hword quote hquote.endsNames)

/-- If a literal is cut from the text, it is spelled like one. -/
def Cut.SpellsLiteral (text : Text) (piece : Cut) : Prop :=
  piece.1 ∈ literalClasses → 0 < piece.2.1 ∧ Syntax.SpellsLiteral (text.take piece.2.1)

theorem Cut.spellsLiteral_of_notMem {text : Text} {sort : TokenClass} {length : Nat} {after : LexState}
    (h : sort ∉ literalClasses) : Cut.SpellsLiteral text (sort, length, after) :=
  fun hmem => absurd hmem h

theorem spellsLiteral_cutBegunWith (markup : Bool) (state : LexState) (c : Char) (rest : Text) :
    (cutBegunWith markup state c rest).SpellsLiteral (c :: rest) := by
  unfold cutBegunWith
  split
  · next hquote =>
    rw [Bool.or_eq_true, decide_eq_true_eq, decide_eq_true_eq] at hquote
    split
    · next length hlength =>
      refine fun _ => ⟨Nat.succ_pos _, ?_⟩
      have hle := quotedLength?_le hlength
      have hclosed := @quotedLength?_append_of_some (rest.drop length) [] c false (rest.take length) false length
      rw [List.take_append_drop, List.append_nil, List.length_take, Nat.min_eq_left hle] at hclosed
      rw [List.take_succ_cons]
      refine .quoted hquote ?_
      rw [List.length_take, Nat.min_eq_left hle]
      exact hclosed hlength (Nat.le_refl _)
    · exact Cut.spellsLiteral_of_notMem (by decide)
  · split
    · exact Cut.spellsLiteral_of_notMem (by decide)
    · split
      · next hname => exact fun _ => ⟨hname, .word fun d hd => hd.notMem_nameFrom List.not_mem_nil⟩
      · split
        · exact Cut.spellsLiteral_of_notMem (by decide)
        · split <;> exact Cut.spellsLiteral_of_notMem (by decide)

theorem spellsLiteral_cutCode (state : LexState) (text : Text) : (cutCode false state text).SpellsLiteral text := by
  unfold cutCode
  split
  · exact Cut.spellsLiteral_of_notMem (by decide)
  · exact Cut.spellsLiteral_of_notMem (by decide)
  · exact Cut.spellsLiteral_of_notMem (by decide)
  · split <;> exact Cut.spellsLiteral_of_notMem (by decide)
  · exact Cut.spellsLiteral_of_notMem (by decide)
  · exact spellsLiteral_cutBegunWith false state _ _
  · exact Cut.spellsLiteral_of_notMem (by decide)

theorem spellsLiteral_cutTemplate (state : LexState) (text : Text) : (cutTemplate state text).SpellsLiteral text := by
  unfold cutTemplate
  split
  · split <;> exact Cut.spellsLiteral_of_notMem (by decide)
  · exact Cut.spellsLiteral_of_notMem (by decide)

/-- In code there are no tags, in which a quoted value may go on without its quote. -/
theorem spellsLiteral_of_mem_lexemesFrom {state : LexState} {text : Text} {lexeme : Lexeme}
    (hcode : state.stack.all Context.isCode = true) (h : lexeme ∈ lexemesFrom false state text)
    (hsort : lexeme.sort ∈ literalClasses) : SpellsLiteral lexeme.text := by
  fun_induction lexemesFrom false state text with
  | case1 => cases h
  | case2 state text blanks =>
    rw [List.mem_singleton] at h
    subst h
    exact absurd (show TokenClass.comment ∈ literalClasses from hsort) (by decide)
  | case3 state text blanks c rest _ sort length after hcut _ ih =>
    have hafter : after.stack.all Context.isCode = true := by
      have hcodeAfter := @isCode_cut state c rest hcode
      rwa [hcut] at hcodeAfter
    rcases List.mem_cons.1 h with rfl | hrest
    · have hpiece : Cut.SpellsLiteral (c :: rest) (sort, length, after) := by
        rw [← hcut]
        unfold cut
        split
        · exact spellsLiteral_cutTemplate state _
        · next hstack => rw [hstack] at hcode; cases hcode
        · next hstack => rw [hstack] at hcode; cases hcode
        · exact spellsLiteral_cutCode state _
      obtain ⟨hpos, hends⟩ := hpiece hsort
      rwa [← Nat.sub_add_cancel hpos, List.take_succ_cons] at hends
    · exact ih hafter hrest

/-! ## Nodes -/

theorem EndsNames.notMem_string {c : Char} (h : EndsNames c) : c ∉ "string".toList := by
  intro hmem
  have hletters : "string".toList.all Char.isAlphanum = true := by decide
  have hletter := List.all_eq_true.1 hletters c hmem
  rw [h.isAlphanum_eq] at hletter
  cases hletter

/-- Is a literal that the rule builds one token of these classes? Comments are not built by rules at all. -/
def Rule.takesLiterals : Rule → Bool
  | .take look kind => kind != .string || look.isOf literalClasses || look == .is ["string"]
  | .node (some kind) _ | .group kind _ _ _ => kind != .string
  | .fold kind => kind != .string && kind != .comment
  | _ => true

theorem takesLiterals_grammar (markup : Bool) (symbol : Symbol) :
    (grammar markup symbol).all Rule.takesLiterals = true := by
  cases symbol <;> cases markup <;> decide

/-- A token that shows its spelling is spelled like that. -/
theorem text_of_signOf {token : Token} {spelling : Text} (h : View.signOf token = spelling) (hne : spelling ≠ []) :
    token.text = spelling := by
  rw [View.signOf] at h
  split at h
  · exact h
  · split at h
    · exact h
    · exact absurd h.symm hne
  · exact absurd h.symm hne

/-- The token stands behind blanks, and if it can become a literal it is spelled like one. -/
def Item.SpellsLiteral (item : Item) : Prop := item.token.blanks.all isSpace = true ∧
  (item.token.sort ∈ literalClasses → item.token.text ≠ [] ∧ Syntax.SpellsLiteral item.token.text)

/-- If the node is a literal it is one token behind blanks that is spelled like one. -/
def Node.SpellsLiteral (node : Node) : Prop := node.kind = .string → node.children = [] ∧
  node.label.blanks.all isSpace = true ∧ node.label.text ≠ [] ∧ Syntax.SpellsLiteral node.label.text

theorem Item.spellsLiteral_leaves {item : Item} (h : item.SpellsLiteral) {kind : Kind}
    (hkind : kind = .string → item.token.text ≠ [] ∧ Syntax.SpellsLiteral item.token.text) :
    ∀ node ∈ item.leaves kind, node.Every Node.SpellsLiteral := by
  refine Item.every_leaves (fun comment hother => ?_) fun hstring => ⟨rfl, h.1, hkind hstring⟩
  cases hother

theorem Node.spellsLiteral_enclose {kind : Kind} (hkind : kind ≠ .string) {nodes : List Node}
    (h : ∀ node ∈ nodes, node.Every Node.SpellsLiteral) :
    ∀ node ∈ enclose kind nodes, node.Every Node.SpellsLiteral :=
  every_enclose (fun _ _ hlabel hstring => absurd (hlabel.symm.trans hstring) hkind) h

theorem preserves_spellsLiteral :
    Preserves (Node.Every Node.SpellsLiteral) Item.SpellsLiteral Rule.takesLiterals where
  comment _ := Node.every_token nofun
  mark item h := Item.spellsLiteral_leaves h nofun
  take look kind view item htake hfits hseen h := by
    rw [Rule.takesLiterals, Bool.or_eq_true, Bool.or_eq_true, bne_iff_ne, beq_iff_eq] at htake
    obtain ⟨hsort, hsign⟩ := Prod.mk.inj hseen
    refine Item.spellsLiteral_leaves h fun hkind => ?_
    rcases htake with (hne | hclasses) | rfl
    · exact absurd hkind hne
    · exact h.2 (hsort ▸ Look.sort_mem_of_fits hclasses hfits)
    · have hword : view.sign = "string".toList := by simpa [Look.fits] using hfits
      rw [text_of_signOf (hsign.trans hword) (by decide)]
      exact ⟨by decide, .word fun c hc => hc.notMem_string⟩
  group kind opening inside closing nodes hgroup h := Node.spellsLiteral_enclose (bne_iff_ne.1 hgroup) h
  node grammar kind rule seen steps _ hnode hinside hstays hsteps := hsteps.enclosed hstays fun k hk nodes =>
    Node.spellsLiteral_enclose (Option.some.inj hk ▸ bne_iff_ne.1 hnode)
  fold kind nodes hfold h := by
    rw [Rule.takesLiterals, Bool.and_eq_true, bne_iff_ne] at hfold
    exact Node.spellsLiteral_enclose hfold.1 h
  fold_ne kind hfold := by
    rw [Rule.takesLiterals, Bool.and_eq_true, bne_iff_ne, bne_iff_ne] at hfold
    exact hfold.2
  role node role h := by
    cases node
    exact h.withRole id

/-! ## Programs -/

variable {text : Text} {nodes : List Node}

theorem spellsLiteral_of_mem_tokens {token : Token} (h : token ∈ place (lexemes false text)) :
    (⟨[], token⟩ : Item).SpellsLiteral := by
  have hlexeme := List.mem_map_of_mem (f := fun t => Lexeme.mk t.sort t.blanks t.text) h
  rw [place, map_placeFrom] at hlexeme
  have hcut := isCut_of_mem_lexemesFrom hlexeme
  refine ⟨hcut.1, fun hsort => ⟨hcut.2 fun hcomment => ?_, spellsLiteral_of_mem_lexemesFrom rfl hlexeme hsort⟩⟩
  rw [show token.sort = .comment from hcomment] at hsort
  exact absurd hsort (by decide)

theorem spellsLiteral_of_mem_preorder (h : programNodes? false (place (lexemes false text)) = some nodes) {node : Node}
    (hnode : node ∈ (Node.branch .program nodes).preorder) : node.SpellsLiteral := by
  refine Node.every_mk (forall_of_programNodes? preserves_spellsLiteral (takesLiterals_grammar false) (by decide)
    (fun item hitem => ?_) h) (fun hkind => by cases hkind) node hnode
  exact spellsLiteral_of_mem_tokens (mem_of_mem_items hitem).1

/-- A literal whose quote stands in front of plain characters, and of the same quote behind them, says just
these characters. -/
theorem stringValue?_of_offset {front inside back : Text} {quote : Char}
    (h : programNodes? false (place (lexemes false (front ++ quote :: (inside ++ quote :: back)))) = some nodes)
    (hquote : IsQuote quote) (hinside : ∀ c ∈ inside, IsPlainIn quote c) {node : Node}
    (hnode : node ∈ (Node.branch .program nodes).preorder) (hkind : node.kind = .string)
    (hoffset : node.offset = front.length) : node.stringValue? = some inside := by
  obtain ⟨before, after, hpart, hlocated⟩ := exists_part_of_mem_preorder h hnode
  obtain ⟨hchildren, hblanks, hne, hspells⟩ := spellsLiteral_of_mem_preorder h hnode hkind
  obtain ⟨label, children⟩ := node
  obtain rfl : children = [] := hchildren
  have hstart : label.offset = before.length + label.blanks.length := by
    cases hlocated with
    | token hoffset => exact hoffset
    | branch _ htext => exact absurd htext hne
  rw [source_mk, show sourceAll [] = [] from rfl, List.append_nil, List.append_assoc, ← List.append_assoc] at hpart
  have hrest := (List.append_inj hpart (by
    rw [List.length_append, ← hstart]
    exact hoffset.symm)).2
  have htext := hspells.endsQuote.eq_of_append hne hquote hinside hrest.symm
  have hspace : isSpace quote = false := by
    rcases hquote with rfl | rfl <;> decide
  have hspaces : label.blanks.all isSpace = true := hblanks
  rw [Node.stringValue?, if_pos hkind, Node.Lexical.text_token, Node.Lexical.dropWhile_blanks hspaces,
    show label.text = quote :: (inside ++ [quote]) from htext, List.dropWhile_cons_of_neg (by simp [hspace]), inner,
    List.drop_one, List.tail_cons, List.dropLast_concat]

end VerticalSlice.Syntax
