import VerticalSlice.Proofs.Syntax.Templates

/-!
# The literals of a text

A literal that a tree tells of stands in the text between its delimiters. A quoted one is one token, from a quote
to the first one that closes it (`IsQuoted`), and a template goes from a back quote to a back quote, both tokens
of the text. The contents that are told are what is between the two, and the line is that of the first.

There is one exception. The keyword `string` has a node of the same kind as a quoted literal, wherever it names
the type, and so `trin` is told for it, the word without its first and its last letter (`literals_stand`).
-/

namespace VerticalSlice.Syntax

/-! ## Between quotes -/

/-- What may stand between these quotes in code: no quote, backslash or line break, but behind a backslash
anything. -/
inductive IsInside (quote : Char) : Text → Prop
  | nil : IsInside quote []
  | plain {c : Char} {rest : Text} (hplain : IsPlainIn quote c) (hrest : IsInside quote rest) :
    IsInside quote (c :: rest)
  | escaped {c : Char} {rest : Text} (hrest : IsInside quote rest) : IsInside quote ('\\' :: c :: rest)

/-- The text is a quoted literal with these contents. In a tag of markup backslashes mean nothing, and the first
quote of the same kind closes it. -/
inductive IsQuoted (markup : Bool) : Text → Text → Prop
  | code {quote : Char} {contents : Text} (hquote : IsQuote quote) (hinside : IsInside quote contents) :
    IsQuoted markup (quote :: (contents ++ [quote])) contents
  | tag {quote : Char} {contents : Text} (hmarkup : markup = true) (hquote : IsQuote quote)
    (hnone : quote ∉ contents) : IsQuoted markup (quote :: (contents ++ [quote])) contents

/-- A quoted literal is cut at its closing quote. While a backslash waits for the character that it takes with
it, it counts as part of the inside. -/
theorem exists_inside_of_quoted {quote : Char} {text : Text} {escaped : Bool} {length : Nat}
    (h : quotedLength? quote false escaped text = some length) : ∃ inside,
      text.take length = inside ++ [quote] ∧ IsInside quote (if escaped then '\\' :: inside else inside) := by
  induction text generalizing escaped length with
  | nil => cases h
  | cons c rest ih =>
    have hrest : ∀ {escaped}, (quotedLength? quote false escaped rest).map (· + 1) = some length → ∃ inside,
        (c :: rest).take length = c :: (inside ++ [quote]) ∧
          IsInside quote (if escaped then '\\' :: inside else inside) := by
      intro escaped h
      obtain ⟨before, hbefore, rfl⟩ := Option.map_eq_some_iff.1 h
      obtain ⟨inside, htake, hinside⟩ := ih hbefore
      exact ⟨inside, by rw [List.take_succ_cons, htake], hinside⟩
    rw [quotedLength?] at h
    split at h
    · next hescaped =>
      obtain ⟨inside, htake, hinside⟩ := hrest h
      exact ⟨c :: inside, htake, by rw [if_pos hescaped]; exact .escaped hinside⟩
    · next hescaped =>
      simp only [if_neg hescaped]
      split at h
      · next hquote =>
        rw [← Option.some.inj h, hquote]
        exact ⟨[], rfl, .nil⟩
      · next hquote =>
        split at h
        · next hbackslash =>
          obtain ⟨inside, htake, hinside⟩ := hrest h
          exact ⟨c :: inside, htake, hbackslash ▸ hinside⟩
        · next hbackslash =>
          split at h
          · cases h
          · next hbreak =>
            obtain ⟨inside, htake, hinside⟩ := hrest h
            refine ⟨c :: inside, htake, .plain ⟨hquote, hbackslash, fun hc => hbreak ?_⟩ hinside⟩
            rw [hc]
            rfl

theorem take_takeWhile_succ {c : Char} {text : Text} (h : c ∈ text) :
    text.take ((text.takeWhile (· ≠ c)).length + 1) = text.takeWhile (· ≠ c) ++ [c] := by
  induction text with
  | nil => cases h
  | cons d rest ih =>
    by_cases hd : d = c
    · simp [hd]
    · have hrest : c ∈ rest := (List.mem_cons.1 h).resolve_left (Ne.symm hd)
      rw [List.takeWhile_cons_of_pos (by simp [hd]), List.length_cons, List.take_succ_cons, ih hrest,
        List.cons_append]

/-! ## Lexemes -/

/-- If a quoted literal is cut from the text, it is closed. -/
def Cut.IsClosed (text : Text) (piece : Cut) : Prop :=
  piece.1 = .string → ∃ length, piece.2.1 = length + 1 ∧
    ∃ contents, IsQuoted true (text.take (length + 1)) contents

theorem isClosed_cutBegunWith (markup : Bool) (state : LexState) (c : Char) (rest : Text) :
    (cutBegunWith markup state c rest).IsClosed (c :: rest) := by
  unfold cutBegunWith
  split
  · next hquote =>
    rw [Bool.or_eq_true, decide_eq_true_eq, decide_eq_true_eq] at hquote
    split
    · next length hlength =>
      obtain ⟨inside, htake, hinside⟩ := exists_inside_of_quoted hlength
      refine fun _ => ⟨length, rfl, inside, ?_⟩
      rw [List.take_succ_cons, htake]
      exact .code hquote hinside
    · exact nofun
  · split
    · exact nofun
    · split
      · exact nofun
      · split
        · exact nofun
        · split <;> exact nofun

theorem isClosed_cutCode (markup : Bool) (state : LexState) (text : Text) :
    (cutCode markup state text).IsClosed text := by
  unfold cutCode
  split
  · exact nofun
  · exact nofun
  · exact nofun
  · split <;> exact nofun
  · exact nofun
  · exact isClosed_cutBegunWith markup state _ _
  · exact nofun

theorem isClosed_cutTag (state : LexState) (closing : Bool) (text : Text) :
    (cutTag state closing text).IsClosed text := by
  unfold cutTag
  dsimp only
  split
  · exact nofun
  · exact nofun
  · split <;> exact nofun
  · exact nofun
  · next c rest _ _ _ _ =>
    split
    · next hquote =>
      rw [Bool.or_eq_true, decide_eq_true_eq, decide_eq_true_eq] at hquote
      split
      · next hcloses =>
        refine fun _ => ⟨_, rfl, rest.takeWhile (· ≠ c), ?_⟩
        rw [List.take_succ_cons, take_takeWhile_succ (List.contains_iff_mem.1 hcloses)]
        exact .tag rfl hquote (notMem_takeWhile (by simp) rest)
      · exact nofun
    · split <;> exact nofun
  · exact nofun

theorem isClosed_cut (markup : Bool) (state : LexState) (text : Text) : (cut markup state text).IsClosed text := by
  unfold cut
  split
  · unfold cutTemplate
    split
    · split <;> exact nofun
    · exact nofun
  · unfold cutContents
    split
    · split <;> exact nofun
    · exact nofun
  · exact isClosed_cutTag state _ text
  · exact isClosed_cutCode markup state text

theorem exists_isQuoted_of_lexeme {markup : Bool} {state : LexState} {text : Text} {lexeme : Lexeme}
    (h : lexeme ∈ lexemesFrom markup state text) (hsort : lexeme.sort = .string) :
    ∃ contents, IsQuoted true lexeme.text contents := by
  fun_induction lexemesFrom markup state text with
  | case1 => cases h
  | case2 state text blanks =>
    rw [List.mem_singleton] at h
    subst h
    cases hsort
  | case3 state text blanks c rest _ sort length after hcut _ ih =>
    rcases List.mem_cons.1 h with rfl | hrest
    · have hclosed := isClosed_cut markup state (c :: rest)
      rw [hcut] at hclosed
      obtain ⟨before, rfl, hcontents⟩ := hclosed hsort
      exact hcontents
    · exact ih hrest

/-! ## Tokens -/

variable {markup : Bool} {text : Text} {token : Token} {nodes : List Node}

/-- The token stands in the text at its offset, and its first character is on this line. -/
def Token.Stands (text : Text) (line : Nat) (token : Token) : Prop :=
  ∃ front back, text = front ++ (token.text ++ back) ∧ token.offset = front.length ∧
    line = Text.lineBreaks front + 1

theorem stands_of_mem_tokens (h : token ∈ SyntaxTree.tokens markup text) : token.Stands text token.line := by
  obtain ⟨first, second, hsplit⟩ := List.append_of_mem h
  obtain ⟨front, lexeme, behind, hlexemes, -, rfl⟩ := exists_lexemes_of_placeFrom hsplit
  have hspelled : spelled (lexemes markup text) = text := lexemes_flatten markup text
  rw [hlexemes, spelled_append, spelled_cons] at hspelled
  refine ⟨spelled front ++ lexeme.blanks, spelled behind, ?_, ?_, ?_⟩
  · conv_lhs => rw [← hspelled]
    show _ = _ ++ (lexeme.text ++ _)
    simp only [List.append_assoc]
  · show 0 + (spelled front).length + lexeme.blanks.length = _
    rw [List.length_append, Nat.zero_add]
  · show 1 + (spelled front).count '\n' + lexeme.blanks.count '\n' = _
    rw [Text.lineBreaks, List.count_append]
    omega

/-- What ends where its quote is closed is a literal of code. -/
theorem IsQuoted.of_endsQuote {spelling contents : Text} (h : IsQuoted true spelling contents)
    (hends : EndsQuote spelling) : IsQuoted false spelling contents := by
  cases h with
  | code hquote hinside => exact .code hquote hinside
  | @tag quote contents _ hquote hnone =>
    obtain ⟨inside, htake, hinside⟩ := exists_inside_of_quoted (hends quote _ rfl hquote)
    rw [List.take_length, List.append_cancel_right_eq] at htake
    rw [htake]
    exact .code hquote hinside

theorem exists_isQuoted_of_mem_tokens (h : token ∈ SyntaxTree.tokens markup text) (hsort : token.sort = .string) :
    ∃ contents, IsQuoted markup token.text contents := by
  have hlexeme := List.mem_map_of_mem (f := fun t => Lexeme.mk t.sort t.blanks t.text) h
  rw [SyntaxTree.tokens, place, map_placeFrom] at hlexeme
  obtain ⟨contents, hquoted⟩ := exists_isQuoted_of_lexeme hlexeme hsort
  cases markup with
  | true => exact ⟨contents, hquoted⟩
  | false =>
    have hspells := spellsLiteral_of_mem_lexemesFrom rfl hlexeme (List.mem_cons.2 (.inl hsort))
    exact ⟨contents, hquoted.of_endsQuote hspells.endsQuote⟩

theorem IsQuoted.exists_quote {spelling contents : Text} (h : IsQuoted markup spelling contents) :
    ∃ quote, IsQuote quote ∧ spelling = quote :: (contents ++ [quote]) := by
  cases h with
  | code hquote => exact ⟨_, hquote, rfl⟩
  | tag _ hquote => exact ⟨_, hquote, rfl⟩

theorem IsQuoted.inner_eq {spelling contents : Text} (h : IsQuoted markup spelling contents) :
    inner (spelling.dropWhile isSpace) = contents := by
  obtain ⟨quote, hquote, rfl⟩ := h.exists_quote
  have hspace : isSpace quote = false := by
    rcases hquote with rfl | rfl <;> decide
  rw [List.dropWhile_cons_of_neg (by simp [hspace]), inner, List.drop_one, List.tail_cons, List.dropLast_concat]

/-! ## Nodes -/

/-- Do only words and marks look like this that are spelled so? -/
def Look.isSpelled (spelling : Text) : Look → Bool
  | .is spellings => spellings == [spelling]
  | .and first second => first.isSpelled spelling || second.isSpelled spelling
  | .or first second => first.isSpelled spelling && second.isSpelled spelling
  | _ => false

theorem Look.sign_eq_of_fits {look : Look} {spelling : Text} (hlook : look.isSpelled spelling = true) {view : View}
    (h : look.fits view = true) : view.sign = spelling := by
  induction look with
  | is spellings =>
    rw [isSpelled, beq_iff_eq] at hlook
    rw [fits, hlook, List.contains_iff_mem, List.mem_singleton] at h
    exact h
  | and first second ih₁ ih₂ =>
    rw [isSpelled, Bool.or_eq_true] at hlook
    rw [fits, Bool.and_eq_true] at h
    rcases hlook with hlook | hlook
    · exact ih₁ hlook h.1
    · exact ih₂ hlook h.2
  | or first second ih₁ ih₂ =>
    rw [isSpelled, Bool.and_eq_true] at hlook
    rw [fits, Bool.or_eq_true] at h
    rcases h with h | h
    · exact ih₁ hlook.1 h
    · exact ih₂ hlook.2 h
  | _ => cases hlook

/-- Is each literal that the rule builds one token that is quoted or the word `string`, or read between back
quotes? Comments are not built by rules at all. -/
def Rule.delimitsLiterals : Rule → Bool
  | .take look kind =>
    kind != .templateString && (kind != .string || look.isOf [.string] || look.isSpelled "string")
  | .group kind _ _ _ => kind != .string && kind != .templateString
  | .node (some kind) rule => kind != .string && (kind != .templateString || rule.isBackQuoted)
  | .fold kind => kind != .string && kind != .templateString && kind != .comment
  | _ => true

theorem delimitsLiterals_grammar (markup : Bool) (symbol : Symbol) :
    (grammar markup symbol).all Rule.delimitsLiterals = true := by
  cases symbol <;> cases markup <;> decide

/-- The node is one token of the row, a quoted one or the word `string`. -/
inductive Node.IsLiteral (tokens : List Token) : Node → Prop
  | intro {token : Token} {label : Label} (hmem : token ∈ tokens)
    (hblanks : label.blanks = token.blanks) (htext : label.text = token.text) (hline : label.line = token.line)
    (htoken : token.sort = .string ∨ token.text = "string".toList) : IsLiteral tokens (.mk label [])

/-- The node goes from a back quote to a back quote. -/
inductive Node.IsBackQuoted (tokens : List Token) : Node → Prop
  | intro {opening closing : Token} {label : Label} {middle : List Node} (hblanks : label.blanks = [])
    (htext : label.text = []) (hfirst : opening ∈ tokens) (hlast : closing ∈ tokens)
    (hopening : opening.text = ['`']) (hclosing : closing.text = ['`']) :
    IsBackQuoted tokens (.mk label (.leaf .mark opening :: (middle ++ [.leaf .mark closing])))

/-- If the node is a literal, it has its delimiters. -/
structure Node.IsDelimited (tokens : List Token) (node : Node) : Prop where
  literal : node.kind = .string → node.IsLiteral tokens
  template : node.kind = .templateString → node.IsBackQuoted tokens

variable {tokens : List Token}

theorem Node.isDelimited_of_kind {node : Node} (hstring : node.kind ≠ .string)
    (htemplate : node.kind ≠ .templateString) : node.IsDelimited tokens :=
  ⟨fun h => absurd h hstring, fun h => absurd h htemplate⟩

theorem Item.delimited_leaves {item : Item} {kind : Kind} (hkind : kind ≠ .templateString)
    (h : kind = .string → (Node.leaf kind item.token).IsLiteral tokens) :
    ∀ node ∈ item.leaves kind, node.Every (Node.IsDelimited tokens) :=
  Item.every_leaves (fun _ => Node.isDelimited_of_kind nofun nofun) ⟨h, fun htemplate => absurd htemplate hkind⟩

theorem Node.delimited_enclose {kind : Kind} (hstring : kind ≠ .string) (htemplate : kind ≠ .templateString)
    (h : ∀ node ∈ nodes, node.Every (Node.IsDelimited tokens)) :
    ∀ node ∈ enclose kind nodes, node.Every (Node.IsDelimited tokens) :=
  every_enclose (fun _ _ hlabel =>
    isDelimited_of_kind (fun h => hstring (hlabel.symm.trans h)) fun h => htemplate (hlabel.symm.trans h)) h

theorem Node.IsDelimited.withRole {node : Node} (h : node.IsDelimited tokens) (role : Role) :
    (node.withRole role).IsDelimited tokens := by
  obtain ⟨label, children⟩ := node
  refine ⟨fun hkind => ?_, fun hkind => ?_⟩
  · cases h.literal hkind with
    | intro hmem hblanks htext hline htoken => exact .intro hmem hblanks htext hline htoken
  · cases h.template hkind with
    | intro hblanks htext hfirst hlast hopening hclosing =>
      exact .intro hblanks htext hfirst hlast hopening hclosing

theorem preserves_delimited :
    Preserves (Node.Every (Node.IsDelimited tokens)) (fun item => item.token ∈ tokens) Rule.delimitsLiterals where
  comment _ := Node.every_token (Node.isDelimited_of_kind nofun nofun)
  mark item _ := Item.delimited_leaves nofun nofun
  take look kind view item htake hfits hseen h := by
    rw [Rule.delimitsLiterals, Bool.and_eq_true, Bool.or_eq_true, Bool.or_eq_true, bne_iff_ne, bne_iff_ne] at htake
    obtain ⟨hsort, hsign⟩ := Prod.mk.inj hseen
    refine Item.delimited_leaves htake.1 fun hkind => .intro h rfl rfl rfl ?_
    rcases htake.2 with (hne | hstring) | hword
    · exact absurd hkind hne
    · exact .inl (hsort.trans (List.mem_singleton.1 (Look.sort_mem_of_fits hstring hfits)))
    · exact .inr (text_of_signOf (hsign.trans (Look.sign_eq_of_fits hword hfits)) (by decide))
  group kind _ _ _ _ hgroup h := by
    rw [Rule.delimitsLiterals, Bool.and_eq_true, bne_iff_ne, bne_iff_ne] at hgroup
    exact Node.delimited_enclose hgroup.1 hgroup.2 h
  node grammar kind rule seen steps hproper hnode hinside hstays hsteps := by
    rw [Rule.delimitsLiterals, Bool.and_eq_true, Bool.or_eq_true, bne_iff_ne, bne_iff_ne] at hnode
    by_cases hkind : kind = .templateString
    · subst hkind
      exact keeps_backQuoted hinside hproper (hnode.2.resolve_left fun hne => hne rfl)
        (fun _ _ _ hfirst hlast hopening hclosing =>
          ⟨nofun, fun _ => .intro rfl rfl hfirst hlast hopening hclosing⟩) hsteps
    · refine hsteps.enclosed hstays fun k hk nodes h => ?_
      obtain rfl := Option.some.inj hk
      exact Node.delimited_enclose hnode.1 hkind h
  fold kind _ hfold h := by
    rw [Rule.delimitsLiterals, Bool.and_eq_true, Bool.and_eq_true, bne_iff_ne, bne_iff_ne] at hfold
    exact Node.delimited_enclose hfold.1.1 hfold.1.2 h
  fold_ne kind hfold := by
    rw [Rule.delimitsLiterals, Bool.and_eq_true, bne_iff_ne] at hfold
    exact hfold.2
  role node role h := h.withRole fun hself => hself.withRole role

theorem isDelimited_of_mem_preorder (h : programNodes? markup tokens = some nodes) {node : Node}
    (hnode : node ∈ (Node.branch .program nodes).preorder) : node.IsDelimited tokens := by
  refine Node.every_mk (forall_of_programNodes? preserves_delimited (delimitsLiterals_grammar markup) (by decide)
    (fun item hitem => (mem_of_mem_items hitem).1) h) (Node.isDelimited_of_kind ?_ ?_) node hnode <;> exact nofun

/-! ## Programs -/

/-- A quoted literal of the text has these contents and starts on this line. -/
def QuotedStands (markup : Bool) (text contents : Text) (line : Nat) : Prop :=
  ∃ token ∈ SyntaxTree.tokens markup text, token.sort = .string ∧ IsQuoted markup token.text contents ∧
    token.Stands text line

/-- The contents stand in the text between two back quotes that are tokens of it, the first on this line. -/
def TemplateStands (markup : Bool) (text contents : Text) (line : Nat) : Prop :=
  ∃ opening ∈ SyntaxTree.tokens markup text, ∃ closing ∈ SyntaxTree.tokens markup text,
    opening.text = ['`'] ∧ closing.text = ['`'] ∧ opening.Stands text line ∧
    ∃ front back, text = front ++ '`' :: (contents ++ '`' :: back) ∧ opening.offset = front.length ∧
      closing.offset = front.length + contents.length + 1

/-- The word is a token of the text on this line. -/
def WordStands (markup : Bool) (text word : Text) (line : Nat) : Prop :=
  ∃ token ∈ SyntaxTree.tokens markup text, token.text = word ∧ token.Stands text line

/-- The contents of a literal node are those of a quoted literal, or it is the word `string`. -/
theorem stands_of_stringValue? (h : programNodes? markup (SyntaxTree.tokens markup text) = some nodes) {node : Node}
    (hnode : node ∈ (Node.branch .program nodes).preorder) {contents : Text}
    (hcontents : node.stringValue? = some contents) :
    QuotedStands markup text contents node.line ∨
      contents = "trin".toList ∧ WordStands markup text "string" node.line := by
  rw [Node.stringValue?, Option.ite_none_right_eq_some, Option.some.injEq] at hcontents
  obtain ⟨hkind, rfl⟩ := hcontents
  cases (isDelimited_of_mem_preorder h hnode).literal hkind with
  | @intro token label hmem hblanks htext hline htoken =>
    have hstands : token.Stands text (Node.mk label []).line := by
      rw [show (Node.mk label []).line = token.line from hline]
      exact stands_of_mem_tokens hmem
    have hspaces : token.blanks.all isSpace = true := (plain_of_mem_tokens hmem).1
    rw [Node.Lexical.text_token, hblanks, htext, Node.Lexical.dropWhile_blanks hspaces]
    rcases htoken with hsort | hword
    · obtain ⟨contents, hquoted⟩ := exists_isQuoted_of_mem_tokens hmem hsort
      rw [hquoted.inner_eq]
      exact .inl ⟨token, hmem, hsort, hquoted, hstands⟩
    · rw [hword]
      exact .inr ⟨by decide, token, hmem, hword, hstands⟩

/-- The contents of a template node stand between its back quotes. -/
theorem stands_of_template (h : programNodes? markup (SyntaxTree.tokens markup text) = some nodes) {node : Node}
    (hnode : node ∈ (Node.branch .program nodes).preorder) (hkind : node.kind = .templateString) :
    TemplateStands markup text (inner node.text) node.line := by
  obtain ⟨front, back, htext, hlocated⟩ := exists_part_of_mem_preorder h hnode
  have hline : node.line = Text.lineAt text node.offset :=
    line_eq_of_mem_preorder h hnode (by rw [hkind]; decide) (by rw [hkind]; decide)
  cases (isDelimited_of_mem_preorder h hnode).template hkind with
  | @intro opening closing label middle hblanks hempty hfirst hlast hopening hclosing =>
    have hleaf : ∀ {token : Token}, token.text = ['`'] →
        (Node.leaf .mark token).source = token.blanks ++ ['`'] := by
      intro token htoken
      rw [Node.leaf, source_mk, htoken]
      exact List.append_nil _
    -- the source of the node is the blanks in front of it, a back quote, the contents, and a back quote
    obtain ⟨contents, hcontents⟩ : ∃ contents, contents = sourceAll middle ++ closing.blanks := ⟨_, rfl⟩
    have hsource : (Node.mk label (.leaf .mark opening :: (middle ++ [.leaf .mark closing]))).source =
        opening.blanks ++ '`' :: (contents ++ ['`']) := by
      rw [source_mk, hblanks, hempty, sourceAll_cons, sourceAll_append, sourceAll_singleton, hleaf hopening,
        hleaf hclosing, hcontents]
      simp only [List.append_assoc, List.nil_append, List.cons_append]
    have hinner : inner (Node.mk label (.leaf .mark opening :: (middle ++ [.leaf .mark closing]))).text =
        contents := by
      rw [Node.text, hsource, Node.Lexical.dropWhile_blanks (plain_of_mem_tokens hfirst).1,
        List.dropWhile_cons_of_neg (by decide), inner, List.drop_one, List.tail_cons, List.dropLast_concat]
    -- both back quotes are where they are in the source
    obtain ⟨hstart, hoffset, hend⟩ : opening.offset = front.length + opening.blanks.length ∧
        label.offset = opening.offset ∧
        closing.offset = front.length + (opening.blanks.length + 1 + (sourceAll middle).length) +
          closing.blanks.length := by
      cases hlocated with
      | branch _ _ hoffset hchildren =>
        have hopened := hchildren [] _ _ rfl
        have hclosed := hchildren (.leaf .mark opening :: middle) _ [] rfl
        rw [sourceAll_cons, hleaf hopening, List.length_append, List.length_append,
          List.length_singleton] at hclosed
        refine ⟨?_, hoffset _ rfl, ?_⟩
        · cases hopened with
          | token hoffset => exact hoffset
          | branch _ htext => exact absurd (hopening.symm.trans htext) (List.cons_ne_nil _ _)
        · cases hclosed with
          | token hoffset => exact hoffset
          | branch _ htext => exact absurd (hclosing.symm.trans htext) (List.cons_ne_nil _ _)
    have hsame : (Node.mk label (.leaf .mark opening :: (middle ++ [.leaf .mark closing]))).line =
        opening.line := by
      rw [hline, line_eq_of_mem_tokens hfirst]
      exact congrArg _ hoffset
    rw [hinner, hsame]
    refine ⟨opening, hfirst, closing, hlast, hopening, hclosing, stands_of_mem_tokens hfirst,
      front ++ opening.blanks, back, ?_, ?_, ?_⟩
    · rw [htext, hsource]
      simp only [List.append_assoc, List.cons_append, List.nil_append]
    · rw [hstart, List.length_append]
    · rw [hend, hcontents, List.length_append, List.length_append]
      omega

theorem exists_nodes_of_ofText {extension : Text} (h : (SyntaxTree.ofText text extension).isProgram = true) :
    ∃ nodes, programNodes? (SyntaxTree.hasMarkup extension)
        (SyntaxTree.tokens (SyntaxTree.hasMarkup extension) text) = some nodes ∧
      (SyntaxTree.ofText text extension).root = Node.branch .program nodes := by
  rw [SyntaxTree.ofText, SyntaxTree.ofTokens] at h ⊢
  cases hnodes : programNodes? (SyntaxTree.hasMarkup extension)
      (SyntaxTree.tokens (SyntaxTree.hasMarkup extension) text) with
  | none => rw [hnodes] at h; cases h
  | some nodes => exact ⟨nodes, rfl, rfl⟩

/-- What is told as a literal of a program stands in its text as one: it is the contents of a quoted literal or of
a template that starts on the line. Only `trin` may be told for the word `string` on that line instead. And if a
quoted literal is found by its contents, the text has one with these contents, or again they are `trin` and the
text has that word. -/
theorem literals_stand {extension : Text} (h : (SyntaxTree.ofText text extension).isProgram = true) :
    (∀ contents line, (contents, line) ∈ (SyntaxTree.ofText text extension).root.literals →
      QuotedStands (SyntaxTree.hasMarkup extension) text contents line ∨
      TemplateStands (SyntaxTree.hasMarkup extension) text contents line ∨
      contents = "trin".toList ∧ WordStands (SyntaxTree.hasMarkup extension) text "string" line) ∧
    ∀ value, (SyntaxTree.ofText text extension).root.containsString value = true →
      (∃ line, QuotedStands (SyntaxTree.hasMarkup extension) text value line) ∨
      value = "trin".toList ∧ ∃ line, WordStands (SyntaxTree.hasMarkup extension) text "string" line := by
  obtain ⟨nodes, hnodes, hroot⟩ := exists_nodes_of_ofText h
  rw [hroot]
  refine ⟨fun contents line hmem => ?_, fun value hvalue => ?_⟩
  · rw [Node.literals, Node.walk_eq_preorder] at hmem
    obtain ⟨node, hnode, hliteral⟩ := List.mem_filterMap.1 hmem
    obtain ⟨contents, hcontents, heq⟩ := Option.map_eq_some_iff.1 hliteral
    obtain ⟨rfl, rfl⟩ := Prod.mk.inj heq
    rcases Node.kind_of_literal? hcontents with hkind | hkind
    · have hstring : node.stringValue? = some contents := by
        rw [← hcontents, Node.stringValue?, Node.literal?, if_pos hkind, if_pos (by simp [hkind])]
      exact (stands_of_stringValue? hnodes hnode hstring).imp_right .inr
    · rw [Node.literal?, if_pos (by simp [hkind]), Option.some.injEq] at hcontents
      exact .inr (.inl (hcontents ▸ stands_of_template hnodes hnode hkind))
  · rw [Node.containsString, Node.find?, Node.walk_eq_preorder, List.find?_isSome] at hvalue
    obtain ⟨node, hnode, hstring⟩ := hvalue
    exact (stands_of_stringValue? hnodes hnode (of_decide_eq_true hstring)).imp (fun hstands => ⟨_, hstands⟩)
      fun hword => ⟨hword.1, _, hword.2⟩

/-- A type, and a literal. -/
def typedText : Text := "const x: string = 'a';\n"

theorem literals_stand_typedText : (SyntaxTree.ofText typedText ".ts").isProgram = true ∧
    ("a".toList, 1) ∈ (SyntaxTree.ofText typedText ".ts").root.literals ∧
    (QuotedStands false typedText "a" 1 ∨ TemplateStands false typedText "a" 1) ∧
    (SyntaxTree.ofText typedText ".ts").root.containsString "a" = true ∧
    ∃ line, QuotedStands false typedText "a" line := by
  have hprogram : (SyntaxTree.ofText typedText ".ts").isProgram = true := by decide +kernel
  have hliteral : ("a".toList, 1) ∈ (SyntaxTree.ofText typedText ".ts").root.literals := by decide +kernel
  have hcontains : (SyntaxTree.ofText typedText ".ts").root.containsString "a" = true := by decide +kernel
  have hother : "a".toList ≠ "trin".toList := by decide
  refine ⟨hprogram, hliteral, ?_, hcontains, ?_⟩
  · exact ((literals_stand hprogram).1 _ _ hliteral).imp_right fun hmore => hmore.resolve_right fun h => hother h.1
  · exact ((literals_stand hprogram).2 _ hcontains).resolve_right fun h => hother h.1

/-! ## The word that is told -/

/-- A type, and no literal. -/
def keywordText : Text := "let x: string;\n"

theorem QuotedStands.exists_mem {contents : Text} {line : Nat} (h : QuotedStands markup text contents line) :
    ∃ quote ∈ quotes, quote ∈ text := by
  obtain ⟨token, -, -, hquoted, front, back, rfl, -⟩ := h
  obtain ⟨quote, hquote, htext⟩ := hquoted.exists_quote
  refine ⟨quote, mem_quotes_iff.2 (hquote.imp_right .inl), ?_⟩
  rw [htext]
  exact List.mem_append_right _ (List.mem_cons_self ..)

theorem TemplateStands.exists_mem {contents : Text} {line : Nat} (h : TemplateStands markup text contents line) :
    ∃ quote ∈ quotes, quote ∈ text := by
  obtain ⟨-, -, -, -, -, -, -, front, back, rfl, -⟩ := h
  exact ⟨'`', by decide, List.mem_append_right _ (List.mem_cons_self ..)⟩

/-- In a text without any quotes the contents of a literal are told, and are found where they are looked for. -/
theorem keyword_told : (SyntaxTree.ofText keywordText ".ts").isProgram = true ∧
    (SyntaxTree.ofText keywordText ".ts").root.literals = [("trin".toList, 1)] ∧
    (SyntaxTree.ofText keywordText ".ts").root.containsString "trin" = true ∧
    ∀ line, ¬QuotedStands false keywordText "trin" line ∧ ¬TemplateStands false keywordText "trin" line := by
  have hnone : ∀ quote ∈ quotes, quote ∉ keywordText := by
    intro quote hquote
    rcases mem_quotes_iff.1 hquote with rfl | rfl | rfl <;> decide
  refine ⟨by decide +kernel, by decide +kernel, by decide +kernel, fun line => ⟨fun h => ?_, fun h => ?_⟩⟩
  · obtain ⟨quote, hquote, htext⟩ := h.exists_mem
    exact hnone quote hquote htext
  · obtain ⟨quote, hquote, htext⟩ := h.exists_mem
    exact hnone quote hquote htext

end VerticalSlice.Syntax
