import VerticalSlice.Proofs.Syntax.Literals
import VerticalSlice.Text.Lines

/-!
# Where literals stand

A literal of a program stands in the text with a quote on each side (`exists_quotes_of_literal?`): a quoted one is
spelled like that, and a template begins and ends with a back quote, whatever the rules have read between the two
(`IsTemplate`). The line that a node tells is that of its first character (`line_eq_of_mem_preorder`). Tokens
are placed so, and a node takes its line over from the first node in it that is no comment.
-/

namespace VerticalSlice.Syntax

variable {text : Text} {nodes : List Node}

/-! ## Lines -/

/-- The line of each token is that of its first character. -/
theorem line_eq_of_mem_placeFrom {lexemes : List Lexeme} {front : Text} {broken : Bool} {token : Token}
    (h : token ∈ placeFrom front.length (Text.lineBreaks front + 1) broken lexemes) :
    token.line = Text.lineAt (front ++ spelled lexemes) token.offset := by
  induction lexemes generalizing front broken with
  | nil => cases h
  | cons lexeme rest ih =>
    rcases List.mem_cons.1 h with rfl | hrest
    · have hfront : front ++ spelled (lexeme :: rest) =
          (front ++ lexeme.blanks) ++ (lexeme.text ++ spelled rest) := by
        rw [spelled_cons]
        simp only [List.append_assoc]
      show Text.lineBreaks front + 1 + lexeme.blanks.count '\n' = _
      rw [Text.lineAt_eq, hfront, List.take_left' List.length_append, Text.lineBreaks, Text.lineBreaks,
        List.count_append, Nat.add_right_comm]
    · have hfront : front ++ spelled (lexeme :: rest) =
          (front ++ lexeme.blanks ++ lexeme.text) ++ spelled rest := by
        rw [spelled_cons]
        simp only [List.append_assoc]
      have hlines : Text.lineBreaks (front ++ lexeme.blanks ++ lexeme.text) + 1 =
          Text.lineBreaks front + 1 + lexeme.blanks.count '\n' + lexeme.text.count '\n' := by
        simp only [Text.lineBreaks, List.count_append]
        omega
      rw [hfront]
      apply ih
      rw [hlines, List.length_append, List.length_append]
      exact hrest

theorem line_eq_of_mem_tokens {markup : Bool} {token : Token} (h : token ∈ place (lexemes markup text)) :
    token.line = Text.lineAt text token.offset := by
  have hspelled : spelled (lexemes markup text) = text := lexemes_flatten markup text
  have hline := @line_eq_of_mem_placeFrom (lexemes markup text) [] false token h
  rwa [List.nil_append, hspelled] at hline

/-- The line of the node is that of its first character in the text; of comments this is not asked. -/
def Node.Counted (text : Text) (node : Node) : Prop :=
  node.isComment = false → node.line = Text.lineAt text node.offset

def Item.Counted (text : Text) (item : Item) : Prop := item.token.line = Text.lineAt text item.token.offset

theorem Item.counted_leaves {item : Item} (h : item.Counted text) (kind : Kind) :
    ∀ node ∈ item.leaves kind, node.Every (Node.Counted text) := by
  refine Item.every_leaves (fun comment hother => ?_) fun _ => h
  cases hother

/-- A node begins with the first node in it, and that is no comment. -/
theorem Node.counted_enclose (kind : Kind) (h : ∀ node ∈ nodes, node.Every (Node.Counted text)) :
    ∀ node ∈ enclose kind nodes, node.Every (Node.Counted text) := by
  refine forall_mem_enclose h (every_mk (fun node hnode => h node (List.dropWhile_subset _ hnode)) fun _ => ?_)
  cases hrest : nodes.dropWhile Node.isComment with
  | nil => exact (Text.lineAt_eq text 0).symm
  | cons first rest =>
    have hfirst : first ∈ nodes := List.dropWhile_subset _ (hrest ▸ List.mem_cons_self ..)
    have hcomment := List.head_dropWhile_not Node.isComment (l := nodes) (by rw [hrest]; exact List.cons_ne_nil _ _)
    simp only [hrest, List.head_cons] at hcomment
    exact h first hfirst first (self_mem_preorder _) hcomment

theorem preserves_counted : Preserves (Node.Every (Node.Counted text)) (Item.Counted text) Rule.isProper where
  comment _ := Node.every_token nofun
  mark item h := Item.counted_leaves h _
  take _ kind _ item _ _ _ h := Item.counted_leaves h kind
  group kind _ _ _ _ _ h := Node.counted_enclose kind h
  node _ _ _ _ _ _ _ _ hstays hsteps := hsteps.enclosed hstays fun kind _ _ => Node.counted_enclose kind
  fold kind _ _ h := Node.counted_enclose kind h
  fold_ne _ hfold := Kind.ne_comment_of_encloses (Bool.and_eq_true_iff.1 hfold).1
  role node role h := by
    cases node
    exact h.withRole id

/-- The line of a node is that of its first character. -/
theorem line_eq_of_mem_preorder {markup : Bool} (h : programNodes? markup (place (lexemes markup text)) = some nodes)
    {node : Node} (hnode : node ∈ (Node.branch .program nodes).preorder) (hcomment : node.kind ≠ .comment)
    (hprogram : node.kind ≠ .program) : node.line = Text.lineAt text node.offset := by
  have hcounted : ∀ node ∈ nodes, node.Every (Node.Counted text) :=
    forall_of_programNodes? preserves_counted (proper_grammar markup).proper (by decide)
      (fun item hitem => line_eq_of_mem_tokens (mem_of_mem_items hitem).1) h
  rcases Node.mem_preorder_iff.1 hnode with rfl | ⟨child, hchild, hinside⟩
  · exact absurd rfl hprogram
  · exact hcounted child hchild node hinside (beq_eq_false_iff_ne.2 hcomment)

/-! ## Templates -/

/-- The rule takes a back quote, whatever the rule between takes, and a back quote again. -/
def Rule.isBackQuoted : Rule → Bool
  | .both (.take first .mark) (.both inside (.take last .mark)) =>
    first == .is ["`"] && last == .is ["`"] && inside.addsOnly
  | _ => false

/-- Is a template that the rule builds read between back quotes? Comments are not built by rules at all. -/
def Rule.quotesTemplates : Rule → Bool
  | .take _ kind | .group kind _ _ _ => kind != .templateString
  | .node (some kind) rule => kind != .templateString || rule.isBackQuoted
  | .fold kind => kind != .templateString && kind != .comment
  | _ => true

theorem quotesTemplates_grammar (markup : Bool) (symbol : Symbol) :
    (grammar markup symbol).all Rule.quotesTemplates = true := by
  cases symbol <;> cases markup <;> decide

/-- The first token of the node is a back quote behind blanks, and the last one is a back quote, too. -/
inductive Node.IsTemplate : Node → Prop
  | intro {label quote : Label} {rest : List Node} {inside : Text} (hblanks : label.blanks = [])
    (htext : label.text = []) (hspaces : quote.blanks.all isSpace = true) (hquote : quote.text = ['`'])
    (hrest : sourceAll rest = inside ++ ['`']) : IsTemplate (.mk label (.mk quote [] :: rest))

/-- If the node is a template, it stands in back quotes. -/
def Node.QuotesTemplate (node : Node) : Prop := node.kind = .templateString → node.IsTemplate

theorem Item.quotesTemplate_leaves (item : Item) {kind : Kind} (hkind : kind ≠ .templateString) :
    ∀ node ∈ item.leaves kind, node.Every Node.QuotesTemplate := by
  refine Item.every_leaves (fun comment hother => ?_) fun h => absurd h hkind
  cases hother

theorem Node.quotesTemplate_enclose {kind : Kind} (hkind : kind ≠ .templateString)
    (h : ∀ node ∈ nodes, node.Every Node.QuotesTemplate) :
    ∀ node ∈ enclose kind nodes, node.Every Node.QuotesTemplate :=
  every_enclose (fun _ _ hlabel htemplate => absurd (hlabel.symm.trans htemplate) hkind) h

section

variable {grammar : Grammar} {rule : Rule} {seen : List View} {steps : List Step}

/-- Between the back quotes there is what the rule between them has read. -/
theorem Derives.exists_between (h : Derives grammar rule seen steps) (hproper : grammar.Proper)
    (hrule : rule.isBackQuoted = true) : ∃ opening between closing inside,
      seen = opening :: (between ++ [closing]) ∧ steps = .leaf .mark :: (inside ++ [.leaf .mark]) ∧
      opening.sign = ['`'] ∧ closing.sign = ['`'] ∧ keepsInside 0 inside = true ∧
      taken inside = between.length := by
  have hsign : ∀ {look : Look} {view : View}, look = .is ["`"] → look.fits view = true → view.sign = ['`'] := by
    rintro _ view rfl hfits
    rw [Look.fits, List.contains_iff_mem, List.mem_singleton] at hfits
    exact hfits
  unfold Rule.isBackQuoted at hrule
  split at hrule
  · next first between last =>
    rw [Bool.and_eq_true, Bool.and_eq_true, beq_iff_eq, beq_iff_eq] at hrule
    obtain ⟨⟨hfirst, hlast⟩, hadds⟩ := hrule
    cases h with
    | both hopening hrest =>
      cases hopening with
      | @take _ opening _ hopening _ =>
        cases hrest with
        | @both _ _ seen _ inside _ hinside hclosing =>
          cases hclosing with
          | @take _ closing _ hclosing _ =>
            exact ⟨opening, seen, closing, inside, rfl, rfl, hsign hfirst hopening, hsign hlast hclosing,
              hinside.keepsInside_zero hproper hadds, hinside.taken_eq⟩
  · cases hrule

theorem exists_items_of_shows {opening closing : View} {between : List View} {building : Building}
    (h : building.Shows (opening :: (between ++ [closing]))) : ∃ first inside last rest,
      building.items = first :: (inside ++ last :: rest) ∧ inside.length = between.length ∧
      View.signOf first.token = opening.sign ∧ View.signOf last.token = closing.sign := by
  obtain ⟨rest, hitems⟩ := h
  rw [List.map_cons, List.map_append, List.map_singleton, List.cons_append, List.append_assoc] at hitems
  obtain ⟨first, items, hbuilding, hfirst, hitems⟩ := List.map_eq_cons_iff.1 hitems.symm
  obtain ⟨inside, items, rfl, hinside, hitems⟩ := List.map_eq_append_iff.1 hitems
  obtain ⟨last, rest, rfl, hlast, -⟩ := List.map_eq_cons_iff.1 hitems
  refine ⟨first, inside, last, rest, hbuilding, ?_, (Prod.mk.inj hfirst).2, (Prod.mk.inj hlast).2⟩
  have hlength := congrArg List.length hinside
  rwa [List.length_map, List.length_map] at hlength

/-- Between two marks the steps only add nodes behind the first one. -/
theorem Building.run_between {kind : Kind} {around : List Site} {first last : Item} {middle rest : List Item}
    {inside : List Step} (hstays : keepsInside 0 inside = true) (htaken : taken inside = middle.length) :
    (Building.mk ⟨some kind, []⟩ around (first :: (middle ++ last :: rest))).run
        (.leaf .mark :: (inside ++ [.leaf .mark])) =
      ⟨⟨some kind, first.leaves .mark ++ build inside (middle ++ last :: rest) ++ last.leaves .mark⟩,
        around, rest⟩ := by
  have hdrop : (middle ++ last :: rest).drop (taken inside) = last :: rest := by
    rw [htaken, List.drop_left]
  rw [Building.run, List.foldl_cons, List.foldl_append, ← Building.run]
  show ((Building.mk ⟨some kind, [] ++ first.leaves .mark⟩ around (middle ++ last :: rest)).run inside).step
    (.leaf .mark) = _
  rw [Building.run_of_keepsInside hstays, hdrop]
  rfl

/-- What is built from a back quote to the next one of the rule is one node between the two. What holds of it, for
whatever nodes are between them, is kept like what holds of other nodes. -/
theorem keeps_backQuoted {R : Node → Prop} {Q : Item → Prop} (h : Derives grammar rule seen steps)
    (hproper : grammar.Proper) (hrule : rule.isBackQuoted = true)
    (hnode : ∀ first last : Item, ∀ middle : List Node, Q first → Q last → first.token.text = ['`'] →
      last.token.text = ['`'] →
      R (.branch .templateString (.leaf .mark first.token :: (middle ++ [.leaf .mark last.token]))))
    (hkeeps : Keeps (Node.Every R) Q seen steps) :
    Keeps (Node.Every R) Q seen (.begin (some .templateString) :: (steps ++ [.finish])) where
  taken_eq := by
    rw [taken_cons, taken_append, hkeeps.taken_eq]
    exact Nat.zero_add _
  keeps := by
    rintro ⟨site, around, items⟩ hbuilding hshows
    have hinside := hkeeps.keeps _ (hbuilding.begin (some .templateString)) hshows
    obtain ⟨opening, between, closing, inside, rfl, rfl, hopening, hclosing, hstays, htaken⟩ :=
      h.exists_between hproper hrule
    obtain ⟨first, middle, last, rest, hitems, hlength, hfirst, hlast⟩ := exists_items_of_shows hshows
    obtain rfl : items = first :: (middle ++ last :: rest) := hitems
    have hrun := @Building.run_between .templateString (site :: around) first last middle rest inside hstays
      (htaken.trans hlength.symm)
    have hbegun : (Building.mk site around (first :: (middle ++ last :: rest))).step (.begin (some .templateString)) =
        ⟨⟨some .templateString, []⟩, site :: around, first :: (middle ++ last :: rest)⟩ := rfl
    rw [hbegun, hrun] at hinside
    rw [Building.run_enclosed, hrun]
    refine hinside.finish (forall_mem_enclose hinside.site ?_)
    -- comments in front of the first back quote stay outside
    have hchildren : (first.leaves .mark ++ build inside (middle ++ last :: rest) ++ last.leaves .mark).dropWhile
        Node.isComment = .leaf .mark first.token ::
          ((build inside (middle ++ last :: rest) ++ last.comments.map (Node.leaf .comment)) ++
            [.leaf .mark last.token]) := by
      rw [Item.leaves, List.append_assoc, List.append_assoc, List.singleton_append,
        dropWhile_isComment (all_isComment_map_leaf _) rfl, Item.leaves, List.append_assoc]
    have hbranch := hnode first last (build inside (middle ++ last :: rest) ++ last.comments.map (Node.leaf .comment))
      (hbuilding.items first (List.mem_cons_self ..)) (hbuilding.items last (by simp))
      (text_of_signOf (hfirst.trans hopening) (List.cons_ne_nil _ _))
      (text_of_signOf (hlast.trans hclosing) (List.cons_ne_nil _ _))
    rw [← hchildren] at hbranch
    exact Node.every_mk (fun node hmem => hinside.site node (List.dropWhile_subset _ hmem)) hbranch

end

/-- From a back quote to a back quote there is a template. -/
theorem Node.isTemplate_branch {first last : Item} {middle : List Node} (hspaced : first.Spaced)
    (hfirst : first.token.text = ['`']) (hlast : last.token.text = ['`']) :
    (Node.branch .templateString (.leaf .mark first.token :: (middle ++ [.leaf .mark last.token]))).IsTemplate := by
  have hleaf : sourceAll [Node.leaf .mark last.token] = last.token.blanks ++ ['`'] := by
    rw [sourceAll_singleton, Node.leaf, source_mk, hlast]
    exact List.append_nil _
  have hrest : sourceAll (middle ++ [Node.leaf .mark last.token]) =
      (sourceAll middle ++ last.token.blanks) ++ ['`'] := by
    rw [sourceAll_append, hleaf, List.append_assoc]
  exact .intro rfl rfl hspaced.2 hfirst hrest

theorem preserves_quotesTemplate :
    Preserves (Node.Every Node.QuotesTemplate) Item.Spaced Rule.quotesTemplates where
  comment _ := Node.every_token nofun
  mark item _ := item.quotesTemplate_leaves nofun
  take _ _ _ item htake _ _ _ := item.quotesTemplate_leaves (bne_iff_ne.1 htake)
  group _ _ _ _ _ hgroup h := Node.quotesTemplate_enclose (bne_iff_ne.1 hgroup) h
  node grammar kind rule seen steps hproper hnode hinside hstays hsteps := by
    rw [Rule.quotesTemplates, Bool.or_eq_true, bne_iff_ne] at hnode
    by_cases hkind : kind = .templateString
    · subst hkind
      exact keeps_backQuoted hinside hproper (hnode.resolve_left fun hne => hne rfl)
        (fun _ _ _ hspaced _ hfirst hlast _ => Node.isTemplate_branch hspaced hfirst hlast) hsteps
    · refine hsteps.enclosed hstays fun k hk nodes => Node.quotesTemplate_enclose ?_
      exact Option.some.inj hk ▸ hkind
  fold _ _ hfold h := by
    rw [Rule.quotesTemplates, Bool.and_eq_true, bne_iff_ne] at hfold
    exact Node.quotesTemplate_enclose hfold.1 h
  fold_ne _ hfold := by
    rw [Rule.quotesTemplates, Bool.and_eq_true, bne_iff_ne, bne_iff_ne] at hfold
    exact hfold.2
  role node role h := by
    cases node
    refine h.withRole fun hself hkind => ?_
    cases hself hkind with
    | intro hblanks htext hspaces hquote hrest => exact .intro hblanks htext hspaces hquote hrest

theorem spaced_of_mem_items {markup : Bool} {item : Item} (h : item ∈ (items (place (lexemes markup text))).1) :
    item.Spaced := by
  have hspaces : ∀ token ∈ place (lexemes markup text), token.blanks.all isSpace = true :=
    fun token htoken => (plain_of_mem_tokens htoken).1
  obtain ⟨htoken, hcomments⟩ := mem_of_mem_items h
  refine ⟨fun comment hcomment => hspaces comment ?_, hspaces _ htoken⟩
  exact (hcomments comment hcomment).resolve_left List.not_mem_nil

theorem isTemplate_of_mem_preorder {markup : Bool}
    (h : programNodes? markup (place (lexemes markup text)) = some nodes) {node : Node}
    (hnode : node ∈ (Node.branch .program nodes).preorder) (hkind : node.kind = .templateString) :
    node.IsTemplate := by
  have hquotes := forall_of_programNodes? preserves_quotesTemplate (quotesTemplates_grammar markup) (by decide)
    (fun _ => spaced_of_mem_items) h
  exact Node.every_mk hquotes (fun hprogram => by cases hprogram) node hnode hkind

/-! ## Quotes in the text -/

/-- The characters that literals stand between. -/
def quotes : List Char := ['"', '\'', '`']

theorem mem_quotes_iff {quote : Char} : quote ∈ quotes ↔ quote = '"' ∨ quote = '\'' ∨ quote = '`' := by
  simp only [quotes, List.mem_cons, List.not_mem_nil, or_false]

theorem isSpace_of_mem_quotes {quote : Char} (h : quote ∈ quotes) : isSpace quote = false := by
  rcases mem_quotes_iff.1 h with rfl | rfl | rfl <;> rfl

/-- Quotes without a backslash in front of them close a literal, so the last character is one. -/
theorem exists_inside_of_quotedLength? {quote : Char} {multiline escaped : Bool} {text : Text}
    (h : quotedLength? quote multiline escaped text = some text.length) : ∃ inside, text = inside ++ [quote] := by
  induction text generalizing escaped with
  | nil => cases h
  | cons c rest ih =>
    have hrest : ∀ {escaped}, (quotedLength? quote multiline escaped rest).map (· + 1) = some (rest.length + 1) →
        ∃ inside, c :: rest = inside ++ [quote] := by
      intro escaped h
      obtain ⟨length, hlength, heq⟩ := Option.map_eq_some_iff.1 h
      obtain rfl := Nat.succ.inj heq
      obtain ⟨inside, hinside⟩ := ih hlength
      exact ⟨c :: inside, congrArg (List.cons c) hinside⟩
    rw [quotedLength?, List.length_cons] at h
    split at h
    · exact hrest h
    · split at h
      · next hquote =>
        have hempty : rest = [] := List.length_eq_zero_iff.1 (Nat.succ.inj (Option.some.inj h)).symm
        exact ⟨[], by rw [hquote, hempty]; rfl⟩
      · split at h
        · exact hrest h
        · split at h
          · cases h
          · exact hrest h

/-- What a literal is spelled like stands in its quotes, if it has quotes. -/
theorem SpellsLiteral.exists_inside {spelling : Text} (h : SpellsLiteral spelling) :
    (∃ quote ∈ quotes, ∃ inside, spelling = quote :: (inside ++ [quote])) ∨
      ∀ c, EndsNames c → c ∉ spelling := by
  cases h with
  | @quoted quote body hquote hends =>
    obtain ⟨inside, rfl⟩ := exists_inside_of_quotedLength? hends
    refine .inl ⟨quote, ?_, inside, rfl⟩
    rcases hquote with rfl | rfl <;> decide
  | word hword => exact .inr hword

theorem Node.kind_of_literal? {node : Node} {contents : Text} (h : node.literal? = some contents) :
    node.kind = .string ∨ node.kind = .templateString := by
  rw [literal?] at h
  split at h
  · next hkind => simpa using hkind
  · cases h

/-- Does the literal stand in the text, with this in front of it? It says what is between its quotes. -/
structure Node.QuotedIn (node : Node) (text front contents : Text) (quote : Char) : Prop where
  quote_mem : quote ∈ quotes
  spelled_eq : node.text = quote :: (contents ++ [quote])
  text_eq : ∃ back, text = front ++ quote :: (contents ++ quote :: back)
  offset_eq : node.offset = front.length

theorem Node.quotedIn_of_source {node : Node} {front blanks inside back contents : Text} {quote : Char}
    (hquote : quote ∈ quotes) (hcontents : node.literal? = some contents) (hspaces : blanks.all isSpace = true)
    (hsource : node.source = blanks ++ quote :: (inside ++ [quote]))
    (hoffset : node.offset = front.length + blanks.length) :
    node.QuotedIn (front ++ (node.source ++ back)) (front ++ blanks) contents quote := by
  have htext : node.text = quote :: (inside ++ [quote]) := by
    rw [text, hsource, Lexical.dropWhile_blanks hspaces,
      List.dropWhile_cons_of_neg (by simp [isSpace_of_mem_quotes hquote])]
  have hinside : inside = contents := by
    rw [literal?, htext, inner, List.drop_one, List.tail_cons, List.dropLast_concat] at hcontents
    split at hcontents
    · exact Option.some.inj hcontents
    · cases hcontents
  refine ⟨hquote, hinside ▸ htext, ⟨back, ?_⟩, hoffset.trans List.length_append.symm⟩
  rw [hsource, hinside]
  simp only [List.append_assoc, List.cons_append, List.nil_append]

/-- A literal of a program stands in the text between its quotes. Only the word `string` counts as a literal
without quotes, and it says nothing but letters. -/
theorem exists_quotes_of_literal? (h : programNodes? false (place (lexemes false text)) = some nodes) {node : Node}
    (hnode : node ∈ (Node.branch .program nodes).preorder) {contents : Text}
    (hcontents : node.literal? = some contents) :
    (∃ front quote, node.QuotedIn text front contents quote) ∨
      node.kind = .string ∧ ∀ c, EndsNames c → c ∉ contents := by
  obtain ⟨front, back, htext, hlocated⟩ := exists_part_of_mem_preorder h hnode
  rw [htext]
  rcases Node.kind_of_literal? hcontents with hkind | hkind
  -- a quoted literal is one token, and a template begins with the one of its back quote
  · obtain ⟨hchildren, hspaces, hne, hspells⟩ := spellsLiteral_of_mem_preorder h hnode hkind
    obtain ⟨label, children⟩ := node
    obtain rfl : children = [] := hchildren
    have hsource : (Node.mk label []).source = label.blanks ++ label.text :=
      (source_mk _ _).trans (List.append_nil _)
    have hoffset : label.offset = front.length + label.blanks.length := by
      cases hlocated with
      | token hoffset => exact hoffset
      | branch _ hempty => exact absurd hempty hne
    rcases hspells.exists_inside with ⟨quote, hquote, inside, hinside⟩ | hword
    · exact .inl ⟨front ++ label.blanks, quote,
        Node.quotedIn_of_source hquote hcontents hspaces (hsource.trans (congrArg _ hinside)) hoffset⟩
    · refine .inr ⟨hkind, fun c hc hmem => hword c hc ?_⟩
      have hblanks : label.blanks.all isSpace = true := hspaces
      rw [Node.literal?, if_pos (by simp [hkind]), Node.Lexical.text_token,
        Node.Lexical.dropWhile_blanks hblanks] at hcontents
      rw [← Option.some.inj hcontents, inner] at hmem
      exact List.dropWhile_subset _ (List.mem_of_mem_drop (List.dropLast_subset _ hmem))
  · obtain @⟨label, quote, rest, inside, hblanks, hlabel, hspaces, hquote, hrest⟩ :=
      isTemplate_of_mem_preorder h hnode hkind
    have hsource : (Node.mk label (.mk quote [] :: rest)).source = quote.blanks ++ '`' :: (inside ++ ['`']) := by
      rw [source_mk, hblanks, hlabel, sourceAll_cons, source_mk, hquote, hrest]
      simp [sourceAll, Node.preorderAll]
    have hoffset : label.offset = front.length + quote.blanks.length := by
      cases hlocated with
      | branch _ _ hfirst hchildren =>
        have hstart : (Node.mk quote []).LocatedAt front.length := hchildren [] _ rest rfl
        rw [hfirst _ rfl]
        cases hstart with
        | token hoffset => exact hoffset
        | branch _ hempty =>
          rw [hquote] at hempty
          cases hempty
    exact .inl ⟨front ++ quote.blanks, '`',
      Node.quotedIn_of_source (by decide) hcontents hspaces hsource hoffset⟩

end VerticalSlice.Syntax
