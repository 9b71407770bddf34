import VerticalSlice.Proofs.Feature.Marks
import VerticalSlice.Proofs.Feature.Program
import VerticalSlice.Proofs.Syntax.Inserting
import VerticalSlice.Proofs.Syntax.Interface
import VerticalSlice.Proofs.Syntax.Outer
import VerticalSlice.Proofs.Syntax.Respelling

/-!
# The entry of a route table

The entry that leads to a feature is the text of an item with its comma (`isItemText_entry`), it is read in
one way only wherever an item may begin (`isEntry_entry`), and what is read is an object with the path and
with a loader of the routes of the feature, from which it takes their table (`exists_entry`), for all names and
for all routes that may stand between quotes. All this is found out about its outline: names go into its holes,
and the literal of the path says the route.
-/

namespace VerticalSlice.Feature

open Syntax

/-! ## The outline -/

/-- The outline of the entry without the end of its last line. -/
def entryOutline : Text := (outline entryPieces).dropLast

/-- The brace that the entry begins with. -/
def entryHead : Lexeme := ⟨.mark, "  ", "\x7b"⟩

/-- The other lexemes of the outline. -/
def entryTail : List Lexeme := List.append
  [⟨.word, "\n    ", "path"⟩, ⟨.mark, [], ":"⟩, ⟨.string, " ", "'\uE001'"⟩, ⟨.mark, [], ","⟩,
    ⟨.word, "\n    ", "loadChildren"⟩, ⟨.mark, [], ":"⟩, ⟨.mark, " ", "("⟩, ⟨.mark, [], ")"⟩,
    ⟨.mark, " ", "=>"⟩, ⟨.word, "\n      ", "import"⟩, ⟨.mark, [], "("⟩,
    ⟨.string, [], "'./features/\uE000/\uE000.routes'"⟩, ⟨.mark, [], ")"⟩]
  [⟨.mark, [], "."⟩, ⟨.word, [], "then"⟩, ⟨.mark, [], "("⟩, ⟨.mark, [], "("⟩, ⟨.word, [], "m"⟩,
    ⟨.mark, [], ")"⟩, ⟨.mark, " ", "=>"⟩, ⟨.word, " ", "m"⟩, ⟨.mark, [], "."⟩,
    ⟨.word, [], "\uE003_ROUTES"⟩, ⟨.mark, [], ")"⟩, ⟨.mark, [], ","⟩, ⟨.mark, "\n  ", "\x7d"⟩,
    ⟨.mark, [], ","⟩]

/-- What is seen of the entry. -/
def entryViews : List View :=
  viewsFrom true ((placeFrom 0 0 false (entryHead :: entryTail)).map (Item.mk []))

/-- How the object of the entry is built. -/
def entrySteps : List Step :=
  ((onlyReading? (grammar false) entryViews (.call .assignment)).getD none).getD []

theorem isPlain_entry : isPlain entryPieces = true := by decide

theorem isSteady_entry : (entryHead :: entryTail).all Lexeme.isSteady = true := by decide

theorem plain_entry : ∀ lexeme ∈ entryHead :: entryTail, lexeme.sort ≠ .comment ∧ lexeme.sort ≠ .unknown ∧
    lexeme.blanks.all isSpace = true ∧ lexeme.text ≠ [] ∧
    (lexeme.sort = .mark → isFilled lexeme.text = true ∧ lexeme.isClosed = true) := by
  decide

/-! ## Cutting -/

/-- The entry in front of its path. -/
def entryFront : Text := "  \x7b\n    path:"

/-- The entry behind its path. -/
def entryBack : Text := entryOutline.drop 17

/-- The lexemes of the front and of the back. -/
theorem entry_lexemes : entryHead :: entryTail = (entryHead :: entryTail).take 3 ++
    ⟨.string, " ", Substitution.literal Hole.route.mark⟩ :: (entryHead :: entryTail).drop 4 := by decide

/-- Behind a bracket and behind a comma the front is cut into its lexemes. -/
theorem cutWithin_entryFront : ∀ last ∈ ([['['], [',']] : List Text),
    cutWithin [' '] 8 ⟨[], false, last⟩ entryFront =
        some ((entryHead :: entryTail).take 3, ⟨[.braces true], false, [':']⟩) ∧
      aboveWithin 8 ⟨[], false, last⟩ (entryFront ++ [' ']) = true := by
  decide +kernel

/-- Behind the path the back is cut into its lexemes. -/
theorem cutWithin_entryBack :
    cutWithin ['\n'] 32 ⟨[.braces true], true, ['\'']⟩ entryBack =
        some ((entryHead :: entryTail).drop 4, ⟨[], false, [',']⟩) ∧
      aboveWithin 32 ⟨[.braces true], true, ['\'']⟩ (entryBack ++ ['\n']) = true ∧
      tameWithin 32 ⟨[.braces true], true, ['\'']⟩ (entryBack ++ ['\n']) = true := by
  decide +kernel

/-- But for the literal of the path no lexeme says it or what is in it. -/
theorem isApart_entry : ((entryHead :: entryTail).take 3 ++ (entryHead :: entryTail).drop 4).all
    (fun lexeme => Substitution.isApart Hole.route.mark lexeme.text) = true := by
  decide

variable {name : FeatureName} {route : Text} (hname : name.IsSpelling)

/-- How the texts of the outline are spelled in the entry. -/
def entrySpelling (route : Text) : Text → Text :=
  (filling name name.kebab hname (isRoute_kebab hname)).spelling Hole.route.mark route

theorem isClosed_entry (σ : Substitution) :
    ∀ lexeme ∈ (entryHead :: entryTail).map σ.lexeme, lexeme.isClosed = true := by
  rw [List.forall_mem_map]
  intro lexeme hlexeme
  obtain ⟨-, hunknown, -, -, hmark⟩ := plain_entry lexeme hlexeme
  rw [Lexeme.isClosed, Substitution.lexeme]
  by_cases hsort : lexeme.sort = .mark
  · obtain ⟨hfilled, hclosed⟩ := hmark hsort
    rw [Substitution.text_of_isFilled σ hfilled]
    exact hclosed
  · rw [Option.all_eq_true]
    intro c _
    rw [isClosed, beq_eq_false_iff_ne.2 hsort, Bool.false_and, Bool.not_false, Bool.and_true,
      bne_iff_ne]
    exact hunknown

/-- A proper path may stand between quotes. -/
theorem IsRoute.isQuotable (h : IsRoute route) : isQuotable route = true :=
  (isQuotable_iff_of_notMem (notMem_of_isRouteChar h.2 (by decide))).2
    ⟨notMem_of_isRouteChar h.2 (by decide), notMem_of_isRouteChar h.2 (by decide)⟩

/-- In front of the path the entry is cut into its first lexemes. -/
theorem cuts_entryFront {state : LexState} (hawaits : state.Awaits) (behind : Text) :
    Cuts (' ' :: behind) state entryFront ((entryHead :: entryTail).take 3)
      ⟨.braces true :: state.stack, false, [':']⟩ := by
  obtain ⟨stack, operandEnded, last⟩ := state
  obtain rfl : operandEnded = false := hawaits.operandEnded_eq
  obtain ⟨hcut, habove⟩ := cutWithin_entryFront last (by simpa using hawaits.last_eq)
  have hover := (cuts_of_cutWithin hcut).over hawaits.isOpenCode rfl habove
  exact hover.exchange ⟨⟨_, _, rfl, rfl⟩, ⟨_, _, rfl, rfl⟩, rfl⟩ hawaits.isCode (.inr (by decide))

/-- The path is cut as one literal. -/
theorem cuts_path (stack : List Context) (hroute : isQuotable route = true) (behind : Text) :
    Cuts behind ⟨.braces true :: stack, false, [':']⟩ (' ' :: '\'' :: (route ++ ['\'']))
      [⟨.string, " ", '\'' :: (route ++ ['\''])⟩] ⟨.braces true :: stack, true, ['\'']⟩ := by
  have hlength : quotedLength? '\'' false false (route ++ ['\''] ++ behind) = some (route.length + 1) := by
    rw [List.append_assoc]
    exact quotedLength?_eq_some_iff.2 hroute
  have hcut : cut false ⟨.braces true :: stack, false, [':']⟩ ('\'' :: (route ++ ['\'']) ++ behind) =
      (.string, route.length + 2, ⟨.braces true :: stack, true, ['\'']⟩) := by
    rw [cut_eq_cutCode rfl]
    exact cutCode_string (.inr rfl) hlength
  have hall : ('\'' :: (route ++ ['\''])).length = route.length + 2 := by simp
  have hcuts := @Cuts.of_code behind ⟨.braces true :: stack, false, [':']⟩ _ _ " " _ _ _ _
    (List.cons_ne_nil _ _) rfl hcut (Nat.succ_pos _) (Nat.le_of_eq hall.symm)
    (by rw [← hall, List.drop_length]; exact .done)
  rwa [← hall, List.take_length] at hcuts

/-- Behind the path the entry is cut into its other lexemes. -/
theorem cuts_entryBack (σ : Substitution) {stack : List Context} (hopen : isOpenCode stack = true)
    (hcode : stack.all Context.isCode = true) (behind : Text) :
    Cuts ('\n' :: behind) ⟨.braces true :: stack, true, ['\'']⟩ (σ.text entryBack)
      (((entryHead :: entryTail).drop 4).map σ.lexeme) ⟨stack, false, [',']⟩ := by
  obtain ⟨hcut, habove, htame⟩ := cutWithin_entryBack
  have hover := (cuts_of_cutWithin hcut).over hopen rfl habove
  have hfilled := hover.fill σ (tameWithin_over hopen rfl habove htame)
  have hbreak : σ.text ['\n'] = ['\n'] := Substitution.text_of_isFilled σ (by decide)
  have hquote : σ.text ['\''] = ['\''] := Substitution.text_of_isFilled σ (by decide)
  have hcomma : σ.text [','] = [','] := Substitution.text_of_isFilled σ (by decide)
  rw [hbreak, Substitution.state, Substitution.state] at hfilled
  simp only [LexState.over, List.nil_append, List.cons_append, hquote, hcomma] at hfilled
  refine hfilled.exchange ⟨⟨_, _, rfl, rfl⟩, ⟨_, _, rfl, rfl⟩, rfl⟩ hcode (.inr fun lexeme hlexeme => ?_)
  rw [List.map_drop] at hlexeme
  exact isClosed_entry σ lexeme (List.mem_of_mem_drop hlexeme)

/-- The entry without the end of its last line. -/
def entryText (route : Text) : Text :=
  entryFront ++ (' ' :: '\'' :: (route ++ ['\'']) ++
    (filling name name.kebab hname (isRoute_kebab hname)).text entryBack)

/-- What is written is the text of an item with its comma, and the end of its line. -/
theorem isItemText_entry (hroute : isQuotable route = true) :
    IsItemText (entryText hname route) ((entryHead :: entryTail).map (Lexeme.respelled (entrySpelling hname route)))
    where
  opens := ⟨[' ', '\x7b'], _, rfl, Text.forall_mem (by decide)⟩
  cuts := by
    intro state hawaits behind
    rw [entrySpelling, entryText]
    generalize filling name name.kebab hname (isRoute_kebab hname) = σ
    have hapart := isApart_entry
    rw [List.all_append, Bool.and_eq_true] at hapart
    have hsame : ∀ {lexemes : List Lexeme},
        lexemes.all (fun lexeme => Substitution.isApart Hole.route.mark lexeme.text) = true →
          lexemes.map (Lexeme.respelled (σ.spelling Hole.route.mark route)) = lexemes.map σ.lexeme :=
      fun h => List.map_congr_left fun lexeme hlexeme =>
        Substitution.respelled_of_isApart σ (List.all_eq_true.1 h lexeme hlexeme)
    have hfilled : ((entryHead :: entryTail).take 3).map σ.lexeme = (entryHead :: entryTail).take 3 := by
      refine List.map_congr_left (g := id) (fun lexeme hlexeme => ?_) |>.trans (List.map_id _)
      have hall : ∀ lexeme ∈ (entryHead :: entryTail).take 3, isFilled lexeme.text = true := by decide
      rw [Substitution.lexeme, Substitution.text_of_isFilled σ (hall lexeme hlexeme), id]
    rw [entry_lexemes, List.map_append, List.map_cons, hsame hapart.1, hsame hapart.2, hfilled]
    have hpath := (cuts_path state.stack hroute (σ.text entryBack ++ '\n' :: behind)).append
      (cuts_entryBack σ hawaits.isOpenCode hawaits.isCode behind)
    rw [Lexeme.respelled, Substitution.spelling_literal]
    exact (cuts_entryFront hawaits _).append hpath

/-- The pieces behind the path are its back and the end of its line. -/
theorem fill_restPieces (route : Text) : fill (holeValues name route) restPieces =
    (filling name name.kebab hname (isRoute_kebab hname)).text entryBack ++ ['\n'] := by
  have houtline : outline restPieces = entryBack ++ ['\n'] := by decide
  rw [fill_of_no_route (by decide) name route name.kebab, fill_eq_text hname (isRoute_kebab hname) (by decide),
    houtline, Substitution.text_append, Substitution.text_of_isFilled _ (show isFilled ['\n'] = true by decide)]

theorem routeEntry_eq_text (route : Text) : routeEntry route name = entryText hname route ++ ['\n'] := by
  have hfront : "  \x7b\n    path: ".toList = entryFront ++ [' '] := by decide
  rw [routeEntry_eq, hfront, fill_restPieces hname, entryText]
  simp only [List.append_assoc, List.cons_append, List.nil_append]

/-! ## Reading -/

theorem isEntry_entry : IsEntry false entryViews entrySteps where
  isItem := isItem_of_closesAll (by decide) (by decide)
  awaits := by decide
  reading := by decide +kernel
  admits symbol := by
    -- all symbols at once, so that the steps are looked for only once
    have hall : ([.statement, .block, .expression, .assignment, .unary, .type, .typeOperand, .target, .element] :
        List Symbol).all (fun symbol =>
          (grammar false symbol).admits (grammar false) entryViews (entrySteps ++ [.bound .array])) = true := by
      decide +kernel
    exact List.all_eq_true.1 hall symbol (by cases symbol <;> decide)
  admitsProgram := by decide

/-! ## The object -/

/-- The module with the routes of a feature, as the table names it. -/
def routesModule (kebab : Text) : Text := Text.concat ["./features/", kebab, "/", kebab, ".routes"]

/-- The interface of the entry: it loads the routes of the feature and takes their table. -/
def entryInterface (name : FeatureName) : Interface :=
  .loading (routesModule name.kebab) (name.const ++ "_ROUTES".toList)

/-- The node is the object of a route: it gives values to the path and the loader and to nothing else, the
loader loads this module only, and there are no other objects and no arrays in it. -/
structure LeadsTo (route target : Text) (node : Node) : Prop where
  kind_eq : node.kind = .object
  names_eq : node.pairs.map (·.1) = [some "path".toList, some "loadChildren".toList]
  path_eq : node.propertyString? "path" = some route
  loader_eq : (node.property? "loadChildren").map Node.deferredImports = some [target]
  inside : ∀ other ∈ Node.preorderAll node.children,
    other.kind ∉ [Kind.object, .array, .importStatement, .exportStatement]

instance (route target : Text) (node : Node) : Decidable (LeadsTo route target node) :=
  decidable_of_iff (node.kind = .object ∧
      node.pairs.map (·.1) = [some "path".toList, some "loadChildren".toList] ∧
      node.propertyString? "path" = some route ∧
      (node.property? "loadChildren").map Node.deferredImports = some [target] ∧
      ∀ other ∈ Node.preorderAll node.children,
        other.kind ∉ [Kind.object, .array, .importStatement, .exportStatement])
    ⟨fun h => ⟨h.1, h.2.1, h.2.2.1, h.2.2.2.1, h.2.2.2.2⟩,
      fun h => ⟨h.kind_eq, h.names_eq, h.path_eq, h.loader_eq, h.inside⟩⟩

section

variable {f : Label → Label} {g : Text → Text} {node : Node} {target : Text}

theorem loader_relabel (h : Relabels f g node) (name : Text) :
    ((node.relabel f).property? name).map Node.deferredImports =
      ((node.property? name).map Node.deferredImports).map (List.map g) := by
  rw [h.property?]
  cases hvalue : node.property? name with
  | none => rfl
  | some value => exact congrArg some (h.of_mem (Node.mem_preorder_of_property? hvalue)).deferredImports

theorem forall_kind_relabel (h : Faithful f) {p : Kind → Prop} :
    (∀ other ∈ Node.preorderAll (node.relabel f).children, p other.kind) ↔
      ∀ other ∈ Node.preorderAll node.children, p other.kind := by
  rw [Node.children_relabel, ← Node.relabelEach_eq_map, Node.preorderAll_relabelEach, List.forall_mem_map]
  simp only [h.kind_relabel]

/-- With other labels the object leads to where they lead. -/
theorem LeadsTo.relabel (h : LeadsTo route target node) (hlabels : Relabels f g node) :
    LeadsTo (g route) (g target) (node.relabel f) where
  kind_eq := (hlabels.kind_relabel node).trans h.kind_eq
  names_eq := by
    rw [hlabels.pairs_eq, List.map_map]
    exact h.names_eq
  path_eq := by rw [hlabels.propertyString?, h.path_eq, Option.map_some]
  loader_eq := by
    rw [loader_relabel hlabels, h.loader_eq]
    rfl
  inside := (@forall_kind_relabel f node hlabels.toFaithful (· ∉ _)).2 h.inside

theorem LeadsTo.of_relabel (h : LeadsTo route target (node.relabel f)) (hlabels : Relabels f id node) :
    LeadsTo route target node where
  kind_eq := (hlabels.kind_relabel node).symm.trans h.kind_eq
  names_eq := by
    have hnames := h.names_eq
    rw [hlabels.pairs_eq, List.map_map] at hnames
    exact hnames
  path_eq := by
    have hpath := h.path_eq
    rwa [hlabels.propertyString?, Option.map_id, id] at hpath
  loader_eq := by
    have hloader := h.loader_eq
    rw [loader_relabel hlabels, List.map_id_fun, Option.map_id] at hloader
    exact hloader
  inside := (@forall_kind_relabel f node hlabels.toFaithful (· ∉ _)).1 h.inside

end

/-! ## Building -/

/-- Where a token stands is nothing that is built. -/
theorem build_congr_afterBreak (steps : List Step) {tokens tokens' : List Token}
    (h : tokens.map (fun token => { token with afterBreak := false }) =
      tokens'.map fun token => { token with afterBreak := false }) :
    build steps (tokens.map (Item.mk [])) = build steps (tokens'.map (Item.mk [])) := by
  have htranslates : Translates id fun token : Token => { token with afterBreak := false } :=
    ⟨fun _ => rfl, fun _ _ => rfl, fun _ _ => (congrArg _ (List.map_id _)).symm, fun _ _ => rfl⟩
  have hbuild : ∀ tokens : List Token, build steps (tokens.map (Item.mk [])) =
      build steps ((tokens.map fun token => { token with afterBreak := false }).map (Item.mk [])) := by
    intro tokens
    have := htranslates.build_map steps (tokens.map (Item.mk []))
    rw [List.map_id, List.map_map] at this
    rw [← this, List.map_map]
    rfl
  rw [hbuild tokens, hbuild tokens', h]

theorem map_placeFrom_afterBreak (lexemes : List Lexeme) (offset line : Nat) (broken broken' : Bool) :
    (placeFrom offset line broken lexemes).map (fun token => { token with afterBreak := false }) =
      (placeFrom offset line broken' lexemes).map fun token => { token with afterBreak := false } := by
  induction lexemes generalizing offset line broken broken' with
  | nil => rfl
  | cons lexeme rest ih =>
    rw [placeFrom, placeFrom, List.map_cons, List.map_cons]
    exact congrArg (_ :: ·) (ih _ _ _ _)

/-- The items of other tokens. -/
theorem build_map_tokens {φ : Node → Node} {τ : Token → Token} (h : Translates φ τ) (steps : List Step)
    (tokens : List Token) :
    build steps ((tokens.map τ).map (Item.mk [])) = (build steps (tokens.map (Item.mk []))).map φ := by
  rw [← h.build_map, List.map_map, List.map_map]
  rfl

/-- How a filled row moves when it gets more blanks in front. -/
def moveFor (head : Lexeme) (offset : Nat) (more : Text) : Move :=
  ⟨offset + head.blanks.length, more.length, more.count '\n', more ++ head.blanks⟩

section

variable {head : Lexeme} {tail : List Lexeme} (offset line : Nat) (broken : Bool)

/-- What is built from a row of lexemes that gets more blanks in front says the same, but for the places. -/
theorem build_moved (steps : List Step) (hsort : head.sort ≠ .comment) (htext : head.text ≠ [])
    (hblanks : head.blanks ≠ []) (more : Text) :
    build steps ((placeFrom offset line broken
        ({ head with blanks := more ++ head.blanks } :: tail)).map (Item.mk [])) =
      (build steps ((placeFrom offset line broken (head :: tail)).map (Item.mk []))).map
        (moveFor head offset more).node := by
  have hpos : 0 < (moveFor head offset more).start :=
    Nat.add_pos_right _ (List.length_pos_iff.2 hblanks)
  have hchars : offset + (moveFor head offset more).blanks.length =
      (moveFor head offset more).start + (moveFor head offset more).chars := by
    simp only [moveFor, List.length_append]
    omega
  have hlines : line + (moveFor head offset more).blanks.count '\n' =
      line + head.blanks.count '\n' + (moveFor head offset more).lines := by
    simp only [moveFor, List.count_append]
    omega
  have hmoved := Move.map_placeFrom_at (moveFor head offset more) htext hsort rfl hchars hlines broken tail
  rw [← build_map_tokens ((moveFor head offset more).translates hpos), hmoved]
  exact build_congr_afterBreak steps (map_placeFrom_afterBreak _ _ _ _ _)

variable {spell : Text → Text} (hplain : ∀ lexeme ∈ head :: tail, lexeme.sort ≠ .comment)

include hplain

/-- What is built from a row of lexemes that are spelled in another way is what is built from the row, spelled
in that way. -/
theorem build_respelled (steps : List Step) (hnil : spell [] = []) :
    (build steps ((placeFrom offset line broken ((head :: tail).map (Lexeme.respelled spell))).map
        (Item.mk []))).map Substitution.identity.node =
      (build steps ((placeFrom 0 0 false (head :: tail)).map (Item.mk []))).map
        (Node.relabel (Label.respelled spell)) := by
  rw [← build_map_tokens Substitution.identity.translates, placeFrom_respelled hplain offset line 0 0 broken,
    build_map_tokens (translates_respelled hnil),
    build_congr_afterBreak steps (map_placeFrom_afterBreak (head :: tail) 0 0 broken false)]

/-- What is seen of such a row where a new item begins is what is seen of the row, whatever stands in front. -/
theorem views_respelled (hsign : ∀ lexeme ∈ head :: tail, lexeme.KeepsSign spell) (blanks : Text) :
    viewsFrom true ((placeFrom offset line broken
        ({ head.respelled spell with blanks := blanks } :: tail.map (Lexeme.respelled spell))).map (Item.mk [])) =
      viewsFrom true ((placeFrom 0 0 false (head :: tail)).map (Item.mk [])) := by
  have hsort : (head.sort == .comment) = false := beq_eq_false_iff_ne.2 (hplain head (List.mem_cons_self ..))
  have htail : ∀ lexeme ∈ tail, lexeme.sort ≠ .comment := fun lexeme hlexeme =>
    hplain lexeme (List.mem_cons_of_mem _ hlexeme)
  rw [← viewsFrom_respelled hsign hplain true false 0 0 0 0, List.map_cons, placeFrom, placeFrom, List.map_cons,
    List.map_cons]
  refine viewsFrom_cons_congr ?_ ?_ fun apart => ?_
  · rfl
  · rfl
  · dsimp only [Lexeme.respelled]
    rw [hsort, Bool.false_and, Bool.false_and]
    have hrow := fun offset line => @viewsFrom_respelled spell tail
      (fun lexeme hlexeme => hsign lexeme (List.mem_cons_of_mem _ hlexeme)) htail apart false offset line 0 0
    exact (hrow _ _).trans (hrow _ _).symm

end

/-- The outline of the entry is built into an object that leads from its hole to the outline of the module,
and a comma. The path is kept apart from all else that is in the object. -/
theorem exists_outline : ∃ raw comma,
    build (entrySteps ++ [.bound .array]) ((placeFrom 0 0 false (entryHead :: entryTail)).map (Item.mk [])) =
      [raw, comma] ∧
    (build entrySteps ((placeFrom 0 0 false (entryHead :: entryTail)).map (Item.mk []))).length = 1 ∧
      raw.isRegular = true ∧ (∀ node ∈ raw.preorder, Substitution.keepsApart Hole.route.mark node = true) ∧
      comma.kind = .mark ∧ comma.children = [] ∧
      LeadsTo [Hole.route.mark] (outline ["./features/", Hole.kebab, "/", Hole.kebab, ".routes"]) raw ∧
      raw.interface = .loading (outline ["./features/", Hole.kebab, "/", Hole.kebab, ".routes"])
        (outline [Hole.const, "_ROUTES"]) := by
  have hall : (fun nodes : List Node => nodes.length = 2 ∧
      (nodes[0]?.any fun raw => raw.isRegular && raw.preorder.all (Substitution.keepsApart Hole.route.mark) &&
        decide (LeadsTo [Hole.route.mark] (outline ["./features/", Hole.kebab, "/", Hole.kebab, ".routes"]) raw ∧
          raw.interface = .loading (outline ["./features/", Hole.kebab, "/", Hole.kebab, ".routes"])
            (outline [Hole.const, "_ROUTES"]))) = true ∧
      (nodes[1]?.any fun comma => decide (comma.kind = .mark) && comma.children.isEmpty) = true)
      (build (entrySteps ++ [.bound .array]) ((placeFrom 0 0 false (entryHead :: entryTail)).map (Item.mk []))) := by
    decide +kernel
  obtain ⟨hlength, hraw, hcomma⟩ := hall
  obtain ⟨raw, comma, hbuild⟩ := List.length_eq_two.1 hlength
  rw [hbuild, List.getElem?_cons_zero, Option.any_some, Bool.and_eq_true, Bool.and_eq_true, List.all_eq_true,
    decide_eq_true_eq] at hraw
  rw [hbuild, List.getElem?_cons_succ, List.getElem?_cons_zero, Option.any_some, Bool.and_eq_true,
    decide_eq_true_eq, List.isEmpty_iff] at hcomma
  exact ⟨raw, comma, hbuild, by decide +kernel, hraw.1.1, hraw.1.2, hcomma.1, hcomma.2, hraw.2⟩

/-- Steps that put nothing into names, and a comma behind them. -/
theorem lexical_build_append {steps : List Step} (h : KeepsLexical steps) {items : List Item}
    (hitems : ∀ item ∈ items, item.Spaced) (kind : Kind) :
    ∀ node ∈ build (steps ++ [.bound kind]) items, node.Lexical := by
  have hrun := h ⟨⟨none, []⟩, [], items⟩ ⟨(fun _ h => by cases h), (fun _ h => by cases h), hitems⟩
  rw [build, Building.run_append]
  exact (hrun.addLeaf .mark).site

/-- The nodes of the entry are those of programs. -/
theorem lexical_entry {spell : Text → Text} (hne : ∀ lexeme ∈ entryHead :: entryTail, spell lexeme.text ≠ [])
    (offset line : Nat) (broken : Bool) : ∀ node ∈ build (entrySteps ++ [.bound .array])
      ((placeFrom offset line broken ((entryHead :: entryTail).map (Lexeme.respelled spell))).map (Item.mk [])),
      node.Lexical := by
  obtain ⟨seen, -, -, hderives⟩ := isEntry_entry.exists_derives
  have hkeeps := hderives.keepsLexical (proper_grammar false) (by decide)
  refine lexical_build_append hkeeps (List.forall_mem_map.2 fun token htoken => ?_) .array
  refine ⟨nofun, blanks_of_mem_placeFrom (List.forall_mem_map.2 fun lexeme hlexeme => ?_) htoken⟩
  obtain ⟨-, -, hblanks, -⟩ := plain_entry lexeme hlexeme
  exact ⟨hblanks, fun _ => hne lexeme hlexeme⟩

theorem exists_build_append (steps : List Step) (kind : Kind) (items : List Item) :
    ∃ more, build (steps ++ [.bound kind]) items = build steps items ++ more := by
  rw [build, Building.run_append, build]
  generalize (Building.mk ⟨none, []⟩ [] items).run steps = building
  obtain ⟨site, around, items⟩ := building
  cases items with
  | nil => exact ⟨[], (List.append_nil _).symm⟩
  | cons item rest => exact ⟨_, rfl⟩

/-- Steps that build one node build the first of two with a comma behind them. -/
theorem build_eq_singleton {steps : List Step} {kind : Kind} {items : List Item} {first second : Node}
    (hlength : (build steps items).length = 1)
    (hboth : build (steps ++ [.bound kind]) items = [first, second]) : build steps items = [first] := by
  obtain ⟨only, honly⟩ := List.length_eq_one_iff.1 hlength
  obtain ⟨more, hmore⟩ := exists_build_append steps kind items
  rw [hboth, honly, List.singleton_append] at hmore
  rw [honly, (List.cons.inj hmore).1]

/-- The texts of the outline are spelled with something. -/
theorem entrySpelling_ne_nil (route : Text) :
    ∀ lexeme ∈ entryHead :: entryTail, entrySpelling hname route lexeme.text ≠ [] := by
  intro lexeme hlexeme
  have hall : ∀ lexeme ∈ entryHead :: entryTail, lexeme.text = Substitution.literal Hole.route.mark ∨
      Substitution.isApart Hole.route.mark lexeme.text = true := by
    decide
  rw [entrySpelling]
  rcases hall lexeme hlexeme with hliteral | hapart
  · rw [hliteral, Substitution.spelling_literal]
    exact List.cons_ne_nil _ _
  · obtain ⟨-, -, -, htext, -⟩ := plain_entry lexeme hlexeme
    rw [Substitution.spelling_of_isApart _ hapart]
    exact Substitution.text_ne_nil _ htext

/-- Rules see nothing of the name and of the route. -/
theorem keepsSign_entry (route : Text) :
    ∀ lexeme ∈ entryHead :: entryTail, lexeme.KeepsSign (entrySpelling hname route) := by
  intro lexeme hlexeme
  have hall : ∀ lexeme ∈ entryHead :: entryTail, lexeme.sort = .string ∨
      Substitution.isApart Hole.route.mark lexeme.text = true := by
    decide
  exact Substitution.keepsSign_spelling _ (List.all_eq_true.1 isSteady_entry lexeme hlexeme) (hall lexeme hlexeme)

/-- What is written leads from the route to the module of the feature. -/
theorem exists_entry (route : Text) (offset line : Nat) (broken : Bool) {more : Text}
    (hmore : more.all isSpace = true) {items : List Item} (hitems : items = (placeFrom offset line broken
      ({ entryHead.respelled (entrySpelling hname route) with blanks := more ++ entryHead.blanks } ::
        entryTail.map (Lexeme.respelled (entrySpelling hname route)))).map (Item.mk [])) :
    viewsFrom true items = entryViews ∧ ∃ entry comma, build entrySteps items = [entry] ∧
      build (entrySteps ++ [.bound .array]) items = [entry, comma] ∧ comma.kind = .mark ∧ comma.children = [] ∧
      LeadsTo route (routesModule name.kebab) entry ∧ entry.interface = entryInterface name := by
  have hplain : ∀ lexeme ∈ entryHead :: entryTail, lexeme.sort ≠ .comment := fun lexeme h => (plain_entry lexeme h).1
  refine ⟨hitems ▸ views_respelled offset line broken hplain (keepsSign_entry hname route) _, ?_⟩
  obtain ⟨raw, rawComma, hraw, hone, hregular, hapart, hmark, hbare, hleads, hinterface⟩ := exists_outline
  have hne := entrySpelling_ne_nil hname route
  have hroute : entrySpelling hname route [Hole.route.mark] = route := Substitution.spelling_hole _
  have hmodule : entrySpelling hname route (outline ["./features/", Hole.kebab, "/", Hole.kebab, ".routes"]) =
      routesModule name.kebab := by
    rw [entrySpelling, Substitution.spelling_of_isApart _ (by decide), ← fill_eq_text hname _ (by decide)]
    rfl
  have htable : entrySpelling hname route (outline [Hole.const, "_ROUTES"]) = name.const ++ "_ROUTES".toList := by
    rw [entrySpelling, Substitution.spelling_of_isApart _ (by decide), ← fill_eq_text hname _ (by decide)]
    rfl
  have hlabels : Relabels (Label.respelled (entrySpelling hname route)) (entrySpelling hname route) raw :=
    Substitution.relabels_spelling (Substitution.regular_of_isRegular _ hregular) hapart
  have hnil : entrySpelling hname route [] = [] := Substitution.spelling_nil _
  generalize entrySpelling hname route = spell at hne hroute hmodule htable hlabels hnil hitems
  -- the row of the entry without the new blanks, and how it moves when it gets them
  have hrespelled := fun steps => @build_respelled _ _ offset line broken spell hplain steps hnil
  have hlexical := lexical_entry hne offset line broken
  have hmoved : ∀ steps, build steps items = (build steps ((placeFrom offset line broken
      ((entryHead :: entryTail).map (Lexeme.respelled spell))).map (Item.mk []))).map
        (moveFor (entryHead.respelled spell) offset more).node := by
    intro steps
    rw [hitems]
    exact @build_moved (entryHead.respelled spell) _ offset line broken steps
      (show entryHead.sort ≠ .comment by decide) (hne entryHead (List.mem_cons_self ..))
      (show entryHead.blanks ≠ [] by decide) more
  have hblanks : (moveFor (entryHead.respelled spell) offset more).blanks.all isSpace = true := by
    rw [moveFor, List.all_append, hmore]
    exact (show entryHead.blanks.all isSpace = true by decide)
  generalize (placeFrom offset line broken ((entryHead :: entryTail).map (Lexeme.respelled spell))).map
    (Item.mk []) = row at hrespelled hlexical hmoved
  generalize moveFor (entryHead.respelled spell) offset more = move at hmoved hblanks
  have hboth := hrespelled (entrySteps ++ [.bound .array])
  rw [hraw] at hboth
  obtain ⟨filled, comma, hbuild⟩ : ∃ filled comma, build (entrySteps ++ [.bound .array]) row = [filled, comma] := by
    have hlength := congrArg List.length hboth
    rw [List.length_map, List.length_map] at hlength
    exact List.length_eq_two.1 hlength
  rw [hbuild, List.map_cons, List.map_cons, List.map_cons, List.map_cons, List.cons.injEq,
    List.cons.injEq] at hboth
  obtain ⟨hnode, hcomma, -⟩ := hboth
  have hrow : build (entrySteps ++ [.bound .array]) items = [move.node filled, move.node comma] := by
    rw [hmoved, hbuild, List.map_cons, List.map_cons, List.map_nil]
  have hlength : (build entrySteps items).length = 1 := by
    have hlength := congrArg List.length (hrespelled entrySteps)
    rw [List.length_map, List.length_map, hone] at hlength
    rw [hmoved, List.length_map, hlength]
  have hidentity : Relabels Substitution.identity.label id filled := by
    have hlabels := (Substitution.regular_identity filled).relabels
    rwa [show Substitution.identity.text = id from funext Substitution.identity_text] at hlabels
  have hmoves := (hlexical filled (hbuild ▸ List.mem_cons_self ..)).renames hblanks
  refine ⟨_, _, build_eq_singleton hlength hrow, hrow, ?_, ?_, ?_, ?_⟩
  · have hkind := congrArg Node.kind hcomma
    rw [Substitution.kind_node, faithful_respelled.kind_relabel] at hkind
    rw [Move.kind_node, hkind, hmark]
  · have hchildren := congrArg Node.children hcomma
    rw [Substitution.children_node, Node.children_relabel, hbare, List.map_nil, List.map_eq_nil_iff] at hchildren
    rw [Move.node, Node.children_relabel, hchildren, List.map_nil]
  · have hraised := hleads.relabel hlabels
    rw [← hnode, Substitution.node_eq_relabel, hroute, hmodule] at hraised
    exact (hraised.of_relabel hidentity).relabel hmoves
  · have hraised := hlabels.interface
    rw [← hnode, Substitution.node_eq_relabel, hidentity.interface, Interface.map_id, hinterface] at hraised
    rw [Move.node, hmoves.interface, Interface.map_id, hraised, Interface.map_loading, hmodule, htable, entryInterface]

end VerticalSlice.Feature
