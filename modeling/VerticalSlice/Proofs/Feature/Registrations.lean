import VerticalSlice.Proofs.Feature.Marks
import VerticalSlice.Proofs.Feature.Program
import VerticalSlice.Proofs.Tree.Rewriting

/-!
# Runs of registrations

Routes are put into a table one after the other. Each call looks for the mark of its route in the text
of the table, which grows with every call; what a call that succeeds may have done is said once
(`register_ok_cases`). `Attempt` is one call with the trees around it, and `attempts`
is a run. A call finds its route present exactly if the table had it before the run or an earlier call
put it in (`attempts_exact`): an entry goes in where it cuts no mark in two, and brings no mark but its
own. So one step adds one route to those a table has (`routeMark_infix_after`), and a run adds those of
its calls (`attempts_spec`).
-/

namespace VerticalSlice.Feature

open FileTree Syntax

/-! ## Where an entry goes -/

/-- If a wildcard route is found in the table, a brace opens there. -/
def WildcardOpens (text : Text) : Prop :=
  ∀ brace, wildcardOffset? text = some brace → text[brace]? = some '\x7b'

/-- The text is cut in front of the brace of the wildcard route, or in front of the blanks before it
where these begin a line; without a wildcard route it is cut in front of the last end of an array. -/
def IsInsertion (text before after : Text) : Prop :=
  before ++ after = text ∧
    match wildcardOffset? text with
    | some brace => ∃ blanks rest, after = blanks ++ '\x7b' :: rest ∧
        before.length + blanks.length = brace ∧
        (blanks = [] ∨
          blanks.all Text.isBlank = true ∧ (before = [] ∨ before.getLast? = some '\n'))
    | none => ∃ rest, after = ']' :: ';' :: rest ∧ ¬"];".toList <:+: ';' :: rest

variable {text before after : Text}

/-- In front of a brace a text is cut at the brace, or where its line begins. -/
theorem splitBefore_cases (front rest : Text) :
    splitBefore (front ++ rest) front.length = (front, rest) ∨
      ∃ lines blanks, front = lines ++ blanks ∧ blanks.all Text.isBlank = true ∧
        (lines = [] ∨ lines.getLast? = some '\n') ∧
        splitBefore (front ++ rest) front.length = (lines, blanks ++ rest) := by
  rw [splitBefore, List.take_left]
  split
  · next hblank =>
    have hfront : (front.reverse.dropWhile (· ≠ '\n')).reverse ++
        (front.reverse.takeWhile (· ≠ '\n')).reverse = front := by
      rw [← List.reverse_append, List.takeWhile_append_dropWhile, List.reverse_reverse]
    have hlines : (front.reverse.dropWhile (· ≠ '\n')).reverse = [] ∨
        (front.reverse.dropWhile (· ≠ '\n')).reverse.getLast? = some '\n' := by
      cases hrest : front.reverse.dropWhile (· ≠ '\n') with
      | nil => exact .inl rfl
      | cons c lines =>
        have hc := List.head?_dropWhile_not (· ≠ '\n') front.reverse
        rw [hrest] at hc
        refine .inr ?_
        rw [List.getLast?_reverse]
        simpa using hc
    generalize (front.reverse.dropWhile (· ≠ '\n')).reverse = lines at hfront hlines
    generalize (front.reverse.takeWhile (· ≠ '\n')).reverse = blanks at hfront hblank ⊢
    subst hfront
    refine .inr ⟨lines, blanks, rfl, hblank, hlines, ?_⟩
    rw [List.length_append, Nat.add_sub_cancel_right, List.append_assoc, List.take_left,
      List.drop_left]
  · rw [List.take_left, List.drop_left]
    exact .inl rfl

theorem isInsertion_of_insertionPoint? (hopens : WildcardOpens text)
    (h : insertionPoint? text = some (before, after)) : IsInsertion text before after := by
  rw [insertionPoint?] at h
  rw [IsInsertion]
  cases hwildcard : wildcardOffset? text with
  | none =>
    rw [hwildcard] at h
    dsimp only at h ⊢
    obtain ⟨⟨rest, rfl⟩, hlast⟩ := Text.not_infix_of_splitAtLast (by decide) h
    exact ⟨Text.splitAtLast_append h, rest, rfl, hlast⟩
  | some brace =>
    rw [hwildcard] at h
    dsimp only at h ⊢
    obtain ⟨hlt, hbrace⟩ := List.getElem?_eq_some_iff.1 (hopens brace hwildcard)
    have htext : text = text.take brace ++ '\x7b' :: text.drop (brace + 1) := by
      rw [← hbrace, List.getElem_cons_drop, List.take_append_drop]
    have hlength : (text.take brace).length = brace := by
      rw [List.length_take]
      omega
    generalize text.take brace = front at htext hlength
    generalize text.drop (brace + 1) = rest at htext
    subst hlength
    rw [htext] at h
    rcases splitBefore_cases front ('\x7b' :: rest) with hsplit | ⟨lines, blanks, hfront, hblank, hlines, hsplit⟩
    · rw [hsplit] at h
      obtain ⟨rfl, rfl⟩ := Prod.mk.inj (Option.some.inj h)
      exact ⟨htext.symm, [], rest, rfl, rfl, .inl rfl⟩
    · rw [hsplit] at h
      obtain ⟨rfl, rfl⟩ := Prod.mk.inj (Option.some.inj h)
      refine ⟨?_, blanks, rest, rfl, ?_, .inr ⟨hblank, hlines⟩⟩
      · rw [htext, hfront, List.append_assoc]
      · rw [hfront, List.length_append]

theorem IsInsertion.isSeam (h : IsInsertion text before after) : IsSeam before after := by
  obtain ⟨-, h⟩ := h
  split at h
  · obtain ⟨blanks, rest, rfl, -, rfl | ⟨-, hlines⟩⟩ := h
    · exact .inr (.inr (.inl rfl))
    · exact hlines.imp_right .inl
  · obtain ⟨rest, rfl, -⟩ := h
    exact .inr (.inr (.inr rfl))

/-! ## One call -/

section

variable {tree changed : FileTree} {file : Path} {route : Text} {name : FeatureName}

/-- A route that is in the table is found there. -/
theorem register_of_marked (htext : tree.readText file = .ok text) (hmark : routeMark route <:+: text) :
    register tree file route name = .ok (tree, true) := by
  rw [register, if_pos (hasFile_of_readText htext), htext]
  dsimp only
  rw [registerIn, if_pos ((Text.occursIn_iff_infix _ _).2 hmark)]

/-- A route that is not in the table is put into it. -/
theorem register_of_unmarked (htext : tree.readText file = .ok text) (hmark : ¬routeMark route <:+: text)
    (hpoint : insertionPoint? text = some (before, after))
    (hwrite : tree.writeText file (Text.concat [before, routeEntry route name, after]) = .ok changed) :
    register tree file route name = .ok (changed, false) := by
  rw [register, if_pos (hasFile_of_readText htext), htext]
  dsimp only
  rw [registerIn, if_neg (mt (Text.occursIn_iff_infix _ _).1 hmark), hpoint]
  dsimp only
  rw [hwrite]

/-- A call that succeeds has found the route in the text of the table, or has put an entry into that text. -/
theorem register_ok_cases {present : Bool} (h : register tree file route name = .ok (changed, present)) :
    ∃ text, tree.readText file = .ok text ∧
      (routeMark route <:+: text ∧ present = true ∧ changed = tree ∨
        ¬routeMark route <:+: text ∧ present = false ∧ ∃ before after,
          insertionPoint? text = some (before, after) ∧
            tree.writeText file (Text.concat [before, routeEntry route name, after]) = .ok changed) := by
  rw [register] at h
  split at h
  · cases htext : tree.readText file with
    | error fault => rw [htext] at h; cases h
    | ok text =>
      rw [htext] at h
      dsimp only at h
      refine ⟨text, rfl, ?_⟩
      rw [registerIn] at h
      by_cases hmark : routeMark route <:+: text
      · rw [if_pos ((Text.occursIn_iff_infix _ _).2 hmark)] at h
        obtain ⟨rfl, rfl⟩ := Prod.mk.inj (Except.ok.inj h)
        exact .inl ⟨hmark, rfl, rfl⟩
      · rw [if_neg (mt (Text.occursIn_iff_infix _ _).1 hmark)] at h
        cases hpoint : insertionPoint? text with
        | none => rw [hpoint] at h; cases h
        | some parts =>
          obtain ⟨before, after⟩ := parts
          rw [hpoint] at h
          dsimp only at h
          cases hwritten : tree.writeText file (Text.concat [before, routeEntry route name, after]) with
          | error fault => rw [hwritten] at h; cases h
          | ok written =>
            rw [hwritten] at h
            obtain ⟨rfl, rfl⟩ := Prod.mk.inj (Except.ok.inj h)
            exact .inr ⟨hmark, rfl, before, after, rfl, hwritten⟩
  · cases h

end

/-- A route to put into the table, and the feature that it leads to. -/
structure Call where
  route : Text
  name : FeatureName

/-- The name is an accepted one, and the route is made of the characters of routes. -/
def Call.IsProper (call : Call) : Prop :=
  call.name.IsSpelling ∧ ∀ c ∈ call.route, isRouteChar c = true

/-- A call with the trees around it: the table had the route already, or not, or the call failed. -/
structure Attempt where
  call : Call
  before : FileTree
  after : FileTree
  outcome : Except RegistrationFault Bool

/-- Puts a route into the table in a file. A call that fails leaves the tree as it was. -/
def attempt (file : Path) (tree : FileTree) (call : Call) : Attempt :=
  match register tree file call.route call.name with
  | .ok (changed, present) => ⟨call, tree, changed, .ok present⟩
  | .error fault => ⟨call, tree, tree, .error fault⟩

variable {tree : FileTree} {file : Path} {call : Call}

theorem carriageReturn_notMem_of_readText (h : tree.readText file = .ok text) : '\r' ∉ text := by
  obtain ⟨raw, -, rfl⟩ := exists_read_of_readText h
  exact Text.carriageReturn_notMem_normalizeNewlines raw

theorem carriageReturn_notMem_routeEntry {name : FeatureName} {route : Text} (hname : name.IsSpelling)
    (hroute : '\r' ∉ route) : '\r' ∉ routeEntry route name := by
  have hrest := notMem_restPieces hname (d := '\r') (by decide) (by decide) (by decide) route
  rw [routeEntry_eq, List.mem_append, List.mem_cons, List.mem_append, List.mem_cons]
  simp [hroute, hrest]

/-- With an entry in it a text without carriage returns is read as it is, if the route has none. -/
theorem normalizeNewlines_insert {name : FeatureName} {route : Text} (hname : name.IsSpelling) (hroute : '\r' ∉ route)
    (htext : '\r' ∉ text) (hsplit : before ++ after = text) :
    Text.normalizeNewlines (before ++ (routeEntry route name ++ after)) =
      before ++ (routeEntry route name ++ after) := by
  rw [← hsplit, List.mem_append, not_or] at htext
  refine Text.normalizeNewlines_eq_self ?_
  rw [List.mem_append, List.mem_append, not_or, not_or]
  exact ⟨htext.1, carriageReturn_notMem_routeEntry hname hroute, htext.2⟩

/-- What is written can be read again as it is, if there is no carriage return in the route. -/
theorem readText_insert_of_notMem {name : FeatureName} {route : Text} {changed : FileTree} (hname : name.IsSpelling)
    (hroute : '\r' ∉ route) (htext : tree.readText file = .ok text) (hsplit : before ++ after = text)
    (h : tree.writeText file (Text.concat [before, routeEntry route name, after]) = .ok changed) :
    changed.readText file = .ok (before ++ (routeEntry route name ++ after)) := by
  rw [readText_of_writeText h, Text.concat]
  simp only [List.flatten_cons, List.flatten_nil, List.append_nil]
  rw [normalizeNewlines_insert hname hroute (carriageReturn_notMem_of_readText htext) hsplit]

/-- A call finds its route in the table, or puts an entry into the table, or changes nothing. -/
theorem attempt_cases (hproper : call.IsProper) (htext : tree.readText file = .ok text)
    (hopens : WildcardOpens text) :
    (routeMark call.route <:+: text ∧ attempt file tree call = ⟨call, tree, tree, .ok true⟩) ∨
      ¬routeMark call.route <:+: text ∧
        ((∃ before after changed, IsInsertion text before after ∧
            changed.readText file = .ok (before ++ (routeEntry call.route call.name ++ after)) ∧
            attempt file tree call = ⟨call, tree, changed, .ok false⟩) ∨
          ∃ fault, attempt file tree call = ⟨call, tree, tree, .error fault⟩) := by
  by_cases hmark : routeMark call.route <:+: text
  · rw [attempt, register_of_marked htext hmark]
    exact .inl ⟨hmark, rfl⟩
  refine .inr ⟨hmark, ?_⟩
  cases hregister : register tree file call.route call.name with
  | error fault => exact .inr ⟨fault, by rw [attempt, hregister]⟩
  | ok result =>
    obtain ⟨changed, present⟩ := result
    obtain ⟨read, hread, hcases⟩ := register_ok_cases hregister
    obtain rfl := Except.ok.inj (htext.symm.trans hread)
    obtain ⟨hmarked, -⟩ | ⟨-, rfl, before, after, hpoint, hwritten⟩ := hcases
    · exact absurd hmarked hmark
    have hinsertion := isInsertion_of_insertionPoint? hopens hpoint
    refine .inl ⟨before, after, changed, hinsertion, ?_, by rw [attempt, hregister]⟩
    exact readText_insert_of_notMem hproper.1 (notMem_of_isRouteChar hproper.2 (by decide)) htext hinsertion.1 hwritten

/-- After a call the table has the routes it had before, and that of the call if it was put in. -/
theorem exists_readText_after (hproper : call.IsProper) (htext : tree.readText file = .ok text)
    (hopens : WildcardOpens text) :
    ∃ reached, (attempt file tree call).after.readText file = .ok reached ∧
      ∀ other : Text, (∀ c ∈ other, isRouteChar c = true) → (routeMark other <:+: reached ↔
        routeMark other <:+: text ∨
          (attempt file tree call).outcome = .ok false ∧ call.route = other) := by
  rcases attempt_cases hproper htext hopens with ⟨-, h⟩ | ⟨-, ⟨before, after, changed, hat, hread, h⟩ | ⟨fault, h⟩⟩
  · rw [h]
    exact ⟨text, htext, fun other _ => ⟨.inl, fun h => h.resolve_right fun h => by cases h.1⟩⟩
  · rw [h]
    refine ⟨_, hread, fun other hother => ?_⟩
    rw [routeMark_infix_insert_iff hat.isSeam hproper.1 hproper.2 hother, hat.1]
    exact or_congr_right ⟨fun h => ⟨rfl, h.symm⟩, fun h => h.2.symm⟩
  · rw [h]
    exact ⟨text, htext, fun other _ => ⟨.inl, fun h => h.resolve_right fun h => by cases h.1⟩⟩

/-! ## Runs -/

/-- The calls of a run, each with the tree that the one before it left. -/
def attempts (file : Path) (tree : FileTree) : List Call → List Attempt
  | [] => []
  | call :: rest => attempt file tree call :: attempts file (attempt file tree call).after rest

theorem call_attempt : (attempt file tree call).call = call := by
  unfold attempt
  split <;> rfl

theorem before_attempt : (attempt file tree call).before = tree := by
  unfold attempt
  split <;> rfl

theorem map_call_attempts (file : Path) (tree : FileTree) (calls : List Call) :
    (attempts file tree calls).map (·.call) = calls := by
  induction calls generalizing tree with
  | nil => rfl
  | cons call rest ih => rw [attempts, List.map_cons, call_attempt, ih]

/-- When a call of a run is made, the table has the routes it had before the run and those that
earlier calls have put in. -/
theorem attempts_spec {calls : List Call} (hproper : ∀ call ∈ calls, call.IsProper)
    (htext : tree.readText file = .ok text)
    (hopens : ∀ made ∈ attempts file tree calls, ∀ reached,
      made.before.readText file = .ok reached → WildcardOpens reached)
    {earlier later : List Attempt} {made : Attempt}
    (h : attempts file tree calls = earlier ++ made :: later) :
    made = attempt file made.before made.call ∧ ∃ reached, made.before.readText file = .ok reached ∧
      ∀ other : Text, (∀ c ∈ other, isRouteChar c = true) → (routeMark other <:+: reached ↔
        routeMark other <:+: text ∨
          ∃ past ∈ earlier, past.outcome = .ok false ∧ past.call.route = other) := by
  induction calls generalizing tree text earlier with
  | nil => cases earlier <;> cases h
  | cons call rest ih =>
    rw [attempts] at h hopens
    cases earlier with
    | nil =>
      obtain ⟨rfl, -⟩ := List.cons.inj h
      refine ⟨by rw [before_attempt, call_attempt], text, by rw [before_attempt, htext], ?_⟩
      exact fun other _ => ⟨.inl, fun h => h.resolve_right fun ⟨past, hpast, _⟩ => by cases hpast⟩
    | cons first earlier =>
      obtain ⟨rfl, hrest⟩ := List.cons.inj h
      have hfirst : WildcardOpens text :=
        hopens _ (List.mem_cons_self ..) text (by rw [before_attempt, htext])
      obtain ⟨next, hnext, hmarks⟩ :=
        exists_readText_after (hproper call (List.mem_cons_self ..)) htext hfirst
      obtain ⟨hmade, reached, hreached, hall⟩ :=
        ih (fun other hother => hproper other (List.mem_cons_of_mem _ hother)) hnext
          (fun other hother => hopens other (List.mem_cons_of_mem _ hother)) hrest
      refine ⟨hmade, reached, hreached, fun other hother => ?_⟩
      rw [hall other hother, hmarks other hother, or_assoc]
      simp only [List.mem_cons, or_and_right, exists_or, exists_eq_left, call_attempt]

/-- A run of registrations, call by call. A call finds its route in the table exactly if the table had
it before the run or an earlier call has put it in. A call that puts its route in adds an entry where
one goes, and one that does not changes nothing. -/
theorem attempts_exact {calls : List Call} (hproper : ∀ call ∈ calls, call.IsProper)
    (htext : tree.readText file = .ok text)
    (hopens : ∀ made ∈ attempts file tree calls, ∀ reached,
      made.before.readText file = .ok reached → WildcardOpens reached)
    {earlier later : List Attempt} {made : Attempt}
    (h : attempts file tree calls = earlier ++ made :: later) :
    (made.outcome = .ok true ↔ routeMark made.call.route <:+: text ∨
        ∃ past ∈ earlier, past.outcome = .ok false ∧ past.call.route = made.call.route) ∧
      (made.outcome = .ok false → ∃ reached before after,
        made.before.readText file = .ok reached ∧ IsInsertion reached before after ∧
          made.after.readText file =
            .ok (before ++ (routeEntry made.call.route made.call.name ++ after))) ∧
      (made.outcome ≠ .ok false → made.after = made.before) := by
  have hmem : made ∈ attempts file tree calls := h ▸ by simp
  have hcall : made.call.IsProper :=
    hproper _ (map_call_attempts file tree calls ▸ List.mem_map_of_mem hmem)
  obtain ⟨hmade, reached, hreached, hmarks⟩ := attempts_spec hproper htext hopens h
  rw [← hmarks _ hcall.2]
  rcases attempt_cases hcall hreached (hopens made hmem reached hreached) with
    ⟨hmark, heq⟩ | ⟨hmark, ⟨before, after, changed, hat, hread, heq⟩ | ⟨fault, heq⟩⟩
  · have houtcome := congrArg Attempt.outcome (hmade.trans heq)
    have hafter := congrArg Attempt.after (hmade.trans heq)
    refine ⟨iff_of_true houtcome hmark, fun h => ?_, fun _ => hafter⟩
    rw [houtcome] at h
    cases h
  · have houtcome := congrArg Attempt.outcome (hmade.trans heq)
    have hafter := congrArg Attempt.after (hmade.trans heq)
    refine ⟨iff_of_false (fun h => ?_) hmark, fun _ => ?_, fun h => absurd houtcome h⟩
    · rw [houtcome] at h
      cases h
    · exact ⟨reached, before, after, hreached, hat, hafter ▸ hread⟩
  · have houtcome := congrArg Attempt.outcome (hmade.trans heq)
    have hafter := congrArg Attempt.after (hmade.trans heq)
    refine ⟨iff_of_false (fun h => ?_) hmark, fun h => ?_, fun _ => hafter⟩
    · rw [houtcome] at h
      cases h
    · rw [houtcome] at h
      cases h

/-! ## A route asked for twice -/

/-- A table with nothing but a wildcard route. -/
def bareTable : Text := "export const routes = [\n  \x7b path: '**' \x7d,\n];\n"

/-- The table at the top of a tree. -/
def bareTree : FileTree := .folder [("app.routes.ts", .file (Text.Utf8.encode bareTable))]

def bareFile : Path := ⟨.root, ["app.routes.ts"]⟩

/-- The same route is put in twice. -/
def twice : List Call := List.replicate 2 ⟨"orders", ⟨"orders", "Orders", "ORDERS"⟩⟩

/-- The lookup of the wildcard, with as many steps for the lexemes as the text has characters. -/
theorem wildcardOffset?_eq (text : Text) : wildcardOffset? text =
    (wildcardObject? (SyntaxTree.ofTokens false (place (lexemesOf text))).root).map (·.offset) := by
  have hmarkup : SyntaxTree.hasMarkup ".ts" = false := by decide
  rw [wildcardOffset?, SyntaxTree.ofText, hmarkup, SyntaxTree.tokens, lexemesOf_eq]

/-- The table up to the line of the wildcard route, the rest of it, and both with the route between them. -/
def bareFront : Text := "export const routes = [\n"

def bareBack : Text := "  \x7b path: '**' \x7d,\n];\n"

def grownTable : Text := Text.concat [bareFront, routeEntry "orders" ⟨"orders", "Orders", "ORDERS"⟩, bareBack]

theorem bareTable_shape : insertionPoint? bareTable = some (bareFront, bareBack) ∧
    Text.occursIn (routeMark "orders") bareTable = false ∧
    ∀ text ∈ [bareTable, grownTable], '\r' ∉ text ∧ WildcardOpens text := by
  have hopens : ∀ text ∈ [bareTable, grownTable], '\r' ∉ text ∧
      (wildcardOffset? text).all (fun brace => text[brace]? == some '\x7b') = true := by
    simp only [List.forall_mem_cons, wildcardOffset?_eq]
    unfold bareTable grownTable bareFront bareBack routeEntry entryPieces holeValues
    repeat rw [String.toList_ofList]
    decide +kernel
  refine ⟨?_, ?_, fun text htext => ⟨(hopens text htext).1, fun brace hbrace => ?_⟩⟩
  · rw [insertionPoint?, wildcardOffset?_eq]
    unfold bareTable bareFront bareBack
    repeat rw [String.toList_ofList]
    decide +kernel
  · unfold bareTable routeMark
    repeat rw [String.toList_ofList]
    decide +kernel
  · exact eq_of_beq ((Option.all_eq_true _ _).1 (hopens text htext).2 brace hbrace)

/-- The second time the route is there, and nothing changes. -/
theorem attempts_exact_twice : ∃ first second, attempts bareFile bareTree twice = [first, second] ∧
    first.outcome = .ok false ∧ second.outcome = .ok true ∧ second.after = second.before := by
  obtain ⟨hpoint, hmark, hopens⟩ := bareTable_shape
  rw [List.forall_mem_cons, List.forall_mem_singleton] at hopens
  obtain ⟨⟨hreturns, hbare⟩, hreturns', hgrown⟩ := hopens
  have hproper : ∀ call ∈ twice, call.IsProper := by
    intro call hcall
    rw [List.eq_of_mem_replicate hcall]
    exact ⟨⟨"orders", by decide⟩, Text.forall_mem (by decide)⟩
  have htext : bareTree.readText bareFile = .ok bareTable := by
    rw [FileTree.readText_of_read rfl rfl, Text.normalizeNewlines_eq_self hreturns]
  obtain ⟨changed, hwrite⟩ : ∃ changed, bareTree.writeText bareFile grownTable = .ok changed := ⟨_, rfl⟩
  have hread : changed.readText bareFile = .ok grownTable := by
    rw [readText_of_writeText hwrite, Text.normalizeNewlines_eq_self hreturns']
  have hmark' : ¬routeMark "orders" <:+: bareTable := by
    rw [← Text.occursIn_iff_infix, hmark]
    exact Bool.false_ne_true
  have hregister := register_of_unmarked htext hmark' hpoint hwrite
  generalize hname : FeatureName.mk "orders" "Orders" "ORDERS" = name at hregister
  have hattempts : attempts bareFile bareTree twice =
      [⟨⟨"orders", name⟩, bareTree, changed, .ok false⟩] ++ attempt bareFile changed ⟨"orders", name⟩ :: [] := by
    rw [twice, hname, List.replicate_succ, List.replicate_succ, List.replicate_zero, attempts, attempts, attempts,
      attempt, hregister]
    rfl
  have hopens : ∀ made ∈ attempts bareFile bareTree twice, ∀ reached,
      made.before.readText bareFile = .ok reached → WildcardOpens reached := by
    rw [hattempts, List.forall_mem_append, List.forall_mem_singleton, List.forall_mem_singleton, before_attempt, htext,
      hread]
    refine ⟨fun reached h => ?_, fun reached h => ?_⟩
    · exact Except.ok.inj h ▸ hbare
    · exact Except.ok.inj h ▸ hgrown
  obtain ⟨hpresent, -, hkept⟩ := attempts_exact hproper htext hopens hattempts
  have hsecond := hpresent.2 (.inr ⟨_, List.mem_singleton_self _, rfl, by rw [call_attempt]⟩)
  refine ⟨_, _, hattempts, rfl, hsecond, hkept ?_⟩
  rw [hsecond]
  intro h
  cases h

end VerticalSlice.Feature
