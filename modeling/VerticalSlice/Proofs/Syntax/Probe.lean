import VerticalSlice.Proofs.Syntax.Depth

/-!
# Reading in front of anything

Often a rule need not know what comes behind some views to read them. A probe reads views as if
nothing were known of what follows: where a rule would have to look at it, or where the depth is
used up, there is no answer. An answer holds in front of anything (`read_append_of_probe`), and
since a probe is of known views only, it is computed.
-/

namespace VerticalSlice.Syntax

/-! ## Looking at known views -/

/-- The view with `count` others before it. -/
def probeAt : Nat → List View → Option View
  | _, [] => none
  | 0, view :: _ => some view
  | count + 1, view :: rest => if view.beginsItem then some .hidden else probeAt count rest

/-- The views behind the bracket that closes the one before them; `depth` more are open. -/
def probeGroup (depth : Nat) : List View → Option (List View)
  | [] => none
  | view :: rest =>
    if view.opens then probeGroup (depth + 1) rest
    else if view.closes then
      match depth with
      | 0 => some rest
      | depth + 1 => probeGroup depth rest
    else probeGroup depth rest

/-- The view behind the brackets that open with the view that has `count` others before it. -/
def probeBehind : Nat → List View → Option View
  | _, [] => none
  | 0, view :: rest =>
    if view.opens then (probeGroup 0 rest).bind List.head? else some .hidden
  | count + 1, view :: rest => if view.beginsItem then some .hidden else probeBehind count rest

/-- The view with `count` others before it behind a bracket. -/
def probeInside (count : Nat) : List View → Option View
  | bracket :: view :: rest =>
    if bracket.opens && !view.isStructural then probeAt count (view :: rest) else some .hidden
  | _ => none

/-- What is known of the view at a place. What stands behind types is not asked for. -/
def Place.probe (place : Place) (views : List View) : Option View :=
  match place with
  | .next count => probeAt count views
  | .inside count => probeInside count views
  | .behind count => probeBehind count views
  | .behindTypes => none

/-- What is known of the test. -/
def Test.probe (views : List View) : Test → Option Bool
  | see place look => (place.probe views).map fun view => look.fits view
  | atEnd => if views.isEmpty then none else some false
  | not test => (test.probe views).map (!·)
  | and first second =>
    match first.probe views with
    | some true => second.probe views
    | known => known
  | or first second =>
    match first.probe views with
    | some false => second.probe views
    | known => known

/-! ## Reading known views -/

/-- What a reader is known to give. -/
abbrev Probe := List View → Option (List Reading)

/-- The readings with what is read behind each of them. -/
def probeEach (reader : Probe) : List Reading → Option (List Reading)
  | [] => some []
  | reading :: rest =>
    match reader reading.2, probeEach reader rest with
    | some later, some others =>
      some (later.map (fun last => (reading.1 ++ last.1, last.2)) ++ others)
    | _, _ => none

def probeThen (readings : Option (List Reading)) (reader : Probe) : Option (List Reading) :=
  readings.bind (probeEach reader)

/-- A reader that looks at the next view only. -/
def probeNext (reader : Reader) : Probe
  | [] => none
  | view :: rest => some (reader (view :: rest))

/-- What is known of the readings of a rule. -/
def probeWith (grammar : Grammar) (self : Rule → Probe) : Rule → Probe
  | .nothing, views => some [([], views)]
  | .failure, _ => some []
  | .take look kind, views =>
    probeNext (fun views => readWith grammar (fun _ _ => []) (.take look kind) views) views
  | .group kind opening inside closing, views =>
    probeThen (some [([.begin (some kind)], views)]) fun views =>
      probeThen
        (probeThen (probeNext (readMark (.bound kind) opening) views)
          (probeWith grammar self inside))
        fun views => probeThen (probeNext (readMark (.bound kind) closing) views) fun views =>
          some [([.finish], views)]
  | .items kind item closing, views =>
    match probeAt 0 views with
    | none => none
    | some view =>
      if view.sign = closing then some [([], views)]
      else
        probeThen
          (probeThen (probeWith grammar self item views) (probeNext (readComma kind closing)))
          (self (.items kind item closing))
  | .listed item, views =>
    probeThen (probeWith grammar self item views) fun views =>
      match probeAt 0 views with
      | none => none
      | some view =>
        if view.isComma then
          probeThen (probeNext (readMark (.leaf .mark) [',']) views) (self (.listed item))
        else some [([], views)]
  | .members item, views =>
    match probeAt 0 views with
    | none => none
    | some view =>
      if view.sign = ['\x7d'] then some [([], views)]
      else
        probeThen (probeThen (probeWith grammar self item views) (probeNext readMemberEnd))
          (self (.members item))
  | .both first second, views =>
    probeThen (probeWith grammar self first views) (probeWith grammar self second)
  | .choose test yes no, views =>
    match test.probe views with
    | none => none
    | some true => probeWith grammar self yes views
    | some false => probeWith grammar self no views
  | .either first second, views =>
    match probeWith grammar self first views, probeWith grammar self second views with
    | some one, some two => some (one ++ two)
    | _, _ => none
  | .many stop rule, views =>
    match stop.probe views with
    | none => none
    | some true => some [([], views)]
    | some false => probeThen (probeWith grammar self rule views) (self (.many stop rule))
  | .node kind rule, views =>
    probeThen (probeThen (some [([.begin kind], views)]) (probeWith grammar self rule))
      fun views => some [([.finish], views)]
  | .fold kind, views => some [([.fold kind], views)]
  | .role role, views => some [([.role role], views)]
  | .call symbol, views => self (grammar symbol) views

/-- What is known of the readings of a rule down to a depth. -/
def probe (grammar : Grammar) : Nat → Rule → Probe
  | 0, _, _ => none
  | depth + 1, rule, views => probeWith grammar (probe grammar depth) rule views

/-! ## What is known holds in front of anything -/

theorem viewAt_of_probeAt {count : Nat} {views : List View} {view : View}
    (h : probeAt count views = some view) (rest : List View) :
    viewAt count (views ++ rest) = view := by
  induction views generalizing count with
  | nil => simp [probeAt] at h
  | cons first views ih =>
    cases count with
    | zero =>
      rw [probeAt, Option.some.injEq] at h
      rw [List.cons_append, viewAt, h]
    | succ count =>
      rw [probeAt] at h
      rw [List.cons_append, viewAt]
      split
      · next hitem => simpa [hitem] using h
      · next hitem => exact ih (by simpa [hitem] using h)

theorem behindGroup_of_probeGroup {views behind : List View} :
    ∀ {depth : Nat}, probeGroup depth views = some behind →
      ∀ rest, behindGroup depth (views ++ rest) = behind ++ rest := by
  induction views with
  | nil => intro depth h; simp [probeGroup] at h
  | cons view views ih =>
    intro depth h rest
    unfold probeGroup at h
    unfold behindGroup
    rw [List.cons_append]
    dsimp only
    split
    · next hopens => exact ih (by simpa [hopens] using h) rest
    · next hopens =>
      rw [if_neg hopens] at h
      split
      · next hcloses =>
        rw [if_pos hcloses] at h
        cases depth with
        | zero =>
          rw [Option.some.injEq] at h
          rw [h]
        | succ depth => exact ih h rest
      · next hcloses => exact ih (by simpa [hcloses] using h) rest

theorem viewBehind_of_probeBehind {count : Nat} {views : List View} {view : View}
    (h : probeBehind count views = some view) (rest : List View) :
    viewBehind count (views ++ rest) = view := by
  induction views generalizing count with
  | nil => simp [probeBehind] at h
  | cons first views ih =>
    cases count with
    | zero =>
      rw [probeBehind] at h
      rw [List.cons_append, viewBehind]
      split
      · next hopens =>
        rw [if_pos hopens] at h
        obtain ⟨behind, hbehind, hhead⟩ := Option.bind_eq_some_iff.1 h
        rw [behindGroup_of_probeGroup hbehind]
        cases behind with
        | nil => simp at hhead
        | cons next behind =>
          rw [List.head?_cons, Option.some.injEq] at hhead
          exact hhead
      · next hopens => simpa [hopens] using h
    | succ count =>
      rw [probeBehind] at h
      rw [List.cons_append, viewBehind]
      split
      · next hitem => simpa [hitem] using h
      · next hitem => exact ih (by simpa [hitem] using h)

theorem viewInside_of_probeInside {count : Nat} {views : List View} {view : View}
    (h : probeInside count views = some view) (rest : List View) :
    viewInside count (views ++ rest) = view := by
  match views, h with
  | bracket :: first :: views, h =>
    rw [probeInside] at h
    rw [List.cons_append, List.cons_append, viewInside]
    split
    · next hopens =>
      rw [if_pos hopens] at h
      exact viewAt_of_probeAt h rest
    · next hopens => simpa [hopens] using h

theorem view_of_probe {place : Place} {views : List View} {view : View}
    (h : place.probe views = some view) (rest : List View) :
    place.view (views ++ rest) = view := by
  cases place with
  | next count => exact viewAt_of_probeAt h rest
  | inside count => exact viewInside_of_probeInside h rest
  | behind count => exact viewBehind_of_probeBehind h rest
  | behindTypes => cases h

theorem holds_of_probe {views : List View} (rest : List View) :
    ∀ {test : Test} {answer : Bool}, test.probe views = some answer →
      test.holds (views ++ rest) = answer := by
  intro test
  induction test with
  | see place look =>
    intro answer h
    obtain ⟨view, hview, hfits⟩ := Option.map_eq_some_iff.1 h
    rw [Test.holds, view_of_probe hview rest, hfits]
  | atEnd =>
    intro answer h
    cases views with
    | nil => cases h
    | cons view views => simpa [Test.probe, Test.holds] using h
  | not test ih =>
    intro answer h
    obtain ⟨known, hknown, hnot⟩ := Option.map_eq_some_iff.1 h
    rw [Test.holds, ih hknown, hnot]
  | and first second ih₁ ih₂ =>
    intro answer h
    rw [Test.probe] at h
    split at h
    · next hfirst => rw [Test.holds, ih₁ hfirst, Bool.true_and, ih₂ h]
    · next hfirst =>
      cases answer with
      | true => exact absurd h (hfirst)
      | false => rw [Test.holds, ih₁ h, Bool.false_and]
  | or first second ih₁ ih₂ =>
    intro answer h
    rw [Test.probe] at h
    split at h
    · next hfirst => rw [Test.holds, ih₁ hfirst, Bool.false_or, ih₂ h]
    · next hfirst =>
      cases answer with
      | false => exact absurd h (hfirst)
      | true => rw [Test.holds, ih₁ h, Bool.true_or]

/-- The reading with more behind it. -/
def Reading.inFrontOf (rest : List View) (reading : Reading) : Reading :=
  (reading.1, reading.2 ++ rest)

/-- What the probe knows, the reader gives, whatever comes behind. -/
def Probe.Tells (probe : Probe) (reader : Reader) : Prop :=
  ∀ {views readings}, probe views = some readings →
    ∀ rest, reader (views ++ rest) = readings.map (Reading.inFrontOf rest)

theorem andThen_of_probeThen {readings : Option (List Reading)} {first : List Reading}
    {probe : Probe} {reader : Reader} {result : List Reading} (rest : List View)
    (hfirst : ∀ {known}, readings = some known → first = known.map (Reading.inFrontOf rest))
    (hlater : probe.Tells reader) (h : probeThen readings probe = some result) :
    andThen first reader = result.map (Reading.inFrontOf rest) := by
  obtain ⟨known, hknown, heach⟩ := Option.bind_eq_some_iff.1 h
  rw [hfirst hknown]
  clear hfirst hknown h
  induction known generalizing result with
  | nil =>
    rw [probeEach, Option.some.injEq] at heach
    rw [← heach]
    rfl
  | cons reading known ih =>
    rw [probeEach] at heach
    split at heach
    · next later others hlater' hothers =>
      rw [Option.some.injEq] at heach
      have hrest := ih hothers
      rw [andThen] at hrest
      rw [andThen, List.map_cons, List.flatMap_cons, hrest, ← heach, List.map_append]
      congr 1
      show (reader (reading.2 ++ rest)).map _ = _
      rw [hlater hlater' rest, List.map_map, List.map_map]
      rfl
    · cases heach

theorem tells_probeNext {reader : Reader}
    (h : ∀ view rest more, reader (view :: (rest ++ more)) =
      (reader (view :: rest)).map (Reading.inFrontOf more)) :
    (probeNext reader).Tells reader := by
  intro views readings hprobe rest
  cases views with
  | nil => cases hprobe
  | cons view views =>
    rw [probeNext, Option.some.injEq] at hprobe
    rw [← hprobe]
    exact h view views rest

theorem tells_readMark (step : Step) (spelling : Text) :
    (probeNext (readMark step spelling)).Tells (readMark step spelling) := by
  refine tells_probeNext fun view rest more => ?_
  rw [readMark, readMark]
  split <;> rfl

theorem tells_readComma (kind : Kind) (closing : Text) :
    (probeNext (readComma kind closing)).Tells (readComma kind closing) := by
  refine tells_probeNext fun view rest more => ?_
  rw [readComma, readComma]
  split
  · rfl
  · rw [readMark, readMark]
    split <;> rfl

theorem tells_readMemberEnd : (probeNext readMemberEnd).Tells readMemberEnd := by
  refine tells_probeNext fun view rest more => ?_
  rw [readMemberEnd, readMemberEnd]
  split
  · rfl
  · split <;> rfl

theorem tells_probeWith {grammar : Grammar} {selfProbe : Rule → Probe} {self : Rule → Reader}
    (hself : ∀ rule, (selfProbe rule).Tells (self rule)) :
    ∀ rule, (probeWith grammar selfProbe rule).Tells (readWith grammar self rule) := by
  intro rule
  induction rule with
  | nothing | fold _ | role _ =>
    intro views readings h rest
    rw [probeWith, Option.some.injEq] at h
    rw [← h]
    rfl
  | failure =>
    intro views readings h rest
    rw [probeWith, Option.some.injEq] at h
    rw [← h]
    rfl
  | take look kind =>
    intro views readings h rest
    rw [probeWith] at h
    cases views with
    | nil => cases h
    | cons view views =>
      rw [probeNext, Option.some.injEq, readWith] at h
      rw [List.cons_append, readWith, ← h]
      split <;> rfl
  | group kind opening inside closing ih =>
    intro views readings h rest
    rw [probeWith] at h
    rw [readWith]
    refine andThen_of_probeThen rest (fun h => by cases h; rfl) ?_ h
    intro views readings h rest
    refine andThen_of_probeThen rest (fun h => ?_) ?_ h
    · exact andThen_of_probeThen rest (fun h => tells_readMark _ _ h rest) ih h
    · intro views readings h rest
      refine andThen_of_probeThen rest (fun h => tells_readMark _ _ h rest) ?_ h
      intro views readings h rest
      cases h
      rfl
  | items kind item closing ih =>
    intro views readings h rest
    rw [probeWith] at h
    rw [readWith]
    split at h
    · cases h
    · next view hview =>
      rw [viewAt_of_probeAt hview rest]
      split
      · next hclosing =>
        rw [if_pos hclosing, Option.some.injEq] at h
        rw [← h]
        rfl
      · next hclosing =>
        rw [if_neg hclosing] at h
        refine andThen_of_probeThen rest (fun h => ?_) (hself _) h
        exact andThen_of_probeThen rest (fun h => ih h rest) (tells_readComma _ _) h
  | listed item ih =>
    intro views readings h rest
    rw [probeWith] at h
    rw [readWith]
    refine andThen_of_probeThen rest (fun h => ih h rest) ?_ h
    intro views readings h rest
    dsimp only at h ⊢
    split at h
    · cases h
    · next view hview =>
      rw [viewAt_of_probeAt hview rest]
      split
      · next hcomma =>
        rw [if_pos hcomma] at h
        exact andThen_of_probeThen rest (fun h => tells_readMark _ _ h rest) (hself _) h
      · next hcomma =>
        rw [if_neg hcomma, Option.some.injEq] at h
        rw [← h]
        rfl
  | members item ih =>
    intro views readings h rest
    rw [probeWith] at h
    rw [readWith]
    split at h
    · cases h
    · next view hview =>
      rw [viewAt_of_probeAt hview rest]
      split
      · next hclosing =>
        rw [if_pos hclosing, Option.some.injEq] at h
        rw [← h]
        rfl
      · next hclosing =>
        rw [if_neg hclosing] at h
        refine andThen_of_probeThen rest (fun h => ?_) (hself _) h
        exact andThen_of_probeThen rest (fun h => ih h rest) tells_readMemberEnd h
  | both first second ih₁ ih₂ =>
    intro views readings h rest
    rw [probeWith] at h
    rw [readWith]
    exact andThen_of_probeThen rest (fun h => ih₁ h rest) ih₂ h
  | choose test yes no ih₁ ih₂ =>
    intro views readings h rest
    rw [probeWith] at h
    rw [readWith]
    split at h
    · cases h
    · next htest => rw [holds_of_probe rest htest, if_pos rfl, ih₁ h rest]
    · next htest => rw [holds_of_probe rest htest, if_neg Bool.false_ne_true, ih₂ h rest]
  | either first second ih₁ ih₂ =>
    intro views readings h rest
    rw [probeWith] at h
    rw [readWith]
    split at h
    · next one two hone htwo =>
      rw [Option.some.injEq] at h
      rw [ih₁ hone rest, ih₂ htwo rest, ← h, List.map_append]
    · cases h
  | many stop rule ih =>
    intro views readings h rest
    rw [probeWith] at h
    rw [readWith]
    split at h
    · cases h
    · next htest =>
      rw [holds_of_probe rest htest, if_pos rfl]
      rw [Option.some.injEq] at h
      rw [← h]
      rfl
    · next htest =>
      rw [holds_of_probe rest htest, if_neg Bool.false_ne_true]
      exact andThen_of_probeThen rest (fun h => ih h rest) (hself _) h
  | node kind rule ih =>
    intro views readings h rest
    rw [probeWith] at h
    rw [readWith]
    refine andThen_of_probeThen rest (fun h => ?_) ?_ h
    · exact andThen_of_probeThen rest (fun h => by cases h; rfl) ih h
    · intro views readings h rest
      cases h
      rfl
  | call symbol =>
    intro views readings h rest
    rw [probeWith] at h
    rw [readWith]
    exact hself _ h rest

theorem tells_probe (grammar : Grammar) :
    ∀ {depth depth' : Nat}, depth ≤ depth' → ∀ rule,
      (probe grammar depth rule).Tells (readUpTo grammar depth' rule) := by
  intro depth
  induction depth with
  | zero =>
    intro depth' _ rule views readings h
    cases h
  | succ depth ih =>
    intro depth' hdepth rule views readings h rest
    obtain ⟨depth', rfl⟩ : ∃ d, depth' = d + 1 := ⟨depth' - 1, by omega⟩
    rw [probe] at h
    rw [readUpTo]
    exact tells_probeWith (fun rule => ih (Nat.le_of_succ_le_succ hdepth) rule) rule h rest

/-- What is known of the readings of some views are their readings in front of anything. -/
theorem read_append_of_probe {grammar : Grammar} (hg : grammar.Grounded) {depth : Nat}
    {rule : Rule} {views : List View} {readings : List Reading}
    (hground : rule.grounded = true) (h : probe grammar depth rule views = some readings)
    (rest : List View) :
    read grammar rule (views ++ rest) = readings.map (Reading.inFrontOf rest) := by
  have hlevels := rule.levels_le
  have henough : 8 * (views ++ rest).length + rule.levels <
      max depth (8 * (views ++ rest).length + rule.levels + 1) := by omega
  rw [← readUpTo_eq_read hg hground henough]
  exact tells_probe grammar (Nat.le_max_left _ _) rule h rest

end VerticalSlice.Syntax
