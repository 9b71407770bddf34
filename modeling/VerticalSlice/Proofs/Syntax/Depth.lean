import VerticalSlice.Syntax.Reading

/-!
# The depth is never used up

Rules are read down to a depth. This file shows that the depth of `read` is as good as none: the
readings of a rule are those of its parts (`read_eq`), with no depth in sight.

What is left by a reading is the end of what was there (`suffix_of_mem_readUpTo`), and a rule that
takes a token leaves less (`takes`). Between two tokens only so many symbols can be gone into:
`levels` counts them for each rule, and `Grounded` says that the count is right for the rules of all
symbols and that whatever is repeated takes a token. A depth of eight for every view and for the end
is then more than any reading needs.
-/

namespace VerticalSlice.Syntax

/-! ## What a rule takes -/

/-- Does every reading by the rule take a token, if the rules of all symbols do? -/
def Rule.takes : Rule → Bool
  | .nothing | .items .. | .members _ | .many .. | .fold _ | .role _ => false
  | .failure | .take .. | .group .. | .call _ => true
  | .listed item => item.takes
  | .node _ rule => rule.takes
  | .both first second => first.takes || second.takes
  | .choose _ yes no => yes.takes && no.takes
  | .either first second => first.takes && second.takes

/-- How many symbols may be gone into from the symbol's rule before a token is taken. -/
def Symbol.rank : Symbol → Nat
  | .statement => 4
  | .expression => 3
  | .assignment => 2
  | .unary | .type => 1
  | .block | .typeOperand | .target | .element => 0

/-- How many symbols may be gone into from the rule before a token is taken. -/
def Rule.levels : Rule → Nat
  | .nothing | .failure | .take .. | .group .. | .fold _ | .role _ => 0
  | .call symbol => symbol.rank + 1
  | .items _ item _ => item.levels
  | .listed item | .members item => item.levels
  | .many _ rule | .node _ rule => rule.levels
  | .both first second =>
    if first.takes then first.levels else max first.levels second.levels
  | .choose _ yes no => max yes.levels no.levels
  | .either first second => max first.levels second.levels

/-- Does all that the rule repeats take a token? -/
def Rule.grounded : Rule → Bool
  | .nothing | .failure | .take .. | .fold _ | .role _ | .call _ => true
  | .group _ _ inside _ => inside.grounded
  | .items _ item _ => item.grounded
  | .listed item | .members item => item.takes && item.grounded
  | .many _ rule => rule.takes && rule.grounded
  | .node _ rule => rule.grounded
  | .both first second | .either first second => first.grounded && second.grounded
  | .choose _ yes no => yes.grounded && no.grounded

/-- The rule of every symbol takes a token before it has gone too deep, and so does all that it
repeats. -/
def Grammar.Grounded (grammar : Grammar) : Prop :=
  ∀ symbol, (grammar symbol).takes = true ∧ (grammar symbol).grounded = true ∧
    (grammar symbol).levels ≤ symbol.rank

theorem grounded_grammar (markup : Bool) : (grammar markup).Grounded := by
  intro symbol
  cases markup <;> cases symbol <;> decide

theorem Symbol.rank_le (symbol : Symbol) : symbol.rank ≤ 4 := by
  cases symbol <;> decide

theorem Rule.levels_le (rule : Rule) : rule.levels ≤ 5 := by
  induction rule with
  | nothing | failure | take | group | fold | role => exact Nat.zero_le _
  | call symbol => exact Nat.succ_le_succ symbol.rank_le
  | items _ _ _ ih | listed _ ih | members _ ih | many _ _ ih | node _ _ ih => exact ih
  | both first second ih₁ ih₂ =>
    rw [levels]
    split
    · exact ih₁
    · exact Nat.max_le.2 ⟨ih₁, ih₂⟩
  | choose _ _ _ ih₁ ih₂ | either _ _ ih₁ ih₂ => exact Nat.max_le.2 ⟨ih₁, ih₂⟩

/-! ## One reading behind another -/

theorem mem_andThen {readings : List Reading} {reader : Reader} {reading : Reading} :
    reading ∈ andThen readings reader ↔
      ∃ first ∈ readings, ∃ later ∈ reader first.2,
        reading = (first.1 ++ later.1, later.2) := by
  simp only [andThen, List.mem_flatMap, List.mem_map]
  constructor
  · rintro ⟨first, hfirst, later, hlater, rfl⟩
    exact ⟨first, hfirst, later, hlater, rfl⟩
  · rintro ⟨first, hfirst, later, hlater, rfl⟩
    exact ⟨first, hfirst, later, hlater, rfl⟩

theorem mem_readMark {step : Step} {spelling : Text} {views : List View} {reading : Reading} :
    reading ∈ readMark step spelling views ↔
      ∃ view rest, views = view :: rest ∧ view.sign = spelling ∧ reading = ([step], rest) := by
  cases views with
  | nil => simp [readMark]
  | cons view rest =>
    rw [readMark]
    split
    · next h =>
      rw [List.mem_singleton]
      constructor
      · intro hreading
        exact ⟨view, rest, rfl, h, hreading⟩
      · rintro ⟨_, _, heq, -, rfl⟩
        rw [(List.cons.inj heq).2]
    · next h =>
      refine ⟨fun hmem => by simp at hmem, ?_⟩
      rintro ⟨_, _, heq, hsign, -⟩
      exact absurd ((List.cons.inj heq).1 ▸ hsign) h

theorem suffix_of_mem_readComma {kind : Kind} {closing : Text} {views : List View}
    {reading : Reading} (h : reading ∈ readComma kind closing views) :
    reading.2 <:+ views ∧ (reading.2 = views → (viewAt 0 views).sign = closing) := by
  cases views with
  | nil => simp [readComma] at h
  | cons view rest =>
    rw [readComma] at h
    split at h
    · next hclosing =>
      rw [List.mem_singleton] at h
      exact ⟨h ▸ List.suffix_refl _, fun _ => hclosing⟩
    · obtain ⟨other, left, hviews, -, rfl⟩ := mem_readMark.1 h
      rw [List.cons.injEq] at hviews
      rw [← hviews.2]
      refine ⟨List.suffix_cons _ _, fun heq => ?_⟩
      exact absurd (congrArg List.length heq) (by simp)

theorem suffix_of_mem_readMemberEnd {views : List View} {reading : Reading}
    (h : reading ∈ readMemberEnd views) : reading.2 <:+ views := by
  cases views with
  | nil =>
    rw [readMemberEnd, List.mem_singleton] at h
    exact h ▸ List.suffix_refl _
  | cons view rest =>
    rw [readMemberEnd] at h
    split at h
    · rw [List.mem_singleton] at h
      rw [h]
      exact List.suffix_cons _ _
    · split at h
      · rw [List.mem_singleton] at h
        exact h ▸ List.suffix_refl _
      · simp at h

/-! ## What is left -/

/-- What is left by a reader of rules is the end of what was there, and less of it behind a rule
that takes a token. -/
def Shrinks (reader : Rule → Reader) : Prop :=
  ∀ rule views, ∀ reading ∈ reader rule views,
    reading.2 <:+ views ∧ (rule.takes = true → reading.2.length < views.length)

theorem suffix_andThen {readings : List Reading} {reader : Reader} {views : List View}
    {reading : Reading} (h : reading ∈ andThen readings reader)
    (hfirst : ∀ first ∈ readings, first.2 <:+ views)
    (hlater : ∀ rest, ∀ later ∈ reader rest, later.2 <:+ rest) : reading.2 <:+ views := by
  obtain ⟨first, hmem, later, hmem', rfl⟩ := mem_andThen.1 h
  exact (hlater _ _ hmem').trans (hfirst _ hmem)

theorem shrinks_readWith {grammar : Grammar} {self : Rule → Reader} (hg : grammar.Grounded)
    (hself : Shrinks self) : Shrinks (readWith grammar self) := by
  intro rule
  induction rule with
  | nothing =>
    intro views reading h
    rw [readWith, List.mem_singleton] at h
    rw [h]
    exact ⟨List.suffix_refl _, fun h => by simp [Rule.takes] at h⟩
  | failure =>
    intro views reading h
    simp [readWith] at h
  | take look kind =>
    intro views reading h
    cases views with
    | nil => simp [readWith] at h
    | cons view rest =>
      rw [readWith] at h
      split at h
      · rw [List.mem_singleton] at h
        rw [h]
        exact ⟨List.suffix_cons _ _, fun _ => Nat.lt_succ_self _⟩
      · simp at h
  | group kind opening inside closing ih =>
    intro views reading h
    rw [readWith] at h
    obtain ⟨first, hfirst, later, hlater, rfl⟩ := mem_andThen.1 h
    rw [List.mem_singleton] at hfirst
    subst hfirst
    obtain ⟨body, hbody, last, hlast, rfl⟩ := mem_andThen.1 hlater
    obtain ⟨opened, hopened, inner, hinner, rfl⟩ := mem_andThen.1 hbody
    obtain ⟨view, rest, rfl, -, rfl⟩ := mem_readMark.1 hopened
    obtain ⟨closed, hclosed, done, hdone, rfl⟩ := mem_andThen.1 hlast
    obtain ⟨view', rest', hrest, -, rfl⟩ := mem_readMark.1 hclosed
    rw [List.mem_singleton] at hdone
    subst hdone
    have hin := (ih _ _ hinner).1
    dsimp only at hin hrest ⊢
    rw [hrest] at hin
    have hsuffix : rest' <:+ rest := (List.suffix_cons _ _).trans hin
    exact ⟨hsuffix.trans (List.suffix_cons _ _), fun _ => Nat.lt_succ_of_le hsuffix.length_le⟩
  | items kind item closing ih =>
    intro views reading h
    refine ⟨?_, fun h => by simp [Rule.takes] at h⟩
    rw [readWith] at h
    split at h
    · rw [List.mem_singleton] at h
      exact h ▸ List.suffix_refl _
    · refine suffix_andThen h (fun first hfirst => ?_) fun rest later hlater =>
        (hself _ _ _ hlater).1
      exact suffix_andThen hfirst (fun _ hmem => (ih _ _ hmem).1) fun _ _ hmem =>
        (suffix_of_mem_readComma hmem).1
  | listed item ih =>
    intro views reading h
    rw [readWith] at h
    obtain ⟨first, hfirst, later, hlater, rfl⟩ := mem_andThen.1 h
    have hrest : later.2 <:+ first.2 := by
      split at hlater
      · refine suffix_andThen hlater (fun mark hmark => ?_) fun _ _ hmem => (hself _ _ _ hmem).1
        obtain ⟨view, rest, hviews, -, rfl⟩ := mem_readMark.1 hmark
        rw [hviews]
        exact List.suffix_cons _ _
      · rw [List.mem_singleton] at hlater
        exact hlater ▸ List.suffix_refl _
    have hitem := ih _ _ hfirst
    exact ⟨hrest.trans hitem.1, fun htakes => Nat.lt_of_le_of_lt hrest.length_le (hitem.2 htakes)⟩
  | members item ih =>
    intro views reading h
    refine ⟨?_, fun h => by simp [Rule.takes] at h⟩
    rw [readWith] at h
    split at h
    · rw [List.mem_singleton] at h
      exact h ▸ List.suffix_refl _
    · refine suffix_andThen h (fun first hfirst => ?_) fun rest later hlater =>
        (hself _ _ _ hlater).1
      exact suffix_andThen hfirst (fun _ hmem => (ih _ _ hmem).1) fun _ _ hmem =>
        suffix_of_mem_readMemberEnd hmem
  | both first second ih₁ ih₂ =>
    intro views reading h
    rw [readWith] at h
    obtain ⟨one, hone, two, htwo, rfl⟩ := mem_andThen.1 h
    have h₁ := ih₁ _ _ hone
    have h₂ := ih₂ _ _ htwo
    refine ⟨h₂.1.trans h₁.1, fun htakes => ?_⟩
    rw [Rule.takes, Bool.or_eq_true] at htakes
    rcases htakes with htakes | htakes
    · exact Nat.lt_of_le_of_lt h₂.1.length_le (h₁.2 htakes)
    · exact Nat.lt_of_lt_of_le (h₂.2 htakes) h₁.1.length_le
  | choose test yes no ih₁ ih₂ =>
    intro views reading h
    rw [readWith] at h
    rw [Rule.takes, Bool.and_eq_true]
    split at h
    · exact ⟨(ih₁ _ _ h).1, fun htakes => (ih₁ _ _ h).2 htakes.1⟩
    · exact ⟨(ih₂ _ _ h).1, fun htakes => (ih₂ _ _ h).2 htakes.2⟩
  | either first second ih₁ ih₂ =>
    intro views reading h
    rw [readWith, List.mem_append] at h
    rw [Rule.takes, Bool.and_eq_true]
    rcases h with h | h
    · exact ⟨(ih₁ _ _ h).1, fun htakes => (ih₁ _ _ h).2 htakes.1⟩
    · exact ⟨(ih₂ _ _ h).1, fun htakes => (ih₂ _ _ h).2 htakes.2⟩
  | many stop rule ih =>
    intro views reading h
    refine ⟨?_, fun h => by simp [Rule.takes] at h⟩
    rw [readWith] at h
    split at h
    · rw [List.mem_singleton] at h
      exact h ▸ List.suffix_refl _
    · exact suffix_andThen h (fun _ hmem => (ih _ _ hmem).1) fun _ _ hmem => (hself _ _ _ hmem).1
  | node kind rule ih =>
    intro views reading h
    rw [readWith] at h
    obtain ⟨first, hfirst, last, hlast, rfl⟩ := mem_andThen.1 h
    rw [List.mem_singleton] at hlast
    subst hlast
    obtain ⟨begun, hbegun, inner, hinner, rfl⟩ := mem_andThen.1 hfirst
    rw [List.mem_singleton] at hbegun
    subst hbegun
    exact ih views inner hinner
  | fold kind =>
    intro views reading h
    rw [readWith, List.mem_singleton] at h
    rw [h]
    exact ⟨List.suffix_refl _, fun h => by simp [Rule.takes] at h⟩
  | role role =>
    intro views reading h
    rw [readWith, List.mem_singleton] at h
    rw [h]
    exact ⟨List.suffix_refl _, fun h => by simp [Rule.takes] at h⟩
  | call symbol =>
    intro views reading h
    rw [readWith] at h
    exact ⟨(hself _ _ _ h).1, fun _ => (hself _ _ _ h).2 (hg symbol).1⟩

theorem shrinks_readUpTo {grammar : Grammar} (hg : grammar.Grounded) :
    ∀ depth, Shrinks (readUpTo grammar depth)
  | 0 => fun _ _ _ h => by simp [readUpTo] at h
  | depth + 1 => fun rule views reading h =>
    shrinks_readWith hg (shrinks_readUpTo hg depth) rule views reading (by rwa [readUpTo] at h)

/-! ## No depth in sight -/

theorem andThen_congr {readings readings' : List Reading} {reader reader' : Reader}
    (h : readings = readings')
    (hlater : ∀ first ∈ readings, reader first.2 = reader' first.2) :
    andThen readings reader = andThen readings' reader' := by
  subst h
  unfold andThen
  induction readings with
  | nil => rfl
  | cons first rest ih =>
    rw [List.flatMap_cons, List.flatMap_cons, hlater first (List.mem_cons_self ..),
      ih fun other hother => hlater other (List.mem_cons_of_mem _ hother)]

/-- Behind an item and its comma fewer views are left, unless there was no item to begin with. -/
theorem length_lt_of_item {reader : Reader} {kind : Kind} {closing : Text} {views : List View}
    {reading : Reading} (hreader : ∀ first ∈ reader views, first.2 <:+ views)
    (hopen : (viewAt 0 views).sign ≠ closing)
    (h : reading ∈ andThen (reader views) (readComma kind closing)) :
    reading.2.length < views.length := by
  obtain ⟨first, hfirst, later, hlater, rfl⟩ := mem_andThen.1 h
  obtain ⟨hsuffix, hclosing⟩ := suffix_of_mem_readComma hlater
  have hall := hsuffix.trans (hreader _ hfirst)
  refine Nat.lt_of_le_of_ne hall.length_le fun hlength => ?_
  have heq : later.2 = views := hall.eq_of_length hlength
  have hsame : first.2 = views :=
    (hreader _ hfirst).eq_of_length
      (Nat.le_antisymm (hreader _ hfirst).length_le (heq ▸ hsuffix.length_le))
  exact hopen (hsame ▸ hclosing (heq.trans hsame.symm))

/-- The readings of a rule depend only on those that the depth is enough for. -/
theorem readWith_congr {grammar : Grammar} {self self' : Rule → Reader} {depth : Nat}
    (hg : grammar.Grounded) (hself : Shrinks self)
    (hagree : ∀ rule views, rule.grounded = true → 8 * views.length + rule.levels < depth →
      self rule views = self' rule views) :
    ∀ rule views, rule.grounded = true → 8 * views.length + rule.levels ≤ depth →
      readWith grammar self rule views = readWith grammar self' rule views := by
  have hshrink := shrinks_readWith hg hself
  intro rule
  induction rule with
  | nothing | failure | fold | role => intro views _ _; rfl
  | take look kind => intro views _ _; cases views <;> rfl
  | group kind opening inside closing ih =>
    intro views hground hdepth
    rw [readWith, readWith]
    refine andThen_congr rfl fun begun hbegun => ?_
    rw [List.mem_singleton] at hbegun
    subst hbegun
    refine andThen_congr (andThen_congr rfl fun opened hopened => ?_) fun _ _ => rfl
    obtain ⟨view, rest, hviews, -, rfl⟩ := mem_readMark.1 hopened
    have hlevels := inside.levels_le
    dsimp only at hviews ⊢
    rw [hviews, List.length_cons] at hdepth
    exact ih rest hground (by omega)
  | items kind item closing ih =>
    intro views hground hdepth
    rw [readWith, readWith]
    split
    · rfl
    · next hopen =>
      have hitem := ih views hground hdepth
      refine andThen_congr (by rw [hitem]) fun first hfirst => ?_
      have hlength := length_lt_of_item (fun _ hmem => (hshrink _ _ _ hmem).1) hopen hfirst
      have hlevels := item.levels_le
      refine hagree _ _ hground ?_
      show _ + item.levels < _
      omega
  | listed item ih =>
    intro views hground hdepth
    have hground' := hground
    rw [Rule.grounded, Bool.and_eq_true] at hground'
    rw [readWith, readWith]
    refine andThen_congr (ih views hground'.2 hdepth) fun first hfirst => ?_
    have hlength := (hshrink _ _ _ hfirst).2 hground'.1
    split
    · refine andThen_congr rfl fun mark hmark => ?_
      obtain ⟨view, rest, hviews, -, rfl⟩ := mem_readMark.1 hmark
      rw [hviews, List.length_cons] at hlength
      have hlevels := item.levels_le
      refine hagree _ _ hground ?_
      show 8 * rest.length + item.levels < _
      omega
    · rfl
  | members item ih =>
    intro views hground hdepth
    have hground' := hground
    rw [Rule.grounded, Bool.and_eq_true] at hground'
    rw [readWith, readWith]
    split
    · rfl
    · refine andThen_congr (by rw [ih views hground'.2 hdepth]) fun first hfirst => ?_
      obtain ⟨one, hone, two, htwo, rfl⟩ := mem_andThen.1 hfirst
      have hlength := (hshrink _ _ _ hone).2 hground'.1
      have hsuffix := (suffix_of_mem_readMemberEnd htwo).length_le
      have hlevels := item.levels_le
      refine hagree _ _ hground ?_
      show 8 * two.2.length + item.levels < _
      omega
  | both first second ih₁ ih₂ =>
    intro views hground hdepth
    rw [Rule.grounded, Bool.and_eq_true] at hground
    rw [readWith, readWith]
    have hfirst : 8 * views.length + first.levels ≤ depth := by
      rw [Rule.levels] at hdepth
      split at hdepth <;> omega
    refine andThen_congr (ih₁ views hground.1 hfirst) fun one hone => ?_
    have hone := hshrink _ _ _ hone
    refine ih₂ one.2 hground.2 ?_
    rw [Rule.levels] at hdepth
    split at hdepth
    · next htakes =>
      have := hone.2 htakes
      have := second.levels_le
      omega
    · have := hone.1.length_le
      omega
  | choose test yes no ih₁ ih₂ =>
    intro views hground hdepth
    rw [Rule.grounded, Bool.and_eq_true] at hground
    rw [Rule.levels] at hdepth
    rw [readWith, readWith]
    split
    · exact ih₁ views hground.1 (by omega)
    · exact ih₂ views hground.2 (by omega)
  | either first second ih₁ ih₂ =>
    intro views hground hdepth
    rw [Rule.grounded, Bool.and_eq_true] at hground
    rw [Rule.levels] at hdepth
    rw [readWith, readWith, ih₁ views hground.1 (by omega), ih₂ views hground.2 (by omega)]
  | many stop rule ih =>
    intro views hground hdepth
    have hground' := hground
    rw [Rule.grounded, Bool.and_eq_true] at hground'
    rw [readWith, readWith]
    split
    · rfl
    · refine andThen_congr (ih views hground'.2 hdepth) fun first hfirst => ?_
      have hlength := (hshrink _ _ _ hfirst).2 hground'.1
      have hlevels := rule.levels_le
      refine hagree _ _ hground ?_
      show 8 * first.2.length + rule.levels < _
      omega
  | node kind rule ih =>
    intro views hground hdepth
    rw [readWith, readWith]
    refine andThen_congr (andThen_congr rfl fun begun hbegun => ?_) fun _ _ => rfl
    rw [List.mem_singleton] at hbegun
    subst hbegun
    exact ih views hground hdepth
  | call symbol =>
    intro views _ hdepth
    rw [Rule.levels] at hdepth
    have hsymbol := hg symbol
    rw [readWith, readWith]
    exact hagree _ _ hsymbol.2.1 (by omega)

/-- More depth than is needed gives no other readings. -/
theorem readUpTo_eq_of_le {grammar : Grammar} (hg : grammar.Grounded) :
    ∀ {depth depth' : Nat} {rule : Rule} {views : List View}, rule.grounded = true →
      8 * views.length + rule.levels < depth → depth ≤ depth' →
        readUpTo grammar depth rule views = readUpTo grammar depth' rule views := by
  intro depth
  induction depth with
  | zero => intro _ _ _ _ h; exact absurd h (Nat.not_lt_zero _)
  | succ depth ih =>
    intro depth' rule views hground hdepth hle
    obtain ⟨depth', rfl⟩ : ∃ d, depth' = d + 1 := ⟨depth' - 1, by omega⟩
    rw [readUpTo, readUpTo]
    exact readWith_congr hg (shrinks_readUpTo hg depth)
      (fun rule views hground hlt => ih hground hlt (Nat.le_of_succ_le_succ hle)) rule views
      hground (Nat.le_of_lt_succ hdepth)

theorem readUpTo_eq_read {grammar : Grammar} (hg : grammar.Grounded) {depth : Nat} {rule : Rule}
    {views : List View} (hground : rule.grounded = true)
    (hdepth : 8 * views.length + rule.levels < depth) :
    readUpTo grammar depth rule views = read grammar rule views := by
  have hlevels := rule.levels_le
  have henough : 8 * views.length + rule.levels < 8 * views.length + rule.levels + 1 :=
    Nat.lt_succ_self _
  have hfor : 8 * views.length + rule.levels + 1 ≤ depthFor views.length := by
    unfold depthFor
    omega
  rw [read, ← readUpTo_eq_of_le hg hground henough hdepth,
    ← readUpTo_eq_of_le hg hground henough hfor]

/-- A rule is read by reading its parts. -/
theorem read_eq {grammar : Grammar} (hg : grammar.Grounded) {rule : Rule} {views : List View}
    (hground : rule.grounded = true) :
    read grammar rule views = readWith grammar (read grammar) rule views := by
  have hlevels := rule.levels_le
  have hdepth : depthFor views.length = 8 * views.length + 7 + 1 := by rw [depthFor]; omega
  rw [read, hdepth, readUpTo]
  exact readWith_congr hg (shrinks_readUpTo hg _)
    (fun rule views hground hlt => readUpTo_eq_read hg hground hlt) rule views hground (by omega)

theorem shrinks_read {grammar : Grammar} (hg : grammar.Grounded) : Shrinks (read grammar) :=
  fun rule views reading h => shrinks_readUpTo hg _ rule views reading (by rwa [read] at h)

theorem suffix_of_mem_read {grammar : Grammar} (hg : grammar.Grounded) {rule : Rule}
    {views : List View} {reading : Reading} (h : reading ∈ read grammar rule views) :
    reading.2 <:+ views :=
  (shrinks_read hg _ _ _ h).1

end VerticalSlice.Syntax
