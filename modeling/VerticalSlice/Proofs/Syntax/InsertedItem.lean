import VerticalSlice.Proofs.Syntax.Insertion

/-!
# Where one more item is read

`Rule.admits` computes whether an item can be put into the lists of a rule. If it can be put into those of
all symbols, the readings of a rule with the item are those without it, carried over (`carries_read`):
readings that have not come to the item stay in front of it, and those that are past it have the steps of
the item among theirs, or are gone. In particular the first reading of the whole is the first one from
before with the steps of the item in it, if it reads the list as an array (`find?_of_carries`).
-/

namespace VerticalSlice.Syntax

/-! ## Rules that the item fits into -/

/-- Does the mark close brackets of any kind? -/
def isClosing (mark : Text) : Bool := ([[')'], [']'], ['\x7d'], ['>']] : List Text).contains mark

/-- How the rule reads the item up to its comma: by these steps and no others, or not at all. There is
no answer if it is read in some other way. -/
def onlyReading? (grammar : Grammar) (item : List View) (rule : Rule) :
    Option (Option (List Step)) :=
  match probe grammar (depthFor item.length) rule item with
  | some [] => some none
  | some [(steps, [comma])] => if comma.isComma then some (some steps) else none
  | _ => none

/-- What is read of the item in square brackets that hold no list is not all that stands in them. -/
def failsInside (grammar : Grammar) (item : List View) (closing : Text) (rule : Rule) : Bool :=
  (probe grammar (depthFor item.length) rule item).any fun readings =>
    readings.all fun reading => reading.2 ≠ [] && (viewAt 0 reading.2).sign ≠ closing

/-- Can the item be put into square brackets of a node of this kind with this rule for what is in them? -/
def Rule.admitsInside (grammar : Grammar) (item : List View) (kind : Kind) (closing : Text) :
    Rule → Bool
  | .items kind' _ _ => kind' = kind
  | .listed _ => kind ≠ .array
  | rule => kind ≠ .array && failsInside grammar item closing rule

/-- Is the item of a list that is read by the rule read by itself, in one way at most, and in an array
by the steps `inserted`? -/
def Rule.admits (grammar : Grammar) (item : List View) (inserted : List Step) : Rule → Bool
  | .nothing | .failure | .take .. | .fold _ | .role _ | .call _ => true
  | .group kind opening inside closing =>
    isClosing closing && opening ≠ [','] &&
      (opening ≠ ['['] || inside.admitsInside grammar item kind closing) &&
      inside.admits grammar item inserted
  | .items kind one closing =>
    isClosing closing && one.admits grammar item inserted &&
      (onlyReading? grammar item one).any fun known =>
        kind ≠ .array || known.map (· ++ [.bound kind]) = some inserted
  | .listed one => (onlyReading? grammar item one).isSome && one.admits grammar item inserted
  | .members one => onlyReading? grammar item one = some none && one.admits grammar item inserted
  | .many _ rule | .node _ rule => rule.admits grammar item inserted
  | .both first second | .either first second =>
    first.admits grammar item inserted && second.admits grammar item inserted
  | .choose _ yes no => yes.admits grammar item inserted && no.admits grammar item inserted

section

variable {grammar : Grammar} {item behind : List View} {inserted : List Step}

theorem read_item (hg : grammar.Grounded) {rule : Rule} {known : Option (List Step)}
    (hground : rule.grounded = true) (h : onlyReading? grammar item rule = some known)
    (rest : List View) : ∃ comma : View, comma.sign = [','] ∧
      read grammar rule (item ++ rest) = known.elim [] fun steps => [(steps, comma :: rest)] := by
  rw [onlyReading?] at h
  split at h
  · next hprobe =>
    obtain rfl := Option.some.inj h
    exact ⟨⟨.mark, [','], false, false⟩, rfl, read_append_of_probe hg hground hprobe rest⟩
  · next steps comma hprobe =>
    split at h
    · next hcomma =>
      obtain rfl := Option.some.inj h
      exact ⟨comma, of_decide_eq_true hcomma, read_append_of_probe hg hground hprobe rest⟩
    · cases h
  · cases h

theorem sign_ne_of_opens {view : View} {mark : Text} (hview : view.opens = true)
    (hmark : isClosing mark = true) : view.sign ≠ mark := by
  intro h
  simp only [View.opens, isClosing, List.contains_iff_mem] at hview hmark
  rw [h] at hview
  have hall : ∀ mark ∈ ([[')'], [']'], ['\x7d'], ['>']] : List Text),
      mark ∉ (["(", "[", "\x7b", "$\x7b"] : List Text) := by decide
  exact hall mark hmark hview

theorem ne_comma_of_isClosing {mark : Text} (h : isClosing mark = true) : [','] ≠ mark := by
  rintro rfl
  exact absurd h (by decide)

theorem awaitsItem_of_closing {view : View} {front : List View}
    (hfront : awaitsItem (view :: front) = true) (h : isClosing view.sign = true) :
    awaitsItem front = true := by
  rcases awaitsItem_cons hfront with ⟨-, hview⟩ | hfront
  · rcases View.sign_of_awaitsItem hview with hsign | hsign <;>
    · rw [hsign] at h
      exact absurd h (by decide)
  · exact hfront

theorem viewAt_item (hitem : IsItem item) (rest : List View) :
    (viewAt 0 (item ++ rest)).opens = true := by
  have hopens := hitem.opens
  cases item with
  | nil => exact absurd hopens (by decide)
  | cons view item => exact hopens

/-! ## Readings that begin at the item -/

/-- What is read behind the item, if the item is read at all. -/
theorem read_items_item (hg : grammar.Grounded) (hitem : IsItem item) {kind : Kind} {one : Rule}
    {closing : Text} {known : Option (List Step)} (hground : one.grounded = true)
    (hclosing : isClosing closing = true) (h : onlyReading? grammar item one = some known) :
    read grammar (.items kind one closing) (item ++ behind) =
      (known.map (· ++ [.bound kind])).elim [] fun steps =>
        (read grammar (.items kind one closing) behind).map (Reading.after steps) := by
  obtain ⟨comma, hcomma, hread⟩ := read_item hg hground h behind
  have hone : readWith grammar (read grammar) one (item ++ behind) = _ :=
    (read_eq hg hground).symm.trans hread
  have hitems : (Rule.items kind one closing).grounded = true := hground
  rw [read_eq hg hitems, readWith, if_neg (sign_ne_of_opens (viewAt_item hitem behind) hclosing),
    hone]
  cases known with
  | none => rfl
  | some steps =>
    rw [Option.elim_some, andThen_singleton, readComma, hcomma,
      if_neg (ne_comma_of_isClosing hclosing), readMark, if_pos hcomma]
    show andThen [(steps ++ [.bound kind], behind)] _ = _
    rw [andThen_singleton]
    rfl

theorem read_listed_item (hg : grammar.Grounded) {one : Rule} {known : Option (List Step)}
    (hground : (Rule.listed one).grounded = true)
    (h : onlyReading? grammar item one = some known) :
    read grammar (.listed one) (item ++ behind) =
      (known.map (· ++ [.leaf .mark])).elim [] fun steps =>
        (read grammar (.listed one) behind).map (Reading.after steps) := by
  have hone : one.grounded = true := (Bool.and_eq_true_iff.1 hground).2
  obtain ⟨comma, hcomma, hread⟩ := read_item hg hone h behind
  have hfirst : readWith grammar (read grammar) one (item ++ behind) = _ :=
    (read_eq hg hone).symm.trans hread
  rw [read_eq hg hground, readWith, hfirst]
  cases known with
  | none => rfl
  | some steps =>
    have hview : (viewAt 0 (comma :: behind)).isComma = true := by
      rw [viewAt, View.isComma, hcomma]
      rfl
    rw [Option.elim_some, andThen_singleton, if_pos hview, readMark, if_pos hcomma,
      andThen_singleton, map_after_map_after]
    rfl

theorem read_members_item (hg : grammar.Grounded) (hitem : IsItem item) {one : Rule}
    (hground : (Rule.members one).grounded = true)
    (h : onlyReading? grammar item one = some none) :
    read grammar (.members one) (item ++ behind) = [] := by
  have hone : one.grounded = true := (Bool.and_eq_true_iff.1 hground).2
  obtain ⟨_, _, hread⟩ := read_item hg hone h behind
  have hfirst : readWith grammar (read grammar) one (item ++ behind) = _ :=
    (read_eq hg hone).symm.trans hread
  rw [read_eq hg hground, readWith, if_neg (sign_ne_of_opens (viewAt_item hitem behind) (by decide)),
    hfirst]
  rfl

theorem readWith_read (hg : grammar.Grounded) {rule : Rule} (hground : rule.grounded = true) :
    readWith grammar (read grammar) rule = read grammar rule :=
  funext fun _ => (read_eq hg hground).symm

theorem andThen_elim (known : Option (List Step)) (readings : List Reading) (reader : Reader) :
    andThen (known.elim [] fun steps => readings.map (Reading.after steps)) reader =
      known.elim [] fun steps => (andThen readings reader).map (Reading.after steps) := by
  cases known with
  | none => rfl
  | some steps => exact andThen_map_after steps readings reader

theorem map_after_elim (first : List Step) (known : Option (List Step)) (readings : List Reading) :
    (known.elim [] fun steps => readings.map (Reading.after steps)).map (Reading.after first) =
      known.elim [] fun steps => readings.map (Reading.after (first ++ steps)) := by
  cases known with
  | none => rfl
  | some steps => exact map_after_map_after first steps readings

end

/-! ## The item in the lists of a rule -/

/-- The item fits into the lists of all symbols, in front of something that begins with a bracket of any kind. -/
structure Fits (grammar : Grammar) (item behind : List View) (inserted : List Step) : Prop where
  grounded : grammar.Grounded
  isItem : IsItem item
  structural : (viewAt 0 behind).isStructural = true
  admits : ∀ symbol, (grammar symbol).admits grammar item inserted = true

/-- The readings of the rule are carried over when the item is put behind these views. -/
def CarriesOver (grammar : Grammar) (item behind : List View) (inserted : List Step) (rule : Rule)
    (front : List View) : Prop :=
  Carries item behind inserted front.length (read grammar rule (front ++ behind))
    (read grammar rule (front ++ (item ++ behind)))

/-- Reads the closing mark of a node. -/
def readClosing (kind : Kind) (closing : Text) : Reader := fun views =>
  andThen (readMark (.bound kind) closing views) fun views => [([.finish], views)]

theorem View.isStructural_of_awaitsItem {view : View} (h : awaitsItem [view] = true) :
    view.isStructural = true := by
  rcases View.sign_of_awaitsItem h with h | h <;>
    simp [View.isStructural, View.isComma, View.opens, h]

theorem shortens_readClosing (kind : Kind) (closing : Text) :
    Reader.Shortens (readClosing kind closing) :=
  (shortens_readMark _ _).andThen (shortens_done _)

/-- A rule for what is in square brackets with the item may be a list, or else it stops inside the
item. -/
theorem admitsInside_cases {grammar : Grammar} {item : List View} {kind : Kind} {closing : Text}
    {inside : Rule} (h : inside.admitsInside grammar item kind closing = true) :
    (∃ one end', inside = .items kind one end') ∨
      kind ≠ .array ∧ ((∃ one, inside = .listed one) ∨ failsInside grammar item closing inside = true) := by
  unfold Rule.admitsInside at h
  split at h
  · next kind' one end' =>
    exact .inl ⟨one, end', by rw [of_decide_eq_true h]⟩
  · next one => exact .inr ⟨of_decide_eq_true h, .inl ⟨one, rfl⟩⟩
  · rw [Bool.and_eq_true, decide_eq_true_eq] at h
    exact .inr ⟨h.1, .inr h.2⟩

section

variable {grammar : Grammar} {item behind : List View} {inserted : List Step} {front : List View}

theorem carries_take (hfits : Fits grammar item behind inserted) (look : Look) (kind : Kind)
    (hfront : awaitsItem front = true) :
    CarriesOver grammar item behind inserted (.take look kind) front := by
  rw [CarriesOver, read_eq hfits.grounded rfl, read_eq hfits.grounded rfl]
  cases front with
  | nil => cases hfront
  | cons view front =>
    rw [List.cons_append, List.cons_append, readWith, readWith]
    split
    · next hfit =>
      rw [Bool.and_eq_true, Bool.not_eq_true'] at hfit
      rcases awaitsItem_cons hfront with ⟨-, hview⟩ | hfront
      · rw [View.isStructural_of_awaitsItem hview] at hfit
        cases hfit.2
      · exact carries_before hfront (Nat.add_comm 1 front.length)
    · exact .nil

theorem carries_readClosing (kind : Kind) {closing : Text} (hclosing : isClosing closing = true)
    (hfront : awaitsItem front = true) :
    Carries item behind inserted front.length (readClosing kind closing (front ++ behind))
      (readClosing kind closing (front ++ (item ++ behind))) := by
  cases front with
  | nil => cases hfront
  | cons view front =>
    rw [List.cons_append, List.cons_append, readClosing, readClosing, readMark, readMark]
    split
    · next hsign =>
      have hrest := awaitsItem_of_closing hfront (by rwa [hsign])
      exact carries_before hrest (Nat.add_comm 1 front.length)
    · exact .nil

/-- What stops inside the item is closed nowhere. -/
theorem andThen_readClosing_of_failsInside (hg : grammar.Grounded) {kind : Kind} {closing : Text}
    {rule : Rule} (hground : rule.grounded = true)
    (h : failsInside grammar item closing rule = true) :
    andThen (read grammar rule (item ++ behind)) (readClosing kind closing) = [] := by
  obtain ⟨readings, hprobe, hfails⟩ := (Option.any_eq_true _ _).1 h
  rw [read_append_of_probe hg hground hprobe behind, andThen, List.flatMap_eq_nil_iff]
  intro reading hreading
  obtain ⟨inside, hinside, rfl⟩ := List.mem_map.1 hreading
  have hstops := List.all_eq_true.1 hfails inside hinside
  rw [Bool.and_eq_true, decide_eq_true_eq, decide_eq_true_eq] at hstops
  obtain ⟨view, rest, hrest⟩ := List.exists_cons_of_ne_nil hstops.1
  rw [hrest] at hstops
  have hsign : view.sign ≠ closing := hstops.2
  show List.map _ (readClosing kind closing (inside.2 ++ behind)) = []
  rw [hrest, List.cons_append, readClosing, readMark, if_neg hsign]
  rfl

/-- The item comes first in square brackets. -/
theorem carries_inside (hfits : Fits grammar item behind inserted) {kind : Kind} {inside : Rule}
    {closing : Text} (hground : inside.grounded = true)
    (hinside : inside.admitsInside grammar item kind closing = true)
    (hadmits : inside.admits grammar item inserted = true) :
    Carries item behind inserted 1
      ((andThen (read grammar inside behind) (readClosing kind closing)).map
        (Reading.after [.bound kind]))
      ((andThen (read grammar inside (item ++ behind)) (readClosing kind closing)).map
        (Reading.after [.bound kind])) := by
  have hg := hfits.grounded
  have hrest : ∀ reading ∈ andThen (read grammar inside behind) (readClosing kind closing),
      reading.2.length ≤ behind.length := fun reading hreading =>
    (shortens_read hg inside).andThen (shortens_readClosing kind closing) behind reading hreading
  rcases admitsInside_cases hinside with ⟨one, end', rfl⟩ | ⟨hkind, ⟨one, rfl⟩ | hfails⟩
  · rw [Rule.admits, Bool.and_eq_true, Bool.and_eq_true, Option.any_eq_true] at hadmits
    obtain ⟨⟨hclosing, -⟩, known, hknown, harray⟩ := hadmits
    have hone : one.grounded = true := hground
    rw [read_items_item hg hfits.isItem hone hclosing hknown, andThen_elim, map_after_elim]
    refine carries_at_item _ rfl (fun heq => ?_) hrest
    rw [Step.bound.injEq] at heq
    simpa [heq] using harray
  · rw [Rule.admits, Bool.and_eq_true] at hadmits
    obtain ⟨known, hknown⟩ := Option.isSome_iff_exists.1 hadmits.1
    rw [read_listed_item hg hground hknown, andThen_elim, map_after_elim]
    exact carries_at_item _ rfl (fun heq => absurd (Step.bound.inj heq) hkind) hrest
  · rw [andThen_readClosing_of_failsInside hg hground hfails]
    exact carries_at_item none rfl
      (fun heq => absurd (Step.bound.inj heq) hkind) hrest

theorem carries_group (hfits : Fits grammar item behind inserted) {kind : Kind}
    {opening closing : Text} {inside : Rule}
    (hground : inside.grounded = true)
    (hadmits : (Rule.group kind opening inside closing).admits grammar item inserted = true)
    (hinside : ∀ front', awaitsItem front' = true → front'.length < front.length →
      CarriesOver grammar item behind inserted inside front')
    (hfront : awaitsItem front = true) :
    CarriesOver grammar item behind inserted (.group kind opening inside closing) front := by
  have hg := hfits.grounded
  simp only [Rule.admits, Bool.and_eq_true, Bool.or_eq_true, decide_eq_true_eq] at hadmits
  obtain ⟨⟨⟨hclosing, hcomma⟩, hbracket⟩, hadmits⟩ := hadmits
  have hgroup : (Rule.group kind opening inside closing).grounded = true := hground
  rw [CarriesOver, read_eq hg hgroup, read_eq hg hgroup, readWith, readWith,
    readWith_read hg hground, andThen_singleton, andThen_singleton]
  refine Carries.map_after ?_ (Nat.zero_add _)
  cases front with
  | nil => cases hfront
  | cons view front =>
    show Carries item behind inserted _
      (andThen (andThen (readMark (.bound kind) opening (view :: (front ++ behind)))
        (read grammar inside)) (readClosing kind closing))
      (andThen (andThen (readMark (.bound kind) opening (view :: (front ++ (item ++ behind))))
        (read grammar inside)) (readClosing kind closing))
    rw [readMark, readMark]
    split
    · next hopening =>
      rw [andThen_assoc, andThen_assoc, andThen_singleton, andThen_singleton]
      rcases awaitsItem_cons hfront with ⟨rfl, hview⟩ | hfront
      · have hsign : opening = ['['] := by
          rcases View.sign_of_awaitsItem hview with hsign | hsign
          · rw [← hopening, hsign]
          · exact absurd (hopening.symm.trans hsign) hcomma
        exact carries_inside hfits hground (hbracket.resolve_left (not_not_intro hsign)) hadmits
      · have hall := carries_andThen (hinside front hfront (Nat.lt_succ_self _))
          (shortens_readClosing kind closing) fun _ _ _ => carries_readClosing kind hclosing
        exact hall.map_after (Nat.add_comm 1 front.length)
    · exact .nil

/-- Behind an item of a list its end is read, and then the rest of the list. -/
theorem carries_behindItem (hfits : Fits grammar item behind inserted) {kind : Kind} {one : Rule}
    {closing : Text} (hground : one.grounded = true)
    (hadmits : (Rule.items kind one closing).admits grammar item inserted = true)
    (hrest : ∀ front', awaitsItem front' = true → front'.length < front.length →
      CarriesOver grammar item behind inserted (.items kind one closing) front')
    (hsame : (viewAt 0 front).sign = closing →
      CarriesOver grammar item behind inserted (.items kind one closing) front)
    (hfront : awaitsItem front = true) :
    Carries item behind inserted front.length
      (andThen (readComma kind closing (front ++ behind)) (read grammar (.items kind one closing)))
      (andThen (readComma kind closing (front ++ (item ++ behind)))
        (read grammar (.items kind one closing))) := by
  have hg := hfits.grounded
  rw [Rule.admits, Bool.and_eq_true, Bool.and_eq_true, Option.any_eq_true] at hadmits
  obtain ⟨⟨hclosing, -⟩, known, hknown, harray⟩ := hadmits
  cases front with
  | nil => cases hfront
  | cons view front =>
    rw [List.cons_append, List.cons_append, readComma, readComma, readMark, readMark]
    split
    · next hsign =>
      rw [andThen_singleton, andThen_singleton]
      exact (hsame hsign).map_after (Nat.zero_add _)
    · split
      · rw [andThen_singleton, andThen_singleton]
        rcases awaitsItem_cons hfront with ⟨rfl, -⟩ | hfront
        · dsimp only
          rw [List.nil_append, List.nil_append,
            read_items_item hg hfits.isItem hground hclosing hknown, map_after_elim]
          refine carries_at_item _ rfl (fun heq => ?_) (shortens_read hg _ behind)
          rw [Step.bound.injEq] at heq
          simpa [heq] using harray
        · exact (hrest front hfront (Nat.lt_succ_self _)).map_after (Nat.add_comm 1 front.length)
      · exact .nil

theorem carries_items (hfits : Fits grammar item behind inserted) {kind : Kind} {one : Rule}
    {closing : Text} (hground : one.grounded = true)
    (hadmits : (Rule.items kind one closing).admits grammar item inserted = true)
    (hone : CarriesOver grammar item behind inserted one front)
    (hrest : ∀ front', awaitsItem front' = true → front'.length < front.length →
      CarriesOver grammar item behind inserted (.items kind one closing) front')
    (hfront : awaitsItem front = true) :
    CarriesOver grammar item behind inserted (.items kind one closing) front := by
  have hg := hfits.grounded
  have hitems : (Rule.items kind one closing).grounded = true := hground
  rw [CarriesOver, read_eq hg hitems, read_eq hg hitems, readWith, readWith, viewAt_insert hfront 0]
  split
  · exact carries_before hfront (Nat.zero_add _)
  · next hopen =>
    rw [readWith_read hg hground, andThen_assoc, andThen_assoc]
    refine carries_andThen hone
      ((shortens_readComma _ _).andThen (shortens_read hg _)) fun steps front' hmem hfront' => ?_
    have hsuffix := suffix_of_mem_read hg hmem
    have hle := hsuffix.length_le
    rw [List.length_append, List.length_append] at hle
    refine carries_behindItem hfits hground hadmits
      (fun other hother hlt => hrest other hother (by omega)) (fun hsign => ?_) hfront'
    -- an item that takes nothing is followed by its comma
    refine hrest front' hfront' (Nat.lt_of_le_of_ne (by omega) fun hlength => hopen ?_)
    have heq := hsuffix.eq_of_length (by rw [List.length_append, List.length_append, hlength])
    obtain rfl := List.append_cancel_right heq
    cases front' with
    | nil => cases hfront'
    | cons view front' => exact hsign

theorem carries_listed (hfits : Fits grammar item behind inserted) {one : Rule}
    (hground : (Rule.listed one).grounded = true)
    (hadmits : (Rule.listed one).admits grammar item inserted = true)
    (hone : CarriesOver grammar item behind inserted one front)
    (hrest : ∀ front', awaitsItem front' = true → front'.length < front.length →
      CarriesOver grammar item behind inserted (.listed one) front') :
    CarriesOver grammar item behind inserted (.listed one) front := by
  have hg := hfits.grounded
  have hground' := hground
  rw [Rule.grounded, Bool.and_eq_true] at hground'
  rw [Rule.admits, Bool.and_eq_true] at hadmits
  obtain ⟨known, hknown⟩ := Option.isSome_iff_exists.1 hadmits.1
  rw [CarriesOver, read_eq hg hground, read_eq hg hground, readWith, readWith,
    readWith_read hg hground'.2]
  refine carries_andThen hone (fun views reading hreading => ?_) fun steps front' hmem hfront' => ?_
  · split at hreading
    · exact (shortens_readMark _ _).andThen (shortens_read hg _) views reading hreading
    · exact shortens_done [] views reading hreading
  · have hle := (suffix_of_mem_read hg hmem).length_le
    rw [List.length_append, List.length_append] at hle
    cases front' with
    | nil => cases hfront'
    | cons view front' =>
      rw [List.length_cons] at hle
      show Carries item behind inserted _ (if view.isComma then _ else _)
        (if view.isComma then _ else _)
      split
      · next hcomma =>
        have hsign : view.sign = [','] := of_decide_eq_true hcomma
        rw [List.cons_append, List.cons_append, readMark, readMark, if_pos hsign, if_pos hsign,
          andThen_singleton, andThen_singleton]
        rcases awaitsItem_cons hfront' with ⟨rfl, -⟩ | hfront'
        · dsimp only
          rw [List.nil_append, List.nil_append, read_listed_item hg hground hknown, map_after_elim]
          exact carries_at_item _ rfl (fun heq => by cases heq) (shortens_read hg _ behind)
        · exact (hrest front' hfront' (by omega)).map_after (Nat.add_comm 1 front'.length)
      · exact carries_before hfront' (Nat.zero_add _)

/-- Behind a member its end is read, and then the other members. -/
theorem carries_behindMember (hfits : Fits grammar item behind inserted) {one : Rule}
    (hground : (Rule.members one).grounded = true)
    (hadmits : (Rule.members one).admits grammar item inserted = true)
    (hrest : ∀ front', awaitsItem front' = true → front'.length ≤ front.length →
      CarriesOver grammar item behind inserted (.members one) front')
    (hfront : awaitsItem front = true) :
    Carries item behind inserted front.length
      (andThen (readMemberEnd (front ++ behind)) (read grammar (.members one)))
      (andThen (readMemberEnd (front ++ (item ++ behind))) (read grammar (.members one))) := by
  have hg := hfits.grounded
  have hground' := hground
  rw [Rule.grounded, Bool.and_eq_true] at hground'
  rw [Rule.admits, Bool.and_eq_true, decide_eq_true_eq] at hadmits
  cases front with
  | nil => cases hfront
  | cons view front =>
    rw [List.cons_append, List.cons_append, readMemberEnd, readMemberEnd]
    split
    · rw [andThen_singleton, andThen_singleton]
      rcases awaitsItem_cons hfront with ⟨rfl, -⟩ | hfront
      · dsimp only
        rw [List.nil_append, List.nil_append, read_members_item hg hfits.isItem hground hadmits.1]
        exact carries_at_item none rfl (fun heq => by cases heq) (shortens_read hg _ behind)
      · exact (hrest front hfront (Nat.le_succ _)).map_after (Nat.add_comm 1 front.length)
    · split
      · rw [andThen_singleton, andThen_singleton]
        exact (hrest _ hfront (Nat.le_refl _)).map_after (Nat.zero_add _)
      · exact .nil

theorem carries_members (hfits : Fits grammar item behind inserted) {one : Rule}
    (hground : (Rule.members one).grounded = true)
    (hadmits : (Rule.members one).admits grammar item inserted = true)
    (hone : CarriesOver grammar item behind inserted one front)
    (hrest : ∀ front', awaitsItem front' = true → front'.length < front.length →
      CarriesOver grammar item behind inserted (.members one) front')
    (hfront : awaitsItem front = true) :
    CarriesOver grammar item behind inserted (.members one) front := by
  have hg := hfits.grounded
  have hground' := hground
  rw [Rule.grounded, Bool.and_eq_true] at hground'
  rw [CarriesOver, read_eq hg hground, read_eq hg hground, readWith, readWith,
    viewAt_insert hfront 0]
  split
  · exact carries_before hfront (Nat.zero_add _)
  · rw [readWith_read hg hground'.2, andThen_assoc, andThen_assoc]
    refine carries_andThen hone (shortens_readMemberEnd.andThen (shortens_read hg _))
      fun steps front' hmem hfront' => ?_
    have hlt := (shrinks_read hg _ _ _ hmem).2 hground'.1
    rw [List.length_append, List.length_append] at hlt
    exact carries_behindMember hfits hground hadmits
      (fun other hother hle => hrest other hother (by omega)) hfront'

/-! ## All rules -/

/-- What is read one behind the other is carried over one behind the other. -/
theorem carries_both (hfits : Fits grammar item behind inserted) {first second : Rule}
    (hground : first.grounded = true ∧ second.grounded = true)
    (hfirst : CarriesOver grammar item behind inserted first front)
    (hsecond : ∀ front', awaitsItem front' = true → front'.length ≤ front.length →
      (first.takes = true → front'.length < front.length) →
        CarriesOver grammar item behind inserted second front') :
    CarriesOver grammar item behind inserted (.both first second) front := by
  have hg := hfits.grounded
  have hboth : (Rule.both first second).grounded = true := Bool.and_eq_true_iff.2 hground
  rw [CarriesOver, read_eq hg hboth, read_eq hg hboth, readWith, readWith,
    readWith_read hg hground.1, readWith_read hg hground.2]
  refine carries_andThen hfirst (shortens_read hg second) fun steps front' hmem hfront' => ?_
  obtain ⟨hsuffix, hlt⟩ := shrinks_read hg _ _ _ hmem
  have hle := hsuffix.length_le
  rw [List.length_append, List.length_append] at hle
  refine hsecond front' hfront' (by omega) fun htakes => ?_
  have hlt := hlt htakes
  rw [List.length_append, List.length_append] at hlt
  omega

theorem carries_many (hfits : Fits grammar item behind inserted) {stop : Test} {rule : Rule}
    (hground : (Rule.many stop rule).grounded = true)
    (hrule : CarriesOver grammar item behind inserted rule front)
    (hrest : ∀ front', awaitsItem front' = true → front'.length < front.length →
      CarriesOver grammar item behind inserted (.many stop rule) front')
    (hfront : awaitsItem front = true) :
    CarriesOver grammar item behind inserted (.many stop rule) front := by
  have hg := hfits.grounded
  have hground' := hground
  rw [Rule.grounded, Bool.and_eq_true] at hground'
  rw [CarriesOver, read_eq hg hground, read_eq hg hground, readWith, readWith,
    holds_insert hfits.isItem hfits.structural hfront]
  split
  · exact carries_before hfront (Nat.zero_add _)
  · rw [readWith_read hg hground'.2]
    refine carries_andThen hrule (shortens_read hg _) fun steps front' hmem hfront' => ?_
    have hlt := (shrinks_read hg _ _ _ hmem).2 hground'.1
    rw [List.length_append, List.length_append] at hlt
    exact hrest front' hfront' (by omega)

theorem carries_node (hfits : Fits grammar item behind inserted) {kind : Option Kind} {rule : Rule}
    (hground : rule.grounded = true) (hrule : CarriesOver grammar item behind inserted rule front) :
    CarriesOver grammar item behind inserted (.node kind rule) front := by
  have hg := hfits.grounded
  have hnode : (Rule.node kind rule).grounded = true := hground
  rw [CarriesOver, read_eq hg hnode, read_eq hg hnode, readWith, readWith, readWith_read hg hground,
    andThen_singleton, andThen_singleton]
  refine carries_andThen (hrule.map_after (Nat.zero_add _)) (shortens_done [.finish])
    fun steps front' _ hfront' => carries_before hfront' (Nat.zero_add _)

/-- A rule is carried over if all rules are at smaller depths. -/
theorem carries_of_smaller (hfits : Fits grammar item behind inserted) {depth : Nat}
    (hself : ∀ rule front, rule.grounded = true → rule.admits grammar item inserted = true →
      awaitsItem front = true → 8 * front.length + rule.levels < depth →
        CarriesOver grammar item behind inserted rule front) :
    ∀ rule front, rule.grounded = true → rule.admits grammar item inserted = true →
      awaitsItem front = true → 8 * front.length + rule.levels ≤ depth →
        CarriesOver grammar item behind inserted rule front := by
  have hg := hfits.grounded
  intro rule
  induction rule with
  | nothing | fold kind | role role =>
    intro front _ _ hfront _
    rw [CarriesOver, read_eq hg rfl, read_eq hg rfl]
    exact carries_before hfront (Nat.zero_add _)
  | failure =>
    intro front _ _ _ _
    rw [CarriesOver, read_eq hg rfl, read_eq hg rfl]
    exact .nil
  | take look kind =>
    intro front _ _ hfront _
    exact carries_take hfits look kind hfront
  | group kind opening inside closing ih =>
    intro front hground hadmits hfront hdepth
    have hinside := (Bool.and_eq_true_iff.1 hadmits).2
    have hlevels := inside.levels_le
    refine carries_group hfits hground hadmits (fun front' hfront' hlt => ?_) hfront
    exact ih front' hground hinside hfront' (by omega)
  | items kind one closing ih =>
    intro front hground hadmits hfront hdepth
    have hone := (Bool.and_eq_true_iff.1 (Bool.and_eq_true_iff.1 hadmits).1).2
    have hlevels := one.levels_le
    refine carries_items hfits hground hadmits (ih front hground hone hfront hdepth)
      (fun front' hfront' hlt => hself _ front' hground hadmits hfront' ?_) hfront
    show 8 * front'.length + one.levels < depth
    omega
  | listed one ih =>
    intro front hground hadmits hfront hdepth
    have hone := (Bool.and_eq_true_iff.1 hadmits).2
    have hlevels := one.levels_le
    refine carries_listed hfits hground hadmits
      (ih front (Bool.and_eq_true_iff.1 hground).2 hone hfront hdepth)
      fun front' hfront' hlt => hself _ front' hground hadmits hfront' ?_
    show 8 * front'.length + one.levels < depth
    omega
  | members one ih =>
    intro front hground hadmits hfront hdepth
    have hone := (Bool.and_eq_true_iff.1 hadmits).2
    have hlevels := one.levels_le
    refine carries_members hfits hground hadmits
      (ih front (Bool.and_eq_true_iff.1 hground).2 hone hfront hdepth)
      (fun front' hfront' hlt => hself _ front' hground hadmits hfront' ?_) hfront
    show 8 * front'.length + one.levels < depth
    omega
  | both first second ih₁ ih₂ =>
    intro front hground hadmits hfront hdepth
    have hground := Bool.and_eq_true_iff.1 hground
    have hadmits := Bool.and_eq_true_iff.1 hadmits
    have hlevels := second.levels_le
    rw [Rule.levels] at hdepth
    have hfirst : 8 * front.length + first.levels ≤ depth := by split at hdepth <;> omega
    refine carries_both hfits hground (ih₁ front hground.1 hadmits.1 hfront hfirst)
      fun front' hfront' hle hlt => ih₂ front' hground.2 hadmits.2 hfront' ?_
    split at hdepth
    · next htakes =>
      have := hlt htakes
      omega
    · omega
  | choose test yes no ih₁ ih₂ =>
    intro front hground hadmits hfront hdepth
    have hground' := Bool.and_eq_true_iff.1 hground
    have hadmits := Bool.and_eq_true_iff.1 hadmits
    rw [Rule.levels] at hdepth
    rw [CarriesOver, read_eq hg hground, read_eq hg hground, readWith, readWith,
      holds_insert hfits.isItem hfits.structural hfront, readWith_read hg hground'.1,
      readWith_read hg hground'.2]
    split
    · exact ih₁ front hground'.1 hadmits.1 hfront (by omega)
    · exact ih₂ front hground'.2 hadmits.2 hfront (by omega)
  | either first second ih₁ ih₂ =>
    intro front hground hadmits hfront hdepth
    have hground' := Bool.and_eq_true_iff.1 hground
    have hadmits := Bool.and_eq_true_iff.1 hadmits
    rw [Rule.levels] at hdepth
    rw [CarriesOver, read_eq hg hground, read_eq hg hground, readWith, readWith,
      readWith_read hg hground'.1, readWith_read hg hground'.2]
    exact (ih₁ front hground'.1 hadmits.1 hfront (by omega)).append
      (ih₂ front hground'.2 hadmits.2 hfront (by omega))
  | many stop rule ih =>
    intro front hground hadmits hfront hdepth
    have hlevels := rule.levels_le
    refine carries_many hfits hground
      (ih front (Bool.and_eq_true_iff.1 hground).2 hadmits hfront hdepth)
      (fun front' hfront' hlt => hself _ front' hground hadmits hfront' ?_) hfront
    show 8 * front'.length + rule.levels < depth
    omega
  | node kind rule ih =>
    intro front hground hadmits hfront hdepth
    exact carries_node hfits hground (ih front hground hadmits hfront hdepth)
  | call symbol =>
    intro front _ _ hfront hdepth
    obtain ⟨-, hground, hrank⟩ := hg symbol
    rw [Rule.levels] at hdepth
    have hsymbol := hself (grammar symbol) front hground (hfits.admits symbol) hfront (by omega)
    rwa [CarriesOver, read_eq hg rfl, read_eq hg rfl]

/-- The readings of a rule with the item are those without it, carried over. -/
theorem carries_read (hfits : Fits grammar item behind inserted) {rule : Rule}
    (hground : rule.grounded = true) (hadmits : rule.admits grammar item inserted = true)
    (hfront : awaitsItem front = true) : CarriesOver grammar item behind inserted rule front := by
  have hdepth : ∀ depth rule front, rule.grounded = true →
      rule.admits grammar item inserted = true → awaitsItem front = true →
        8 * front.length + rule.levels < depth →
          CarriesOver grammar item behind inserted rule front := by
    intro depth
    induction depth with
    | zero => intro _ _ _ _ _ h; exact absurd h (Nat.not_lt_zero _)
    | succ depth ih =>
      intro rule front hground hadmits hfront hlt
      exact carries_of_smaller hfits ih rule front hground hadmits hfront (Nat.le_of_lt_succ hlt)
  exact hdepth _ rule front hground hadmits hfront (Nat.lt_succ_self _)

end

/-! ## The first reading of the whole -/

/-- The steps up to the one that takes the token with this number are the same however they are
found. -/
theorem append_cons_inj_of_taken {first first' more more' : List Step} {last last' : Step}
    (hlast : last.takes = true) (hlast' : last'.takes = true) (htaken : taken first = taken first')
    (h : first ++ last :: more = first' ++ last' :: more') :
    first = first' ∧ last = last' ∧ more = more' := by
  induction first generalizing first' with
  | nil =>
    cases first' with
    | nil => exact ⟨rfl, (List.cons.inj h).1, (List.cons.inj h).2⟩
    | cons step first' =>
      obtain rfl := (List.cons.inj h).1
      rw [taken, taken, List.countP_cons_of_pos hlast] at htaken
      cases htaken
  | cons step first ih =>
    cases first' with
    | nil =>
      obtain rfl := (List.cons.inj h).1
      rw [taken, taken, List.countP_cons_of_pos hlast'] at htaken
      cases htaken
    | cons step' first' =>
      obtain ⟨rfl, hrest⟩ := List.cons.inj h
      rw [taken, taken, List.countP_cons, List.countP_cons, Nat.add_right_cancel_iff] at htaken
      obtain ⟨rfl, rfl, rfl⟩ := ih htaken hrest
      exact ⟨rfl, rfl, rfl⟩

/-- If the first reading of the whole reads the list as an array, it is still the first one with the
steps of the item in it. -/
theorem find?_of_carries {item behind : List View} {inserted : List Step} {count : Nat}
    {readings readings' : List Reading} {first more : List Step} {rest : List View}
    (h : Carries item behind inserted count readings readings') (hcount : taken first + 1 = count)
    (hfind : readings.find? (fun reading => reading.2.isEmpty) =
      some (first ++ .bound .array :: more, rest)) :
    readings'.find? (fun reading => reading.2.isEmpty) =
      some (first ++ .bound .array :: (inserted ++ more), rest) := by
  induction h with
  | nil => cases hfind
  | @carried reading reading' readings readings' hreading _ ih =>
    cases hreading with
    | @before steps front hfront _ =>
      cases front with
      | nil => cases hfront
      | cons view front => exact ih hfind
    | @past first' steps more' last rest' htakes hcount' _ hinserted =>
      rw [List.find?_cons] at hfind ⊢
      dsimp only at hfind ⊢
      cases hempty : rest'.isEmpty with
      | false =>
        rw [hempty] at hfind
        exact ih hfind
      | true =>
        rw [hempty] at hfind
        obtain ⟨hsteps, hrest⟩ := Prod.mk.inj (Option.some.inj hfind)
        obtain ⟨rfl, rfl, rfl⟩ := append_cons_inj_of_taken htakes rfl (by omega) hsteps
        dsimp only
        rw [hinserted rfl, hrest]
  | @lost reading readings readings' hreading _ ih =>
    cases hreading with
    | @intro first' more' last rest' htakes hcount' _ hlast =>
      rw [List.find?_cons] at hfind
      dsimp only at hfind
      cases hempty : rest'.isEmpty with
      | false =>
        rw [hempty] at hfind
        exact ih hfind
      | true =>
        rw [hempty] at hfind
        obtain ⟨hsteps, -⟩ := Prod.mk.inj (Option.some.inj hfind)
        obtain ⟨-, rfl, -⟩ := append_cons_inj_of_taken htakes rfl (by omega) hsteps
        exact absurd rfl hlast

/-- A program in which an array has an item, in brackets of its own, is still one with another item in
front of it, and the same steps build it, but for those of the item. -/
theorem program?_insert {markup : Bool} {item behind front : List View} {inserted : List Step}
    (hfits : Fits (grammar markup) item behind inserted)
    (hadmits : Rule.programRule.admits (grammar markup) item inserted = true)
    (hfront : awaitsItem front = true) {first more : List Step}
    (hcount : taken first + 1 = front.length)
    (h : program? markup (front ++ behind) = some (first ++ .bound .array :: more)) :
    program? markup (front ++ (item ++ behind)) =
      some (first ++ .bound .array :: (inserted ++ more)) := by
  rw [program?] at h ⊢
  obtain ⟨reading, hfind, hsteps⟩ := Option.map_eq_some_iff.1 h
  have hreading : reading = (first ++ .bound .array :: more, reading.2) := Prod.ext hsteps rfl
  rw [hreading] at hfind
  have hcarries : CarriesOver (grammar markup) item behind inserted .programRule front :=
    carries_read hfits rfl hadmits hfront
  rw [find?_of_carries hcarries hcount hfind]
  rfl

end VerticalSlice.Syntax
