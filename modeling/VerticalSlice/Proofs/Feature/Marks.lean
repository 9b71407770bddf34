import VerticalSlice.Proofs.Feature.Holes
import VerticalSlice.Proofs.Text.Occurrence

/-!
# How a table names its routes

A table has a route if it holds the mark of the route, `path: '…'`, anywhere in its text. An entry
holds the mark of its own route and no other (`routeMark_infix_routeEntry_iff`), and no mark reaches
from an entry into the text around it. So where no mark is cut in two when an entry goes in, the table
has the routes it had before and the new one (`routeMark_infix_insert_iff`).
-/

namespace VerticalSlice.Feature

variable {name : FeatureName} {route other before after : Text}

/-! ## Characters -/

theorem notMem_of_isRouteChar (hroute : ∀ c ∈ route, isRouteChar c = true) {d : Char}
    (hd : isRouteChar d = false) : d ∉ route := by
  intro hmem
  rw [hroute d hmem] at hd
  cases hd

theorem notMem_kebab (hname : name.IsSpelling) {d : Char} (hd : FeatureName.isKebabChar d = false) :
    d ∉ name.kebab := by
  obtain ⟨c, rest, hkebab, -, hall⟩ := hname.kebab
  intro hmem
  rw [hall d (hkebab ▸ hmem)] at hd
  cases hd

theorem notMem_const (hname : name.IsSpelling) {d : Char} (hd : FeatureName.isConstChar d = false) :
    d ∉ name.const := by
  obtain ⟨c, rest, hconst, -, hall⟩ := hname.const
  intro hmem
  rw [hall d (hconst ▸ hmem)] at hd
  cases hd

theorem notMem_routeMark (hroute : ∀ c ∈ route, isRouteChar c = true) {d : Char}
    (hd : isRouteChar d = false) (hfixed : d ∉ ("path: '" : Text)) : d ∉ routeMark route := by
  have hquote : d ∉ ("'" : Text) := fun h => hfixed (List.mem_append_right "path: ".toList h)
  simp only [routeMark, Text.concat, List.flatten_cons, List.flatten_nil, List.mem_append,
    List.not_mem_nil, or_false, not_or]
  exact ⟨hfixed, notMem_of_isRouteChar hroute hd, hquote⟩

/-! ## A quote behind a blank

In an entry only the path begins with a quote behind a blank, and so does the path in a mark. -/

/-- No quote stands behind a blank in the text, nor does one come to if the text is put in front. -/
def IsUnquoted (text : Text) : Prop := ¬[' ', '\''] <:+: text ∧ text.getLast? ≠ some ' '

theorem isUnquoted_of_notMem {text : Text} (h : ' ' ∉ text) : IsUnquoted text :=
  ⟨fun hfound => h (hfound.subset (List.mem_cons_self ..)),
    fun hlast => h (List.mem_of_getLast? hlast)⟩

theorem IsUnquoted.append {first second : Text} (hfirst : IsUnquoted first)
    (hsecond : IsUnquoted second) : IsUnquoted (first ++ second) := by
  constructor
  · rw [Text.infix_append_iff]
    rintro (h | h | ⟨left, right, h, hleft, hright, ⟨front, rfl⟩, -⟩)
    · exact hfirst.1 h
    · exact hsecond.1 h
    · obtain ⟨c, left, rfl⟩ := List.exists_cons_of_ne_nil hleft
      obtain ⟨d, right, rfl⟩ := List.exists_cons_of_ne_nil hright
      have hlength := congrArg List.length h
      simp only [List.length_cons, List.length_nil, List.length_append] at hlength
      obtain rfl : left = [] := List.length_eq_zero_iff.1 (by omega)
      refine hfirst.2 ?_
      rw [List.getLast?_concat, (List.cons.inj h).1]
  · rw [List.getLast?_append]
    cases hlast : second.getLast? with
    | none => exact hfirst.2
    | some c =>
      rw [Option.some_or, ← hlast]
      exact hsecond.2

theorem isUnquoted_fill {values : Hole → Text} {pieces : List Piece}
    (h : ∀ piece ∈ pieces, IsUnquoted (piece.fill values)) : IsUnquoted (fill values pieces) := by
  induction pieces with
  | nil => exact isUnquoted_of_notMem List.not_mem_nil
  | cons piece rest ih =>
    rw [fill_cons]
    exact (h piece (List.mem_cons_self ..)).append
      (ih fun other hother => h other (List.mem_cons_of_mem _ hother))

/-! ## Entries -/

/-- The pieces of an entry behind the quote that ends the path of the route. -/
def restPieces : List Piece := (",\n" : Piece) :: entryPieces.drop 4

theorem routeMark_eq (route : Text) :
    routeMark route = "path: ".toList ++ '\'' :: (route ++ ['\'']) := rfl

theorem routeEntry_eq (route : Text) (name : FeatureName) :
    routeEntry route name = "  \x7b\n    path: ".toList ++
      '\'' :: (route ++ '\'' :: fill (holeValues name route) restPieces) := rfl

/-- A character that is in no spelling of a name is behind the path only where it is in the fixed texts. -/
theorem notMem_restPieces (hname : name.IsSpelling) {d : Char} (hkebab : FeatureName.isKebabChar d = false)
    (hconst : FeatureName.isConstChar d = false) (hfixed : ∀ piece ∈ restPieces, d ∉ piece.fill fun _ => [])
    (route : Text) : d ∉ fill (holeValues name route) restPieces := by
  rw [fill, List.mem_flatMap]
  rintro ⟨piece, hpiece, hmem⟩
  cases piece with
  | fixed text => exact hfixed _ hpiece hmem
  | hole kind =>
    cases kind with
    | kebab => exact notMem_kebab hname hkebab hmem
    | const => exact notMem_const hname hconst hmem
    | pascal => exact absurd hpiece (by decide)
    | route => exact absurd hpiece (by decide)

theorem isUnquoted_rest (hname : name.IsSpelling) (route : Text) :
    IsUnquoted ('\'' :: fill (holeValues name route) restPieces) := by
  have hfixed : ∀ {text : Text}, (!Text.occursIn [' ', '\''] text && text.getLast? != some ' ') = true →
      IsUnquoted text := by
    intro text h
    rw [Bool.and_eq_true, Bool.not_eq_true', bne_iff_ne, ← Bool.not_eq_true,
      Text.occursIn_iff_infix] at h
    exact h
  have hpieces : ∀ piece ∈ restPieces, (!Text.occursIn [' ', '\''] (piece.fill fun _ => []) &&
      (piece.fill fun _ => []).getLast? != some ' ') = true := by decide
  refine IsUnquoted.append (hfixed (by decide) : IsUnquoted ['\'']) (isUnquoted_fill fun piece hpiece => ?_)
  cases piece with
  | fixed text => exact hfixed (hpieces _ hpiece)
  | hole kind =>
    cases kind with
    | kebab => exact isUnquoted_of_notMem (notMem_kebab hname (by decide))
    | const => exact isUnquoted_of_notMem (notMem_const hname (by decide))
    | pascal => exact absurd hpiece (by decide)
    | route => exact absurd hpiece (by decide)

/-- An entry holds the mark of its own route and of no other. -/
theorem routeMark_infix_routeEntry_iff (hname : name.IsSpelling)
    (hroute : ∀ c ∈ route, isRouteChar c = true) (hother : ∀ c ∈ other, isRouteChar c = true) :
    routeMark other <:+: routeEntry route name ↔ other = route := by
  have hquote : ∀ {route : Text}, (∀ c ∈ route, isRouteChar c = true) → '\'' ∉ route := fun h =>
    notMem_of_isRouteChar h (by decide)
  constructor
  · rintro ⟨left, right, h⟩
    rw [routeMark_eq, routeEntry_eq] at h
    have hsplit : (left ++ "path: ".toList) ++ '\'' :: (other ++ '\'' :: right) =
        "  \x7b\n    path: ".toList ++
          '\'' :: (route ++ '\'' :: fill (holeValues name route) restPieces) := by
      simpa only [List.append_assoc, List.cons_append, List.nil_append] using h
    by_cases hleft : '\'' ∈ left
    · -- the path of the mark would begin behind the one quote that has a blank in front
      exfalso
      obtain ⟨first, second, rfl, hfirst⟩ := List.eq_append_cons_of_mem hleft
      rw [List.append_assoc, List.append_assoc, List.cons_append] at hsplit
      have hbehind := (Text.split_unique hfirst (by decide) hsplit).2
      refine ((isUnquoted_of_notMem (notMem_of_isRouteChar hroute (by decide))).append
        (isUnquoted_rest hname route)).1 ⟨second ++ "path:".toList, other ++ '\'' :: right, ?_⟩
      rw [← hbehind]
      simp
    · have hfront : '\'' ∉ left ++ "path: ".toList := by
        rw [List.mem_append, not_or]
        exact ⟨hleft, by decide⟩
      have hbehind := (Text.split_unique hfront (by decide) hsplit).2
      exact (Text.split_unique (hquote hother) (hquote hroute) hbehind).1
  · rintro rfl
    refine ⟨"  \x7b\n    ".toList, fill (holeValues name other) restPieces, ?_⟩
    rw [routeMark_eq, routeEntry_eq]
    simp

/-! ## Entries in a table -/

/-- No mark is cut in two between the texts: a line ends, or what follows opens an object or closes an
array. -/
def IsSeam (before after : Text) : Prop :=
  before = [] ∨ before.getLast? = some '\n' ∨ after.head? = some '\x7b' ∨ after.head? = some ']'

theorem IsSeam.not_across (h : IsSeam before after) (hroute : ∀ c ∈ route, isRouteChar c = true) :
    ¬∃ first second, routeMark route = first ++ second ∧ first ≠ [] ∧ second ≠ [] ∧
      first <:+ before ∧ second <+: after := by
  rintro ⟨first, second, heq, hfirst, hsecond, hsuffix, hprefix⟩
  have hmark : ∀ {d : Char}, isRouteChar d = false → d ∉ ("path: '" : Text) →
      d ∉ first ∧ d ∉ second := by
    intro d hd hfixed
    rw [← not_or, ← List.mem_append, ← heq]
    exact notMem_routeMark hroute hd hfixed
  rcases h with rfl | hlast | hhead | hhead
  · exact hfirst (List.suffix_nil.1 hsuffix)
  · exact (hmark (by decide) (by decide)).1 (Text.mem_of_suffix hsuffix hfirst hlast)
  · exact (hmark (by decide) (by decide)).2 (Text.mem_of_prefix hprefix hsecond hhead)
  · exact (hmark (by decide) (by decide)).2 (Text.mem_of_prefix hprefix hsecond hhead)

/-- A table with a new entry has the routes it had before and the one of the entry. -/
theorem routeMark_infix_insert_iff (h : IsSeam before after) (hname : name.IsSpelling)
    (hroute : ∀ c ∈ route, isRouteChar c = true) (hother : ∀ c ∈ other, isRouteChar c = true) :
    routeMark other <:+: before ++ (routeEntry route name ++ after) ↔
      routeMark other <:+: before ++ after ∨ other = route := by
  have hblank : ' ' ∉ other := notMem_of_isRouteChar hother (by decide)
  constructor
  · rw [Text.infix_append_iff, Text.infix_append_iff, routeMark_infix_routeEntry_iff hname hroute hother]
    rintro (hin | (hin | hin | ⟨first, second, heq, hfirst, -, hsuffix, -⟩) |
      ⟨first, second, heq, -, hsecond, -, hprefix⟩)
    · exact .inl (hin.trans (List.prefix_append _ _).isInfix)
    · exact .inr hin
    · exact .inl (hin.trans (List.suffix_append _ _).isInfix)
    · -- an entry ends its last line
      have hlast : (routeEntry route name).getLast? = some '\n' := by
        have hpieces : entryPieces = entryPieces.dropLast ++ [("  \x7d,\n" : Piece)] := rfl
        rw [routeEntry, hpieces, fill_append, List.getLast?_append]
        rfl
      have hmem : '\n' ∈ routeMark other := by
        rw [heq]
        exact List.mem_append_left _ (Text.mem_of_suffix hsuffix hfirst hlast)
      exact absurd hmem (notMem_routeMark hother (by decide) (by decide))
    · -- an entry begins with two blanks, and a mark has only one and goes on behind it
      obtain ⟨tail, htail⟩ : ∃ tail, routeEntry route name = ' ' :: ' ' :: tail := ⟨_, rfl⟩
      obtain ⟨more, hmore⟩ := hprefix
      rw [htail, List.cons_append, List.cons_append] at hmore
      obtain ⟨c, second, rfl⟩ := List.exists_cons_of_ne_nil hsecond
      obtain ⟨hc, hmore⟩ := List.cons.inj hmore
      rw [hc, routeMark_eq] at heq
      cases second with
      | nil =>
        have hlast := congrArg List.getLast? heq
        rw [List.getLast?_concat, List.getLast?_append, ← List.cons_append, List.getLast?_concat] at hlast
        cases hlast
      | cons d second =>
        have hcount := congrArg (List.count ' ') heq
        rw [(List.cons.inj hmore).1] at hcount
        simp [List.count_eq_zero.2 hblank] at hcount
        omega
  · rintro (hin | rfl)
    · rw [Text.infix_append_iff] at hin
      rcases hin with hin | hin | hacross
      · exact hin.trans (List.prefix_append _ _).isInfix
      · exact hin.trans ((List.suffix_append _ _).trans (List.suffix_append _ _)).isInfix
      · exact absurd hacross (h.not_across hother)
    · have hentry := (routeMark_infix_routeEntry_iff hname hother hother).2 rfl
      exact hentry.trans ((List.prefix_append _ _).isInfix.trans (List.suffix_append _ _).isInfix)

end VerticalSlice.Feature
