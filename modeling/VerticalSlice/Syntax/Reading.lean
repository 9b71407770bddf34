import VerticalSlice.Syntax.Grammar.Markup

/-!
# Reading views by rules

A reading of a row of views by a rule says which nodes the rule builds, as a list of steps, and
which views are left. A rule may have several readings; the better ones come first. What fits into
its surroundings is found out by these: a reading that does not go on is dropped.

The symbols of a rule are read by their own rules, one level deeper. Each level but a few takes at
least one view, so a depth in proportion to the number of views is never used up.
-/

namespace VerticalSlice.Syntax

/-! ## Where a rule looks -/

/-- The view with `count` others before it. -/
def viewAt : Nat → List View → View
  | _, [] => .finish
  | 0, view :: _ => view
  | count + 1, view :: rest => if view.beginsItem then .hidden else viewAt count rest

/-- The views behind the bracket that closes the one before them; `depth` more are open. -/
def behindGroup (depth : Nat) : List View → List View
  | [] => []
  | view :: rest =>
    if view.opens then behindGroup (depth + 1) rest
    else if view.closes then
      match depth with
      | 0 => rest
      | depth + 1 => behindGroup depth rest
    else behindGroup depth rest

/-- The view behind the brackets that open with the view that has `count` others before it. -/
def viewBehind : Nat → List View → View
  | _, [] => .finish
  | 0, view :: rest => if view.opens then (behindGroup 0 rest).headD .finish else .hidden
  | count + 1, view :: rest => if view.beginsItem then .hidden else viewBehind count rest

/-- The view with `count` others before it behind a bracket. -/
def viewInside (count : Nat) : List View → View
  | bracket :: view :: rest =>
    if bracket.opens && !view.isStructural then viewAt count (view :: rest) else .hidden
  | _ => .hidden

/-- Can the token stand in a type? The marks of a conditional type come only behind its bound. -/
def View.standsInType (bounded : Bool) (view : View) : Bool :=
  view.sort == .word || view.sort == .string || view.sort == .number || view.sort == .template ||
    ([".", ",", "|", "&", "=>", "-", "`"] : List Text).contains view.sign ||
    (bounded && ([":", "?"] : List Text).contains view.sign)

/-- The views behind the angle bracket that closes the one before them, if what stands between can
be types; `angles` more angle brackets and `brackets` more brackets are open. `bounded` says that
there has been a bound. -/
def behindAngles (angles brackets : Nat) (bounded : Bool) : List View → Option (List View)
  | [] => none
  | view :: rest =>
    if view.opens then behindAngles angles (brackets + 1) bounded rest
    else if view.closes then
      match brackets with
      | 0 => none
      | brackets + 1 => behindAngles angles brackets bounded rest
    else if 0 < brackets then behindAngles angles brackets bounded rest
    else if view.sign = ['<'] then behindAngles (angles + 1) 0 bounded rest
    else if view.sign = ['>'] then
      match angles with
      | 0 => some rest
      | angles + 1 => behindAngles angles 0 bounded rest
    else if view.standsInType bounded then
      behindAngles angles 0 (bounded || view.sign = "extends".toList) rest
    else none

/-- The view behind type arguments. -/
def viewBehindTypes : List View → View
  | [] => .hidden
  | _ :: rest =>
    match behindAngles 0 0 false rest with
    | some behind => behind.headD .finish
    | none => .hidden

/-- The view at a place. -/
def Place.view (place : Place) (views : List View) : View :=
  match place with
  | .next count => viewAt count views
  | .inside count => viewInside count views
  | .behind count => viewBehind count views
  | .behindTypes => viewBehindTypes views

/-- Does the test hold of the views to come? -/
def Test.holds (views : List View) : Test → Bool
  | see place look => look.fits (place.view views)
  | atEnd => views.isEmpty
  | not test => !test.holds views
  | and first second => first.holds views && second.holds views
  | or first second => first.holds views || second.holds views

/-! ## Steps -/

/-- One step of building nodes, from left to right. -/
inductive Step
  /-- The next token becomes a leaf of this kind. -/
  | leaf (kind : Kind)
  /-- The next token becomes a mark that bounds the parts of a node of this kind. -/
  | bound (kind : Kind)
  /-- A place begins. Its nodes will be in one node if there is a kind for it. -/
  | begin (kind : Option Kind)
  /-- The place that has begun last is finished. -/
  | finish
  /-- One node of this kind around all nodes of the place. -/
  | fold (kind : Kind)
  /-- The first node of the place gets the role. -/
  | role (role : Role)
deriving DecidableEq, Repr

/-- The steps of a reading, and the views that are left. -/
abbrev Reading := List Step × List View

/-- The readings of a row of views. -/
abbrev Reader := List View → List Reading

/-- The readings with what is read behind each of them. -/
def andThen (readings : List Reading) (reader : Reader) : List Reading :=
  readings.flatMap fun reading =>
    (reader reading.2).map fun later => (reading.1 ++ later.1, later.2)

/-- Takes the mark that is spelled like this, by this step. -/
def readMark (step : Step) (spelling : Text) : Reader
  | [] => []
  | view :: rest => if view.sign = spelling then [([step], rest)] else []

/-- The end of an item in a node of this kind. -/
def readComma (kind : Kind) (closing : Text) : Reader
  | [] => []
  | view :: rest =>
    if view.sign = closing then [([], view :: rest)]
    else readMark (.bound kind) [','] (view :: rest)

/-- The end of a member of a type. -/
def readMemberEnd : Reader
  | [] => [([], [])]
  | view :: rest =>
    if view.sign = [';'] || view.sign = [','] then [([.leaf .mark], rest)]
    else if view.sign = ['\x7d'] || view.afterBreak then [([], view :: rest)]
    else []

/-! ## Rules -/

/-- The readings of a rule. `self` reads the rules of symbols, and again those that are repeated. -/
def readWith (grammar : Grammar) (self : Rule → Reader) : Rule → Reader
  | .nothing, views => [([], views)]
  | .failure, _ => []
  | .take _ _, [] => []
  | .take look kind, view :: rest =>
    if look.fits view && !view.isStructural then [([.leaf kind], rest)] else []
  | .group kind opening inside closing, views =>
    andThen [([.begin (some kind)], views)] fun views =>
      andThen (andThen (readMark (.bound kind) opening views) (readWith grammar self inside))
        fun views => andThen (readMark (.bound kind) closing views) fun views =>
          [([.finish], views)]
  | .items kind item closing, views =>
    if (viewAt 0 views).sign = closing then [([], views)]
    else
      andThen (andThen (readWith grammar self item views) (readComma kind closing))
        (self (.items kind item closing))
  | .listed item, views =>
    andThen (readWith grammar self item views) fun views =>
      if (viewAt 0 views).isComma then
        andThen (readMark (.leaf .mark) [','] views) (self (.listed item))
      else [([], views)]
  | .members item, views =>
    if (viewAt 0 views).sign = ['\x7d'] then [([], views)]
    else andThen (andThen (readWith grammar self item views) readMemberEnd) (self (.members item))
  | .both first second, views =>
    andThen (readWith grammar self first views) (readWith grammar self second)
  | .choose test yes no, views =>
    if test.holds views then readWith grammar self yes views else readWith grammar self no views
  | .either first second, views =>
    readWith grammar self first views ++ readWith grammar self second views
  | .many stop rule, views =>
    if stop.holds views then [([], views)]
    else andThen (readWith grammar self rule views) (self (.many stop rule))
  | .node kind rule, views =>
    andThen (andThen [([.begin kind], views)] (readWith grammar self rule)) fun views =>
      [([.finish], views)]
  | .fold kind, views => [([.fold kind], views)]
  | .role role, views => [([.role role], views)]
  | .call symbol, views => self (grammar symbol) views

/-- The readings of a rule down to a depth of nesting. -/
def readUpTo (grammar : Grammar) : Nat → Rule → Reader
  | 0, _, _ => []
  | depth + 1, rule, views => readWith grammar (readUpTo grammar depth) rule views

/-- A depth that is never used up on as many views. -/
def depthFor (count : Nat) : Nat := 8 * (count + 1)

/-- The readings of a rule. -/
def read (grammar : Grammar) (rule : Rule) (views : List View) : List Reading :=
  readUpTo grammar (depthFor views.length) rule views

/-- The steps that build a program, if the views make up one. -/
def program? (markup : Bool) (views : List View) : Option (List Step) :=
  ((read (grammar markup) .programRule views).find? fun reading => reading.2.isEmpty).map (·.1)

end VerticalSlice.Syntax
