import Mathlib.Tactic.SplitIfs
import VerticalSlice.Proofs.Check.Unreadable
import VerticalSlice.Proofs.FeatureImports.Destination
import VerticalSlice.Proofs.FeatureRoutes.Composition
import VerticalSlice.Proofs.Syntax.Words

/-!
# Reports line by line

A report of violations is meant to have a line for each of them behind its header and an empty line. What a
violation says is put together from fixed words, numbers, names of files and folders, and pieces of source
texts. All of these stand on one line but the last ones: a colour can go on in the next line between its
parentheses, and a quoted literal behind a backslash. So the report has a line for each violation exactly if
no piece of a source text that it quotes has a line break in it (`Check.lines_report`). The names of exported
arrays never have one.
-/

namespace VerticalSlice

/-! ## Texts on one line -/

/-- Does the text stand on one line? -/
def Text.OneLine (text : Text) : Prop := '\n' ∉ text

instance (text : Text) : Decidable text.OneLine := inferInstanceAs (Decidable ('\n' ∉ text))

namespace Text

theorem oneLine_concat_iff {pieces : List Text} :
    (concat pieces).OneLine ↔ ∀ piece ∈ pieces, piece.OneLine := by
  rw [OneLine, concat, List.mem_flatten, not_exists]
  exact forall_congr' fun piece => not_and

theorem oneLine_concat_cons_iff {first : Text} {pieces : List Text} :
    (concat (first :: pieces)).OneLine ↔ first.OneLine ∧ (concat pieces).OneLine := by
  rw [oneLine_concat_iff, List.forall_mem_cons, oneLine_concat_iff]

theorem oneLine_concat_nil : (concat []).OneLine := List.not_mem_nil

theorem oneLine_ofNat (n : Nat) : (ofNat n).OneLine := fun hmem =>
  absurd (Nat.isDigit_of_mem_toDigits (by decide) (by decide) hmem) (by decide)

theorem oneLine_ofInt (n : Int) : (ofInt n).OneLine := by
  unfold ofInt
  split
  · rw [OneLine, List.mem_cons, not_or]
    exact ⟨by decide, oneLine_ofNat _⟩
  · exact oneLine_ofNat _

theorem oneLine_hexDigits (width n : Nat) : (hexDigits width n).OneLine := by
  rw [OneLine, hexDigits, List.mem_reverse, List.mem_map]
  rintro ⟨place, -, hdigit⟩
  exact Nat.digitChar_ne '\n' (by decide) hdigit

theorem oneLine_cons_iff {c : Char} {text : Text} : OneLine (c :: text) ↔ c ≠ '\n' ∧ text.OneLine := by
  rw [OneLine, List.mem_cons, not_or, ne_comm]
  rfl

theorem oneLine_quotedChar {quote : Char} (hquote : quote ≠ '\n') (c : Char) :
    (quotedChar quote c).OneLine := by
  unfold quotedChar
  split
  · next hescaped =>
    rw [Bool.or_eq_true, decide_eq_true_eq, decide_eq_true_eq] at hescaped
    refine oneLine_cons_iff.2 ⟨by decide, oneLine_cons_iff.2 ⟨?_, List.not_mem_nil⟩⟩
    rcases hescaped with rfl | rfl
    · exact hquote
    · decide
  · split
    · decide
    · next hbreak =>
      have hhex : ∀ letter width, letter ≠ '\n' → OneLine ('\\' :: letter :: hexDigits width c.toNat) :=
        fun letter width hletter => oneLine_cons_iff.2 ⟨by decide, oneLine_cons_iff.2
          ⟨hletter, oneLine_hexDigits width c.toNat⟩⟩
      split_ifs
      · decide
      · decide
      · exact oneLine_cons_iff.2 ⟨hbreak, List.not_mem_nil⟩
      · exact hhex 'x' 2 (by decide)
      · exact hhex 'u' 4 (by decide)
      · exact hhex 'U' 8 (by decide)

theorem oneLine_quoted (text : Text) : (quoted text).OneLine := by
  have hquote : quoteFor text ≠ '\n' := by
    unfold quoteFor
    split <;> decide
  rw [quoted]
  refine oneLine_cons_iff.2 ⟨hquote, fun hmem => ?_⟩
  rcases List.mem_append.1 hmem with hinside | hend
  · obtain ⟨c, -, hc⟩ := List.mem_flatMap.1 hinside
    exact oneLine_quotedChar hquote c hc
  · exact hquote (List.mem_singleton.1 hend).symm

theorem oneLine_joinWith {glue : Text} {pieces : List Text} (hglue : glue.OneLine)
    (h : ∀ piece ∈ pieces, piece.OneLine) : (joinWith glue pieces).OneLine := by
  induction pieces with
  | nil => exact List.not_mem_nil
  | cons piece more ih =>
    rw [List.forall_mem_cons] at h
    cases more with
    | nil => exact oneLine_concat_iff.2 (List.forall_mem_singleton.2 h.1)
    | cons next more =>
      have hjoin : joinWith glue (piece :: next :: more) =
          piece ++ (glue ++ joinWith glue (next :: more)) := rfl
      rw [hjoin]
      exact fun hmem => (List.mem_append.1 hmem).elim h.1 fun hrest =>
        (List.mem_append.1 hrest).elim hglue (ih h.2)

/-! ### Lines -/

variable {separator : Char}

theorem splitOn_ne_nil (text : Text) : splitOn separator text ≠ [] := by
  cases text with
  | nil => exact List.cons_ne_nil _ _
  | cons c rest =>
    rw [splitOn]
    split
    · exact List.cons_ne_nil _ _
    · split <;> exact List.cons_ne_nil _ _

/-- The pieces of two texts with a separator between them. -/
theorem splitOn_append_separator (first second : Text) :
    splitOn separator (first ++ separator :: second) =
      splitOn separator first ++ splitOn separator second := by
  induction first with
  | nil => exact if_pos rfl
  | cons c first ih =>
    rw [List.cons_append, splitOn, splitOn, ih]
    split
    · rfl
    · cases hsplit : splitOn separator first with
      | nil => exact absurd hsplit (splitOn_ne_nil first)
      | cons piece pieces => rfl

theorem splitOn_joinWith_flatMap {pieces : List Text} (hne : pieces ≠ []) :
    splitOn separator (joinWith [separator] pieces) = pieces.flatMap (splitOn separator) := by
  induction pieces with
  | nil => exact absurd rfl hne
  | cons piece more ih =>
    cases more with
    | nil =>
      rw [joinWith, List.intersperse_singleton, List.flatten_singleton, List.flatMap_singleton]
    | cons next more =>
      have hjoin : joinWith [separator] (piece :: next :: more) =
          piece ++ separator :: joinWith [separator] (next :: more) := rfl
      rw [hjoin, splitOn_append_separator, ih (List.cons_ne_nil _ _)]
      rfl

/-- There is one more piece than separators. -/
theorem length_splitOn (text : Text) : (splitOn separator text).length = text.count separator + 1 := by
  induction text with
  | nil => rfl
  | cons c rest ih =>
    rw [splitOn, List.count_cons]
    split
    · next hc => rw [List.length_cons, ih, hc, beq_self_eq_true, if_pos rfl]
    · next hc =>
      rw [beq_eq_false_iff_ne.2 hc, if_neg Bool.false_ne_true, Nat.add_zero, ← ih]
      cases hsplit : splitOn separator rest with
      | nil => exact absurd hsplit (splitOn_ne_nil rest)
      | cons piece pieces => rfl

theorem length_le_lines (texts : List Text) : texts.length ≤ (texts.flatMap (splitOn '\n')).length := by
  induction texts with
  | nil => exact Nat.le_refl 0
  | cons text rest ih =>
    rw [List.flatMap_cons, List.length_append, length_splitOn, List.length_cons]
    omega

/-- Texts have as many lines as there are texts exactly if each is on one line. -/
theorem length_lines_iff {texts : List Text} :
    (texts.flatMap (splitOn '\n')).length = texts.length ↔ ∀ text ∈ texts, text.OneLine := by
  induction texts with
  | nil => simp
  | cons text rest ih =>
    have hle := length_le_lines rest
    have hcount : text.count '\n' = 0 ↔ text.OneLine := List.count_eq_zero
    rw [List.flatMap_cons, List.length_append, length_splitOn, List.length_cons, List.forall_mem_cons,
      ← hcount, ← ih]
    omega

end Text

/-! ## Names and faults -/

/-- Does every name on the way stand on one line? -/
def Path.OneLine (path : Path) : Prop := ∀ name ∈ path.names, name.OneLine

instance (path : Path) : Decidable path.OneLine :=
  inferInstanceAs (Decidable (∀ name ∈ path.names, name.OneLine))

namespace FileTree

mutual

/-- Do the names of all files and folders stand on one line? -/
def namesOneLine : FileTree → Bool
  | .file _ => true
  | .folder entries => namesOneLineEach entries

def namesOneLineEach : List (Text × FileTree) → Bool
  | [] => true
  | (name, entry) :: rest => decide name.OneLine && namesOneLine entry && namesOneLineEach rest

end

theorem namesOneLineEach_iff {entries : List (Text × FileTree)} :
    namesOneLineEach entries = true ↔ ∀ pair ∈ entries, pair.1.OneLine ∧ pair.2.namesOneLine = true := by
  induction entries with
  | nil => exact iff_of_true rfl fun pair hpair => absurd hpair List.not_mem_nil
  | cons pair rest ih =>
    rw [namesOneLineEach, Bool.and_eq_true, Bool.and_eq_true, decide_eq_true_eq, ih, List.forall_mem_cons]

/-- All names on the way to an entry stand on one line. -/
theorem oneLine_of_get? {tree entry : FileTree} {names : List Text} (hnames : tree.namesOneLine = true)
    (h : tree.get? names = some entry) : ∀ name ∈ names, name.OneLine := by
  induction names generalizing tree with
  | nil => exact fun name hname => absurd hname List.not_mem_nil
  | cons first names ih =>
    rw [get?] at h
    obtain ⟨next, hnext, hrest⟩ := Option.bind_eq_some_iff.1 h
    cases tree with
    | file bytes => cases hnext
    | folder entries =>
      rw [namesOneLine, namesOneLineEach_iff] at hnames
      have hfirst := hnames _ (mem_of_lookup hnext)
      exact List.forall_mem_cons.2 ⟨hfirst.1, ih hfirst.2 hrest⟩

end FileTree

namespace Path

theorem oneLine_toText {path : Path} (h : path.OneLine) : path.toText.OneLine := by
  unfold toText
  split
  · decide
  · next anchor names _ =>
    refine fun hmem => (List.mem_append.1 hmem).elim ?_ (Text.oneLine_joinWith (by decide) h)
    cases anchor <;> decide

theorem OneLine.append {anchor : Anchor} {names more : List Text} (hnames : ∀ name ∈ names, name.OneLine)
    (hmore : ∀ name ∈ more, name.OneLine) : Path.OneLine ⟨anchor, names ++ more⟩ :=
  List.forall_mem_append.2 ⟨hnames, hmore⟩

theorem OneLine.child {folder : Path} (h : folder.OneLine) {name : Text} (hname : name.OneLine) :
    (folder.child name).OneLine :=
  OneLine.append h (List.forall_mem_singleton.2 hname)

theorem oneLine_ofText {text : Text} (h : text.OneLine) : (ofText text).OneLine := fun _ hname hmem =>
  h (Text.subset_of_mem_splitOn (List.mem_filter.1 hname).1 hmem)

theorem OneLine.join {base rest : Path} (hbase : base.OneLine) (hrest : rest.OneLine) :
    (base.join rest).OneLine := by
  unfold Path.join
  split
  · exact OneLine.append hbase hrest
  · exact hrest

theorem mem_of_mem_fold {absolute : Bool} {names : List Text} {name : Text} (h : name ∈ fold absolute names) :
    name ∈ names := by
  induction names using List.reverseRecOn with
  | nil => cases h
  | append_singleton names last ih =>
    rw [fold_concat] at h
    rcases step_cases absolute (fold absolute names) last with hstep | hstep
    · rw [hstep] at h
      exact (List.mem_append.1 h).elim (fun h => List.mem_append_left _ (ih h))
        (List.mem_append_right names)
    · rw [hstep] at h
      exact List.mem_append_left _ (ih (List.dropLast_subset _ h))

theorem OneLine.normalize {path : Path} (h : path.OneLine) : path.normalize.OneLine := fun _ hname =>
  h _ (mem_of_mem_fold (names_normalize path ▸ hname))

end Path

theorem Context.oneLine_relative (context : Context) {path : Path} (h : path.OneLine) :
    (context.relative path).OneLine := by
  unfold relative
  split
  · next names hnames =>
    obtain ⟨-, hpath⟩ := Path.namesBelow?_eq_some_iff.1 hnames
    refine Path.oneLine_toText fun name hname => h name ?_
    rw [hpath]
    exact List.mem_append_right _ hname
  · exact Path.oneLine_toText h

theorem Text.oneLine_hexByte (byte : UInt8) : (hexByte byte).OneLine :=
  oneLine_cons_iff.2 ⟨Nat.digitChar_ne _ (by decide),
    oneLine_cons_iff.2 ⟨Nat.digitChar_ne _ (by decide), List.not_mem_nil⟩⟩

/-- What went wrong when a file was read is told on one line. -/
theorem ReadFault.oneLine_message (fault : ReadFault) : fault.message.OneLine := by
  cases fault with
  | file fault =>
    have hpath : ∀ words : Text, words.OneLine →
        (Text.concat [words, ": ", Text.quoted fault.path.toText]).OneLine := fun words hwords => by
      simp only [Text.oneLine_concat_cons_iff]
      exact ⟨hwords, by decide, Text.oneLine_quoted _, Text.oneLine_concat_nil⟩
    show (FileFault.message fault).OneLine
    unfold FileFault.message
    dsimp only
    split
    · exact hpath _ (by decide)
    · exact hpath _ (by decide)
    · exact hpath _ (by decide)
    · exact hpath _ (by decide)
    · decide
  | encoding fault =>
    have hreason : fault.problem.reason.OneLine := by cases fault.problem <;> decide
    show (Text.Utf8Fault.message fault).OneLine
    unfold Text.Utf8Fault.message
    dsimp only
    simp only [Text.oneLine_concat_cons_iff]
    refine ⟨by decide, ?_, by decide, hreason, Text.oneLine_concat_nil⟩
    split
    · simp only [Text.oneLine_concat_cons_iff]
      exact ⟨by decide, Text.oneLine_hexByte _, by decide, Text.oneLine_ofNat _, Text.oneLine_concat_nil⟩
    · simp only [Text.oneLine_concat_cons_iff]
      exact ⟨by decide, Text.oneLine_ofNat _, by decide, Text.oneLine_ofNat _, Text.oneLine_concat_nil⟩

/-! ## Lines of a report -/

namespace Verdict

variable {verdict : Verdict}

/-- The lines of a report of violations are its header, an empty line and the lines of the violations. -/
theorem splitOn_toText (htitle : verdict.title.OneLine) (hne : verdict.violations ≠ []) :
    Text.splitOn '\n' verdict.toText = verdict.header :: [] ::
      verdict.violations.flatMap fun violation => Text.splitOn '\n' violation.toText := by
  have hlines : verdict.lines = verdict.header :: [] :: verdict.violations.map Violation.toText := by
    rw [lines, passed, List.isEmpty_eq_false_iff.2 hne]
    rfl
  have hheader : verdict.header.OneLine := by
    simp only [header, Text.oneLine_concat_cons_iff]
    exact ⟨htitle, by decide, Text.oneLine_ofNat _, by decide, Text.oneLine_concat_nil⟩
  rw [toText, hlines, Text.splitOn_joinWith_flatMap (List.cons_ne_nil _ _), List.flatMap_cons,
    List.flatMap_cons, Text.splitOn_of_notMem hheader, List.flatMap_map]
  rfl

/-- There is a line for each violation, besides the header and the empty line, exactly if all violations are
told on one line. -/
theorem length_splitOn_toText_iff (htitle : verdict.title.OneLine) (hne : verdict.violations ≠ []) :
    (Text.splitOn '\n' verdict.toText).length = verdict.violations.length + 2 ↔
      ∀ violation ∈ verdict.violations, violation.toText.OneLine := by
  rw [splitOn_toText htitle hne, List.length_cons, List.length_cons, Nat.add_left_inj, Nat.add_left_inj,
    ← List.flatMap_map, ← List.length_map Violation.toText, Text.length_lines_iff, List.forall_mem_map]

end Verdict

theorem Violation.dash_isPrefix_toText (violation : Violation) : ("- " : Text) <+: violation.toText := by
  unfold toText
  split <;> exact List.prefix_append _ _

theorem Violation.oneLine_toText_iff {violation : Violation}
    (hfile : ∀ file ∈ violation.file, file.OneLine) :
    violation.toText.OneLine ↔ violation.message.OneLine := by
  obtain ⟨file, message, line, fromFeature, toFeature⟩ := violation
  cases file with
  | none =>
    show (Text.concat ["- ", message]).OneLine ↔ _
    simp only [Text.oneLine_concat_cons_iff]
    exact ⟨fun h => h.2.1, fun h => ⟨by decide, h, Text.oneLine_concat_nil⟩⟩
  | some file =>
    have hplace : ∀ location : Text, location.OneLine →
        ((Text.concat ["- ", location, ": ", message]).OneLine ↔ message.OneLine) := fun location h => by
      simp only [Text.oneLine_concat_cons_iff]
      exact ⟨fun h => h.2.2.2.1, fun hmessage =>
        ⟨by decide, h, by decide, hmessage, Text.oneLine_concat_nil⟩⟩
    cases line with
    | none => exact hplace file (hfile file rfl)
    | some line =>
      refine hplace (Text.concat [file, ":", Text.ofInt line]) ?_
      simp only [Text.oneLine_concat_cons_iff]
      exact ⟨hfile file rfl, by decide, Text.oneLine_ofInt line, Text.oneLine_concat_nil⟩

/-! ## Quotes -/

/-- What a breach in the table of the application quotes of the source text. -/
def AppRoutes.Breach.quote : Breach → Text
  | .staticImport specifier => specifier
  | .noLoader path | .foreignLoader path => path
  | _ => []

/-- What is quoted of the table of the application. -/
def AppRoutes.quotes (context : Context) (tree : FileTree) : List Text :=
  match readTable context tree with
  | .ok (source, elements) => (findings source.root elements).map (·.breach.quote)
  | .error _ => []

/-- The imports of a file that are quoted. -/
def FeatureImports.quotesIn (context : Context) (tree : FileTree) (path : Path) : List Text :=
  match featureOf context.featuresFolder path, tree.readSource path with
  | some own, .ok source => (crossings context.featuresFolder path own source.root).map (·.specifier)
  | _, _ => []

/-- The colours of a file that are quoted. -/
def RawColors.quotesIn (context : Context) (tree : FileTree) (path : Path) : List Text :=
  match sightings tree path with
  | .ok found => (unapproved (approved context tree) found).map (·.1)
  | .error _ => []

/-- The pieces of source texts that a check quotes. -/
def Check.quotes (check : Check) (context : Context) (tree : FileTree) : List Text :=
  match check with
  | .layout | .featureRoutes => []
  | .appRoutes => AppRoutes.quotes context tree
  | .featureImports =>
    if tree.hasFolder context.featuresFolder then
      (FeatureImports.sourceFiles context tree).flatMap (FeatureImports.quotesIn context tree)
    else []
  | .rawColors =>
    match RawColors.tokenPlaces context with
    | .ok places => (RawColors.scannedFiles context tree places).flatMap (RawColors.quotesIn context tree)
    | .error _ => []

/-- The violations are told on one line each exactly if the quotes stand on one line. -/
def Quotes (violations : List Violation) (quotes : List Text) : Prop :=
  (∀ violation ∈ violations, violation.toText.OneLine) ↔ ∀ quote ∈ quotes, quote.OneLine

namespace Quotes

theorem nil {violations : List Violation} (h : ∀ violation ∈ violations, violation.toText.OneLine) :
    Quotes violations [] :=
  iff_of_true h nofun

theorem map {α : Type} {list : List α} {violation : α → Violation} {quote : α → Text}
    (h : ∀ a ∈ list, (violation a).toText.OneLine ↔ (quote a).OneLine) :
    Quotes (list.map violation) (list.map quote) := by
  rw [Quotes, List.forall_mem_map, List.forall_mem_map]
  exact forall₂_congr h

theorem flatMap {α : Type} {list : List α} {violations : α → List Violation} {quotes : α → List Text}
    (h : ∀ a ∈ list, Quotes (violations a) (quotes a)) :
    Quotes (list.flatMap violations) (list.flatMap quotes) := by
  rw [Quotes, List.forall_mem_flatMap, List.forall_mem_flatMap]
  exact forall₂_congr h

end Quotes

theorem Violation.oneLine_unreadable {file : Text} (hfile : file.OneLine) (fault : ReadFault) :
    (unreadable file fault).toText.OneLine := by
  have hplace : ∀ place ∈ (unreadable file fault).file, place.OneLine := by
    rintro place ⟨⟩
    exact hfile
  refine (oneLine_toText_iff hplace).2 ?_
  simp only [unreadable, Text.oneLine_concat_cons_iff]
  exact ⟨by decide, fault.oneLine_message, Text.oneLine_concat_nil⟩

section

open FileTree

variable {context : Context} {tree : FileTree}

theorem Context.oneLine_featuresFolder (h : context.appFolder.OneLine) : context.featuresFolder.OneLine :=
  h.child (by decide)

variable (hwf : tree.WellFormed) (hnames : tree.namesOneLine = true)

include hwf hnames

theorem oneLine_of_mem_folderNames {base : Path} {name : Text} (h : name ∈ tree.folderNames base) :
    name.OneLine := by
  cases hbase : tree.hasFolder base with
  | false =>
    rw [folderNames_eq_nil hbase] at h
    cases h
  | true =>
    obtain ⟨there, entries, hthere, hfolder⟩ := locate_of_hasFolder hbase
    rw [mem_folderNames_iff hwf hthere hfolder] at h
    obtain ⟨entry, hentry, -⟩ := (Option.any_eq_true _ _).1 h
    exact oneLine_of_get? hnames hentry name (by simp)

theorem oneLine_of_mem_collectFiles {base path : Path} {suffixes ignored : List Text} (hbase : base.OneLine)
    (h : path ∈ tree.collectFiles base suffixes ignored) : path.OneLine := by
  obtain ⟨found, names, hfound, hlists, rfl⟩ := (mem_collectFiles_iff hwf).1 h
  refine Path.OneLine.append hbase ?_
  unfold entry? at hfound
  split at hfound
  · next there _ =>
    obtain ⟨entry, hentry, -⟩ := (Option.any_eq_true _ _).1 hlists.2.1
    have hget : tree.get? (there ++ names) = some entry := by rw [get?_append, hfound]; exact hentry
    exact fun name hname => oneLine_of_get? hnames hget name (List.mem_append_right _ hname)
  · cases hfound

end

/-! ## The checks -/

section

variable {context : Context} {tree : FileTree}

theorem Structure.oneLine_inFile {breach : Breach} {path : Path} (hpath : path.OneLine)
    (h : breach.message.OneLine) : (breach.inFile (some (context.relative path))).toText.OneLine := by
  refine (Violation.oneLine_toText_iff ?_).2 h
  rintro file ⟨⟩
  exact context.oneLine_relative hpath

theorem Structure.oneLine_of_mem_missingFiles (happ : context.appFolder.OneLine) {feature : Text}
    (hfeature : feature.OneLine) : ∀ violation ∈ missingFiles context tree feature,
      violation.toText.OneLine := by
  intro violation h
  obtain ⟨name, hname, h⟩ := List.mem_filterMap.1 h
  have honeLine : name.OneLine := by
    obtain ⟨kind, hkind, rfl⟩ := List.mem_map.1 hname
    have hkinds : ∀ kind ∈ requiredKinds, kind.OneLine := by decide
    simp only [Text.oneLine_concat_cons_iff]
    exact ⟨hfeature, by decide, hkinds kind hkind, by decide, Text.oneLine_concat_nil⟩
  have hpath := ((context.oneLine_featuresFolder happ).child hfeature).child honeLine
  dsimp only at h
  split at h
  · cases h
  · rw [← Option.some.inj h]
    refine oneLine_inFile hpath ?_
    change (Text.concat _).OneLine
    simp only [Text.oneLine_concat_cons_iff]
    exact ⟨by decide, hfeature, by decide, context.oneLine_relative hpath, Text.oneLine_concat_nil⟩

theorem Structure.oneLine_of_mem_placementIn {path : Path} (hpath : path.OneLine) :
    ∀ violation ∈ placementIn context tree path, violation.toText.OneLine := by
  intro violation h
  unfold placementIn at h
  split at h
  · dsimp only at h
    split at h
    · rw [List.mem_singleton.1 h]
      exact Violation.oneLine_unreadable (context.oneLine_relative hpath) _
    · obtain ⟨breach, hbreach, rfl⟩ := List.mem_map.1 h
      refine oneLine_inFile hpath ?_
      rcases List.mem_append.1 hbreach with hbreach | hbreach
      all_goals
        split at hbreach
        · rw [List.mem_singleton.1 hbreach]
          decide
        · cases hbreach
  · cases h

theorem Structure.oneLine_of_mem_violations (hwf : tree.WellFormed) (hnames : tree.namesOneLine = true)
    (happ : context.appFolder.OneLine) : ∀ violation ∈ violations context tree,
      violation.toText.OneLine := by
  have hfeatures := context.oneLine_featuresFolder happ
  have halone : ∀ breach : Breach, breach.message.OneLine → (breach.inFile none).toText.OneLine :=
    fun breach h => (Violation.oneLine_toText_iff (fun _ hfile => by cases hfile)).2 h
  intro violation h
  unfold violations at h
  split at h
  · rw [List.mem_singleton.1 h]
    refine halone _ ?_
    change (Text.concat _).OneLine
    simp only [Text.oneLine_concat_cons_iff]
    exact ⟨by decide, context.oneLine_relative happ, Text.oneLine_concat_nil⟩
  · split at h
    · rw [List.mem_singleton.1 h]
      refine halone _ ?_
      change (Text.concat _).OneLine
      simp only [Text.oneLine_concat_cons_iff]
      exact ⟨by decide, context.oneLine_relative hfeatures, Text.oneLine_concat_nil⟩
    · rw [violationsWithin, List.mem_append, List.mem_append, List.mem_flatMap, List.mem_flatMap] at h
      rcases h with (h | ⟨feature, hfeature, h⟩) | ⟨path, hpath, h⟩
      · split at h
        · rw [List.mem_singleton.1 h]
          refine halone _ ?_
          change (Text.concat _).OneLine
          simp only [Text.oneLine_concat_cons_iff]
          exact ⟨by decide, context.oneLine_relative hfeatures, by decide, Text.oneLine_concat_nil⟩
        · cases h
      · exact oneLine_of_mem_missingFiles happ (oneLine_of_mem_folderNames hwf hnames hfeature) violation h
      · exact oneLine_of_mem_placementIn (oneLine_of_mem_collectFiles hwf hnames happ hpath) violation h

/-- The name of the table or file that a breach is about. -/
def FeatureRoutes.Breach.named : Breach → Text
  | .noArray => []
  | .empty name | .notAnObject name _ | .component name | .firstPath name | .noProviders name
  | .emptyProviders name | .firstLoader name | .foreignPage name | .missingFile name => name

theorem FeatureRoutes.Breach.oneLine_message {breach : Breach} (h : breach.named.OneLine) :
    breach.message.OneLine := by
  have htable : ∀ {before behind : Text}, before.OneLine → behind.OneLine →
      (Text.concat [before, breach.named, behind]).OneLine := fun hbefore hbehind =>
    Text.oneLine_concat_cons_iff.2 ⟨hbefore, Text.oneLine_concat_cons_iff.2 ⟨h,
      Text.oneLine_concat_cons_iff.2 ⟨hbehind, Text.oneLine_concat_nil⟩⟩⟩
  cases breach with
  | noArray => decide
  | notAnObject name index =>
    change (Text.concat _).OneLine
    simp only [Text.oneLine_concat_cons_iff]
    exact ⟨by decide, h, by decide, Text.oneLine_ofNat index, by decide, Text.oneLine_concat_nil⟩
  | missingFile name =>
    change (Text.concat _).OneLine
    simp only [Text.oneLine_concat_cons_iff]
    exact ⟨by decide, h, Text.oneLine_concat_nil⟩
  | empty | component | firstPath | noProviders | emptyProviders | firstLoader | foreignPage =>
    exact htable (by decide) (by decide)

theorem FeatureRoutes.named_of_mem_elementBreaches {table : Text} {index : Nat}
    {element : Syntax.Node} {breach : Breach} (h : breach ∈ elementBreaches table index element) :
    breach.named = table := by
  have hone : ∀ {other : Breach}, other.named = table → breach ∈ [other] → breach.named = table :=
    fun hother hmem => List.mem_singleton.1 hmem ▸ hother
  unfold elementBreaches at h
  split at h
  · exact hone rfl h
  · rcases List.mem_append.1 h with h | h
    · split at h
      · exact hone rfl h
      · cases h
    · split at h
      · rw [firstRouteBreaches, List.mem_append, List.mem_append] at h
        rcases h with (h | h) | h
        · split at h
          · cases h
          · exact hone rfl h
        · unfold providerBreaches at h
          split at h
          · exact hone rfl h
          · split at h
            · exact hone rfl h
            · cases h
        · split at h
          · cases h
          · exact hone rfl h
      · cases h

theorem FeatureRoutes.oneLine_of_mem_findings {root : Syntax.Node}
    (hroot : ∀ exported ∈ root.exportedArrays, exported.name.OneLine) :
    ∀ finding ∈ findings root, finding.breach.message.OneLine := by
  intro finding h
  refine Breach.oneLine_message ?_
  unfold findings at h
  split at h
  · rw [List.mem_singleton.1 h]
    exact List.not_mem_nil
  · obtain ⟨exported, hexported, h⟩ := List.mem_flatMap.1 h
    have hnamed : finding.breach.named = exported.name := by
      unfold tableFindings at h
      split at h
      · rw [List.mem_singleton.1 h]
        rfl
      · rcases List.mem_append.1 h with h | h
        · obtain ⟨index, element, hbreach⟩ := exists_of_mem_elementFindings h
          exact named_of_mem_elementBreaches hbreach
        · obtain ⟨object, -, rfl⟩ := List.mem_map.1 h
          rfl
    rw [hnamed]
    exact hroot exported hexported

theorem exists_ofText_of_readSource {path : Path} {source : Syntax.SyntaxTree}
    (h : tree.readSource path = .ok source) :
    ∃ text, source = Syntax.SyntaxTree.ofText text path.extension := by
  unfold FileTree.readSource at h
  split at h
  · cases h
  · exact ⟨_, (Except.ok.inj h).symm⟩

theorem FeatureRoutes.oneLine_of_mem_violationsOf (happ : context.appFolder.OneLine) {feature : Text}
    (hname : IsName feature) (hfeature : feature.OneLine) :
    ∀ violation ∈ violationsOf context tree feature, violation.toText.OneLine := by
  have hpath : (routesFile context feature).OneLine := by
    rw [(Feature.routesFile_of_isName context hname).1]
    refine ((context.oneLine_featuresFolder happ).child hfeature).child ?_
    exact fun hmem => (List.mem_append.1 hmem).elim hfeature (by decide)
  have hfile := context.oneLine_relative hpath
  have hfinding : ∀ finding : Finding, finding.breach.message.OneLine →
      (finding.inFile (context.relative (routesFile context feature))).toText.OneLine := by
    intro finding h
    refine (Violation.oneLine_toText_iff ?_).2 h
    rintro file ⟨⟩
    exact hfile
  intro violation h
  unfold violationsOf violationsIn at h
  dsimp only at h
  split at h
  · split at h
    · rw [List.mem_singleton.1 h]
      exact Violation.oneLine_unreadable hfile _
    · next source hsource =>
      obtain ⟨finding, hmem, rfl⟩ := List.mem_map.1 h
      obtain ⟨text, rfl⟩ := exists_ofText_of_readSource hsource
      exact hfinding finding (oneLine_of_mem_findings (fun exported => Syntax.inline_of_mem_exportedArrays)
        finding hmem)
  · rw [List.mem_singleton.1 h]
    exact hfinding _ (Breach.oneLine_message hfile)

theorem FeatureImports.oneLine_of_featureOf {features path : Path} {feature : Text} (hpath : path.OneLine)
    (h : featureOf features path = some feature) : feature.OneLine := by
  obtain ⟨-, rest, hnames⟩ := featureOf_eq_some_iff.1 h
  exact hpath feature (by rw [hnames]; simp)

/-- Whatever feature an import leads to, the crossing is told on one line if what is written is on one. -/
theorem FeatureImports.oneLine_message_iff {features file : Path} {own : Text} (hfile : file.OneLine)
    (hown : own.OneLine) {root : Syntax.Node} {crossing : Crossing}
    (h : crossing ∈ crossings features file own root) :
    crossing.message.OneLine ↔ crossing.specifier.OneLine := by
  obtain ⟨reference, -, hcrossing⟩ := List.mem_filterMap.1 h
  obtain ⟨target, htarget, hcrossing⟩ := Option.bind_eq_some_iff.1 hcrossing
  obtain ⟨other, hother, hcrossing⟩ := Option.bind_eq_some_iff.1 hcrossing
  split at hcrossing
  · cases hcrossing
  · obtain rfl := Option.some.inj hcrossing
    change (Text.concat _).OneLine ↔ reference.specifier.OneLine
    simp only [Text.oneLine_concat_cons_iff]
    refine ⟨fun hall => hall.2.1, fun hspecifier => ?_⟩
    have hleads : target.OneLine := by
      unfold resolve at htarget
      split at htarget
      · obtain rfl := Option.some.inj htarget
        refine Path.OneLine.normalize (Path.OneLine.join ?_ (Path.oneLine_ofText ?_))
        · exact fun name hname => hfile name (List.dropLast_subset _ hname)
        · exact hspecifier
      · cases htarget
    exact ⟨by decide, hspecifier, by decide, hown, by decide, oneLine_of_featureOf hleads hother, by decide,
      Text.oneLine_concat_nil⟩

theorem FeatureImports.quotes_violationsIn {path : Path} (hpath : path.OneLine) :
    Quotes (violationsIn context tree path) (quotesIn context tree path) := by
  have hfile := context.oneLine_relative hpath
  unfold violationsIn quotesIn
  cases hown : featureOf context.featuresFolder path with
  | none => exact .nil nofun
  | some own =>
    cases tree.readSource path with
    | error fault => exact .nil (List.forall_mem_singleton.2 (Violation.oneLine_unreadable hfile fault))
    | ok source =>
      refine .map fun crossing hcrossing => ?_
      rw [← oneLine_message_iff hpath (oneLine_of_featureOf hpath hown) hcrossing]
      refine Violation.oneLine_toText_iff ?_
      rintro file ⟨⟩
      exact hfile

theorem RawColors.quotes_violationsIn {path : Path} (hpath : path.OneLine) :
    Quotes (violationsIn context tree (approved context tree) path) (quotesIn context tree path) := by
  have hfile := context.oneLine_relative hpath
  unfold violationsIn quotesIn
  dsimp only
  cases sightings tree path with
  | error fault => exact .nil (List.forall_mem_singleton.2 (Violation.oneLine_unreadable hfile fault))
  | ok found =>
    refine .map fun sighting _ => ?_
    refine Iff.trans (Violation.oneLine_toText_iff ?_) ?_
    · rintro file ⟨⟩
      exact hfile
    · change (Text.concat _).OneLine ↔ _
      simp only [Text.oneLine_concat_cons_iff]
      exact ⟨fun h => h.2.1, fun h => ⟨by decide, h, by decide, Text.oneLine_concat_nil⟩⟩

theorem AppRoutes.oneLine_message_iff (breach : Breach) : breach.message.OneLine ↔ breach.quote.OneLine := by
  cases breach with
  | notAnObject | component | noPath | emptyPathWithoutRedirect | wildcardLoader =>
    exact iff_of_true (by decide) List.not_mem_nil
  | wildcardCount count =>
    refine iff_of_true ?_ List.not_mem_nil
    change (Text.concat _).OneLine
    simp only [Text.oneLine_concat_cons_iff]
    exact ⟨by decide, Text.oneLine_ofNat count, by decide, Text.oneLine_concat_nil⟩
  | staticImport text | noLoader text =>
    change (Text.concat _).OneLine ↔ text.OneLine
    simp only [Text.oneLine_concat_cons_iff]
    exact ⟨fun h => h.2.1, fun h => ⟨by decide, h, by decide, Text.oneLine_concat_nil⟩⟩
  | foreignLoader text =>
    change (Text.concat _).OneLine ↔ text.OneLine
    simp only [Text.oneLine_concat_cons_iff]
    exact ⟨fun h => h.2.1, fun h => ⟨by decide, h, by decide, by decide, Text.oneLine_concat_nil⟩⟩

theorem AppRoutes.quotes_findings (happ : context.appFolder.OneLine) (findings : List Finding) :
    Quotes (findings.map (·.inFile (context.relative context.appRoutes))) (findings.map (·.breach.quote)) := by
  have hfile : (context.relative context.appRoutes).OneLine :=
    context.oneLine_relative (happ.child (by decide))
  refine .map fun finding _ => ?_
  rw [← oneLine_message_iff]
  refine Violation.oneLine_toText_iff ?_
  rintro file ⟨⟩
  exact hfile

namespace Check

/-- The title of a verdict stands on one line, and so do its violations exactly if all that they quote does. -/
theorem oneLine_title_and_quotes {check : Check} {verdict : Verdict} (hwf : tree.WellFormed)
    (hnames : tree.namesOneLine = true) (happ : context.appFolder.OneLine) (h : check.run context tree = .ok verdict) :
    verdict.title.OneLine ∧ Quotes verdict.violations (check.quotes context tree) := by
  have hfeatures := context.oneLine_featuresFolder happ
  cases check with
  | layout =>
    obtain rfl := Except.ok.inj h
    exact ⟨(by decide : Text.OneLine "Structure"),
      .nil (Structure.oneLine_of_mem_violations hwf hnames happ)⟩
  | appRoutes =>
    unfold run AppRoutes.check at h
    unfold quotes AppRoutes.quotes
    dsimp only at h ⊢
    cases hread : AppRoutes.readTable context tree with
    | error fault =>
      rw [hread] at h
      cases h
    | ok table =>
      rw [hread] at h
      obtain rfl := Except.ok.inj h
      exact ⟨(by decide : Text.OneLine "App routes"), AppRoutes.quotes_findings happ _⟩
  | featureRoutes =>
    obtain rfl := Except.ok.inj h
    refine ⟨(by decide : Text.OneLine "Feature routes"), .nil fun violation hviolation => ?_⟩
    obtain ⟨feature, hfeature, hviolation⟩ := List.mem_flatMap.1 hviolation
    exact FeatureRoutes.oneLine_of_mem_violationsOf happ (isName_of_mem_folderNames hwf hfeature)
      (oneLine_of_mem_folderNames hwf hnames hfeature) violation hviolation
  | featureImports =>
    obtain rfl := Except.ok.inj h
    refine ⟨(by decide : Text.OneLine "Cross-feature import"), ?_⟩
    unfold quotes FeatureImports.check
    dsimp only
    split
    · exact .flatMap fun path hpath =>
        FeatureImports.quotes_violationsIn (oneLine_of_mem_collectFiles hwf hnames hfeatures hpath)
    · exact .nil fun violation hviolation => absurd hviolation List.not_mem_nil
  | rawColors =>
    unfold run RawColors.check at h
    unfold quotes
    dsimp only at h ⊢
    cases hplaces : RawColors.tokenPlaces context with
    | error fault =>
      rw [hplaces] at h
      cases h
    | ok places =>
      rw [hplaces] at h
      obtain rfl := Except.ok.inj h
      exact ⟨(by decide : Text.OneLine "Raw colors"), .flatMap fun path hpath =>
        RawColors.quotes_violationsIn (oneLine_of_mem_collectFiles hwf hnames happ (List.mem_filter.1 hpath).1)⟩

/-- A report of violations is its header, an empty line, and the lines of each violation in turn, the first
of which begins with a dash. It has one line for each violation exactly if nothing that the check quotes of a
source text goes on in the next line. -/
theorem lines_report {check : Check} {verdict : Verdict} (hwf : tree.WellFormed) (hnames : tree.namesOneLine = true)
    (happ : context.appFolder.OneLine) (h : check.run context tree = .ok verdict)
    (hne : verdict.violations ≠ []) :
    Text.splitOn '\n' verdict.toText = verdict.header :: [] ::
        verdict.violations.flatMap (fun violation => Text.splitOn '\n' violation.toText) ∧
      (∀ violation ∈ verdict.violations, ("- " : Text) <+: violation.toText) ∧
      ((Text.splitOn '\n' verdict.toText).length = verdict.violations.length + 2 ↔
        ∀ quote ∈ check.quotes context tree, quote.OneLine) := by
  obtain ⟨htitle, hquotes⟩ := oneLine_title_and_quotes hwf hnames happ h
  exact ⟨Verdict.splitOn_toText htitle hne, fun violation _ => violation.dash_isPrefix_toText,
    (Verdict.length_splitOn_toText_iff htitle hne).trans hquotes⟩

end Check

end

/-! ## A small workspace -/

/-- A workspace with one style sheet in its application. -/
def sheetTree (sheet : Text) : FileTree :=
  .folder [("src", .folder [("app", .folder [("a.css", .file (Text.Utf8.encode sheet))])])]

/-- The style sheet. -/
def sheetFile : Path := ⟨.root, ["src", "app", "a.css"]⟩

/-- The style sheet is all that is looked through there. -/
theorem scannedFiles_sheetTree (sheet : Text) {places : List Path}
    (h : RawColors.isAmong pageContext places sheetFile = false) :
    RawColors.scannedFiles pageContext (sheetTree sheet) places = [sheetFile] := by
  have happ : FileTree.entry? (sheetTree sheet) pageContext.appFolder =
      some (.folder [("a.css", .file (Text.Utf8.encode sheet))]) := rfl
  have hsuffix : FileTree.hasSuffix RawColors.scannedSuffixes "a.css" = true := by decide
  have hfiles : (sheetTree sheet).collectFiles pageContext.appFolder RawColors.scannedSuffixes
      pageContext.settings.ignoredFolders = [sheetFile] := by
    rw [FileTree.collectFiles, happ]
    simp only [FileTree.sorted, FileTree.sortedEach, List.mergeSort_singleton, FileTree.filesWithin,
      FileTree.filesAmong, hsuffix]
    rfl
  rw [RawColors.scannedFiles, hfiles, List.filter_cons_of_pos (by rw [h]; rfl), List.filter_nil]

theorem run_sheetTree {sheet : Text} {found : List Color.Sighting}
    (happroved : RawColors.approved pageContext (sheetTree sheet) = [])
    (hfound : (RawColors.sightings (sheetTree sheet) sheetFile).toOption = some found) :
    ∃ verdict, Check.rawColors.run pageContext (sheetTree sheet) = .ok verdict ∧
      verdict.title = "Raw colors" ∧
      verdict.violations = (RawColors.unapproved [] found).map (RawColors.inFile "src/app/a.css") ∧
      Check.rawColors.quotes pageContext (sheetTree sheet) =
        (RawColors.unapproved [] found).map (·.1) := by
  obtain ⟨places, hplaces, hamong⟩ : ∃ places, RawColors.tokenPlaces pageContext = .ok places ∧
      RawColors.isAmong pageContext places sheetFile = false := ⟨_, rfl, by decide +kernel⟩
  have hfile : pageContext.relative sheetFile = "src/app/a.css" := by decide
  rw [Check.run, RawColors.check, hplaces, Check.quotes, hplaces]
  refine ⟨_, rfl, rfl, ?_, ?_⟩
  · dsimp only
    rw [scannedFiles_sheetTree sheet hamong, List.flatMap_singleton, happroved, RawColors.violationsIn,
      toOption_eq_some hfound, hfile]
  · dsimp only
    rw [scannedFiles_sheetTree sheet hamong, List.flatMap_singleton, RawColors.quotesIn,
      toOption_eq_some hfound, happroved]

/-- A style sheet with a colour that ends in the line where it begins. -/
def plainSheet : Text := "a \x7b color: rgb(0,0,0); \x7d"

/-- A style sheet with a colour that ends in the next line. -/
def brokenSheet : Text := "a \x7b color: rgb(0,\n0,0); \x7d"

/-- A colour that ends in the line where it begins is told on one line. -/
theorem Check.lines_report_sheetTree : (sheetTree plainSheet).WellFormed ∧
    (sheetTree plainSheet).namesOneLine = true ∧ pageContext.appFolder.OneLine ∧
    ∃ verdict, Check.rawColors.run pageContext (sheetTree plainSheet) = .ok verdict ∧
      verdict.violations.length = 1 ∧ (Text.splitOn '\n' verdict.toText).length = 3 := by
  have hwf : (sheetTree plainSheet).WellFormed := by decide +kernel
  have hnames : (sheetTree plainSheet).namesOneLine = true := by decide +kernel
  have happ : pageContext.appFolder.OneLine := by decide
  have hfound : (RawColors.sightings (sheetTree plainSheet) sheetFile).toOption =
      some [(("rgb(0,0,0)" : Text), 1)] := by decide +kernel
  obtain ⟨verdict, hverdict, -, hviolations, hquotes⟩ := run_sheetTree (by decide +kernel) hfound
  have hlength : verdict.violations.length = 1 := by rw [hviolations]; decide +kernel
  have hlines := (Check.lines_report hwf hnames happ hverdict
    (List.ne_nil_of_length_pos (by omega))).2.2
  rw [hlength] at hlines
  exact ⟨hwf, hnames, happ, verdict, hverdict, hlength, hlines.2 (by rw [hquotes]; decide +kernel)⟩

/-- A colour that ends in the next line takes two lines of the report. -/
theorem Check.report_breaks_line : ∃ verdict, (sheetTree brokenSheet).WellFormed ∧
    (sheetTree brokenSheet).namesOneLine = true ∧ pageContext.appFolder.OneLine ∧
    Check.rawColors.run pageContext (sheetTree brokenSheet) = .ok verdict ∧
    verdict.violations.length = 1 ∧ (Text.splitOn '\n' verdict.toText).length = 4 ∧
    ("0,0) is not allowed; use a design token instead." : Text) ∈ Text.splitOn '\n' verdict.toText := by
  have hfound : (RawColors.sightings (sheetTree brokenSheet) sheetFile).toOption =
      some [(("rgb(0,\n0,0)" : Text), 1)] := by decide +kernel
  obtain ⟨verdict, hverdict, htitle, hviolations, -⟩ := run_sheetTree (by decide +kernel) hfound
  have hlength : verdict.violations.length = 1 := by rw [hviolations]; decide +kernel
  have hlines := Verdict.splitOn_toText (by rw [htitle]; decide) (List.ne_nil_of_length_pos (by omega))
  rw [Verdict.header, htitle, hviolations] at hlines
  refine ⟨verdict, by decide +kernel, by decide +kernel, by decide, hverdict, hlength, ?_, ?_⟩
  · rw [hlines]
    decide +kernel
  · rw [hlines]
    decide +kernel

end VerticalSlice
