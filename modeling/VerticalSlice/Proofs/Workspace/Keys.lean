import VerticalSlice.Proofs.Text.Utf8
import VerticalSlice.Proofs.Tree.Reading
import VerticalSlice.Workspace.Settings

/-!
# Settings, key by key

A mapping may give a value under each key, and the value of one key says nothing about another setting.
The application is the text under its key, and there is none if something else is there or nothing
(`load_keys_exact`). A list of texts is taken as it is, but for one: the empty list. It is asked for in
the same breath whether the value is of the right kind and whether there is something in it, so that a list
with nothing in it, which is a list of texts as well, has no effect, and the setting keeps its default
(`ignoredFolders_ne_of_emptied`).
-/

namespace VerticalSlice

namespace Yaml.Value

variable {pairs : List (Value × Value)} {key : Text} {value : Value} {texts : List Text}

/-- The value stands under the key, in the last pair of several with it. -/
def Gives (pairs : List (Value × Value)) (key : Text) (value : Value) : Prop :=
  ∃ before after, pairs = before ++ (.text key, value) :: after ∧ ∀ pair ∈ after, pair.1 ≠ .text key

/-- The list of the texts. -/
def ofTexts (texts : List Text) : Value := .list (texts.map .text)

/-- Is this the key of the pair? -/
def hasKey (key : Text) (pair : Value × Value) : Bool :=
  match pair.1 with
  | .text other => other = key
  | _ => false

theorem hasKey_iff {pair : Value × Value} : hasKey key pair = true ↔ pair.1 = .text key := by
  obtain ⟨first, second⟩ := pair
  cases first <;> simp [hasKey]

theorem member?_eq_some_iff : member? key (.mapping pairs) = some value ↔ Gives pairs key value := by
  have hmember : member? key (.mapping pairs) = (pairs.reverse.find? (hasKey key)).map (·.2) := rfl
  rw [hmember, Option.map_eq_some_iff]
  constructor
  · rintro ⟨⟨first, found⟩, hfound, rfl⟩
    obtain ⟨hfirst, later, earlier, hsplit, hlater⟩ := List.find?_eq_some_iff_append.1 hfound
    obtain rfl : first = .text key := hasKey_iff.1 hfirst
    refine ⟨earlier.reverse, later.reverse, ?_, fun pair hpair heq => ?_⟩
    · rw [← List.reverse_reverse pairs, hsplit, List.reverse_append, List.reverse_cons, List.append_assoc]
      rfl
    · have hnot := hlater pair (List.mem_reverse.1 hpair)
      rw [hasKey_iff.2 heq] at hnot
      cases hnot
  · rintro ⟨before, after, rfl, hafter⟩
    refine ⟨(.text key, value), List.find?_eq_some_iff_append.2
      ⟨hasKey_iff.2 rfl, after.reverse, before.reverse, ?_, fun pair hpair => ?_⟩, rfl⟩
    · rw [List.reverse_append, List.reverse_cons, List.append_assoc]
      rfl
    · rw [Bool.not_eq_true', ← Bool.not_eq_true, hasKey_iff]
      exact hafter pair (List.mem_reverse.1 hpair)

/-- The value is the text, if it is one. -/
def text? : Value → Option Text
  | .text found => some found
  | _ => none

theorem text?_eq_some_iff {text : Text} : value.text? = some text ↔ value = .text text := by
  cases value <;> simp [text?]

theorem texts?_eq_some_iff : value.texts? = some texts ↔ value = ofTexts texts := by
  have hitems : ∀ (items : List Value) (texts : List Text),
      items.mapM text? = some texts ↔ items = texts.map .text := by
    intro items
    induction items with
    | nil => intro texts; simp [eq_comm]
    | cons item rest ih =>
      intro texts
      rw [List.mapM_cons]
      cases texts <;> simp [Option.bind_eq_some_iff, text?_eq_some_iff, ih]
  cases value with
  | list items =>
    have htexts : texts? (.list items) = items.mapM text? := rfl
    rw [htexts, hitems, ofTexts, list.injEq]
  | _ => simp [texts?, ofTexts]

end Yaml.Value

namespace Settings

open Yaml.Value

variable {pairs : List (Yaml.Value × Yaml.Value)} {key : Text} {value : Yaml.Value} {default texts : List Text}

/-! ## Lists of texts -/

/-- A list of texts that is given under the key is taken, unless it is empty; and if none but the empty one is
given, there is the default. -/
structure TakesTexts (pairs : List (Yaml.Value × Yaml.Value)) (key : Text) (default taken : List Text) : Prop where
  eq_iff : ∀ texts, Gives pairs key (ofTexts texts) → (taken = texts ↔ texts ≠ [])
  eq_default : (∀ texts, Gives pairs key (ofTexts texts) → texts = []) → taken = default

theorem textsOr_ofTexts (hne : texts ≠ []) : textsOr default (some (ofTexts texts)) = texts := by
  obtain ⟨first, rest, rfl⟩ := List.exists_cons_of_ne_nil hne
  rw [textsOr, Option.bind_some, texts?_eq_some_iff.2 rfl]

theorem textsOr_eq_default {given : Option Yaml.Value} (h : ∀ texts, given = some (ofTexts texts) → texts = []) :
    textsOr default given = default := by
  unfold textsOr
  split
  · next first rest hbind =>
    obtain ⟨value, hvalue, htexts⟩ := Option.bind_eq_some_iff.1 hbind
    cases h _ (hvalue.trans (congrArg some (texts?_eq_some_iff.1 htexts)))
  · rfl

theorem takesTexts_textsOr (hdefault : default ≠ []) :
    TakesTexts pairs key default (textsOr default (member? key (.mapping pairs))) where
  eq_iff texts hgives := by
    rw [← member?_eq_some_iff] at hgives
    rw [hgives]
    refine ⟨?_, textsOr_ofTexts⟩
    rintro htaken rfl
    have hempty : textsOr default (some (ofTexts [])) = default := rfl
    exact hdefault (hempty ▸ htaken)
  eq_default hnone := textsOr_eq_default fun texts hgives => hnone texts (member?_eq_some_iff.1 hgives)

/-! ## The three settings -/

theorem project_ofValue_iff {project : Text} :
    (ofValue (.mapping pairs)).project = some project ↔ Gives pairs "app_project".toList (.text project) := by
  rw [← member?_eq_some_iff, ofValue]
  dsimp only
  split
  · next found hfound => rw [hfound, Option.some.injEq, Option.some.injEq, Yaml.Value.text.injEq]
  · next hnone => exact iff_of_false nofun (hnone project)

variable {tree : FileTree} {root : Path} {raw : Text}

theorem load_of_read (hread : tree.read (root.join path) = .ok (Text.Utf8.encode raw))
    (hvalue : Yaml.Value.ofText (Text.normalizeNewlines raw) = .ok value) :
    load tree root = .ok (ofValue value, if ignoresProject value then [.projectIgnored] else []) := by
  rw [load, FileTree.exists_read_iff.1 ⟨_, hread⟩, if_pos rfl, hread]
  show ofBytes (Text.Utf8.encode raw) = _
  rw [ofBytes, Text.ofBytes_encode_eq]
  dsimp only
  rw [hvalue]

/-- **Each setting depends on the value under its own key and on no other.** The application is the text that
is given; if there is no text there is no application. The folders that are passed over and the style sheets
with the colours are the lists of texts that are given, and else the defaults; but the empty list, though
it is a list of texts, leaves the default as well. -/
theorem load_keys_exact (hread : tree.read (root.join path) = .ok (Text.Utf8.encode raw))
    (hvalue : Yaml.Value.ofText (Text.normalizeNewlines raw) = .ok (.mapping pairs)) :
    ∃ settings notices, load tree root = .ok (settings, notices) ∧
      (∀ project, settings.project = some project ↔ Gives pairs "app_project".toList (.text project)) ∧
      TakesTexts pairs "ignore_dirs".toList ({} : Settings).ignoredFolders settings.ignoredFolders ∧
      TakesTexts pairs "color_token_files".toList ({} : Settings).tokenFiles settings.tokenFiles :=
  ⟨_, _, load_of_read hread hvalue, fun _ => project_ofValue_iff, takesTexts_textsOr (List.cons_ne_nil _ _),
    takesTexts_textsOr (List.cons_ne_nil _ _)⟩

/-! ## Some settings -/

/-- An empty list, a list with something in it and a number. -/
def mixedText : Text := "ignore_dirs: []\ncolor_token_files: [a.css]\napp_project: 3\n"

/-- What the text gives. -/
def mixedPairs : List (Yaml.Value × Yaml.Value) :=
  [(.text "ignore_dirs".toList, ofTexts []), (.text "color_token_files".toList, ofTexts ["a.css"]),
    (.text "app_project".toList, .scalar .whole ['3'])]

/-- Is it what the text gives? -/
def isMixed : Except Yaml.Fault Yaml.Value → Bool
  | .ok (.mapping [(.text first, .list []), (.text second, .list [.text file]),
      (.text third, .scalar .whole number)]) =>
    first = "ignore_dirs".toList && second = "color_token_files".toList && file = "a.css".toList &&
      third = "app_project".toList && number = ['3']
  | _ => false

theorem eq_of_isMixed {found : Except Yaml.Fault Yaml.Value} (h : isMixed found = true) :
    found = .ok (.mapping mixedPairs) := by
  unfold isMixed at h
  split at h
  · simp only [Bool.and_eq_true, decide_eq_true_eq] at h
    obtain ⟨⟨⟨⟨rfl, rfl⟩, rfl⟩, rfl⟩, rfl⟩ := h
    rfl
  · cases h

theorem ofText_mixedText :
    Yaml.Value.ofText (Text.normalizeNewlines mixedText) = .ok (.mapping mixedPairs) :=
  eq_of_isMixed (by decide +kernel)

/-- The workspace with these settings. -/
def mixedTree : FileTree :=
  .folder [(".sliceguard", .folder [("config.yml", .file (Text.Utf8.encode mixedText))])]

/-- The style sheet is taken although the other two values are of no use. -/
theorem load_keys_mixedTree :
    mixedTree.read (Path.join ⟨.root, []⟩ path) = .ok (Text.Utf8.encode mixedText) ∧
      Yaml.Value.ofText (Text.normalizeNewlines mixedText) = .ok (.mapping mixedPairs) ∧
      ∃ settings notices, load mixedTree ⟨.root, []⟩ = .ok (settings, notices) ∧
        settings.tokenFiles = ["a.css".toList] := by
  have hread : mixedTree.read (Path.join ⟨.root, []⟩ path) = .ok (Text.Utf8.encode mixedText) := rfl
  obtain ⟨settings, notices, hload, -, -, htokens⟩ := load_keys_exact hread ofText_mixedText
  have hgives : Gives mixedPairs "color_token_files".toList (ofTexts ["a.css"]) :=
    ⟨[_], [_], rfl, by simp⟩
  exact ⟨hread, ofText_mixedText, settings, notices, hload, (htokens.eq_iff _ hgives).2 (List.cons_ne_nil _ _)⟩

/-- The list of folders to pass over is given and empty, and yet the default folders are passed over. -/
theorem ignoredFolders_ne_of_emptied :
    Yaml.Value.ofText (Text.normalizeNewlines mixedText) = .ok (.mapping mixedPairs) ∧
      Gives mixedPairs "ignore_dirs".toList (ofTexts []) ∧
      ∃ settings notices, load mixedTree ⟨.root, []⟩ = .ok (settings, notices) ∧
        settings.ignoredFolders ≠ [] ∧ settings.ignoredFolders = ({} : Settings).ignoredFolders :=
  ⟨ofText_mixedText, ⟨[], _, rfl, by simp⟩, _, _, load_of_read rfl ofText_mixedText, List.cons_ne_nil _ _, rfl⟩

end Settings

end VerticalSlice
