import VerticalSlice.Proofs.Feature.Program
import VerticalSlice.Proofs.Syntax.Trivia
import VerticalSlice.Proofs.Tree.Rewriting
import VerticalSlice.Rule.AppRoutes
import VerticalSlice.Rule.FeatureRoutes

/-!
# Comments and quotes in route tables

What is said of a route table is put together from questions about its tree, so it is the same for a tree
with other comments and other quotes (`same_answers`). That an element has an index is no exception, because
comments are no elements. One question is asked about more than that: the contents of a template are its text
in the source, with all comments that stand between its braces (`literals_ne_template`).
-/

namespace VerticalSlice

open Syntax

variable {node other root edited : Node}

/-! ## The table of the application -/

namespace AppRoutes

theorem loads_edited (h : node.Edited other) (name : Text) (accept : Text → Bool) :
    loads other name accept = loads node name accept :=
  any_eq_of_rel (h.property? name) fun _ _ hloader => hloader.hasDeferredImport accept

theorem elementBreaches_edited (h : node.Edited other) : elementBreaches other = elementBreaches node := by
  have hloading : ∀ path, loadingBreaches other path = loadingBreaches node path := by
    intro path
    rw [loadingBreaches, loadingBreaches, h.hasProperty, h.hasProperty, loads_edited h, loads_edited h,
      isNone_eq_of_rel (h.property? _)]
  rw [elementBreaches, elementBreaches, h.kind_eq, h.hasProperty, h.propertyString?]
  simp only [hloading]

theorem isWildcard_edited (h : node.Edited other) : isWildcard other = isWildcard node := by
  rw [isWildcard, isWildcard, h.kind_eq, h.propertyString?]

/-- What is wrong with the table of a tree, if it has one. -/
def tableFindings? (root : Node) : Option (List Finding) :=
  (root.exportedArray? tableName).map fun table => findings root table.array.elements

theorem findings_edited (h : root.Edited edited) {elements others : List Node}
    (helements : List.Forall₂ Node.Edited elements others) :
    findings edited others = findings root elements := by
  have hbreaches : (others.flatMap fun element =>
        (elementBreaches element).map fun breach => Finding.mk breach (some element.line)) =
      elements.flatMap fun element =>
        (elementBreaches element).map fun breach => Finding.mk breach (some element.line) :=
    flatMap_eq_of_forall₂ helements fun element kept helement => by
      rw [elementBreaches_edited helement, helement.line_eq]
  rw [findings, findings, staticImportFindings, staticImportFindings, h.staticImports, hbreaches, wildcards,
    wildcards, countP_eq_of_forall₂ helements fun _ _ => isWildcard_edited]

theorem tableFindings?_edited (h : root.Edited edited) : tableFindings? edited = tableFindings? root := by
  have htable := h.exportedArray? tableName
  rw [tableFindings?, tableFindings?]
  generalize root.exportedArray? tableName = first at htable ⊢
  generalize edited.exportedArray? tableName = second at htable ⊢
  cases htable with
  | none => rfl
  | some hexported => exact congrArg some (findings_edited h hexported.array.elements)

/-- The check is about the file and what is wrong with its table. -/
theorem check_eq {context : Context} {tree : FileTree} {source : SyntaxTree}
    (h : tree.readSource context.appRoutes = .ok source) :
    check context tree = match tableFindings? source.root with
      | none => .error .noTable
      | some findings => .ok
        { check := "app-routes"
          title := "App routes"
          summary := Text.concat ["OK: app.routes.ts verified (", context.relative context.appRoutes, ")."]
          violations := findings.map (·.inFile (context.relative context.appRoutes)) } := by
  have hfile : tree.hasFile context.appRoutes = true := by
    unfold FileTree.readSource at h
    split at h
    · cases h
    · next htext => exact FileTree.hasFile_of_readText htext
  rw [check, readTable, if_pos hfile, h, tableFindings?]
  dsimp only
  cases source.root.exportedArray? tableName <;> rfl

end AppRoutes

/-! ## The tables of a feature -/

namespace FeatureRoutes

theorem providerBreaches_edited (h : node.Edited other) (table : Text) :
    providerBreaches table other = providerBreaches table node := by
  have hproviders := h.property? "providers"
  rw [providerBreaches, providerBreaches]
  generalize node.property? "providers" = first at hproviders ⊢
  generalize other.property? "providers" = second at hproviders ⊢
  cases hproviders with
  | none => rfl
  | @some providers kept hvalue =>
    dsimp only
    rw [hvalue.kind_eq, isEmpty_eq_of_forall₂ hvalue.elements]

theorem elementBreaches_edited (h : node.Edited other) (table : Text) (index : Nat) :
    elementBreaches table index other = elementBreaches table index node := by
  rw [elementBreaches, elementBreaches, firstRouteBreaches, firstRouteBreaches, h.kind_eq,
    providerBreaches_edited h, h.propertyString?]
  simp only [h.hasProperty]

theorem elementFindings_edited {elements others : List Node}
    (h : List.Forall₂ Node.Edited elements others) (table : Text) (index : Nat) :
    elementFindings table index others = elementFindings table index elements := by
  induction h generalizing index with
  | nil => rfl
  | cons helement _ ih =>
    rw [elementFindings, elementFindings, elementBreaches_edited helement, helement.line_eq, ih]

theorem loadsForeign_edited (h : node.Edited other) : loadsForeign other = loadsForeign node := by
  rw [loadsForeign, loadsForeign, h.kind_eq]
  congr 1
  exact any_eq_of_rel (h.property? _) fun _ _ hloader => by rw [hloader.hasDeferredImport]

theorem loaderFindings_edited {exported kept : ExportedArray} (h : exported.Edited kept) :
    loaderFindings kept = loaderFindings exported := by
  have hobjects : List.Forall₂ Node.Edited (exported.array.walk.filter loadsForeign)
      (kept.array.walk.filter loadsForeign) := by
    rw [Node.walk_eq_preorder, Node.walk_eq_preorder]
    refine h.array.preorder.filter (fun comment htrivia => ?_) fun _ _ => loadsForeign_edited
    rw [loadsForeign, htrivia.kind_eq]
    rfl
  rw [loaderFindings, loaderFindings, h.name_eq]
  exact map_eq_of_forall₂ hobjects fun object keptObject hobject => by rw [hobject.line_eq]

theorem tableFindings_edited {exported kept : ExportedArray} (h : exported.Edited kept) :
    tableFindings kept = tableFindings exported := by
  have helements := h.array.elements
  rw [tableFindings, tableFindings, h.name_eq, loaderFindings_edited h, ExportedArray.line, h.array.line_eq]
  generalize exported.array.elements = first at helements ⊢
  generalize kept.array.elements = second at helements ⊢
  cases helements with
  | nil => rfl
  | cons helement hrest =>
    dsimp only
    rw [elementFindings_edited (.cons helement hrest)]

theorem findings_edited (h : root.Edited edited) : findings edited = findings root := by
  have htables := h.forall₂_exportedArrays
  rw [findings, findings]
  generalize root.exportedArrays = first at htables ⊢
  generalize edited.exportedArrays = second at htables ⊢
  cases htables with
  | nil => rfl
  | cons htable hrest =>
    dsimp only
    exact flatMap_eq_of_forall₂ (.cons htable hrest) fun _ _ => tableFindings_edited

end FeatureRoutes

/-! ## All answers -/

/-- A tree with other comments and other quotes has the same breaches in its table of the application and in
its tables of a feature, and all other questions have the same answers; only a template whose text is edited
has other contents. -/
theorem same_answers {source other : SyntaxTree} (h : source.root.Edited other.root) :
    AppRoutes.tableFindings? other.root = AppRoutes.tableFindings? source.root ∧
    (∀ (context : Context) (tree changed : FileTree), tree.readSource context.appRoutes = .ok source →
      changed.readSource context.appRoutes = .ok other →
      AppRoutes.check context changed = AppRoutes.check context tree) ∧
    (∀ file, FeatureRoutes.violationsIn file (.ok other) = FeatureRoutes.violationsIn file (.ok source)) ∧
    (∀ includeDeferred, other.root.importReferences includeDeferred =
      source.root.importReferences includeDeferred) ∧
    (∀ name, other.root.containsIdentifier name = source.root.containsIdentifier name) ∧
    (∀ value, other.root.containsString value = source.root.containsString value) ∧
    source.root.literals = source.root.literalNodes.map Node.literalEntry ∧
    other.root.literals = other.root.literalNodes.map Node.literalEntry ∧
    List.Forall₂ Node.KeepsLiteral source.root.literalNodes other.root.literalNodes ∧
    (List.Forall₂ (fun node kept => node.kind = .templateString → kept.text = node.text)
      source.root.literalNodes other.root.literalNodes → other.root.literals = source.root.literals) := by
  refine ⟨AppRoutes.tableFindings?_edited h, fun context tree changed hsource hother => ?_, fun file => ?_,
    h.importReferences, h.containsIdentifier, h.containsString, Node.literals_eq _, Node.literals_eq _,
    h.forall₂_literalNodes, h.literals⟩
  · rw [AppRoutes.check_eq hsource, AppRoutes.check_eq hother, AppRoutes.tableFindings?_edited h]
  · rw [FeatureRoutes.violationsIn, FeatureRoutes.violationsIn, FeatureRoutes.findings_edited h]

/-! ## Small texts -/

theorem ofText_lexemesOf (text : Text) : SyntaxTree.ofText text ".ts" =
    SyntaxTree.ofTokens false (place (Feature.lexemesOf text)) := by
  have hmarkup : SyntaxTree.hasMarkup ".ts" = false := by decide
  rw [SyntaxTree.ofText, hmarkup, SyntaxTree.tokens, Feature.lexemesOf_eq]

theorem edited_of_lexemesOf {text other : Text}
    (h : (SyntaxTree.ofTokens false (place (Feature.lexemesOf text))).root.isEdited
      (SyntaxTree.ofTokens false (place (Feature.lexemesOf other))).root = true) :
    (SyntaxTree.ofText text ".ts").root.Edited (SyntaxTree.ofText other ".ts").root := by
  rw [ofText_lexemesOf, ofText_lexemesOf]
  exact Node.edited_of_isEdited h

/-- A table of the application whose route loads nothing. -/
def quietText : Text := "export const routes = [\n  \x7b path: 'a' \x7d,\n];"

/-- The same table with comments and with other quotes. -/
def noisyText : Text := "export const routes = [ // all\n  \x7b /* a */ path: \"a\" \x7d,\n];"

/-- The breaches of the small table are those of the table with comments, on the same lines. -/
theorem same_answers_quietText :
    (SyntaxTree.ofText quietText ".ts").root.Edited (SyntaxTree.ofText noisyText ".ts").root ∧
      AppRoutes.tableFindings? (SyntaxTree.ofText noisyText ".ts").root =
        some [⟨.noLoader "a", some 2⟩, ⟨.wildcardCount 0, none⟩] := by
  have hedited : (SyntaxTree.ofText quietText ".ts").root.Edited (SyntaxTree.ofText noisyText ".ts").root :=
    edited_of_lexemesOf (by decide +kernel)
  refine ⟨hedited, ?_⟩
  rw [(same_answers hedited).1, ofText_lexemesOf]
  decide +kernel

/-- A template. -/
def templateText : Text := "`$\x7bx\x7d`;"

/-- The same template with a comment between its braces. -/
def commentedText : Text := "`$\x7b/* c */x\x7d`;"

/-- The comment counts among the contents of the template. -/
theorem literals_ne_template :
    (SyntaxTree.ofText templateText ".ts").root.Edited (SyntaxTree.ofText commentedText ".ts").root ∧
      (SyntaxTree.ofText templateText ".ts").root.literals = [("$\x7bx\x7d".toList, 1)] ∧
      (SyntaxTree.ofText commentedText ".ts").root.literals = [("$\x7b/* c */x\x7d".toList, 1)] := by
  refine ⟨edited_of_lexemesOf (by decide +kernel), ?_, ?_⟩
  · rw [ofText_lexemesOf]
    decide +kernel
  · rw [ofText_lexemesOf]
    decide +kernel

end VerticalSlice
