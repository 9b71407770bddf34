import VerticalSlice.Proofs.Color.Filled
import VerticalSlice.Proofs.Feature.Program
import VerticalSlice.Proofs.FeatureRoutes.Filled
import VerticalSlice.Proofs.Path.Normalize
import VerticalSlice.Proofs.Tree.WellFormed
import VerticalSlice.Rule.FeatureImports
import VerticalSlice.Rule.RawColors
import VerticalSlice.Rule.Structure

/-!
# Sources that the checks have nothing to say against

A source is quiet if it neither uses the HTTP client nor provides anything for the whole application,
if it imports from packages and from its own folder only, and if its literals have no colours. A
source with holes is quiet for all names if its outline is (`isQuiet_of_isQuietOutline`), and as a
route table it keeps the rules for all names if its outline does (`findings_of_isRoutesOutline`).
-/

namespace VerticalSlice.Feature

open Syntax

/-! ## What is asked of an outline -/

/-- Is the specifier that of a package other than the HTTP client's? -/
def namesPackage (specifier : Text) : Bool :=
  isFilled specifier && specifier.head? ≠ some '.' && specifier ≠ Structure.httpModule

/-- Is the specifier that of a file beside the present one, named after the feature? -/
def namesSibling (specifier : Text) : Bool :=
  specifier.take 3 = ['.', '/', Hole.kebab.mark] &&
    (specifier.drop 3).all fun c => !isHole c && c ≠ '/'

/-- Is the name one that the rules do not look for? -/
def isUnsuspicious (node : Node) : Bool :=
  !node.isIdentifier || isSettled node.text && node.text ≠ "providedIn"

/-- Have the checks nothing to say against the source, whatever stands in the holes? -/
def isQuietOutline (root : Node) : Bool :=
  root.preorder.all isUnsuspicious &&
    ((root.importReferences true).all fun reference =>
      namesPackage reference.specifier || namesSibling reference.specifier) &&
    root.literals.all fun literal => Color.isColorless literal.1

/-- Have the checks of route tables nothing to say against the source, whatever stands in the
holes? -/
def isRoutesOutline (root : Node) : Bool :=
  (FeatureRoutes.findings root).isEmpty && root.deferredImports.all FeatureRoutes.isPage

/-- The checks have nothing to say against the source, wherever it lies in the folder of the
feature. -/
structure IsQuiet (own : Text) (root : Node) : Prop where
  usesHttpClient : Structure.usesHttpClient root = false
  providesInRoot : Structure.providesInRoot root = false
  crossings : ∀ features file, file.parent = Path.child features own →
    FeatureImports.crossings features file own root = []
  colors : Color.inSource root = []

/-! ## From the outline to what is written -/

section

variable {name : FeatureName} {route : Text} {hname : name.IsSpelling} {hroute : IsRoute route}
  {filled raw : Node}

/-- The specifiers of what is written are the filled specifiers of the outline. -/
theorem specifiers_of_isTreeOf (h : IsTreeOf (filling name route hname hroute) filled raw) :
    (filled.importReferences true).map (·.specifier) =
      (raw.importReferences true).map
        fun reference => (filling name route hname hroute).text reference.specifier := by
  have hfilled := (Substitution.regular_identity filled).importReferences true
  rw [h.node_eq, h.regular.importReferences] at hfilled
  have hspecifiers := congrArg (List.map (·.specifier)) hfilled
  rw [List.map_map, List.map_map] at hspecifiers
  refine Eq.trans (List.map_congr_left fun reference _ => ?_) hspecifiers.symm
  exact (Substitution.identity_text _).symm

theorem exists_specifier (h : IsTreeOf (filling name route hname hroute) filled raw)
    {reference : ImportReference} (hreference : reference ∈ filled.importReferences true) :
    ∃ other ∈ raw.importReferences true,
      reference.specifier = (filling name route hname hroute).text other.specifier := by
  have hmem := List.mem_map_of_mem (f := (·.specifier)) hreference
  rw [specifiers_of_isTreeOf h, List.mem_map] at hmem
  obtain ⟨other, hother, heq⟩ := hmem
  exact ⟨other, hother, heq.symm⟩

theorem text_of_namesSibling {specifier : Text} (h : namesSibling specifier = true) :
    ∃ rest, '/' ∉ rest ∧
      (filling name route hname hroute).text specifier = '.' :: '/' :: (name.kebab ++ rest) := by
  rw [namesSibling, Bool.and_eq_true, decide_eq_true_eq, List.all_eq_true] at h
  refine ⟨specifier.drop 3, fun hslash => ?_, ?_⟩
  · have hnot := h.2 _ hslash
    simp at hnot
  · have hrest : isFilled (specifier.drop 3) = true :=
      List.all_eq_true.2 fun c hc => (Bool.and_eq_true _ _ ▸ h.2 c hc).1
    rw [Substitution.text_split _ specifier 3, h.1, Substitution.text_of_isFilled _ hrest]
    show image (holeValues name route) '.' ++ (image (holeValues name route) '/' ++
      (image (holeValues name route) Hole.kebab.mark ++ [])) ++ specifier.drop 3 = _
    rw [image_mark, List.append_nil]
    rfl

/-- What lies beside a file of a feature belongs to the feature. -/
theorem crossing?_sibling {features file : Path} {own name : Text} {reference : ImportReference}
    (hfile : file.parent = features.child own) (hown : own ≠ parentName)
    (hname : name ≠ [] ∧ name ≠ ['.'] ∧ name ≠ parentName ∧ '/' ∉ name)
    (h : reference.specifier = '.' :: '/' :: name) :
    FeatureImports.crossing? features file own reference = none := by
  have hnames : Path.ofText ('.' :: '/' :: name) = ⟨.relative, [name]⟩ := by
    rw [Path.ofText, Path.namesOfText]
    show Path.mk .relative (List.filter _ (['.'] :: Text.splitOn '/' name)) = _
    rw [Text.splitOn_of_notMem hname.2.2.2]
    simp [hname.1, hname.2.1]
  have hresolve : FeatureImports.resolve file reference.specifier =
      some (Path.normalize ⟨features.anchor, features.names ++ [own, name]⟩) := by
    rw [h, FeatureImports.resolve, hnames, hfile]
    show some (Path.normalize ⟨features.anchor, features.names ++ [own] ++ [name]⟩) = _
    rw [List.append_assoc, List.singleton_append]
  rw [FeatureImports.crossing?, hresolve]
  show Option.bind (FeatureImports.featureOf _ _) _ = none
  cases hother : FeatureImports.featureOf features
      (Path.normalize ⟨features.anchor, features.names ++ [own, name]⟩) with
  | none => rfl
  | some other =>
    obtain ⟨below, hbelow, hhead⟩ := Option.bind_eq_some_iff.1 hother
    obtain ⟨-, hway⟩ := Path.namesBelow?_eq_some_iff.1 hbelow
    have hmore : parentName ∉ [own, name] := by
      simp [Ne.symm hown, Ne.symm hname.2.2.1]
    rw [Path.fold_append_of_prefix hmore hway] at hhead
    show (if other = own then none else _) = none
    rw [if_pos (Option.some.inj hhead).symm]

theorem mem_importReferences_true {root : Node} {reference : ImportReference}
    (h : reference ∈ root.importReferences false) : reference ∈ root.importReferences true := by
  rw [Node.importReferences, List.mem_filterMap] at h ⊢
  obtain ⟨node, hnode, hfound⟩ := h
  refine ⟨node, hnode, ?_⟩
  unfold Node.importReference? at hfound ⊢
  split
  · next himport => rwa [if_pos himport] at hfound
  · next himport =>
    rw [if_neg himport] at hfound
    split
    · next hexport => rwa [if_pos hexport] at hfound
    · next hexport =>
      rw [if_neg hexport, if_neg Bool.false_ne_true] at hfound
      cases hfound

/-- The imports of what is written are those of packages and of files beside it. -/
theorem import_cases (h : IsTreeOf (filling name route hname hroute) filled raw)
    (himports : ((raw.importReferences true).all fun reference =>
      namesPackage reference.specifier || namesSibling reference.specifier) = true)
    {reference : ImportReference} (hreference : reference ∈ filled.importReferences true) :
    reference.specifier.head? ≠ some '.' ∧ reference.specifier ≠ Structure.httpModule ∨
      ∃ rest, '/' ∉ rest ∧ reference.specifier = '.' :: '/' :: (name.kebab ++ rest) := by
  obtain ⟨other, hother, heq⟩ := exists_specifier h hreference
  have hkind := List.all_eq_true.1 himports other hother
  rw [Bool.or_eq_true] at hkind
  rcases hkind with hpackage | hsibling
  · rw [namesPackage, Bool.and_eq_true, Bool.and_eq_true, decide_eq_true_eq,
      decide_eq_true_eq] at hpackage
    rw [heq, Substitution.text_of_isFilled _ hpackage.1.1]
    exact .inl ⟨hpackage.1.2, hpackage.2⟩
  · obtain ⟨rest, hslash, htext⟩ :=
      @text_of_namesSibling name route hname hroute _ hsibling
    exact .inr ⟨rest, hslash, heq.trans htext⟩

theorem usesHttpClient_eq_false
    (himports : ∀ reference ∈ filled.importReferences true,
      reference.specifier ≠ Structure.httpModule) : Structure.usesHttpClient filled = false := by
  have hnone : (filled.staticImports.any fun reference =>
      reference.specifier = Structure.httpModule) = false := by
    rw [List.any_eq_false]
    intro reference hreference
    rw [decide_eq_true_eq]
    exact himports reference (mem_importReferences_true (List.mem_filter.1 hreference).1)
  rw [Structure.usesHttpClient, hnone, Bool.false_and]

theorem containsIdentifier_eq_any (root : Node) (name : Text) :
    root.containsIdentifier name =
      root.preorder.any fun node => node.isIdentifier && node.text = name := by
  rw [Node.containsIdentifier, Node.find?, Node.walk_eq_preorder, List.isSome_find?]

theorem providesInRoot_eq_false (h : IsTreeOf (filling name route hname hroute) filled raw)
    (hnames : raw.preorder.all isUnsuspicious = true) :
    Structure.providesInRoot filled = false := by
  have hfilled := Substitution.containsIdentifier_node Substitution.identity filled "providedIn"
  rw [h.node_eq, Substitution.containsIdentifier_node] at hfilled
  simp only [Substitution.identity_text] at hfilled
  rw [Structure.providesInRoot, containsIdentifier_eq_any, ← hfilled, Bool.and_eq_false_imp]
  intro hany
  obtain ⟨node, hnode, hidentifier⟩ := List.any_eq_true.1 hany
  rw [Bool.and_eq_true, decide_eq_true_eq] at hidentifier
  have hplain := List.all_eq_true.1 hnames node hnode
  rw [isUnsuspicious, hidentifier.1, Bool.not_true, Bool.false_or, Bool.and_eq_true,
    decide_eq_true_eq] at hplain
  have hword : isPlainWord "providedIn" = true := by decide
  exact absurd ((Substitution.text_eq_iff _ hplain.1 hword).1 hidentifier.2) hplain.2

theorem inSource_eq_nil (h : IsTreeOf (filling name route hname hroute) filled raw)
    (hliterals : (raw.literals.all fun literal => Color.isColorless literal.1) = true) :
    Color.inSource filled = [] := by
  have hsame := (Substitution.regular_identity filled).literals
  rw [h.node_eq, h.regular.literals] at hsame
  rw [Color.inSource, List.flatMap_eq_nil_iff]
  rintro ⟨contents, line⟩ hliteral
  have hmem := List.mem_map_of_mem
    (f := fun literal : Text × Nat => (Substitution.identity.text literal.1, 1)) hliteral
  rw [← hsame, List.mem_map] at hmem
  obtain ⟨⟨other, place⟩, hother, heq⟩ := hmem
  have htext := (Prod.mk.inj heq).1
  rw [Substitution.identity_text] at htext
  have hclear := List.all_eq_true.1 hliterals _ hother
  dsimp only at htext ⊢
  rw [← htext]
  exact Color.inLiteral_eq_nil (Substitution.colorless_text hclear)
    (Substitution.uncommented_text hclear) _

/-- What was found out about the outline holds of what is written. -/
theorem isQuiet_of_isQuietOutline (h : IsTreeOf (filling name route hname hroute) filled raw)
    (hquiet : isQuietOutline raw = true) : IsQuiet name.kebab filled := by
  rw [isQuietOutline, Bool.and_eq_true, Bool.and_eq_true] at hquiet
  obtain ⟨⟨hnames, himports⟩, hliterals⟩ := hquiet
  obtain ⟨c, kebab, hkebab, hlower, hall⟩ := hname.kebab
  have hletter : c ≠ '.' := by
    rintro rfl
    exact absurd hlower (by decide)
  have hnoSlash : '/' ∉ name.kebab := by
    intro hslash
    rw [hkebab] at hslash
    exact absurd (hall _ hslash) (by decide)
  refine ⟨usesHttpClient_eq_false fun reference hreference => ?_,
    providesInRoot_eq_false h hnames, fun features file hfile => ?_, inSource_eq_nil h hliterals⟩
  · rcases import_cases h himports hreference with ⟨-, hne⟩ | ⟨rest, -, heq⟩
    · exact hne
    · rw [heq]
      intro hmodule
      exact absurd (List.cons.inj hmodule).1 (by decide)
  · rw [FeatureImports.crossings, List.filterMap_eq_nil_iff]
    intro reference hreference
    rcases import_cases h himports hreference with ⟨hdot, -⟩ | ⟨rest, hslash, heq⟩
    · have hnone : FeatureImports.resolve file reference.specifier = none := by
        unfold FeatureImports.resolve
        split
        · next hhead => rw [hhead] at hdot; exact absurd rfl hdot
        · rfl
      rw [FeatureImports.crossing?, hnone]
      rfl
    · refine crossing?_sibling hfile ?_ ⟨?_, ?_, ?_, ?_⟩ heq
      · rw [hkebab, parentName]
        exact fun h => hletter (List.cons.inj h).1
      · rw [hkebab]
        exact List.cons_ne_nil _ _
      · rw [hkebab]
        exact fun h => hletter (List.cons.inj h).1
      · rw [hkebab, parentName]
        exact fun h => hletter (List.cons.inj h).1
      · rw [List.mem_append, not_or]
        exact ⟨hnoSlash, hslash⟩

/-- A module that is named like a page in the outline is named like one in what is written. -/
theorem isPage_text (σ : Substitution) {target : Text} (h : FeatureRoutes.isPage target = true) :
    FeatureRoutes.isPage (σ.text target) = true := by
  rw [FeatureRoutes.isPage, List.isSuffixOf_iff_suffix] at h ⊢
  obtain ⟨front, rfl⟩ := h
  have hfixed : σ.text ".page".toList = ".page".toList :=
    Substitution.text_of_isFilled σ (by decide)
  rw [Substitution.text_append, hfixed]
  exact List.suffix_append _ _

theorem findings_of_isRoutesOutline (h : IsTreeOf (filling name route hname hroute) filled raw)
    (hroutes : isRoutesOutline raw = true) : FeatureRoutes.findings filled = [] := by
  rw [isRoutesOutline, Bool.and_eq_true, List.isEmpty_iff, List.all_eq_true] at hroutes
  have hpages : FeatureRoutes.KeepsPages (filling name route hname hroute) raw := by
    intro target htarget
    rw [hroutes.2 target htarget, isPage_text _ (hroutes.2 target htarget)]
  have hidentity : FeatureRoutes.KeepsPages Substitution.identity filled := by
    intro target _
    rw [Substitution.identity_text]
  rw [← FeatureRoutes.findings_node_eq_nil_iff (Substitution.regular_identity filled) hidentity,
    h.node_eq, FeatureRoutes.findings_node_eq_nil_iff h.regular hpages]
  exact hroutes.1

end

end VerticalSlice.Feature
