import VerticalSlice.Proofs.Feature.Outlines
import VerticalSlice.Proofs.Text.Utf8

/-!
# The files of a new feature

The checks have nothing to say against the files of a new feature: its sources are quiet
(`exists_quiet_of_mem_render`), its route table keeps the rules for route tables
(`findings_of_mem_render`), and no file has a colour in it (`find_eq_nil_of_mem_render`). The outlines
say so for all names at once.
-/

namespace VerticalSlice.Feature

open Syntax

variable {name : FeatureName} {file text : Text}

/-- The names and the contents of the files, one after the other. -/
theorem render_eq (name : FeatureName) :
    render name =
      [(name.kebab ++ ".routes.ts".toList, fill (holeValues name []) routesFile),
        (name.kebab ++ ".page.ts".toList, fill (holeValues name []) pageFile),
        (name.kebab ++ ".data.ts".toList, fill (holeValues name []) dataFile),
        (name.kebab ++ ".state.ts".toList, fill (holeValues name []) stateFile),
        (name.kebab ++ ".models.ts".toList, fill (holeValues name []) modelsFile),
        ("README.md".toList, fill (holeValues name []) readmeFile)] := rfl

/-- The files that every feature has are among them. -/
theorem exists_text_of_mem_requiredFiles (h : file ∈ Structure.requiredFiles name.kebab) :
    ∃ text, (file, text) ∈ render name := by
  rw [Structure.requiredFiles, List.mem_map] at h
  obtain ⟨kind, hkind, rfl⟩ := h
  rw [render_eq]
  simp only [Structure.requiredKinds, List.mem_cons, List.not_mem_nil, or_false] at hkind
  rcases hkind with rfl | rfl | rfl | rfl
  · exact ⟨_, .head _⟩
  · exact ⟨_, .tail _ (.head _)⟩
  · exact ⟨_, .tail _ (.tail _ (.head _))⟩
  · exact ⟨_, .tail _ (.tail _ (.tail _ (.head _)))⟩

theorem mem_templates_of_mem_render (h : (file, text) ∈ render name) :
    ∃ template ∈ templates, text = fill (holeValues name name.kebab) template.2 := by
  obtain ⟨template, htemplate, heq⟩ := List.mem_map.1 h
  have hroute := (isColorless_outline_templates template htemplate).2.2.2
  rw [List.mem_append, not_or] at hroute
  exact ⟨template, htemplate, (Prod.mk.inj heq).2.symm.trans (fill_of_no_route hroute.2 _ _ _)⟩

/-- A file of a feature is its outline with the holes filled. -/
theorem exists_outline_of_mem_render (hname : name.IsSpelling) (h : (file, text) ∈ render name) :
    ∃ template ∈ templates,
      text = (filling name name.kebab hname (isRoute_kebab hname)).text (outline template.2) := by
  obtain ⟨template, htemplate, rfl⟩ := mem_templates_of_mem_render h
  exact ⟨template, htemplate,
    fill_eq_text hname (isRoute_kebab hname) (isColorless_outline_templates template htemplate).1⟩

theorem find_eq_nil_of_mem_render (hname : name.IsSpelling) (h : (file, text) ∈ render name) :
    Color.find text = [] := by
  obtain ⟨template, htemplate, rfl⟩ := exists_outline_of_mem_render hname h
  have hcolor := (isColorless_outline_templates template htemplate).2.1
  exact (Substitution.colorless_text hcolor).find_eq_nil

/-- A file of a feature is read as it was written. -/
theorem ofBytes_of_mem_render (hname : name.IsSpelling) (h : (file, text) ∈ render name) :
    Text.ofBytes (Text.Utf8.encode text) = .ok text := by
  obtain ⟨template, htemplate, rfl⟩ := exists_outline_of_mem_render hname h
  refine Text.ofBytes_encode fun hreturn => ?_
  obtain ⟨before, after, hsplit⟩ := List.append_of_mem hreturn
  obtain ⟨front, rest, houtline, -⟩ :=
    Substitution.exists_of_text_eq_append _ (by decide) hsplit
  refine (isColorless_outline_templates template htemplate).2.2.1 ?_
  rw [houtline]
  simp

/-- What is found out about the outline of a program holds of a file that is written from it. -/
theorem exists_root_of_isProgramWith (hname : name.IsSpelling) {accept : Node → Bool}
    {pieces : List Piece} (hprogram : isProgramWith accept pieces = true)
    (hroute : Piece.hole Hole.route ∉ pieces) :
    ∃ raw filled, accept raw = true ∧
      IsTreeOf (filling name name.kebab hname (isRoute_kebab hname)) filled raw ∧
      SyntaxTree.ofText (fill (holeValues name []) pieces) ".ts" = ⟨filled, true⟩ := by
  rw [fill_of_no_route hroute name [] name.kebab]
  exact exists_of_isProgramWith hprogram hname (isRoute_kebab hname)

theorem noRoute_of_mem_templates {template : List Piece × List Piece} (h : template ∈ templates) :
    Piece.hole Hole.route ∉ template.2 := fun hmem =>
  (isColorless_outline_templates template h).2.2.2 (List.mem_append_right _ hmem)

/-- The route table of a feature is quiet and keeps the rules for route tables. -/
theorem exists_routes_root (hname : name.IsSpelling) :
    ∃ root, SyntaxTree.ofText (fill (holeValues name []) routesFile) ".ts" = ⟨root, true⟩ ∧
      IsQuiet name.kebab root ∧ FeatureRoutes.findings root = [] := by
  obtain ⟨raw, filled, haccept, htree, hfilled⟩ :=
    exists_root_of_isProgramWith hname isProgramWith_routesFile
      (noRoute_of_mem_templates (List.mem_cons_self ..))
  rw [Bool.and_eq_true] at haccept
  exact ⟨filled, hfilled, isQuiet_of_isQuietOutline htree haccept.1,
    findings_of_isRoutesOutline htree haccept.2⟩

/-- The sources of a feature are quiet. -/
theorem exists_quiet_of_mem_render (hname : name.IsSpelling) (h : (file, text) ∈ render name)
    (hsource : FileTree.hasSuffix [".ts"] file = true) :
    ∃ root, SyntaxTree.ofText text ".ts" = ⟨root, true⟩ ∧ IsQuiet name.kebab root := by
  have hquiet : ∀ template ∈ templates, template.2 ∈ [pageFile, dataFile, stateFile, modelsFile] →
      ∃ root, SyntaxTree.ofText (fill (holeValues name []) template.2) ".ts" = ⟨root, true⟩ ∧
        IsQuiet name.kebab root := by
    intro template htemplate hpieces
    obtain ⟨raw, filled, haccept, htree, hfilled⟩ := exists_root_of_isProgramWith hname
      (isProgramWith_sources template.2 hpieces) (noRoute_of_mem_templates htemplate)
    exact ⟨filled, hfilled, isQuiet_of_isQuietOutline htree haccept⟩
  rw [render_eq] at h
  simp only [List.mem_cons, Prod.mk.injEq, List.not_mem_nil, or_false] at h
  rcases h with ⟨-, rfl⟩ | ⟨-, rfl⟩ | ⟨-, rfl⟩ | ⟨-, rfl⟩ | ⟨-, rfl⟩ | ⟨rfl, -⟩
  · obtain ⟨root, hroot, hroutes, -⟩ := exists_routes_root hname
    exact ⟨root, hroot, hroutes⟩
  · exact hquiet ([Hole.kebab, ".page.ts"], pageFile) (by simp [templates]) (by simp)
  · exact hquiet ([Hole.kebab, ".data.ts"], dataFile) (by simp [templates]) (by simp)
  · exact hquiet ([Hole.kebab, ".state.ts"], stateFile) (by simp [templates]) (by simp)
  · exact hquiet ([Hole.kebab, ".models.ts"], modelsFile) (by simp [templates]) (by simp)
  · exact absurd hsource (by decide)

/-- The file with the routes of a feature keeps the rules for route tables. -/
theorem findings_of_mem_render (hname : name.IsSpelling)
    (h : (name.kebab ++ ".routes.ts".toList, text) ∈ render name) :
    ∃ root, SyntaxTree.ofText text ".ts" = ⟨root, true⟩ ∧ FeatureRoutes.findings root = [] := by
  obtain ⟨c, rest, hkebab, hlower, -⟩ := hname.kebab
  rw [render_eq] at h
  simp only [List.mem_cons, Prod.mk.injEq, List.not_mem_nil, or_false, List.append_cancel_left_eq]
    at h
  rcases h with ⟨-, rfl⟩ | ⟨heq, -⟩ | ⟨heq, -⟩ | ⟨heq, -⟩ | ⟨heq, -⟩ | ⟨heq, -⟩
  · obtain ⟨root, hroot, -, hfindings⟩ := exists_routes_root hname
    exact ⟨root, hroot, hfindings⟩
  · exact absurd heq (by decide)
  · exact absurd heq (by decide)
  · exact absurd heq (by decide)
  · exact absurd heq (by decide)
  · rw [hkebab] at heq
    have hletter : c = 'R' := (List.cons.inj heq).1
    rw [hletter] at hlower
    exact absurd hlower (by decide)

end VerticalSlice.Feature
