import VerticalSlice.Proofs.Feature.Sources

/-!
# The outlines of the files of a feature

What has to be found out about the outlines of the files is a computation: the kernel reads each
outline into its tree and looks at it. The characters of the pieces are written out first, since for the
kernel it is long work to find them in a string.
-/

namespace VerticalSlice.Feature

open Syntax

/-- The route table of a feature. -/
theorem isProgramWith_routesFile :
    isProgramWith (fun root => isQuietOutline root && isRoutesOutline root) routesFile = true := by
  rw [routesFile]
  repeat rw [String.toList_ofList]
  decide +kernel

theorem isProgramWith_pageFile : isProgramWith isQuietOutline pageFile = true := by
  rw [pageFile]
  repeat rw [String.toList_ofList]
  decide +kernel

theorem isProgramWith_dataFile : isProgramWith isQuietOutline dataFile = true := by
  rw [dataFile]
  repeat rw [String.toList_ofList]
  decide +kernel

theorem isProgramWith_stateFile : isProgramWith isQuietOutline stateFile = true := by
  rw [stateFile]
  repeat rw [String.toList_ofList]
  decide +kernel

theorem isProgramWith_modelsFile : isProgramWith isQuietOutline modelsFile = true := by
  rw [modelsFile]
  repeat rw [String.toList_ofList]
  decide +kernel

/-- The other sources of a feature. -/
theorem isProgramWith_sources :
    ∀ pieces ∈ [pageFile, dataFile, stateFile, modelsFile],
      isProgramWith isQuietOutline pieces = true := by
  simp only [List.forall_mem_cons, List.not_mem_nil, false_implies, implies_true, and_true]
  exact ⟨isProgramWith_pageFile, isProgramWith_dataFile, isProgramWith_stateFile,
    isProgramWith_modelsFile⟩

/-- No file of a feature has a colour. -/
theorem isColorless_outline_templates :
    ∀ template ∈ templates, isPlain template.2 = true ∧
      Color.isColorless (outline template.2) = true ∧ '\r' ∉ outline template.2 ∧
      Piece.hole Hole.route ∉ template.1 ++ template.2 := by
  rw [templates, routesFile, pageFile, dataFile, stateFile, modelsFile, readmeFile]
  repeat rw [String.toList_ofList]
  decide +kernel

end VerticalSlice.Feature
