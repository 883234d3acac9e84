import Restoration.Proofs.Script.Call

/-!
# The functions that stages call

Every line of a stage is a call, and its function is told by the kind of the stage alone, whatever the
samples are and whatever the arguments spell:

    l ∈ st.lines  →  ∃ c, l.call? = some c ∧ c.function ∈ stage.functions
-/

namespace Restoration

open Statements

/-- The functions that convert the colour matrix on their own. -/
def correctingFunctions : List String :=
  ["Dither_convert_yuv_to_rgb", "Dither_convert_rgb_to_yuv", "ColorMatrix", "ColorYUV"]

/-- The upscalers with quality boost. -/
def boostedFunctions : List String := ["SuperRes", "SuperResXBR"]

/-- The functions that scale to a given size. -/
def scalingFunctions : List String :=
  ["Dither_resize16nr", "BicubicResize", "Spline36Resize", "LanczosResize", "SSimDownscaler"]

/-- The functions that the lines of a stage can call. -/
def Stage.functions : Stage → List String
  | source .. => ["LWLibavVideoSource"]
  | retime _ => ["AssumeFPS"]
  | trim _ => ["Trim"]
  | crop _ => ["Crop"]
  | denoise .. => ["KNLMeansCL"]
  | dering => ["HQDeringmod"]
  | upscale u => if u.boost.isSome then boostedFunctions else ["nnedi3_rpow2", "SuperXBR"]
  | degrain _ => ["SMDegrain"]
  | deshake _ => ["ConvertToRGB32", "Deshaker", "ConvertToYV12"]
  | interpolate .. => ["InterFrame"]
  | resize .. => scalingFunctions
  | correctMatrix _ => correctingFunctions
  | output => []
  | preview => ["AddBorders", "ConvertToRGB32"]
  | prefetch _ => ["Prefetch"]

/-- The line calls one of these functions. -/
def Line.CallsOf (fs : List String) (l : Line) : Prop := ∃ c, l.call? = some c ∧ c.function ∈ fs

theorem callsOf_term {f : String} {fs : List String} (hf : '(' ∉ f.toList) (hmem : f ∈ fs)
    {text : String} {as : List String} (htext : text = call f as) : (Line.term text).CallsOf fs := by
  obtain ⟨bs, hbs⟩ := readCall?_function hf as
  exact ⟨⟨f, bs⟩, by rw [htext]; exact hbs, hmem⟩

theorem callsOf_termWithComment {f : String} {fs : List String} (hf : '(' ∉ f.toList)
    (hmem : f ∈ fs) {text comment : String} {as : List String} (htext : text = call f as) :
    (Line.termWithComment text comment).CallsOf fs := by
  obtain ⟨bs, hbs⟩ := readCall?_function hf as
  exact ⟨⟨f, bs⟩, by rw [htext]; exact hbs, hmem⟩

/-! ## Lines of stages -/

theorem FrameCut.line_callsOf (cut : FrameCut) : cut.line.CallsOf ["Trim"] := by
  unfold FrameCut.line
  split
  · exact callsOf_termWithComment (by decide) (by decide) rfl
  · exact callsOf_term (by decide) (by decide) rfl

theorem Deshaking.lines_callsOf (d : Deshaking) :
    ∀ l ∈ d.statements.lines, l.CallsOf ["ConvertToRGB32", "Deshaker", "ConvertToYV12"] := by
  simp only [Deshaking.statements, List.forall_mem_cons]
  refine ⟨?_, ?_, ?_, by simp⟩
  · exact callsOf_term (by decide) (by decide) (show _ = call "ConvertToRGB32" [] by decide)
  · exact callsOf_term (by decide) (by decide) rfl
  · exact callsOf_term (by decide) (by decide) (show _ = call "ConvertToYV12" [] by decide)

theorem resizeStatements_callsOf {size : FrameSize} {kernel : Downscaler} {s : FormatState}
    {st : Statements} (h : resizeStatements size kernel s = .ok st) :
    ∀ l ∈ st.lines, l.CallsOf scalingFunctions := by
  unfold resizeStatements at h
  split at h
  · split at h
    · cases h
    · cases h
      simp only [List.forall_mem_cons]
      exact ⟨callsOf_term (by decide) (by decide) rfl, by simp⟩
  · split at h
    · rename_i resizer hresizer
      cases h
      simp only [List.forall_mem_cons]
      refine ⟨?_, by simp⟩
      cases kernel <;> cases hresizer <;> exact callsOf_term (by decide) (by decide) rfl
    · cases h
      simp only [List.forall_mem_cons]
      exact ⟨callsOf_term (by decide) (by decide) rfl, by simp⟩

theorem ColorMatrix.lines_callsOf (m : ColorMatrix) (s : FormatState) :
    ∀ l ∈ (m.statements s).lines, l.CallsOf correctingFunctions := by
  unfold ColorMatrix.statements
  split
  · simp
  split
  · unfold ColorMatrix.stackedStatements
    simp only [List.forall_mem_cons]
    exact ⟨callsOf_term (by decide) (by decide) rfl, callsOf_term (by decide) (by decide) rfl,
      by simp⟩
  · cases m with
    | rec709 => simp
    | pc709 =>
      simp only [List.forall_mem_cons]
      exact ⟨callsOf_term (by decide) (by decide)
        (show _ = call "ColorYUV" ["levels=\"PC->TV\""] by simp [call]), by simp⟩
    | rec601 =>
      simp only [List.forall_mem_cons]
      exact ⟨callsOf_term (by decide) (by decide)
        (show _ = call "ColorMatrix" ["mode=\"Rec.601->Rec.709\""] by simp [call]), by simp⟩
    | pc601 =>
      simp only [List.forall_mem_cons]
      exact ⟨callsOf_term (by decide) (by decide)
        (show _ = call "ColorMatrix" ["mode=\"Rec.601->Rec.709\"", "inputFR=true"]
          by simp [call]), by simp⟩

theorem Upscaling.plainCall_callsOf (u : Upscaling) (s : FormatState) :
    (Line.term (u.plainCall s)).CallsOf ["nnedi3_rpow2", "SuperXBR"] := by
  unfold plainCall
  split
  · split
    · split <;> exact callsOf_term (by decide) (by decide) rfl
    · exact callsOf_term (by decide) (by decide) rfl
  · exact callsOf_term (by decide) (by decide) rfl

theorem Upscaling.boostedCall_callsOf (u : Upscaling) (b : Boost) (s : FormatState) :
    (Line.term (u.boostedCall b s)).CallsOf boostedFunctions := by
  unfold boostedCall
  cases u.upscaler <;> exact callsOf_term (by decide) (by decide) rfl

/-- **Every line of a stage calls a function of that stage.** -/
theorem Stage.lines_callsOf {stage : Stage} {s : FormatState} {st : Statements}
    (h : stage.statements s = .ok st) : ∀ l ∈ st.lines, l.CallsOf stage.functions := by
  have single : ∀ {l : Line} {fs : List String}, l.CallsOf fs → ∀ m ∈ [l], m.CallsOf fs := by
    intro l fs hl m hm
    exact List.mem_singleton.1 hm ▸ hl
  cases stage with
  | trim cut =>
    cases h
    exact single cut.line_callsOf
  | deshake run =>
    cases h
    exact run.lines_callsOf
  | resize size kernel => exact resizeStatements_callsOf h
  | correctMatrix m =>
    cases h
    exact m.lines_callsOf s
  | upscale u =>
    cases h
    rcases hb : u.boost with _ | b
    · simpa [Upscaling.statements, functions, hb] using u.plainCall_callsOf s
    · simpa [Upscaling.statements, functions, hb] using u.boostedCall_callsOf b s
  | output =>
    cases h
    simp
  | preview =>
    cases h
    simp only [List.forall_mem_cons]
    refine ⟨callsOf_termWithComment (by decide) (by decide)
      (show _ = call "AddBorders" ["2", "2", "2", "2", "$FF0000"] by simp [call]), ?_, by simp⟩
    exact callsOf_term (by decide) (by decide) (show _ = call "ConvertToRGB32" [] by decide)
  | _ =>
    cases h
    exact single (callsOf_term (by decide) List.mem_cons_self rfl)

end Restoration
