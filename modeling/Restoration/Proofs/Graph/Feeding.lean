import Restoration.Graph.Rendering

/-!
# What one stage does to a draft

Extended samples stem from a promotion (`Honest`), and as long as that holds no conversion ahead of
a stage can fail: each is applied to its own input, and depth is promoted only once. So one step is

    d.add setting stage = ok ⟨d.lines ++ conversions ++ statements, stage.leave (d.state.feed …)⟩

except at an output that the colour matrix still waits for (`Draft.add_eq`).
-/

namespace Restoration

open SampleFormat (standard extended extendedFullChroma)

namespace FormatState

/-- Extended samples stem from a promotion. -/
def Honest (s : FormatState) : Prop := s.samples.isExtended = true → s.depthPromoted = true

/-- The format that a stage with this contract is fed. -/
def fedFormat (s : FormatState) (c : Contract) : SampleFormat :=
  match s.requirementFor c with
  | .any => s.samples
  | .exactly f => f

/-- The state that a stage with this contract is fed. -/
def feed (s : FormatState) (c : Contract) : FormatState where
  samples := s.fedFormat c
  pendingMatrix := s.pendingMatrix
  depthPromoted := s.depthPromoted || (s.fedFormat c).isExtended

theorem Honest.standard_or_promoted {s : FormatState} (h : s.Honest) :
    s.samples = standard ∨ s.depthPromoted = true := by
  unfold Honest at h
  cases hs : s.samples with
  | standard => exact .inl rfl
  | _ => exact .inr (h (by rw [hs]; rfl))

theorem honest_ofSource (matrix : ColorMatrix) : (ofSource matrix).Honest := by
  intro h
  cases h

theorem honest_feed (s : FormatState) (c : Contract) : (s.feed c).Honest := by
  intro h
  simp only [feed] at h ⊢
  rw [h, Bool.or_true]

@[simp] theorem feed_samples (s : FormatState) (c : Contract) :
    (s.feed c).samples = s.fedFormat c := rfl

@[simp] theorem feed_pendingMatrix (s : FormatState) (c : Contract) :
    (s.feed c).pendingMatrix = s.pendingMatrix := rfl

@[simp] theorem fedFormat_any (s : FormatState) : s.fedFormat .any = s.samples := rfl

@[simp] theorem fedFormat_standard (s : FormatState) : s.fedFormat .standard = standard := rfl

theorem satisfiedBy_fedFormat (s : FormatState) (c : Contract) :
    (s.requirementFor c).satisfiedBy (s.fedFormat c) = true := by
  unfold fedFormat
  cases s.requirementFor c with
  | any => rfl
  | exactly f => exact beq_self_eq_true f

end FormatState

namespace Stage

theorem honest_leave (stage : Stage) {s : FormatState} (h : s.Honest) : (stage.leave s).Honest := by
  have hkeep : s.matrixCorrected.Honest := h
  cases stage with
  | upscale u =>
    simp only [leave]
    split
    · split
      · rename_i hfull
        rw [Bool.and_eq_true] at hfull
        intro _
        refine h ?_
        cases hs : s.samples
        all_goals rw [hs] at hfull; simp_all [SampleFormat.isFullChroma, SampleFormat.isExtended]
      · exact hkeep
    · exact h
  | correctMatrix m => exact hkeep
  | _ => exact h

/-- The stages that leave the colour matrix alone leave the whole state alone. -/
theorem leave_of_not_correctsMatrix {stage : Stage} (h : stage.correctsMatrix = false)
    (s : FormatState) : stage.leave s = s := by
  cases stage with
  | upscale u =>
    have hboost : u.boost.isSome = false := h
    simp [leave, hboost]
  | correctMatrix m => cases h
  | _ => rfl

/-- What is still pending behind a stage. -/
theorem leave_pendingMatrix (stage : Stage) (s : FormatState) :
    (stage.leave s).pendingMatrix = if stage.correctsMatrix then none else s.pendingMatrix := by
  cases stage with
  | upscale u =>
    have hc : (upscale u).correctsMatrix = u.boost.isSome := rfl
    rw [hc]
    by_cases hb : u.boost.isSome = true
    · rw [leave, if_pos hb, if_pos hb]
      split <;> rfl
    · rw [leave, if_neg hb, if_neg hb]
  | _ => rfl

/-- No stage refuses the samples that its contract gets it. -/
theorem statements_ok (stage : Stage) (s : FormatState) :
    ∃ st, stage.statements (s.feed stage.contract) = .ok st := by
  cases stage with
  | resize size kernel =>
    by_cases hk : kernel = .ssim
    · subst hk
      exact ⟨_, rfl⟩
    · generalize s.feed _ = t
      simp only [statements, resizeStatements, if_neg hk]
      split
      · exact ⟨_, rfl⟩
      · split <;> exact ⟨_, rfl⟩
  | _ => exact ⟨_, rfl⟩

end Stage

namespace Graph

open FormatState

/-- The lines of conversions, one after the other. -/
def conversionLines (setting : Setting) (cs : List Conversion) : List Line :=
  cs.flatMap fun c => linesOf setting.pluginDirectory
    { dependencies := Statements.ditherTools, lines := [.term (c.callText setting.placement)] }

/-- The conversions ahead of a stage that a draft is fed to. -/
def conversionsFor (s : FormatState) (c : Contract) : List Conversion :=
  s.transitionsTo (s.requirementFor c)

/-- No conversion ahead of a stage fails, and they end in the format that the stage is fed. -/
theorem foldlM_convert (setting : Setting) (d : Draft) (h : d.state.Honest) (c : Contract) :
    (conversionsFor d.state c).foldlM (Draft.convert setting) d =
      .ok ⟨d.lines ++ conversionLines setting (conversionsFor d.state c), d.state.feed c⟩ := by
  have hs := h.standard_or_promoted
  obtain ⟨lines, samples, pending, promoted⟩ := d
  simp only at hs
  rcases hs with rfl | rfl
  -- ahead of the promotion or behind the flush, then anywhere behind the promotion
  · cases promoted <;> rcases c with _ | _ | _ | _ <;>
      simp [conversionsFor, conversionLines, requirementFor, transitionsTo, steps, Draft.convert,
        Conversion.statements, Conversion.input, Conversion.output, apply, feed, fedFormat,
        SampleFormat.isExtended, bind, Except.bind, pure, Except.pure]
  · cases samples <;> rcases c with _ | _ | _ | _ <;>
      simp [conversionsFor, conversionLines, requirementFor, transitionsTo, steps, Draft.convert,
        Conversion.statements, Conversion.input, Conversion.output, apply, feed, fedFormat,
        SampleFormat.isExtended, bind, Except.bind, pure, Except.pure]

/-- **One step.** Behind the conversions that it needs a stage writes its statements, unless it is an
output that the colour matrix still waits for. -/
theorem Draft.add_eq (setting : Setting) (d : Draft) (h : d.state.Honest) (stage : Stage) :
    ∃ st, stage.statements (d.state.feed stage.contract) = .ok st ∧
      d.add setting stage =
        if stage = .output ∧ d.state.pendingMatrix.isSome then .error (.unresolved .standard true)
        else .ok
          ⟨d.lines ++ (conversionLines setting (conversionsFor d.state stage.contract) ++
            linesOf setting.pluginDirectory st), stage.leave (d.state.feed stage.contract)⟩ := by
  obtain ⟨st, hst⟩ := stage.statements_ok d.state
  refine ⟨st, hst, ?_⟩
  have hfold := foldlM_convert setting d h stage.contract
  have hreq : (d.state.feed stage.contract).require stage.name (d.state.requirementFor stage.contract)
      = .ok () := by
    rw [FormatState.require, feed_samples, satisfiedBy_fedFormat, if_pos rfl]
  simp only [Draft.add]
  rw [show d.state.transitionsTo _ = conversionsFor d.state stage.contract from rfl, hfold]
  simp only [bind, Except.bind, hreq, hst, pure, Except.pure]
  by_cases hout : stage = .output
  · subst hout
    rcases hp : d.state.pendingMatrix with _ | m <;>
      simp [requireResolved, isResolved, Stage.contract, hp]
  · simp [hout, List.append_assoc]

end Graph

end Restoration
