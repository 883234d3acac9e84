import Restoration.Proofs.Graph.Formats
import Restoration.Proofs.Graph.Walk
import Restoration.Proofs.Stage.Matrix

/-!
# The colour matrix is converted once

The matrix of the source waits in the state of the graph until the first stage that converts it takes
it up; behind that stage nothing waits any more. So what a script does about the matrix is told by the
stages that convert it, of which a job has its boosted passes or one correction:

    matrixUses pending stages = matrixUses pending (stages.filter correctsMatrix)
-/

namespace Restoration

open Statements

/-- Does the line call one of the functions that convert the matrix on their own? -/
def Line.isCorrection (l : Line) : Bool := l.call?.any fun c => c.function ∈ correctingFunctions

/-- Is the stage a correction of the matrix? -/
def Stage.isCorrection : Stage → Bool
  | correctMatrix _ => true
  | _ => false

theorem Stage.filter_isCorrection {stage : Stage} {s : FormatState} {st : Statements}
    (h : stage.statements s = .ok st) :
    st.lines.filter Line.isCorrection = if stage.isCorrection then st.lines else [] := by
  have hcall : ∀ l ∈ st.lines, ∃ c, l.call? = some c ∧ c.function ∈ stage.functions :=
    Stage.lines_callsOf h
  have quiet : (∀ f ∈ stage.functions, f ∉ correctingFunctions) →
      st.lines.filter Line.isCorrection = [] := by
    refine fun hfs => List.filter_eq_nil_iff.2 fun l hl => ?_
    obtain ⟨c, hc, hmem⟩ := hcall l hl
    simp [Line.isCorrection, hc, hfs _ hmem]
  cases stage with
  | correctMatrix m =>
    refine List.filter_eq_self.2 fun l hl => ?_
    obtain ⟨c, hc, hmem⟩ := hcall l hl
    rw [Line.isCorrection, hc]
    exact decide_eq_true hmem
  | upscale u =>
    refine quiet ?_
    cases hb : u.boost <;> simp [functions, hb, boostedFunctions, correctingFunctions]
  | resize size kernel => exact quiet (by simp [functions, scalingFunctions, correctingFunctions])
  | _ => exact quiet (by simp [functions, correctingFunctions])

/-- Only a boosted pass speaks of `MatrixIn`, unless the name of a file does. -/
theorem Stage.matrixIn?_eq_none {stage : Stage} {s : FormatState} {st : Statements}
    (h : stage.statements s = .ok st) {l : Line} (hl : l ∈ st.lines)
    (hboosted : ¬ l.CallsOf boostedFunctions)
    (hread : ¬ l.CallsOf namingFunctions ∨ ∀ p ∈ stage.file?, '"' ∉ p.text.toList) :
    l.matrixIn? = none := by
  rcases Stage.lines_lack h l hl with hcalls | hcalls | hlacks
  · exact absurd hcalls hboosted
  · have hfile := hread.resolve_left (not_not_intro hcalls)
    have quiet : (∀ f ∈ stage.functions, f ∉ namingFunctions) → l.matrixIn? = none := by
      intro hfs
      obtain ⟨c, hc, hmem⟩ := Stage.lines_callsOf h l hl
      obtain ⟨d, hd, hnaming⟩ := hcalls
      cases hc.symm.trans hd
      exact absurd hnaming (hfs _ hmem)
    cases stage with
    | source clip rate =>
      cases h
      rw [List.mem_singleton.1 hl]
      exact matrixIn?_sourceLine clip rate (hfile _ rfl)
    | deshake run =>
      cases h
      simp only [Deshaking.statements, List.mem_cons, List.not_mem_nil, or_false] at hl
      rcases hl with rfl | rfl | rfl
      · exact Line.Lacks.matrixIn? ⟨_, rfl, by decide⟩
      · exact run.matrixIn? (hfile _ rfl)
      · exact Line.Lacks.matrixIn? ⟨_, rfl, by decide⟩
    | upscale u =>
      refine quiet ?_
      cases hb : u.boost <;> simp [functions, hb, boostedFunctions, namingFunctions]
    | resize size kernel => exact quiet (by simp [functions, scalingFunctions, namingFunctions])
    | correctMatrix m => exact quiet (by simp [functions, correctingFunctions, namingFunctions])
    | _ => exact quiet (by simp [functions, namingFunctions])
  · exact hlacks.matrixIn?

namespace Graph

open FormatState

/-! ## Along stages -/

/-- What stages do about the colour matrix, one after the other. -/
def matrixUses (pending : Option ColorMatrix) : List Stage → List MatrixUse
  | [] => []
  | stage :: rest =>
    stage.matrixUses pending ++ matrixUses (if stage.correctsMatrix then none else pending) rest

theorem along_eq_matrixUses (s : FormatState) (stages : List Stage) :
    along (fun s stage => stage.matrixUses s.pendingMatrix) s stages =
      matrixUses s.pendingMatrix stages := by
  induction stages generalizing s with
  | nil => rfl
  | cons stage rest ih =>
    rw [along_cons, ih, matrixUses, Stage.leave_pendingMatrix, feed_pendingMatrix]

theorem matrixUses_filter (pending : Option ColorMatrix) (stages : List Stage) :
    matrixUses pending stages = matrixUses pending (stages.filter Stage.correctsMatrix) := by
  induction stages generalizing pending with
  | nil => rfl
  | cons stage rest ih =>
    rw [matrixUses, ih, List.filter_cons]
    by_cases hcorrects : stage.correctsMatrix = true
    · rw [if_pos hcorrects, if_pos hcorrects, matrixUses, if_pos hcorrects]
    · have huses : stage.matrixUses pending = [] := by
        cases stage with
        | upscale u => exact if_neg hcorrects
        | correctMatrix m => exact absurd rfl hcorrects
        | _ => rfl
      rw [huses, if_neg hcorrects, if_neg hcorrects, List.nil_append]

/-- Behind the first stage that converts it, all stages of a kind find the same waiting: nothing. -/
theorem matrixUses_none {use : MatrixUse} {stages : List Stage}
    (h : ∀ stage ∈ stages, stage.matrixUses none = [use]) :
    matrixUses none stages = List.replicate stages.length use := by
  induction stages with
  | nil => rfl
  | cons stage rest ih =>
    rw [matrixUses, ite_self, h stage List.mem_cons_self,
      ih fun st hst => h st (List.mem_cons_of_mem _ hst)]
    rfl

variable {setting : Setting} {matrix : ColorMatrix} {stages : List Stage} {s : Script}

/-- **What a script does about the matrix its stages do.** -/
theorem matrixUses_render (h : render setting matrix stages = .ok s) :
    s.matrixUses = matrixUses (ofSource matrix).pendingMatrix (stages.filter Stage.correctsMatrix) := by
  have hconversion : ∀ c : Conversion,
      (Line.term (c.callText setting.placement)).matrixUse? = none := by
    intro c
    cases c <;> cases setting.placement <;> decide +kernel
  rw [Script.matrixUses, filterMap_render (fun _ => rfl) hconversion
    (fun _ _ _ _ hst => Stage.filterMap_matrixUse? hst) h, ← matrixUses_filter,
    ← along_eq_matrixUses]
  simp

/-- The lines with which a stage corrects the matrix. -/
def correctionsAt (s : FormatState) : Stage → List Line
  | .correctMatrix m => (m.statements (s.feed (Stage.correctMatrix m).contract)).lines
  | _ => []

/-- The correcting lines of a script are the lines of its corrections. -/
theorem corrections_render (h : render setting matrix stages = .ok s) :
    s.lines.filter Line.isCorrection = along correctionsAt (.ofSource matrix) stages := by
  have hconversion : ∀ c : Conversion, Option.guard Line.isCorrection
      (.term (c.callText setting.placement)) = none := by
    intro c
    rw [Option.guard_eq_none_iff]
    cases c <;> cases setting.placement <;> decide +kernel
  have hstage : ∀ stage ∈ stages, ∀ (s : FormatState) (st : Statements),
      stage.statements (s.feed stage.contract) = .ok st →
        st.lines.filterMap (Option.guard Line.isCorrection) = correctionsAt s stage := by
    intro stage _ s st hst
    rw [List.filterMap_eq_filter, Stage.filter_isCorrection hst]
    cases stage with
    | correctMatrix m =>
      cases hst
      rfl
    | _ => rfl
  rw [← List.filterMap_eq_filter, filterMap_render (fun _ => rfl) hconversion hstage h]
  simp

/-- A line that speaks of `MatrixIn` is a boosted pass, unless the name of a file speaks of it. -/
theorem matrixIn?_render (h : render setting matrix stages = .ok s) {named : Prop}
    (hnames : named → ∀ stage ∈ stages, ∀ p ∈ stage.file?, '"' ∉ p.text.toList) :
    ∀ l ∈ s.lines, ¬ l.CallsOf namingFunctions ∨ named → ¬ l.CallsOf boostedFunctions →
      l.matrixIn? = none := by
  refine forall_mem_render (fun _ _ _ => rfl) ?_ ?_ h
  · intro c _ _
    refine Line.Lacks.matrixIn? ⟨_, rfl, ?_⟩
    cases c <;> cases setting.placement <;> decide +kernel
  · intro stage hmem s st hst l hl hread hboosted
    exact Stage.matrixIn?_eq_none hst hl hboosted (hread.imp_right fun hn => hnames hn stage hmem)

end Graph

theorem Script.boosted_mem_matrixUses (s : Script) {l : Line} (hl : l ∈ s.lines)
    (h : l.CallsOf boostedFunctions) : ∃ x, .boosted x ∈ s.matrixUses := by
  obtain ⟨c, hc, hmem⟩ := h
  refine ⟨c.matrixIn?, List.mem_filterMap.2 ⟨l, hl, ?_⟩⟩
  rw [Line.matrixUse?, hc]
  exact if_pos hmem

/-! ## Jobs -/

namespace Job

open Restoration.Graph

variable {j : Job} {e : Engine}

/-- The doubling passes of a job behind its first. -/
def laterPasses (j : Job) (e : Engine) : List Stage :=
  match j.upscaleFactor.toNat with
  | n + 2 => List.replicate n (j.doubling e false) ++ [j.doubling e true]
  | _ => []

theorem length_laterPasses : (j.laterPasses e).length = j.upscaleFactor.toNat - 1 := by
  unfold laterPasses
  rcases j.upscaleFactor.toNat with _ | _ | n <;> simp

theorem mem_laterPasses {stage : Stage} (h : stage ∈ j.laterPasses e) :
    ∃ last, stage = j.doubling e last := by
  unfold laterPasses at h
  split at h
  · simp only [List.mem_append, List.mem_replicate, List.mem_singleton] at h
    rcases h with ⟨-, rfl⟩ | rfl
    · exact ⟨false, rfl⟩
    · exact ⟨true, rfl⟩
  · cases h

theorem filter_motion : (j.motion e).filter Stage.correctsMatrix = [] := by
  refine List.filter_eq_nil_iff.2 fun stage h => ?_
  rcases mem_motion h with ⟨_, -, rfl⟩ | ⟨_, -, rfl⟩ | ⟨_, -, rfl⟩ <;> exact Bool.noConfusion

/-- A boosted job converts the matrix in its passes, the first of which is some doubling pass. -/
theorem filter_enlarging (h : j.boosts = true) :
    ∃ first, (j.enlarging e).filter Stage.correctsMatrix =
      j.doubling e first :: j.laterPasses e := by
  rw [boosts, Bool.and_eq_true, decide_eq_true_eq] at h
  have hdoubling : ∀ last, (j.doubling e last).correctsMatrix = true := fun _ => h.2
  unfold enlarging laterPasses
  rcases hn : j.upscaleFactor.toNat with _ | _ | n
  · omega
  · exact ⟨true, by simp [hdoubling, filter_motion]⟩
  · exact ⟨false, by simp [hdoubling, filter_motion]⟩

/-- The stages of a plan that convert the matrix. -/
theorem filter_stages : ∃ first, (j.stages e).filter Stage.correctsMatrix =
    if j.boosts then j.doubling e first :: j.laterPasses e
    else if j.traits.colorMatrix = .rec709 then [] else [.correctMatrix j.traits.colorMatrix] := by
  have hback : (Stage.output :: back e).filter Stage.correctsMatrix = [] := by
    refine List.filter_eq_nil_iff.2 fun stage hmem => ?_
    rcases List.mem_cons.1 hmem with rfl | hmem
    · exact Bool.noConfusion
    · simp [(isClosing_of_mem_back e stage hmem).1]
  rw [stages_eq, front, List.filter_append, List.filter_append, hback, List.append_nil, correction_eq]
  cases hboosts : j.boosts
  · have hnone : ∀ stage ∈ j.opening e.preview ++ j.picture e, ¬ stage.correctsMatrix = true :=
      List.any_eq_false.1 ((any_correctsMatrix j e e.preview).trans hboosts)
    refine ⟨true, ?_⟩
    rw [List.filter_eq_nil_iff.2 hnone]
    by_cases hm : j.traits.colorMatrix = .rec709 <;> simp [hm, Stage.correctsMatrix]
  · obtain ⟨first, hfirst⟩ := filter_enlarging (e := e) hboosts
    refine ⟨first, ?_⟩
    have hopening : (j.opening e.preview).filter Stage.correctsMatrix = [] := by
      refine List.filter_eq_nil_iff.2 fun stage hmem => ?_
      rcases mem_opening hmem with ⟨_, rfl⟩ | ⟨_, rfl⟩ | ⟨_, rfl⟩ <;> exact Bool.noConfusion
    have hresizing : j.resizing?.toList.filter Stage.correctsMatrix = [] := by
      unfold resizing?
      split
      · split <;> rfl
      · rfl
    have hpicture : (j.picture e).filter Stage.correctsMatrix =
        (j.enlarging e).filter Stage.correctsMatrix := by
      simp only [picture, List.filter_append, hresizing, List.append_nil]
      cases j.sourceCrop? <;> cases j.denoising <;> cases j.dering <;> cases j.finalCrop? <;>
        simp [Stage.correctsMatrix]
    rw [List.filter_append, hopening, hpicture, hfirst]
    simp

/-- The corrections of a plan: one, unless the boost does it or the source needs none. -/
theorem filter_isCorrection_stages : (j.stages e).filter Stage.isCorrection =
    if j.boosts ∨ j.traits.colorMatrix = .rec709 then []
    else [.correctMatrix j.traits.colorMatrix] := by
  have hsub : (j.stages e).filter Stage.isCorrection =
      ((j.stages e).filter Stage.correctsMatrix).filter Stage.isCorrection := by
    rw [List.filter_filter]
    refine List.filter_congr fun stage _ => ?_
    cases stage <;> simp [Stage.isCorrection, Stage.correctsMatrix]
  obtain ⟨first, hfilter⟩ := filter_stages (j := j) (e := e)
  rw [hsub, hfilter]
  cases j.boosts
  · by_cases hm : j.traits.colorMatrix = .rec709 <;> simp [hm, Stage.isCorrection]
  · refine List.filter_eq_nil_iff.2 fun stage hmem => ?_
    rcases List.mem_cons.1 hmem with rfl | hmem
    · exact Bool.noConfusion
    · obtain ⟨_, rfl⟩ := mem_laterPasses hmem
      exact Bool.noConfusion

theorem correctionsAt_eq_nil {stage : Stage} (h : stage.isCorrection = false) (s : FormatState) :
    correctionsAt s stage = [] := by
  cases stage with
  | correctMatrix m => cases h
  | _ => rfl

/-- The correcting lines of a plan are those of its one correction. -/
theorem along_correctionsAt_stages (s : FormatState) : ∃ t, along correctionsAt s (j.stages e) =
    if j.boosts ∨ j.traits.colorMatrix = .rec709 then []
    else (j.traits.colorMatrix.statements t).lines := by
  have hnone : ∀ stages : List Stage, stages.filter Stage.isCorrection = [] → ∀ s,
      along correctionsAt s stages = [] := by
    intro stages h s
    refine along_eq_nil (fun stage hmem s => correctionsAt_eq_nil ?_ s) s
    exact Bool.eq_false_iff.2 (List.filter_eq_nil_iff.1 h stage hmem)
  have hfilter := filter_isCorrection_stages (j := j) (e := e)
  by_cases hc : j.boosts ∨ j.traits.colorMatrix = .rec709
  · rw [if_pos hc] at hfilter
    refine ⟨s, ?_⟩
    rw [if_pos hc, hnone _ hfilter]
  · rw [if_neg hc] at hfilter
    have hback : (Stage.output :: back e).filter Stage.isCorrection = [] := by
      refine List.filter_eq_nil_iff.2 fun stage hmem => ?_
      rcases List.mem_cons.1 hmem with rfl | hmem
      · exact Bool.noConfusion
      · rcases mem_back hmem with rfl | ⟨_, rfl⟩ <;> exact Bool.noConfusion
    rw [stages_eq, front, correction_eq, if_neg hc] at hfilter ⊢
    have hahead : (j.opening e.preview ++ j.picture e).filter Stage.isCorrection = [] := by
      have hcorrection : Stage.isCorrection (.correctMatrix j.traits.colorMatrix) = true := rfl
      rw [List.filter_append, List.filter_append, hback, List.append_nil,
        List.filter_cons_of_pos hcorrection, List.filter_nil] at hfilter
      exact List.append_cancel_right (hfilter.trans (List.nil_append _).symm)
    refine ⟨(passing s (j.opening e.preview ++ j.picture e)).feed
      (Stage.correctMatrix j.traits.colorMatrix).contract, ?_⟩
    rw [if_neg hc, along_append, along_append, hnone _ hahead, hnone _ hback, along_cons, along_nil,
      List.nil_append, List.append_nil, List.append_nil]
    rfl

/-- What a job does about the matrix. -/
theorem matrixUses_stages :
    matrixUses (FormatState.ofSource j.traits.colorMatrix).pendingMatrix
        ((j.stages e).filter Stage.correctsMatrix) =
      if j.boosts then
        .boosted (some (quoted (Choice.label j.traits.colorMatrix))) ::
          List.replicate (j.upscaleFactor.toNat - 1) (.boosted (some (quoted "Rec709")))
      else if j.traits.colorMatrix = .rec709 then []
      else [.corrected j.traits.colorMatrix] := by
  have hpending : (FormatState.ofSource j.traits.colorMatrix).pendingMatrix.getD .rec709 =
      j.traits.colorMatrix := by
    cases j.traits.colorMatrix <;> rfl
  obtain ⟨first, hfilter⟩ := filter_stages (j := j) (e := e)
  rw [hfilter]
  cases hboosts : j.boosts
  · by_cases hm : j.traits.colorMatrix = .rec709
    · simp [hm, matrixUses]
    · simp [hm, matrixUses, Stage.matrixUses]
  · have hboost : j.boost.isSome = true := by
      rw [boosts, Bool.and_eq_true] at hboosts
      exact hboosts.2
    have hlater : ∀ stage ∈ j.laterPasses e,
        stage.matrixUses none = [.boosted (some (quoted "Rec709"))] := by
      intro stage hmem
      obtain ⟨last, rfl⟩ := mem_laterPasses hmem
      exact if_pos hboost
    have hfirst : ∀ pending : Option ColorMatrix, (j.doubling e first).matrixUses pending =
        [.boosted (some (quoted (Choice.label (pending.getD .rec709))))] := fun _ => if_pos hboost
    have hcorrects : (j.doubling e first).correctsMatrix = true := hboost
    rw [if_pos rfl, if_pos rfl, matrixUses, hfirst, hpending, if_pos hcorrects,
      matrixUses_none hlater, length_laterPasses]
    rfl

theorem correctsMatrix_motionPlan {stage : Stage} (h : stage ∈ j.motionPlan) :
    stage.correctsMatrix = false := by
  rw [motionPlan_eq, List.mem_append, List.mem_singleton] at h
  rcases h with h | rfl
  · rcases mem_motionFront h with h | ⟨_, rfl⟩ | rfl
    · rcases mem_opening h with ⟨_, rfl⟩ | ⟨_, rfl⟩ | ⟨_, rfl⟩ <;> rfl
    · rfl
    · rfl
  · rfl

theorem render_of_compileMotion {s : Script} (h : j.compileMotion e = .ok s) :
    Graph.render (settingOf j e) .rec709 j.motionPlan = .ok s := by
  unfold compileMotion at h
  cases hr : Graph.render (settingOf j e) .rec709 j.motionPlan with
  | error fault =>
    rw [hr] at h
    cases h
  | ok t =>
    rw [hr] at h
    cases h
    rfl

/-- The names of the files that a job puts into its scripts hold no quotes. -/
def PlainNames (j : Job) : Prop :=
  '"' ∉ j.source.text.toList ∧ '"' ∉ (j.path .motionLog).text.toList

theorem PlainNames.file? (h : j.PlainNames) {stage : Stage}
    (hstage : stage ∈ j.stages e ∨ stage ∈ j.motionPlan) :
    ∀ p ∈ stage.file?, '"' ∉ p.text.toList := by
  intro p hp
  have hfile : p = j.source.forEngine ∨ p = (j.path .motionLog).forEngine := by
    rcases hstage with hstage | hstage
    · exact j.file?_of_mem_stages e hstage p hp
    · exact j.file?_of_mem_motionPlan hstage p hp
  rcases hfile with rfl | rfl
  · exact h.1
  · exact h.2

/-- **The colour matrix is converted once.** The first boosted pass converts from the matrix of the
source and all later ones from Rec. 709; a job without boost has one correction from that matrix, and
none if there is nothing to correct. `MatrixIn` stands in boosted passes alone, as far as the names of
files do not spell it; and the motion pass leaves the matrix as it is. -/
theorem matrix_converted_once (j : Job) (e : Engine) :
    (∃ s, j.render e (j.stages e) = .ok s ∧
      j.compile e = (if j.sizesFit then .ok s else .error .sizeOverflow) ∧
      s.matrixUses =
        (if j.boosts then
          .boosted (some (quoted (Choice.label j.traits.colorMatrix))) ::
            List.replicate (j.upscaleFactor.toNat - 1) (.boosted (some (quoted "Rec709")))
        else if j.traits.colorMatrix = .rec709 then []
        else [.corrected j.traits.colorMatrix]) ∧
      (j.stages e).filter Stage.isCorrection =
        (if j.boosts ∨ j.traits.colorMatrix = .rec709 then []
        else [.correctMatrix j.traits.colorMatrix]) ∧
      (∃ t, s.lines.filter Line.isCorrection =
        if j.boosts ∨ j.traits.colorMatrix = .rec709 then []
        else (j.traits.colorMatrix.statements t).lines) ∧
      ∀ l ∈ s.lines, ¬ l.CallsOf namingFunctions ∨ j.PlainNames → l.matrixIn?.isSome →
        j.boosts ∧ l.CallsOf boostedFunctions) ∧
    ∃ s, j.compileMotion e = .ok s ∧ s.matrixUses = [] ∧ s.lines.filter Line.isCorrection = [] ∧
      ∀ l ∈ s.lines, ¬ l.CallsOf namingFunctions ∨ j.PlainNames → l.matrixIn? = none := by
  constructor
  · obtain ⟨s, hs⟩ := render_stages_ok j e
    have huses := (matrixUses_render hs).trans matrixUses_stages
    refine ⟨s, hs, by rw [compile_eq, hs]; rfl, huses, filter_isCorrection_stages, ?_, ?_⟩
    · obtain ⟨t, ht⟩ := along_correctionsAt_stages (.ofSource j.traits.colorMatrix)
      exact ⟨t, (corrections_render hs).trans ht⟩
    · intro l hl hread hmatrix
      have hboosted : l.CallsOf boostedFunctions := by
        by_contra hno
        rw [matrixIn?_render hs (fun hn _ hstage => PlainNames.file? hn (.inl hstage)) l hl hread hno]
          at hmatrix
        cases hmatrix
      refine ⟨?_, hboosted⟩
      obtain ⟨x, hx⟩ := s.boosted_mem_matrixUses hl hboosted
      by_contra hno
      rw [huses, if_neg hno] at hx
      split at hx <;> simp at hx
  · obtain ⟨s, hs⟩ := compileMotion_ok j e
    have hrender := render_of_compileMotion hs
    have hplan : j.motionPlan.filter Stage.correctsMatrix = [] := by
      refine List.filter_eq_nil_iff.2 fun stage hmem => ?_
      simp [correctsMatrix_motionPlan hmem]
    have huses : s.matrixUses = [] := by
      rw [matrixUses_render hrender, hplan]
      rfl
    refine ⟨s, hs, huses, ?_, ?_⟩
    · rw [corrections_render hrender]
      refine along_eq_nil (fun stage hmem s => correctionsAt_eq_nil ?_ s) _
      have hcorrects := correctsMatrix_motionPlan hmem
      cases stage with
      | correctMatrix m => cases hcorrects
      | _ => rfl
    · intro l hl hread
      refine matrixIn?_render hrender (fun hn _ hstage => PlainNames.file? (e := e) hn (.inr hstage)) l hl
        hread fun hboosted => ?_
      obtain ⟨x, hx⟩ := s.boosted_mem_matrixUses hl hboosted
      rw [huses] at hx
      cases hx

end Job

end Restoration
