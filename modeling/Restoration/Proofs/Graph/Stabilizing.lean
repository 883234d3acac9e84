import Restoration.Proofs.Graph.Precedence

/-!
# The frames that the stabilizer sees

The stabilizer runs twice: a pass of its own writes the motion log, and the plan reads it. The log
tells the motion of a frame by its number, so both have to come to the same frames. Ahead of the
stabilizer they take the same part of the source at the same rate, and whatever else the plan does
there works on the picture of a frame and leaves the frame in its place:

    shown play (unsteady (j.stages e)) = shown play (unsteady j.motionPlan)    unless j.previewsUncut e

Only a preview that is not cut, for its job has a start without an end, comes to other frames.
-/

namespace Restoration

/-! ## Frames along a graph -/

/-- Frames in the order in which they are shown: the number in the source of each, and their rate. -/
structure Footage where
  frames : List Nat
  /-- How many frames are shown in a second, unless the source tells. -/
  rate : Option FrameRate
  deriving DecidableEq, Repr

/-- The frames that a cut keeps, one at least. -/
def FrameCut.keep (cut : FrameCut) (frames : List Nat) : List Nat :=
  match cut.last with
  | some last => (frames.drop cut.first).take (last - cut.first + 1)
  | none => frames.drop cut.first

namespace Stage

/-- Does the stage say what part of the source is shown, and at what rate? -/
def selects : Stage → Bool
  | source .. | retime _ | trim _ | crop _ => true
  | _ => false

/-- Does the stage work on the picture and leave every frame in its place? -/
def worksInPlace : Stage → Bool
  | denoise .. | dering | upscale _ | degrain _ => true
  | _ => false

/-- Does the stage cut the footage? -/
def isTrim : Stage → Bool
  | trim _ => true
  | _ => false

/-- Is it the stabilizer? -/
def isDeshake : Stage → Bool
  | deshake _ => true
  | _ => false

theorem isDeshake_of_selects {stage : Stage} (h : stage.selects ∨ stage.worksInPlace) :
    stage.isDeshake = false := by
  cases stage with
  | deshake => simp [selects, worksInPlace] at h
  | _ => rfl

/-- What the stage makes of footage, for a source of `count` frames. What interpolation makes is told
by `blend`. -/
def play (count : Nat) (blend : InterpolatedRate → Footage → Footage) (stage : Stage)
    (footage : Footage) : Footage :=
  match stage with
  | source _ rate => ⟨List.range count, rate⟩
  | retime rate => { footage with rate := some rate }
  | trim cut => { footage with frames := cut.keep footage.frames }
  | interpolate rate _ _ => blend rate footage
  | _ => footage

end Stage

/-- The stages ahead of the stabilizer. -/
def unsteady (stages : List Stage) : List Stage := stages.takeWhile (!·.isDeshake)

/-- What some stages show, played by the filters of an engine one after the other. -/
def shown (play : Stage → Footage → Footage) (stages : List Stage) : Footage :=
  stages.foldl (fun footage stage => play stage footage) ⟨[], none⟩

/-- No filter that works on the picture adds, drops, reorders or retimes frames. -/
def KeepsFrames (play : Stage → Footage → Footage) : Prop :=
  ∀ stage footage, stage.worksInPlace = true → play stage footage = footage

section Playing

variable {play : Stage → Footage → Footage} {stages rest : List Stage} {run : Deshaking}

theorem keepsFrames_play (count : Nat) (blend : InterpolatedRate → Footage → Footage) :
    KeepsFrames (Stage.play count blend) := by
  intro stage footage h
  cases stage with
  | denoise | dering | upscale | degrain => rfl
  | _ => cases h

theorem foldl_play_filter (hplay : KeepsFrames play)
    (hstages : ∀ stage ∈ stages, stage.selects ∨ stage.worksInPlace) (footage : Footage) :
    stages.foldl (fun footage stage => play stage footage) footage =
      (stages.filter Stage.selects).foldl (fun footage stage => play stage footage) footage := by
  induction stages generalizing footage with
  | nil => rfl
  | cons stage stages ih =>
    have hrest := ih fun other hother => hstages other (List.mem_cons_of_mem _ hother)
    rw [List.foldl_cons, hrest, List.filter_cons]
    split
    · rfl
    · next hselects =>
      rw [hplay stage footage ((hstages stage List.mem_cons_self).resolve_left hselects)]

/-- Filters that leave the frames in their places do not show in the footage. -/
theorem shown_filter (hplay : KeepsFrames play)
    (hstages : ∀ stage ∈ stages, stage.selects ∨ stage.worksInPlace) :
    shown play stages = shown play (stages.filter Stage.selects) :=
  foldl_play_filter hplay hstages _

theorem unsteady_append (h : ∀ stage ∈ stages, stage.isDeshake = false) :
    unsteady (stages ++ .deshake run :: rest) = stages := by
  rw [unsteady, List.takeWhile_append_of_pos (by simpa using h), List.takeWhile_cons_of_neg (by
    simp [Stage.isDeshake]), List.append_nil]

end Playing

namespace Job

variable {j : Job} {e : Engine} {stage : Stage} {options : Stabilization}

/-! ## Around the stabilizer -/

/-- A preview that is not cut although the job has a start. -/
def previewsUncut (j : Job) (e : Engine) : Prop :=
  e.preview = true ∧ j.rate?.isSome ∧ j.span.start.isSome ∧ j.span.stop = none

instance (j : Job) (e : Engine) : Decidable (j.previewsUncut e) :=
  inferInstanceAs (Decidable (_ ∧ _ ∧ _ ∧ _))

/-- The first doubling pass, if there is one. -/
def firstPass (j : Job) (e : Engine) : List Stage :=
  match j.upscaleFactor.toNat with
  | 0 => []
  | n + 1 => [j.doubling e (n = 0)]

/-- What the plan does ahead of the stabilizer besides selecting frames. -/
def touchUps (j : Job) (e : Engine) : List Stage :=
  (j.denoising.map fun d => .denoise d e.gpu j.boosts).toList ++
    (if j.dering then [.dering] else []) ++ j.firstPass e ++ (j.degraining.map .degrain).toList

/-- What the plan does behind the stabilizer. -/
def steadied (j : Job) (e : Engine) : List Stage :=
  (j.interpolation.map fun i => .interpolate (Interpolation.rate i) e.threads e.gpu).toList ++
    j.laterPasses e ++ j.ending e

/-- The part of the source that is analysed. -/
def analysed (j : Job) (preview : Bool) : List Stage :=
  j.opening preview ++ (j.sourceCrop?.map .crop).toList

theorem enlarging_eq_passes (j : Job) (e : Engine) :
    j.enlarging e = j.firstPass e ++ j.motion e ++ j.laterPasses e := by
  rw [enlarging_eq]
  unfold firstPass laterPasses
  rcases j.upscaleFactor.toNat with _ | n
  · exact (List.append_nil _).symm
  · rfl

theorem stages_eq_around (h : j.stabilization = some options) :
    j.stages e = (j.analysed e.preview ++ j.touchUps e) ++
      .deshake (j.deshaking .stabilize options) :: j.steadied e := by
  rw [stages_eq_parts, enlarging_eq_passes, beginning, motion, h]
  simp only [analysed, touchUps, steadied, Option.map_some, Option.toList_some, List.append_assoc,
    List.cons_append, List.nil_append]

theorem motionPlan_eq_around (h : j.stabilization = some options) :
    j.motionPlan = j.analysed false ++ .deshake (j.deshaking .analyze options) :: [.output] := by
  rw [motionPlan, h]
  simp only [analysed, Option.getD_some, List.append_assoc]

theorem selects_of_mem_analysed {preview : Bool} (h : stage ∈ j.analysed preview) :
    stage.selects = true := by
  rcases List.mem_append.1 h with h | h
  · rcases mem_opening h with ⟨_, rfl⟩ | ⟨_, rfl⟩ | ⟨_, rfl⟩ <;> rfl
  · obtain ⟨m, -, rfl⟩ := Option.map_eq_some_iff.1 (Option.mem_toList.1 h)
    rfl

theorem mem_touchUps (h : stage ∈ j.touchUps e) : stage.worksInPlace = true := by
  simp only [touchUps, List.mem_append, Option.mem_toList, Option.map_eq_some_iff,
    List.mem_ite_nil_right, List.mem_singleton] at h
  rcases h with ((⟨d, -, rfl⟩ | ⟨-, rfl⟩) | h) | ⟨d, -, rfl⟩
  · rfl
  · rfl
  · unfold firstPass at h
    split at h
    · cases h
    · cases List.mem_singleton.1 h
      rfl
  · rfl

theorem mem_steadied (h : stage ∈ j.steadied e) : stage.isDeshake = false := by
  rcases List.mem_append.1 h with h | h
  · rcases List.mem_append.1 h with h | h
    · obtain ⟨i, -, rfl⟩ := Option.map_eq_some_iff.1 (Option.mem_toList.1 h)
      rfl
    · obtain ⟨last, rfl⟩ := mem_laterPasses h
      rfl
  · rcases mem_ending.1 h with ⟨_, -, rfl⟩ | ⟨_, _, -, rfl⟩ | ⟨-, rfl⟩ | rfl | ⟨-, rfl⟩ | ⟨-, rfl⟩ <;>
      rfl

/-! ## Both passes -/

/-- A preview gives up the cut of a job that has no end, and any other script makes it. -/
theorem cut?_of_previewsUncut (h : j.previewsUncut e) : j.cut? e.preview = none := by
  obtain ⟨hpreview, -, -, hstop⟩ := h
  rw [cut?, hpreview, hstop]
  cases j.rate? <;> simp

theorem cut?_of_not_previewsUncut (h : ¬ j.previewsUncut e) : j.cut? e.preview = j.cut? false := by
  unfold cut?
  cases hrate : j.rate? with
  | none => rfl
  | some fps =>
    cases hstop : j.span.stop with
    | some stop => simp only [Option.isNone_some, Bool.and_false]
    | none =>
      cases hstart : j.span.start with
      | none => rfl
      | some start =>
        -- a start that has no end is all that a preview gives up
        have hpreview : e.preview = false := Bool.eq_false_iff.2 fun hpreview =>
          h ⟨hpreview, by rw [hrate]; rfl, by rw [hstart]; rfl, hstop⟩
        rw [hpreview]

theorem isSome_cut_of_previewsUncut (h : j.previewsUncut e) : (j.cut? false).isSome := by
  obtain ⟨-, hrate, hstart, -⟩ := h
  obtain ⟨fps, hfps⟩ := Option.isSome_iff_exists.1 hrate
  exact (isSome_cut false).2 ⟨⟨fps, (rate_eq_some fps).1 hfps⟩, .inl hstart, fun h => nomatch h⟩

theorem analysed_eq (h : ¬ j.previewsUncut e) : j.analysed e.preview = j.analysed false := by
  rw [analysed, opening, cut?_of_not_previewsUncut h]
  rfl

theorem analysed_uncut (h : j.previewsUncut e) :
    j.analysed e.preview = (j.analysed false).filter (!·.isTrim) := by
  rw [analysed, opening, cut?_of_previewsUncut h, analysed, opening]
  cases j.retiming? <;> cases j.cut? false <;> cases j.sourceCrop? <;> rfl

/-- The plan ahead of the stabilizer. -/
theorem unsteady_stages (h : j.stabilization = some options) :
    unsteady (j.stages e) = j.analysed e.preview ++ j.touchUps e := by
  rw [stages_eq_around h]
  refine unsteady_append fun stage hstage => Stage.isDeshake_of_selects ?_
  exact (List.mem_append.1 hstage).imp selects_of_mem_analysed mem_touchUps

theorem unsteady_motionPlan (h : j.stabilization = some options) :
    unsteady j.motionPlan = j.analysed false := by
  rw [motionPlan_eq_around h]
  exact unsteady_append fun stage hstage =>
    Stage.isDeshake_of_selects (.inl (selects_of_mem_analysed hstage))

theorem filter_selects_stages (h : j.stabilization = some options) :
    (unsteady (j.stages e)).filter Stage.selects = j.analysed e.preview := by
  have htouchUps : (j.touchUps e).filter Stage.selects = [] := by
    refine List.filter_eq_nil_iff.2 fun stage hstage hselects => ?_
    have hworks := mem_touchUps hstage
    cases stage <;> cases hworks <;> cases hselects
  rw [unsteady_stages h, List.filter_append, htouchUps, List.append_nil]
  exact List.filter_eq_self.2 fun stage hstage => selects_of_mem_analysed hstage

/-- **The stabilizer sees the frames that were analysed.** Ahead of it the plan selects as the pass that
writes the log, and whatever it does besides leaves the frames in their places; so whatever an engine
makes of the selecting stages, frame `i` is the same in both. Only the preview of a job with a start
and no end differs: it leaves out the cut that the log was written behind. -/
theorem stabilizer_sees_analysed_frames (e : Engine) (h : j.stabilization = some options) :
    (∃ behind, j.stages e = unsteady (j.stages e) ++ .deshake (j.deshaking .stabilize options) :: behind ∧
      ∀ stage ∈ behind, stage.isDeshake = false) ∧
    j.motionPlan = unsteady j.motionPlan ++ .deshake (j.deshaking .analyze options) :: [.output] ∧
    (∀ stage ∈ unsteady (j.stages e), stage.selects ∨ stage.worksInPlace) ∧
    if j.previewsUncut e then
      (∃ cut, .trim cut ∈ unsteady j.motionPlan) ∧
        (unsteady (j.stages e)).filter Stage.selects = (unsteady j.motionPlan).filter (!·.isTrim)
    else
      (unsteady (j.stages e)).filter Stage.selects = unsteady j.motionPlan ∧
        ∀ play, KeepsFrames play →
          shown play (unsteady (j.stages e)) = shown play (unsteady j.motionPlan) := by
  have hplan : unsteady (j.stages e) = j.analysed e.preview ++ j.touchUps e := unsteady_stages h
  have hmotion : unsteady j.motionPlan = j.analysed false := unsteady_motionPlan h
  have hfilter : (unsteady (j.stages e)).filter Stage.selects = j.analysed e.preview :=
    filter_selects_stages h
  have hplaces : ∀ stage ∈ unsteady (j.stages e), stage.selects ∨ stage.worksInPlace := by
    intro stage hstage
    rw [hplan] at hstage
    exact (List.mem_append.1 hstage).imp selects_of_mem_analysed mem_touchUps
  refine ⟨⟨j.steadied e, ?_, fun stage => mem_steadied⟩, ?_, hplaces, ?_⟩
  · rw [hplan]
    exact stages_eq_around h
  · rw [hmotion]
    exact motionPlan_eq_around h
  · split
    · next huncut =>
      obtain ⟨cut, hcut⟩ := Option.isSome_iff_exists.1 (isSome_cut_of_previewsUncut huncut)
      rw [hfilter, hmotion]
      exact ⟨⟨cut, by simp [analysed, opening, hcut]⟩, analysed_uncut huncut⟩
    · next hcut =>
      rw [hfilter, hmotion]
      refine ⟨analysed_eq hcut, fun play hplay => ?_⟩
      rw [shown_filter hplay hplaces, hfilter, analysed_eq hcut]

/-- A sped up part of a clip with every filter there is, in a preview. -/
def shaken : Job where
  source := ⟨"/media/clip.mkv"⟩
  directory := ⟨"/jobs"⟩
  index := 1
  traits := { frameRate := some 25.0 }
  speed := some 1.04
  span := { start := some 2.0, stop := some 3.0 }
  cropSource := some { top := 8, bottom := 8 }
  denoising := some {}
  dering := true
  upscaleFactor := 2
  degraining := some {}
  stabilization := some {}
  interpolation := some (.multiply 2)

theorem stabilizer_sees_analysed_frames_shaken :
    let e : Engine := { preview := true }
    let play := Stage.play 100 fun _ footage => footage
    shaken.stabilization = some {} ∧ ¬ shaken.previewsUncut e ∧
      shown play (unsteady (shaken.stages e)) = shown play (unsteady shaken.motionPlan) ∧
      shown play (unsteady shaken.motionPlan) = ⟨List.range' 50 26, some ⟨26, 1⟩⟩ := by
  intro e play
  have hcut : ¬ shaken.previewsUncut e := by decide
  have hsees := (stabilizer_sees_analysed_frames (j := shaken) e rfl).2.2.2
  rw [if_neg hcut] at hsees
  exact ⟨rfl, hcut, hsees.2 play (keepsFrames_play 100 _), by decide +kernel⟩

/-- Without an end, the preview shows frame 0 where frame 50 was analysed. -/
theorem uncut_preview_shifts_frames :
    let j : Job := { shaken with span := { start := some 2.0 } }
    let e : Engine := { preview := true }
    let play := Stage.play 100 fun _ footage => footage
    j.stabilization = some {} ∧ j.cut? false = some ⟨50, none, false⟩ ∧
      (unsteady (j.stages e)).any Stage.isTrim = false ∧ (unsteady j.motionPlan).any Stage.isTrim ∧
      (shown play (unsteady (j.stages e))).frames[0]? = some 0 ∧
      (shown play (unsteady j.motionPlan)).frames[0]? = some 50 := by
  decide +kernel

end Job

end Restoration
