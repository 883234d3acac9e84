import Restoration.Graph.Plan

/-!
# What a plan is made of

Each part of a plan holds only certain stages, whatever the job asks for. A plan has one output, and
only prefetching and the frame of a preview follow it:

    j.stages e = j.front e ++ .output :: back e
-/

namespace Restoration

/-- Does the stage ask for extended samples? -/
def Stage.asksDepth (stage : Stage) : Bool :=
  match stage.contract with
  | .prefersExtended _ => true
  | _ => false

namespace Job

variable {j : Job} {e : Engine} {stage : Stage}

/-- The stages ahead of the output. -/
def front (j : Job) (e : Engine) : List Stage :=
  j.opening e.preview ++ j.picture e ++ j.correction (j.opening e.preview ++ j.picture e)

/-- The stages behind the output. -/
def back (e : Engine) : List Stage :=
  (if e.preview then [.preview] else []) ++ (if 1 < e.threads then [.prefetch e.threads] else [])

theorem stages_eq (j : Job) (e : Engine) : j.stages e = j.front e ++ .output :: back e := by
  simp only [stages, front, back, List.append_assoc, List.cons_append, List.nil_append]

/-- The stages of the motion pass ahead of its output. -/
def motionFront (j : Job) : List Stage :=
  j.opening false ++ (j.sourceCrop?.map .crop).toList ++
    [.deshake (j.deshaking .analyze (j.stabilization.getD {}))]

theorem motionPlan_eq (j : Job) : j.motionPlan = j.motionFront ++ [.output] := by
  simp only [motionPlan, motionFront, List.append_assoc, List.cons_append, List.nil_append]

/-! ## Parts -/

theorem mem_opening {preview : Bool} (h : stage ∈ j.opening preview) :
    (∃ rate, stage = .source j.source rate) ∨ (∃ rate, stage = .retime rate) ∨
      ∃ cut, stage = .trim cut := by
  simp only [opening, List.mem_append, List.mem_singleton, Option.mem_toList,
    Option.map_eq_some_iff] at h
  rcases h with (rfl | ⟨rate, -, rfl⟩) | ⟨cut, -, rfl⟩
  · exact .inl ⟨_, rfl⟩
  · exact .inr (.inl ⟨rate, rfl⟩)
  · exact .inr (.inr ⟨cut, rfl⟩)

theorem mem_motion (h : stage ∈ j.motion e) :
    (∃ o, j.degraining = some o ∧ stage = .degrain o) ∨
      (∃ o, j.stabilization = some o ∧ stage = .deshake (j.deshaking .stabilize o)) ∨
      ∃ i, j.interpolation = some i ∧
        stage = .interpolate (Interpolation.rate i) e.threads e.gpu := by
  simp only [motion, List.mem_append, Option.mem_toList, Option.map_eq_some_iff] at h
  rcases h with (⟨o, ho, rfl⟩ | ⟨o, ho, rfl⟩) | ⟨i, hi, rfl⟩
  · exact .inl ⟨o, ho, rfl⟩
  · exact .inr (.inl ⟨o, ho, rfl⟩)
  · exact .inr (.inr ⟨i, hi, rfl⟩)

theorem mem_enlarging (h : stage ∈ j.enlarging e) :
    (0 < j.upscaleFactor.toNat ∧ ∃ last, stage = j.doubling e last) ∨ stage ∈ j.motion e := by
  unfold enlarging at h
  split at h
  · exact .inr h
  · rename_i hfactor
    rw [hfactor]
    rcases List.mem_cons.1 h with rfl | h
    · exact .inl ⟨by omega, true, rfl⟩
    · exact .inr h
  · rename_i n hfactor
    rw [hfactor]
    simp only [List.mem_cons, List.mem_append, List.mem_replicate, List.not_mem_nil, or_false] at h
    rcases h with ((rfl | h) | ⟨-, rfl⟩) | rfl
    · exact .inl ⟨by omega, false, rfl⟩
    · exact .inr h
    · exact .inl ⟨by omega, false, rfl⟩
    · exact .inl ⟨by omega, true, rfl⟩

theorem mem_picture (h : stage ∈ j.picture e) :
    (∃ m, stage = .crop m) ∨ (∃ d, j.denoising = some d ∧ stage = .denoise d e.gpu j.boosts) ∨
      (j.dering = true ∧ stage = .dering) ∨ stage ∈ j.enlarging e ∨
      ∃ size, stage = .resize size j.downscaler := by
  simp only [picture, List.mem_append, Option.mem_toList, Option.map_eq_some_iff] at h
  rcases h with ((((⟨m, -, rfl⟩ | ⟨d, hd, rfl⟩) | h) | h) | ⟨m, -, rfl⟩) | h
  · exact .inl ⟨m, rfl⟩
  · exact .inr (.inl ⟨d, hd, rfl⟩)
  · split at h
    · exact .inr (.inr (.inl ⟨‹_›, List.mem_singleton.1 h⟩))
    · cases h
  · exact .inr (.inr (.inr (.inl h)))
  · exact .inl ⟨m, rfl⟩
  · unfold resizing? at h
    split at h
    · split at h
      · cases h
      · cases h
        exact .inr (.inr (.inr (.inr ⟨_, rfl⟩)))
    · cases h

theorem mem_correction {stages : List Stage} (h : stage ∈ j.correction stages) :
    stage = .correctMatrix j.traits.colorMatrix := by
  unfold correction at h
  split at h
  · exact List.mem_singleton.1 h
  · cases h

theorem mem_back (h : stage ∈ back e) : stage = .preview ∨ ∃ n, stage = .prefetch n := by
  unfold back at h
  rcases List.mem_append.1 h with h | h
  · split at h
    · exact .inl (List.mem_singleton.1 h)
    · cases h
  · split at h
    · exact .inr ⟨_, List.mem_singleton.1 h⟩
    · cases h

theorem mem_motionFront (h : stage ∈ j.motionFront) :
    stage ∈ j.opening false ∨ (∃ m, stage = .crop m) ∨
      stage = .deshake (j.deshaking .analyze (j.stabilization.getD {})) := by
  simp only [motionFront, List.mem_append, List.mem_singleton, Option.mem_toList,
    Option.map_eq_some_iff] at h
  rcases h with (h | ⟨m, -, rfl⟩) | rfl
  · exact .inl h
  · exact .inr (.inl ⟨m, rfl⟩)
  · exact .inr (.inr rfl)

/-! ## Boost -/

/-- Whether some stage of the enlarging part is of a kind that exactly the boosted passes are of. -/
theorem any_enlarging {p : Stage → Bool} (hp : ∀ last, p (j.doubling e last) = j.boost.isSome) :
    (j.enlarging e).any p = (j.boosts || (j.motion e).any p) := by
  unfold enlarging boosts
  rcases j.upscaleFactor.toNat with _ | _ | n
  · simp
  · simp [hp]
  · cases hboost : j.boost.isSome <;> simp [hp, hboost]

theorem any_motion {p : Stage → Bool} (hdeshake : ∀ run, p (.deshake run) = false)
    (hinterpolate : ∀ rate n gpu, p (.interpolate rate n gpu) = false) :
    (j.motion e).any p = j.degraining.any fun options => p (.degrain options) := by
  unfold motion
  cases j.degraining <;> cases j.stabilization <;> cases j.interpolation <;>
    simp [hdeshake, hinterpolate]

/-- Whether some stage ahead of the correction is of a kind that exactly the boosted passes and some
of the stages that ask for depth are of. -/
theorem any_ahead {p : Stage → Bool} (hp : ∀ last, p (j.doubling e last) = j.boost.isSome)
    (honly : ∀ stage, stage.asksDepth = false → stage.correctsMatrix = false → p stage = false)
    (preview : Bool) : (j.opening preview ++ j.picture e).any p =
      ((j.denoising.any fun d => p (.denoise d e.gpu j.boosts)) || (j.dering && p .dering) ||
        j.boosts || j.degraining.any fun d => p (.degrain d)) := by
  have hopening : (j.opening preview).any p = false := by
    refine List.any_eq_false.2 fun stage h => Bool.not_eq_true _ ▸ honly stage ?_ ?_
    all_goals rcases mem_opening h with ⟨_, rfl⟩ | ⟨_, rfl⟩ | ⟨_, rfl⟩ <;> rfl
  have hcrop : ∀ m, p (.crop m) = false := fun m => honly _ rfl rfl
  have hresizing : j.resizing?.toList.any p = false := by
    unfold resizing?
    split
    · split
      · rfl
      · rw [Option.toList_some, List.any_cons, List.any_nil, Bool.or_false]
        refine honly _ ?_ rfl
        cases j.downscaler <;> rfl
    · rfl
  have hmotion := @any_motion j e p (fun run => honly _ rfl rfl)
    (fun rate n gpu => honly _ rfl rfl)
  rw [List.any_append, hopening, picture]
  simp only [List.any_append, any_enlarging hp, hmotion, hresizing]
  cases j.sourceCrop? <;> cases j.denoising <;> cases j.dering <;> cases j.finalCrop? <;>
    simp [hcrop, Bool.or_assoc]

/-- Ahead of the correction, only a boosted job converts the colour matrix. -/
theorem any_correctsMatrix (j : Job) (e : Engine) (preview : Bool) :
    (j.opening preview ++ j.picture e).any Stage.correctsMatrix = j.boosts := by
  rw [any_ahead (fun _ => rfl) (fun _ _ h => h)]
  cases j.denoising <;> cases j.degraining <;> simp [Stage.correctsMatrix]

/-- A boosted job needs no correction, any other one if its source is not Rec. 709. -/
theorem correction_eq (j : Job) (e : Engine) (preview : Bool) :
    j.correction (j.opening preview ++ j.picture e) =
      if j.boosts ∨ j.traits.colorMatrix = .rec709 then []
      else [.correctMatrix j.traits.colorMatrix] := by
  rw [correction, any_correctsMatrix]
  by_cases hm : j.traits.colorMatrix = .rec709
  · simp [hm]
  · cases hb : j.boosts <;> simp [hm]

/-! ## One output -/

theorem output_not_mem_opening (j : Job) (preview : Bool) : Stage.output ∉ j.opening preview := by
  intro h
  rcases mem_opening h with ⟨_, h⟩ | ⟨_, h⟩ | ⟨_, h⟩ <;> cases h

theorem output_not_mem_enlarging (j : Job) (e : Engine) : Stage.output ∉ j.enlarging e := by
  intro h
  rcases mem_enlarging h with ⟨-, _, h⟩ | h
  · cases h
  · rcases mem_motion h with ⟨_, -, h⟩ | ⟨_, -, h⟩ | ⟨_, -, h⟩ <;> cases h

theorem output_not_mem_front (j : Job) (e : Engine) : Stage.output ∉ j.front e := by
  intro h
  rcases List.mem_append.1 h with h | h
  · rcases List.mem_append.1 h with h | h
    · exact output_not_mem_opening j _ h
    · rcases mem_picture h with ⟨_, h⟩ | ⟨_, -, h⟩ | ⟨-, h⟩ | h | ⟨_, h⟩
      · cases h
      · cases h
      · cases h
      · exact output_not_mem_enlarging j e h
      · cases h
  · cases mem_correction h

theorem output_not_mem_back (e : Engine) : Stage.output ∉ back e := by
  intro h
  rcases mem_back h with h | ⟨_, h⟩ <;> cases h

theorem output_not_mem_motionFront (j : Job) : Stage.output ∉ j.motionFront := by
  intro h
  rcases mem_motionFront h with h | ⟨_, h⟩ | h
  · exact output_not_mem_opening j _ h
  · cases h
  · cases h

end Job

end Restoration
