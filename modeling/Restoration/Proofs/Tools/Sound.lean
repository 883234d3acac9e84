import Restoration.Proofs.Graph.Plan
import Restoration.Tools.Arguments

/-!
# The sound beside the picture

The cut and the speed of a job are decided twice, for the picture by its plan and for the sound by
the arguments of the transcoder. Both leave the cut alone without a frame rate; the speed of the
picture needs a frame rate as well, that of the sound does not:

    -ss, -to   as the plan trims
    atempo     if the speed changes          retime    if the speed changes and the rate is known
-/

namespace Restoration

/-- Arguments read as options, each with its value. -/
def optionsOf : List String → List (String × String)
  | option :: value :: rest => (option, value) :: optionsOf rest
  | _ => []

/-- Do the arguments hold the option, with some value? -/
def Given (option : String) (arguments : List String) : Prop :=
  ∃ value, (option, value) ∈ optionsOf arguments

/-- Do the arguments change the speed of the sound? -/
def GivesTempo (arguments : List String) : Prop :=
  ∃ factor, ("-filter:a", "atempo=" ++ factor) ∈ optionsOf arguments

/-- Does the stage change when a frame is shown? -/
def Stage.timed : Stage → Bool
  | retime _ | trim _ => true
  | _ => false

namespace Job

variable {j : Job} {e : Engine} {stage : Stage}

/-! ## The sound -/

/-- The options that say from where to where the sound is taken. -/
def audioCutOptions (j : Job) : List (String × String) :=
  (j.span.start.map fun seconds => ("-ss", Decimal.plain seconds)).toList ++
    (j.span.stop.map fun seconds => ("-to", Decimal.plain seconds)).toList

/-- The arguments for the sound, option by option. -/
theorem optionsOf_audioArguments (h : j.delivery.audio ≠ .discard) :
    optionsOf j.audioArguments =
      (if j.rate?.isSome then j.audioCutOptions else []) ++
        [("-i", j.source.text), ("-map", "0:v"), ("-map", "1:a?"), ("-c:a", j.audioEncoder)] ++
        (j.speedChange?.map fun speed => ("-filter:a", "atempo=" ++ Decimal.plain speed)).toList := by
  rw [audioArguments, if_neg h, audioCut, audioCutOptions]
  cases j.rate?.isSome <;> cases j.span.start <;> cases j.span.stop <;> cases j.speedChange? <;> rfl

theorem given_start (h : j.delivery.audio ≠ .discard) :
    Given "-ss" j.audioArguments ↔ j.rate?.isSome ∧ j.span.start.isSome := by
  rw [Given, optionsOf_audioArguments h, audioCutOptions]
  cases j.rate?.isSome <;> cases j.span.start <;> simp

theorem given_stop (h : j.delivery.audio ≠ .discard) :
    Given "-to" j.audioArguments ↔ j.rate?.isSome ∧ j.span.stop.isSome := by
  rw [Given, optionsOf_audioArguments h, audioCutOptions]
  cases j.rate?.isSome <;> cases j.span.stop <;> simp

/-- The sound changes its speed with the job, whether or not the frame rate is known. -/
theorem givesTempo_iff (h : j.delivery.audio ≠ .discard) :
    GivesTempo j.audioArguments ↔ j.speedChange?.isSome := by
  rw [GivesTempo, optionsOf_audioArguments h, audioCutOptions]
  cases j.rate?.isSome <;> cases j.speedChange? <;> simp

/-! ## The picture -/

theorem timed_picture (h : stage ∈ j.picture e) : stage.timed = false := by
  rcases mem_picture h with ⟨_, rfl⟩ | ⟨_, -, rfl⟩ | ⟨-, rfl⟩ | h | ⟨_, rfl⟩
  · rfl
  · rfl
  · rfl
  · rcases mem_enlarging h with ⟨-, _, rfl⟩ | h
    · rfl
    · rcases mem_motion h with ⟨_, -, rfl⟩ | ⟨_, -, rfl⟩ | ⟨_, -, rfl⟩ <;> rfl
  · rfl

/-- Only the opening changes the speed or cuts. -/
theorem opening_or_untimed (h : stage ∈ j.stages e) :
    stage ∈ j.opening e.preview ∨ stage.timed = false := by
  simp only [stages_eq, front, List.mem_append, List.mem_cons] at h
  rcases h with ((h | h) | h) | rfl | h
  · exact .inl h
  · exact .inr (timed_picture h)
  · rw [mem_correction h]
    exact .inr rfl
  · exact .inr rfl
  · rcases mem_back h with rfl | ⟨_, rfl⟩ <;> exact .inr rfl

theorem mem_stages_of_timed (htimed : stage.timed = true) :
    stage ∈ j.stages e ↔ stage ∈ j.opening e.preview := by
  refine ⟨fun h => (opening_or_untimed h).resolve_right (by rw [htimed]; decide), fun h => ?_⟩
  rw [stages_eq, front, List.append_assoc, List.append_assoc]
  exact List.mem_append_left _ h

theorem retime_mem_stages {rate : FrameRate} :
    Stage.retime rate ∈ j.stages e ↔ j.retiming? = some rate := by
  rw [mem_stages_of_timed rfl]
  simp [opening]

theorem trim_mem_stages {cut : FrameCut} :
    Stage.trim cut ∈ j.stages e ↔ j.cut? e.preview = some cut := by
  rw [mem_stages_of_timed rfl]
  simp [opening]

/-- The picture changes its speed with the job if the frame rate is known. -/
theorem retimes_iff :
    (∃ rate, Stage.retime rate ∈ j.stages e) ↔ j.rate?.isSome ∧ j.speedChange?.isSome := by
  simp only [retime_mem_stages, retiming?]
  cases j.rate? <;> cases j.speedChange? <;> simp

/-- Outside of a preview the picture is cut if the frame rate is known and a part is asked for. -/
theorem trims_iff (hpreview : e.preview = false) :
    (∃ cut, Stage.trim cut ∈ j.stages e) ↔
      j.rate?.isSome ∧ (j.span.start.isSome ∨ j.span.stop.isSome) := by
  simp only [trim_mem_stages, cut?, hpreview]
  cases j.rate? <;> cases j.span.start <;> cases j.span.stop <;> simp

theorem trims_last_iff (hpreview : e.preview = false) :
    (∃ cut, Stage.trim cut ∈ j.stages e ∧ cut.last.isSome) ↔
      j.rate?.isSome ∧ j.span.stop.isSome := by
  simp only [trim_mem_stages, cut?, hpreview]
  cases j.rate? <;> cases j.span.start <;> cases j.span.stop <;> simp

/-! ## Sound and picture -/

/-- The sound is cut as the picture is. Its speed follows the picture exactly if no speed is asked
for where the frame rate is unknown. -/
theorem sound_follows (j : Job) (e : Engine) (haudio : j.delivery.audio ≠ .discard)
    (hpreview : e.preview = false) :
    ((GivesTempo j.audioArguments ↔ ∃ rate, Stage.retime rate ∈ j.stages e) ↔
        (j.speedChange?.isSome → j.rate?.isSome)) ∧
      (Given "-ss" j.audioArguments ↔
        (∃ cut, Stage.trim cut ∈ j.stages e) ∧ j.span.start.isSome) ∧
      (Given "-to" j.audioArguments ↔ ∃ cut, Stage.trim cut ∈ j.stages e ∧ cut.last.isSome) := by
  rw [givesTempo_iff haudio, retimes_iff, given_start haudio, trims_iff hpreview, given_stop haudio,
    trims_last_iff hpreview]
  refine ⟨?_, ?_, Iff.rfl⟩
  · rw [iff_and_self]
  · rw [and_assoc]
    exact and_congr_right fun _ => ⟨fun h => ⟨.inl h, h⟩, And.right⟩

/-- A clip to be played a little faster. -/
def spedUp (rate : Option Float) : Job where
  source := ⟨"/media/clip.mkv"⟩
  directory := ⟨"/jobs"⟩
  index := 1
  traits := { frameRate := rate }
  speed := some 1.04

theorem sound_follows_known_rate :
    (GivesTempo (spedUp (some 25.0)).audioArguments ↔
      ∃ rate, Stage.retime rate ∈ (spedUp (some 25.0)).stages {}) :=
  (sound_follows (spedUp (some 25.0)) {} (by decide) rfl).1.2 fun _ => by decide

/-- Without a frame rate the sound is sped up and the picture is not. -/
theorem sound_runs_ahead :
    (spedUp none).delivery.audio ≠ .discard ∧ GivesTempo (spedUp none).audioArguments ∧
      ¬ ∃ rate, Stage.retime rate ∈ (spedUp none).stages {} := by
  refine ⟨by decide, ?_, ?_⟩
  · rw [givesTempo_iff (by decide)]
    decide
  · rw [retimes_iff]
    decide

end Job

end Restoration
