import Restoration.Proofs.Graph.Matrix
import Restoration.Proofs.Job.FrameSize
import Mathlib.Computability.RegularExpressions

/-!
# The precedence of stages

Filters rely on what others did before them, so the names of a plan spell a word of a fixed regular
expression:

    Source Retime? Trim? Crop? Denoise? Dering? U Crop? Resize? ColorMatrixFix?
      Output Preview? Prefetch?

Which of the optional names stand in the word is told by the settings alone. The target is scaled to
in one place: by the last doubling pass if it can, by a stage of its own otherwise.
-/

namespace Restoration

/-! ## Words -/

namespace Precedence

open RegularExpression

/-- A stage that only some jobs ask for. -/
def optional (name : String) : RegularExpression String := 1 + char name

/-- What stands ahead of the doubling passes. -/
def beginning : RegularExpression String :=
  char "Source" * optional "Retime" * optional "Trim" * optional "Crop" * optional "Denoise" *
    optional "Dering"

/-- The filters that look at several frames. -/
def motion : RegularExpression String :=
  optional "Degrain" * optional "Deshake" * optional "Interpolate"

/-- The doubling passes, the filters of motion behind the first of them. -/
def enlarging : Nat → RegularExpression String
  | 0 => motion
  | n + 1 => char "Upscale" * motion * char "Upscale" ^ n

/-- What stands behind the doubling passes. -/
def ending : RegularExpression String :=
  optional "Crop" * optional "Resize" * optional "ColorMatrixFix" * char "Output" *
    optional "Preview" * optional "Prefetch"

end Precedence

/-- Do the names of the stages form a word of the expression? -/
def Stage.Spell (stages : List Stage) (words : RegularExpression String) : Prop :=
  stages.map Stage.name ∈ words.matches'

namespace Stage.Spell

open RegularExpression

variable {stages rest : List Stage} {P Q : RegularExpression String} {name : String}

theorem append (h : Spell stages P) (hrest : Spell rest Q) : Spell (stages ++ rest) (P * Q) := by
  unfold Spell
  rw [List.map_append, matches'_mul]
  exact Language.append_mem_mul h hrest

theorem single {stage : Stage} (h : stage.name = name) : Spell [stage] (char name) := by
  rw [Spell, List.map_singleton, h, matches'_char]
  exact Set.mem_singleton _

theorem optional (hname : ∀ stage ∈ stages, stage.name = name) (hlength : stages.length ≤ 1) :
    Spell stages (Precedence.optional name) := by
  rw [Spell, Precedence.optional, matches'_add, Language.mem_add]
  match stages, hlength with
  | [], _ => exact .inl Language.nil_mem_one
  | [stage], _ => exact .inr (single (hname stage List.mem_cons_self))

theorem pow (h : ∀ stage ∈ stages, stage.name = name) :
    Spell stages (char name ^ stages.length) := by
  induction stages with
  | nil => exact Language.nil_mem_one
  | cons stage rest ih =>
    have hrest := ih fun other hother => h other (List.mem_cons_of_mem _ hother)
    have hstage : Spell [stage] (char name) := single (h stage List.mem_cons_self)
    unfold Spell at *
    rw [List.length_cons, matches'_pow, pow_succ', ← matches'_pow]
    exact Language.append_mem_mul hstage hrest

end Stage.Spell

/-! ## Settings and stages -/

/-- The doubling pass that the stage is, if it is one. -/
def Stage.pass? : Stage → Option Upscaling
  | upscale pass => some pass
  | _ => none

/-- The doubling passes among the stages, in their order. -/
def Stage.passes (stages : List Stage) : List Upscaling := stages.filterMap pass?

/-- The size that the stage scales to, if it scales to one. -/
def Stage.target? : Stage → Option FrameSize
  | upscale pass => pass.finalResize.map FinalResize.size
  | resize size _ => some size
  | _ => none

namespace Job

variable {j : Job} {e : Engine} {stage : Stage}

/-- The parts of a plan hold exactly the optional stages that the settings ask for. Speeds and times
are told in frames, so they ask for something only where the rate of the source is known; a colour
matrix asks for its correction unless a boosted pass converts it. -/
structure Answered (j : Job) (e : Engine) (ahead among behind : List Stage) : Prop where
  retime : ∀ rate, .retime rate ∈ ahead ↔ ∃ fps speed, j.traits.frameRate = some fps ∧ 0.0 < fps ∧
    j.speed = some speed ∧ FrameRate.changes speed ∧ rate = .ofFloat (fps * speed)
  trim : (∃ cut, .trim cut ∈ ahead) ↔ (∃ fps, j.traits.frameRate = some fps ∧ 0.0 < fps) ∧
    (j.span.start.isSome ∨ j.span.stop.isSome) ∧ (e.preview → j.span.stop.isSome)
  cropSource : ∀ m, .crop m ∈ ahead ↔ j.cropSource = some m ∧ ¬ m.isEmpty
  denoise : (∃ options gpu full, .denoise options gpu full ∈ ahead) ↔ j.denoising.isSome
  dering : .dering ∈ ahead ↔ j.dering
  degrain : ∀ options, .degrain options ∈ among ↔ j.degraining = some options
  deshake : (∃ run, .deshake run ∈ among) ↔ j.stabilization.isSome
  interpolate : (∃ rate threads gpu, .interpolate rate threads gpu ∈ among) ↔
    j.interpolation.isSome
  cropAfter : ∀ m, .crop m ∈ behind ↔ j.cropAfter = some m ∧ ¬ m.isEmpty
  resize : ∀ size kernel, .resize size kernel ∈ behind ↔ j.targetSize = some size ∧
    kernel = j.downscaler ∧ ¬ (0 < j.upscaleFactor.toNat ∧ kernel.resizer?.isSome)
  correctMatrix : ∀ m, .correctMatrix m ∈ behind ↔ j.traits.colorMatrix = m ∧ m ≠ .rec709 ∧
    ¬ (0 < j.upscaleFactor.toNat ∧ j.boost.isSome)
  preview : .preview ∈ behind ↔ e.preview
  prefetch : ∀ threads, .prefetch threads ∈ behind ↔ 1 < e.threads ∧ threads = e.threads

/-- What stands ahead of the doubling passes. -/
def beginning (j : Job) (e : Engine) : List Stage :=
  j.opening e.preview ++ (j.sourceCrop?.map .crop).toList ++
    (j.denoising.map fun d => .denoise d e.gpu j.boosts).toList ++
    (if j.dering then [.dering] else [])

/-- What stands behind the doubling passes. -/
def ending (j : Job) (e : Engine) : List Stage :=
  (j.finalCrop?.map .crop).toList ++ j.resizing?.toList ++
    j.correction (j.opening e.preview ++ j.picture e) ++ [.output] ++
    (if e.preview then [.preview] else []) ++ (if 1 < e.threads then [.prefetch e.threads] else [])

theorem stages_eq_parts (j : Job) (e : Engine) :
    j.stages e = j.beginning e ++ j.enlarging e ++ j.ending e := by
  simp only [stages, beginning, ending, picture, List.append_assoc]

/-- Without doubling passes the filters of motion stand alone, otherwise behind the first pass. -/
theorem enlarging_eq (j : Job) (e : Engine) :
    j.enlarging e = match j.upscaleFactor.toNat with
      | 0 => j.motion e
      | n + 1 => [j.doubling e (n = 0)] ++ j.motion e ++ j.laterPasses e := by
  unfold enlarging laterPasses
  rcases j.upscaleFactor.toNat with _ | _ | n
  · rfl
  · exact (List.append_nil _).symm
  · simp

theorem mem_resizing (h : stage ∈ j.resizing?.toList) :
    ∃ size kernel, stage = .resize size kernel := by
  unfold resizing? at h
  split at h
  · split at h
    · cases h
    · exact ⟨_, _, List.mem_singleton.1 h⟩
  · cases h

/-! ## The word of a plan -/

theorem beginning_spell (j : Job) (e : Engine) : Stage.Spell (j.beginning e) Precedence.beginning := by
  have hsource : Stage.Spell [.source j.source (j.rate?.map .ofFloat)] (.char "Source") :=
    .single rfl
  unfold beginning opening
  refine ((((hsource.append ?_).append ?_).append ?_).append ?_).append ?_
  · exact .optional (by simp [Stage.name]) (by cases j.retiming? <;> simp)
  · exact .optional (by simp [Stage.name]) (by cases j.cut? e.preview <;> simp)
  · exact .optional (by simp [Stage.name]) (by cases j.sourceCrop? <;> simp)
  · exact .optional (by simp [Stage.name]) (by cases j.denoising <;> simp)
  · exact .optional (by simp [Stage.name]) (by cases j.dering <;> simp)

theorem motion_spell (j : Job) (e : Engine) : Stage.Spell (j.motion e) Precedence.motion := by
  unfold motion
  refine (Stage.Spell.append ?_ ?_).append ?_
  · exact .optional (by simp [Stage.name]) (by cases j.degraining <;> simp)
  · exact .optional (by simp [Stage.name]) (by cases j.stabilization <;> simp)
  · exact .optional (by simp [Stage.name]) (by cases j.interpolation <;> simp)

theorem enlarging_spell (j : Job) (e : Engine) :
    Stage.Spell (j.enlarging e) (Precedence.enlarging j.upscaleFactor.toNat) := by
  rw [enlarging_eq]
  cases hn : j.upscaleFactor.toNat with
  | zero => exact j.motion_spell e
  | succ n =>
    have hlater : Stage.Spell (j.laterPasses e) (.char "Upscale" ^ n) := by
      have hlength : (j.laterPasses e).length = n := by rw [length_laterPasses, hn]; rfl
      rw [← hlength]
      refine .pow fun stage hstage => ?_
      obtain ⟨last, rfl⟩ := mem_laterPasses hstage
      rfl
    exact ((Stage.Spell.single rfl).append (j.motion_spell e)).append hlater

theorem ending_spell (j : Job) (e : Engine) : Stage.Spell (j.ending e) Precedence.ending := by
  have houtput : Stage.Spell [.output] (.char "Output") := .single rfl
  unfold ending
  refine ((((Stage.Spell.append ?_ ?_).append ?_).append houtput).append ?_).append ?_
  · exact .optional (by simp [Stage.name]) (by cases j.finalCrop? <;> simp)
  · refine .optional (fun stage hstage => ?_) (by cases j.resizing? <;> simp)
    obtain ⟨size, kernel, rfl⟩ := mem_resizing hstage
    rfl
  · refine .optional (fun stage hstage => ?_) (by rw [correction_eq]; split <;> simp)
    rw [mem_correction hstage]
    rfl
  · exact .optional (by simp [Stage.name]) (by cases e.preview <;> simp)
  · exact .optional (by simp [Stage.name]) (by split <;> simp)

/-! ## The settings of a plan -/

/-- The loop of the doubling passes leaves everything else to the filters of motion. -/
theorem mem_enlarging_iff (h : stage.pass? = none) :
    stage ∈ j.enlarging e ↔ stage ∈ j.motion e := by
  constructor
  · intro hmem
    rcases mem_enlarging hmem with ⟨-, last, rfl⟩ | hmem
    · cases h
    · exact hmem
  · intro hmem
    rw [enlarging_eq]
    split
    · exact hmem
    · exact List.mem_append_left _ (List.mem_append_right _ hmem)

theorem rate_eq_some (fps : Float) :
    j.rate? = some fps ↔ j.traits.frameRate = some fps ∧ 0.0 < fps := by
  rw [rate?, Option.filter_eq_some_iff, decide_eq_true_eq]

theorem retiming_eq_some (rate : FrameRate) :
    j.retiming? = some rate ↔ ∃ fps speed, j.traits.frameRate = some fps ∧ 0.0 < fps ∧
      j.speed = some speed ∧ FrameRate.changes speed ∧ rate = .ofFloat (fps * speed) := by
  unfold retiming?
  constructor
  · intro h
    split at h
    · rename_i fps speed hfps hspeed
      obtain ⟨hfps, hpositive⟩ := (rate_eq_some fps).1 hfps
      obtain ⟨hspeed, hchanges⟩ := Option.filter_eq_some_iff.1 hspeed
      exact ⟨fps, speed, hfps, hpositive, hspeed, hchanges, (Option.some.inj h).symm⟩
    · cases h
  · rintro ⟨fps, speed, hfps, hpositive, hspeed, hchanges, rfl⟩
    have hrate : j.rate? = some fps := (rate_eq_some fps).2 ⟨hfps, hpositive⟩
    have hchange : j.speedChange? = some speed := Option.filter_eq_some_iff.2 ⟨hspeed, hchanges⟩
    rw [hrate, hchange]

theorem isSome_cut (preview : Bool) :
    (j.cut? preview).isSome ↔ (∃ fps, j.traits.frameRate = some fps ∧ 0.0 < fps) ∧
      (j.span.start.isSome ∨ j.span.stop.isSome) ∧ (preview → j.span.stop.isSome) := by
  simp only [← rate_eq_some, cut?]
  cases j.rate? <;> cases j.span.start <;> cases j.span.stop <;> cases preview <;> simp

theorem resizing_eq_some (size : FrameSize) (kernel : Downscaler) :
    j.resizing? = some (.resize size kernel) ↔ j.targetSize = some size ∧ kernel = j.downscaler ∧
      ¬ (0 < j.upscaleFactor.toNat ∧ kernel.resizer?.isSome) := by
  unfold resizing?
  constructor
  · intro h
    split at h
    · split at h
      · cases h
      · rename_i hsize hown
        cases h
        exact ⟨hsize, rfl, hown⟩
    · cases h
  · rintro ⟨hsize, rfl, hown⟩
    rw [hsize]
    exact if_neg hown

theorem mem_filter_isEmpty {crop : Option Margins} (m : Margins) :
    crop.filter (!·.isEmpty) = some m ↔ crop = some m ∧ ¬ m.isEmpty := by
  simp [Option.filter_eq_some_iff]

theorem mem_ending : stage ∈ j.ending e ↔ (∃ m, j.finalCrop? = some m ∧ stage = .crop m) ∨
    (∃ size kernel, j.resizing? = some (.resize size kernel) ∧ stage = .resize size kernel) ∨
    ((j.traits.colorMatrix ≠ .rec709 ∧ ¬ j.boosts) ∧ stage = .correctMatrix j.traits.colorMatrix) ∨
    stage = .output ∨ (e.preview ∧ stage = .preview) ∨
    (1 < e.threads ∧ stage = .prefetch e.threads) := by
  have hresizing : stage ∈ j.resizing?.toList ↔ ∃ size kernel,
      j.resizing? = some (.resize size kernel) ∧ stage = .resize size kernel := by
    constructor
    · intro h
      obtain ⟨size, kernel, rfl⟩ := mem_resizing h
      exact ⟨size, kernel, Option.mem_toList.1 h, rfl⟩
    · rintro ⟨size, kernel, h, rfl⟩
      exact Option.mem_toList.2 h
  have hcrop : stage ∈ (j.finalCrop?.map Stage.crop).toList ↔
      ∃ m, j.finalCrop? = some m ∧ stage = .crop m := by
    simp [eq_comm]
  have hcorrection : stage ∈ j.correction (j.opening e.preview ++ j.picture e) ↔
      (j.traits.colorMatrix ≠ .rec709 ∧ ¬ j.boosts) ∧
        stage = .correctMatrix j.traits.colorMatrix := by
    rw [correction_eq]
    by_cases hmatrix : j.traits.colorMatrix = .rec709
    · simp [hmatrix]
    · cases hboosts : j.boosts <;> simp [hmatrix]
  simp only [ending, List.mem_append, hcrop, hresizing, hcorrection, List.mem_singleton,
    List.mem_ite_nil_right, or_assoc]

theorem answered (j : Job) (e : Engine) :
    Answered j e (j.beginning e) (j.enlarging e) (j.ending e) where
  retime rate := by
    rw [← retiming_eq_some]
    unfold beginning opening
    split <;> simp
  trim := by
    rw [← isSome_cut, Option.isSome_iff_exists]
    unfold beginning opening
    split <;> simp
  cropSource m := by
    rw [← mem_filter_isEmpty, ← sourceCrop?]
    unfold beginning opening
    split <;> simp
  denoise := by
    rw [Option.isSome_iff_exists]
    unfold beginning opening
    split <;> simp
  dering := by
    unfold beginning opening
    split <;> simp [*]
  degrain options := by
    rw [mem_enlarging_iff rfl, motion]
    simp
  deshake := by
    have hmem : ∀ run, .deshake run ∈ j.enlarging e ↔ .deshake run ∈ j.motion e :=
      fun run => mem_enlarging_iff rfl
    rw [Option.isSome_iff_exists]
    simp [hmem, motion]
  interpolate := by
    have hmem : ∀ rate threads gpu, .interpolate rate threads gpu ∈ j.enlarging e ↔
        .interpolate rate threads gpu ∈ j.motion e := fun rate threads gpu => mem_enlarging_iff rfl
    simp only [hmem, motion]
    cases j.interpolation <;> simp
  cropAfter m := by
    rw [← mem_filter_isEmpty, ← finalCrop?, mem_ending]
    simp
  resize size kernel := by
    rw [← resizing_eq_some, mem_ending]
    simp
  correctMatrix m := by
    have hboosts : j.boosts = true ↔ 0 < j.upscaleFactor.toNat ∧ j.boost.isSome := by
      rw [boosts, Bool.and_eq_true, decide_eq_true_eq]
    rw [← hboosts, mem_ending]
    constructor
    · rintro (⟨_, -, h⟩ | ⟨_, _, -, h⟩ | ⟨⟨hmatrix, hplain⟩, h⟩ | h | ⟨-, h⟩ | ⟨-, h⟩) <;> cases h
      exact ⟨rfl, hmatrix, hplain⟩
    · rintro ⟨rfl, hmatrix, hplain⟩
      exact .inr (.inr (.inl ⟨⟨hmatrix, hplain⟩, rfl⟩))
  preview := by
    rw [mem_ending]
    simp
  prefetch threads := by
    rw [mem_ending]
    simp

/-! ## Passes and target -/

/-- The stages of the doubling passes, as a loop that counts them lays them down. -/
theorem doublings_eq {n : Nat} (hn : j.upscaleFactor.toNat = n + 1) :
    j.doubling e (n = 0) :: j.laterPasses e =
      (List.range (n + 1)).map fun i => j.doubling e (i + 1 = n + 1) := by
  unfold laterPasses
  rw [hn, List.range_succ, List.map_append, List.map_singleton]
  cases n with
  | zero => rfl
  | succ n =>
    have hearly : (List.range (n + 1)).map (fun i => j.doubling e (i + 1 = n + 1 + 1)) =
        List.replicate (n + 1) (j.doubling e false) := by
      refine List.eq_replicate_iff.2 ⟨by simp, fun stage hstage => ?_⟩
      obtain ⟨i, hi, rfl⟩ := List.mem_map.1 hstage
      have hlt : i < n + 1 := List.mem_range.1 hi
      have hne : ¬ i + 1 = n + 1 + 1 := by omega
      rw [decide_eq_false hne]
    rw [hearly]
    simp [List.replicate_succ]

/-- What the filters of motion have no part in depends on the doubling passes alone. -/
theorem filterMap_enlarging {α : Type} {f : Stage → Option α}
    (hmotion : ∀ stage ∈ j.motion e, f stage = none) :
    (j.enlarging e).filterMap f = ((List.range j.upscaleFactor.toNat).map fun i =>
      j.doubling e (i + 1 = j.upscaleFactor.toNat)).filterMap f := by
  have hnone : (j.motion e).filterMap f = [] := List.filterMap_eq_nil_iff.2 hmotion
  rw [enlarging_eq]
  cases hn : j.upscaleFactor.toNat with
  | zero => exact hnone
  | succ n =>
    rw [← doublings_eq hn]
    simp only [List.filterMap_append, hnone, List.append_nil]
    exact List.filterMap_append.symm

theorem mem_beginning_quiet (h : stage ∈ j.beginning e) : stage.pass? = none ∧ stage.target? = none := by
  simp only [beginning, List.mem_append, Option.mem_toList, Option.map_eq_some_iff,
    List.mem_ite_nil_right, List.mem_singleton] at h
  rcases h with ((h | ⟨m, -, rfl⟩) | ⟨d, -, rfl⟩) | ⟨-, rfl⟩
  · rcases mem_opening h with ⟨_, rfl⟩ | ⟨_, rfl⟩ | ⟨_, rfl⟩ <;> exact ⟨rfl, rfl⟩
  all_goals exact ⟨rfl, rfl⟩

theorem mem_motion_quiet (h : stage ∈ j.motion e) : stage.pass? = none ∧ stage.target? = none := by
  rcases mem_motion h with ⟨_, -, rfl⟩ | ⟨_, -, rfl⟩ | ⟨_, -, rfl⟩ <;> exact ⟨rfl, rfl⟩

theorem passes_eq (j : Job) (e : Engine) : Stage.passes (j.stages e) =
    (List.range j.upscaleFactor.toNat).map fun i => {
      upscaler := j.upscaler
      boost := j.boost
      lastPass := i + 1 = j.upscaleFactor.toNat
      finalResize := if i + 1 = j.upscaleFactor.toNat then j.finalResize? else none
      threads := e.threads } := by
  have hbeginning : (j.beginning e).filterMap Stage.pass? = [] :=
    List.filterMap_eq_nil_iff.2 fun stage h => (mem_beginning_quiet h).1
  have hending : (j.ending e).filterMap Stage.pass? = [] := by
    refine List.filterMap_eq_nil_iff.2 fun stage h => ?_
    rcases mem_ending.1 h with ⟨_, -, rfl⟩ | ⟨_, _, -, rfl⟩ | ⟨-, rfl⟩ | rfl | ⟨-, rfl⟩ | ⟨-, rfl⟩ <;>
      rfl
  rw [Stage.passes, stages_eq_parts, List.filterMap_append, List.filterMap_append, hbeginning, hending,
    filterMap_enlarging fun stage h => (mem_motion_quiet h).1]
  simp [List.filterMap_map, Function.comp_def, doubling, Stage.pass?]

/-- Of the doubling passes only the last can scale to the target. -/
theorem filterMap_target_enlarging (j : Job) (e : Engine) :
    (j.enlarging e).filterMap Stage.target? =
      if 0 < j.upscaleFactor.toNat then (j.finalResize?.map FinalResize.size).toList else [] := by
  rw [filterMap_enlarging fun stage h => (mem_motion_quiet h).2]
  cases j.upscaleFactor.toNat with
  | zero => rfl
  | succ n =>
    have hearly : ((List.range n).map fun i => j.doubling e (i + 1 = n + 1)).filterMap
        Stage.target? = [] := by
      refine List.filterMap_eq_nil_iff.2 fun stage h => ?_
      obtain ⟨i, hi, rfl⟩ := List.mem_map.1 h
      have hlt : i < n := List.mem_range.1 hi
      have hne : ¬ i + 1 = n + 1 := by omega
      rw [decide_eq_false hne]
      rfl
    have hlast : (j.doubling e true).target? = j.finalResize?.map FinalResize.size := rfl
    rw [List.range_succ, List.map_append, List.filterMap_append, hearly, if_pos n.succ_pos]
    cases hresize : j.finalResize?.map FinalResize.size <;> simp [hlast, hresize]

theorem filterMap_target_ending (j : Job) (e : Engine) :
    (j.ending e).filterMap Stage.target? = (j.resizing?.bind Stage.target?).toList := by
  have hcorrection : (j.correction (j.opening e.preview ++ j.picture e)).filterMap Stage.target? =
      [] := by
    refine List.filterMap_eq_nil_iff.2 fun stage h => ?_
    rw [mem_correction h]
    rfl
  have hcrop : (j.finalCrop?.map Stage.crop).toList.filterMap Stage.target? = [] := by
    cases j.finalCrop? <;> rfl
  have hpreview : (if e.preview then [Stage.preview] else []).filterMap Stage.target? = [] := by
    split <;> rfl
  have hprefetch : (if 1 < e.threads then [Stage.prefetch e.threads] else []).filterMap
      Stage.target? = [] := by
    split <;> rfl
  have houtput : [Stage.output].filterMap Stage.target? = [] := rfl
  have hresizing : j.resizing?.toList.filterMap Stage.target? =
      (j.resizing?.bind Stage.target?).toList := by
    cases j.resizing? with
    | none => rfl
    | some stage => cases h : stage.target? <;> simp [h]
  simp only [ending, List.filterMap_append, hcrop, hresizing, hcorrection, houtput, hpreview,
    hprefetch, List.nil_append, List.append_nil]

/-- The target is scaled to once, in the last pass or behind all of them. -/
theorem targets_eq (j : Job) (e : Engine) :
    (j.stages e).filterMap Stage.target? = j.targetSize.toList := by
  have hbeginning : (j.beginning e).filterMap Stage.target? = [] :=
    List.filterMap_eq_nil_iff.2 fun stage h => (mem_beginning_quiet h).2
  rw [stages_eq_parts, List.filterMap_append, List.filterMap_append, hbeginning, List.nil_append,
    filterMap_target_enlarging, filterMap_target_ending, finalResize?, resizing?]
  cases j.targetSize with
  | none => simp
  | some size =>
    by_cases hpasses : 0 < j.upscaleFactor.toNat <;>
      cases j.downscaler.resizer?.isSome <;> simp [hpasses, Stage.target?]

/-- **The fixed precedence of stages.** There is a plan exactly if the target is found in words. The
parts of a plan spell the words of their expressions, with as many doubling passes as the job asks for
and each optional stage exactly where its setting asks for it. Of the passes exactly the last is marked
as the last. The target is scaled to once, by the last pass if there is one and the kernel has a resizer
of its own. -/
theorem plan_precedence (j : Job) (e : Engine) :
    match j.targetWords with
    | .error _ => j.plan e = .error .sizeOverflow
    | .ok target => ∃ stages, j.plan e = .ok stages ∧
      (∃ ahead among behind, stages = ahead ++ among ++ behind ∧
        Stage.Spell ahead Precedence.beginning ∧
        Stage.Spell among (Precedence.enlarging j.upscaleFactor.toNat) ∧
        Stage.Spell behind Precedence.ending ∧ Answered j e ahead among behind) ∧
      (Stage.passes stages).length = j.upscaleFactor.toNat ∧
      (∀ i pass, (Stage.passes stages)[i]? = some pass →
        (pass.lastPass ↔ i + 1 = (Stage.passes stages).length) ∧
        pass.finalResize = if pass.lastPass ∧ j.downscaler.resizer?.isSome then
          j.targetSize.map (⟨·, j.downscaler⟩) else none) ∧
      target.map SizeWords.exact = j.targetSize ∧
      stages.filterMap Stage.target? = j.targetSize.toList := by
  split
  · next step hstep => exact (j.plan_sizeOverflow_iff e).2 ⟨step, hstep⟩
  · next target htarget =>
    obtain ⟨hfit, hexact⟩ := j.sizesFit_of_targetWords htarget
    refine ⟨j.stages e, by rw [plan, if_pos hfit], ⟨j.beginning e, j.enlarging e, j.ending e,
      stages_eq_parts j e, j.beginning_spell e, j.enlarging_spell e, j.ending_spell e, answered j e⟩,
      ?_, ?_, hexact, targets_eq j e⟩
    · rw [passes_eq, List.length_map, List.length_range]
    · intro i pass hpass
      rw [passes_eq, List.getElem?_map, Option.map_eq_some_iff] at hpass
      obtain ⟨k, hk, rfl⟩ := hpass
      obtain ⟨hlt, rfl⟩ := List.getElem?_eq_some_iff.1 hk
      rw [passes_eq, List.length_map, List.length_range, List.getElem_range]
      refine ⟨decide_eq_true_iff, ?_⟩
      simp only [decide_eq_true_eq, finalResize?]
      by_cases hlast : i + 1 = j.upscaleFactor.toNat <;>
        cases j.targetSize <;> cases j.downscaler.resizer?.isSome <;> simp [hlast]

end Job

end Restoration
