import Restoration.Proofs.Graph.Plan

/-!
# The size of the frames that reach the output

Only crops, doubling passes and scalings change the size of a frame. The scaling to the wanted size
has two places: in the last doubling pass, or behind all filters. The crop behind the filters stands
between them, so it still shows in the first case and not in the second:

    j.scalesInPass      outputSize s (j.stages e) = size.without j.finalMargins
    otherwise           outputSize s (j.stages e) = size
-/

namespace Restoration

/-! ## Sizes along a plan -/

namespace FrameSize

/-- What a crop leaves of a frame. -/
def without (s : FrameSize) (m : Margins) : FrameSize :=
  ⟨s.width - (m.left.toNat + m.right.toNat), s.height - (m.top.toNat + m.bottom.toNat)⟩

/-- Both sides twice as long. -/
def doubled (s : FrameSize) : FrameSize := ⟨2 * s.width, 2 * s.height⟩

end FrameSize

/-- The size of the frames behind the stage, for frames of size `s` ahead of it. -/
def Stage.sizeBehind (s : FrameSize) : Stage → FrameSize
  | crop margins => s.without margins
  | upscale pass =>
    match pass.finalResize with
    | some scaling => scaling.size
    | none => s.doubled
  | resize size _ => size
  | _ => s

/-- The size of the frames behind some stages. -/
def sizeAfter (s : FrameSize) (stages : List Stage) : FrameSize := stages.foldl Stage.sizeBehind s

/-- The size of the frames that reach the output. -/
def outputSize (s : FrameSize) (stages : List Stage) : FrameSize :=
  sizeAfter s (stages.takeWhile (· ≠ .output))

namespace Job

/-- The margins of the crop behind the filters. -/
def finalMargins (j : Job) : Margins := j.cropAfter.getD {}

/-- Is the scaling to the wanted size part of the last doubling pass? -/
def scalesInPass (j : Job) : Prop := 0 < j.upscaleFactor.toNat ∧ j.downscaler.resizer?.isSome

instance (j : Job) : Decidable j.scalesInPass := inferInstanceAs (Decidable (_ ∧ _))

/-- The size that frames are delivered in when `size` is wanted. -/
def deliveredSize (j : Job) (size : FrameSize) : FrameSize :=
  if j.scalesInPass then size.without j.finalMargins else size

end Job

/-! ## Lemmas -/

section Folding

variable {s : FrameSize} {stages more : List Stage} {stage : Stage}

@[simp] theorem sizeAfter_nil : sizeAfter s [] = s := rfl

@[simp] theorem sizeAfter_cons :
    sizeAfter s (stage :: stages) = sizeAfter (stage.sizeBehind s) stages := rfl

@[simp] theorem sizeAfter_append :
    sizeAfter s (stages ++ more) = sizeAfter (sizeAfter s stages) more := List.foldl_append

theorem sizeAfter_keeps (h : ∀ stage ∈ stages, ∀ s, Stage.sizeBehind s stage = s) :
    sizeAfter s stages = s := by
  induction stages with
  | nil => rfl
  | cons stage stages ih =>
    rw [sizeAfter_cons, h stage List.mem_cons_self]
    exact ih fun stage hstage => h stage (List.mem_cons_of_mem _ hstage)

end Folding

namespace FrameSize

theorem without_of_isEmpty (s : FrameSize) {m : Margins} (h : m.isEmpty = true) :
    s.without m = s := by
  simp only [Margins.isEmpty, Bool.and_eq_true, beq_iff_eq] at h
  obtain ⟨⟨⟨hleft, htop⟩, hright⟩, hbottom⟩ := h
  simp [without, hleft, htop, hright, hbottom]

/-- A crop leaves a frame alone only if it has no margin on a side that is there. -/
theorem without_eq_self_iff (s : FrameSize) (m : Margins) :
    s.without m = s ↔ (s.width = 0 ∨ m.left = 0 ∧ m.right = 0) ∧
      (s.height = 0 ∨ m.top = 0 ∧ m.bottom = 0) := by
  have side : ∀ (n : Nat) (a b : UInt32), n - (a.toNat + b.toNat) = n ↔ n = 0 ∨ a = 0 ∧ b = 0 := by
    intro n a b
    rw [← UInt32.toNat_inj, ← UInt32.toNat_inj, UInt32.toNat_zero]
    omega
  rw [← side, ← side]
  exact FrameSize.mk.injEq .. ▸ Iff.rfl

end FrameSize

namespace Job

variable {j : Job} {e : Engine} {s size : FrameSize}

theorem opening_keeps_size (j : Job) (preview : Bool) (s : FrameSize) :
    sizeAfter s (j.opening preview) = s := by
  refine sizeAfter_keeps fun stage h s => ?_
  rcases mem_opening h with ⟨_, rfl⟩ | ⟨_, rfl⟩ | ⟨_, rfl⟩ <;> rfl

theorem motion_keeps_size (j : Job) (e : Engine) (s : FrameSize) :
    sizeAfter s (j.motion e) = s := by
  refine sizeAfter_keeps fun stage h s => ?_
  rcases mem_motion h with ⟨_, -, rfl⟩ | ⟨_, -, rfl⟩ | ⟨_, -, rfl⟩ <;> rfl

theorem correction_keeps_size (j : Job) (stages : List Stage) (s : FrameSize) :
    sizeAfter s (j.correction stages) = s := by
  refine sizeAfter_keeps fun stage h s => ?_
  rw [mem_correction h]
  rfl

theorem finalCrop_size (j : Job) (s : FrameSize) :
    sizeAfter s (j.finalCrop?.map Stage.crop).toList = s.without j.finalMargins := by
  unfold finalCrop? finalMargins
  cases j.cropAfter with
  | none => exact (s.without_of_isEmpty rfl).symm
  | some m =>
    by_cases hm : m.isEmpty = true
    · rw [Option.filter_some_neg (by simp [hm])]
      exact (s.without_of_isEmpty hm).symm
    · rw [Option.filter_some_pos (by simp [hm])]
      rfl

/-- The last doubling pass scales, if the kernel can. -/
theorem enlarging_size (h : j.targetSize = some size) (hpass : j.scalesInPass) :
    sizeAfter s (j.enlarging e) = size := by
  obtain ⟨hfactor, hkernel⟩ := hpass
  have hlast : ∀ s, Stage.sizeBehind s (j.doubling e true) = size := by
    intro s
    simp [doubling, Stage.sizeBehind, finalResize?, h, hkernel]
  unfold enlarging
  split
  · omega
  · rw [sizeAfter_cons, hlast, motion_keeps_size]
  · rw [List.cons_append, List.cons_append, sizeAfter_cons, sizeAfter_append, sizeAfter_cons,
      sizeAfter_nil, hlast]

theorem resizing?_eq (h : j.targetSize = some size) :
    j.resizing? = if j.scalesInPass then none else some (.resize size j.downscaler) := by
  rw [resizing?, h]
  rfl

/-- The picture behind its final scaling, whichever of the two places that has. -/
theorem picture_size (h : j.targetSize = some size) :
    sizeAfter s (j.picture e) = j.deliveredSize size := by
  simp only [picture, sizeAfter_append, finalCrop_size, resizing?_eq h, deliveredSize]
  by_cases hpass : j.scalesInPass
  · rw [enlarging_size h hpass, if_pos hpass, if_pos hpass, Option.toList_none, sizeAfter_nil]
  · rw [if_neg hpass, if_neg hpass, Option.toList_some, sizeAfter_cons, sizeAfter_nil]
    rfl

theorem outputSize_stages (j : Job) (e : Engine) (s : FrameSize) :
    outputSize s (j.stages e) = sizeAfter s (j.front e) := by
  have hfront : ∀ stage ∈ j.front e, decide (stage ≠ .output) = true := by
    intro stage hstage
    refine decide_eq_true fun hout => output_not_mem_front j e ?_
    exact hout ▸ hstage
  rw [outputSize, stages_eq, List.takeWhile_append_of_pos hfront, List.takeWhile_cons_of_neg (by simp),
    List.append_nil]

/-! ## The size of the output -/

/-- A job that asks for a size delivers it, unless its last doubling pass scales: then the crop
behind the filters is taken off the wanted size. -/
theorem output_size (j : Job) (e : Engine) (s : FrameSize) {size : FrameSize}
    (h : j.targetSize = some size) :
    outputSize s (j.stages e) = j.deliveredSize size ∧
      (outputSize s (j.stages e) = size ↔ (j.scalesInPass →
        (size.width = 0 ∨ j.finalMargins.left = 0 ∧ j.finalMargins.right = 0) ∧
          (size.height = 0 ∨ j.finalMargins.top = 0 ∧ j.finalMargins.bottom = 0))) := by
  have hsize : outputSize s (j.stages e) = j.deliveredSize size := by
    rw [outputSize_stages, front, sizeAfter_append, sizeAfter_append, opening_keeps_size,
      picture_size h, correction_keeps_size]
  refine ⟨hsize, ?_⟩
  rw [hsize, deliveredSize, ← FrameSize.without_eq_self_iff]
  split
  · next hpass => simp only [hpass, true_implies]
  · next hpass => simp only [hpass, false_implies]

/-- A small clip to be delivered at twice its size, with a crop behind the filters. -/
def letterboxed (factor : UInt8) : Job where
  source := ⟨"/media/clip.mkv"⟩
  directory := ⟨"/jobs"⟩
  index := 1
  traits := { width := some 320, height := some 240 }
  outputWidth := some 640
  outputHeight := some 480
  upscaleFactor := factor
  cropAfter := some { top := 4, bottom := 4 }

theorem output_size_letterboxed :
    (letterboxed 0).targetSize = some ⟨640, 480⟩ ∧
      outputSize ⟨320, 240⟩ ((letterboxed 0).stages {}) = ⟨640, 480⟩ :=
  have h : (letterboxed 0).targetSize = some ⟨640, 480⟩ := rfl
  ⟨h, (output_size _ {} ⟨320, 240⟩ h).2.2 fun hpass => absurd hpass (by decide)⟩

/-- With one doubling pass the same request is delivered eight lines lower. -/
theorem doubling_loses_lines :
    (letterboxed 1).targetSize = some ⟨640, 480⟩ ∧
      outputSize ⟨320, 240⟩ ((letterboxed 1).stages {}) = ⟨640, 472⟩ ∧
      outputSize ⟨320, 240⟩ ((letterboxed 0).stages {}) = ⟨640, 480⟩ := by
  decide

end Job

end Restoration
