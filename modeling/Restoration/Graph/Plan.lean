import Restoration.Stage.Statements
import Restoration.Job.FileName
import Restoration.Script.Fault

/-!
# Plans

The stages that a job asks for, in their fixed order:

    Source Retime? Trim? Crop? Denoise? Dering? U Crop? Resize? ColorMatrixFix?
      Output Preview? Prefetch?

where `M = Degrain? Deshake? Interpolate?`, and `U` is `M` for a job without upscaling, and
otherwise one doubling pass, `M`, and the other passes. The stages scale to the exact sizes of the
job, and there is a plan of them only if these fit in 32 bits.
-/

namespace Restoration

/-- The scripting engine that a script is made for. -/
structure Engine where
  /-- Where the files of dependencies are looked up. -/
  pluginDirectory : Path := ⟨"plugins"⟩
  /-- The threads of one running engine. -/
  threads : Nat := 1
  /-- May filters use the graphics processor? -/
  gpu : Bool := false
  /-- Is the script made for a player instead of an encoder? -/
  preview : Bool := false
  deriving DecidableEq, Repr

namespace Job

/-! ## Parts of a plan -/

/-- The crop of the source, unless it cuts nothing. -/
def sourceCrop? (j : Job) : Option Margins := j.cropSource.filter (!·.isEmpty)

/-- The crop behind the filters, unless it cuts nothing. -/
def finalCrop? (j : Job) : Option Margins := j.cropAfter.filter (!·.isEmpty)

/-- The change of speed, unless there is none. -/
def speedChange? (j : Job) : Option Float := j.speed.filter FrameRate.changes

/-- The new rate of a clip whose speed is changed. -/
def retiming? (j : Job) : Option FrameRate :=
  match j.rate?, j.speedChange? with
  | some rate, some speed => some (.ofFloat (rate * speed))
  | _, _ => none

/-- The cut in frames. A preview without an end keeps its start, so that a player can seek there. -/
def cut? (j : Job) (preview : Bool) : Option FrameCut :=
  match j.rate? with
  | some rate =>
    let wanted := j.span.start.isSome || j.span.stop.isSome
    if wanted && !(preview && j.span.stop.isNone) then
      some {
        first := match j.span.start with
          | some seconds => FrameRate.frameAt rate seconds
          | none => 0
        last := j.span.stop.map (FrameRate.frameAt rate) }
    else none
  | none => none

/-- The source, at its new speed and cut to the wanted part. -/
def opening (j : Job) (preview : Bool) : List Stage :=
  [.source j.source (j.rate?.map .ofFloat)]
    ++ (j.retiming?.map .retime).toList
    ++ ((j.cut? preview).map .trim).toList

/-- One run of the stabilizer on the job's motion log. -/
def deshaking (j : Job) (pass : DeshakePass) (options : Stabilization) : Deshaking where
  pass := pass
  log := (j.path .motionLog).forEngine
  options := options

/-- The interpolated rate that the job asks for. -/
def Interpolation.rate : Interpolation → InterpolatedRate
  | .multiply factor => .multiple factor
  | .target rate => .fixed (.ofFloat rate)

/-- Degraining, stabilization and interpolation, in this order. -/
def motion (j : Job) (engine : Engine) : List Stage :=
  (j.degraining.map .degrain).toList
    ++ (j.stabilization.map fun options => .deshake (j.deshaking .stabilize options)).toList
    ++ (j.interpolation.map fun i =>
        .interpolate (Interpolation.rate i) engine.threads engine.gpu).toList

/-- The scaling at the end of the last pass, if the kernel has a resizer of its own. -/
def finalResize? (j : Job) : Option FinalResize :=
  match j.targetSize with
  | some size => if j.downscaler.resizer?.isSome then some ⟨size, j.downscaler⟩ else none
  | none => none

/-- One doubling pass, the last one or one before it. -/
def doubling (j : Job) (engine : Engine) (lastPass : Bool) : Stage :=
  .upscale {
    upscaler := j.upscaler
    boost := j.boost
    lastPass := lastPass
    finalResize := if lastPass then j.finalResize? else none
    threads := engine.threads }

/-- All doubling passes, motion filters behind the first. Without upscaling only those remain. -/
def enlarging (j : Job) (engine : Engine) : List Stage :=
  match j.upscaleFactor.toNat with
  | 0 => j.motion engine
  | 1 => j.doubling engine true :: j.motion engine
  | n + 2 =>
    j.doubling engine false :: j.motion engine
      ++ List.replicate n (j.doubling engine false) ++ [j.doubling engine true]

/-- The scaling behind all filters, unless the last doubling pass already scaled. -/
def resizing? (j : Job) : Option Stage :=
  match j.targetSize with
  | some size =>
    if 0 < j.upscaleFactor.toNat ∧ j.downscaler.resizer?.isSome then none
    else some (.resize size j.downscaler)
  | none => none

/-- Are samples boosted to full chroma by the upscaler? -/
def boosts (j : Job) : Bool := 0 < j.upscaleFactor.toNat && j.boost.isSome

/-- The stages that work on the picture, from the crop of the source to the final scaling. -/
def picture (j : Job) (engine : Engine) : List Stage :=
  (j.sourceCrop?.map .crop).toList
    ++ (j.denoising.map fun d => .denoise d engine.gpu j.boosts).toList
    ++ (if j.dering then [.dering] else [])
    ++ j.enlarging engine
    ++ (j.finalCrop?.map .crop).toList
    ++ j.resizing?.toList

/-- The conversion of the colour matrix, if the source needs it and no other stage does it. -/
def correction (j : Job) (stages : List Stage) : List Stage :=
  if j.traits.colorMatrix ≠ .rec709 ∧ !stages.any Stage.correctsMatrix then
    [.correctMatrix j.traits.colorMatrix]
  else []

/-! ## Plans -/

/-- All stages of the job, at its exact sizes. -/
def stages (j : Job) (engine : Engine) : List Stage :=
  let front := j.opening engine.preview ++ j.picture engine
  front ++ j.correction front ++ [.output]
    ++ (if engine.preview then [.preview] else [])
    ++ (if 1 < engine.threads then [.prefetch engine.threads] else [])

/-- The plan of the job: all its stages, unless a value on the way to its sizes outgrows 32 bits. -/
def plan (j : Job) (engine : Engine) : Except ScriptFault (List Stage) :=
  if j.sizesFit then .ok (j.stages engine) else .error .sizeOverflow

/-- The stages that only write the motion log. -/
def motionPlan (j : Job) : List Stage :=
  j.opening false ++ (j.sourceCrop?.map .crop).toList
    ++ [.deshake (j.deshaking .analyze (j.stabilization.getD {})), .output]

end Job

end Restoration
