import Restoration.FrameRate
import Restoration.Job.FrameSize
import Restoration.Samples

/-!
# Stages of a filter graph

A graph is a list of stages. Each stage says by its `contract` what samples it can be fed, and by
`leave` what it makes of the state of the graph.
-/

namespace Restoration

/-- A cut in frames. -/
structure FrameCut where
  first : Nat
  /-- The last frame that is kept; without one, all that follow. -/
  last : Option Nat
  /-- Is this the passing restriction of a script to one chunk? -/
  marked : Bool := false
  deriving DecidableEq, Repr

/-- The scaling at the end of the last doubling pass. -/
structure FinalResize where
  size : FrameSize
  kernel : Downscaler
  deriving DecidableEq, Repr

/-- One doubling pass. -/
structure Upscaling where
  upscaler : Upscaler
  /-- The quality boost, which also converts the colour matrix. -/
  boost : Option Boost
  lastPass : Bool
  finalResize : Option FinalResize
  threads : Nat
  deriving DecidableEq, Repr

/-- The two runs of the stabilizer. -/
inductive DeshakePass where
  /-- Writes the motion log. -/
  | analyze
  /-- Reads the motion log and moves the frames. -/
  | stabilize
  deriving DecidableEq, Repr

/-- One run of the stabilizer. -/
structure Deshaking where
  pass : DeshakePass
  log : Path
  options : Stabilization
  deriving DecidableEq, Repr

/-- The frame rate that interpolation makes. -/
inductive InterpolatedRate where
  | multiple (factor : UInt8)
  | fixed (rate : FrameRate)
  deriving DecidableEq, Repr

/-- One filter of a graph. -/
inductive Stage where
  | source (clip : Path) (rate : Option FrameRate)
  | retime (rate : FrameRate)
  | trim (cut : FrameCut)
  | crop (margins : Margins)
  | denoise (options : Denoising) (gpu fullChroma : Bool)
  | dering
  | upscale (pass : Upscaling)
  | degrain (options : Degraining)
  | deshake (run : Deshaking)
  | interpolate (rate : InterpolatedRate) (threads : Nat) (gpu : Bool)
  | resize (size : FrameSize) (kernel : Downscaler)
  | correctMatrix (source : ColorMatrix)
  /-- Where the frames are handed to an encoder. -/
  | output
  | preview
  | prefetch (threads : Nat)
  deriving DecidableEq, Repr

namespace Stage

/-- The name of the stage. -/
def name : Stage → String
  | source .. => "Source"
  | retime _ => "Retime"
  | trim _ => "Trim"
  | crop _ => "Crop"
  | denoise .. => "Denoise"
  | dering => "Dering"
  | upscale _ => "Upscale"
  | degrain _ => "Degrain"
  | deshake _ => "Deshake"
  | interpolate .. => "Interpolate"
  | resize .. => "Resize"
  | correctMatrix _ => "ColorMatrixFix"
  | output => "Output"
  | preview => "Preview"
  | prefetch _ => "Prefetch"

/-- What samples the stage can be fed. A stacked clip must not be cropped, for its second half holds
the low bits. -/
def contract : Stage → Contract
  | source .. | retime _ | trim _ | prefetch _ => .any
  | crop _ | deshake _ | interpolate .. | output | preview => .standard
  | denoise _ _ fullChroma => .prefersExtended fullChroma
  | dering | degrain _ | correctMatrix _ => .prefersExtended false
  | upscale u =>
    match u.boost, u.upscaler with
    | some _, _ => .prefersExtended true
    | none, .nnedi3 => .standard
    | none, .superXbr => .any
  | resize _ kernel => if kernel = .ssim then .standard else .any

/-- The state of the graph behind the stage. The last boosted pass hands back halved chroma. -/
def leave (stage : Stage) (s : FormatState) : FormatState :=
  match stage with
  | upscale u =>
    if u.boost.isSome then
      if u.lastPass && s.samples.isFullChroma then s.matrixCorrected.withSamples .extended
      else s.matrixCorrected
    else s
  | correctMatrix _ => s.matrixCorrected
  | _ => s

/-- Does the stage convert the colour matrix to Rec. 709? -/
def correctsMatrix : Stage → Bool
  | upscale u => u.boost.isSome
  | correctMatrix _ => true
  | _ => false

end Stage

end Restoration
