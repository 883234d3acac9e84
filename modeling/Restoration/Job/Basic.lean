import Restoration.Job.Choices
import Restoration.Path

/-!
# Jobs

A job is one request to restore a clip: the source and what is known of it, the filters asked for,
the delivery, and how far encoding got. Every filter is optional; a fresh job asks for none.
-/

namespace Restoration

/-- What is known of the source clip. -/
structure SourceTraits where
  width : Option UInt32 := none
  height : Option UInt32 := none
  aspectRatio : Option Float := none
  frameRate : Option Float := none
  colorMatrix : ColorMatrix := .rec709
  chromaPlacement : ChromaPlacement := .mpeg2

/-- Margins to cut off a frame. -/
structure Margins where
  left : UInt32 := 0
  top : UInt32 := 0
  right : UInt32 := 0
  bottom : UInt32 := 0
  deriving DecidableEq, Repr

/-- No margin at all? -/
def Margins.isEmpty (m : Margins) : Bool :=
  m.left == 0 && m.top == 0 && m.right == 0 && m.bottom == 0

/-- The quality boost of an upscaler. Strength and softness are percentages. -/
structure Boost where
  passes : UInt8 := 2
  strength : UInt8 := 43
  softness : UInt8 := 0
  deriving DecidableEq, Repr

/-- Removal of noise by non-local means. -/
structure Denoising where
  strength : UInt8 := 2
  temporalRadius : UInt8 := 1
  spatialRadius : UInt8 := 2
  deriving DecidableEq, Repr

/-- Removal of grain along motion. -/
structure Degraining where
  strength : UInt32 := 300
  prefilter : Prefilter := .none
  deriving DecidableEq, Repr

/-- Stabilization of a shaking camera. -/
structure Stabilization where
  smoothness : UInt32 := 1000
  edgeCompensation : Bool := false
  deriving DecidableEq, Repr

/-- The frame rate that motion interpolation makes. -/
inductive Interpolation where
  | multiply (factor : UInt8)
  | target (rate : Float)

/-- The part of the source to keep, in seconds. -/
structure Span where
  start : Option Float := none
  stop : Option Float := none

/-- The format of the finished file. -/
structure Delivery where
  codec : VideoCodec := .x264
  quality : UInt8 := 20
  preset : String := "medium"
  audio : AudioAction := .copy
  container : Container := .mkv
  deriving DecidableEq, Repr

/-- One request to restore a clip, and how far it got. -/
structure Job where
  source : Path
  /-- The directory for scripts, fragments and the job file. -/
  directory : Path
  index : Nat
  traits : SourceTraits := {}
  cropSource : Option Margins := none
  cropAfter : Option Margins := none
  outputWidth : Option UInt32 := none
  outputHeight : Option UInt32 := none
  /-- How many times the frame size is doubled. -/
  upscaleFactor : UInt8 := 0
  upscaler : Upscaler := .nnedi3
  boost : Option Boost := none
  downscaler : Downscaler := .spline36
  denoising : Option Denoising := none
  dering : Bool := false
  degraining : Option Degraining := none
  stabilization : Option Stabilization := none
  interpolation : Option Interpolation := none
  span : Span := {}
  speed : Option Float := none
  delivery : Delivery := {}
  /-- The first frame that is still to be encoded. -/
  resumePosition : Nat := 0
  parallelism : UInt8 := 1
  status : JobStatus := .pending
  /-- The processes started for the job; not filed. -/
  processes : List Nat := []

namespace Job

/-- The job to be continued at a frame. -/
def resumedAt (j : Job) (position : Nat) : Job :=
  { j with resumePosition := position, status := .pending, processes := [] }

/-- How many encoders work on the job at the same time. -/
def workers (j : Job) : Nat := max 1 j.parallelism.toNat

/-- The threads that one of the job's encoders may use. -/
def threadsPerEncoder (j : Job) (available : Nat) : Nat := max 1 (available / j.workers)

/-- The frame rate of the source, if it is known and positive. -/
def rate? (j : Job) : Option Float := j.traits.frameRate.filter (0.0 < ·)

end Job

end Restoration
