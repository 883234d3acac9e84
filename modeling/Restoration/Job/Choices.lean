/-!
# Choices of a job

The closed lists that a job chooses from. Each has the name it is filed under (`name`), the label
it is shown with (`label`), and a reader for labels typed by a person (`ofLabel?`), which for most
lists does not look at the case of ASCII letters.

    ofLabel? c.label = some c
-/

namespace Restoration

/-- The matrix between colour differences and colours, with its range. -/
inductive ColorMatrix where
  | rec601
  | pc601
  | rec709
  | pc709
  deriving DecidableEq, Repr, Inhabited

/-- Where chroma samples sit between luma samples. -/
inductive ChromaPlacement where
  | mpeg1
  | mpeg2
  | dv
  deriving DecidableEq, Repr, Inhabited

/-- The filter that doubles the frame size. -/
inductive Upscaler where
  | nnedi3
  | superXbr
  deriving DecidableEq, Repr, Inhabited

/-- The kernel that scales frames to the wanted size. -/
inductive Downscaler where
  | bicubic
  | spline36
  | lanczos
  | ssim
  deriving DecidableEq, Repr, Inhabited

/-- The filter that a degrainer searches motion on. -/
inductive Prefilter where
  | none
  | gaussian
  | knlMeans
  deriving DecidableEq, Repr, Inhabited

/-- The video format of the delivery. -/
inductive VideoCodec where
  | x264
  | x265
  | av1
  deriving DecidableEq, Repr, Inhabited

/-- What happens to the sound of the source. -/
inductive AudioAction where
  | copy
  | discard
  | aac
  | opus
  deriving DecidableEq, Repr, Inhabited

/-- The file format of the delivery. -/
inductive Container where
  | mkv
  | mp4
  deriving DecidableEq, Repr, Inhabited

/-- How far a job got. -/
inductive JobStatus where
  | pending
  | running
  | success
  | failed
  | cancelled
  deriving DecidableEq, Repr, Inhabited

/-- A closed list of named values. -/
class Choice (α : Type) where
  /-- All values, in their usual order. -/
  all : List α
  /-- The name under which the value is filed. -/
  name : α → String
  /-- The label with which the value is shown. -/
  label : α → String := name
  /-- Does a typed label have to match in case? -/
  exactCase : Bool := false

namespace Choice

/-- The text with its ASCII letters in lower case. -/
def fold (s : String) : List Char := s.toList.map Char.toLower

/-- The value with this label. -/
def ofLabel? {α : Type} [Choice α] (s : String) : Option α :=
  (all : List α).find? fun c =>
    if exactCase α then label c == s else fold (label c) == fold s

/-- The value filed under this name. -/
def ofName? {α : Type} [Choice α] (s : String) : Option α :=
  (all : List α).find? fun c => name c == s

end Choice

instance : Choice ColorMatrix where
  all := [.rec601, .pc601, .rec709, .pc709]
  name
    | .rec601 => "Rec601"
    | .pc601 => "Pc601"
    | .rec709 => "Rec709"
    | .pc709 => "Pc709"
  exactCase := true

instance : Choice ChromaPlacement where
  all := [.mpeg1, .mpeg2, .dv]
  name
    | .mpeg1 => "Mpeg1"
    | .mpeg2 => "Mpeg2"
    | .dv => "Dv"
  label
    | .mpeg1 => "MPEG1"
    | .mpeg2 => "MPEG2"
    | .dv => "DV"
  exactCase := true

instance : Choice Upscaler where
  all := [.nnedi3, .superXbr]
  name
    | .nnedi3 => "Nnedi3"
    | .superXbr => "SuperXbr"

instance : Choice Downscaler where
  all := [.bicubic, .spline36, .lanczos, .ssim]
  name
    | .bicubic => "Bicubic"
    | .spline36 => "Spline36"
    | .lanczos => "Lanczos"
    | .ssim => "SSim"

instance : Choice Prefilter where
  all := [.none, .gaussian, .knlMeans]
  name
    | .none => "None"
    | .gaussian => "Gaussian"
    | .knlMeans => "KnlMeans"

instance : Choice VideoCodec where
  all := [.x264, .x265, .av1]
  name
    | .x264 => "X264"
    | .x265 => "X265"
    | .av1 => "Av1"

instance : Choice AudioAction where
  all := [.copy, .discard, .aac, .opus]
  name
    | .copy => "Copy"
    | .discard => "Discard"
    | .aac => "Aac"
    | .opus => "Opus"

instance : Choice Container where
  all := [.mkv, .mp4]
  name
    | .mkv => "Mkv"
    | .mp4 => "Mp4"

instance : Choice JobStatus where
  all := [.pending, .running, .success, .failed, .cancelled]
  name
    | .pending => "Pending"
    | .running => "Running"
    | .success => "Success"
    | .failed => "Failed"
    | .cancelled => "Cancelled"

/-- The encoder of the transcoder for this video format. -/
def VideoCodec.encoder : VideoCodec → String
  | x264 => "libx264"
  | x265 => "libx265"
  | av1 => "libsvtav1"

/-- The file name extension of the container. -/
def Container.extension : Container → String
  | mkv => "mkv"
  | mp4 => "mp4"

/-- The built-in resizer with this kernel, if there is one. -/
def Downscaler.resizer? : Downscaler → Option String
  | bicubic => some "BicubicResize"
  | spline36 => some "Spline36Resize"
  | lanczos => some "LanczosResize"
  | ssim => .none

/-- The name of the kernel among the resizers for stacked samples. -/
def Downscaler.kernel : Downscaler → String
  | bicubic => "bicubic"
  | spline36 | ssim => "spline36"
  | lanczos => "lanczos"

/-! ## Lemmas -/

namespace Choice

theorem ofName?_colorMatrix (c : ColorMatrix) : ofName? (name c) = some c := by cases c <;> decide
theorem ofName?_chromaPlacement (c : ChromaPlacement) : ofName? (name c) = some c := by
  cases c <;> decide
theorem ofName?_upscaler (c : Upscaler) : ofName? (name c) = some c := by cases c <;> decide
theorem ofName?_downscaler (c : Downscaler) : ofName? (name c) = some c := by cases c <;> decide
theorem ofName?_prefilter (c : Prefilter) : ofName? (name c) = some c := by cases c <;> decide
theorem ofName?_videoCodec (c : VideoCodec) : ofName? (name c) = some c := by cases c <;> decide
theorem ofName?_audioAction (c : AudioAction) : ofName? (name c) = some c := by cases c <;> decide
theorem ofName?_container (c : Container) : ofName? (name c) = some c := by cases c <;> decide
theorem ofName?_jobStatus (c : JobStatus) : ofName? (name c) = some c := by cases c <;> decide

end Choice

end Restoration
