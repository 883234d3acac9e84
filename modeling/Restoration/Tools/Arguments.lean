import Restoration.Decimal.Layout
import Restoration.FrameRate
import Restoration.Job.FileName
import Restoration.Graph.Plan

/-!
# Arguments of the transcoder

How a transcoder is told to encode frames with the format of a job, and to join the encoded
fragments with the sound of the source. The sound follows the cut and the speed of the picture.
-/

namespace Restoration

/-- Arguments that take frames from standard input and encode them as the job asks. -/
def Delivery.encoderArguments (d : Delivery) : List String :=
  ["-hide_banner", "-loglevel", "error", "-y", "-f", "yuv4mpegpipe", "-i", "-",
    "-c:v", d.codec.encoder, "-crf", Numeral.text d.quality.toNat, "-preset", d.preset, "-an"]

namespace Job

/-- The arguments that cut the sound like the picture; without a frame rate the picture is not
cut. -/
def audioCut (j : Job) : List String :=
  if j.rate?.isSome then
    (match j.span.start with
      | some seconds => ["-ss", Decimal.plain seconds]
      | none => []) ++
    (match j.span.stop with
      | some seconds => ["-to", Decimal.plain seconds]
      | none => [])
  else []

/-- The encoder of the sound. Sound whose speed changes cannot be copied. -/
def audioEncoder (j : Job) : String :=
  match j.delivery.audio, j.speedChange? with
  | .copy, none => "copy"
  | .opus, _ => "libopus"
  | _, _ => "aac"

/-- Arguments that add the sound of the source to the encoded picture. -/
def audioArguments (j : Job) : List String :=
  if j.delivery.audio = .discard then ["-map", "0:v", "-an"]
  else
    j.audioCut ++ ["-i", j.source.text, "-map", "0:v", "-map", "1:a?", "-c:a", j.audioEncoder] ++
      match j.speedChange? with
      | some speed => ["-filter:a", "atempo=" ++ Decimal.plain speed]
      | none => []

end Job

/-- The number of frames in the report of a probe, which ends in it. Any other text counts none. -/
def frameCountOf (report : String) : Nat :=
  let last := (Text.splitAt (· == ',') (Text.trim report.toList)).getLastD []
  (Numeral.read? Numeral.word (Text.trim last)).getD 0

end Restoration
