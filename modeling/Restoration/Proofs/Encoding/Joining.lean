import Restoration.Proofs.Encoding.Course
import Restoration.Proofs.Encoding.Watching

/-!
# Joining whole films

Fragments are joined at most once, at the end of an encoding, and only right behind a survey that
found every frame of the source in exactly one of them:

    framesOf (accepted.map (Fragment.range total)) = 0, …, total - 1
-/

namespace Restoration

open FileTree Work FrameRange

namespace Encoding

variable {τ : Type} {tools : Toolbox τ} {o : EncodingOptions}

/-- The calls of tools in an encoding, in their order. -/
def callsOf (tools : Toolbox τ) (o : EncodingOptions) (b : Bench τ) : List ToolCall :=
  (run tools.watched o b.watched).2.desk.calls

/-- Tools that find two frames in everything, and an encoder that writes some text. -/
def twoFrameTools : Toolbox Unit where
  runScript _ _ := pure ()
  encode _ output _ _ := Work.change (fun t => t.write output "frames") fun _ => .cancelled "encoder"
  scriptFrames _ _ := pure 2
  mediaFrames _ := pure 2
  join _ _ _ := pure ()

theorem tidy_twoFrameTools : twoFrameTools.Tidy where
  scriptFrames _ _ d := .refl _ d.files
  mediaFrames _ d := .refl _ d.files
  encode script output job o d := by
    show SameBut _ d.files (Work.change (fun t => t.write output "frames") _ d).2.files
    rw [change_run]
    split
    · exact sameBut_write ‹_›
    · exact .refl _ d.files

/-- A job that has its script but no fragment yet. -/
def freshBench : Bench Unit where
  job := { source := ⟨"/clip.avi"⟩, directory := ⟨"/jobs"⟩, index := 1 }
  desk := {
    files := { nodes := [(["jobs"], .folder), (["jobs", "Job1_Script.avs"], .file "" false)] }
    tools := () }

end Encoding

end Restoration
