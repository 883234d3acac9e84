import Restoration.Graph.Rendering

/-!
# Probes

Small scripts that are run for what they tell: the number of frames of another script, or whether
filters can run on the graphics processor.
-/

namespace Restoration.Script

/-- Makes the engine write the frame rate and the number of frames of `script` into `side`. -/
def frameCountProbe (script side : Path) : Script where
  lines := [
    .dependency (.importScript script.forEngine),
    .term ("WriteFileStart(\"" ++ side.text ++ "\", \"FrameRate\", \"\"\",\"\"\", \"FrameCount\")"),
    .term "Trim(0, -1)"]

/-- Runs only if the denoiser works on the graphics processor. -/
def gpuProbe (pluginDirectory : Path) : Script :=
  let denoising : Denoising := {}
  tidy ⟨.term "BlankClip(length=10, width=64, height=64, pixel_type=\"YV12\")"
    :: Graph.linesOf pluginDirectory (denoising.statements true (.ofSource .rec709))⟩

end Restoration.Script
