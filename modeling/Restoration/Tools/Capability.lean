import Restoration.Tools.Toolbox

/-!
# Capabilities

Whether an engine can do something is found out by a script that needs it. Any failure, and taking
too long, means that it cannot.

    isCapable script limit ↔ runScript script within limit succeeds
-/

namespace Restoration.Toolbox

variable {τ : Type}

/-- How a script is run that must end within a limit. -/
def withinLimit (limit : Nat) : RunOptions where
  limit := some limit

/-- Does the script run to its end within a limit, in milliseconds? -/
def isCapable (tools : Toolbox τ) (script : Path) (limit : Nat) : StateM (Desk τ) Bool := do
  match ← (tools.runScript script (withinLimit limit)).run with
  | .ok () => pure true
  | .error _ => pure false

end Restoration.Toolbox
