import Restoration.Text.Numeral

/-!
# Frame ranges

A range of frames with both ends included.

    length ⟨a, b⟩ = b - a + 1
-/

namespace Restoration

/-- The frames from `start` to `stop`. -/
structure FrameRange where
  start : Nat
  stop : Nat
  deriving DecidableEq, Repr, Inhabited

namespace FrameRange

/-- The number of frames. -/
def length (r : FrameRange) : Nat := r.stop - r.start + 1

/-- Is the frame one of the range? -/
def holds (r : FrameRange) (frame : Nat) : Prop := r.start ≤ frame ∧ frame ≤ r.stop

/-- The range as text. -/
def text (r : FrameRange) : String := Numeral.text r.start ++ "-" ++ Numeral.text r.stop

/-- Several ranges as text. -/
def listText (rs : List FrameRange) : String := ", ".intercalate (rs.map text)

/-- The number of frames of several ranges. -/
def total (rs : List FrameRange) : Nat := rs.foldr (fun r n => r.length + n) 0

end FrameRange

end Restoration
