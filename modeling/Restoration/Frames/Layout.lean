import Restoration.Frames.Range
import Restoration.Path

/-!
# Layouts

Fragments are laid over the frames of a source in the order of their first frames. A fragment is
turned away if it is empty, starts behind the source or starts inside a fragment laid before it.

    the ranges of done and left together are the frames from 0 to below total
-/

namespace Restoration

/-- An encoded file of `frames` frames, the first of which is frame `start` of the source. -/
structure Fragment where
  path : Path
  start : Nat
  frames : Nat
  deriving DecidableEq, Repr

/-- Fragments laid over a source. -/
structure Layout where
  done : List FrameRange := []
  /-- The frames that no fragment covers. -/
  left : List FrameRange := []
  accepted : List Fragment := []
  rejected : List Fragment := []
  deriving DecidableEq, Repr

namespace Layout

/-- The range from `first` to ahead of `bound`, if it has any frame. -/
def gap (first bound : Nat) : List FrameRange :=
  if first < bound then [⟨first, bound - 1⟩] else []

/-- Is there no room for the fragment from frame `free` on? -/
def turnsAway (total free : Nat) (f : Fragment) : Bool :=
  f.frames = 0 || total ≤ f.start || f.start < free

/-- The last frame that a fragment covers in the source. -/
def lastFrame (total : Nat) (f : Fragment) : Nat := min (f.start + f.frames - 1) (total - 1)

/-- Lays sorted fragments over the frames from `free` on. -/
def layFrom (total free : Nat) : List Fragment → Layout
  | [] => { left := gap free total }
  | f :: rest =>
    if turnsAway total free f then
      let l := layFrom total free rest
      { l with rejected := f :: l.rejected }
    else
      let stop := lastFrame total f
      let l := layFrom total (stop + 1) rest
      { l with
        done := ⟨f.start, stop⟩ :: l.done
        left := gap free f.start ++ l.left
        accepted := f :: l.accepted }

/-- The fragments by first frame; those that start together keep their order. -/
def sorted (fragments : List Fragment) : List Fragment :=
  fragments.mergeSort fun f g => f.start ≤ g.start

/-- Lays fragments over a source of `total` frames. -/
def ofFragments (fragments : List Fragment) (total : Nat) : Layout :=
  layFrom total 0 (sorted fragments)

/-! ## In words -/

/-- The sum, if it fits in a word. -/
def add? (a b : Nat) : Option Nat := if a + b < Numeral.word then some (a + b) else none

/-- The difference, unless it is below zero. -/
def sub? (a b : Nat) : Option Nat := if b ≤ a then some (a - b) else none

/-- The range from one frame to another, if they are in order. -/
def range? (start stop : Nat) : Option FrameRange :=
  if start ≤ stop then some ⟨start, stop⟩ else none

/-- The gap between `first` and `bound`, computed in words. -/
def gap? (first bound : Nat) : Option (List FrameRange) :=
  if first < bound then do return [← range? first (← sub? bound 1)] else some []

/-- Lays sorted fragments over the frames from `free` on, computing in words. -/
def layFrom? (total free : Nat) : List Fragment → Option Layout
  | [] => do return { left := ← gap? free total }
  | f :: rest =>
    if turnsAway total free f then do
      let l ← layFrom? total free rest
      return { l with rejected := f :: l.rejected }
    else do
      -- the sum is made ahead of the clamp
      let stop := min (← sub? (← add? f.start f.frames) 1) (← sub? total 1)
      let before ← gap? free f.start
      let range ← range? f.start stop
      let l ← layFrom? total (← add? stop 1) rest
      return { l with
        done := range :: l.done
        left := before ++ l.left
        accepted := f :: l.accepted }

/-- Lays fragments over a source of `total` frames, computing in words. There is no layout if a number
on the way does not fit in one. -/
def ofFragments? (fragments : List Fragment) (total : Nat) : Option Layout :=
  layFrom? total 0 (sorted fragments)

end Layout

/-- How far a source is encoded. -/
structure Progress where
  totalFrames : Nat := 0
  done : List FrameRange := []
  left : List FrameRange := []
  /-- The files behind `done`, in the same order. -/
  fragments : List Path := []
  deriving DecidableEq, Repr

namespace Progress

/-- The progress that a layout stands for. -/
def ofLayout (total : Nat) (l : Layout) : Progress where
  totalFrames := total
  done := l.done
  left := l.left
  fragments := l.accepted.map (·.path)

/-- The number of frames still to encode. -/
def framesLeft (p : Progress) : Nat := FrameRange.total p.left

/-- The number of encoded frames. -/
def framesDone (p : Progress) : Nat := FrameRange.total p.done

/-- Is every frame of a source with frames encoded? -/
def isComplete (p : Progress) : Bool := 0 < p.totalFrames && p.left.isEmpty

/-- The first frame that is not encoded. -/
def resumePosition (p : Progress) : Nat :=
  match p.left with
  | [] => p.totalFrames
  | r :: _ => r.start

end Progress

end Restoration
