import Restoration.Script.Fault
import Restoration.Stage.Statements
import Restoration.Frames.Range

/-!
# Restricting a script to a chunk

A script is made to deliver only the frames of one chunk by a marked cut, which stands ahead of the
last prefetch so that prefetching stays the last statement. Taking the mark away lifts the
restriction again.

    (s.restrict a).restrict b = s.restrict b
-/

namespace Restoration.Script

/-- The text that gives a restricting line away. -/
def restrictionMark : String := "# " ++ FrameCut.mark

/-- The text of prefetching statements. -/
def prefetchMark : String := "Prefetch("

/-- The script without any restriction. -/
def unrestrict (s : Script) : Script := s.dropContaining restrictionMark

/-- How many lines restrict the script. -/
def restrictions (s : Script) : Nat := s.countContaining restrictionMark

/-- The line that restricts a script to the frames of a range. -/
def restrictingLine (r : FrameRange) : Line :=
  FrameCut.line { first := r.start, last := some r.stop, marked := true }

/-- The frames that a restricting line leaves; a second number of minus one stands for one frame. -/
def rangeOfLine? (l : String) : Option FrameRange := do
  let inner ← Text.dropLead? "Trim(".toList l.toList
  let (first, rest) ← Text.splitOnce? ',' inner
  let (last, _) ← Text.splitOnce? ')' rest
  let start ← Numeral.value? first
  if Text.trim last = ['-', '1'] then some ⟨start, start⟩
  else (Numeral.value? (Text.trim last)).map fun stop => ⟨start, stop⟩

/-- The script restricted to the frames of a range, and to no other. -/
def restrict (s : Script) (r : FrameRange) : Script :=
  s.unrestrict.insertBeforeLast prefetchMark (restrictingLine r)

end Restoration.Script
