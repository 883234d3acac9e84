import Restoration.Frames.Range

/-!
# Partitions

Gaps are cut into chunks for several workers. The first chunks grow step by step, so that every
worker starts early; later ones have equal length. If there are fewer chunks than workers, the
largest is halved until there are enough or it is not worth it.

    the chunks of a gap, joined, are the gap
-/

namespace Restoration

/-- The sizes by which gaps are cut. -/
structure Partition where
  workers : Nat
  /-- The length of the first chunk, and the step by which the next ones grow. -/
  base : Nat
  longest : Nat
  /-- No half may be shorter than this. -/
  shortest : Nat
  /-- Only longer chunks are halved. -/
  halveAbove : Nat
  deriving DecidableEq, Repr

namespace Partition

/-- No partition makes its chunks shorter than this. -/
def leastChunk : Nat := 40

/-- Chunks up to this length are never halved. -/
def leastHalved : Nat := 80

/-- Sizes with which the first `workers` chunks cover `frames` frames in a row. -/
def of (workers frames : Nat) : Partition :=
  let workers := max 1 workers
  let steps := workers * (workers + 1) / 2
  let base := max leastChunk ((frames + steps - 1) / steps)
  { workers, base, longest := base * workers, shortest := leastChunk, halveAbove := leastHalved }

/-- The wanted length of the chunk with this number, counted from one. -/
def ideal (p : Partition) (index : Nat) : Nat :=
  if index ≤ p.workers then index * p.base else p.longest

/-- Cuts a gap into chunks, the first of which has number `index`. A rest that is not longer than
the base is left with the chunk before it. Also says the number of the next chunk. -/
def cut (p : Partition) (index : Nat) (gap : FrameRange) : List FrameRange × Nat :=
  let size := p.ideal index
  if 0 < size ∧ size + p.base < gap.length then
    let (rest, next) := p.cut (index + 1) ⟨gap.start + size, gap.stop⟩
    (⟨gap.start, gap.start + size - 1⟩ :: rest, next)
  else ([gap], index + 1)
termination_by gap.length
decreasing_by simp only [FrameRange.length] at *; omega

/-- Cuts gaps one after the other; numbers run on from gap to gap. -/
def cutAll (p : Partition) (index : Nat) : List FrameRange → List FrameRange
  | [] => []
  | gap :: rest =>
    let (chunks, next) := p.cut index gap
    chunks ++ p.cutAll next rest

/-- The length of the longest chunk. -/
def largest (chunks : List FrameRange) : Nat := (chunks.map (·.length)).foldl max 0

/-- Halves the first chunk of the given length. -/
def halveFirst (length : Nat) : List FrameRange → List FrameRange
  | [] => []
  | c :: rest =>
    if c.length = length then
      ⟨c.start, c.start + length / 2 - 1⟩ :: ⟨c.start + length / 2, c.stop⟩ :: rest
    else c :: halveFirst length rest

/-- Is a chunk of this length worth halving? -/
def halves (p : Partition) (length : Nat) : Bool :=
  p.halveAbove < length && p.shortest ≤ length / 2

/-- Halves the largest chunk while that is worth it, at most as often as chunks are missing. -/
def fill (p : Partition) : Nat → List FrameRange → List FrameRange
  | 0, chunks => chunks
  | missing + 1, chunks =>
    if !chunks.isEmpty && p.halves (largest chunks) then
      p.fill missing (halveFirst (largest chunks) chunks)
    else chunks

/-- The chunks of the gaps. A single worker takes every gap as it is. Allocation is not modelled: room
for as many chunks as there are workers is reserved at first, which fails from 2⁵⁹ workers on. -/
def chunks (p : Partition) (gaps : List FrameRange) : List FrameRange :=
  if p.workers ≤ 1 then gaps
  else
    let chunks := p.cutAll 1 gaps
    p.fill (p.workers - chunks.length) chunks

end Partition

end Restoration
