import Restoration.Decimal.Binary
import Restoration.Job.Basic

/-!
# Frame sizes

The size of the source behind its crop, and the size that a job asks for. Sizes are exact; whether
every value on the way to them fits in 32 bits is a question of its own, `Job.sizesFit`.

    croppedSourceSize = (width - (left + right), height - (top + bottom))     never below zero

The same sizes computed in words, `Job.croppedSourceWords` and `Job.targetWords`, tell the step that
outgrows one.
-/

namespace Restoration

/-- A width and a height in samples. -/
structure FrameSize where
  width : Nat
  height : Nat
  deriving DecidableEq, Repr

namespace Job

/-- One more than the largest side of a frame. -/
def sideBound : Nat := UInt32.size

/-- The margins cut off the source. -/
def sourceMargins (j : Job) : Margins := j.cropSource.getD {}

/-- The size of the source behind its crop, if the size of the source is known. -/
def croppedSourceSize (j : Job) : Option FrameSize :=
  match j.traits.width, j.traits.height with
  | some w, some h =>
    let m := j.sourceMargins
    some ⟨w.toNat - (m.left.toNat + m.right.toNat), h.toNat - (m.top.toNat + m.bottom.toNat)⟩
  | _, _ => none

/-- The display aspect ratio: the filed one, or that of the cropped source. -/
def displayAspect (j : Job) : Option Float :=
  match j.traits.aspectRatio with
  | some a => some a
  | none =>
    match j.croppedSourceSize with
    | some s => if 0 < s.height then some (s.width.toFloat / s.height.toFloat) else none
    | none => none

/-- The width for a height and an aspect ratio, rounded to a multiple of four. -/
def derivedWidth (height : UInt32) (aspect : Float) : Nat :=
  Decimal.roundWithin (sideBound - 1) (height.toNat.toFloat * aspect / 4.0) * 4

/-- The size that the job asks for. A missing width follows from the height and the aspect ratio. -/
def targetSize (j : Job) : Option FrameSize :=
  match j.outputHeight, j.outputWidth with
  | none, _ => none
  | some h, some w => some ⟨w.toNat, h.toNat⟩
  | some h, none => j.displayAspect.map fun a => ⟨derivedWidth h a, h.toNat⟩

/-- Do the margins at opposite sides of the source add up within 32 bits? -/
def marginsFit (j : Job) : Bool :=
  let m := j.sourceMargins
  match j.croppedSourceSize with
  | some _ => m.left.toNat + m.right.toNat < sideBound && m.top.toNat + m.bottom.toNat < sideBound
  | none => true

/-- Does every value on the way to the target size fit in 32 bits? -/
def sizesFit (j : Job) : Bool :=
  match j.outputHeight, j.outputWidth with
  | some _, none =>
    (j.traits.aspectRatio.isSome || j.marginsFit) &&
      match j.targetSize with
      | some s => s.width < sideBound
      | none => true
  | _, _ => true

end Job

/-! ## In words -/

/-- A width and a height in words. -/
structure SizeWords where
  width : UInt32
  height : UInt32
  deriving DecidableEq, Repr

/-- The size that the words stand for. -/
def SizeWords.exact (s : SizeWords) : FrameSize := ⟨s.width.toNat, s.height.toNat⟩

/-- The step on the way to a size whose result outgrows a word. -/
inductive Outgrown where
  | sum
  | product
  deriving DecidableEq, Repr

namespace SizeWords

/-- The sum, if it fits in a word. -/
def add (a b : UInt32) : Except Outgrown UInt32 :=
  if a.toNat + b.toNat < UInt32.size then .ok (a + b) else .error .sum

/-- Four times the number, if it fits in a word. -/
def quadruple (a : UInt32) : Except Outgrown UInt32 :=
  if a.toNat * 4 < UInt32.size then .ok (a * 4) else .error .product

/-- The difference, or zero if it is below. -/
def sub (a b : UInt32) : UInt32 := if b ≤ a then a - b else 0

/-- A quarter of the width for a height and an aspect ratio, rounded to a word. -/
def quarterWidth (height : UInt32) (aspect : Float) : UInt32 :=
  .ofNat (Decimal.roundWithin (UInt32.size - 1) (height.toNat.toFloat * aspect / 4.0))

end SizeWords

namespace Job

/-- The size of the source behind its crop: the margins at opposite sides are added up first, and the
sum is taken off down to zero. -/
def croppedSourceWords (j : Job) : Except Outgrown (Option SizeWords) :=
  match j.traits.width, j.traits.height with
  | some w, some h => do
    let across ← SizeWords.add j.sourceMargins.left j.sourceMargins.right
    let down ← SizeWords.add j.sourceMargins.top j.sourceMargins.bottom
    return some ⟨SizeWords.sub w across, SizeWords.sub h down⟩
  | _, _ => return none

/-- The display aspect ratio; the crop is only looked at if none is filed. -/
def aspectWords (j : Job) : Except Outgrown (Option Float) :=
  match j.traits.aspectRatio with
  | some a => return some a
  | none => do
    match ← j.croppedSourceWords with
    | some s =>
      return if 0 < s.height then some (s.width.toNat.toFloat / s.height.toNat.toFloat) else none
    | none => return none

/-- The size that the job asks for. -/
def targetWords (j : Job) : Except Outgrown (Option SizeWords) :=
  match j.outputHeight, j.outputWidth with
  | none, _ => return none
  | some h, some w => return some ⟨w, h⟩
  | some h, none => do
    match ← j.aspectWords with
    | some a => return some ⟨← SizeWords.quadruple (SizeWords.quarterWidth h a), h⟩
    | none => return none

end Job

end Restoration
