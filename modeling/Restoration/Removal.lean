import Restoration.FileTree.Basic

/-!
# Removal of files in use

A file may be held open by another program for a while, so its removal is tried several times. A
file that is already gone counts as removed.

    remove step n s = ok   ↔   one of the first max 1 n attempts removes the file or finds none
-/

namespace Restoration.Removal

/-- Why a removal can fail. Some reasons say that there is no such file. -/
class Reason (ε : Type) where
  saysGone : ε → Bool

instance : Reason FileFault := ⟨(· == .notFound)⟩

section loop

variable {σ ε : Type} [Reason ε] (step : σ → Except ε Unit × σ)

/-- Tries once, and after a failure up to `further` times more. -/
def attempt (further : Nat) (s : σ) : Except ε Unit × σ :=
  match step s with
  | (.ok (), s) => (.ok (), s)
  | (.error reason, s) =>
    if Reason.saysGone reason then (.ok (), s)
    else match further with
      | 0 => (.error reason, s)
      | n + 1 => attempt n s

/-- Tries up to `attempts` times, but at least once. -/
def remove (attempts : Nat) (s : σ) : Except ε Unit × σ :=
  attempt step (max 1 attempts - 1) s

end loop

/-- One attempt at a file of a tree. -/
def once (p : Path) (t : FileTree) : Except FileFault Unit × FileTree :=
  match t.remove p with
  | .ok t => (.ok (), t)
  | .error fault => (.error fault, t)

/-- How often a removal is tried. -/
def usualAttempts : Nat := 10

end Restoration.Removal

namespace Restoration.FileTree

/-- The tree without a file, if the file can be removed; and why it cannot. -/
def removeHeld (t : FileTree) (p : Path) : Except FileFault Unit × FileTree :=
  Removal.remove (Removal.once p) Removal.usualAttempts t

/-- The tree without some files, as far as they can be removed. -/
def removeAll (t : FileTree) (ps : List Path) : FileTree :=
  ps.foldl (fun t p => (t.removeHeld p).2) t

end Restoration.FileTree
