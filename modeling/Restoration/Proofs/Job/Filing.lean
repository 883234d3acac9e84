import Restoration.Job.Filing
import Restoration.Proofs.FileTree.Making

/-!
# Records and scripts in files

A job that could be filed has the text of its record in the file, and a script its own text:

    j.storeAt p t = ok t'   →   t'.readText p = ok j.recordText
-/

namespace Restoration

open FileTree

theorem Script.store_ok_iff {s : Script} {p : Path} {t t' : FileTree} :
    s.store p t = .ok t' ↔ t.write p s.text = .ok t' := by
  rw [store]
  cases t.write p s.text <;> simp [Except.mapError]

namespace Job

variable {j : Job} {p : Path} {t t' : FileTree}

theorem storeAt_ok_iff : j.storeAt p t = .ok t' ↔ t.writeMaking p j.recordText = .ok t' := by
  rw [storeAt]
  cases t.writeMaking p j.recordText <;> simp [Except.mapError]

theorem readText_of_storeAt (h : j.storeAt p t = .ok t') : t'.readText p = .ok j.recordText := by
  obtain ⟨u, -, -, hwrite⟩ := writeMaking_ok (storeAt_ok_iff.1 h)
  exact readText_of_write hwrite

end Job

end Restoration
