import Restoration.CommandLine.Performance
import Restoration.Proofs.Work

/-!
# Commands step by step

The steps of a command act on a console like work on a desk: a step that reads leaves everything as it
was, and one that changes the files touches nothing else.
-/

namespace Restoration.CommandLine.Act

variable {α ε : Type} {fault : ε → CommandFault} {c c' : Console}

theorem files_run (c : Console) : files c = (.ok c.desk.files, c) := rfl

theorem setFiles_run (t : FileTree) (c : Console) :
    setFiles t c = (.ok (), { c with desk := { c.desk with files := t } }) := rfl

theorem require_ok {α ε : Type} (fault : ε → CommandFault) (a : α) (c : Console) :
    require fault (.ok a) c = (.ok a, c) := rfl

theorem ok_of_require {r : Except ε α} {a : α} (h : require fault r c = (.ok a, c')) :
    r = .ok a ∧ c' = c := by
  cases r with
  | ok a' =>
    cases h
    exact ⟨rfl, rfl⟩
  | error e => cases h

theorem change_run (f : FileTree → Except ε FileTree) (c : Console) :
    change f fault c = match f c.desk.files with
      | .ok t => (.ok (), { c with desk := { c.desk with files := t } })
      | .error e => (.error (fault e), c) := by
  simp only [change, bind_run, files_run]
  cases f c.desk.files <;> rfl

theorem change_ok {f : FileTree → Except ε FileTree} (h : change f fault c = (.ok (), c')) :
    ∃ t, f c.desk.files = .ok t ∧ c' = { c with desk := { c.desk with files := t } } := by
  rw [change_run] at h
  split at h
  · rename_i t ht
    cases h
    exact ⟨t, ht, rfl⟩
  · cases h

theorem atDesk_run (w : StateM (Desk Unit) α) (c : Console) :
    atDesk w c = (.ok (w c.desk).1, { c with desk := (w c.desk).2 }) := rfl

theorem onDesk_ok {w : Work Unit ε α} {a : α} (h : onDesk fault w c = (.ok a, c')) :
    w c.desk = (.ok a, c'.desk) ∧ c'.threads = c.threads := by
  unfold onDesk at h
  split at h
  · rename_i hw
    cases h
    exact ⟨hw, rfl⟩
  · cases h

theorem require_state (r : Except ε α) (c : Console) : (require fault r c).2 = c := by
  cases r <;> rfl

/-- The settings of the machine are only read. -/
theorem machine_state (o : Options) (c : Console) : (machine o c).2 = c := by
  simp only [machine, currentFolder, bind_run, files_run]
  exact require_state _ c

theorem machine_ok {o : Options} {m : Machine} (h : machine o c = (.ok m, c')) : c' = c := by
  rw [← machine_state o c, h]

/-- So is a record. -/
theorem loadJob_ok {record : Path} {job : Job} (h : loadJob record c = (.ok job, c')) :
    Job.load c.desk.files record = .ok job ∧ c' = c := by
  obtain ⟨t, c₁, hfiles, h⟩ := bind_ok h
  cases hfiles
  exact ok_of_require h

end Restoration.CommandLine.Act
