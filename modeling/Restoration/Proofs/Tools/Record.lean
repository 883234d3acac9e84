import Restoration.Proofs.FileTree.SameBut
import Restoration.Proofs.Work

/-!
# Records of tool calls

A watched toolbox does what the toolbox does, and keeps a record of the calls beside what the tools
keep for themselves. Tools are tidy if they write no file but the one they are given to write.

    Adds P d d'  ↔  d'.calls = d.calls ++ new, where P holds of each new call
-/

namespace Restoration

open FileTree

variable {τ σ ε α : Type}

/-- One call of a tool and how it ended. -/
inductive ToolCall where
  | ran (script : Path) (outcome : Except ToolFault Unit)
  | encoded (script output : Path) (outcome : Except ToolFault Unit)
  | counted (probe side : Path) (outcome : Except ToolFault Nat)
  | measured (media : Path) (outcome : Except ToolFault Nat)
  /-- The files and the flag are those that the tool finds. -/
  | joined (files : FileTree) (cancelled : Bool) (concatList output : Path)
    (outcome : Except ToolFault Unit)

namespace ToolCall

end ToolCall

/-- What watched tools keep: what the tools keep, and the record. -/
abbrev Watched (τ : Type) := τ × List ToolCall

namespace Desk

/-- The desk with something else kept by the tools. -/
def withTools (d : Desk τ) (tools : σ) : Desk σ := { d with tools := tools }

/-- The desk with an empty record. -/
def watched (d : Desk τ) : Desk (Watched τ) := d.withTools (d.tools, [])

/-- The desk without its record. -/
def unwatched (d : Desk (Watched τ)) : Desk τ := d.withTools d.tools.1

/-- The record. -/
def calls (d : Desk (Watched τ)) : List ToolCall := d.tools.2

end Desk

namespace Work

/-- Work whose end is noted in the record. -/
def watched (call : Desk τ → Except ToolFault α → ToolCall) (w : Work τ ToolFault α) :
    Work (Watched τ) ToolFault α :=
  fun d =>
    let (r, d') := w d.unwatched
    (r, d'.withTools (d'.tools, d.calls ++ [call d.unwatched r]))

end Work

namespace Toolbox

/-- The toolbox with a record of all calls. -/
def watched (tools : Toolbox τ) : Toolbox (Watched τ) where
  runScript script o := (tools.runScript script o).watched fun _ => .ran script
  encode script output job o :=
    (tools.encode script output job o).watched fun _ => .encoded script output
  scriptFrames probe side := (tools.scriptFrames probe side).watched fun _ => .counted probe side
  mediaFrames media := (tools.mediaFrames media).watched fun _ => .measured media
  join concatList output job :=
    (tools.join concatList output job).watched fun d =>
      .joined d.files d.cancelled concatList output

/-- Probes write their side file and encoders their output, and otherwise leave the files alone. -/
structure Tidy (tools : Toolbox τ) : Prop where
  scriptFrames : ∀ probe side d, SameBut (d.files.resolve side = .ok ·) d.files
    (tools.scriptFrames probe side d).2.files
  mediaFrames : ∀ media d, SameBut (fun _ => False) d.files (tools.mediaFrames media d).2.files
  encode : ∀ script output job o d, SameBut (d.files.resolve output = .ok ·) d.files
    (tools.encode script output job o d).2.files

/-- Watching tools does not make them write. -/
theorem Tidy.watched {tools : Toolbox τ} (h : tools.Tidy) : tools.watched.Tidy where
  scriptFrames probe side d := h.scriptFrames probe side d.unwatched
  mediaFrames media d := h.mediaFrames media d.unwatched
  encode script output job o d := h.encode script output job o d.unwatched

end Toolbox

/-! ## What is added to a record -/

namespace Work

theorem change_write_ok {p : Path} {s : String} {fault : FileFault → ε} {d d' : Desk τ}
    (h : change (fun t => t.write p s) fault d = (.ok (), d')) :
    d' = { d with files := d'.files } ∧
      SameBut (d.files.resolve p = .ok ·) d.files d'.files := by
  obtain ⟨t, ht, rfl⟩ := change_ok h
  exact ⟨rfl, sameBut_write ht⟩

end Work

namespace Toolbox

variable {tools : Toolbox τ} {d d' : Desk (Watched τ)}

theorem encode_calls {script output : Path} {job : Job} {o : RunOptions}
    {r : Except ToolFault Unit} (h : tools.watched.encode script output job o d = (r, d')) :
    d'.calls = d.calls ++ [.encoded script output r] := by
  cases h
  rfl

theorem scriptFrames_calls {probe side : Path} {r : Except ToolFault Nat}
    (h : tools.watched.scriptFrames probe side d = (r, d')) :
    d'.calls = d.calls ++ [.counted probe side r] := by
  cases h
  rfl

theorem mediaFrames_calls {media : Path} {r : Except ToolFault Nat}
    (h : tools.watched.mediaFrames media d = (r, d')) :
    d'.calls = d.calls ++ [.measured media r] := by
  cases h
  rfl

end Toolbox

/-- The record is continued by calls of a kind. -/
def Adds (P : ToolCall → Prop) (k k' : Watched τ) : Prop := ∃ new, k'.2 = k.2 ++ new ∧ ∀ c ∈ new, P c

theorem steady_adds (P : ToolCall → Prop) : Steady (Adds P : Watched τ → Watched τ → Prop) where
  refl k := ⟨[], by simp⟩
  trans := by
    rintro k k' k'' ⟨new, h, hnew⟩ ⟨new', h', hnew'⟩
    refine ⟨new ++ new', by rw [h', h, List.append_assoc], fun c hc => ?_⟩
    exact (List.mem_append.1 hc).elim (hnew c) (hnew' c)

theorem Adds.one {P : ToolCall → Prop} {d d' : Desk (Watched τ)} {c : ToolCall}
    (h : d'.calls = d.calls ++ [c]) (hc : P c) : OnTools (Adds P) d d' :=
  ⟨[c], h, by simpa using hc⟩

end Restoration
