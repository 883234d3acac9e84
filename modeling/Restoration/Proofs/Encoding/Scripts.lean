import Restoration.Proofs.Encoding.Chunks

/-!
# Scripts of an encoding

An encoding prepares two scripts, one behind the other. The engine runs the first pass of the
stabilizer from a script of its own; only then is the script of the job made, if there still is none:

    prepareScripts  =  motionPass, then fileScript
-/

namespace Restoration.Encoding

variable {τ : Type} {tools : Toolbox τ} {o : EncodingOptions} {job : Job} {d d' : Desk τ}

/-- Runs the stabilizer's first pass if its log is needed and missing. -/
def motionPass (tools : Toolbox τ) (o : EncodingOptions) (job : Job) : Work τ JobFault Unit := do
  if job.stabilization.isSome && !(← get).files.pathExists (job.path .motionLog) then
    let script ← made (job.compileMotion (EncodingOptions.engineFor o job))
    write script (job.path .motionScript)
    Work.named .motionPass (tools.runScript (job.path .motionScript).forEngine o.run)

/-- Makes the job's script if there is none. -/
def fileScript (o : EncodingOptions) (job : Job) : Work τ JobFault Unit := do
  if !(← get).files.pathExists (job.path .script) then
    let script ← made (job.compile (EncodingOptions.engineFor o job))
    write script (job.path .script)

theorem prepareScripts_eq (tools : Toolbox τ) (o : EncodingOptions) (job : Job) :
    prepareScripts tools o job = (do motionPass tools o job; fileScript o job) := by
  simp only [prepareScripts, motionPass, fileScript, bind_assoc]
  refine bind_congr fun d => ?_
  split
  · simp only [bind_assoc]
  · rfl

theorem made_ok {r : Except ScriptFault Script} {s : Script}
    (h : (made r : Work τ JobFault Script) d = (.ok s, d')) : r = .ok s ∧ d' = d := by
  cases r with
  | ok s' =>
    cases h
    exact ⟨rfl, rfl⟩
  | error fault => cases h

/-- A script that is missing is compiled and written. -/
theorem fileScript_ok (hmissing : d.files.pathExists (job.path .script) = false)
    (h : fileScript o job d = (.ok (), d')) :
    ∃ s, job.compile (EncodingOptions.engineFor o job) = .ok s ∧
      d.files.write (job.path .script) s.text = .ok d'.files := by
  obtain ⟨u, d₁, hget, h⟩ := bind_ok h
  cases hget
  rw [hmissing] at h
  obtain ⟨s, d₁, hmade, hwrite⟩ := bind_ok h
  obtain ⟨hs, rfl⟩ := made_ok hmade
  obtain ⟨t, ht, rfl⟩ := Work.change_ok hwrite
  exact ⟨s, hs, ht⟩

/-- The start of an encoding up to the script of its job. Gives the job as it is then. -/
def begun (tools : Toolbox τ) (o : EncodingOptions) : Encoding τ Job := do
  let directory := (← theJob).directory
  onDesk (Work.change (fun t => t.makeFolders directory) (.folder directory))
  saveAs .running
  let job ← theJob
  onDesk (motionPass tools o job)
  return job

/-- An encoding begins, makes the script of its job, and goes on. -/
theorem exists_run_eq (tools : Toolbox τ) (o : EncodingOptions) :
    ∃ rest : Encoding τ EncodingReport, run tools o = (do
      let job ← begun tools o
      onDesk (fileScript o job)
      rest) := by
  have honDesk : ∀ (w : Work τ JobFault Unit) (v : Work τ JobFault Unit),
      onDesk (do w; v) = (do onDesk w; onDesk v) := by
    intro w v
    funext b
    rw [bind_run, onDesk_run, onDesk_run, bind_run]
    rcases w b.desk with ⟨_ | _, _⟩ <;> rfl
  simp only [run, begun, prepareScripts_eq, honDesk, bind_assoc, pure_bind]
  exact ⟨_, rfl⟩

/-- The job as it is then is marked as running. -/
theorem begun_ok {b b' : Bench τ} (h : begun tools o b = (.ok job, b')) :
    job = { b.job with status := .running } := by
  obtain ⟨_, _, hjob, h⟩ := bind_ok h
  cases hjob
  obtain ⟨_, b₁, hfolder, h⟩ := bind_ok h
  obtain ⟨_, b₂, hsave, h⟩ := bind_ok h
  obtain ⟨_, _, hjob, h⟩ := bind_ok h
  cases hjob
  obtain ⟨_, _, -, h⟩ := bind_ok h
  cases h
  rw [(saveAs_ok hsave).1, (onDesk_ok hfolder).2]

end Restoration.Encoding
