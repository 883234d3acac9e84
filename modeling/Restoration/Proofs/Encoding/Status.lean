import Restoration.Proofs.Encoding.Course
import Restoration.Proofs.Encoding.Joining
import Restoration.Proofs.FileTree.Removal
import Restoration.Proofs.Job.Filing

/-!
# The status that an encoding leaves

An encoding that could file its job ends in one of three ways: with a report, without any frames to
encode, or with another fault on the way. Only in the first two the job gets a new status behind
the one of a running job:

    (run tools o b).1 = ok report          status = that of the report, and so filed
    (run tools o b).1 = error noFrames     status = failed, and so filed
    (run tools o b).1 = error other        status = running
-/

namespace Restoration

open FileTree Work

/-- Could the job not be filed, for lack of its folder or because its record could not be written? -/
def JobFault.ofFiling : JobFault → Bool
  | folder .. | record _ => true
  | _ => false

namespace Encoding

variable {τ α : Type} {tools : Toolbox τ} {o : EncodingOptions}

/-! ## What is due -/

/-- The status that tells how the encoding ended. -/
def statusDue : Except JobFault EncodingReport → JobStatus
  | .ok (.complete ..) => .success
  | .ok (.incomplete _ _ failures) => if 0 < failures then .failed else .pending
  | .ok .cancelled => .cancelled
  | .error _ => .failed

theorem statusDue_ne_running (r : Except JobFault EncodingReport) : statusDue r ≠ .running := by
  rcases r with fault | ⟨output, frames⟩ | ⟨framesLeft, position, failures⟩ | _
  · simp [statusDue]
  · simp [statusDue]
  · by_cases hfailures : 0 < failures <;> simp [statusDue, hfailures]
  · simp [statusDue]

/-- The record in the job's directory is that of the job as it is. -/
def Filed (b : Bench τ) : Prop :=
  b.desk.files.readText (b.job.path .record) = .ok b.job.recordText

/-- There is no record. -/
def Unfiled (b : Bench τ) : Prop := b.desk.files.pathExists (b.job.path .record) = false

/-- Is it another fault than that there are no frames? -/
def Other (fault : JobFault) : Prop := ∀ index, fault ≠ .noFrames index

/-- How a fault leaves the job. -/
inductive Broken (fault : JobFault) (b : Bench τ) : Prop where
  | unfiled (filing : fault.ofFiling = true)
  | noFrames (index : Nat) (eq : fault = .noFrames index) (failed : b.job.status = .failed)
      (filed : Filed b)
  | running (other : Other fault) (running : b.job.status = .running)

/-- How a report leaves the job. The record of a finished job is removed unless all files are
kept. -/
structure Settled (o : EncodingOptions) (report : EncodingReport) (b : Bench τ) : Prop where
  status : b.job.status = statusDue (.ok report)
  record : Filed b ∨ Unfiled b ∧ o.keepIntermediates = false ∧ b.job.status = .success

/-! ## Faults on the way -/

theorem faults_write (s : Script) (p : Path) : Faults Other (write s p : Work τ JobFault Unit) :=
  faults_change _ fun cause index h => by cases h

theorem faults_made (s : Except ScriptFault Script) :
    Faults Other (made s : Work τ JobFault Script) := by
  cases s with
  | ok s => exact .pure s
  | error fault => exact .throw fun index h => by cases h

theorem faults_prepareScripts (job : Job) : Faults Other (prepareScripts tools o job) := by
  rw [prepareScripts_eq]
  refine .bind (.bind .get fun d => .ite ?_ (.pure ())) fun _ => ?_
  · refine .bind (faults_made _) fun s => .bind (faults_write s _) fun _ => ?_
    exact faults_named _ fun e index h => by cases h
  · exact .bind .get fun d => .ite (.bind (faults_made _) fun s => faults_write s _) (.pure ())

theorem faults_prepareProbe (job : Job) :
    Faults Other (Survey.prepareProbe job : Work τ JobFault Unit) := by
  have hwrite : ∀ (p : Path) (s : String), Faults Other
      (change (fun t => t.write p s) fun cause => .script (.file p cause) : Work τ JobFault Unit) :=
    fun p s => faults_change _ fun cause index h => by cases h
  refine .bind (faults_look _ fun cause index h => by cases h) fun text => ?_
  exact .ite (.bind (hwrite _ _) fun _ => hwrite _ _) (hwrite _ _)

theorem faults_delete {fault : Path → FileFault → JobFault} (h : ∀ p cause, Other (fault p cause))
    (ps : List Path) : Faults Other (Survey.delete fault ps : Work τ JobFault Unit) := by
  induction ps with
  | nil => exact .pure ()
  | cons p rest ih =>
    intro d e d' hd
    rw [Survey.delete_cons] at hd
    split at hd
    · exact ih _ e d' hd
    · cases hd
      exact h p _

theorem faults_require {r : Except JobFault α} (h : ∀ fault, r = .error fault → Other fault) :
    Faults Other (Survey.require r : Work τ JobFault α) := by
  cases r with
  | ok a => exact .pure a
  | error fault => exact .throw (h fault rfl)

theorem other_of_measured {candidates : List (Path × Nat)} {counts : List (Except ToolFault Nat)}
    {fault : JobFault} (h : Survey.measured candidates counts = .error fault) : Other fault := by
  induction candidates generalizing counts with
  | nil => cases h
  | cons c rest ih =>
    cases counts with
    | nil => cases h
    | cons r counts =>
      obtain ⟨p, start⟩ := c
      have hothers : ∀ n, (do
          let others ← Survey.measured rest counts
          pure (⟨p, start, n⟩ :: others) : Except JobFault (List Fragment)) = .error fault →
          Other fault := by
        intro n hn
        cases hrest : Survey.measured rest counts with
        | error e =>
          rw [hrest] at hn
          cases hn
          exact ih hrest
        | ok others =>
          rw [hrest] at hn
          cases hn
      unfold Survey.measured at h
      cases r with
      | ok n => exact hothers n h
      | error missing =>
        dsimp only at h
        split at h
        · cases h
          exact fun index h => by cases h
        · exact hothers 0 h

theorem other_of_layOut {fragments : List Fragment} {total : Nat} {fault : JobFault}
    (h : Survey.layOut fragments total = .error fault) : Other fault := by
  unfold Survey.layOut at h
  split at h <;> cases h
  exact fun index h => by cases h

theorem other_of_totalFrames {r : Except ToolFault Nat} {fault : JobFault}
    (h : Survey.totalFrames r = .error fault) : Other fault := by
  unfold Survey.totalFrames at h
  split at h
  · cases h
  · split at h <;> cases h
    exact fun index h => by cases h

theorem faults_survey (job : Job) : Faults Other (job.survey tools) := by
  have hlist : Faults Other (Survey.list job : Work τ JobFault Survey.Listing) := by
    intro d e d' h index he
    rw [Survey.list_run, Survey.listFragments] at h
    split at h <;> cases h
    cases he
  have hcounts : ∀ candidates : List (Path × Nat), Faults Other
      (candidates.mapM fun candidate => (tools.mediaFrames candidate.1).outcome :
        Work τ JobFault (List (Except ToolFault Nat))) :=
    fun candidates => .of_ok fun d => ⟨_, _, Survey.mapM_mediaFrames_run tools candidates d⟩
  refine .bind (faults_prepareProbe job) fun _ => .bind (faults_outcome _) fun total => ?_
  refine .bind hlist fun listing => .bind (hcounts _) fun counts => ?_
  refine .bind (faults_require fun fault h => other_of_totalFrames h) fun total =>
    .ite (.pure _) ?_
  refine .bind faults_isCancelled fun raised => .ite (.pure _) ?_
  refine .bind (faults_delete (fun p cause index h => by cases h) _) fun _ => ?_
  refine .bind (faults_require fun fault h => other_of_measured h) fun fragments =>
    .bind (faults_require fun fault h => other_of_layOut h) fun layout => ?_
  exact .bind (faults_delete (fun p cause index h => by cases h) _) fun _ => .pure _

theorem faults_encodeAll (job : Job) (base : Script) (chunks : List FrameRange) :
    Faults Other (encodeAll tools o job base chunks) := by
  induction chunks with
  | nil => exact .pure []
  | cons c rest ih =>
    refine .bind faults_isCancelled fun raised => .ite (.pure []) ?_
    refine .bind (.bind (faults_write _ _) fun _ => ?_) fun r => .bind ih fun rs => .pure _
    exact .bind (faults_outcome _) fun r => .pure _

/-! ## Steps of a running job -/

/-- The job is marked as running. -/
def Running (b : Bench τ) : Prop := b.job.status = .running

/-- Work at the desk does not change the job. -/
theorem ends_onDesk {C : Job → Prop} {w : Work τ JobFault α} (h : Faults Other w)
    (hC : ∀ job, C job → job.status = .running) :
    Ends (fun b => C b.job) (onDesk w) (fun _ b => C b.job) Broken where
  ok hs hx := by
    rw [(onDesk_ok hx).2]
    exact hs
  fault hs hx := by
    refine .running (h _ _ _ (onDesk_ok hx).1) (hC _ ?_)
    rw [(onDesk_ok hx).2]
    exact hs

theorem runs_onDesk {w : Work τ JobFault α} (h : Faults Other w) :
    Ends Running (onDesk w) (fun _ => Running) Broken :=
  ends_onDesk (C := fun job => job.status = .running) h fun _ h => h

theorem ends_theJob {P : Bench τ → Prop} :
    Ends P (theJob : Encoding τ Job) (fun _ => P) Broken where
  ok hs hx := by
    cases hx
    exact hs
  fault hs hx := by cases hx

theorem runs_update {f : Job → Job} (h : ∀ job, (f job).status = job.status) :
    Ends Running (update f : Encoding τ Unit) (fun _ => Running) Broken where
  ok hs hx := by
    cases hx
    exact (h _).trans hs
  fault hs hx := by cases hx

theorem runs_encodeChunks (p : Progress) :
    Ends Running (encodeChunks tools o p) (fun _ => Running) Broken := by
  refine .bind ends_theJob fun job => ?_
  refine .bind (runs_onDesk (faults_look _ fun cause index h => by cases h)) fun text => ?_
  refine .bind (runs_onDesk (.of_ok fun d => ⟨_, _, rfl⟩)) fun _ => ?_
  refine .bind (runs_onDesk (faults_encodeAll job _ _)) fun rs => ?_
  refine .bind (Q := fun _ => Running) ⟨fun hs hx => by cases hx; exact hs, fun _ hx => by cases hx⟩
    fun b => ?_
  refine .bind (runs_update fun job => rfl) fun _ => ?_
  exact .bind (runs_onDesk (.of_ok fun d => ⟨_, _, rfl⟩)) fun _ => .pure fun _ hs => hs

/-! ## Filing -/

/-- A job that is filed with a status has it, and so has its record. -/
theorem ends_saveAs (C : Job → Prop) (status : JobStatus) :
    Ends (fun b : Bench τ => C b.job) (saveAs status)
      (fun _ b => (∃ job, C job ∧ b.job = { job with status := status }) ∧ Filed b) Broken where
  ok hs hx := by
    rw [saveAs_run, save_run] at hx
    split at hx
    · rename_i files hstore
      cases hx
      exact ⟨⟨_, hs, rfl⟩, Job.readText_of_storeAt hstore⟩
    · cases hx
  fault _ hx := by
    rw [saveAs_run, save_run] at hx
    split at hx <;> cases hx
    exact .unfiled rfl

theorem marks_saveAs (C : Job → Prop) (status : JobStatus) :
    Ends (fun b : Bench τ => C b.job) (saveAs status)
      (fun _ b => b.job.status = status ∧ Filed b) Broken := by
  refine (ends_saveAs C status).mono (fun b h => h) (fun _ b h => ?_) fun fault b h => h
  obtain ⟨⟨job, -, hjob⟩, hfiled⟩ := h
  exact ⟨by rw [hjob], hfiled⟩

theorem ends_finish (p : Progress) : Ends Running (finish tools o p)
    (fun _ b => b.job.status = .success ∧ (Filed b ∨ Unfiled b ∧ o.keepIntermediates = false))
    Broken := by
  refine .bind (Q := fun job b => b.job = job ∧ job.status = .running)
    ⟨fun hs hx => by cases hx; exact ⟨rfl, hs⟩, fun _ hx => by cases hx⟩ fun job => ?_
  have hC : ∀ j, j = job ∧ job.status = .running → j.status = .running := by
    rintro j ⟨rfl, hj⟩
    exact hj
  refine .bind (ends_onDesk (faults_change _ fun cause index h => by cases h) hC) fun _ => ?_
  refine .bind (ends_onDesk (faults_named _ fun e index h => by cases h) hC) fun _ => ?_
  refine .bind (ends_saveAs (fun j => j = job ∧ job.status = .running) .success) fun _ =>
    .ite (fun hkeep => ?_) fun _ => ?_
  · -- the record goes last
    refine .bind (Q := fun _ b => b.job.status = .success ∧ Unfiled b)
      ⟨fun {b b' _} hs hx => ?_, fun _ hx => by cases hx⟩ fun _ => .pure fun b h => ?_
    · obtain ⟨⟨j, ⟨rfl, -⟩, hj⟩, hfiled⟩ := hs
      cases hx
      refine ⟨by rw [hj], ?_⟩
      have hpath : ({ j with status := .success } : Job).path .record = j.path .record := rfl
      rw [Filed, hj, hpath] at hfiled
      simp only [Unfiled, hj, hpath, removeIntermediates]
      exact not_exists_removeAll hfiled (intermediates b.desk.files j p.fragments)
    · exact ⟨h.1, .inr ⟨h.2, by simpa using hkeep⟩⟩
  · refine .pure fun b h => ?_
    obtain ⟨⟨j, -, hj⟩, hfiled⟩ := h
    exact ⟨by rw [hj], .inl hfiled⟩

/-! ## The whole encoding -/

/-- Work that last files the job under the status of its report settles it. -/
theorem ends_report {status : JobStatus} {report : EncodingReport}
    (h : status = statusDue (.ok report)) :
    Ends Running (saveAs status >>= fun _ => pure report : Encoding τ EncodingReport) (Settled o)
      Broken := by
  refine .bind (marks_saveAs (fun job => job.status = .running) status) fun _ => .pure fun b hb => ?_
  exact ⟨hb.1.trans h, .inl hb.2⟩

theorem ends_wrapUp (failures : Nat) :
    Ends Running (wrapUp tools o failures) (Settled o) Broken := by
  refine .bind ends_theJob fun job => .bind (runs_onDesk (faults_survey job)) fun p => ?_
  refine .bind (runs_onDesk faults_isCancelled) fun raised => .ite (fun _ => ends_report rfl)
    fun _ => ?_
  refine .bind (runs_update fun job => rfl) fun _ => ?_
  refine .ite (fun _ => ends_report rfl) fun _ => ?_
  refine .bind (ends_finish p) fun output => .pure fun b hb => ⟨hb.1, ?_⟩
  exact hb.2.imp id fun h => ⟨h.1, h.2, hb.1⟩

theorem ends_run : Ends (fun _ => True) (run tools o) (Settled o) Broken := by
  refine ends_run_of (M := fun _ => True) (fun directory => ⟨fun _ _ => trivial, fun _ hx => ?_⟩) ?_
    (fun job => runs_onDesk (faults_prepareScripts job)) (fun job => runs_onDesk (faults_survey job))
    (runs_onDesk faults_isCancelled) (ends_report rfl) ?_ runs_encodeChunks ends_wrapUp
  · obtain ⟨cause, rfl⟩ := change_fault (onDesk_ok hx).1
    exact .unfiled rfl
  · exact (marks_saveAs (fun _ => True) .running).mono (fun b h => h) (fun _ b h => h.1)
      fun fault b h => h
  · -- the only fault that is told by the status
    refine .bind (marks_saveAs (fun job => job.status = .running) .failed) fun _ => ?_
    exact .bind ends_theJob fun job => .throw fun b hb => .noFrames _ rfl hb.1 hb.2

/-- **The status tells how the encoding ended**, unless it ended with a fault on the way: then the job
is left marked as running. -/
theorem run_status {b b' : Bench τ} {r : Except JobFault EncodingReport}
    (h : run tools o b = (r, b')) (hfiling : ∀ fault, r = .error fault → fault.ofFiling = false) :
    (b'.job.status = statusDue r ↔ ∀ fault, r = .error fault → ∃ index, fault = .noFrames index) ∧
      (b'.job.status = .running ↔ ∃ fault, r = .error fault ∧ Other fault) ∧
      (b'.job.status = statusDue r →
        Filed b' ∨ Unfiled b' ∧ o.keepIntermediates = false ∧ b'.job.status = .success) := by
  cases r with
  | ok report =>
    have hsettled := ends_run.ok trivial h
    refine ⟨iff_of_true hsettled.status (fun fault h => by cases h), iff_of_false ?_ ?_, ?_⟩
    · rw [hsettled.status]
      exact statusDue_ne_running _
    · rintro ⟨fault, h, -⟩
      cases h
    · exact fun _ => hsettled.record
  | error fault =>
    cases ends_run.fault trivial h with
    | unfiled filing =>
      rw [hfiling fault rfl] at filing
      cases filing
    | noFrames index eq failed filed =>
      subst eq
      refine ⟨iff_of_true failed fun fault h => ⟨index, by cases h; rfl⟩, iff_of_false ?_ ?_,
        fun _ => .inl filed⟩
      · rw [failed]
        decide
      · rintro ⟨fault, h, hother⟩
        cases h
        exact hother index rfl
    | running other running =>
      refine ⟨iff_of_false ?_ ?_, iff_of_true running ⟨fault, rfl, other⟩, fun hdue => ?_⟩
      · rw [running]
        exact (statusDue_ne_running _).symm
      · intro h
        obtain ⟨index, hindex⟩ := h fault rfl
        exact other index hindex
      · rw [running] at hdue
        cases hdue

theorem run_status_fresh :
    (run twoFrameTools {} freshBench).1.toOption = some (.complete ⟨"/jobs/Job1_Final.mkv"⟩ 2) ∧
      (run twoFrameTools {} freshBench).2.job.status =
        statusDue (run twoFrameTools {} freshBench).1 := by
  have hreport : (run twoFrameTools {} freshBench).1.toOption =
      some (.complete ⟨"/jobs/Job1_Final.mkv"⟩ 2) := by decide +kernel
  have hok : ∀ fault, (run twoFrameTools {} freshBench).1 ≠ .error fault := by
    intro fault h
    rw [h] at hreport
    cases hreport
  have hstatus := run_status (Prod.eta (run twoFrameTools {} freshBench)).symm
    fun fault h => absurd h (hok fault)
  exact ⟨hreport, hstatus.1.2 fun fault h => absurd h (hok fault)⟩

/-- The tools of which the last one fails. -/
def unjoiningTools : Toolbox Unit :=
  { twoFrameTools with join := fun _ _ _ => throw (.cancelled "ffmpeg") }

/-- A job whose fragments cannot be joined stays marked as running. -/
theorem left_running :
    (run unjoiningTools {} freshBench).1 = .error (.joining 1 (.cancelled "ffmpeg")) ∧
      (run unjoiningTools {} freshBench).2.job.status = .running ∧
      statusDue (run unjoiningTools {} freshBench).1 = .failed := by
  have hfault : (run unjoiningTools {} freshBench).1 =
      .error (.joining 1 (.cancelled "ffmpeg")) := by decide +kernel
  exact ⟨hfault, by decide +kernel, by rw [hfault]; rfl⟩

end Encoding

end Restoration
