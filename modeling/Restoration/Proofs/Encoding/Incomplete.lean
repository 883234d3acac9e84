import Restoration.Proofs.Encoding.Status
import Restoration.Proofs.Job.Record
import Restoration.Proofs.Survey.Coverage

/-!
# What an incomplete encoding reports

An encoding that leaves frames out says how many, and from which frame on the job can be taken up. Both
come from its last survey. If that one counts the frames of the source, the report is right:

    ∀ m < position, Covers job t measures m        ¬ Covers job t measures position        0 < left

If it does not, nothing is known, and the report is the one of a job without any frame: 0 left, from 0.
-/

namespace Restoration

open FileTree Work Survey

variable {τ : Type} {tools : Toolbox τ} {o : EncodingOptions} {job : Job}

/-- Orderly tools that leave a regular tree regular, whatever they do to it. -/
structure Toolbox.Regular (tools : Toolbox τ) : Prop extends tools.Orderly where
  ran : ∀ script o (d : Desk τ), d.files.Regular → (tools.runScript script o d).2.files.Regular
  encoded : ∀ script output job o (d : Desk τ), d.files.Distinct →
    (tools.encode script output job o d).2.files.Distinct
  measured : ∀ media (d : Desk τ), d.files.Distinct → (tools.mediaFrames media d).2.files.Distinct

theorem Toolbox.Regular.watched (h : tools.Regular) : tools.watched.Regular where
  toOrderly := h.toOrderly.watched
  ran script o d := h.ran script o d.unwatched
  encoded script output job o d := h.encoded script output job o d.unwatched
  measured media d := h.measured media d.unwatched

namespace Encoding

/-! ## Regular trees -/

/-- A regular tree stays regular. -/
def KeepsRegular (d d' : Desk τ) : Prop := d.files.Regular → d'.files.Regular

theorem steady_keeps : Steady (KeepsRegular (τ := τ)) := ⟨fun _ => id, fun h h' hd => h' (h hd)⟩

theorem keeps_write (p : Path) (s : String) (d : Desk τ) (t : FileTree)
    (h : d.files.write p s = .ok t) : KeepsRegular d { d with files := t } := fun hd => hd.write h

section

variable (htools : tools.Regular)

include htools

theorem keeps_survey (job : Job) : Always KeepsRegular (job.survey tools) := by
  refine always_survey_steps steady_keeps job (fun _ => id) (fun _ _ s d t => keeps_write _ s d t)
    (fun d p hd => hd.removeHeld p) (fun probe side d hd => ?_) fun media d hd => ?_
  · exact ⟨htools.distinct _ _ d hd.distinct,
      hd.named.of_sameBut (htools.scriptFrames probe side d) fun _ hq => ⟨side, hq⟩⟩
  · exact ⟨htools.measured _ d hd.distinct,
      hd.named.of_sameBut (htools.mediaFrames media d) fun _ => False.elim⟩

theorem keeps_prepareScripts (job : Job) : Always KeepsRegular (prepareScripts tools o job) :=
  always_prepareScripts steady_keeps job (fun _ _ s d t => keeps_write _ s d t) (htools.ran _ _)

theorem keeps_encodeAll (job : Job) (base : Script) (chunks : List FrameRange) :
    Always KeepsRegular (encodeAll tools o job base chunks) := by
  refine always_encodeAll steady_keeps job (fun _ => id) keeps_write (fun script output d hd => ?_)
    base chunks
  exact ⟨htools.encoded _ _ _ _ d hd.distinct,
    hd.named.of_sameBut (htools.encode script output job o.run d) fun _ hq => ⟨output, hq⟩⟩

end

/-! ## A job on its way -/

/-- The second job is the first one, only further on. -/
def Further (job job' : Job) : Prop := ∃ status position processes,
  job' = { job with status := status, resumePosition := position, processes := processes }

/-- A survey does not see how far the job got. -/
theorem Further.survey_eq {job' : Job} (h : Further job job') :
    job'.survey tools = job.survey tools := by
  obtain ⟨status, position, processes, rfl⟩ := h
  rfl

theorem Further.path_eq {job' : Job} (h : Further job job') (f : JobFile) :
    job'.path f = job.path f := by
  obtain ⟨status, position, processes, rfl⟩ := h
  cases f <;> rfl

/-- The tree is regular, and the job is on its way. -/
structure Ready (job : Job) (b : Bench τ) : Prop where
  regular : b.desk.files.Regular
  further : Further job b.job

theorem ready_onDesk {α : Type} {w : Work τ JobFault α} (h : Always KeepsRegular w) :
    Ends (Ready job) (onDesk w) (fun _ => Ready job) fun _ _ => True := by
  refine .of_ok fun hs hx => ?_
  obtain ⟨hw, hjob⟩ := onDesk_ok hx
  exact ⟨h.apply hw hs.regular, hjob ▸ hs.further⟩

theorem ready_theJob : Ends (Ready job) (theJob : Encoding τ Job)
    (fun j b => Ready job b ∧ b.job = j) fun _ _ => True := by
  refine .of_ok fun hs hx => ?_
  cases hx
  exact ⟨hs, rfl⟩

theorem ready_update {f : Job → Job} (h : ∀ j, Further job j → Further job (f j)) :
    Ends (Ready job) (update f : Encoding τ Unit) (fun _ => Ready job) fun _ _ => True := by
  refine .of_ok fun hs hx => ?_
  cases hx
  exact ⟨hs.regular, h _ hs.further⟩

theorem ready_saveAs (status : JobStatus) :
    Ends (Ready job) (saveAs status : Encoding τ Unit) (fun _ => Ready job) fun _ _ => True := by
  refine .of_ok fun hs hx => ?_
  obtain ⟨hjob, -⟩ := saveAs_ok hx
  obtain ⟨_, position, processes, hfurther⟩ := hs.further
  exact ⟨hs.regular.writeMaking (Job.storeAt_ok_iff.1 (saveAs_store hx)),
    status, position, processes, by rw [hjob, hfurther]⟩

theorem ready_encodeChunks (htools : tools.Regular) (p : Progress) :
    Ends (Ready job) (encodeChunks tools o p) (fun _ => Ready job) fun _ _ => True := by
  refine .bind ready_theJob fun j => ?_
  refine .bind (Q := fun _ => Ready job) (.of_ok fun hs hx => ?_) fun text => ?_
  · exact (ready_onDesk (always_look steady_keeps _ _)).ok hs.1 hx
  refine .bind (ready_onDesk fun _ => id) fun _ => ?_
  refine .bind (ready_onDesk (keeps_encodeAll htools j _ _)) fun rs => ?_
  refine .bind (Q := fun _ => Ready job) (.of_ok fun hs hx => by cases hx; exact hs) fun b => ?_
  refine .bind (ready_update ?_) fun _ => ?_
  · rintro _ ⟨status, position, -, rfl⟩
    exact ⟨status, position, _, rfl⟩
  exact .bind (ready_onDesk fun d hd => hd.removeAll _) fun _ => .pure fun _ hs => hs

/-! ## What the last survey tells -/

/-- The files in the job's directory cover all frames of the source ahead of `position` but not that
one, and `left` frames in all are not covered. Nothing else there is taken for a fragment. -/
structure Gap (job : Job) (t : FileTree) (measures : List ToolCall) (total left position : Nat) :
    Prop where
  pos : 0 < left
  uncovered : ∃ frames : List Nat, frames.Nodup ∧ frames.length = left ∧
    ∀ m, m ∈ frames ↔ m < total ∧ ¬ Covers job t measures m
  within : position < total
  missing : ¬ Covers job t measures position
  covered : ∀ m < position, Covers job t measures m
  sound : ∀ n q, Entry job t n q → job.classify n ≠ .foreign → ∃ s r, job.classify n = .start s ∧
    .measured (job.directory.join ⟨n⟩) r ∈ measures ∧ s < total ∧ 0 < r.toOption.getD 0

/-- What the answer of the probe makes of a report. -/
inductive Tells (job : Job) (t : FileTree) (measures : List ToolCall) (left position : Nat) :
    Except ToolFault Nat → Prop where
  | known {total : Nat} (pos : 0 < total) (gap : Gap job t measures total left position) :
      Tells job t measures left position (.ok total)
  | unknown {answer : Except ToolFault Nat} (uncounted : ∀ total, answer = .ok total → total = 0)
      (none_left : left = 0) (from_start : position = 0) : Tells job t measures left position answer

/-- The last calls of tools are those of a survey that tells what is reported. -/
def Reports (job : Job) (t : FileTree) (left position : Nat) (calls : List ToolCall) : Prop :=
  ∃ earlier answer measures,
    calls = earlier ++ .counted (job.path .frameCountScript) (job.path .frameCount) answer ::
      measures ∧
    (∀ c ∈ measures, ∃ media r, c = .measured media r) ∧ Tells job t measures left position answer

variable {d d₃ : Desk τ} {t t' : FileTree} {p : Progress} {listing : Listing}
  {counts : List (Except ToolFault Nat)} {total : Nat} {measures calls : List ToolCall}
  {left position : Nat}

theorem gap_of_finds (htools : tools.Orderly) (hregular : d.files.Regular) (hpos : 0 < total)
    (h : Finds tools job d (.ok total) listing counts d₃)
    (hdeletes : Deletes (listing.corrupt ++ rejects listing counts total) d₃.files t')
    (hp : p = .ofLayout total (.ofFragments (weighed listing.candidates counts) total))
    (hincomplete : p.isComplete = false) :
    Gap job t' (measuresOf listing counts) total p.framesLeft p.resumePosition := by
  subst hp
  obtain ⟨hwithin, hleft⟩ := Layout.resumePosition_lt _ _ hpos hincomplete
  obtain ⟨hmissing, hleast⟩ :=
    Layout.isLeast_resumePosition (weighed listing.candidates counts) total
  have hcovers := fun m => h.covers_iff (m := m) htools hregular hdeletes
  refine ⟨hleft, ?_, hwithin, ?_, fun m hm => ?_, fun n q hentry hn =>
    h.sound_of_there htools hregular hdeletes hentry hn⟩
  · have hlength := FrameRange.length_framesOf
      (Layout.ofFragments (weighed listing.candidates counts) total).left
    refine ⟨_, Layout.nodup_framesOf_left _ total, hlength, fun m => ?_⟩
    rw [Layout.mem_framesOf_left]
    refine and_congr_right fun hm => ?_
    rw [hcovers m hm]
    push Not
    rfl
  · rw [hcovers _ hwithin]
    rintro ⟨r, hr, hholds⟩
    exact hmissing r hr hholds
  · rw [hcovers m (Nat.lt_trans hm hwithin)]
    by_contra hnone
    push Not at hnone
    exact Nat.not_le.2 hm (hleast hnone)

theorem unknown_of_uncounted {answer : Except ToolFault Nat} {raised : Prop}
    (h : ∀ total, answer = .ok total → total = 0) :
    answer = .ok 0 ∨ (∃ fault, answer = .error fault) ∨ raised := by
  cases answer with
  | ok total => exact .inl (congrArg _ (h total rfl))
  | error fault => exact .inr (.inl ⟨fault, rfl⟩)

theorem eq_of_nothingKnown {answer : Except ToolFault Nat} (h : nothingKnown answer = .ok p) :
    p = {} := by
  unfold nothingKnown at h
  split at h
  · split at h <;> cases h
    rfl
  · cases h
    rfl

/-- The report of a survey that was not asked to stop. -/
theorem reports_of_survey {d d' : Desk (Watched τ)} (htools : tools.Regular)
    (hregular : d.files.Regular) (h : job.survey tools.watched d = (.ok p, d'))
    (hflag : d'.cancelled = false) (hincomplete : p.isComplete = false) :
    Reports job d'.files p.framesLeft p.resumePosition d'.calls := by
  rcases survey_cases tools.watched job d with
    ⟨⟨fault, hfailed, -⟩, -⟩ | ⟨answer, listing, counts, d₃, hfinds, -⟩
  · rw [hfailed] at h
    cases h
  have hcalls := hfinds.calls
  rw [h] at hcalls
  refine ⟨d.calls, answer, measuresOf listing counts, hcalls, fun c hc => ?_, ?_⟩
  · obtain ⟨⟨media, r⟩, -, rfl⟩ := List.mem_map.1 hc
    exact ⟨media, r, rfl⟩
  by_cases hknown : ∃ total, answer = .ok total ∧ 0 < total
  · obtain ⟨total, rfl, hpos⟩ := hknown
    have hraised := hfinds.not_raised hpos (by rw [h]; exact hflag)
    obtain ⟨-, -, hp, hdeletes⟩ := hfinds.completes hpos hraised (p := p) (by rw [h])
    rw [h] at hdeletes
    exact .known hpos
      (gap_of_finds htools.watched.toOrderly hregular hpos hfinds hdeletes hp hincomplete)
  · have huncounted : ∀ total, answer = .ok total → total = 0 := fun total htotal =>
      Nat.eq_zero_of_not_pos fun hpos => hknown ⟨total, htotal, hpos⟩
    -- nothing is known of the job
    have hnothing : p = {} := by
      have hends := (hfinds.leaves (unknown_of_uncounted huncounted)).1
      rw [h] at hends
      exact eq_of_nothingKnown hends.symm
    subst hnothing
    exact .unknown huncounted rfl rfl

theorem there_of_survey {d d' : Desk τ} (htidy : tools.Tidy)
    (h : job.survey tools d = (.ok p, d')) : ∃ D, d'.files.look job.directory = .ok (D, .folder) := by
  rcases survey_cases tools job d with
    ⟨⟨fault, hfailed, -⟩, -⟩ | ⟨answer, listing, counts, d₃, hfinds, -⟩
  · rw [hfailed] at h
    cases h
  obtain ⟨D, hD, -⟩ := listFragments_ok hfinds.listed
  obtain ⟨_, ps, -, htakes, -⟩ := hfinds.takes
  rw [h] at htakes
  exact ⟨D, htakes.same.look_folder_iff.2 ((hfinds.same htidy).look_folder_iff.2 hD)⟩

/-! ## Filing the report -/

/-- To write a file of the job that is no fragment does not change what is covered. -/
theorem Reports.of_sameBut {changed : Place → Prop} (h : Reports job t left position calls)
    (hsame : SameBut changed t t') (hchanged : ∀ q, changed q →
      ∃ f, (∀ m, f ≠ JobFile.fragment m) ∧ t.resolve (job.path f) = .ok q) :
    Reports job t' left position calls := by
  have hentry : ∀ n q, job.classify n ≠ .foreign → (Entry job t' n q ↔ Entry job t n q) :=
    fun n q hn => Entry.iff_of_sameBut hsame hchanged hn
  have hcovers : ∀ measures m, Covers job t' measures m ↔ Covers job t measures m := by
    intro measures m
    refine exists_congr fun n => exists_congr fun q => exists_congr fun s => exists_congr fun r => ?_
    constructor
    · rintro ⟨hthere, hn, hrest⟩
      exact ⟨(hentry n q (by simp [hn])).1 hthere, hn, hrest⟩
    · rintro ⟨hthere, hn, hrest⟩
      exact ⟨(hentry n q (by simp [hn])).2 hthere, hn, hrest⟩
  obtain ⟨earlier, answer, measures, hcalls, hmeasures, htells⟩ := h
  refine ⟨earlier, answer, measures, hcalls, hmeasures, ?_⟩
  cases htells with
  | known pos gap =>
    refine .known pos ⟨gap.pos, ?_, gap.within, ?_, fun m hm => ?_, fun n q hthere hn => ?_⟩
    · simpa only [hcovers] using gap.uncovered
    · simpa only [hcovers] using gap.missing
    · exact (hcovers measures m).2 (gap.covered m hm)
    · exact gap.sound n q ((hentry n q hn).1 hthere) hn
  | unknown uncounted none_left from_start => exact .unknown uncounted none_left from_start

/-- What holds behind a survey that found out `p`. -/
structure Surveyed (job : Job) (p : Progress) (b : Bench (Watched τ)) : Prop where
  there : ∃ D, b.desk.files.look job.directory = .ok (D, .folder)
  reports : p.isComplete = false →
    Reports job b.desk.files p.framesLeft p.resumePosition b.desk.calls

theorem ends_survey (htools : tools.Regular) (j : Job) :
    Ends (fun b => Ready job b ∧ b.job = j) (onDesk (j.survey tools.watched))
      (fun p b => Ready job b ∧ (b.desk.cancelled = false → Surveyed job p b)) fun _ _ => True := by
  refine .of_ok fun hs hx => ?_
  obtain ⟨hready, rfl⟩ := hs
  have hnext := (ready_onDesk (keeps_survey htools.watched _)).ok hready hx
  have hsurvey := (onDesk_ok hx).1
  rw [hready.further.survey_eq] at hsurvey
  exact ⟨hnext, fun hflag => ⟨there_of_survey htools.watched.toTidy hsurvey,
    reports_of_survey htools hready.regular hsurvey hflag⟩⟩

/-- What the report of an incomplete encoding comes with. -/
structure Shortfall (job : Job) (left position : Nat) (b : Bench (Watched τ)) : Prop where
  reports : Reports job b.desk.files left position b.desk.calls
  further : Further job b.job
  position : b.job.resumePosition = position
  filed : Filed b

/-- If the encoding is reported incomplete, the report is as it should be. -/
def FallsShort (job : Job) (report : EncodingReport) (b : Bench (Watched τ)) : Prop :=
  ∀ left position failures, report = .incomplete left position failures →
    Shortfall job left position b

theorem ends_leaveIncomplete {p : Progress} (failures : Nat) (hincomplete : p.isComplete = false) :
    Ends (fun b => Ready job b ∧ b.job.resumePosition = p.resumePosition ∧ Surveyed job p b)
      (leaveIncomplete p failures : Encoding (Watched τ) EncodingReport) (FallsShort job)
      fun _ _ => True := by
  refine .bind (Q := fun _ => Shortfall job p.framesLeft p.resumePosition)
    (.of_ok fun {b b' _} hs hx => ?_) fun _ => .pure fun b hb left position failures h => ?_
  · obtain ⟨hready, hposition, hsurveyed⟩ := hs
    have hnext := (ready_saveAs _).ok hready hx
    obtain ⟨hjob, hdesk⟩ := saveAs_ok hx
    have hstored := saveAs_store hx
    obtain ⟨D, hD⟩ := hsurveyed.there
    have hwritten := Job.storeAt_ok_iff.1 hstored
    rw [hnext.further.path_eq] at hwritten
    have hcalls : b'.desk.calls = b.desk.calls := by
      rw [hdesk]
      rfl
    have hreports := (hsurveyed.reports hincomplete).of_sameBut
      (sameBut_writeMaking hD (job.isName_fileName .record) hwritten)
      fun q hq => ⟨.record, by simp, hq⟩
    exact ⟨hcalls ▸ hreports, hnext.further, by rw [hjob]; exact hposition,
      Job.readText_of_storeAt hstored⟩
  · cases h
    exact hb

/-- Work that ends with another report. -/
theorem ends_otherwise {α : Type} {pre : Bench (Watched τ) → Prop} {x : Encoding (Watched τ) α}
    {report : α → EncodingReport}
    (h : ∀ a left position failures, report a ≠ .incomplete left position failures) :
    Ends pre (x >>= fun a => pure (report a)) (FallsShort job) fun _ _ => True :=
  .bind (Q := fun _ _ => True) (.of_ok fun _ _ => trivial) fun a =>
    .pure fun _ _ left position failures heq => absurd heq (h a left position failures)

theorem ends_wrapUp_fallsShort (htools : tools.Regular) (failures : Nat) :
    Ends (Ready job) (wrapUp tools.watched o failures) (FallsShort job) fun _ _ => True := by
  refine .bind ready_theJob fun j => .bind (ends_survey htools j) fun p => ?_
  refine .bind (Q := fun raised b => Ready job b ∧ (raised = false → Surveyed job p b))
    (.of_ok fun hs hx => ?_) fun raised => .ite (fun _ => ends_otherwise (by simp)) fun hraised => ?_
  · cases hx
    refine ⟨⟨hs.1.regular, hs.1.further⟩, fun hwaved => ?_⟩
    have hsurveyed := hs.2 (Bool.or_eq_false_iff.1 hwaved).1
    exact ⟨hsurveyed.there, hsurveyed.reports⟩
  refine .bind (Q := fun _ b => Ready job b ∧ b.job.resumePosition = p.resumePosition ∧
    Surveyed job p b) (.of_ok fun hs hx => ?_) fun _ => ?_
  · have hnext := (ready_update fun j hj => ?_).ok hs.1 hx
    · cases hx
      have hsurveyed := hs.2 (Bool.eq_false_iff.2 hraised)
      exact ⟨hnext, rfl, hsurveyed.there, hsurveyed.reports⟩
    · obtain ⟨status, -, processes, rfl⟩ := hj
      exact ⟨status, p.resumePosition, processes, rfl⟩
  refine .ite (fun hincomplete => ?_) fun _ => ends_otherwise (by simp)
  exact ends_leaveIncomplete failures (by simpa using hincomplete)

theorem ends_fallsShort (htools : tools.Regular) :
    Ends (Ready job) (run tools.watched o) (FallsShort job) fun _ _ => True := by
  have hwatched := htools.watched
  refine ends_run_of (fun directory => ready_onDesk ?_) (ready_saveAs .running)
    (fun j => ready_onDesk (keeps_prepareScripts hwatched j))
    (fun j => ready_onDesk (keeps_survey hwatched j)) (ready_onDesk fun _ => id)
    (ends_otherwise (by simp)) ?_ (ready_encodeChunks hwatched) (ends_wrapUp_fallsShort htools)
  · exact always_change steady_keeps _ fun d t hmade hd => hd.makeFolders hmade
  · exact .bind (ready_saveAs .failed) fun _ => .bind ready_theJob fun j => .throw fun _ _ => trivial

/-- **What is reported of an incomplete encoding**: where to take it up, if the last survey counted the
frames of the source, and otherwise nothing at all. The job is filed with the position. -/
theorem incomplete_reports {tools : Toolbox τ} (htools : tools.Regular) (o : EncodingOptions)
    {b : Bench τ} (hb : b.desk.files.Regular) {left position failures : Nat}
    (h : (run tools o b).1 = .ok (.incomplete left position failures)) :
    Reports b.job (run tools o b).2.desk.files left position (callsOf tools o b) ∧
      (run tools o b).2.job.resumePosition = position ∧ Filed (run tools o b).2 ∧
      ((run tools o b).2.job.Filable → ∃ j,
        Job.load (run tools o b).2.desk.files (b.job.path .record) = .ok j ∧
          j.resumePosition = position) := by
  have hready : Ready b.job b.watched :=
    ⟨hb, b.job.status, b.job.resumePosition, b.job.processes, rfl⟩
  rw [run_watched] at h ⊢
  rw [callsOf]
  rcases hrun : run tools.watched o b.watched with ⟨r, b'⟩
  rw [hrun] at h
  obtain rfl : r = .ok (.incomplete left position failures) := h
  have hends := (ends_fallsShort htools).ok hready hrun left position failures rfl
  refine ⟨hends.reports, hends.position, hends.filed, fun hfilable => ?_⟩
  have hfiled := hends.filed
  rw [Filed, hends.further.path_eq] at hfiled
  exact ⟨_, Job.load_of_readText hfilable hfiled, hends.position⟩

theorem regular_fourFrameTools : fourFrameTools.Regular where
  toOrderly := orderly_fourFrameTools
  ran _ _ _ h := h
  encoded _ _ _ _ _ h := h
  measured _ _ h := h

theorem regular_litteredDesk : litteredDesk.files.Regular where
  distinct := by decide
  named := .of_nodes (by decide) (by decide)

/-- An encoder that writes nothing leaves out the last two of four frames. -/
theorem incomplete_reports_littered : fourFrameTools.Regular ∧ litteredDesk.files.Regular ∧
    (run fourFrameTools {} ⟨litteredJob, litteredDesk⟩).1 = .ok (.incomplete 2 2 0) ∧
    Reports litteredJob (run fourFrameTools {} ⟨litteredJob, litteredDesk⟩).2.desk.files 2 2
      (callsOf fourFrameTools {} ⟨litteredJob, litteredDesk⟩) := by
  have hreport : (run fourFrameTools {} ⟨litteredJob, litteredDesk⟩).1 = .ok (.incomplete 2 2 0) := by
    decide +kernel
  exact ⟨regular_fourFrameTools, regular_litteredDesk, hreport,
    (incomplete_reports regular_fourFrameTools {} regular_litteredDesk hreport).1⟩

/-! ## A source that is lost on the way -/

/-- Tools that find four frames in the first script that they count, and none in any other. -/
def forgetfulTools : Toolbox Nat where
  runScript _ _ := pure ()
  encode _ _ _ _ := pure ()
  scriptFrames _ _ d := (.ok (if d.tools = 0 then 4 else 0), { d with tools := d.tools + 1 })
  mediaFrames _ := pure 2
  join _ _ _ := pure ()

theorem regular_forgetfulTools : forgetfulTools.Regular where
  scriptFrames _ _ d := .refl _ d.files
  mediaFrames _ d := .refl _ d.files
  encode _ _ _ _ d := .refl _ d.files
  distinct _ _ _ h := h
  ran _ _ _ h := h
  encoded _ _ _ _ _ h := h
  measured _ _ h := h

def forgetfulBench : Bench Nat where
  job := litteredJob
  desk := { files := litteredDesk.files, tools := 0 }

/-- Where the last survey finds no frames, none are reported left, and the job is to be taken up from
its first frame, though the fragment with that frame is there. -/
theorem reported_from_start : forgetfulTools.Regular ∧ forgetfulBench.desk.files.Regular ∧
    (run forgetfulTools {} forgetfulBench).1 = .ok (.incomplete 0 0 0) ∧
    (run forgetfulTools {} forgetfulBench).2.desk.files.readText (litteredJob.path (.fragment 0)) =
      .ok "frames" :=
  ⟨regular_forgetfulTools, regular_litteredDesk, by decide +kernel, by decide +kernel⟩

end Encoding

end Restoration
