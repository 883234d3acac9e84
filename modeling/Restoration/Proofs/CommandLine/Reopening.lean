import Restoration.Proofs.CommandLine.NewJob
import Restoration.Proofs.CommandLine.Usage
import Restoration.Proofs.FileTree.Removal
import Restoration.Proofs.Script.Lines

/-!
# Opening a new job again

A job that was filed from a command line is opened again from its record. It comes back with every
float as it is read again, without the floats that are not finite, and not at all if the frame rate to
interpolate is one of them, though it was filed without a complaint:

    load record = ok j   ↔   job.reread? = some j
-/

namespace Restoration

open FileTree Json

/-! ## Paths of new jobs -/

namespace Path

theorem join_ne_empty {p : Path} (hp : p.text ≠ "") (q : Path) : (p.join q).text ≠ "" := by
  rw [join]
  split
  · rename_i habsolute
    intro hempty
    have hp' : p.text.isEmpty = false := by simpa using hp
    simp [isAbsolute, hempty, hp'] at habsolute
  · split <;> simp [hp]

/-- A path seen from the top of the tree is not empty. -/
theorem absoluteFrom_ne_empty {base : Path} (hbase : base.text ≠ "") (p : Path) :
    (base.absoluteFrom p).text ≠ "" := by
  have hfold : ∀ (steps : List Component) (start : Path), start.text ≠ "" →
      (steps.foldl push start).text ≠ "" := by
    intro steps
    induction steps with
    | nil => exact fun _ h => h
    | cons step steps ih => exact fun start h => ih _ (join_ne_empty h _)
  have hstart : (if p.hasDoubleRoot then (⟨"//"⟩ : Path)
      else if p.isAbsolute then ⟨"/"⟩ else base).text ≠ "" := by
    split
    · simp
    · split
      · simp
      · exact hbase
  rw [absoluteFrom]
  split
  · exact join_ne_empty (hfold _ _ hstart) _
  · exact hfold _ _ hstart

end Path

namespace Job

variable {job : Job} {t : FileTree}

theorem isRecordName_fileName (job : Job) : isRecordName (job.fileName .record) = true := by
  rw [isRecordName, Bool.and_eq_true, List.isPrefixOf_iff_prefix, List.isSuffixOf_iff_suffix]
  constructor
  · exact ⟨(Numeral.text job.index).toList ++ "_Settings.json".toList, by simp [fileName, stem]⟩
  · exact ⟨"Job".toList ++ (Numeral.text job.index).toList, by simp [fileName, stem]⟩

/-- A job is found in its directory if its record is there and can be read. -/
theorem found_of_record {s : String} (hdirectory : job.directory.text ≠ "")
    (h : t.readText (job.path .record) = .ok s) :
    ∃ jobs, recover t job.directory = .ok jobs ∧
      ∀ j, load t (job.path .record) = .ok j → j ∈ jobs := by
  obtain ⟨place, x, hplace, hnode, -⟩ := readText_ok h
  obtain ⟨D, hD, rfl⟩ := look_of_resolve_join hdirectory (job.isName_fileName .record) hplace
  rw [recover, list_of_look hD]
  refine ⟨_, rfl, fun j hj => ?_⟩
  -- the record is a name in the folder, and its name is that of a record
  have hlisted : job.fileName .record ∈ (t.names D).filter isRecordName :=
    List.mem_filter.2 ⟨(mem_names t D _).2 (by simp [hnode]), job.isRecordName_fileName⟩
  rw [byIndex, List.mem_mergeSort, List.mem_filterMap]
  exact ⟨_, hlisted, by rw [path] at hj; rw [hj]; rfl⟩

/-- A job is opened again, if only as it is read, unless the frame rate to interpolate is not finite. -/
theorem exists_reread?_iff : (∃ j, job.reread? = some j) ↔
    ∀ rate, job.interpolation = some (.target rate) → rate.isFinite = true := by
  rw [reread?]
  cases hinterpolation : job.interpolation with
  | none => exact iff_of_true ⟨_, rfl⟩ fun _ hrate => by cases hrate
  | some i =>
    cases i with
    | multiply factor => exact iff_of_true ⟨_, rfl⟩ fun _ hrate => by cases hrate
    | target rate =>
      simp only [Interpolation.reread?, ← Option.isSome_iff_exists, Option.isSome_map,
        Json.isSome_reread?]
      exact ⟨fun hfinite _ hrate => by cases hrate; exact hfinite, fun h => h rate rfl⟩

/-- Only the floats of a job change while it is filed. -/
theorem status_of_reread {j : Job} (h : job.reread? = some j) : j.status = job.status := by
  rw [reread?] at h
  split at h
  · cases h
    rfl
  · obtain ⟨_, -, rfl⟩ := Option.map_eq_some_iff.1 h
    rfl

theorem load_of_record {p : Path} {j : Job} (hindex : job.index < Numeral.word)
    (hposition : job.resumePosition < Numeral.word) (h : t.readText p = .ok job.recordText) :
    load t p = .ok j ↔ job.reread? = some j := by
  rw [← ofText_eq_ok_iff hindex hposition, load, h]
  simp only
  cases ofText job.recordText <;> simp [Except.mapError]

end Job

namespace CommandLine

/-! ## What options ask for -/

/-- No option of a new job says where it is taken up, and an index that is asked for fits in a word. -/
structure Options.Fresh (o : Options) : Prop where
  processes : o.job.processes = []
  resumePosition : o.job.resumePosition = 0
  status : o.job.status = .pending
  index : ∀ n ∈ o.index, n < Numeral.word

variable {α : Type} {name : String}

theorem Options.Fresh.of_eq {o o' : Options} (h : o.Fresh) (hjob : o'.job = o.job)
    (hindex : o'.index = o.index) : o'.Fresh :=
  ⟨hjob ▸ h.processes, hjob ▸ h.resumePosition, hjob ▸ h.status, hindex ▸ h.index⟩

theorem keeps_valued {value : Value α} {f : α → Options → Options}
    (h : ∀ s a o, value s = .ok a → o.Fresh → (f a o).Fresh) :
    (valued name value f).setter.Keeps Options.Fresh := by
  intro s o o' ho hset
  obtain ⟨a, hvalue, rfl⟩ := map_eq_ok_iff.1 hset
  exact h s a o hvalue ho

/-- An option that is not about the job itself. -/
theorem keeps_aside {value : Value α} {f : α → Options → Options}
    (h : ∀ a o, (f a o).job = o.job ∧ (f a o).index = o.index) :
    (valued name value f).setter.Keeps Options.Fresh :=
  keeps_valued fun _ a o _ ho => ho.of_eq (h a o).1 (h a o).2

/-- The change of a job does not say where the job is taken up. -/
def IsWish (f : Job → Job) : Prop :=
  ∀ j, (f j).processes = j.processes ∧ (f j).resumePosition = j.resumePosition ∧
    (f j).status = j.status

theorem IsWish.fresh {f : Job → Job} {o : Options} (h : IsWish f) (ho : o.Fresh) :
    Options.Fresh { o with job := f o.job } := by
  obtain ⟨hprocesses, hposition, hstatus⟩ := h o.job
  exact ⟨hprocesses.trans ho.processes, hposition.trans ho.resumePosition,
    hstatus.trans ho.status, ho.index⟩

theorem keeps_wish {value : Value α} {f : α → Job → Job} (h : ∀ a, IsWish (f a)) :
    (wish name value f).setter.Keeps Options.Fresh :=
  keeps_valued fun _ a _ _ ho => (h a).fresh ho

theorem keeps_wishFlag {f : Job → Job} (h : IsWish f) :
    (wishFlag name f).setter.Keeps Options.Fresh :=
  fun _ ho => h.fresh ho

theorem lt_word_of_count {s : String} {n : Nat} (h : Value.count s = .ok n) : n < Numeral.word := by
  rw [Value.count] at h
  cases hread : Numeral.read? Numeral.word s.toList with
  | none =>
    rw [hread] at h
    cases h
  | some k =>
    rw [hread] at h
    cases h
    exact (Numeral.lt_of_read? hread).1

namespace Verb

theorem keeps_common : ∀ rule ∈ commonRules, rule.setter.Keeps Options.Fresh := by
  simp only [commonRules, List.forall_mem_cons]
  exact ⟨keeps_aside fun _ _ => ⟨rfl, rfl⟩, keeps_aside fun _ _ => ⟨rfl, rfl⟩, nofun⟩

theorem keeps_wishes :
    ∀ rule ∈ sourceRules ++ filterRules ++ deliveryRules, rule.setter.Keeps Options.Fresh := by
  simp only [sourceRules, filterRules, deliveryRules, List.forall_mem_append, List.forall_mem_cons]
  -- each rule is a wish with a value or one without, and each list ends
  and_intros <;> first
    | exact keeps_wish fun _ _ => ⟨rfl, rfl, rfl⟩
    | exact keeps_wishFlag fun _ => ⟨rfl, rfl, rfl⟩
    | exact nofun

theorem keeps_rules (verb : Verb) : ∀ rule ∈ verb.rules, rule.setter.Keeps Options.Fresh := by
  have hfolder : folderRule.setter.Keeps Options.Fresh := keeps_aside fun _ _ => ⟨rfl, rfl⟩
  have hwishes := keeps_wishes
  rw [List.append_assoc] at hwishes
  cases verb with
  | init =>
    simp only [rules, List.append_assoc, List.forall_mem_append, List.forall_mem_cons] at hwishes ⊢
    have hindex : (valued "job" .count fun n o => { o with index := some n }).setter.Keeps
        Options.Fresh :=
      keeps_valued fun s n o hn ho => ⟨ho.processes, ho.resumePosition, ho.status,
        fun k hk => Option.some.inj hk ▸ lt_word_of_count hn⟩
    exact ⟨keeps_common, ⟨hfolder, hindex, keeps_aside fun _ _ => ⟨rfl, rfl⟩, nofun⟩, hwishes⟩
  | compile =>
    simp only [rules, List.forall_mem_append, List.forall_mem_cons]
    exact ⟨keeps_common, fun _ ho => ho.of_eq rfl rfl, keeps_aside fun _ _ => ⟨rfl, rfl⟩, nofun⟩
  | resume =>
    simp only [rules, List.forall_mem_append, List.forall_mem_cons]
    exact ⟨keeps_common, hfolder, nofun⟩
  | analyze => exact keeps_common
  | encode => exact keeps_common
  | clean => exact keeps_common

theorem keeps_fresh (verb : Verb) : verb.form.Keeps Options.Fresh where
  rules := verb.keeps_rules
  take w o o' ho htake := by
    obtain ⟨p, -, rfl⟩ := map_eq_ok_iff.1 htake
    exact ho.of_eq rfl rfl

end Verb

/-- Whatever is given with a command, it is about a new job. -/
theorem Request.fresh_of_ofArguments {args : List String} {r : Request}
    (h : ofArguments args = .ok r) : r.options.Fresh := by
  obtain ⟨⟨lead, command⟩, -, h⟩ := bind_eq_ok_iff.1 h
  have hnothing : Options.Fresh {} := ⟨rfl, rfl, rfl, nofun⟩
  cases command with
  | none =>
    obtain ⟨_, -, h⟩ := bind_eq_ok_iff.1 h
    cases h
  | some command =>
    obtain ⟨w, rest⟩ := command
    simp only at h
    split at h
    · obtain ⟨options, hoptions, h⟩ := bind_eq_ok_iff.1 h
      obtain ⟨lead', -, h⟩ := bind_eq_ok_iff.1 h
      cases h
      exact (Form.keeps_read (Verb.keeps_fresh _) hnothing hoptions).of_eq rfl rfl
    · cases h

/-! ## Opening what was filed -/

/-- How a job is opened again from files where its record lies: it comes back as it is read again, and
is found in its folder, to be taken up, if it comes back. -/
structure Reopens (job : Job) (t : FileTree) : Prop where
  loaded : ∀ j, Job.load t (job.path .record) = .ok j ↔ job.reread? = some j
  same : Job.load t (job.path .record) = .ok job ↔ ∀ x ∈ job.floats, ReadsBack x
  opens : (∃ j, Job.load t (job.path .record) = .ok j) ↔
    ∀ rate, job.interpolation = some (.target rate) → rate.isFinite = true
  found : ∃ jobs, Job.recover t job.directory = .ok jobs ∧
    ∀ j, Job.load t (job.path .record) = .ok j → j ∈ jobs ∧ j.status ≠ .success

variable {args : List String} {r : Request} {o : Options} {c c' : Console} {m : Machine} {job : Job}
  {t : FileTree}

namespace Act

theorem absolute_ne_empty {p q : Path} (h : (absolute p c).1 = .ok q) : q.text ≠ "" := by
  rw [absolute] at h
  split at h
  · cases h
  · cases h
    exact Path.absoluteFrom_ne_empty (by simp) p

theorem lt_word_of_pickIndex {folder : Path} {n : Nat} (ho : o.Fresh)
    (h : (pickIndex o folder c).1 = .ok n) : n < Numeral.word := by
  rw [pickIndex] at h
  cases hindex : o.index with
  | some k =>
    rw [hindex] at h
    cases h
    exact ho.index n hindex
  | none =>
    rw [hindex] at h
    simp only [newIndex_run] at h
    split at h
    · split at h
      · cases h
      · split at h <;> cases h
        exact Nat.not_le.1 ‹_›
    · cases h
      decide

/-- **A job that is filed for fresh options** is opened again from its record. -/
theorem Files.reopens (h : Files o c m job t) (ho : o.Fresh) : Reopens job t := by
  have hprocesses : job.processes = [] := (congrArg Job.processes h.asked).trans ho.processes
  have hposition : job.resumePosition = 0 :=
    (congrArg Job.resumePosition h.asked).trans ho.resumePosition
  have hstatus : job.status = .pending := (congrArg Job.status h.asked).trans ho.status
  have hloaded (j : Job) : Job.load t (job.path .record) = .ok j ↔ job.reread? = some j :=
    Job.load_of_record (lt_word_of_pickIndex ho h.index) (hposition ▸ by decide) h.readText
  have hself : { job with processes := [] } = job := by rw [← hprocesses]
  obtain ⟨jobs, hjobs, hfound⟩ := Job.found_of_record (absolute_ne_empty h.directory) h.readText
  refine ⟨hloaded, ?_, ?_, jobs, hjobs, fun j hj => ⟨hfound j hj, ?_⟩⟩
  · rw [hloaded, ← Job.reread?_eq_self, hself]
  · rw [← Job.exists_reread?_iff]
    exact exists_congr hloaded
  · rw [Job.status_of_reread ((hloaded j).1 hj), hstatus]
    decide

end Act

theorem Request.perform_init {out : Option Path} (hverb : r.verb = .init)
    (h : r.perform c = (.ok out, c')) :
    ∃ record, Act.init r.options c = (.ok record, c') ∧ out = some record := by
  rw [perform, hverb] at h
  obtain ⟨record, c₁, hinit, h⟩ := bind_ok h
  cases h
  exact ⟨record, hinit, rfl⟩

/-- **A new job is opened again**, after it was filed from whatever arguments, exactly if the frame rate
to interpolate is finite where it asks for one. It is then found in its folder, to be taken up, and is
the job that was asked for exactly if each of its floats is read back from its text. -/
theorem new_job_reopens {out : Option Path} (hargs : Request.ofArguments args = .ok r)
    (hverb : r.verb = .init) (h : r.perform c = (.ok out, c')) :
    ∃ m job, Act.Files r.options c m job c'.desk.files ∧ out = some (job.path .record) ∧
      Reopens job c'.desk.files := by
  obtain ⟨record, hinit, rfl⟩ := Request.perform_init hverb h
  obtain ⟨m, job, hfiles, rfl⟩ := Act.init_ok hinit
  exact ⟨m, job, hfiles, rfl, hfiles.reopens (Request.fresh_of_ofArguments hargs)⟩

/-! ## A rate without end -/

/-- A console without any file. -/
def emptyConsole : Console where
  desk := { files := {}, tools := () }

/-- The arguments that ask for a frame rate to interpolate. -/
def rateArguments (rate : String) : List String :=
  ["init", "/clip.avi", "--temp", "/jobs", "--interpolate", rate]

/-- The job that they ask for. -/
def rateJob (o : Options) : Job := Act.jobOf .standard o ⟨"/clip.avi"⟩ ⟨"/jobs"⟩ 1

/-- The request is for this clip and this folder, whatever else it asks for. -/
def AsksForRate (r : Request) : Prop :=
  r.verb = .init ∧ r.options.machine = none ∧ r.options.files = [⟨"/clip.avi"⟩] ∧
    r.options.folder = some ⟨"/jobs"⟩ ∧ r.options.index = none

instance : DecidablePred AsksForRate := fun _ => inferInstanceAs (Decidable (_ ∧ _))

theorem exists_of_any {ε α : Type} {x : Except ε α} {p : α → Prop} [DecidablePred p]
    (h : x.toOption.any (fun a => decide (p a)) = true) : ∃ a, x = .ok a ∧ p a := by
  cases x with
  | error e => cases h
  | ok a => exact ⟨a, rfl, of_decide_eq_true h⟩

theorem AsksForRate.files (h : AsksForRate r) :
    ∃ t, Act.Files r.options emptyConsole .standard (rateJob r.options) t := by
  obtain ⟨-, hmachine, hfiles, hfolder, hindex⟩ := h
  have machine : (Act.machine r.options emptyConsole).1 = .ok .standard := by
    rw [Act.machine, hmachine]
    decide +kernel
  have directory : (Act.absolute ⟨"/jobs"⟩ emptyConsole).1 = .ok ⟨"/jobs"⟩ := by decide +kernel
  have source : (Act.absolute ⟨"/clip.avi"⟩ emptyConsole).1 = .ok ⟨"/clip.avi"⟩ := by decide +kernel
  have index : (Act.newIndex ⟨"/jobs"⟩ emptyConsole).1 = .ok 1 := by decide +kernel
  have hrecord : (rateJob r.options).path .record = ⟨"/jobs/Job1_Settings.json"⟩ := by
    show (rateJob {}).path .record = _
    decide +kernel
  have fresh : emptyConsole.desk.files.pathExists ⟨"/jobs/Job1_Settings.json"⟩ = false := by
    decide +kernel
  obtain ⟨t, stored⟩ := exists_stored (rateJob r.options) emptyConsole.desk.files (by
    rw [hrecord]
    decide +kernel)
  exact ⟨t, {
    machine
    directory := by
      rw [hfolder]
      exact directory
    source := by
      rw [Act.file, hfiles]
      exact source
    index := by
      rw [Act.pickIndex, hindex]
      exact index
    asked := rfl
    fresh := by
      rw [hrecord]
      exact fresh
    stored }⟩

theorem exists_asked_fifty : ∃ r, Request.ofArguments (rateArguments "50") = .ok r ∧
    AsksForRate r ∧ ∀ x ∈ (rateJob r.options).floats, ReadsBack x :=
  exists_of_any (by decide +kernel)

theorem exists_asked_inf : ∃ r, Request.ofArguments (rateArguments "inf") = .ok r ∧
    AsksForRate r ∧ (rateJob r.options).reread?.isSome = false :=
  exists_of_any (by decide +kernel)

theorem AsksForRate.perform (h : AsksForRate r) : ∃ c', Act.Files r.options emptyConsole .standard
      (rateJob r.options) c'.desk.files ∧
    r.perform emptyConsole = (.ok (some ((rateJob r.options).path .record)), c') := by
  obtain ⟨t, hfiles⟩ := h.files
  refine ⟨{ emptyConsole with desk := { emptyConsole.desk with files := t } }, hfiles, ?_⟩
  rw [Request.perform, h.1]
  simp only [bind_run, Act.init_run hfiles]
  rfl

theorem new_job_reopens_fifty : ∃ r c', Request.ofArguments (rateArguments "50") = .ok r ∧
    r.verb = .init ∧
    r.perform emptyConsole = (.ok (some ((rateJob r.options).path .record)), c') ∧
    Job.load c'.desk.files ((rateJob r.options).path .record) = .ok (rateJob r.options) := by
  obtain ⟨r, hargs, hasks, hfloats⟩ := exists_asked_fifty
  obtain ⟨c', hfiles, hperform⟩ := hasks.perform
  obtain ⟨m, job, hfiles', -, hreopens⟩ := new_job_reopens hargs hasks.1 hperform
  obtain ⟨-, rfl⟩ := hfiles.unique hfiles'
  exact ⟨r, c', hargs, hasks.1, hperform, hreopens.same.2 hfloats⟩

/-- **A rate without end** is asked for and filed, and no job is opened from its record. -/
theorem endless_rate_lost : ¬ ∀ (args : List String) (r : Request) (c c' : Console) (record : Path),
    Request.ofArguments args = .ok r → r.verb = .init → r.perform c = (.ok (some record), c') →
      ∃ j, Job.load c'.desk.files record = .ok j := by
  intro hopens
  obtain ⟨r, hargs, hasks, hlost⟩ := exists_asked_inf
  obtain ⟨c', hfiles, hperform⟩ := hasks.perform
  obtain ⟨j, hj⟩ := hopens _ r _ c' _ hargs hasks.1 hperform
  have hreopens := hfiles.reopens (Request.fresh_of_ofArguments hargs)
  rw [hreopens.loaded] at hj
  simp [hj] at hlost

end CommandLine

end Restoration
