import Restoration.Proofs.CommandLine.Act
import Restoration.Proofs.Job.Names
import Restoration.Proofs.Job.Record
import Restoration.Proofs.Queue.Indices

/-!
# New jobs

A new job is filed in its folder where no record lies yet. Unless its index is asked for, it is the
first above those of all jobs that are found in the folder, which are those with a readable record:

    newIndex folder = least n with 1 ≤ n and j.index < n for every job j that is found

Files that outlived their record take no part in this.
-/

namespace Restoration

namespace CommandLine

/-! ## Filing -/

namespace Act

variable {o : Options} {c c' : Console} {m : Machine} {job : Job} {t : FileTree}

theorem absolute_state (p : Path) (c : Console) : (absolute p c).2 = c := by
  rw [absolute]
  split <;> rfl

theorem newIndex_run (folder : Path) (c : Console) : newIndex folder c =
    if c.desk.files.pathExists folder then
      match Job.recover c.desk.files folder with
      | .error e => (.error (.record e), c)
      | .ok jobs => if Numeral.word ≤ Queue.indexAbove jobs then (.error .noIndexLeft, c)
        else (.ok (Queue.indexAbove jobs), c)
    else (.ok 1, c) := by
  simp only [newIndex, bind_run, files_run]
  split
  · rw [bind_run]
    cases Job.recover c.desk.files folder with
    | error e => rfl
    | ok jobs =>
      have hone : 1 ≤ Queue.indexAbove jobs := (Queue.isLeast_indexAbove jobs).1.1
      simp only [require_ok]
      split
      · rfl
      · simp only [Queue.seeded, Queue.allocate, Queue.ofSlots, Nat.max_eq_right hone]
        rfl
  · rfl

theorem newIndex_state (folder : Path) (c : Console) : (newIndex folder c).2 = c := by
  rw [newIndex_run]
  split
  · split
    · rfl
    · split <;> rfl
  · rfl

/-- The index that is asked for, or the next one in the folder. -/
def pickIndex (o : Options) (folder : Path) : Act Nat :=
  match o.index with
  | some n => pure n
  | none => newIndex folder

/-- The part of filing a new job behind the choice of its index. -/
def fileJob (m : Machine) (o : Options) (source directory : Path) (index : Nat) : Act Path := do
  let job := jobOf m o source directory index
  if (← files).pathExists (job.path .record) then throw (.jobExists (job.path .record))
  change job.store .recordNotWritten
  return job.path .record

theorem init_eq (o : Options) : init o = (do
    let m ← machine o
    let folder ← absolute (o.folder.getD m.jobDirectory)
    let source ← absolute (file o)
    let index ← pickIndex o folder
    fileJob m o source folder index) := by
  simp only [init, pickIndex]
  refine bind_congr fun m => bind_congr fun folder => bind_congr fun source => ?_
  cases o.index <;> rfl

theorem pickIndex_state (o : Options) (folder : Path) (c : Console) : (pickIndex o folder c).2 = c := by
  rw [pickIndex]
  cases o.index with
  | some n => rfl
  | none => exact newIndex_state folder c

/-- A job is filed as asked for, on a machine: its folder and its source are seen from the top of the
tree, and nothing lay where its record is written. -/
structure Files (o : Options) (c : Console) (m : Machine) (job : Job) (t : FileTree) : Prop where
  machine : (machine o c).1 = .ok m
  directory : (absolute (o.folder.getD m.jobDirectory) c).1 = .ok job.directory
  source : (absolute (file o) c).1 = .ok job.source
  index : (pickIndex o job.directory c).1 = .ok job.index
  asked : job = jobOf m o job.source job.directory job.index
  fresh : c.desk.files.pathExists (job.path .record) = false
  stored : job.store c.desk.files = .ok t

theorem Files.readText (h : Files o c m job t) : t.readText (job.path .record) = .ok job.recordText :=
  Job.readText_of_storeAt h.stored

/-- Work that leaves the console as it was. -/
theorem reads_ok {α : Type} {x : Act α} {a : α} (hx : ∀ c, (x c).2 = c) :
    x c = (.ok a, c') ↔ (x c).1 = .ok a ∧ c' = c := by
  rw [Prod.ext_iff, hx, eq_comm (a := c)]

theorem fileJob_ok {source directory record : Path} {index : Nat}
    (h : fileJob m o source directory index c = (.ok record, c')) :
    let job := jobOf m o source directory index
    record = job.path .record ∧ c.desk.files.pathExists (job.path .record) = false ∧
      job.store c.desk.files = .ok c'.desk.files := by
  obtain ⟨_, _, hfiles, h⟩ := bind_ok h
  cases hfiles
  split at h
  · obtain ⟨_, _, hthrow, -⟩ := bind_ok h
    cases hthrow
  · obtain ⟨_, _, hchange, h⟩ := bind_ok h
    obtain ⟨t, hstored, rfl⟩ := change_ok hchange
    cases h
    exact ⟨rfl, Bool.eq_false_of_not_eq_true ‹_›, hstored⟩

/-- What `init` files. -/
theorem init_ok {record : Path} (h : init o c = (.ok record, c')) :
    ∃ m job, Files o c m job c'.desk.files ∧ record = job.path .record := by
  rw [init_eq] at h
  obtain ⟨m, _, hmachine, h₁⟩ := bind_ok h
  obtain ⟨machine, rfl⟩ := (reads_ok (machine_state o)).1 hmachine
  obtain ⟨folder, _, hfolder, h₂⟩ := bind_ok h₁
  obtain ⟨directory, rfl⟩ := (reads_ok (absolute_state _)).1 hfolder
  obtain ⟨clip, _, hclip, h₃⟩ := bind_ok h₂
  obtain ⟨source, rfl⟩ := (reads_ok (absolute_state _)).1 hclip
  obtain ⟨n, _, hn, h₄⟩ := bind_ok h₃
  obtain ⟨index, rfl⟩ := (reads_ok (pickIndex_state o folder)).1 hn
  obtain ⟨hrecord, fresh, stored⟩ := fileJob_ok h₄
  exact ⟨m, jobOf m o clip folder n,
    { machine, directory, source, index, asked := rfl, fresh, stored }, hrecord⟩

/-- What is asked for at a console says which job is filed. -/
theorem Files.unique {m' : Machine} {job' : Job} {t' : FileTree} (h : Files o c m job t)
    (h' : Files o c m' job' t') : m' = m ∧ job' = job := by
  obtain rfl : m' = m := Except.ok.inj (h'.machine.symm.trans h.machine)
  have hdirectory : job'.directory = job.directory :=
    Except.ok.inj (h'.directory.symm.trans h.directory)
  have hsource : job'.source = job.source := Except.ok.inj (h'.source.symm.trans h.source)
  have hindex := h'.index
  rw [hdirectory, h.index] at hindex
  refine ⟨rfl, ?_⟩
  rw [h.asked, h'.asked, hdirectory, hsource, Except.ok.inj hindex]

theorem init_run (h : Files o c m job t) :
    init o c = (.ok (job.path .record), { c with desk := { c.desk with files := t } }) := by
  have hmachine := (reads_ok (machine_state o)).2 ⟨h.machine, rfl⟩
  have hdirectory := (reads_ok (absolute_state _)).2 ⟨h.directory, rfl⟩
  have hsource := (reads_ok (absolute_state _)).2 ⟨h.source, rfl⟩
  have hindex := (reads_ok (pickIndex_state o _)).2 ⟨h.index, rfl⟩
  simp only [init_eq, fileJob, bind_run, hmachine, hdirectory, hsource, hindex, files_run, ← h.asked,
    h.fresh, Bool.false_eq_true, if_false, change_run, h.stored]
  rfl

end Act

/-! ## Free indices -/

/-- What the names of all files of a job with this index start with. -/
def indexStem (n : Nat) : String := "Job" ++ Numeral.text n ++ "_"

/-- The names in a folder; none if there is no such folder. -/
def namesIn (t : FileTree) (folder : Path) : List String := (t.list folder).toOption.getD []

/-- The jobs that are found in a folder; none if there is no such folder. -/
def jobsIn (t : FileTree) (folder : Path) : List Job := (Job.recover t folder).toOption.getD []

/-- No name in the folder starts as those of a job with this index do. -/
def IsFree (t : FileTree) (folder : Path) (n : Nat) : Prop :=
  ∀ name ∈ namesIn t folder, ¬ (indexStem n).toList <+: name.toList

instance (t : FileTree) (folder : Path) (n : Nat) : Decidable (IsFree t folder n) :=
  inferInstanceAs (Decidable (∀ name ∈ namesIn t folder, ¬ (indexStem n).toList <+: name.toList))

variable {o : Options} {c c' : Console} {m : Machine} {job : Job} {t : FileTree} {folder : Path}

/-- No name in the folder is taken for one of the files of a job whose index is free. -/
theorem IsFree.foreign (h : IsFree t folder job.index) {name : String}
    (hname : name ∈ namesIn t folder) :
    job.classify name = .foreign ∧ ∀ f, name ≠ job.fileName f := by
  constructor
  · by_contra hclassify
    exact h name hname (Job.stem_of_classify hclassify)
  · rintro f rfl
    exact h _ hname (job.stem_fileName f)

theorem jobsIn_of_missing (h : t.pathExists folder = false) : jobsIn t folder = [] := by
  rw [FileTree.pathExists] at h
  rw [jobsIn, Job.recover, FileTree.list]
  cases hlook : t.look folder with
  | ok found =>
    rw [hlook] at h
    cases h
  | error cause => rfl

theorem isLeast_of_newIndex {n : Nat} (h : (Act.newIndex folder c).1 = .ok n) :
    IsLeast {n | 1 ≤ n ∧ ∀ j ∈ jobsIn c.desk.files folder, j.index < n} n := by
  rw [Act.newIndex_run] at h
  split at h
  · split at h
    · cases h
    · rename_i jobs hjobs
      split at h
      · cases h
      · cases h
        rw [jobsIn, hjobs]
        exact Queue.isLeast_indexAbove jobs
  · cases h
    rw [jobsIn_of_missing (Bool.eq_false_of_not_eq_true ‹_›)]
    exact ⟨⟨Nat.le_refl 1, fun _ hj => nomatch hj⟩, fun _ hn => hn.1⟩

/-- An index that is the first above those of all jobs is free if each file that is named for a job
up to it is vouched for by a job. -/
theorem isFree_iff {n : Nat}
    (hn : IsLeast {n | 1 ≤ n ∧ ∀ j ∈ jobsIn t folder, j.index < n} n) :
    IsFree t folder n ↔ ∀ name ∈ namesIn t folder, ∀ k, 1 ≤ k → k ≤ n →
      (indexStem k).toList <+: name.toList → ∃ j ∈ jobsIn t folder, k ≤ j.index := by
  obtain ⟨⟨hone, habove⟩, hleast⟩ := hn
  constructor
  · intro hfree name hname k hk hkn hstem
    by_contra hnone
    have hsmaller : n ≤ k := hleast ⟨hk, fun j hj => Nat.not_le.1 fun hle => hnone ⟨j, hj, hle⟩⟩
    obtain rfl := Nat.le_antisymm hkn hsmaller
    exact hfree name hname hstem
  · intro hvouched name hname hstem
    obtain ⟨j, hj, hle⟩ := hvouched name hname n hone (Nat.le_refl n) hstem
    exact Nat.not_le.2 (habove j hj) hle

/-- **The index of a new job** that asks for none is the first above those of all jobs that are found
in its folder. It is free, so that no file there is taken for one of the new job, exactly if each file
that is named for a job up to it is vouched for by a readable record of that index or a later one. -/
theorem new_index_free_iff {record : Path} (hindex : o.index = none)
    (h : Act.init o c = (.ok record, c')) :
    ∃ m job, Act.Files o c m job c'.desk.files ∧ record = job.path .record ∧
      IsLeast {n | 1 ≤ n ∧ ∀ j ∈ jobsIn c.desk.files job.directory, j.index < n} job.index ∧
      (IsFree c.desk.files job.directory job.index ↔
        ∀ name ∈ namesIn c.desk.files job.directory, ∀ k, 1 ≤ k → k ≤ job.index →
          (indexStem k).toList <+: name.toList →
            ∃ j ∈ jobsIn c.desk.files job.directory, k ≤ j.index) ∧
      (IsFree c.desk.files job.directory job.index →
        ∀ name ∈ namesIn c.desk.files job.directory,
          job.classify name = .foreign ∧ ∀ f, name ≠ job.fileName f) := by
  obtain ⟨m, job, hfiles, hrecord⟩ := Act.init_ok h
  have hpicked := hfiles.index
  rw [Act.pickIndex, hindex] at hpicked
  have hleast := isLeast_of_newIndex hpicked
  exact ⟨m, job, hfiles, hrecord, hleast, isFree_iff hleast, fun hfree _ => hfree.foreign⟩

/-! ## What earlier jobs left -/

/-- A job that was filed before. -/
def earlierJob : Job := { source := ⟨"/clip.avi"⟩, directory := ⟨"/jobs"⟩, index := 3 }

/-- A console with a file in the folder of the earlier job, and the record of it. -/
def recordedConsole : Console where
  desk := {
    files := { nodes := [(["jobs"], .folder), (["jobs", "Job2_Output_0.mkv"], .file "" false),
      (["jobs", "Job3_Settings.json"], .file earlierJob.recordText false)] }
    tools := () }

/-- A console with a finished file whose job was cleaned up. -/
def finishedConsole : Console where
  desk := {
    files := { nodes := [(["jobs"], .folder), (["jobs", "Job1_Final.mkv"], .file "" false)] }
    tools := () }

/-- The request for a new job there. -/
def asking : Options := { files := [⟨"/new.avi"⟩], folder := some ⟨"/jobs"⟩ }

/-- The job that is filed for it. -/
def askedJob (index : Nat) : Job :=
  Act.jobOf .standard asking ⟨"/new.avi"⟩ ⟨"/jobs"⟩ index

theorem recover_single {names : List String} {name : String} (hlist : t.list folder = .ok names)
    (hnames : names.filter Job.isRecordName = [name])
    (hload : Job.load t (folder.join ⟨name⟩) = .ok job) : Job.recover t folder = .ok [job] := by
  rw [Job.recover, hlist]
  simp only [hnames, List.filterMap_cons, List.filterMap_nil, hload, Except.toOption, Job.byIndex,
    List.mergeSort_singleton]

theorem recover_recordedConsole :
    Job.recover recordedConsole.desk.files ⟨"/jobs"⟩ = .ok [earlierJob] := by
  have hfilable : earlierJob.Filable := ⟨by decide, by decide, fun _ hx => nomatch hx⟩
  have hpath : Path.join ⟨"/jobs"⟩ ⟨"Job3_Settings.json"⟩ = ⟨"/jobs/Job3_Settings.json"⟩ := by decide
  have hload : Job.load recordedConsole.desk.files ⟨"/jobs/Job3_Settings.json"⟩ = .ok earlierJob :=
    Job.load_of_readText hfilable rfl
  exact recover_single rfl (by decide) (hpath ▸ hload)

theorem exists_stored (job : Job) (t : FileTree)
    (h : (t.writeMaking (job.path .record) "").toOption.isSome = true) :
    ∃ t', job.store t = .ok t' := by
  cases hwrite : t.writeMaking (job.path .record) "" with
  | ok u =>
    obtain ⟨t', ht'⟩ := FileTree.writeMaking_any hwrite job.recordText
    exact ⟨t', Job.storeAt_ok_iff.2 ht'⟩
  | error cause =>
    rw [hwrite] at h
    cases h

theorem files_recorded : ∃ t, Act.Files asking recordedConsole .standard (askedJob 4) t := by
  have index : (Act.pickIndex asking ⟨"/jobs"⟩ recordedConsole).1 = .ok 4 := by
    have hexists : recordedConsole.desk.files.pathExists ⟨"/jobs"⟩ = true := by decide +kernel
    have habove : Queue.indexAbove [earlierJob] = 4 := rfl
    have hword : ¬ Numeral.word ≤ 4 := by decide
    simp only [Act.pickIndex, asking, Act.newIndex_run, hexists, if_true, recover_recordedConsole,
      habove, if_neg hword]
  obtain ⟨t, stored⟩ := exists_stored (askedJob 4) recordedConsole.desk.files
    (by decide +kernel)
  exact ⟨t, {
    machine := by decide +kernel
    directory := by decide +kernel
    source := by decide +kernel
    index
    asked := rfl
    fresh := by decide +kernel
    stored }⟩

theorem new_index_free_iff_recorded : asking.index = none ∧
    ∃ c', Act.init asking recordedConsole = (.ok ((askedJob 4).path .record), c') ∧
      ∀ name ∈ namesIn recordedConsole.desk.files ⟨"/jobs"⟩,
        (askedJob 4).classify name = .foreign ∧ ∀ f, name ≠ (askedJob 4).fileName f := by
  obtain ⟨t, hfiles⟩ := files_recorded
  have hinit := Act.init_run hfiles
  obtain ⟨m, job, hfiles', -, -, -, hforeign⟩ := new_index_free_iff rfl hinit
  obtain ⟨-, rfl⟩ := hfiles.unique hfiles'
  exact ⟨rfl, _, hinit, hforeign (by decide +kernel)⟩

/-- **A finished file outlives its record**, and the next job gets its name. -/
theorem finished_index_taken : ¬ ∀ (o : Options) (c : Console) (m : Machine) (job : Job)
    (t : FileTree), o.index = none → Act.Files o c m job t →
      IsFree c.desk.files job.directory job.index := by
  intro hfree
  obtain ⟨t, stored⟩ := exists_stored (askedJob 1) finishedConsole.desk.files
    (by decide +kernel)
  have hfiles : Act.Files asking finishedConsole .standard (askedJob 1) t := {
    machine := by decide +kernel
    directory := by decide +kernel
    source := by decide +kernel
    index := by decide +kernel
    asked := rfl
    fresh := by decide +kernel
    stored }
  have htaken : ¬ IsFree finishedConsole.desk.files ⟨"/jobs"⟩ 1 := by decide +kernel
  exact htaken (hfree _ _ _ _ _ rfl hfiles)

end CommandLine

end Restoration
