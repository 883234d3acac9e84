import Restoration.Proofs.CommandLine.Act
import Restoration.Proofs.Encoding.Scripts
import Restoration.Proofs.Graph.Acceleration
import Restoration.Proofs.Job.Filing
import Restoration.Proofs.Job.Record

/-!
# The first script of a job

An analysis and an encoding keep a script that is there, so the command that makes it first makes it
for those that come later. Compiling and encoding find out whether filters may use the graphics
processor; an analysis goes by what the machine says, and takes silence for a no:

    text of one command = text of another   ↔   same processor, or the job has no filter that asks
-/

namespace Restoration.CommandLine

variable {m : Machine} {job : Job}

/-! ## What commands do up to the script -/

namespace Act

/-- The part of compiling that makes the script. Gives the job, the engine that the script is for, and
the path it is at. -/
def compileScript (o : Options) : Act (Job × Engine × Path) := do
  let m ← machine o
  let job ← loadJob (file o)
  change (fun t => t.makeFolders job.directory) (.folder job.directory)
  let gpu ← atDesk (m.detectGpu job.directory)
  let engine := m.engine (← get).threads gpu o.preview job.parallelism
  let script ← require .script (job.compile engine)
  let output := o.output.getD (if o.preview then previewPath job else job.path .script)
  change (script.store output) .script
  return (job, engine, output)

theorem compile_eq (o : Options) : compile o = (do
    let (job, engine, output) ← compileScript o
    if job.stabilization.isSome then
      let motion ← require .script (job.compileMotion engine)
      change (motion.store (job.path .motionScript)) .script
    return output) := by
  simp only [compile, compileScript, bind_assoc, pure_bind]

/-- The part of an analysis that makes the script if there is none. -/
def analyzeScript (o : Options) : Act (Machine × Job) := do
  let m ← machine o
  let job ← loadJob (file o)
  if !(← files).pathExists (job.path .script) then
    let engine := m.engine (← get).threads (m.gpu.getD false) false job.parallelism
    let script ← require .script (job.compile engine)
    change (script.store (job.path .script)) .script
  return (m, job)

/-- The part of an analysis behind the script. -/
def report (m : Machine) (job : Job) : Act Unit := do
  let p ← onDesk .job (job.survey m.toolbox)
  let partition := Partition.of job.parallelism.toNat p.framesLeft
  print ("Job " ++ Numeral.text job.index ++ ": " ++ Numeral.text p.totalFrames ++ " frames")
  print (rangesLine "Done" p.framesDone p.done)
  print (rangesLine "Left" p.framesLeft p.left)
  print ("Chunks for " ++ Numeral.text partition.workers ++ " workers: "
    ++ FrameRange.listText (partition.chunks p.left))

theorem analyze_eq (o : Options) :
    analyze o = (do let (m, job) ← analyzeScript o; report m job) := by
  simp only [analyze, analyzeScript, bind_assoc]
  refine bind_congr fun m => bind_congr fun job => bind_congr fun t => ?_
  by_cases hmissing : (!t.pathExists (job.path .script)) = true
  · simp only [if_pos hmissing, bind_assoc, pure_bind, report]
  · simp only [if_neg hmissing, pure_bind, report]

/-- The part of encoding jobs that finds out under which circumstances. -/
def circumstances (m : Machine) (jobs : List Job) : Act EncodingOptions := do
  onDesk .tool (Programs.verify m.tools)
  let scratch := ((jobs.head?).map (·.directory)).getD m.jobDirectory
  change (fun t => t.makeFolders scratch) .scratch
  let gpu ← atDesk (m.detectGpu scratch)
  return m.encodingOptions (← get).threads gpu

theorem exists_encodeJobs_eq (m : Machine) (jobs known : List Job) :
    ∃ rest : List (Queue.Outcome JobFault) → Act Unit, encodeJobs m jobs known = (do
      let options ← circumstances m jobs
      let queue := jobs.foldl Queue.push ((Queue.ofSlots m.slots).seeded known)
      let outcomes ← atDesk (queue.drain (fun d : Desk Unit => d.isRaised) (encodeOne m options))
      rest outcomes) := by
  simp only [encodeJobs, circumstances, bind_assoc, pure_bind]
  exact ⟨_, rfl⟩

/-! ## What they leave -/

variable {o : Options} {c c' : Console} {engine : Engine} {path : Path} {options : EncodingOptions}

/-- Whether filters may use the graphics processor: what the machine finds out at a console, if there is
a folder to try it out in, which is made first. Otherwise a machine has to say so. -/
def Chooses (m : Machine) (c : Console) (gpu : Bool) : Option Path → Prop
  | some scratch => ∃ t, c.desk.files.makeFolders scratch = .ok t ∧
    gpu = (m.detectGpu scratch { c.desk with files := t }).1
  | none => gpu = m.gpu.getD false

theorem Chooses.unique {gpu gpu' : Bool} {scratch : Option Path} (h : Chooses m c gpu scratch)
    (h' : Chooses m c gpu' scratch) : gpu = gpu' := by
  cases scratch with
  | none => exact h.trans h'.symm
  | some scratch =>
    obtain ⟨t, ht, rfl⟩ := h
    obtain ⟨t', ht', rfl⟩ := h'
    cases ht.symm.trans ht'
    rfl

/-- Nothing is tried out on a machine that says it. -/
theorem Chooses.eq_of_set {gpu g : Bool} {scratch : Option Path} (h : Chooses m c gpu scratch)
    (hset : m.gpu = some g) : gpu = g := by
  cases scratch with
  | none =>
    rw [Chooses, hset] at h
    exact h
  | some scratch =>
    obtain ⟨t, -, rfl⟩ := h
    rw [Machine.detectGpu, hset]
    rfl

theorem readText_of_store {s : Script} {p : Path} (h : change (s.store p) .script c = (.ok (), c')) :
    c'.desk.files.readText p = .ok s.text := by
  obtain ⟨t, ht, rfl⟩ := change_ok h
  exact FileTree.readText_of_write (Script.store_ok_iff.1 ht)

/-- Compiling lets the machine find out about the graphics processor. -/
theorem compileScript_ok (h : compileScript o c = (.ok (job, engine, path), c'))
    (hm : (machine o c).1 = .ok m) : ∃ gpu s, Chooses m c gpu (some job.directory) ∧
      engine = m.engine c.threads gpu o.preview job.parallelism ∧
      path = o.output.getD (if o.preview then previewPath job else job.path .script) ∧
      job.compile engine = .ok s ∧ c'.desk.files.readText path = .ok s.text := by
  obtain ⟨m', c₁, hmachine, h₁⟩ := bind_ok h
  rw [hmachine] at hm
  cases hm
  obtain rfl := machine_ok hmachine
  obtain ⟨j, c₂, hload, h₂⟩ := bind_ok h₁
  obtain ⟨-, rfl⟩ := loadJob_ok hload
  obtain ⟨_, c₃, hfolder, h₃⟩ := bind_ok h₂
  obtain ⟨t, ht, rfl⟩ := change_ok hfolder
  obtain ⟨gpu, c₄, hgpu, h₄⟩ := bind_ok h₃
  rw [atDesk_run] at hgpu
  cases hgpu
  obtain ⟨_, _, hget, h₅⟩ := bind_ok h₄
  cases hget
  obtain ⟨s, c₆, hcompile, h₆⟩ := bind_ok h₅
  obtain ⟨hs, rfl⟩ := ok_of_require hcompile
  obtain ⟨_, c₇, hstore, h₇⟩ := bind_ok h₆
  cases h₇
  exact ⟨_, s, ⟨t, ht, rfl⟩, rfl, rfl, hs, readText_of_store hstore⟩

theorem compileScript_run {t u : FileTree} {d : Desk Unit} {gpu : Bool} {s : Script}
    (hm : machine o c = (.ok m, c)) (hload : Job.load c.desk.files (file o) = .ok job)
    (hfolder : c.desk.files.makeFolders job.directory = .ok t)
    (hgpu : m.detectGpu job.directory { c.desk with files := t } = (gpu, d))
    (hs : job.compile (m.engine c.threads gpu o.preview job.parallelism) = .ok s)
    (hpath : o.output.getD (if o.preview then previewPath job else job.path .script) = path)
    (hstore : s.store path d.files = .ok u) :
    compileScript o c = (.ok (job, m.engine c.threads gpu o.preview job.parallelism, path),
      { c with desk := { d with files := u } }) := by
  simp only [compileScript, loadJob, bind_run, hm, files_run, hload, require_ok, change_run, hfolder,
    atDesk_run, hgpu, get_run, hs, hpath, hstore]
  rfl

/-- An analysis of a job without a script goes by what the machine says. -/
theorem analyzeScript_ok (h : analyzeScript o c = (.ok (m, job), c'))
    (hmissing : c.desk.files.pathExists (job.path .script) = false) : ∃ s,
      job.compile (m.engine c.threads (m.gpu.getD false) false job.parallelism) = .ok s ∧
      c'.desk.files.readText (job.path .script) = .ok s.text := by
  obtain ⟨m', c₁, hmachine, h₁⟩ := bind_ok h
  obtain rfl := machine_ok hmachine
  obtain ⟨j, c₂, hload, h₂⟩ := bind_ok h₁
  obtain ⟨-, rfl⟩ := loadJob_ok hload
  obtain ⟨_, _, hfiles, h₃⟩ := bind_ok h₂
  cases hfiles
  split at h₃
  · obtain ⟨_, c₃, hget, h₄⟩ := bind_ok h₃
    cases hget
    obtain ⟨s, c₄, hcompile, h₅⟩ := bind_ok h₄
    obtain ⟨hs, rfl⟩ := ok_of_require hcompile
    obtain ⟨_, c₅, hstore, h₆⟩ := bind_ok h₅
    cases h₆
    exact ⟨s, hs, readText_of_store hstore⟩
  · rename_i hthere
    cases h₃
    exact absurd hmissing (by simpa using hthere)

theorem analyzeScript_run {u : FileTree} {s : Script} (hm : machine o c = (.ok m, c))
    (hload : Job.load c.desk.files (file o) = .ok job)
    (hmissing : c.desk.files.pathExists (job.path .script) = false)
    (hs : job.compile (m.engine c.threads (m.gpu.getD false) false job.parallelism) = .ok s)
    (hstore : s.store (job.path .script) c.desk.files = .ok u) :
    analyzeScript o c = (.ok (m, job), { c with desk := { c.desk with files := u } }) := by
  simp only [analyzeScript, loadJob, bind_run, hm, files_run, hload, require_ok, hmissing,
    Bool.not_false, if_true, get_run, hs, change_run, hstore]
  rfl

theorem find_ok {tool : Path} {d d' : Desk Unit} (h : Programs.find tool d = (.ok (), d')) :
    d' = d := by
  obtain ⟨_, _, hget, hrest⟩ := bind_ok h
  cases hget
  split at hrest <;> cases hrest
  rfl

/-- Encoding lets the machine find out too, once for all jobs. -/
theorem circumstances_ok {jobs : List Job} (h : circumstances m jobs c = (.ok options, c')) :
    ∃ gpu, Chooses m c gpu (some (((jobs.head?).map (·.directory)).getD m.jobDirectory)) ∧
      options = m.encodingOptions c.threads gpu := by
  obtain ⟨_, c₁, hverify, h₁⟩ := bind_ok h
  obtain ⟨hfound, hthreads⟩ := onDesk_ok hverify
  obtain ⟨_, d₁, hengine, hothers⟩ := bind_ok hfound
  obtain ⟨_, d₂, htranscoder, hprober⟩ := bind_ok hothers
  have hdesk : c₁.desk = c.desk := by
    rw [find_ok hprober, find_ok htranscoder, find_ok hengine]
  obtain ⟨_, c₂, hfolder, h₂⟩ := bind_ok h₁
  obtain ⟨t, ht, rfl⟩ := change_ok hfolder
  obtain ⟨gpu, c₃, hgpu, h₃⟩ := bind_ok h₂
  rw [atDesk_run] at hgpu
  cases hgpu
  obtain ⟨_, _, hget, h₄⟩ := bind_ok h₃
  cases hget
  cases h₄
  rw [hdesk] at ht
  exact ⟨_, ⟨t, ht, rfl⟩, by rw [← hthreads, hdesk]⟩

end Act

/-! ## The command that comes first -/

/-- The commands that make the script of a job. -/
inductive Origin where
  | compiling
  | analysis
  /-- What is encoded together, with the folder of its first job. -/
  | encoding (folder : Path)
  deriving DecidableEq, Repr

/-- Where a command tries the graphics processor out. An analysis does not. -/
def Origin.scratch? (job : Job) : Origin → Option Path
  | compiling => some job.directory
  | analysis => none
  | encoding folder => some folder

/-- A command at the console `c` has just made the script of a job that had none, for an engine. -/
inductive Makes (m : Machine) (job : Job) (c : Console) : Origin → Engine → FileTree → Prop where
  | compiling {o : Options} {engine : Engine} {path : Path} {c' : Console}
      (plain : o.preview = false ∧ o.output = none) (machine : (Act.machine o c).1 = .ok m)
      (ran : Act.compileScript o c = (.ok (job, engine, path), c')) :
      Makes m job c .compiling engine c'.desk.files
  | analysis {o : Options} {c' : Console}
      (missing : c.desk.files.pathExists (job.path .script) = false)
      (ran : Act.analyzeScript o c = (.ok (m, job), c')) :
      Makes m job c .analysis (m.engine c.threads (m.gpu.getD false) false job.parallelism)
        c'.desk.files
  /-- The job is one of those that are encoded, as recorded or taken up again. -/
  | encoding {jobs : List Job} {options : EncodingOptions} {c' : Console} {b b' b'' : Bench Unit}
      {j : Job} (found : Act.circumstances m jobs c = (.ok options, c')) (listed : b.job ∈ jobs)
      (same : b.job = job ∨ ∃ position, b.job = job.resumedAt position)
      (begun : Encoding.begun m.toolbox options b = (.ok j, b'))
      (missing : b'.desk.files.pathExists (job.path .script) = false)
      (ran : Encoding.onDesk (Encoding.fileScript options j) b' = (.ok (), b'')) :
      Makes m job c (.encoding (((jobs.head?).map (·.directory)).getD m.jobDirectory))
        (Encoding.EncodingOptions.engineFor options j) b''.desk.files

/-- The engine of an encoding is that of the machine. -/
theorem engineFor_encodingOptions (m : Machine) (n : Nat) (gpu : Bool) (j : Job) :
    Encoding.EncodingOptions.engineFor (m.encodingOptions n gpu) j =
      m.engine n gpu false j.parallelism := rfl

/-- A job that is encoded is in all that scripts depend on the job that was recorded. -/
theorem compile_running {j : Job} (hsame : j = job ∨ ∃ position, j = job.resumedAt position) :
    ({ j with status := .running } : Job).compile = job.compile ∧
      ({ j with status := .running } : Job).path = job.path := by
  rcases hsame with rfl | ⟨position, rfl⟩ <;> exact ⟨rfl, rfl⟩

namespace Makes

variable {c : Console} {q : Origin} {e : Engine} {t : FileTree}

theorem engine_eq (h : Makes m job c q e t) : ∃ gpu, Act.Chooses m c gpu (q.scratch? job) ∧
    e = m.engine c.threads gpu false job.parallelism := by
  cases h with
  | compiling plain machine ran =>
    obtain ⟨gpu, s, hchooses, rfl, -⟩ := Act.compileScript_ok ran machine
    exact ⟨gpu, hchooses, by rw [plain.1]⟩
  | analysis => exact ⟨_, rfl, rfl⟩
  | @encoding _ _ _ _ _ _ _ found _ same begun _ _ =>
    obtain ⟨gpu, hchooses, rfl⟩ := Act.circumstances_ok found
    refine ⟨gpu, hchooses, ?_⟩
    rw [Encoding.begun_ok begun, engineFor_encodingOptions]
    rcases same with hjob | ⟨position, hjob⟩
    · rw [hjob]
    · rw [hjob]
      rfl

theorem readText (h : Makes m job c q e t) :
    ∃ s, job.compile e = .ok s ∧ t.readText (job.path .script) = .ok s.text := by
  cases h with
  | compiling plain machine ran =>
    obtain ⟨gpu, s, -, -, rfl, hs, hread⟩ := Act.compileScript_ok ran machine
    rw [plain.1, plain.2] at hread
    exact ⟨s, hs, hread⟩
  | analysis missing ran => exact Act.analyzeScript_ok ran missing
  | encoding found listed same begun missing ran =>
    obtain ⟨hcompile, hpath⟩ := compile_running same
    obtain rfl := Encoding.begun_ok begun
    obtain ⟨hfiled, -⟩ := Encoding.onDesk_ok ran
    rw [← hpath] at missing
    obtain ⟨s, hs, hwrite⟩ := Encoding.fileScript_ok missing hfiled
    rw [hcompile] at hs
    rw [hpath] at hwrite
    exact ⟨s, hs, FileTree.readText_of_write hwrite⟩

end Makes

/-- **Whichever command comes first**, the job gets a script, for one and the same engine up to the
graphics processor, which matters only to jobs with a filter that asks for it. Commands agree if the
machine says which processor to use, and if both try it out in one folder from one state. An analysis
tries nothing out: without a word from the machine, its script is for the main processor. -/
theorem first_script {q q' : Origin} {c c' : Console} {e e' : Engine} {t t' : FileTree}
    (h : Makes m job c q e t) (h' : Makes m job c' q' e' t') (hthreads : c.threads = c'.threads) :
    (∃ s, job.compile e = .ok s ∧ t.readText (job.path .script) = .ok s.text) ∧
      e' = { e with gpu := e'.gpu } ∧
      Act.Chooses m c e.gpu (q.scratch? job) ∧ Act.Chooses m c' e'.gpu (q'.scratch? job) ∧
      (t.readText (job.path .script) = t'.readText (job.path .script) ↔
        e.gpu = e'.gpu ∨ job.asksGpu = false) ∧
      (m.gpu.isSome ∨ c = c' ∧ q.scratch? job = q'.scratch? job →
        t.readText (job.path .script) = t'.readText (job.path .script)) := by
  obtain ⟨s, hs, hread⟩ := h.readText
  obtain ⟨s', hs', hread'⟩ := h'.readText
  obtain ⟨gpu, hchooses, rfl⟩ := h.engine_eq
  obtain ⟨gpu', hchooses', rfl⟩ := h'.engine_eq
  have hengine : m.engine c'.threads gpu' false job.parallelism =
      { m.engine c.threads gpu false job.parallelism with gpu := gpu' } := by
    rw [hthreads]
    rfl
  have hiff : t.readText (job.path .script) = t'.readText (job.path .script) ↔
      gpu = gpu' ∨ job.asksGpu = false := by
    rw [hengine] at hs'
    rw [hread, hread', Except.ok.injEq]
    exact Job.compile_text_eq_iff job (m.engine c.threads gpu false job.parallelism) hs hs'
  refine ⟨⟨s, hs, hread⟩, hengine, hchooses, hchooses', hiff, ?_⟩
  rintro (hset | ⟨rfl, hscratch⟩)
  · obtain ⟨g, hg⟩ := Option.isSome_iff_exists.1 hset
    exact hiff.2 (.inl ((hchooses.eq_of_set hg).trans (hchooses'.eq_of_set hg).symm))
  · rw [hscratch] at hchooses
    exact hiff.2 (.inl (hchooses.unique hchooses'))

/-! ## A machine that does not say -/

/-- A job with grain in its source. -/
def grainyJob : Job :=
  { source := ⟨"/clip.avi"⟩, directory := ⟨"/jobs"⟩, index := 1, denoising := some {} }

/-- A machine on which every script runs; whether filters may use the graphics processor is not
set. -/
def ableMachine : Machine := { tools := { engine := ⟨"/bin/true"⟩ } }

/-- A console of the machine with the record of the job. -/
def ableConsole : Console where
  desk := {
    files := { nodes := [(["jobs"], .folder),
      (["jobs", "Job1_Settings.json"], .file grainyJob.recordText false),
      (["remaster.json"], .file
        "\x7b\"tools\": \x7b\"avs_pipe\": \"/bin/true\", \"ffmpeg\": \"ffmpeg\", \"ffprobe\": \"ffprobe\"\x7d\x7d"
        false)] }
    tools := () }
  threads := 4

/-- The request for the job. -/
def requested : Options := { files := [⟨"/jobs/Job1_Settings.json"⟩] }

theorem machine_ableConsole : Act.machine requested ableConsole = (.ok ableMachine, ableConsole) :=
  Prod.ext (by decide +kernel) (Act.machine_state _ _)

theorem load_ableConsole :
    Job.load ableConsole.desk.files (Act.file requested) = .ok grainyJob := by
  have hfilable : grainyJob.Filable := ⟨by decide, by decide, fun _ hx => nomatch hx⟩
  have hread : ableConsole.desk.files.readText (Act.file requested) = .ok grainyJob.recordText := rfl
  rw [Job.load, hread]
  simp only [Job.ofText_recordText hfilable]
  rfl

/-- The desk once the graphics processor was tried out. -/
def probedDesk : Desk Unit := (ableMachine.detectGpu grainyJob.directory ableConsole.desk).2

theorem exists_compile_grainyJob (e : Engine) : ∃ s, grainyJob.compile e = .ok s :=
  (Job.compile_ok_iff grainyJob e).2 (by decide +kernel)

theorem exists_store_of_isSome {t : FileTree} {p : Path} (s : Script)
    (h : (t.write p "").toOption.isSome = true) : ∃ u, s.store p t = .ok u := by
  cases hwrite : t.write p "" with
  | ok u =>
    obtain ⟨u', hu'⟩ := FileTree.write_any hwrite s.text
    exact ⟨u', Script.store_ok_iff.2 hu'⟩
  | error cause =>
    rw [hwrite] at h
    cases h

theorem makes_compiling_able : ∃ t,
    Makes ableMachine grainyJob ableConsole .compiling (ableMachine.engine 4 true false 1) t := by
  have hfolder : ableConsole.desk.files.makeFolders grainyJob.directory =
      .ok ableConsole.desk.files := rfl
  have hgpu : ableMachine.detectGpu grainyJob.directory ableConsole.desk = (true, probedDesk) :=
    Prod.ext (by decide +kernel) rfl
  obtain ⟨s, hs⟩ := exists_compile_grainyJob (ableMachine.engine 4 true false 1)
  obtain ⟨u, hstore⟩ := exists_store_of_isSome s
    (by decide +kernel : (probedDesk.files.write (grainyJob.path .script) "").toOption.isSome = true)
  exact ⟨_, .compiling ⟨rfl, rfl⟩ (congrArg Prod.fst machine_ableConsole)
    (Act.compileScript_run machine_ableConsole load_ableConsole hfolder hgpu hs rfl hstore)⟩

theorem makes_analysis_able : ∃ t,
    Makes ableMachine grainyJob ableConsole .analysis (ableMachine.engine 4 false false 1) t := by
  have hmissing : ableConsole.desk.files.pathExists (grainyJob.path .script) = false := by
    decide +kernel
  obtain ⟨s, hs⟩ := exists_compile_grainyJob (ableMachine.engine 4 false false 1)
  obtain ⟨u, hstore⟩ := exists_store_of_isSome s (by decide +kernel :
    (ableConsole.desk.files.write (grainyJob.path .script) "").toOption.isSome = true)
  exact ⟨_, .analysis hmissing
    (Act.analyzeScript_run machine_ableConsole load_ableConsole hmissing hs hstore)⟩

theorem first_script_able : ∃ t t',
    Makes ableMachine grainyJob ableConsole .compiling (ableMachine.engine 4 true false 1) t ∧
      Makes ableMachine grainyJob ableConsole .analysis (ableMachine.engine 4 false false 1) t' ∧
      (t.readText (grainyJob.path .script) = t'.readText (grainyJob.path .script) ↔
        true = false ∨ grainyJob.asksGpu = false) := by
  obtain ⟨t, h⟩ := makes_compiling_able
  obtain ⟨t', h'⟩ := makes_analysis_able
  obtain ⟨-, -, -, -, hiff, -⟩ := first_script h h' rfl
  exact ⟨t, t', h, h', hiff⟩

/-- **An analysis that comes first keeps filters off the graphics processor** that compiling would
have found. -/
theorem analysis_forgoes_gpu : ¬ ∀ (m : Machine) (job : Job) (q q' : Origin) (c : Console)
    (e e' : Engine) (t t' : FileTree), Makes m job c q e t → Makes m job c q' e' t' →
      t.readText (job.path .script) = t'.readText (job.path .script) := by
  intro hsame
  obtain ⟨t, h⟩ := makes_compiling_able
  obtain ⟨t', h'⟩ := makes_analysis_able
  obtain ⟨s, hs, hread⟩ := h.readText
  obtain ⟨s', hs', hread'⟩ := h'.readText
  have htext := hsame _ _ _ _ _ _ _ _ _ h h'
  rw [hread, hread', Except.ok.injEq] at htext
  rcases (Job.compile_text_eq_iff grainyJob (ableMachine.engine 4 true false 1) hs hs').1 htext with
    hgpu | hasks
  · cases hgpu
  · cases hasks

end Restoration.CommandLine
