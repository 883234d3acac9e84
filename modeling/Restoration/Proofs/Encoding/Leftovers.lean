import Restoration.Proofs.Encoding.Joining
import Restoration.Proofs.Job.Path

/-!
# What failed chunks leave behind

The outputs of failed encoders are removed behind the last chunk, and nothing else is. A script that
cannot be written ends the work ahead of that, and then the outputs of all encoders stay:

    encodeChunks … b = (ok n, b')         →  no failed chunk has a file at its fragment's place in b'
    encodeChunks … b = (error fault, b')  →  every file is as the last encoder left it
-/

namespace Restoration

open FileTree Work

/-- No file stands where the path leads. -/
def FileTree.Fileless (t : FileTree) (p : Path) : Prop :=
  ∀ q text x, t.resolve p = .ok q → t.node? q ≠ some (.file text x)

/-- The path of a job's file can lead to a file. -/
theorem Job.asksForFolder_path (j : Job) (f : JobFile) : asksForFolder (j.path f) = false := by
  have hn := j.isName_fileName f
  by_cases hdirectory : j.directory.text = ""
  · have hpath : j.path f = ⟨j.fileName f⟩ := by simp [path, Path.join, hdirectory]
    have hslash : (j.fileName f).toList.getLast? ≠ some '/' := fun h =>
      hn.slash (List.mem_of_getLast? h)
    simp [hpath, asksForFolder, pieces_name hn, hslash, hn.ne_here, hn.ne_up]
  · exact asksForFolder_join hdirectory hn

/-- A file is gone once it is removed with others. -/
theorem FileTree.fileless_removeAll (t : FileTree) {ps : List Path} {p : Path} (hp : p ∈ ps)
    (hasks : asksForFolder p = false) : (t.removeAll ps).Fileless p := by
  intro q text x hq hfile
  have hsame : SameBut (fun _ => True) t (t.removeAll ps) :=
    sameBut_removeAll t ps fun _ _ _ _ => trivial
  have hgone : t.node? q ≠ some .folder → (t.removeAll ps).node? q = none :=
    removeAll_file t hp hasks ((hsame.resolve_iff p q).1 hq)
  by_cases hfolder : t.node? q = some .folder
  · rw [(hsame.folder_iff q).2 hfolder] at hfile
    cases hfile
  · rw [hgone hfolder] at hfile
    cases hfile

namespace Encoding

variable {τ : Type} {tools : Toolbox τ} {o : EncodingOptions} {job : Job} {base : Script}
  {p : Progress}

/-! ## Ways out -/

/-- Only a script that cannot be written ends the encoding of chunks with a fault. -/
theorem encodeAll_error {chunks : List FrameRange} {d d' : Desk τ} {fault : JobFault}
    (h : encodeAll tools o job base chunks d = (.error fault, d')) :
    ∃ begun c rest rs d₁, chunks = begun ++ c :: rest ∧ Encodes tools o job base begun d rs d₁ ∧
      write (base.restrict c) (chunkScript job c) d₁.looked = (.error fault, d') := by
  generalize hr : (.error fault : Except JobFault _) = r at h
  induction chunks generalizing d r with
  | nil =>
    cases h
    cases hr
  | cons c rest ih =>
    cases encodeAll_cons h with
    | stopped raised => cases hr
    | refused waved written =>
      cases hr
      exact ⟨[], c, rest, [], d, rfl, .done, written⟩
    | @chunk d₁ d₂ _ r₁ r' waved written encoded others =>
      cases r' with
      | ok rs => cases hr
      | error fault' =>
        cases hr
        obtain ⟨begun, c', rest', rs, d₃, rfl, hbegun, hrefused⟩ := ih _ rfl others
        exact ⟨c :: begun, c', rest', (c, r₁) :: rs, d₃, rfl, .chunk waved written encoded hbegun,
          hrefused⟩

/-- Without a count of failures, nothing was removed: a script could not be read or written. -/
theorem encodeChunks_error {b b' : Bench τ} {fault : JobFault}
    (h : encodeChunks tools o p b = (.error fault, b')) : ∃ base begun rs d,
      begun <+: chunksOf b.job p ∧
      Encodes tools o b.job base begun { b.desk with started := [] } rs d ∧
      b'.desk.files = d.files ∧ ∃ file cause, fault = .script (.file file cause) := by
  rcases bind_cases h with ⟨e, hjob, -⟩ | ⟨job, b₁, hjob, h⟩
  · cases hjob
  cases hjob
  rcases bind_cases h with ⟨e, hlook, he⟩ | ⟨text, b₂, hlook, h⟩
  · cases he
    obtain ⟨hlook, -⟩ := onDesk_ok hlook
    refine ⟨{}, [], [], _, List.nil_prefix, .done, ?_, ?_⟩
    · rw [look_error hlook]
    · obtain ⟨cause, rfl⟩ := look_fault hlook
      exact ⟨_, cause, rfl⟩
  obtain ⟨hlook, -⟩ := onDesk_ok hlook
  obtain ⟨-, hdesk⟩ := look_ok hlook
  rcases bind_cases h with ⟨e, hstarted, -⟩ | ⟨⟨⟩, b₃, hstarted, h⟩
  · cases hstarted
  cases hstarted
  rcases bind_cases h with ⟨e, hall, he⟩ | ⟨rs, b₄, hall, h⟩
  · cases he
    obtain ⟨begun, c, rest, rs, d, hchunks, hbegun, hrefused⟩ := encodeAll_error (onDesk_ok hall).1
    rw [← hdesk] at hbegun
    refine ⟨_, begun, rs, d, ⟨c :: rest, hchunks.symm⟩, hbegun, ?_, ?_⟩
    · rw [← change_error hrefused]
      rfl
    · obtain ⟨cause, rfl⟩ := change_fault hrefused
      exact ⟨_, cause, rfl⟩
  · -- behind the last chunk, nothing can fail
    cases h

/-! ## Fragments of other chunks -/

theorem apart_chunkScript (job : Job) (c : FrameRange) (s : Nat) :
    Apart (chunkScript job c) (job.path (.fragment s)) := by
  refine Job.apart_path (job.fileName_ne_fragment ?_ s)
  split <;> simp

theorem apart_fragments {s s' : Nat} (h : s ≠ s') :
    Apart (job.path (.fragment s)) (job.path (.fragment s')) :=
  Job.apart_path fun hname => h (job.fileName_fragment_inj hname)

namespace Encodes

variable {chunks : List FrameRange} {d d' : Desk τ}
  {rs before after : List (FrameRange × Except ToolFault Unit)}

/-- A fragment of which no chunk was begun is as it was. -/
theorem fragment_eq (htidy : tools.Tidy) (h : Encodes tools o job base chunks d rs d') {s : Nat}
    (hs : ∀ x ∈ rs, x.1.start ≠ s) {q : Place}
    (hq : d.files.resolve (job.path (.fragment s)) = .ok q) : d'.files.node? q = d.files.node? q := by
  refine (h.sameBut_begun htidy).elsewhere q ?_
  rintro ⟨x, hx, hscript | hfragment⟩
  · exact (apart_chunkScript job x.1 s).places hscript hq rfl
  · exact (apart_fragments (hs x hx)).places hfragment hq rfl

/-- A fragment stays as its encoder left it if no later chunk has the same start. -/
theorem as_encoded (htidy : tools.Tidy) (h : Encodes tools o job base chunks d rs d')
    {c : FrameRange} {r : Except ToolFault Unit} (hrs : rs = before ++ (c, r) :: after)
    (hafter : ∀ x ∈ after, x.1.start ≠ c.start) : ∃ d₁ d₂,
      tools.encode (chunkScript job c).forEngine (job.path (.fragment c.start)) job o.run d₁ =
        (r, d₂) ∧
      ∀ q, d.files.resolve (job.path (.fragment c.start)) = .ok q →
        d'.files.node? q = d₂.files.node? q := by
  induction h generalizing before with
  | done => simp at hrs
  | stopped => simp at hrs
  | @chunk c' rest d d₁ d₂ d₃ r' rs waved written encoded others ih =>
    have hencoded := htidy.encode (chunkScript job c').forEngine (job.path (.fragment c'.start)) job
      o.run d₁
    rw [encoded] at hencoded
    have hchunk := (change_write_ok written).2.both hencoded
    cases before with
    | nil =>
      cases hrs
      exact ⟨d₁, d₂, encoded, fun q hq => others.fragment_eq htidy hafter ((hchunk.resolve_iff _ q).2 hq)⟩
    | cons y before =>
      cases hrs
      obtain ⟨d₄, d₅, hmade, hkept⟩ := ih rfl
      exact ⟨d₄, d₅, hmade, fun q hq => hkept q ((hchunk.resolve_iff _ q).2 hq)⟩

end Encodes

/-! ## What is left behind -/

/-- What becomes of the fragments of chunks with these outcomes: `start` is the tree ahead of the
encoders, `behind` the tree behind the last of them, `last` the tree in the end. -/
structure Leaves (tools : Toolbox τ) (o : EncodingOptions) (job : Job)
    (rs : List (FrameRange × Except ToolFault Unit)) (start behind : FileTree)
    (r : Except JobFault Nat) (last : FileTree) : Prop where
  /-- The errors are counted, but for those of encoders that were stopped. -/
  count : ∀ n, r = .ok n → n = rs.countP fun (_, result) =>
    match result with
    | .ok () | .error (.cancelled _) => false
    | .error _ => true
  /-- No failed chunk leaves a fragment exactly if the chunks came to their end or no failed encoder
  left a file. -/
  cleared : (∀ c fault, (c, .error fault) ∈ rs → last.Fileless (job.path (.fragment c.start))) ↔
    (∃ n, r = .ok n) ∨
      ∀ c fault, (c, .error fault) ∈ rs → behind.Fileless (job.path (.fragment c.start))
  /-- A script that cannot be read or written is the only fault; nothing is removed then. -/
  refused : ∀ fault, r = .error fault →
    last = behind ∧ ∃ file cause, fault = .script (.file file cause)
  /-- Nothing but fragments of failed chunks is removed. -/
  others : ∀ q, (∀ c fault, (c, .error fault) ∈ rs →
    start.resolve (job.path (.fragment c.start)) ≠ .ok q) → last.node? q = behind.node? q
  /-- A fragment of which no chunk was begun is as it was. -/
  earlier : ∀ s q, (∀ x ∈ rs, x.1.start ≠ s) → start.resolve (job.path (.fragment s)) = .ok q →
    last.node? q = start.node? q
  /-- The fragment of a chunk that was encoded is as its encoder left it, if no other chunk has its
  start. -/
  encoded : ∀ before c after q, rs = before ++ (c, .ok ()) :: after →
    (∀ x ∈ before ++ after, x.1.start ≠ c.start) →
    start.resolve (job.path (.fragment c.start)) = .ok q → ∃ d₁ d₂,
      tools.encode (chunkScript job c).forEngine (job.path (.fragment c.start)) job o.run d₁ =
        (.ok (), d₂) ∧ last.node? q = d₂.files.node? q

theorem countFailures_eq (rs : List (FrameRange × Except ToolFault Unit)) :
    countFailures rs = rs.countP fun (_, result) =>
      match result with
      | .ok () | .error (.cancelled _) => false
      | .error _ => true := by
  refine List.countP_congr fun x _ => ?_
  rcases x with ⟨c, fault | _⟩
  · cases fault <;> simp [ToolFault.isCancelled]
  · exact Iff.rfl

theorem mem_failedChunks {rs : List (FrameRange × Except ToolFault Unit)} {c : FrameRange} :
    c ∈ failedChunks rs ↔ ∃ fault, (c, .error fault) ∈ rs := by
  rw [failedChunks, List.mem_filterMap]
  constructor
  · rintro ⟨⟨c', r⟩, hmem, hc⟩
    cases r with
    | ok => cases hc
    | error fault =>
      cases hc
      exact ⟨fault, hmem⟩
  · rintro ⟨fault, hmem⟩
    exact ⟨_, hmem, rfl⟩

/-- Removing the fragments of failed chunks leaves all other places alone. -/
theorem node?_discarded {rs : List (FrameRange × Except ToolFault Unit)} {t start : FileTree}
    {changed : Place → Prop} (hsame : SameBut changed start t) {q : Place}
    (hq : ∀ c fault, (c, .error fault) ∈ rs → start.resolve (job.path (.fragment c.start)) ≠ .ok q) :
    (t.removeAll ((failedChunks rs).map fun c => job.path (.fragment c.start))).node? q =
      t.node? q := by
  have hgone : SameBut (· ≠ q) t
      (t.removeAll ((failedChunks rs).map fun c => job.path (.fragment c.start))) := by
    refine sameBut_removeAll t _ ?_
    rintro path hpath q' hq' rfl
    obtain ⟨c, hc, rfl⟩ := List.mem_map.1 hpath
    obtain ⟨fault, hmem⟩ := mem_failedChunks.1 hc
    exact hq c fault hmem ((hsame.resolve_iff _ _).1 hq')
  exact hgone.elsewhere q fun h => h rfl

theorem fileless_discarded {rs : List (FrameRange × Except ToolFault Unit)} (t : FileTree)
    {c : FrameRange} {fault : ToolFault} (hc : (c, .error fault) ∈ rs) :
    (t.removeAll ((failedChunks rs).map fun c => job.path (.fragment c.start))).Fileless
      (job.path (.fragment c.start)) :=
  fileless_removeAll t (List.mem_map_of_mem (mem_failedChunks.2 ⟨fault, hc⟩))
    (job.asksForFolder_path _)

/-- It is enough to know which places are left alone behind the last encoder. -/
theorem Encodes.leaves (htidy : tools.Tidy) {begun : List FrameRange} {d d' : Desk τ}
    {rs : List (FrameRange × Except ToolFault Unit)} {r : Except JobFault Nat} {last : FileTree}
    (h : Encodes tools o job base begun d rs d') (count : ∀ n, r = .ok n → n = countFailures rs)
    (cleared : (∀ c fault, (c, .error fault) ∈ rs → last.Fileless (job.path (.fragment c.start))) ↔
      (∃ n, r = .ok n) ∨
        ∀ c fault, (c, .error fault) ∈ rs → d'.files.Fileless (job.path (.fragment c.start)))
    (refused : ∀ fault, r = .error fault →
      last = d'.files ∧ ∃ file cause, fault = .script (.file file cause))
    (others : ∀ q, (∀ c fault, (c, .error fault) ∈ rs →
      d.files.resolve (job.path (.fragment c.start)) ≠ .ok q) → last.node? q = d'.files.node? q) :
    Leaves tools o job rs d.files d'.files r last where
  count n hn := (count n hn).trans (countFailures_eq rs)
  cleared := cleared
  refused := refused
  others := others
  earlier s q hs hq := by
    rw [others q fun c fault hc hplace => (apart_fragments (hs _ hc)).places hplace hq rfl]
    exact h.fragment_eq htidy hs hq
  encoded before c after q hrs hother hq := by
    obtain ⟨d₁, d₂, hmade, hkept⟩ := h.as_encoded htidy hrs fun x hx =>
      hother x (List.mem_append_right _ hx)
    refine ⟨d₁, d₂, hmade, (others q fun c' fault hc hplace => ?_).trans (hkept q hq)⟩
    have hmem : (c', .error fault) ∈ before ++ after := by
      rw [hrs] at hc
      simpa using hc
    exact (apart_fragments (hother _ hmem)).places hplace hq rfl

/-- **No failed chunk leaves a fragment**, unless a script could not be written: then the fragments of
chunks that failed ahead of it stay. All other fragments are left alone in either case. -/
theorem failed_chunks_leave_no_fragment (tools : Toolbox τ) (htidy : tools.Tidy)
    (o : EncodingOptions) (p : Progress) (b : Bench τ) : ∃ base begun rs d,
      begun <+: chunksOf b.job p ∧
      Encodes tools o b.job base begun { b.desk with started := [] } rs d ∧
      Leaves tools o b.job rs b.desk.files d.files (encodeChunks tools o p b).1
        (encodeChunks tools o p b).2.desk.files := by
  rcases h : encodeChunks tools o p b with ⟨fault | n, b'⟩
  · obtain ⟨base, begun, rs, d, hbegun, hencodes, hfiles, hfault⟩ := encodeChunks_error h
    refine ⟨base, begun, rs, d, hbegun, hencodes,
      hencodes.leaves htidy (fun n hn => by cases hn) ?_ (fun _ he => ?_) fun q _ => by rw [hfiles]⟩
    · rw [hfiles]
      exact ⟨.inr, fun h => h.resolve_left fun ⟨n, hn⟩ => by cases hn⟩
    · cases he
      exact ⟨hfiles, hfault⟩
  · obtain ⟨base, rs, d, hencodes, hcount, -, hdesk⟩ := encodeChunks_ok h
    have hfiles := congrArg Desk.files hdesk
    refine ⟨base, _, rs, d, List.prefix_rfl, hencodes,
      hencodes.leaves htidy (fun m hm => ?_) ?_ (fun _ he => by cases he) fun q hq => ?_⟩
    · cases hm
      exact hcount
    · refine iff_of_true (fun c fault hc => ?_) (.inl ⟨n, rfl⟩)
      rw [hfiles]
      exact fileless_discarded d.files hc
    · rw [hfiles]
      exact node?_discarded (hencodes.sameBut_begun htidy) hq

/-! ## A chunk that fails -/

/-- Tools whose encoder fails behind its work if it encodes the first fragment of the job. -/
def stumblingTools : Toolbox Unit :=
  { twoFrameTools with
    encode := fun script output job o d =>
      (if output = job.path (.fragment 0) then .error (.failed "encoder" (.code 1) "") else .ok (),
        (twoFrameTools.encode script output job o d).2) }

theorem tidy_stumblingTools : stumblingTools.Tidy where
  scriptFrames := tidy_twoFrameTools.scriptFrames
  mediaFrames := tidy_twoFrameTools.mediaFrames
  encode := tidy_twoFrameTools.encode

/-- What is left of a job in two parts. -/
def partedProgress : Progress := { totalFrames := 6, left := [⟨0, 1⟩, ⟨4, 5⟩] }

/-- A job for two workers that has its script but no fragment yet. -/
def pairBench : Bench Unit :=
  { freshBench with job := { freshBench.job with parallelism := 2 } }

/-- The same with a folder in the place of the second script. -/
def blockedBench : Bench Unit where
  job := pairBench.job
  desk := { pairBench.desk with
    files := pairBench.desk.files.put ["jobs", "Job1_Script_4.avs"] .folder }

/-- The fragment of the failed chunk is removed, and the other one stays. -/
theorem failed_chunks_leave_no_fragment_pair : stumblingTools.Tidy ∧
    (encodeChunks stumblingTools {} partedProgress pairBench).1.toOption = some 1 ∧
    (encodeChunks stumblingTools {} partedProgress pairBench).2.desk.files.names ["jobs"] =
      ["Job1_Script.avs", "Job1_Script_0.avs", "Job1_Script_4.avs", "Job1_Output_4.mkv"] ∧
    ∃ base begun rs d, begun <+: chunksOf pairBench.job partedProgress ∧
      Encodes stumblingTools {} pairBench.job base begun { pairBench.desk with started := [] } rs d ∧
      Leaves stumblingTools {} pairBench.job rs pairBench.desk.files d.files
        (encodeChunks stumblingTools {} partedProgress pairBench).1
        (encodeChunks stumblingTools {} partedProgress pairBench).2.desk.files :=
  ⟨tidy_stumblingTools, by decide +kernel, by decide +kernel,
    failed_chunks_leave_no_fragment stumblingTools tidy_stumblingTools {} partedProgress pairBench⟩

/-- Where the second script cannot be written, what the failed encoder of the first chunk wrote
stays. -/
theorem refused_script_leaves_fragment :
    ((encodeChunks stumblingTools.watched {} partedProgress blockedBench.watched).2.desk.calls.any
      fun call => match call with
        | .encoded _ output (.error _) => output = blockedBench.job.path (.fragment 0)
        | _ => false) = true ∧
    (encodeChunks stumblingTools {} partedProgress blockedBench).1 =
      .error (.script (.file ⟨"/jobs/Job1_Script_4.avs"⟩ .isADirectory)) ∧
    (encodeChunks stumblingTools {} partedProgress blockedBench).2.desk.files.readText
      (blockedBench.job.path (.fragment 0)) = .ok "frames" := by
  refine ⟨?_, ?_, ?_⟩ <;> decide +kernel

end Encoding

end Restoration
