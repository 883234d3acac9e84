import Restoration.Encoding
import Restoration.Proofs.Frames.Resumption
import Restoration.Proofs.Survey

/-!
# Encoding the chunks of a job

Chunks are encoded one after the other until the flag is raised. Behind the last of them, the
outputs of the encoders that failed are removed, so that no failed chunk leaves a fragment:

    c ∈ failedChunks rs  →  no fragment that starts at c.start is there
-/

namespace Restoration

open FileTree Work

namespace Encoding

variable {τ ε α : Type} {tools : Toolbox τ} {o : EncodingOptions} {job : Job} {base : Script}

/-! ## Work on a bench -/

theorem onDesk_run (w : Work τ JobFault α) (b : Bench τ) :
    onDesk w b = ((w b.desk).1, { b with desk := (w b.desk).2 }) := rfl

theorem onDesk_ok {w : Work τ JobFault α} {b b' : Bench τ} {r : Except JobFault α}
    (h : onDesk w b = (r, b')) : w b.desk = (r, b'.desk) ∧ b'.job = b.job := by
  rw [onDesk_run] at h
  cases h
  exact ⟨rfl, rfl⟩

/-- The work leads from a desk to one that is so related, however it ends. -/
theorem always_onDesk {R : Desk τ → Desk τ → Prop} {w : Work τ JobFault α} (h : Always R w) :
    Always (fun b b' => R b.desk b'.desk) (onDesk w) := fun b => h b.desk

theorem theJob_run (b : Bench τ) : theJob b = (.ok b.job, b) := rfl

theorem update_run (f : Job → Job) (b : Bench τ) :
    update f b = (.ok (), { b with job := f b.job }) := rfl

theorem save_run (b : Bench τ) : save b =
    match b.job.store b.desk.files with
    | .ok files => (.ok (), { b with desk := { b.desk with files := files } })
    | .error fault => (.error (.record fault), b) := by
  simp only [save, bind_run, theJob_run, get_run]
  cases b.job.store b.desk.files <;> rfl

theorem saveAs_run (status : JobStatus) (b : Bench τ) :
    saveAs status b = save { b with job := { b.job with status := status } } := by
  simp only [saveAs, bind_run, update_run]

theorem saveAs_ok {status : JobStatus} {b b' : Bench τ} (h : saveAs status b = (.ok (), b')) :
    b'.job = { b.job with status := status } ∧
      b'.desk = { b.desk with files := b'.desk.files } := by
  rw [saveAs_run, save_run] at h
  split at h <;> cases h
  exact ⟨rfl, rfl⟩

theorem saveAs_store {status : JobStatus} {b b' : Bench τ} (h : saveAs status b = (.ok (), b')) :
    b'.job.store b.desk.files = .ok b'.desk.files := by
  rw [saveAs_run, save_run] at h
  split at h
  · rename_i hstore
    cases h
    exact hstore
  · cases h

/-! ## One chunk after the other -/

/-- The course of the encoding of some chunks: what became of those that were begun. -/
inductive Encodes (tools : Toolbox τ) (o : EncodingOptions) (job : Job) (base : Script) :
    List FrameRange → Desk τ → List (FrameRange × Except ToolFault Unit) → Desk τ → Prop where
  | done {d : Desk τ} : Encodes tools o job base [] d [] d
  | stopped {c : FrameRange} {rest : List FrameRange} {d : Desk τ} (raised : d.isRaised = true) :
      Encodes tools o job base (c :: rest) d [] d.looked
  | chunk {c : FrameRange} {rest : List FrameRange} {d d₁ d₂ d₃ : Desk τ}
      {r : Except ToolFault Unit} {rs : List (FrameRange × Except ToolFault Unit)}
      (waved : d.isRaised = false)
      (written : write (base.restrict c) (chunkScript job c) d.looked = (.ok (), d₁))
      (encoded : tools.encode (chunkScript job c).forEngine (job.path (.fragment c.start)) job o.run
        d₁ = (r, d₂))
      (others : Encodes tools o job base rest d₂ rs d₃) :
      Encodes tools o job base (c :: rest) d ((c, r) :: rs) d₃

/-- What encoding makes of the next chunk: it stops ahead of it, cannot write its script, or encodes
it and goes on. -/
inductive Next (tools : Toolbox τ) (o : EncodingOptions) (job : Job) (base : Script) (c : FrameRange)
    (rest : List FrameRange) (d : Desk τ) :
    Except JobFault (List (FrameRange × Except ToolFault Unit)) → Desk τ → Prop where
  | stopped (raised : d.isRaised = true) : Next tools o job base c rest d (.ok []) d.looked
  | refused {fault : JobFault} {d' : Desk τ} (waved : d.isRaised = false)
      (written : write (base.restrict c) (chunkScript job c) d.looked = (.error fault, d')) :
      Next tools o job base c rest d (.error fault) d'
  | chunk {d₁ d₂ d' : Desk τ} {r : Except ToolFault Unit}
      {r' : Except JobFault (List (FrameRange × Except ToolFault Unit))}
      (waved : d.isRaised = false)
      (written : write (base.restrict c) (chunkScript job c) d.looked = (.ok (), d₁))
      (encoded : tools.encode (chunkScript job c).forEngine (job.path (.fragment c.start)) job o.run
        d₁ = (r, d₂))
      (others : encodeAll tools o job base rest d₂ = (r', d')) :
      Next tools o job base c rest d (r'.map ((c, r) :: ·)) d'

theorem encodeAll_cons {c : FrameRange} {rest : List FrameRange} {d d' : Desk τ}
    {r : Except JobFault (List (FrameRange × Except ToolFault Unit))}
    (h : encodeAll tools o job base (c :: rest) d = (r, d')) :
    Next tools o job base c rest d r d' := by
  rcases bind_cases h with ⟨fault, hlook, -⟩ | ⟨raised, d₁, hlook, h⟩
  · cases hlook
  rw [isCancelled_run] at hlook
  cases hlook
  split at h
  · rename_i hraised
    cases h
    exact .stopped hraised
  · rename_i hraised
    have hwaved := Bool.eq_false_iff.2 hraised
    rcases bind_cases h with ⟨fault, hchunk, rfl⟩ | ⟨x, d₂, hchunk, h⟩
    · -- an encoder's fault is an outcome, so only the script can be refused
      rcases bind_cases hchunk with ⟨fault', hwritten, hfault⟩ | ⟨⟨⟩, d₁, -, hchunk⟩
      · cases hfault
        exact .refused hwaved hwritten
      · rcases bind_cases hchunk with ⟨fault', hencoded, -⟩ | ⟨r, d₂, -, hchunk⟩
        · cases hencoded
        · cases hchunk
    · obtain ⟨⟨⟩, d₁, hwritten, hchunk⟩ := bind_ok hchunk
      obtain ⟨r₁, d₂, hencoded, hchunk⟩ := bind_ok hchunk
      cases hchunk
      obtain ⟨r', hothers, rfl⟩ := bind_pure_cases h
      exact .chunk hwaved hwritten (outcome_ok hencoded) hothers

theorem encodeAll_ok {chunks : List FrameRange} {d d' : Desk τ}
    {rs : List (FrameRange × Except ToolFault Unit)}
    (h : encodeAll tools o job base chunks d = (.ok rs, d')) :
    Encodes tools o job base chunks d rs d' := by
  generalize hr : (.ok rs : Except JobFault _) = r at h
  induction chunks generalizing d rs r with
  | nil =>
    cases h
    cases hr
    exact .done
  | cons c rest ih =>
    cases encodeAll_cons h with
    | stopped raised =>
      cases hr
      exact .stopped raised
    | refused waved written => cases hr
    | @chunk d₁ d₂ _ r₁ r' waved written encoded others =>
      cases r' with
      | error fault => cases hr
      | ok rs' =>
        cases hr
        exact .chunk waved written encoded (ih _ rfl others)

namespace Encodes

variable {chunks : List FrameRange} {d d' : Desk τ}
  {rs : List (FrameRange × Except ToolFault Unit)}

theorem encodeAll_eq (h : Encodes tools o job base chunks d rs d') :
    encodeAll tools o job base chunks d = (.ok rs, d') := by
  induction h with
  | done => rfl
  | stopped raised =>
    rw [encodeAll, bind_run, isCancelled_run, raised]
    rfl
  | @chunk c rest d d₁ d₂ d₃ r rs waved written encoded others ih =>
    have hchunk : encodeChunk tools o job base c d.looked = (.ok (c, r), d₂) := by
      simp only [encodeChunk, bind_run, written, outcome_run, encoded]
      rfl
    rw [encodeAll, bind_run, isCancelled_run, waved]
    simp only [Bool.false_eq_true, if_false, bind_run, hchunk, ih]
    rfl

/-- Behind chunks that were all encoded, one more is. -/
theorem concat {c : FrameRange} {d₁ d₂ : Desk τ} {r : Except ToolFault Unit}
    (h : Encodes tools o job base chunks d rs d') (hall : rs.map Prod.fst = chunks)
    (waved : d'.isRaised = false)
    (written : write (base.restrict c) (chunkScript job c) d'.looked = (.ok (), d₁))
    (encoded : tools.encode (chunkScript job c).forEngine (job.path (.fragment c.start)) job o.run
      d₁ = (r, d₂)) :
    Encodes tools o job base (chunks ++ [c]) d (rs ++ [(c, r)]) d₂ := by
  induction h with
  | done => exact .chunk waved written encoded .done
  | stopped raised => cases hall
  | chunk waved₁ written₁ encoded₁ others ih =>
    exact .chunk waved₁ written₁ encoded₁ (ih (List.cons.inj hall).2 waved written)

/-- What became of chunks is told in their order. -/
theorem begun (h : Encodes tools o job base chunks d rs d') : rs.map Prod.fst <+: chunks := by
  induction h with
  | done => exact List.nil_prefix
  | stopped => exact List.nil_prefix
  | chunk _ _ _ _ ih => exact List.cons_prefix_cons.2 ⟨rfl, ih⟩

/-- Tidy encoders write the scripts and the fragments of the chunks begun and nothing else. -/
theorem sameBut_begun (htidy : tools.Tidy) (h : Encodes tools o job base chunks d rs d') :
    SameBut (fun q => ∃ x ∈ rs, d.files.resolve (chunkScript job x.1) = .ok q ∨
      d.files.resolve (job.path (.fragment x.1.start)) = .ok q) d.files d'.files := by
  induction h with
  | done => exact .refl _ _
  | stopped => exact .refl _ _
  | @chunk c rest d d₁ d₂ d₃ r rs waved written encoded others ih =>
    obtain ⟨-, hwritten⟩ := change_write_ok written
    have hencoded := htidy.encode (chunkScript job c).forEngine (job.path (.fragment c.start)) job
      o.run d₁
    rw [encoded] at hencoded
    have hchunk := hwritten.both hencoded
    refine (hchunk.mono ?_).trans (ih.mono ?_)
    · rintro q hq
      exact ⟨_, List.mem_cons_self, hq⟩
    · rintro q ⟨x, hx, hq⟩
      refine ⟨x, List.mem_cons_of_mem _ hx, ?_⟩
      rwa [hchunk.resolve_iff, hchunk.resolve_iff] at hq

theorem sameBut (htidy : tools.Tidy) (h : Encodes tools o job base chunks d rs d') :
    SameBut (fun q => ∃ c ∈ chunks, d.files.resolve (chunkScript job c) = .ok q ∨
      d.files.resolve (job.path (.fragment c.start)) = .ok q) d.files d'.files :=
  (h.sameBut_begun htidy).mono fun _ ⟨_, hx, hq⟩ =>
    ⟨_, h.begun.subset (List.mem_map_of_mem hx), hq⟩

end Encodes

/-- The call of an encoder, by what became of its chunk. -/
def encodingCall (job : Job) (x : FrameRange × Except ToolFault Unit) : ToolCall :=
  .encoded (chunkScript job x.1).forEngine (job.path (.fragment x.1.start)) x.2

/-- The calls of the encoders are noted in the order of the chunks. -/
theorem Encodes.calls {tools : Toolbox τ} {chunks : List FrameRange} {d d' : Desk (Watched τ)}
    {rs : List (FrameRange × Except ToolFault Unit)}
    (h : Encodes tools.watched o job base chunks d rs d') :
    d'.calls = d.calls ++ rs.map (encodingCall job) := by
  induction h with
  | done => exact (List.append_nil _).symm
  | stopped => exact (List.append_nil _).symm
  | chunk waved written encoded others ih =>
    have hwritten := (congrArg Desk.calls (change_write_ok written).1).trans rfl
    have hencoded := Toolbox.encode_calls encoded
    rw [ih, hencoded, hwritten, List.map_cons, List.append_assoc]
    rfl

/-! ## All chunks of a job -/

/-- The chunks tile what is left. -/
theorem refines_chunksOf (job : Job) (p : Progress) : Partition.Refines p.left (chunksOf job p) := by
  refine Layout.refines_of_chunks ?_
  unfold chunksOf
  split
  · exact .inl rfl
  · exact .inr ⟨job.workers, rfl⟩

theorem encodeChunks_ok {p : Progress} {b b' : Bench τ} {n : Nat}
    (h : encodeChunks tools o p b = (.ok n, b')) : ∃ base rs d,
      Encodes tools o b.job base (chunksOf b.job p) { b.desk with started := [] } rs d ∧
      n = countFailures rs ∧ b'.job = { b.job with processes := d.started } ∧
      b'.desk = { d with
        files := d.files.removeAll ((failedChunks rs).map fun c => b.job.path (.fragment c.start)) } := by
  obtain ⟨job, b₁, hjob, h⟩ := bind_ok h
  cases hjob
  obtain ⟨text, b₂, hlook, h⟩ := bind_ok h
  obtain ⟨hlook, hjob₂⟩ := onDesk_ok hlook
  obtain ⟨-, hdesk₂⟩ := look_ok hlook
  obtain ⟨⟨⟩, b₃, hstarted, h⟩ := bind_ok h
  cases hstarted
  obtain ⟨rs, b₄, hall, h⟩ := bind_ok h
  obtain ⟨hall, hjob₄⟩ := onDesk_ok hall
  cases h
  refine ⟨Script.parse text, rs, b₄.desk, ?_, rfl, ?_, rfl⟩
  · rw [hdesk₂]
    exact encodeAll_ok hall
  · exact congrArg (fun j : Job => { j with processes := b₄.desk.started }) (hjob₄.trans hjob₂)

end Encoding

end Restoration
