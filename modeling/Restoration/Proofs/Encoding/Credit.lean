import Restoration.Proofs.Encoding.Joining
import Restoration.Proofs.Script.Unbroken

/-!
# Encoders get the frames of their chunks

An encoder writes the fragment that is credited with a chunk, from a script whose one marked line
lets exactly the frames of the chunk pass. The chunks of a job share no frame, and together they are
its gaps:

    (restrictedTo text c).Passes n  ↔  c.holds n
-/

namespace Restoration

open FileTree Work

/-! ## Cuts as an engine reads them -/

/-- The numbers of a call of `Trim`. -/
structure ReadCut where
  first : Nat
  last : Int
  deriving DecidableEq, Repr

/-- Does the cut let the frame with this number pass? A last frame of zero stands for the end of the
clip, a negative number for a number of frames, and any other for the last frame itself. -/
def ReadCut.keeps (cut : ReadCut) (n : Nat) : Bool :=
  cut.first ≤ n &&
    if cut.last = 0 then true
    else if cut.last < 0 then (n : Int) < cut.first - cut.last
    else (n : Int) ≤ cut.last

/-- The number that a numeral with or without a minus sign stands for. -/
def signed? : List Char → Option Int
  | '-' :: ds => (Numeral.value? ds).map fun n => -(n : Int)
  | ds => (Numeral.value? ds).map fun n => (n : Int)

/-- The cut that a line of text makes, if it is one. -/
def cutOfLine? (line : List Char) : Option ReadCut := do
  let call ← (← Line.parse? line).call?
  match call.function, call.arguments with
  | "Trim", [first, last] => return ⟨← Numeral.value? first.toList, ← signed? last.toList⟩
  | _, _ => none

/-- Does the text of a script let the frame pass, by a marked line that cuts its clip? -/
def Passes (text : String) (n : Nat) : Prop :=
  ∃ line ∈ Script.markedLines text, ∃ cut, cutOfLine? line = some cut ∧ cut.keeps n

theorem signed?_digits (n : Nat) : signed? (Numeral.digits n) = some (n : Int) := by
  have hminus : '-' ∉ Numeral.digits n := fun h => absurd (Numeral.isDigit_of_mem_digits h) (by decide)
  unfold signed?
  split
  · rename_i ds hds
    exact absurd (hds ▸ List.mem_cons_self) hminus
  · rw [Numeral.value?_digits]
    rfl

/-- A range is written as it is told: one frame as a number of frames, more by the last of them. -/
theorem cutOfLine?_restrictingLine (r : FrameRange) :
    cutOfLine? (Script.restrictingLine r).text.toList =
      some ⟨r.start, if r.stop ≤ r.start then -1 else r.stop⟩ := by
  have hcall : (Script.restrictingLine r).call? =
      some ⟨"Trim", [Numeral.text r.start, if r.stop ≤ r.start then "-1" else Numeral.text r.stop]⟩ := by
    show readCall? (Statements.call "Trim" [Numeral.text r.start,
      if r.stop ≤ r.start then "-1" else Numeral.text r.stop]).toList = _
    refine readCall?_call (by decide) (List.forall_mem_cons.2 ⟨(plain_numeral _).whole, ?_⟩)
    refine List.forall_mem_singleton.2 ?_
    split
    · decide
    · exact (plain_numeral _).whole
  have hlast : signed? (if r.stop ≤ r.start then "-1" else Numeral.text r.stop).toList =
      some (if r.stop ≤ r.start then -1 else (r.stop : Int)) := by
    split
    · decide
    · rw [Numeral.text, String.toList_ofList, signed?_digits]
  have hfirst : Numeral.value? (Numeral.text r.start).toList = some r.start := by
    rw [Numeral.text, String.toList_ofList, Numeral.value?_digits]
  rw [cutOfLine?, (Script.legible_restrictingLine r).read]
  simp [hcall, hfirst, hlast]

/-- The cut of a valid range keeps the frames of the range. -/
theorem ReadCut.keeps_iff {r : FrameRange} (h : r.start ≤ r.stop) (n : Nat) :
    ReadCut.keeps ⟨r.start, if r.stop ≤ r.start then -1 else r.stop⟩ n ↔ r.holds n := by
  unfold ReadCut.keeps FrameRange.holds
  by_cases hone : r.stop ≤ r.start
  · simp only [if_pos hone, Bool.and_eq_true, decide_eq_true_eq]
    simp
    omega
  · have hzero : ¬ (r.stop : Int) = 0 := by omega
    have hnegative : ¬ (r.stop : Int) < 0 := by omega
    simp only [if_neg hone, if_neg hzero, if_neg hnegative, Bool.and_eq_true, decide_eq_true_eq]
    omega

/-! ## The script of a chunk -/

/-- The text of the script that a chunk is encoded from, made from the text of the job's script. -/
def restrictedTo (text : String) (c : FrameRange) : String := ((Script.parse text).restrict c).text

/-- **The script of a chunk has one marked line, and that line selects the chunk.** -/
theorem selects_chunk (text : String) {c : FrameRange} (hc : c.start ≤ c.stop) :
    ∃ line cut, Script.markedLines (restrictedTo text c) = [line] ∧ cutOfLine? line = some cut ∧
      ∀ n, cut.keeps n ↔ c.holds n :=
  ⟨_, _, Script.markedLines_restrict (Script.isUnbroken_parse text) c, cutOfLine?_restrictingLine c,
    ReadCut.keeps_iff hc⟩

theorem passes_iff (text : String) {c : FrameRange} (hc : c.start ≤ c.stop) (n : Nat) :
    Passes (restrictedTo text c) n ↔ c.holds n := by
  obtain ⟨line, cut, hlines, hcut, hkeeps⟩ := selects_chunk text hc
  rw [Passes, hlines, ← hkeeps]
  constructor
  · rintro ⟨l, hl, other, hother, hpasses⟩
    rw [List.mem_singleton.1 hl, hcut] at hother
    cases hother
    exact hpasses
  · exact fun hpasses => ⟨line, List.mem_singleton_self _, cut, hcut, hpasses⟩

namespace Encoding

variable {τ : Type} {tools : Toolbox τ} {o : EncodingOptions} {job : Job} {base : Script}
  {p : Progress}

/-! ## The chunks of a job -/

theorem valid_chunksOf (job : Job) (hvalid : ∀ g ∈ p.left, g.start ≤ g.stop) :
    ∀ c ∈ chunksOf job p, c.start ≤ c.stop := (refines_chunksOf job p).valid hvalid

theorem apart_chunksOf (job : Job) (hvalid : ∀ g ∈ p.left, g.start ≤ g.stop)
    (hapart : p.left.Pairwise FrameRange.Apart) :
    (chunksOf job p).Pairwise FrameRange.Apart := by
  refine FrameRange.apart_of_nodup (valid_chunksOf job hvalid) ?_
  rw [(refines_chunksOf job p).framesOf_eq]
  exact FrameRange.nodup_of_apart hvalid hapart

theorem holds_chunksOf (job : Job) (hvalid : ∀ g ∈ p.left, g.start ≤ g.stop) (n : Nat) :
    (∃ c ∈ chunksOf job p, c.holds n) ↔ ∃ g ∈ p.left, g.holds n := by
  rw [← FrameRange.mem_framesOf (valid_chunksOf job hvalid), ← FrameRange.mem_framesOf hvalid,
    (refines_chunksOf job p).framesOf_eq]

end Encoding

/-! ## What encoders read -/

/-- What an encoder finds in its script, and the file that it writes. -/
structure Reading where
  script : Except FileFault String
  output : Path
  deriving DecidableEq

namespace Work

variable {τ α : Type}

/-- Work of a tool that notes what it reads at its start. -/
def noting (notes : Desk τ → List Reading) (w : Work τ ToolFault α) :
    Work (τ × List Reading) ToolFault α :=
  fun d =>
    let (r, d') := w (d.withTools d.tools.1)
    (r, d'.withTools (d'.tools, d.tools.2 ++ notes (d.withTools d.tools.1)))

end Work

/-- The toolbox whose encoders note what they read. -/
def Toolbox.reading {τ : Type} (tools : Toolbox τ) : Toolbox (τ × List Reading) where
  runScript script o := (tools.runScript script o).noting fun _ => []
  encode script output job o :=
    (tools.encode script output job o).noting fun d => [⟨d.files.readText script, output⟩]
  scriptFrames probe side := (tools.scriptFrames probe side).noting fun _ => []
  mediaFrames media := (tools.mediaFrames media).noting fun _ => []
  join concatList output job := (tools.join concatList output job).noting fun _ => []

/-- What encoders read so far. -/
def Desk.readings {τ : Type} (d : Desk (τ × List Reading)) : List Reading := d.tools.2

namespace Encoding

variable {τ : Type} {tools : Toolbox τ} {o : EncodingOptions} {job : Job} {base : Script}
  {p : Progress}

/-- What the encoder of a chunk is to read. -/
def chunkReading (job : Job) (base : Script) (c : FrameRange) : Reading :=
  ⟨.ok (base.restrict c).text, job.path (.fragment c.start)⟩

theorem encode_readings {script output : Path} {d d' : Desk (τ × List Reading)}
    {r : Except ToolFault Unit} (h : tools.reading.encode script output job o.run d = (r, d')) :
    d'.readings = d.readings ++ [⟨d.files.readText script, output⟩] := by
  cases h
  rfl

/-- Encoders read the scripts that were just written for their chunks, one after the other. -/
theorem encodeAll_readings {chunks : List FrameRange} {d d' : Desk (τ × List Reading)}
    {r : Except JobFault (List (FrameRange × Except ToolFault Unit))}
    (h : encodeAll tools.reading o job base chunks d = (r, d')) :
    ∃ begun, begun <+: chunks ∧ d'.readings = d.readings ++ begun.map (chunkReading job base) ∧
      (∀ rs, r = .ok rs → d'.cancelled = false → begun = chunks) := by
  induction chunks generalizing d r with
  | nil =>
    cases h
    exact ⟨[], List.prefix_refl _, by simp, fun _ _ _ => rfl⟩
  | cons c rest ih =>
    cases encodeAll_cons h with
    | stopped raised =>
      refine ⟨[], List.nil_prefix, by simp [Desk.looked, Desk.readings], fun rs _ hdown => ?_⟩
      exact absurd (raised.symm.trans hdown) (by decide)
    | refused waved written =>
      refine ⟨[], List.nil_prefix, ?_, fun rs hr => by cases hr⟩
      rw [← change_error written]
      exact (List.append_nil _).symm
    | @chunk d₁ d₂ _ r₁ r' waved written encoded others =>
      obtain ⟨begun, hprefix, hreadings, hall⟩ := ih others
      obtain ⟨t, hwrite, rfl⟩ := change_ok written
      have hread : d₂.readings = d.readings ++ [chunkReading job base c] := by
        have htext : t.readText (chunkScript job c).forEngine = .ok (base.restrict c).text :=
          readText_of_write hwrite
        rw [encode_readings encoded, htext]
        rfl
      refine ⟨c :: begun, List.cons_prefix_cons.2 ⟨rfl, hprefix⟩, ?_, fun rs hr hdown => ?_⟩
      · rw [hreadings, hread, List.append_assoc, List.map_cons]
        rfl
      · cases r' with
        | error fault => cases hr
        | ok rs' => rw [hall rs' rfl hdown]

theorem encodeChunks_readings {b b' : Bench (τ × List Reading)} {r : Except JobFault Nat}
    {text : String} (hscript : b.desk.files.readText (b.job.path .script) = .ok text)
    (h : encodeChunks tools.reading o p b = (r, b')) :
    ∃ begun, begun <+: chunksOf b.job p ∧
      b'.desk.readings = b.desk.readings ++ begun.map (chunkReading b.job (Script.parse text)) ∧
      (∀ n, r = .ok n → b'.desk.cancelled = false → begun = chunksOf b.job p) := by
  rcases bind_cases h with ⟨fault, hjob, -⟩ | ⟨job, b₁, hjob, h⟩ <;> cases hjob
  have hlook : (onDesk (look (fun t => t.readText (b.job.path .script)) fun cause =>
      JobFault.script (.file (b.job.path .script) cause)) : Encoding _ _) b = (.ok text, b) := by
    rw [onDesk_run, look_run, hscript]
  rw [bind_run, hlook] at h
  rcases bind_cases h with ⟨fault, hstarted, -⟩ | ⟨⟨⟩, b₂, hstarted, h⟩ <;> cases hstarted
  rcases bind_cases h with ⟨fault, hencoded, rfl⟩ | ⟨rs, b₃, hencoded, h⟩
  · obtain ⟨begun, hprefix, hreadings, -⟩ := encodeAll_readings (onDesk_ok hencoded).1
    exact ⟨begun, hprefix, hreadings, fun n hn => by cases hn⟩
  · obtain ⟨begun, hprefix, hreadings, hall⟩ := encodeAll_readings (onDesk_ok hencoded).1
    cases h
    exact ⟨begun, hprefix, hreadings, fun n _ hdown => hall rs rfl hdown⟩

/-- **Encoders get exactly the frames of their chunks.** Whatever stands in the job's script and
whatever the tools do, the encoder whose fragment is credited with a chunk reads a script with one
marked line, and that line selects the frames of the chunk. Chunks share no frame, and together they
are the gaps. -/
theorem encoders_get_their_chunks {b b' : Bench (τ × List Reading)} {r : Except JobFault Nat}
    {text : String} (hscript : b.desk.files.readText (b.job.path .script) = .ok text)
    (hvalid : ∀ g ∈ p.left, g.start ≤ g.stop) (hapart : p.left.Pairwise FrameRange.Apart)
    (h : encodeChunks tools.reading o p b = (r, b')) :
    (∃ begun, begun <+: chunksOf b.job p ∧
      b'.desk.readings = b.desk.readings ++ begun.map (fun c =>
        ⟨.ok (restrictedTo text c), b.job.path (.fragment c.start)⟩) ∧
      (∀ n, r = .ok n → b'.desk.cancelled = false → begun = chunksOf b.job p)) ∧
    (∀ c ∈ chunksOf b.job p, ∃ line cut, Script.markedLines (restrictedTo text c) = [line] ∧
      cutOfLine? line = some cut ∧ ∀ n, cut.keeps n ↔ c.holds n) ∧
    (chunksOf b.job p).Pairwise (fun c c' =>
      ∀ n, ¬ (Passes (restrictedTo text c) n ∧ Passes (restrictedTo text c') n)) ∧
    ∀ n, (∃ c ∈ chunksOf b.job p, Passes (restrictedTo text c) n) ↔ ∃ g ∈ p.left, g.holds n := by
  have hchunks := valid_chunksOf b.job hvalid
  refine ⟨encodeChunks_readings hscript h, fun c hc => selects_chunk text (hchunks c hc), ?_,
    fun n => ?_⟩
  · refine (apart_chunksOf b.job hvalid hapart).imp_of_mem fun {c c'} hc hc' hcc' n hn => ?_
    exact hcc' n ⟨(passes_iff text (hchunks c hc) n).1 hn.1, (passes_iff text (hchunks c' hc') n).1 hn.2⟩
  · rw [← holds_chunksOf b.job hvalid]
    exact exists_congr fun c => and_congr_right fun hc => passes_iff text (hchunks c hc) n

/-- A job whose script was left restricted. -/
def restartedBench : Bench (Unit × List Reading) where
  job := freshBench.job
  desk := {
    files := { nodes := [(["jobs"], .folder), (["jobs", "Job1_Script.avs"],
      .file "Blur(1)\nTrim(3, 4) # segment\nPrefetch(4)\n" false)] }
    tools := ((), []) }

/-- The first frame and the last five are missing. -/
def restartedProgress : Progress := { totalFrames := 10, left := [⟨0, 0⟩, ⟨5, 9⟩] }

theorem encoders_get_their_chunks_restarted :
    (encodeChunks twoFrameTools.reading {} restartedProgress restartedBench).2.desk.readings =
        [⟨.ok "Blur(1)\nTrim(0, -1) # segment\nPrefetch(4)\n", ⟨"/jobs/Job1_Output_0.mkv"⟩⟩,
          ⟨.ok "Blur(1)\nTrim(5, 9) # segment\nPrefetch(4)\n", ⟨"/jobs/Job1_Output_5.mkv"⟩⟩] ∧
      ∀ n, (∃ c ∈ chunksOf restartedBench.job restartedProgress,
        Passes (restrictedTo "Blur(1)\nTrim(3, 4) # segment\nPrefetch(4)\n" c) n) ↔
          ∃ g ∈ restartedProgress.left, g.holds n := by
  have hscript : restartedBench.desk.files.readText (restartedBench.job.path .script) =
      .ok "Blur(1)\nTrim(3, 4) # segment\nPrefetch(4)\n" := by decide +kernel
  have hordered : FrameRange.Ordered restartedProgress.left :=
    .cons (by decide) (by decide) (.cons (by decide) (by decide) .nil)
  have hapart : restartedProgress.left.Pairwise FrameRange.Apart := by
    refine hordered.rising.imp fun {g g'} hlt n hn => ?_
    have := hn.1.2
    have := hn.2.1
    omega
  have hrun := (Prod.eta (encodeChunks twoFrameTools.reading {} restartedProgress
    restartedBench)).symm
  exact ⟨by decide +kernel,
    (encoders_get_their_chunks hscript hordered.valid hapart hrun).2.2.2⟩

end Encoding

end Restoration
