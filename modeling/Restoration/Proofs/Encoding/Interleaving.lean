import Restoration.Proofs.Encoding.Crew
import Restoration.Proofs.Encoding.Joining
import Restoration.Proofs.FileTree.Distinct

/-!
# Every interleaving leaves the same

Encoders that write nothing but their outputs do not disturb each other, as no script is written over
while it is read. So it does not matter who moves when. Behind every course of a crew the files and the
outcomes are those of encoding the started chunks one after the other:

    Course .. moves s  →  encodeAll .. (startedIn moves) = s.results, and the files of s
-/

namespace Restoration

open FileTree

variable {τ : Type} {tools : Toolbox τ} {o : EncodingOptions} {job : Job} {base : Script}

/-! ## What an encoder does -/

/-- What an encoder makes of its chunk. -/
structure Effect where
  outcome : Except ToolFault Unit
  /-- What stands at the place of its output in the end. -/
  output : Option Node

/-- The flag is down and will not be raised. -/
structure Desk.Calm (d : Desk τ) : Prop where
  cancelled : d.cancelled = false
  alarm : ∀ n, d.alarm n = false

/-- The desk with the flag down for good. -/
def Desk.calm (d : Desk τ) : Desk τ := { d with cancelled := false, alarm := fun _ => false }

theorem Desk.calm_calm (d : Desk τ) : d.calm.Calm := ⟨rfl, fun _ => rfl⟩

theorem Desk.Calm.isRaised {d : Desk τ} (h : d.Calm) : d.isRaised = false := by
  rw [Desk.isRaised, h.cancelled, h.alarm]
  rfl

theorem Desk.Calm.looked {d : Desk τ} (h : d.Calm) : d.looked.Calm := ⟨h.isRaised, h.alarm⟩

/-- A toolbox whose encoder leaves the flag and all files but its output alone. It makes of a chunk what
`does` tells if it finds the script of the chunk written, and its output and all folders as in `t`. -/
structure Toolbox.Performs (tools : Toolbox τ) (o : EncodingOptions) (job : Job) (base : Script)
    (t : FileTree) (does : FrameRange → Effect) : Prop extends tools.Tidy where
  calm : ∀ script output (d : Desk τ), d.Calm → (tools.encode script output job o.run d).2.Calm
  performs : ∀ c (d d' : Desk τ) r, SameBut (fun _ => True) t d.files →
    d.files.readText (Encoding.chunkScript job c).forEngine = .ok (base.restrict c).text →
    (∀ q, d.files.resolve (job.path (.fragment c.start)) = .ok q → d.files.node? q = t.node? q) →
    tools.encode (Encoding.chunkScript job c).forEngine (job.path (.fragment c.start)) job o.run d =
      (r, d') →
    r = (does c).outcome ∧
      ∀ q, d.files.resolve (job.path (.fragment c.start)) = .ok q → d'.files.node? q = (does c).output

/-- A chunk is encoded whose script was just written. -/
theorem Toolbox.Performs.encode_next {t : FileTree} {does : FrameRange → Effect} {c : FrameRange}
    {d : Desk τ} (h : tools.Performs o job base t does) (hcalm : d.Calm)
    (hkept : SameBut (fun _ => True) t d.files)
    (hscript : d.files.readText (Encoding.chunkScript job c).forEngine = .ok (base.restrict c).text)
    (houtput : ∀ q, d.files.resolve (job.path (.fragment c.start)) = .ok q →
      d.files.node? q = t.node? q) :
    ∃ d', tools.encode (Encoding.chunkScript job c).forEngine (job.path (.fragment c.start)) job o.run d =
        ((does c).outcome, d') ∧ d'.Calm ∧
      SameBut (d.files.resolve (job.path (.fragment c.start)) = .ok ·) d.files d'.files ∧
      ∀ q, d.files.resolve (job.path (.fragment c.start)) = .ok q →
        d'.files.node? q = (does c).output := by
  have htidy := h.encode (Encoding.chunkScript job c).forEngine (job.path (.fragment c.start)) job o.run d
  have hstill := h.calm (Encoding.chunkScript job c).forEngine (job.path (.fragment c.start)) d hcalm
  rcases hencoded : tools.encode (Encoding.chunkScript job c).forEngine (job.path (.fragment c.start))
    job o.run d with ⟨r, d'⟩
  rw [hencoded] at htidy hstill
  obtain ⟨rfl, hleft⟩ := h.performs c d d' r hkept hscript houtput hencoded
  exact ⟨d', rfl, hstill, htidy, hleft⟩

namespace Crew

variable {does : FrameRange → Effect} {chunks : List FrameRange} {s u : Floor τ} {m : Move}
  {moves : List Move} {d d' : Desk τ} {t : FileTree} {c : FrameRange} {rest : List FrameRange}
  {e : Encoder} {n : Nat}

/-- The encoders of a crew write nothing but their outputs. One that finds its script as it was written
makes of its chunk what `does` tells. -/
def Keeps (job : Job) (base : Script) (does : FrameRange → Effect) (s : Floor τ) :
    Move → Floor τ → Prop
  | .work c, u =>
    SameBut (s.desk.files.resolve (job.path (.fragment c.start)) = .ok ·) s.desk.files u.desk.files
  | .finish c r, _ =>
    s.desk.files.readText (Encoding.chunkScript job c).forEngine = .ok (base.restrict c).text →
    r = (does c).outcome ∧ ∀ q, s.desk.files.resolve (job.path (.fragment c.start)) = .ok q →
      s.desk.files.node? q = (does c).output
  | _, _ => True

/-- A run in which the encoders keep to that. -/
inductive Course (job : Job) (base : Script) (does : FrameRange → Effect) (s : Floor τ) :
    List Move → Floor τ → Prop where
  | refl : Course job base does s [] s
  | step {moves : List Move} {m : Move} {t u : Floor τ} (course : Course job base does s moves t)
      (step : Step job base t m u) (keeps : Keeps job base does t m u) :
      Course job base does s (moves ++ [m]) u

theorem Course.run (h : Course job base does s moves u) : Run job base s moves u := by
  induction h with
  | refl => exact .refl
  | step _ step _ ih => exact ih.step step

/-! ## The chunks in turn -/

/-- The chunk whose script is written and whose encoder is to be started next. -/
def Floor.staged? (s : Floor τ) : Option FrameRange :=
  match s.launcher with
  | .scripted _ => s.left.head?
  | _ => none

/-- The tree with the script of the staged chunk. -/
def Staged (job : Job) (base : Script) (t : FileTree) : Option FrameRange → FileTree → Prop
  | none, t' => t' = t
  | some c, t' => t.write (Encoding.chunkScript job c) (base.restrict c).text = .ok t'

/-- Does the place belong to the output of an encoder that still works? -/
def Floor.Open (s : Floor τ) (job : Job) (t : FileTree) (q : Place) : Prop :=
  ∃ e ∈ s.encoders, e.stint = .working ∧ t.resolve (e.output job) = .ok q

/-- An encoder that does not work any more ended as `does` tells. -/
def Encoder.EndedAs (does : FrameRange → Effect) (e : Encoder) : Prop :=
  match e.stint with
  | .working => True
  | .finished r | .gone r => r = (does e.chunk).outcome

/-- What became of the encoder's chunk, as `does` tells. -/
def Encoder.told (does : FrameRange → Effect) (e : Encoder) : FrameRange × Except ToolFault Unit :=
  (e.chunk, (does e.chunk).outcome)

/-- From the desk `d`, encoding the started chunks in turn leads to the desk `d'`. With the script of the
staged chunk its files are those of `t`, from which the crew's own differ only where encoders work. -/
structure InTurn (tools : Toolbox τ) (o : EncodingOptions) (job : Job) (base : Script)
    (does : FrameRange → Effect) (d : Desk τ) (s : Floor τ) (d' : Desk τ) (t : FileTree) : Prop where
  encodes : Encoding.Encodes tools o job base (s.encoders.map Encoder.chunk) d.calm
    (s.encoders.map (Encoder.told does)) d'
  calm : d'.Calm
  staged : Staged job base d'.files s.staged? t
  kept : SameBut (fun _ => True) d.files t
  same : SameBut (s.Open job d.files) t s.desk.files
  outputs : ∀ e ∈ s.encoders, ∀ q, d.files.resolve (e.output job) = .ok q →
    t.node? q = (does e.chunk).output
  fresh : ∀ c ∈ s.left, ∀ q, d.files.resolve (job.path (.fragment c.start)) = .ok q →
    t.node? q = d.files.node? q
  ended : ∀ e ∈ s.encoders, e.EndedAs does
  scripts : ∀ e ∈ s.active, s.desk.files.readText (e.script job) = .ok (base.restrict e.chunk).text

/-- A script and a fragment lie at different places. -/
theorem apart_script_fragment (c : FrameRange) (n : Nat) :
    Apart (Encoding.chunkScript job c) (job.path (.fragment n)) := by
  refine Job.apart_path (job.fileName_ne_fragment ?_ n)
  split <;> simp

/-- Where a script is written, the fragments stay as they are. -/
theorem node?_fragment_of_script {t' : FileTree} {q : Place}
    (h : SameBut (t.resolve (Encoding.chunkScript job c) = .ok ·) t t')
    (hq : t.resolve (job.path (.fragment n)) = .ok q) : t'.node? q = t.node? q :=
  h.elsewhere q fun hscript => (apart_script_fragment c n).places hscript hq rfl

/-- Where a fragment is written, the others stay as they are. -/
theorem node?_fragment_of_ne {t' : FileTree} {q : Place} {k : Nat}
    (h : SameBut (t.resolve (job.path (.fragment k)) = .ok ·) t t') (hne : n ≠ k)
    (hq : t.resolve (job.path (.fragment n)) = .ok q) : t'.node? q = t.node? q := by
  have hapart : Apart (job.path (.fragment n)) (job.path (.fragment k)) :=
    Job.apart_path fun hname => hne (job.fileName_fragment_inj hname)
  exact h.elsewhere q fun hother => hapart.places hq hother rfl

namespace InTurn

theorem resolve_iff (hin : InTurn tools o job base does d s d' t) (p : Path) (q : Place) :
    s.desk.files.resolve p = .ok q ↔ d.files.resolve p = .ok q :=
  (hin.same.resolve_iff p q).trans (hin.kept.resolve_iff p q)

/-- Who neither changes files nor starts or ends an encoder changes nothing. -/
theorem idle (hin : InTurn tools o job base does d s d' t) (hfiles : u.desk.files = s.desk.files)
    (hencoders : u.encoders = s.encoders) (hleft : u.left = s.left) (hstaged : u.staged? = s.staged?) :
    InTurn tools o job base does d u d' t where
  encodes := hencoders ▸ hin.encodes
  calm := hin.calm
  staged := hstaged ▸ hin.staged
  kept := hin.kept
  same := by
    unfold Floor.Open
    rw [hfiles, hencoders]
    exact hin.same
  outputs := hencoders ▸ hin.outputs
  fresh := hleft ▸ hin.fresh
  ended := hencoders ▸ hin.ended
  scripts := by
    unfold Floor.active
    rw [hfiles, hencoders]
    exact hin.scripts

/-- No script lies where an encoder works. -/
theorem not_open (hin : InTurn tools o job base does d s d' t) (c : FrameRange) {q : Place}
    (hq : t.resolve (Encoding.chunkScript job c) = .ok q) : ¬ s.Open job d.files q := by
  rintro ⟨e, -, -, houtput⟩
  exact (apart_script_fragment c e.chunk.start).places hq ((hin.kept.resolve_iff _ _).2 houtput) rfl

/-- The launcher writes a script that nobody reads. -/
theorem written {desk : Desk τ} (hin : InTurn tools o job base does d s d' t)
    (waved : s.launcher = .waved n) (left : s.left = c :: rest)
    (written : Encoding.write (base.restrict c) (Encoding.chunkScript job c) s.desk = (.ok (), desk))
    (hapart : ∀ e ∈ s.active, Apart (e.script job) (Encoding.chunkScript job c)) :
    ∃ t', InTurn tools o job base does d { s with desk := desk, launcher := .scripted n } d' t' := by
  have ht : t = d'.files := by
    have hstaged := hin.staged
    rw [Floor.staged?, waved] at hstaged
    exact hstaged
  obtain ⟨files, hfiles, rfl⟩ := Work.change_ok written
  obtain ⟨t', ht', hsame⟩ := hin.same.write hfiles fun q hq => hin.not_open c hq
  have hwrite := sameBut_write ht'
  have hfragment : ∀ {k : Nat} {q : Place}, d.files.resolve (job.path (.fragment k)) = .ok q →
      t'.node? q = t.node? q := fun hq =>
    node?_fragment_of_script hwrite ((hin.kept.resolve_iff _ _).2 hq)
  refine ⟨t', { hin with
    staged := ?_
    kept := hin.kept.trans (hwrite.mono fun _ _ => trivial)
    same := hsame
    outputs := fun e he q hq => (hfragment hq).trans (hin.outputs e he q hq)
    fresh := fun c' hc' q hq => (hfragment hq).trans (hin.fresh c' hc' q hq)
    scripts := fun e he => (sameBut_write hfiles).readText_eq (hin.scripts e he) fun _ hq hq' =>
      (hapart e he).places hq hq' rfl }⟩
  change Staged job base d'.files s.left.head? t'
  rw [left, ← ht]
  exact ht'

/-- In turn, the chunk whose script is written is encoded next. -/
theorem encodes_next (hin : InTurn tools o job base does d s d' t)
    (htools : tools.Performs o job base d.files does) (left : s.left = c :: rest)
    (hwrite : d'.files.write (Encoding.chunkScript job c) (base.restrict c).text = .ok t) :
    ∃ d₂, Encoding.Encodes tools o job base (s.encoders.map Encoder.chunk ++ [c]) d.calm
        (s.encoders.map (Encoder.told does) ++ [(c, (does c).outcome)]) d₂ ∧ d₂.Calm ∧
      SameBut (t.resolve (job.path (.fragment c.start)) = .ok ·) t d₂.files ∧
      ∀ q, t.resolve (job.path (.fragment c.start)) = .ok q →
        d₂.files.node? q = (does c).output := by
  have hlooked : d'.looked.files.write (Encoding.chunkScript job c) (base.restrict c).text = .ok t :=
    hwrite
  have hwritten : Encoding.write (base.restrict c) (Encoding.chunkScript job c) d'.looked =
      (.ok (), { d'.looked with files := t }) := by
    rw [Encoding.write, Work.change_run, hlooked]
  have hcalm : Desk.Calm { d'.looked with files := t } :=
    ⟨hin.calm.looked.cancelled, hin.calm.looked.alarm⟩
  have hfresh : ∀ q, t.resolve (job.path (.fragment c.start)) = .ok q → t.node? q = d.files.node? q :=
    fun q hq => hin.fresh c (left ▸ List.mem_cons_self) q ((hin.kept.resolve_iff _ _).1 hq)
  obtain ⟨d₂, hencoded, hcalm₂, htidy, houtput⟩ :=
    htools.encode_next hcalm hin.kept (readText_of_write hwrite) hfresh
  have hall : (s.encoders.map (Encoder.told does)).map Prod.fst = s.encoders.map Encoder.chunk := by
    rw [List.map_map]
    rfl
  exact ⟨d₂, hin.encodes.concat hall hin.calm.isRaised hwritten hencoded, hcalm₂, htidy, houtput⟩

/-- The launcher starts an encoder: in turn, the chunk is encoded at once. -/
theorem started (hin : InTurn tools o job base does d s d' t)
    (htools : tools.Performs o job base d.files does)
    (scripted : s.launcher = .scripted n) (left : s.left = c :: rest)
    (hbefore : ∀ e ∈ s.encoders, e.chunk.start ≠ c.start) (hbehind : ∀ c' ∈ rest, c'.start ≠ c.start) :
    ∃ d'' t', InTurn tools o job base does d
      { s with
        launcher := .waiting
        left := rest
        encoders := s.encoders ++ [{ chunk := c, permit := n }] } d'' t' := by
  have hwrite : d'.files.write (Encoding.chunkScript job c) (base.restrict c).text = .ok t := by
    have hstaged := hin.staged
    rw [Floor.staged?, scripted, left] at hstaged
    exact hstaged
  obtain ⟨d₂, hencodes, hcalm₂, htidy, houtput⟩ := hin.encodes_next htools left hwrite
  have hfragment : ∀ {k : Nat} {q : Place}, k ≠ c.start →
      d.files.resolve (job.path (.fragment k)) = .ok q → d₂.files.node? q = t.node? q := fun hne hq =>
    node?_fragment_of_ne htidy hne ((hin.kept.resolve_iff _ _).2 hq)
  refine ⟨d₂, d₂.files, {
    encodes := by rwa [List.map_append, List.map_append]
    calm := hcalm₂
    staged := rfl
    kept := hin.kept.trans (htidy.mono fun _ _ => trivial)
    same := ?_
    outputs := ?_
    fresh := ?_
    ended := ?_
    scripts := ?_ }⟩
  · -- the output is done in turn, and open for the crew
    refine (htidy.symm.mono ?_).trans (hin.same.mono ?_)
    · intro q hq
      exact ⟨_, List.mem_append_right _ List.mem_cons_self, rfl, (hin.kept.resolve_iff _ _).1 hq⟩
    · rintro q ⟨e, he, hopen⟩
      exact ⟨e, List.mem_append_left _ he, hopen⟩
  · intro e he q hq
    rcases List.mem_append.1 he with he | he
    · exact (hfragment (hbefore e he) hq).trans (hin.outputs e he q hq)
    · cases List.mem_singleton.1 he
      exact houtput q ((hin.kept.resolve_iff _ _).2 hq)
  · intro c' hc' q hq
    have hc := hin.fresh c' (left ▸ List.mem_cons_of_mem c hc') q hq
    exact (hfragment (hbehind c' hc') hq).trans hc
  · intro e he
    rcases List.mem_append.1 he with he | he
    · exact hin.ended e he
    · cases List.mem_singleton.1 he
      trivial
  · intro e he
    rw [Floor.active, List.filter_append] at he
    rcases List.mem_append.1 he with he | he
    · exact hin.scripts e he
    · cases List.mem_singleton.1 (List.mem_filter.1 he).1
      exact hin.same.readText_eq (readText_of_write hwrite) fun q hq => hin.not_open c hq

/-- An encoder works on its output. -/
theorem worked {desk : Desk τ} (hin : InTurn tools o job base does d s d' t) (here : e ∈ s.encoders)
    (working : e.stint = .working)
    (hkeeps : SameBut (s.desk.files.resolve (e.output job) = .ok ·) s.desk.files desk.files) :
    InTurn tools o job base does d { s with desk := desk } d' t :=
  { hin with
    same := hin.same.trans (hkeeps.mono fun _ hq => ⟨e, here, working, (hin.resolve_iff _ _).1 hq⟩)
    scripts := fun e' he' => hkeeps.readText_eq (hin.scripts e' he') fun _ hq hq' =>
      (apart_script_fragment e'.chunk e.chunk.start).places hq hq' rfl }

/-- An encoder comes to its end, or goes. -/
theorem become {before after : List Encoder} {stint : Stint} {permits : Permits}
    (hin : InTurn tools o job base does d s d' t) (here : s.encoders = before ++ e :: after)
    (hactive : e.isActive = true) (hended : (e.become stint).EndedAs does)
    (houtput : e.stint = .working → ∀ q, d.files.resolve (e.output job) = .ok q →
      s.desk.files.node? q = (does e.chunk).output) :
    InTurn tools o job base does d
      { s with permits := permits, encoders := before ++ e.become stint :: after } d' t := by
  have hmem : ∀ e' ∈ before ++ e.become stint :: after, e' = e.become stint ∨ e' ∈ s.encoders := by
    intro e' he'
    rw [here]
    rcases List.mem_append.1 he' with he' | he'
    · exact .inr (List.mem_append_left _ he')
    · exact (List.mem_cons.1 he').imp_right fun he' =>
        List.mem_append_right _ (List.mem_cons_of_mem _ he')
  have he : e ∈ s.encoders := here ▸ List.mem_append_right _ List.mem_cons_self
  refine { hin with encodes := ?_, same := ?_, outputs := ?_, ended := ?_, scripts := ?_ }
  · have hchunks : (before ++ e.become stint :: after).map Encoder.chunk =
        s.encoders.map Encoder.chunk := by simp [here, Encoder.become]
    have htold : (before ++ e.become stint :: after).map (Encoder.told does) =
        s.encoders.map (Encoder.told does) := by simp [here, Encoder.become, Encoder.told]
    rw [hchunks, htold]
    exact hin.encodes
  · refine hin.same.restored ?_
    rintro q ⟨e', he', hworking, hq⟩ hclosed
    by_cases hself : e' = e
    · subst hself
      rw [houtput hworking q hq, hin.outputs e' he' q hq]
    · -- another encoder still works there
      refine absurd ⟨e', ?_, hworking, hq⟩ hclosed
      rw [here] at he'
      rcases List.mem_append.1 he' with he' | he'
      · exact List.mem_append_left _ he'
      · exact List.mem_append_right _ (List.mem_cons_of_mem _ (List.mem_of_ne_of_mem hself he'))
  · intro e' he' q hq
    rcases hmem e' he' with rfl | he'
    · exact hin.outputs e he q hq
    · exact hin.outputs e' he' q hq
  · intro e' he'
    rcases hmem e' he' with rfl | he'
    · exact hended
    · exact hin.ended e' he'
  · intro e' he'
    obtain ⟨he', hactive'⟩ := List.mem_filter.1 he'
    rcases hmem e' he' with rfl | he'
    · exact hin.scripts e (List.mem_filter.2 ⟨he, hactive⟩)
    · exact hin.scripts e' (List.mem_filter.2 ⟨he', hactive'⟩)

/-- Once all encoders are gone, the outcomes are as told. -/
theorem results_eq (hin : InTurn tools o job base does d s d' t)
    (hgone : ∀ e ∈ s.encoders, e.isActive = false) :
    s.results = s.encoders.map (Encoder.told does) := by
  rw [Floor.results, ← List.filterMap_eq_map]
  refine List.filterMap_congr fun e he => ?_
  have hended := hin.ended e he
  have hinactive := hgone e he
  rw [Encoder.EndedAs] at hended
  rw [Encoder.isActive] at hinactive
  split at hinactive
  · rename_i r hstint
    rw [hstint] at hended
    rw [Encoder.result?, hstint, hended]
    rfl
  · cases hinactive

end InTurn

/-! ## A whole course -/

/-- The launcher writes no script that an active encoder reads. -/
theorem Sound.apart_left (hs : Sound job chunks moves s) (hstarts : (chunks.map FrameRange.start).Nodup)
    (waved : s.launcher = .waved n) (left : s.left = c :: rest) :
    ∀ e ∈ s.active, Apart (e.script job) (Encoding.chunkScript job c) := by
  intro e he
  by_cases hworkers : job.workers = 1
  · have hpermit : s.launcher.permit? = some n := by
      rw [waved]
      rfl
    rw [hs.active_eq_nil hworkers hpermit] at he
    cases he
  · have hnext := (hs.start_ne_next hstarts left).1 e (List.mem_filter.1 he).1
    exact @apart_script job e ⟨c, n, .working⟩ hworkers hnext

theorem InTurn.step (hin : InTurn tools o job base does d s d' t)
    (htools : tools.Performs o job base d.files does) (hs : Sound job chunks moves s)
    (hstarts : (chunks.map FrameRange.start).Nodup) (h : Step job base s m u)
    (hkeeps : Keeps job base does s m u) :
    ∃ d'' t', InTurn tools o job base does d u d'' t' := by
  cases h with
  | acquire waiting left free =>
    exact ⟨d', t, hin.idle rfl rfl rfl (by simp [Floor.staged?, waiting])⟩
  | @look n raised desk admitted looked =>
    rw [Work.isCancelled_run] at looked
    obtain ⟨-, rfl⟩ := Prod.mk.inj looked
    exact ⟨d', t, hin.idle rfl rfl rfl (by cases raised <;> simp [Floor.staged?, admitted])⟩
  | @write c rest n r desk waved left written =>
    cases r with
    | error fault =>
      cases Work.change_error written
      exact ⟨d', t, hin.idle rfl rfl rfl (by simp [Floor.staged?, waved, Launcher.behindWriting])⟩
    | ok a =>
      obtain ⟨t', ht'⟩ := hin.written waved left written (hs.apart_left hstarts waved left)
      exact ⟨d', t', ht'⟩
  | @start c rest n scripted left =>
    obtain ⟨hbefore, hbehind⟩ := hs.start_ne_next hstarts left
    exact hin.started htools scripted left hbefore hbehind
  | close closing => exact ⟨d', t, hin.idle rfl rfl rfl (by simp [Floor.staged?, closing])⟩
  | pass waiting left => exact ⟨d', t, hin.idle rfl rfl rfl (by simp [Floor.staged?, waiting])⟩
  | work desk here working => exact ⟨d', t, hin.worked here working hkeeps⟩
  | @finish before after e outcome here working =>
    have hactive : e.isActive = true := by simp [Encoder.isActive, working]
    have he : e ∈ s.encoders := here ▸ List.mem_append_right _ List.mem_cons_self
    obtain ⟨hended, houtput⟩ := hkeeps (hin.scripts e (List.mem_filter.2 ⟨he, hactive⟩))
    exact ⟨d', t, hin.become here hactive hended fun _ q hq =>
      houtput q ((hin.resolve_iff _ _).2 hq)⟩
  | @leave before after e outcome here finished =>
    have hactive : e.isActive = true := by simp [Encoder.isActive, finished]
    have he : e ∈ s.encoders := here ▸ List.mem_append_right _ List.mem_cons_self
    have hended := hin.ended e he
    rw [Encoder.EndedAs, finished] at hended
    refine ⟨d', t, hin.become here hactive hended fun hworking => ?_⟩
    rw [finished] at hworking
    cases hworking
  | cancel => exact ⟨d', t, hin.idle rfl rfl rfl rfl⟩

theorem inTurn_opened (d : Desk τ) :
    InTurn tools o job base does d (.opened job chunks d) d.calm d.files where
  encodes := .done
  calm := d.calm_calm
  staged := rfl
  kept := .refl _ _
  same := .refl _ _
  outputs e he := by cases he
  fresh _ _ _ _ := rfl
  ended e he := by cases he
  scripts e he := by cases he

theorem Course.inTurn (htools : tools.Performs o job base d.files does)
    (hstarts : (chunks.map FrameRange.start).Nodup)
    (h : Course job base does (.opened job chunks d) moves s) :
    ∃ d' t, InTurn tools o job base does d s d' t := by
  induction h with
  | refl => exact ⟨d.calm, d.files, inTurn_opened d⟩
  | step course step keeps ih =>
    obtain ⟨d', t, hin⟩ := ih
    exact hin.step htools course.run.sound hstarts step keeps

/-- **Every interleaving leaves what encoding in turn leaves.** Behind a course of the crew, once the
launcher is through and all encoders are gone, the outcomes and the files are those of encoding the
started chunks one after the other. -/
theorem course_in_turn (htools : tools.Performs o job base d.files does)
    (hstarts : (chunks.map FrameRange.start).Nodup)
    (h : Course job base does (.opened job chunks d) moves s)
    (hthrough : s.launcher.isThrough = true) (hgone : s.active = []) :
    ∃ d', Encoding.encodeAll tools o job base (startedIn moves) d.calm = (.ok s.results, d') ∧
      SameBut (fun _ => False) d'.files s.desk.files := by
  obtain ⟨d', t, hin⟩ := h.inTurn htools hstarts
  have hleft : ∀ e ∈ s.encoders, e.isActive = false := fun e he => by
    simpa using List.filter_eq_nil_iff.1 hgone e he
  have ht : t = d'.files := by
    have hstaged := hin.staged
    unfold Floor.staged? at hstaged
    split at hstaged
    · rename_i hscripted
      rw [hscripted] at hthrough
      cases hthrough
    · exact hstaged
  refine ⟨d', ?_, ht ▸ hin.same.restored ?_⟩
  · rw [h.run.sound.started, hin.results_eq hleft]
    exact hin.encodes.encodeAll_eq
  · rintro q ⟨e, he, hworking, -⟩
    have hactive := hleft e he
    rw [Encoder.isActive, hworking] at hactive
    cases hactive

/-- So does a crew that was not stopped: it encodes all chunks. -/
theorem course_all_in_turn (htools : tools.Performs o job base d.files does)
    (hstarts : (chunks.map FrameRange.start).Nodup)
    (h : Course job base does (.opened job chunks d) moves s) (hclosed : s.launcher = .closed none)
    (hlook : .look true ∉ moves) (hgone : s.active = []) :
    ∃ d', Encoding.encodeAll tools o job base chunks d.calm = (.ok s.results, d') ∧
      SameBut (fun _ => False) d'.files s.desk.files := by
  have hall := course_in_turn htools hstarts h (by rw [hclosed]; rfl) hgone
  rwa [h.run.all_started hclosed hlook] at hall

/-! ## Two at work -/

/-- Writing to one place in trees with the same folders does the same if the place holds the same. -/
theorem write_alike {t t' : FileTree} {p : Path} (hkept : SameBut (fun _ => True) t t')
    (hnode : ∀ q, t'.resolve p = .ok q → t'.node? q = t.node? q) (text : String) :
    (∃ u u', t.write p text = .ok u ∧ t'.write p text = .ok u' ∧
      ∀ q, t.resolve p = .ok q → u'.node? q = u.node? q) ∨
    ∃ cause cause', t.write p text = .error cause ∧ t'.write p text = .error cause' := by
  have hsame : SameBut (t.resolve p ≠ .ok ·) t t' :=
    hkept.restored fun q _ hq => hnode q ((hkept.resolve_iff p q).2 (not_not.1 hq))
  cases hwrite : t.write p text with
  | ok u =>
    obtain ⟨u', hu', hsame'⟩ := hsame.symm.write hwrite fun q hq hne =>
      hne ((hkept.resolve_iff p q).1 hq)
    exact .inl ⟨u, u', rfl, hu', fun q hq => hsame'.symm.elsewhere q fun hne => hne hq⟩
  | error cause =>
    cases hwrite' : t'.write p text with
    | ok u' =>
      obtain ⟨u, hu, -⟩ := hsame.write hwrite' fun q hq hne => hne hq
      rw [hwrite] at hu
      cases hu
    | error cause' => exact .inr ⟨cause, cause', rfl, rfl⟩

/-- What `twoFrameTools` make of an output, by how it is written. -/
def writing (t : FileTree) (output : Path) : Except FileFault FileTree → Effect
  | .ok u => ⟨.ok (), (t.resolve output).toOption.bind u.node?⟩
  | .error _ => ⟨.error (.cancelled "encoder"), (t.resolve output).toOption.bind t.node?⟩

/-- What `twoFrameTools` make of a chunk. -/
def framed (job : Job) (t : FileTree) (c : FrameRange) : Effect :=
  writing t (job.path (.fragment c.start)) (t.write (job.path (.fragment c.start)) "frames")

theorem performs_twoFrameTools (o : EncodingOptions) (job : Job) (base : Script) (t : FileTree) :
    Encoding.twoFrameTools.Performs o job base t (framed job t) where
  toTidy := Encoding.tidy_twoFrameTools
  calm script output d hcalm := by
    change (Work.change (fun t => t.write output "frames") _ d).2.Calm
    rw [Work.change_run]
    split
    · exact ⟨hcalm.cancelled, hcalm.alarm⟩
    · exact hcalm
  performs c d d' r hkept hscript houtput hencoded := by
    have hchange : Work.change (fun t => t.write (job.path (.fragment c.start)) "frames")
        (fun _ => ToolFault.cancelled "encoder") d = (r, d') := hencoded
    rw [Work.change_run] at hchange
    rw [framed]
    rcases write_alike hkept houtput "frames" with ⟨u, u', hu, hu', hnode⟩ | ⟨_, _, hu, hu'⟩
    · rw [hu'] at hchange
      cases hchange
      rw [hu]
      refine ⟨rfl, fun q hq => ?_⟩
      have hplace := (hkept.resolve_iff _ q).1 hq
      rw [writing, hplace]
      exact hnode q hplace
    · rw [hu'] at hchange
      cases hchange
      rw [hu]
      refine ⟨rfl, fun q hq => ?_⟩
      rw [writing, (hkept.resolve_iff _ q).1 hq]
      exact houtput q hq

/-- The moves of a launcher are bound to nothing. -/
theorem Run.course (h : Run job base s moves u)
    (hmoves : ∀ m ∈ moves, ∀ t t' : Floor τ, Keeps job base does t m t') :
    Course job base does s moves u := by
  induction h with
  | refl => exact .refl
  | step run step ih =>
    refine (ih fun m hm => hmoves m (List.mem_append_left _ hm)).step step ?_
    exact hmoves _ (List.mem_append_right _ List.mem_cons_self) _ _

/-- An encoder may do all its work at a stretch. -/
theorem Course.stretch {s₀ : Floor τ} {before after : List Encoder} {desk : Desk τ} {place : Place}
    (h : Course job base does s₀ moves s) (here : s.encoders = before ++ e :: after)
    (working : e.stint = .working)
    (hkeeps : SameBut (s.desk.files.resolve (e.output job) = .ok ·) s.desk.files desk.files)
    (hplace : desk.files.resolve (e.output job) = .ok place)
    (hnode : desk.files.node? place = (does e.chunk).output) :
    Course job base does s₀
      (moves ++ [.work e.chunk] ++ [.finish e.chunk (does e.chunk).outcome] ++ [.leave e.chunk])
      { s with
        desk := desk
        permits := (s.permits.release e.permit).2
        encoders := before ++ e.become (.gone (does e.chunk).outcome) :: after } := by
  have he : e ∈ s.encoders := here ▸ List.mem_append_right _ List.mem_cons_self
  have houtput : ∀ q, desk.files.resolve (e.output job) = .ok q →
      desk.files.node? q = (does e.chunk).output := by
    intro q hq
    rw [hplace] at hq
    cases hq
    exact hnode
  have hworked := h.step (.work desk he working) hkeeps
  have hfinished := hworked.step (.finish _ here working) fun _ => ⟨rfl, houtput⟩
  exact hfinished.step (@Step.leave τ job base _ before after (e.become (.finished _)) _ rfl rfl) trivial

/-- The desk behind the encoder of a chunk. -/
def pairDeskBehind (c : FrameRange) (d : Desk Unit) : Desk Unit :=
  (Encoding.twoFrameTools.encode (Encoding.chunkScript pairJob c).forEngine
    (pairJob.path (.fragment c.start)) pairJob {} d).2

/-- The second of two encoders is done first; then the work is asked to stop. -/
theorem course_in_turn_pair :
    Encoding.twoFrameTools.Performs {} pairJob ⟨[]⟩ pairDesk.files (framed pairJob pairDesk.files) ∧
    (pairChunks.map FrameRange.start).Nodup ∧ ∃ moves s,
    Course pairJob ⟨[]⟩ (framed pairJob pairDesk.files) (.opened pairJob pairChunks pairDesk) moves s ∧
    s.launcher.isThrough = true ∧ s.active = [] ∧ startedIn moves = [⟨0, 4⟩, ⟨5, 9⟩] ∧
    ∃ d', Encoding.encodeAll Encoding.twoFrameTools {} pairJob ⟨[]⟩ (startedIn moves) pairDesk.calm =
        (.ok s.results, d') ∧ SameBut (fun _ => False) d'.files s.desk.files := by
  have hperforms := performs_twoFrameTools {} pairJob ⟨[]⟩ pairDesk.files
  have hstarts : (pairChunks.map FrameRange.start).Nodup := by decide
  have hlaunched : Course pairJob ⟨[]⟩ (framed pairJob pairDesk.files)
      (.opened pairJob pairChunks pairDesk) (launching 0 ⟨0, 4⟩ ++ launching 1 ⟨5, 9⟩) pairFloor := by
    refine run_pairFloor.course fun m hm t t' => ?_
    simp only [launching, List.cons_append, List.nil_append, List.mem_cons, List.not_mem_nil,
      or_false] at hm
    rcases hm with rfl | rfl | rfl | rfl | rfl | rfl | rfl | rfl <;> trivial
  have hsecond := @Course.stretch _ _ _ _ _ _ ⟨⟨5, 9⟩, 1, .working⟩ _ [⟨⟨0, 4⟩, 0, .working⟩] []
    (pairDeskBehind ⟨5, 9⟩ pairFloor.desk) ["jobs", "Job1_Output_5.mkv"] hlaunched rfl rfl
    (Encoding.tidy_twoFrameTools.encode _ _ _ _ _) (by decide +kernel) (by decide +kernel)
  have hfirst := @Course.stretch _ _ _ _ _ _ ⟨⟨0, 4⟩, 0, .working⟩ _ [] _
    (pairDeskBehind ⟨0, 4⟩ (pairDeskBehind ⟨5, 9⟩ pairFloor.desk)) ["jobs", "Job1_Output_0.mkv"]
    hsecond rfl rfl (Encoding.tidy_twoFrameTools.encode _ _ _ _ _) (by decide +kernel)
    (by decide +kernel)
  have hturned := ((hfirst.step .cancel trivial).step (.acquire rfl rfl rfl) trivial).step
    (.look rfl rfl) trivial
  have hclosed := hturned.step (.close rfl) trivial
  exact ⟨hperforms, hstarts, _, _, hclosed, rfl, rfl, rfl,
    course_in_turn hperforms hstarts hclosed rfl rfl⟩

end Crew

end Restoration
