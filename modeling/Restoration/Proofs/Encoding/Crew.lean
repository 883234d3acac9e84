import Restoration.Encoding.Crew
import Restoration.Proofs.Encoding.Chunks
import Restoration.Proofs.Job.Path

/-!
# Every course of a crew

A permit is free, or the launcher has it, or an encoder that is not gone. So there are never more
such encoders than permits, and with a single permit there is none while the launcher has it. The
launcher starts the chunks in their order and starts none once it found the flag raised:

    free + holders.length = workers
    started chunks ++ left = chunks
-/

namespace Restoration

open FileTree

namespace Crew

variable {τ : Type} {job : Job} {base : Script} {chunks : List FrameRange} {s t u : Floor τ}
  {m : Move} {moves more : List Move}

/-! ## Who has a permit -/

/-- The permit of a launcher. -/
def Launcher.permit? : Launcher → Option Nat
  | waiting | closed _ => none
  | admitted n | waved n | scripted n | closing n _ => some n

/-- Is the launcher through? It may still have to give its permit back. -/
def Launcher.isThrough : Launcher → Bool
  | closing .. | closed _ => true
  | _ => false

/-- Was the encoder started, and did it not yet give its permit back? So is every encoder that
works. -/
def Encoder.isActive (e : Encoder) : Bool :=
  match e.stint with
  | .gone _ => false
  | _ => true

/-- The encoders that were started and are not gone. -/
def Floor.active (s : Floor τ) : List Encoder := s.encoders.filter Encoder.isActive

/-- The fault with which a launcher that is through left the loop, if any. -/
def Launcher.ending? : Launcher → Option (Option JobFault)
  | closing _ fault | closed fault => some fault
  | _ => none

/-- The permits that somebody has. -/
def Floor.holders (s : Floor τ) : List Nat :=
  s.launcher.permit?.toList ++ s.active.map Encoder.permit

/-- The chunk whose encoder is started by the move. -/
def Move.started? : Move → Option FrameRange
  | start c => some c
  | _ => none

/-- The chunks whose encoders were started, in this order. -/
def startedIn (moves : List Move) : List FrameRange := moves.filterMap Move.started?

/-! ## One move -/

theorem Step.total (h : Step job base s m t) :
    t.permits.free + t.permits.held.length = s.permits.free + s.permits.held.length := by
  cases h with
  | acquire _ _ free => exact Permits.acquire?_total free
  | close _ => exact Permits.release_total _ _
  | leave _ _ => exact Permits.release_total _ _
  | _ => rfl

/-- The permits that are held are those that somebody has. -/
theorem Step.held (h : Step job base s m t) (hs : s.permits.held.Perm s.holders) :
    t.permits.held.Perm t.holders := by
  unfold Floor.holders Floor.active at hs ⊢
  cases h with
  | acquire waiting left free =>
    rw [waiting] at hs
    rw [Permits.acquire?_held free]
    exact hs.cons _
  | @look n raised _ admitted looked =>
    rw [admitted] at hs
    cases raised <;> exact hs
  | @write c rest n r _ waved left written =>
    rw [waved] at hs
    rcases r with fault | ⟨⟨⟩⟩ <;> exact hs
  | @start c rest n scripted left =>
    rw [scripted] at hs
    have hnew : (s.encoders ++ [(⟨c, n, .working⟩ : Encoder)]).filter Encoder.isActive =
        s.encoders.filter Encoder.isActive ++ [⟨c, n, .working⟩] := by
      rw [List.filter_append]
      rfl
    rw [hnew, List.map_append]
    exact hs.trans (List.perm_append_singleton _ _).symm
  | close closing =>
    rw [closing] at hs
    exact Permits.held_release hs
  | pass waiting left =>
    rw [waiting] at hs
    exact hs
  | work desk here working => exact hs
  | @finish before after e outcome here working =>
    have he : e.isActive = true := by simp [Encoder.isActive, working]
    have hend : (e.become (.finished outcome)).isActive = true := rfl
    rw [here, List.filter_append, List.filter_cons_of_pos he] at hs
    rw [List.filter_append, List.filter_cons_of_pos hend]
    simpa [Encoder.become] using hs
  | @leave before after e outcome here finished =>
    have he : e.isActive = true := by simp [Encoder.isActive, finished]
    have hgone : ¬ (e.become (.gone outcome)).isActive = true := by simp [Encoder.isActive, Encoder.become]
    rw [here, List.filter_append, List.filter_cons_of_pos he] at hs
    rw [List.filter_append, List.filter_cons_of_neg hgone]
    refine Permits.held_release (hs.trans ?_)
    rw [List.map_append, List.map_append, List.map_cons, ← List.append_assoc, ← List.append_assoc]
    exact List.perm_middle
  | cancel => exact hs

theorem Step.order (h : Step job base s m t) :
    t.encoders.map Encoder.chunk ++ t.left = s.encoders.map Encoder.chunk ++ s.left ∧
      t.encoders.map Encoder.chunk = s.encoders.map Encoder.chunk ++ m.started?.toList := by
  cases h with
  | start scripted left => simp [left, Move.started?]
  | finish outcome here working => simp [here, Move.started?, Encoder.become]
  | leave here finished => simp [here, Move.started?, Encoder.become]
  | _ => simp [Move.started?]

/-- A launcher that is through starts nothing and stays so. -/
theorem Step.through (h : Step job base s m t) (hs : s.launcher.isThrough = true) :
    t.launcher.isThrough = true ∧ m.started? = none := by
  cases h with
  | acquire waiting | start waiting | look waiting | write waiting =>
    rw [waiting] at hs
    cases hs
  | close | pass => exact ⟨rfl, rfl⟩
  | work | finish | leave | cancel => exact ⟨hs, rfl⟩

theorem Step.raised (h : Step job base s (.look true) t) : t.launcher.isThrough = true := by
  cases h with
  | look admitted looked => rfl

/-! ## A whole run -/

/-- What holds behind some moves from the opened floor. -/
structure Sound (job : Job) (chunks : List FrameRange) (moves : List Move) (s : Floor τ) : Prop where
  total : s.permits.free + s.permits.held.length = job.workers
  held : s.permits.held.Perm s.holders
  order : s.encoders.map Encoder.chunk ++ s.left = chunks
  started : startedIn moves = s.encoders.map Encoder.chunk
  through : .look true ∈ moves → s.launcher.isThrough = true
  stopped : ∀ before after, moves = before ++ .look true :: after → startedIn after = []

theorem sound_opened (job : Job) (chunks : List FrameRange) (desk : Desk τ) :
    Sound job chunks [] (.opened job chunks desk) where
  total := rfl
  held := .refl _
  order := rfl
  started := rfl
  through h := by cases h
  stopped before after h := by simp at h

/-- **Every move keeps this.** -/
theorem Sound.step (hs : Sound job chunks moves s) (h : Step job base s m t) :
    Sound job chunks (moves ++ [m]) t where
  total := h.total.trans hs.total
  held := h.held hs.held
  order := h.order.1.trans hs.order
  started := by
    rw [h.order.2, startedIn, List.filterMap_append, ← startedIn, hs.started]
    cases hm : m.started? <;> simp [hm]
  through hlook := by
    rcases List.mem_append.1 hlook with hlook | hlook
    · exact (h.through (hs.through hlook)).1
    · rw [← List.mem_singleton.1 hlook] at h
      exact h.raised
  stopped before after heq := by
    rcases List.eq_nil_or_concat after with rfl | ⟨front, last, rfl⟩
    · rfl
    -- the flag was found raised earlier, so the launcher was through by the last move
    rw [List.concat_eq_append] at heq ⊢
    rw [← List.cons_append, ← List.append_assoc] at heq
    obtain ⟨hmoves, hm⟩ := List.append_inj' heq rfl
    obtain rfl := List.singleton_inj.1 hm
    have hthrough := hs.through (hmoves ▸ List.mem_append_right _ List.mem_cons_self)
    rw [startedIn, List.filterMap_append, ← startedIn, hs.stopped before front hmoves]
    simp [(h.through hthrough).2]

theorem Run.sound {desk : Desk τ} (h : Run job base (.opened job chunks desk) moves s) :
    Sound job chunks moves s := by
  induction h with
  | refl => exact sound_opened job chunks desk
  | step _ step ih => exact ih.step step

namespace Sound

/-- No more encoders are active than there are workers, and one less while the launcher has a
permit. -/
theorem length_active (hs : Sound job chunks moves s) :
    s.launcher.permit?.toList.length + s.active.length ≤ job.workers := by
  have hheld := hs.held.length_eq
  rw [Floor.holders, List.length_append, List.length_map] at hheld
  have htotal := hs.total
  omega

theorem started_prefix (hs : Sound job chunks moves s) : startedIn moves <+: chunks :=
  ⟨s.left, by rw [hs.started, hs.order]⟩

theorem starts_nodup (hs : Sound job chunks moves s)
    (hstarts : (chunks.map FrameRange.start).Nodup) :
    s.active.Pairwise fun e e' => e.chunk.start ≠ e'.chunk.start := by
  have hsub : (s.active.map Encoder.chunk).Sublist chunks := by
    rw [← hs.order]
    exact (List.filter_sublist.map _).trans (List.sublist_append_left _ _)
  have hnodup := (hsub.map FrameRange.start).nodup hstarts
  rw [List.map_map] at hnodup
  exact List.pairwise_map.1 hnodup

/-- The next chunk starts where none does for which an encoder was started, nor one that is left. -/
theorem start_ne_next {c : FrameRange} {rest : List FrameRange} (hs : Sound job chunks moves s)
    (hstarts : (chunks.map FrameRange.start).Nodup) (left : s.left = c :: rest) :
    (∀ e ∈ s.encoders, e.chunk.start ≠ c.start) ∧ ∀ c' ∈ rest, c'.start ≠ c.start := by
  rw [← hs.order, left, List.map_append, List.map_cons] at hstarts
  obtain ⟨-, hbehind, hahead⟩ := List.nodup_append.1 hstarts
  refine ⟨fun e he => ?_, fun c' hc' heq => ?_⟩
  · exact hahead _ (List.mem_map_of_mem (List.mem_map_of_mem he)) _ List.mem_cons_self
  · exact (List.nodup_cons.1 hbehind).1 (heq ▸ List.mem_map_of_mem hc')

/-- While the launcher has the only permit, no encoder is active. -/
theorem active_eq_nil {n : Nat} (hs : Sound job chunks moves s) (hone : job.workers = 1)
    (hpermit : s.launcher.permit? = some n) : s.active = [] := by
  have hlength := hs.length_active
  rw [hpermit, Option.toList_some, List.length_singleton] at hlength
  exact List.length_eq_zero_iff.1 (by omega)

end Sound

/-- A launcher that left the loop without a fault found the flag raised or is through with all chunks. -/
theorem Run.ending {desk : Desk τ} (h : Run job base (.opened job chunks desk) moves s)
    (hending : s.launcher.ending? = some none) : .look true ∈ moves ∨ s.left = [] := by
  induction h with
  | refl => cases hending
  | step run step ih =>
    cases step with
    | acquire | start => cases hending
    | @look n raised desk admitted looked =>
      cases raised with
      | false => cases hending
      | true => exact .inl (List.mem_append_right _ List.mem_cons_self)
    | @write c rest n r desk waved left written => cases r <;> cases hending
    | close closing =>
      rw [closing] at ih
      exact (ih hending).imp_left (List.mem_append_left _)
    | pass waiting left => exact .inr left
    | work | finish | leave | cancel => exact (ih hending).imp_left (List.mem_append_left _)

/-- **Every chunk is started** unless a script could not be written or the flag was found raised. -/
theorem Run.all_started {desk : Desk τ} (h : Run job base (.opened job chunks desk) moves s)
    (hclosed : s.launcher = .closed none) (hlook : .look true ∉ moves) : startedIn moves = chunks := by
  have hleft : s.left = [] := (h.ending (by rw [hclosed]; rfl)).resolve_left hlook
  rw [h.sound.started, ← h.sound.order, hleft, List.append_nil]

/-! ## Scripts and outputs -/

theorem apart_output {e e' : Encoder} (h : e.chunk.start ≠ e'.chunk.start) :
    Apart (e.output job) (e'.output job) :=
  Job.apart_path fun hname => h (job.fileName_fragment_inj hname)

/-- Several workers read different scripts. -/
theorem apart_script {e e' : Encoder} (hworkers : job.workers ≠ 1)
    (h : e.chunk.start ≠ e'.chunk.start) : Apart (e.script job) (e'.script job) := by
  simp only [Encoder.script, Encoding.chunkScript, if_neg hworkers, Path.forEngine]
  exact Job.apart_path fun hname => h (job.fileName_chunkScript_inj hname)

/-- Only a single worker has its chunks in the job's own script. -/
theorem workers_of_chunkScript {c : FrameRange} (h : Encoding.chunkScript job c = job.path .script) :
    job.workers = 1 := by
  by_contra hworkers
  rw [Encoding.chunkScript, if_neg hworkers] at h
  exact (Job.apart_path (job.fileName_script_ne c.start)).ne h.symm

/-! ## The crew -/

/-- What holds of a crew behind some moves, whoever made them. -/
structure Orderly (job : Job) (base : Script) (chunks : List FrameRange) (moves : List Move)
    (s : Floor τ) : Prop where
  bounded : s.active.length ≤ job.workers
  permits : s.permits.free + s.permits.held.length = job.workers
  held : s.permits.held.Perm s.holders
  /-- Chunks are started in their order, none twice. -/
  started : startedIn moves <+: chunks ∧ (startedIn moves).Nodup
  /-- Nothing is started once the flag was found raised. -/
  stopped : ∀ before after, moves = before ++ .look true :: after → startedIn after = []
  apart : s.active.Pairwise fun e e' =>
    Apart (e.script job) (e'.script job) ∧ Apart (e.output job) (e'.output job)
  /-- The job's own script is written only while no encoder is active. -/
  alone : ∀ c t, Step job base s (.write c (job.path .script)) t → s.active = []

/-- **In every interleaving the crew is orderly.** -/
theorem run_orderly {desk : Desk τ} (hstarts : (chunks.map FrameRange.start).Nodup)
    (h : Run job base (.opened job chunks desk) moves s) : Orderly job base chunks moves s := by
  have hs := h.sound
  have hlength := hs.length_active
  have hstart := hs.starts_nodup hstarts
  have hchunks : chunks.Nodup := .of_map _ hstarts
  refine {
    bounded := by omega
    permits := hs.total
    held := hs.held
    started := ⟨hs.started_prefix, hs.started_prefix.sublist.nodup hchunks⟩
    stopped := hs.stopped
    apart := ?_
    alone := fun c t hwrite => ?_ }
  · by_cases hworkers : job.workers = 1
    · -- a single worker's chunks share a script, but only one encoder is active
      have hone : s.active.length ≤ 1 := by omega
      match hactive : s.active with
      | [] => exact .nil
      | [e] => exact List.pairwise_singleton _ _
      | e :: e' :: rest => simp [hactive] at hone
    · exact hstart.imp fun hne => ⟨apart_script hworkers hne, apart_output hne⟩
  · generalize hp : job.path .script = p at hwrite
    cases hwrite with
    | write waved left written =>
      exact hs.active_eq_nil (workers_of_chunkScript hp.symm) (by rw [waved]; rfl)

/-! ## One after the other -/

theorem Run.trans (h : Run job base s moves t) (h' : Run job base t more u) :
    Run job base s (moves ++ more) u := by
  induction h' with
  | refl => simpa using h
  | step _ step ih =>
    rw [← List.append_assoc]
    exact ih.step step

/-- The floor while nobody has a permit. -/
def Floor.atRest (free taken : Nat) (launcher : Launcher) (left : List FrameRange)
    (encoders : List Encoder) (desk : Desk τ) : Floor τ where
  desk := desk
  permits := ⟨free, [], taken⟩
  launcher := launcher
  left := left
  encoders := encoders

/-- The floor while the last permit taken is the only one that is held. -/
def Floor.engaged (free taken : Nat) (launcher : Launcher) (left : List FrameRange)
    (encoders : List Encoder) (desk : Desk τ) : Floor τ where
  desk := desk
  permits := ⟨free, [taken], taken + 1⟩
  launcher := launcher
  left := left
  encoders := encoders

/-- What became of the chunk, once the encoder is gone. -/
def Encoder.result? (e : Encoder) : Option (FrameRange × Except ToolFault Unit) :=
  match e.stint with
  | .gone outcome => some (e.chunk, outcome)
  | _ => none

/-- What became of the chunks whose encoders are gone. -/
def Floor.results (s : Floor τ) : List (FrameRange × Except ToolFault Unit) :=
  s.encoders.filterMap Encoder.result?

/-- The crew is through, with this outcome of the loop. -/
structure Settled (r : Except JobFault (List (FrameRange × Except ToolFault Unit))) (s : Floor τ) :
    Prop where
  held : s.permits.held = []
  closed : s.launcher = .closed (match r with
    | .ok _ => none
    | .error fault => some fault)
  results : ∀ rs, r = .ok rs → s.results = rs

section OneByOne

variable {n w k : Nat} {c : FrameRange} {rest left : List FrameRange} {es : List Encoder}
  {d d₁ : Desk τ} {permits : Permits}

/-- The launcher takes a permit and looks at the flag. -/
theorem run_look {raised : Bool} (waiting : s.launcher = .waiting) (hleft : s.left = c :: rest)
    (free : s.permits.acquire? = some (n, permits)) (flag : s.desk.isRaised = raised) :
    Run job base s [.acquire n, .look raised]
      { s with
        desk := s.desk.looked
        permits := permits
        launcher := if raised then .closing n none else .waved n } := by
  have hlook := Work.isCancelled_run (ε := JobFault) s.desk
  rw [flag] at hlook
  exact (Run.refl.step (.acquire waiting hleft free)).step (.look rfl hlook)

/-- The launcher starts an encoder, whatever the others do meanwhile. -/
theorem run_launch (waiting : s.launcher = .waiting) (hleft : s.left = c :: rest)
    (free : s.permits.acquire? = some (n, permits)) (flag : s.desk.isRaised = false)
    (written : Encoding.write (base.restrict c) (Encoding.chunkScript job c) s.desk.looked =
      (.ok (), d)) :
    Run job base s [.acquire n, .look false, .write c (Encoding.chunkScript job c), .start c]
      { desk := d
        permits := permits
        left := rest
        encoders := s.encoders ++ [⟨c, n, .working⟩] } := by
  have hwritten := (run_look waiting hleft free flag).step (.write rfl hleft written)
  exact hwritten.step (.start rfl hleft)

theorem release_engaged :
    ((⟨w, [k], k + 1⟩ : Permits).release k).2 = ⟨w + 1, [], k + 1⟩ := by
  simp [Permits.release]

/-- The launcher gives the only permit back. -/
theorem run_close {fault : Option JobFault} :
    Run job base (.engaged w k (.closing k fault) left es d) [.close]
      (.atRest (w + 1) (k + 1) (.closed fault) left es d) := by
  have hclose : Run job base (.engaged w k (.closing k fault) left es d) [.close]
      { Floor.atRest (w + 1) (k + 1) (.closed fault) left es d with
        permits := ((⟨w, [k], k + 1⟩ : Permits).release k).2 } :=
    Run.refl.step (.close rfl)
  rw [release_engaged] at hclose
  exact hclose

/-- The last encoder works, comes to its end and gives the only permit back. -/
theorem run_encoder (r : Except ToolFault Unit) (d₁ : Desk τ) :
    Run job base (.engaged w k .waiting left (es ++ [⟨c, k, .working⟩]) d)
      [.work c, .finish c r, .leave c]
      (.atRest (w + 1) (k + 1) .waiting left (es ++ [⟨c, k, .gone r⟩]) d₁) := by
  have hwork : Run job base (.engaged w k .waiting left (es ++ [⟨c, k, .working⟩]) d) [.work c]
      (.engaged w k .waiting left (es ++ [⟨c, k, .working⟩]) d₁) :=
    Run.refl.step (@Step.work τ job base _ ⟨c, k, .working⟩ d₁
      (List.mem_append_right es List.mem_cons_self) rfl)
  have hfinish : Run job base (.engaged w k .waiting left (es ++ [⟨c, k, .working⟩]) d)
      [.work c, .finish c r]
      (.engaged w k .waiting left (es ++ [⟨c, k, .finished r⟩]) d₁) :=
    hwork.step (@Step.finish τ job base _ es [] ⟨c, k, .working⟩ r rfl rfl)
  have hleave : Step job base (.engaged w k .waiting left (es ++ [⟨c, k, .finished r⟩]) d₁) (.leave c)
      { Floor.atRest (w + 1) (k + 1) .waiting left (es ++ [⟨c, k, .gone r⟩]) d₁ with
        permits := ((⟨w, [k], k + 1⟩ : Permits).release k).2 } :=
    @Step.leave τ job base _ es [] ⟨c, k, .finished r⟩ r rfl rfl
  rw [release_engaged] at hleave
  exact hfinish.step hleave

/-- From a floor at rest, the chunks can be encoded one by one. -/
theorem exists_run_atRest {tools : Toolbox τ} {o : EncodingOptions}
    {r : Except JobFault (List (FrameRange × Except ToolFault Unit))} {d' : Desk τ}
    (h : Encoding.encodeAll tools o job base chunks d = (r, d')) :
    ∃ moves s, Run job base (.atRest (w + 1) k .waiting chunks es d) moves s ∧ s.desk = d' ∧
      Settled (r.map (es.filterMap Encoder.result? ++ ·)) s := by
  induction chunks generalizing k es d r with
  | nil =>
    cases h
    refine ⟨_, _, Run.refl.step (.pass rfl rfl), rfl, rfl, rfl, fun rs hrs => ?_⟩
    cases hrs
    exact (List.append_nil _).symm
  | cons c rest ih =>
    cases Encoding.encodeAll_cons h with
    | stopped raised =>
      have hturned : Run job base (.atRest (w + 1) k .waiting (c :: rest) es d)
          [.acquire k, .look true] (.engaged w k (.closing k none) (c :: rest) es d.looked) :=
        run_look rfl rfl rfl raised
      refine ⟨_, _, hturned.trans run_close, rfl, rfl, rfl, fun rs hrs => ?_⟩
      cases hrs
      exact (List.append_nil _).symm
    | refused waved written =>
      have hwaved : Run job base (.atRest (w + 1) k .waiting (c :: rest) es d)
          [.acquire k, .look false] (.engaged w k (.waved k) (c :: rest) es d.looked) :=
        run_look rfl rfl rfl waved
      have hrefused := hwaved.step (.write rfl rfl written)
      exact ⟨_, _, hrefused.trans run_close, rfl, rfl, rfl, fun rs hrs => by cases hrs⟩
    | @chunk d₁ d₂ _ r₁ r' waved written encoded others =>
      have hlaunched : Run job base (.atRest (w + 1) k .waiting (c :: rest) es d)
          [.acquire k, .look false, .write c (Encoding.chunkScript job c), .start c]
          (.engaged w k .waiting rest (es ++ [⟨c, k, .working⟩]) d₁) :=
        run_launch rfl rfl rfl waved written
      obtain ⟨moves, s, hrun, hdesk, hsettled⟩ := ih others
      refine ⟨_, s, (hlaunched.trans (run_encoder r₁ d₂)).trans hrun, hdesk, ?_⟩
      have hresults : (es ++ [(⟨c, k, .gone r₁⟩ : Encoder)]).filterMap Encoder.result? =
          es.filterMap Encoder.result? ++ [(c, r₁)] := by simp [Encoder.result?]
      rw [hresults] at hsettled
      cases r' with
      | error fault => exact hsettled
      | ok rs => simpa [Except.map] using hsettled

end OneByOne

/-- **Encoding the chunks one after the other is one of the courses** that a crew can take. -/
theorem exists_run_of_encodeAll {tools : Toolbox τ} {o : EncodingOptions} {d d' : Desk τ}
    {r : Except JobFault (List (FrameRange × Except ToolFault Unit))}
    (h : Encoding.encodeAll tools o job base chunks d = (r, d')) :
    ∃ moves s, Run job base (.opened job chunks d) moves s ∧ s.desk = d' ∧ Settled r s := by
  have hpos : 0 < job.workers := Nat.le_max_left 1 _
  obtain ⟨w, hw⟩ := Nat.exists_eq_add_one_of_ne_zero (Nat.ne_of_gt hpos)
  have hopened : Floor.opened job chunks d = .atRest (w + 1) 0 .waiting chunks [] d := by
    rw [Floor.opened, hw]
    rfl
  obtain ⟨moves, s, hrun, hdesk, hsettled⟩ := exists_run_atRest h
  refine ⟨moves, s, hopened ▸ hrun, hdesk, ?_⟩
  cases r <;> exact hsettled

/-! ## Two at work -/

/-- A job for two workers. -/
def pairJob : Job :=
  { source := ⟨"/clip.avi"⟩, directory := ⟨"/jobs"⟩, index := 1, parallelism := 2 }

def pairChunks : List FrameRange := [⟨0, 4⟩, ⟨5, 9⟩, ⟨10, 14⟩]

/-- A desk with the directory of the job. -/
def pairDesk : Desk Unit where
  files := { nodes := [(["jobs"], .folder)] }
  tools := ()

/-- The desk with the script of one more chunk. -/
def pairDeskWith (c : FrameRange) (d : Desk Unit) : Desk Unit :=
  (Encoding.write ((⟨[]⟩ : Script).restrict c) (Encoding.chunkScript pairJob c) d.looked).2

/-- One worker is at work. -/
def soloFloor : Floor Unit where
  desk := pairDeskWith ⟨0, 4⟩ pairDesk
  permits := ⟨1, [0], 1⟩
  left := [⟨5, 9⟩, ⟨10, 14⟩]
  encoders := [⟨⟨0, 4⟩, 0, .working⟩]

/-- Both workers are at work, and one chunk is left. -/
def pairFloor : Floor Unit where
  desk := pairDeskWith ⟨5, 9⟩ soloFloor.desk
  permits := ⟨0, [1, 0], 2⟩
  left := [⟨10, 14⟩]
  encoders := [⟨⟨0, 4⟩, 0, .working⟩, ⟨⟨5, 9⟩, 1, .working⟩]

/-- The moves of the launcher that start an encoder. -/
def launching (permit : Nat) (c : FrameRange) : List Move :=
  [.acquire permit, .look false, .write c (Encoding.chunkScript pairJob c), .start c]

theorem run_pairFloor : Run pairJob ⟨[]⟩ (.opened pairJob pairChunks pairDesk)
    (launching 0 ⟨0, 4⟩ ++ launching 1 ⟨5, 9⟩) pairFloor := by
  have hfirst : Encoding.write ((⟨[]⟩ : Script).restrict ⟨0, 4⟩)
      (Encoding.chunkScript pairJob ⟨0, 4⟩) pairDesk.looked = (.ok (), soloFloor.desk) :=
    Prod.ext (by decide +kernel) rfl
  have hsecond : Encoding.write ((⟨[]⟩ : Script).restrict ⟨5, 9⟩)
      (Encoding.chunkScript pairJob ⟨5, 9⟩) soloFloor.desk.looked = (.ok (), pairFloor.desk) :=
    Prod.ext (by decide +kernel) rfl
  have hflag : soloFloor.desk.isRaised = false := by
    rw [(Work.change_write_ok hfirst).1]
    rfl
  have hsolo : Run pairJob ⟨[]⟩ (.opened pairJob pairChunks pairDesk) (launching 0 ⟨0, 4⟩)
      soloFloor := run_launch rfl rfl rfl rfl hfirst
  have hpair : Run pairJob ⟨[]⟩ soloFloor (launching 1 ⟨5, 9⟩) pairFloor :=
    run_launch rfl rfl rfl hflag hsecond
  exact hsolo.trans hpair

theorem run_orderly_pair : (pairChunks.map FrameRange.start).Nodup ∧
    Run pairJob ⟨[]⟩ (.opened pairJob pairChunks pairDesk)
      (launching 0 ⟨0, 4⟩ ++ launching 1 ⟨5, 9⟩) pairFloor ∧
    pairFloor.active.length = 2 ∧
    Orderly pairJob ⟨[]⟩ pairChunks (launching 0 ⟨0, 4⟩ ++ launching 1 ⟨5, 9⟩) pairFloor := by
  have hstarts : (pairChunks.map FrameRange.start).Nodup := by decide
  exact ⟨hstarts, run_pairFloor, rfl, run_orderly hstarts run_pairFloor⟩

end Crew

end Restoration
