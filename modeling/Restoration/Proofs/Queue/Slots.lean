import Mathlib
import Restoration.Queue.Slots

/-!
# Every course of the slots

A ticket waits, or some slot has it, or it is recorded. What a slot has and what is recorded account
for all that was received, called and finished before. So once the slots are gone, every job is told
of once, with the outcome that its handler returned or as untouched:

    received ++ waiting = tickets jobs
    slots ++ records ~ received, called, finished        each by what it shows of a slot
-/

namespace Restoration

open Queue (Outcome byIndex)

namespace Slots

variable {ε α : Type} {jobs : List Job} {s t u : Floor ε} {x y : Slot ε} {m : Move ε}
  {moves more : List (Move ε)}

/-! ## What was done -/

/-- The ticket that is received by the move. -/
def Move.received : Move ε → List Ticket
  | receive t => [t]
  | _ => []

/-- The ticket whose job the handler is called for. -/
def Move.called : Move ε → List Ticket
  | call t => [t]
  | _ => []

/-- The ticket for which the handler returns, and the outcome. -/
def Move.finished : Move ε → List (Ticket × Outcome ε)
  | finish t outcome => [(t, outcome)]
  | _ => []

/-- Is it the move of somebody who asks the work to stop? -/
def Move.isRaise : Move ε → Bool
  | raise => true
  | _ => false

/-- The tickets for which the handler was called. -/
def calledIn (moves : List (Move ε)) : List Ticket := moves.flatMap Move.called

/-- The outcomes that the handler returned. -/
def finishedIn (moves : List (Move ε)) : List (Ticket × Outcome ε) := moves.flatMap Move.finished

/-- The tickets that were received. -/
def receivedIn (moves : List (Move ε)) : List Ticket := moves.flatMap Move.received

/-- The ticket that the slot has. -/
def Slot.holds : Slot ε → List Ticket
  | loaded t | handling t | handled t _ => [t]
  | idle | admitted | gone => []

/-- The ticket for which the slot called the handler. -/
def Slot.called : Slot ε → List Ticket
  | handling t | handled t _ => [t]
  | idle | admitted | loaded _ | gone => []

/-- The outcome that the slot is to record. -/
def Slot.finished : Slot ε → List (Ticket × Outcome ε)
  | handled t outcome => [(t, outcome)]
  | idle | admitted | loaded _ | handling _ | gone => []

/-- Is the handler at work for the slot? -/
def Slot.isHandling : Slot ε → Bool
  | handling _ => true
  | _ => false

theorem tickets_nodup (jobs : List Job) : (tickets jobs).Nodup := by
  have hplaces : (tickets jobs).map Ticket.place = List.range' 0 jobs.length := by
    rw [tickets, List.map_map]
    exact List.zipIdx_map_snd 0 jobs
  exact .of_map Ticket.place (hplaces ▸ List.nodup_range')

/-! ## One move -/

/-- A move of the slot behind some others. -/
theorem Step.among {raised : Bool} {waiting : List Ticket} {records : List (Ticket × Outcome ε)}
    {after : List (Slot ε)} (before : List (Slot ε))
    (turn : Turn ⟨raised, waiting, before ++ x :: after, records⟩ x m y) :
    Step ⟨raised, waiting, before ++ x :: after, records⟩ m
      ⟨raised, m.leaves waiting, before ++ y :: after, records ++ m.told⟩ :=
  .turn rfl turn

/-- What the slots show and what is recorded grow together by what the move adds. -/
theorem Step.account {shown : Slot ε → List α} {kept : Ticket × Outcome ε → α}
    {added : Move ε → List α}
    (hturn : ∀ {s x m y}, Turn s x m y → (shown y ++ m.told.map kept).Perm (shown x ++ added m))
    (hraise : added .raise = []) (h : Step s m t) :
    (t.slots.flatMap shown ++ t.records.map kept).Perm
      (s.slots.flatMap shown ++ s.records.map kept ++ added m) := by
  classical
  cases h with
  | raise => simp [hraise]
  | turn here turn =>
    refine List.perm_iff_count.2 fun a => ?_
    have hslot := (hturn turn).count_eq a
    simp only [here, List.flatMap_append, List.flatMap_cons, List.map_append, List.count_append]
      at hslot ⊢
    omega

/-- Jobs are received in the order in which they wait. -/
theorem Step.received (h : Step s m t) : m.received ++ t.waiting = s.waiting := by
  cases h with
  | raise => rfl
  | turn here turn =>
    cases turn with
    | receive next => simp [Move.received, Move.leaves, next]
    | _ => rfl

theorem Step.length_slots (h : Step s m t) : t.slots.length = s.slots.length := by
  cases h with
  | raise => rfl
  | turn here turn => simp [here]

theorem Step.raised (h : Step s m t) (hm : m.isRaise = false) : t.raised = s.raised := by
  cases h with
  | raise => cases hm
  | turn => rfl

/-- A slot leaves only for a raised flag or because nobody waits. -/
def Floor.Justified (s : Floor ε) : Prop :=
  ∀ x ∈ s.slots, x.isGone = true → s.raised = true ∨ s.waiting = []

theorem Step.justified (h : Step s m t) (hs : s.Justified) : t.Justified := by
  have hwaiting : s.waiting = [] → t.waiting = [] := by
    intro hnone
    have hreceived := h.received
    rw [hnone] at hreceived
    exact (List.append_eq_nil_iff.1 hreceived).2
  intro z hz hgone
  cases h with
  | raise => exact .inl rfl
  | @turn before after x y m here turn =>
    have hother : z ∈ before ∨ z ∈ after → s.raised = true ∨ m.leaves s.waiting = [] := by
      intro hmem
      have hold : z ∈ before ++ x :: after :=
        List.mem_append.2 (hmem.imp_right (List.mem_cons_of_mem x))
      exact (hs z (here ▸ hold) hgone).imp_right hwaiting
    rcases List.mem_append.1 hz with hz | hz
    · exact hother (.inl hz)
    rcases List.mem_cons.1 hz with rfl | hz
    · cases turn with
      | @look raised seen =>
        cases raised with
        | true => exact .inl (seen rfl)
        | false => cases hgone
      | quit none_waits => exact .inr none_waits
      | _ => cases hgone
    · exact hother (.inr hz)

/-! ## How many moves are left -/

/-- The most moves that a slot makes before it is gone or receives another job. -/
def Slot.todo : Slot ε → Nat
  | loaded _ => 5
  | handling _ => 4
  | handled .. => 3
  | idle => 2
  | admitted => 1
  | gone => 0

/-- The most moves that the slots make. -/
def Floor.todo (s : Floor ε) : Nat := 5 * s.waiting.length + (s.slots.map Slot.todo).sum

theorem Step.todo (h : Step s m t) (hm : m.isRaise = false) : t.todo < s.todo := by
  cases h with
  | raise => cases hm
  | @turn before after x y m here turn =>
    have hturn : 5 * (m.leaves s.waiting).length + y.todo < 5 * s.waiting.length + x.todo := by
      cases turn with
      | @look raised => cases raised <;> simp [Move.leaves, Slot.todo]
      | receive next =>
        simp only [next, Move.leaves, List.tail_cons, List.length_cons, Slot.todo]
        omega
      | _ => simp [Move.leaves, Slot.todo]
    simp only [Floor.todo, here, List.map_append, List.map_cons, List.sum_append, List.sum_cons]
    omega

theorem Step.todo_raise (h : Step s .raise t) : t.todo = s.todo := by
  cases h with
  | raise => rfl
  | turn here turn => cases turn

/-- As long as some slot is not gone, it can move. -/
theorem exists_step (h : s.isOver = false) : ∃ m t, Step s m t ∧ m.isRaise = false := by
  obtain ⟨x, hx, hstays⟩ := List.all_eq_false.1 h
  obtain ⟨before, after, here⟩ := List.append_of_mem hx
  cases x with
  | idle => exact ⟨_, _, .turn here (.look id), rfl⟩
  | admitted =>
    cases hwaiting : s.waiting with
    | nil => exact ⟨_, _, .turn here (.quit hwaiting), rfl⟩
    | cons t rest => exact ⟨_, _, .turn here (.receive hwaiting), rfl⟩
  | loaded t => exact ⟨_, _, .turn here (.call t), rfl⟩
  | handling t => exact ⟨_, _, .turn here (.finish t (.untouched t.job)), rfl⟩
  | handled t outcome => exact ⟨_, _, .turn here (.record t outcome), rfl⟩
  | gone => exact absurd rfl hstays

/-! ## A whole run -/

/-- What holds behind some moves from the opened floor. -/
structure Sound (q : Queue) (raised : Bool) (moves : List (Move ε)) (s : Floor ε) : Prop where
  length_slots : s.slots.length = q.slots
  received : receivedIn moves ++ s.waiting = tickets q.waiting
  holds : (s.slots.flatMap Slot.holds ++ s.records.map Prod.fst).Perm (receivedIn moves)
  called : (s.slots.flatMap Slot.called ++ s.records.map Prod.fst).Perm (calledIn moves)
  finished : (s.slots.flatMap Slot.finished ++ s.records).Perm (finishedIn moves)
  justified : s.Justified
  raised : s.raised = true → raised = true ∨ moves.any Move.isRaise = true
  todo : moves.countP (!·.isRaise) + s.todo ≤ 5 * q.waiting.length + 2 * q.slots

theorem sound_opened (q : Queue) (raised : Bool) : Sound (ε := ε) q raised [] (.opened q raised) where
  length_slots := List.length_replicate
  received := rfl
  holds := by simp [Floor.opened, Slot.holds, receivedIn]
  called := by simp [Floor.opened, Slot.called, calledIn]
  finished := by simp [Floor.opened, Slot.finished, finishedIn]
  justified x hx hgone := by
    rw [List.eq_of_mem_replicate hx] at hgone
    cases hgone
  raised h := .inl h
  todo := by
    simp [Floor.opened, Floor.todo, tickets, Slot.todo]
    omega

/-- **Every move keeps this.** -/
theorem Sound.step {q : Queue} {raised : Bool} (hs : Sound q raised moves s) (h : Step s m t) :
    Sound q raised (moves ++ [m]) t where
  length_slots := h.length_slots.trans hs.length_slots
  received := by
    rw [receivedIn, List.flatMap_append, List.append_assoc, List.flatMap_singleton, h.received]
    exact hs.received
  holds := by
    rw [receivedIn, List.flatMap_append, List.flatMap_singleton]
    refine (h.account (fun turn => ?_) rfl).trans (hs.holds.append_right _)
    cases turn with
    | look => split <;> rfl
    | _ => rfl
  called := by
    rw [calledIn, List.flatMap_append, List.flatMap_singleton]
    refine (h.account (fun turn => ?_) rfl).trans (hs.called.append_right _)
    cases turn with
    | look => split <;> rfl
    | _ => rfl
  finished := by
    rw [finishedIn, List.flatMap_append, List.flatMap_singleton]
    have hstep : (t.slots.flatMap Slot.finished ++ t.records.map id).Perm
        (s.slots.flatMap Slot.finished ++ s.records.map id ++ m.finished) := by
      refine h.account (fun turn => ?_) rfl
      cases turn with
      | look => split <;> rfl
      | _ => rfl
    rw [List.map_id, List.map_id] at hstep
    exact hstep.trans (hs.finished.append_right _)
  justified := h.justified hs.justified
  raised ht := by
    rw [List.any_append]
    by_cases hm : m.isRaise = false
    · rw [h.raised hm] at ht
      exact (hs.raised ht).imp_right fun hany => by rw [hany, Bool.true_or]
    · exact .inr (by simp [hm])
  todo := by
    have htodo := hs.todo
    rw [List.countP_append]
    by_cases hm : m.isRaise = false
    · have := h.todo hm
      simp [hm]
      omega
    · cases m with
      | raise =>
        rw [h.todo_raise]
        exact htodo
      | _ => exact absurd rfl hm

theorem Run.sound {q : Queue} {raised : Bool} (h : Run (.opened q raised) moves s) :
    Sound q raised moves s := by
  induction h with
  | refl => exact sound_opened q raised
  | step _ step ih => exact ih.step step

namespace Sound

variable {q : Queue} {raised : Bool}

/-- Whom the handler was called for, was received before. -/
theorem called_subperm (hs : Sound q raised moves s) : (calledIn moves).Subperm (receivedIn moves) := by
  have hslots : (s.slots.flatMap Slot.called).Sublist (s.slots.flatMap Slot.holds) :=
    .flatMap_right _ fun x _ => by cases x <;> simp [Slot.called, Slot.holds]
  exact hs.called.symm.subperm.trans
    ((hslots.append_right _).subperm.trans hs.holds.subperm)

theorem received_nodup (hs : Sound q raised moves s) : (receivedIn moves ++ s.waiting).Nodup :=
  hs.received ▸ tickets_nodup q.waiting

theorem called_nodup (hs : Sound q raised moves s) : (calledIn moves).Nodup := by
  obtain ⟨called, hperm, hsub⟩ := hs.called_subperm
  exact hperm.nodup_iff.1 (hsub.nodup (List.nodup_append.1 hs.received_nodup).1)

theorem called_subset (hs : Sound q raised moves s) : calledIn moves ⊆ tickets q.waiting := by
  intro t ht
  rw [← hs.received]
  exact List.mem_append_left _ (hs.called_subperm.subset ht)

/-- No more calls are in progress than there are slots. -/
theorem handling_le (hs : Sound q raised moves s) : s.slots.countP Slot.isHandling ≤ q.slots :=
  hs.length_slots ▸ List.countP_le_length

end Sound

/-! ## Once the slots are gone -/

theorem sorted_byIndex (outcomes : List (Outcome ε)) :
    (byIndex outcomes).Pairwise fun a b => a.job.index ≤ b.job.index := by
  have hsorted : (byIndex outcomes).Pairwise fun a b => decide (a.job.index ≤ b.job.index) := by
    refine List.pairwise_mergeSort (fun a b c hab hbc => ?_) (fun a b => ?_) outcomes
    · exact decide_eq_true (Nat.le_trans (of_decide_eq_true hab) (of_decide_eq_true hbc))
    · simpa using Nat.le_total a.job.index b.job.index
  exact hsorted.imp of_decide_eq_true

/-- Slots that are gone show nothing of what they did. -/
theorem Floor.flatMap_gone {shown : Slot ε → List α} (hgone : shown .gone = [])
    (h : s.isOver = true) : s.slots.flatMap shown = [] := by
  refine List.flatMap_eq_nil_iff.2 fun x hx => ?_
  have hx := List.all_eq_true.1 h x hx
  cases x with
  | gone => exact hgone
  | _ => cases hx

/-- What is told of the jobs that were pushed, once the slots are gone. -/
structure Told (jobs : List Job) (moves : List (Move ε)) (s : Floor ε) : Prop where
  /-- Every job is told of once, under its place among those that were pushed, and no other. -/
  once : (s.outcomes.map fun told => (told.1.job, told.1.place)).Perm jobs.zipIdx
  reported : s.report.Perm (s.outcomes.map Prod.snd)
  sorted : s.report.Pairwise fun a b => a.job.index ≤ b.job.index
  /-- A job whose handler was called has the outcome that the handler returned. -/
  handled : ∀ t outcome, (t, outcome) ∈ s.outcomes → t ∈ calledIn moves →
    (t, outcome) ∈ finishedIn moves
  /-- Every other job is as it was pushed, and cancelled. -/
  untouched : ∀ t outcome, (t, outcome) ∈ s.outcomes → t ∉ calledIn moves →
    outcome.job = t.job ∧ outcome.result = .ok .cancelled

theorem Sound.told {q : Queue} {raised : Bool} (hs : Sound q raised moves s)
    (h : s.isOver = true) : Told q.waiting moves s := by
  have hreceived := hs.holds
  have hcalled := hs.called
  have hfinished := hs.finished
  rw [Floor.flatMap_gone rfl h, List.nil_append] at hreceived hcalled hfinished
  have hrecords {t : Ticket} {outcome : Outcome ε} (hmem : (t, outcome) ∈ s.outcomes) :
      (t, outcome) ∈ s.records ∨ t ∈ s.waiting ∧ outcome = .untouched t.job := by
    refine (List.mem_append.1 hmem).imp_right fun hmem => ?_
    obtain ⟨t', ht', heq⟩ := List.mem_map.1 hmem
    cases heq
    exact ⟨ht', rfl⟩
  refine {
    once := ?_
    reported := List.mergeSort_perm _ _
    sorted := ?_
    handled := fun t outcome hmem hcall => ?_
    untouched := fun t outcome hmem hcall => ?_ }
  · have htickets : (s.outcomes.map Prod.fst).Perm (tickets q.waiting) := by
      have hsplit : s.outcomes.map Prod.fst = s.records.map Prod.fst ++ s.waiting := by
        simp [Floor.outcomes, Function.comp_def]
      rw [hsplit, ← hs.received]
      exact hreceived.append_right _
    simpa [tickets, Function.comp_def] using htickets.map fun t => (t.job, t.place)
  · exact sorted_byIndex _
  · rcases hrecords hmem with hmem | ⟨hwaits, -⟩
    · exact hfinished.subset hmem
    · exact absurd hwaits
        (List.disjoint_of_nodup_append hs.received_nodup (hs.called_subperm.subset hcall))
  · rcases hrecords hmem with hmem | ⟨-, rfl⟩
    · exact absurd (hcalled.subset (List.mem_map_of_mem hmem)) hcall
    · exact ⟨rfl, rfl⟩

/-! ## The queue -/

/-- A queue to which the jobs are pushed one after the other. -/
def filled (slots : Nat) (jobs : List Job) : Queue := jobs.foldl Queue.push (.ofSlots slots)

theorem slots_filled (slots : Nat) (jobs : List Job) : (filled slots jobs).slots = max 1 slots := by
  suffices h : ∀ q : Queue, (jobs.foldl Queue.push q).slots = q.slots from h (.ofSlots slots)
  intro q
  induction jobs generalizing q with
  | nil => rfl
  | cons job jobs ih => exact ih (q.push job)

theorem waiting_filled (slots : Nat) (jobs : List Job) : (filled slots jobs).waiting = jobs := by
  suffices h : ∀ q : Queue, (jobs.foldl Queue.push q).waiting = q.waiting ++ jobs from
    h (.ofSlots slots)
  intro q
  induction jobs generalizing q with
  | nil => exact (List.append_nil _).symm
  | cons job jobs ih =>
    rw [List.foldl_cons, ih (q.push job), Queue.push, List.append_assoc, List.singleton_append]

/-- What holds of the slots behind some moves, whoever made them. -/
structure Orderly (slots : Nat) (jobs : List Job) (raised : Bool) (moves : List (Move ε))
    (s : Floor ε) : Prop where
  /-- The handler is called for jobs that were pushed, and for none twice. -/
  called : calledIn moves ⊆ tickets jobs ∧ (calledIn moves).Nodup
  bounded : s.slots.countP Slot.isHandling ≤ max 1 slots
  /-- As long as the slots are not all gone, one of them can move. -/
  going : s.isOver = false → ∃ m t, Step s m t ∧ m.isRaise = false
  /-- The slots are gone after that many moves. -/
  ending : moves.countP (!·.isRaise) ≤ 5 * jobs.length + 2 * max 1 slots
  told : s.isOver = true → Told jobs moves s
  /-- If nobody asked the work to stop, every job was handled. -/
  undisturbed : s.isOver = true → raised = false → moves.any Move.isRaise = false →
    tickets jobs ⊆ calledIn moves

/-- **In every interleaving each job is told of once**, with what its handler returned if it was
called. -/
theorem each_told_once {slots : Nat} {raised : Bool}
    (h : Run (.opened (filled slots jobs) raised) moves s) : Orderly slots jobs raised moves s := by
  have hs := h.sound
  have htodo := hs.todo
  rw [waiting_filled, slots_filled] at htodo
  refine {
    called := ⟨waiting_filled slots jobs ▸ hs.called_subset, hs.called_nodup⟩
    bounded := slots_filled slots jobs ▸ hs.handling_le
    going := exists_step
    ending := by omega
    told := fun hover => waiting_filled slots jobs ▸ hs.told hover
    undisturbed := fun hover hdown hnone => ?_ }
  have hnobody : s.waiting = [] := by
    have hpos : 0 < s.slots.length := by
      rw [hs.length_slots, slots_filled]
      omega
    have hfirst := List.getElem_mem hpos
    refine (hs.justified _ hfirst (List.all_eq_true.1 hover _ hfirst)).resolve_left fun hraised => ?_
    rcases hs.raised hraised with hup | hany
    · exact Bool.noConfusion (hdown.symm.trans hup)
    · exact Bool.noConfusion (hnone.symm.trans hany)
  have hreceived := hs.received
  rw [hnobody, List.append_nil, waiting_filled] at hreceived
  have hholds := hs.holds
  have hcalled := hs.called
  rw [Floor.flatMap_gone rfl hover, List.nil_append] at hholds hcalled
  rw [← hreceived]
  exact (hholds.symm.trans hcalled).subset

/-- A job under an index. -/
def clipJob (index : Nat) : Job := { source := ⟨"/clip.avi"⟩, directory := ⟨"/jobs"⟩, index }

/-- Three jobs, two of them under one index. -/
def threeJobs : List Job := [clipJob 2, clipJob 1, clipJob 1]

/-- The handler returns the first job under another index. -/
def firstOutcome : Outcome Unit := ⟨clipJob 3, .ok (.incomplete 7 2 1)⟩

/-- The handler fails on the second job. -/
def secondOutcome : Outcome Unit := ⟨clipJob 1, .error ()⟩

/-- Two jobs are handled side by side, and both slots leave once the flag is raised. -/
def raisedMoves : List (Move Unit) :=
  [.look false, .look false, .receive ⟨0, clipJob 2⟩, .receive ⟨1, clipJob 1⟩,
    .call ⟨0, clipJob 2⟩, .call ⟨1, clipJob 1⟩, .raise,
    .finish ⟨0, clipJob 2⟩ firstOutcome, .record ⟨0, clipJob 2⟩ firstOutcome, .look true,
    .finish ⟨1, clipJob 1⟩ secondOutcome, .record ⟨1, clipJob 1⟩ secondOutcome, .look true]

/-- The third job still waits when the slots are gone. -/
def raisedFloor : Floor Unit where
  raised := true
  waiting := [⟨2, clipJob 1⟩]
  slots := [.gone, .gone]
  records := [(⟨0, clipJob 2⟩, firstOutcome), (⟨1, clipJob 1⟩, secondOutcome)]

theorem each_told_once_raised :
    Run (.opened (filled 2 threeJobs) false) raisedMoves raisedFloor ∧ raisedFloor.isOver = true ∧
      Orderly 2 threeJobs false raisedMoves raisedFloor := by
  have hlooked : Run (.opened (filled 2 threeJobs) false) [.look false, .look false]
      (⟨false, tickets threeJobs, [.admitted, .admitted], []⟩ : Floor Unit) :=
    (Run.refl.step (.among [] (.look id))).step (.among [.admitted] (.look id))
  have hcalled := (((hlooked.step (.among [] (.receive rfl))).step
    (.among [_] (.receive rfl))).step (.among [] (.call _))).step (.among [_] (.call _))
  have hfirst := ((hcalled.step .raise).step (.among [] (.finish _ firstOutcome))).step
    (.among [] (.record _ firstOutcome))
  have hsecond := ((hfirst.step (.among [] (.look id))).step
    (.among [.gone] (.finish _ secondOutcome))).step (.among [.gone] (.record _ secondOutcome))
  have hrun : Run (.opened (filled 2 threeJobs) false) raisedMoves raisedFloor :=
    hsecond.step (.among [.gone] (.look id))
  exact ⟨hrun, rfl, each_told_once hrun⟩

/-! ## A single slot at work -/

theorem Run.trans (h : Run s moves t) (h' : Run t more u) : Run s (moves ++ more) u := by
  induction h' with
  | refl => simpa using h
  | step _ step ih =>
    rw [← List.append_assoc]
    exact ih.step step

/-- A move by which nothing is received or recorded. -/
theorem Step.quiet {before after : List (Slot ε)} (here : s.slots = before ++ x :: after)
    (turn : Turn s x m y) (hleaves : m.leaves s.waiting = s.waiting) (htold : m.told = []) :
    Step s m { s with slots := before ++ y :: after } := by
  have hstep := Step.turn here turn
  rw [hleaves, htold, List.append_nil] at hstep
  exact hstep

/-- The floor with some slots gone and the others idle. -/
def Floor.idling (raised : Bool) (waiting : List Ticket) (records : List (Ticket × Outcome ε))
    (left others : Nat) : Floor ε where
  raised := raised
  waiting := waiting
  slots := .replicate left .gone ++ .replicate others .idle
  records := records

section InOrder

variable {raised : Bool} {waiting : List Ticket} {records : List (Ticket × Outcome ε)}
  {left others : Nat}

/-- If the flag is raised or nobody waits, an idle slot leaves. -/
theorem exists_run_leave (h : raised = true ∨ waiting = []) :
    ∃ moves, Run (Floor.idling raised waiting records left (others + 1)) moves
      (.idling raised waiting records (left + 1) others) := by
  have hgone : List.replicate (left + 1) (Slot.gone (ε := ε)) ++ List.replicate others .idle =
      List.replicate left .gone ++ .gone :: List.replicate others .idle := by
    rw [List.replicate_succ', List.append_assoc, List.singleton_append]
  rw [Floor.idling, Floor.idling, hgone]
  cases raised with
  | true => exact ⟨_, Run.refl.step (.quiet rfl (.look id) rfl rfl)⟩
  | false =>
    have hnone : waiting = [] := h.resolve_left Bool.false_ne_true
    exact ⟨_, (Run.refl.step (.quiet rfl (.look id) rfl rfl)).step (.quiet rfl (.quit hnone) rfl rfl)⟩

theorem exists_run_leaveAll (h : raised = true ∨ waiting = []) :
    ∃ moves, Run (Floor.idling raised waiting records left others) moves
      (.idling raised waiting records (left + others) 0) := by
  induction others generalizing left with
  | zero => exact ⟨_, .refl⟩
  | succ others ih =>
    obtain ⟨moves, hleave⟩ := exists_run_leave h
    obtain ⟨more, hothers⟩ := ih
    rw [Nat.add_right_comm] at hothers
    exact ⟨_, hleave.trans hothers⟩

/-- The first slot handles the first job that waits. -/
theorem run_handle {t : Ticket} {others : List (Slot ε)} (outcome : Outcome ε) :
    Run ⟨false, t :: waiting, .idle :: others, records⟩
      [.look false, .receive t, .call t, .finish t outcome, .record t outcome]
      ⟨false, waiting, .idle :: others, records ++ [(t, outcome)]⟩ := by
  have hlooked : Run ⟨false, t :: waiting, .idle :: others, records⟩ _ _ :=
    Run.refl.step (.among [] (.look id))
  have hcalled := (hlooked.step (.among [] (.receive rfl))).step (.among [] (.call t))
  have hrecorded := (hcalled.step (.among [] (.finish t outcome))).step (.among [] (.record t outcome))
  simpa [Move.leaves, Move.told] using hrecorded

/-- From a floor of idle slots, the first of them can handle one job after the other. -/
theorem exists_run_inOrder {σ : Type} {stopped : σ → Bool} {handle : Job → σ → Outcome ε × σ}
    {v w : σ} {outcomes : List (Outcome ε)}
    (h : Queue.drainInOrder stopped handle (waiting.map Ticket.job) v = (outcomes, w)) :
    ∃ moves t, Run (.idling (stopped v) waiting records 0 (others + 1)) moves t ∧ t.isOver = true ∧
      t.outcomes.map Prod.snd = records.map Prod.snd ++ outcomes := by
  have hover (raised : Bool) (waiting : List Ticket) (records : List (Ticket × Outcome ε)) :
      (Floor.idling raised waiting records (0 + (others + 1)) 0).isOver = true := by
    simp [Floor.idling, Floor.isOver, Slot.isGone]
  induction waiting generalizing v records outcomes with
  | nil =>
    cases h
    obtain ⟨moves, hleave⟩ := exists_run_leaveAll (.inr rfl)
    exact ⟨_, _, hleave, hover .., by simp [Floor.outcomes, Floor.idling]⟩
  | cons t rest ih =>
    rw [List.map_cons, Queue.drainInOrder] at h
    by_cases hstopped : stopped v = true
    · rw [if_pos hstopped] at h
      cases h
      obtain ⟨moves, hleave⟩ := exists_run_leaveAll (.inl hstopped)
      refine ⟨_, _, hleave, hover .., ?_⟩
      simp [Floor.outcomes, Floor.idling]
    · rw [if_neg hstopped] at h
      rcases hhandled : handle t.job v with ⟨outcome, v₁⟩
      rcases hrest : Queue.drainInOrder stopped handle (rest.map Ticket.job) v₁ with ⟨told, v₂⟩
      simp only [hhandled, hrest] at h
      cases h
      obtain ⟨moves, u, hrun, hgone, htold⟩ := @ih (records ++ [(t, outcome)]) v₁ told hrest
      obtain ⟨flagged, hflag⟩ : ∃ moves, Run (ε := ε)
          (.idling (stopped v) (t :: rest) records 0 (others + 1)) moves
          (.idling (stopped v₁) rest (records ++ [(t, outcome)]) 0 (others + 1)) := by
        rw [Bool.not_eq_true] at hstopped
        rw [hstopped]
        cases stopped v₁ with
        | false => exact ⟨_, run_handle outcome⟩
        | true => exact ⟨_, (run_handle outcome).step .raise⟩
      exact ⟨_, u, hflag.trans hrun, hgone, by simpa using htold⟩

end InOrder

/-- **Handling the jobs one after the other is one of the courses** that the slots can take. -/
theorem exists_run_of_drain {σ : Type} {q : Queue} {stopped : σ → Bool}
    {handle : Job → σ → Outcome ε × σ} {v w : σ} {outcomes : List (Outcome ε)} (hslots : 0 < q.slots)
    (h : q.drain stopped handle v = (outcomes, w)) :
    ∃ moves t, Run (.opened q (stopped v)) moves t ∧ t.isOver = true ∧ t.report = outcomes := by
  obtain ⟨others, hothers⟩ := Nat.exists_eq_add_one_of_ne_zero (Nat.ne_of_gt hslots)
  rcases hdrain : Queue.drainInOrder stopped handle q.waiting v with ⟨told, v₁⟩
  simp only [Queue.drain, hdrain] at h
  cases h
  have hjobs : (tickets q.waiting).map Ticket.job = q.waiting := by
    simp [tickets, Function.comp_def]
  have hopened : Floor.opened (ε := ε) q (stopped v) =
      .idling (stopped v) (tickets q.waiting) [] 0 (others + 1) := by
    rw [Floor.opened, hothers]
    rfl
  obtain ⟨moves, t, hrun, hover, htold⟩ := exists_run_inOrder (hjobs.symm ▸ hdrain)
  exact ⟨moves, t, hopened ▸ hrun, hover, congrArg byIndex htold⟩

end Slots

end Restoration
