import Mathlib.Data.List.Induction
import Mathlib.Order.Bounds.Basic
import Restoration.Queue.Clients

/-!
# The indices that a queue gives away

The counter of a queue only grows. Raising it puts it above some jobs, and an index that it gives away
is the counter itself, so it stays above all indices that were shown or that a client still holds:

    index k was shown, or some client is about to show it      k < nextIndex
    index i is given away                                      i = nextIndex, which moves on

Whatever the clients do in between, an index that is given away is above all those ahead of it.
-/

namespace Restoration

namespace Queue

variable (q : Queue)

theorem indexAbove_append (jobs : List Job) (job : Job) :
    indexAbove (jobs ++ [job]) = max (indexAbove jobs) (job.index + 1) := by
  rw [indexAbove, List.foldl_append]
  rfl

/-- The next index is the first above those of all jobs. -/
theorem isLeast_indexAbove (jobs : List Job) :
    IsLeast {n | 1 ≤ n ∧ ∀ j ∈ jobs, j.index < n} (indexAbove jobs) := by
  induction jobs using List.reverseRecOn with
  | nil => exact ⟨⟨Nat.le_refl 1, fun _ hj => nomatch hj⟩, fun _ hn => hn.1⟩
  | append_singleton jobs job ih =>
    obtain ⟨⟨hone, habove⟩, hleast⟩ := ih
    rw [indexAbove_append]
    refine ⟨⟨hone.trans (Nat.le_max_left _ _), fun j hj => ?_⟩, fun n hn => ?_⟩
    · rcases List.mem_append.1 hj with hj | hj
      · exact (habove j hj).trans_le (Nat.le_max_left _ _)
      · exact List.mem_singleton.1 hj ▸ Nat.le_max_right _ _
    · exact Nat.max_le.2 ⟨hleast ⟨hn.1, fun j hj => hn.2 j (List.mem_append_left _ hj)⟩,
        hn.2 job (List.mem_append_right _ List.mem_cons_self)⟩

theorem nextIndex_le_seeded (jobs : List Job) : q.nextIndex ≤ (q.seeded jobs).nextIndex :=
  Nat.le_max_left _ _

theorem index_lt_seeded {jobs : List Job} {job : Job} (h : job ∈ jobs) :
    job.index < (q.seeded jobs).nextIndex :=
  ((isLeast_indexAbove jobs).1.2 job h).trans_le (Nat.le_max_right _ _)

theorem nextIndex_le_raised (job : Job) : q.nextIndex ≤ (q.raised job).nextIndex :=
  Nat.le_max_left _ _

theorem index_lt_raised (job : Job) : job.index < (q.raised job).nextIndex := Nat.le_max_right _ _

theorem push_eq (job : Job) : q.push job = (q.raised job).sent job := rfl

end Queue

namespace Clients

variable {q r : Queue} {x y : Client} {m : Move} {moves before after : List Move} {s t u : Office}
  {ks : List Nat} {i : Nat}

/-! ## Indices -/

/-- The indices of the jobs that the call brings along. -/
def Call.indices (c : Call) : List Nat := c.jobs.map Job.index

/-- The indices that the client is about to show. -/
def Client.holds : Client → List Nat
  | sending job => [job.index]
  | served c index => c.indices ++ index.toList
  | idle | calling _ => []

/-- The indices that the move shows: recovered, pushed, given away or handed over. -/
def Move.shown : Move → List Nat
  | raise jobs => jobs.map Job.index
  | allot index => [index]
  | create job => [job.index]
  | send job => [job.index]
  | leave c index => c.indices ++ index.toList
  | call _ => []

/-- The index that the move gives away. -/
def Move.given : Move → List Nat
  | allot index => [index]
  | create job => [job.index]
  | _ => []

/-- The indices that some moves show. -/
def shownIn (moves : List Move) : List Nat := moves.flatMap Move.shown

/-- The indices that some moves give away. -/
def givenIn (moves : List Move) : List Nat := moves.flatMap Move.given

theorem shownIn_append (moves more : List Move) :
    shownIn (moves ++ more) = shownIn moves ++ shownIn more := List.flatMap_append

theorem givenIn_append (moves more : List Move) :
    givenIn (moves ++ more) = givenIn moves ++ givenIn more := List.flatMap_append

theorem shownIn_singleton (m : Move) : shownIn [m] = m.shown := List.flatMap_singleton _ _

theorem givenIn_singleton (m : Move) : givenIn [m] = m.given := List.flatMap_singleton _ _

/-- What is given away is shown. -/
theorem Move.shown_of_given (h : i ∈ m.given) : i ∈ m.shown := by
  cases m with
  | allot | create => exact h
  | _ => cases h

theorem Move.nodup_given (m : Move) : m.given.Nodup := by
  cases m <;> simp [given]

theorem shownIn_of_givenIn (h : i ∈ givenIn moves) : i ∈ shownIn moves := by
  obtain ⟨m, hm, hi⟩ := List.mem_flatMap.1 h
  exact List.mem_flatMap.2 ⟨m, hm, Move.shown_of_given hi⟩

/-! ## One move -/

/-- No move lowers the counter. -/
theorem Turn.nextIndex_le (h : Turn q x m r y) : q.nextIndex ≤ r.nextIndex := by
  cases h with
  | seed jobs => exact q.nextIndex_le_seeded jobs
  | push job => exact q.nextIndex_le_raised job
  | allocate counted | newJob counted =>
    cases counted
    exact Nat.le_succ _
  | call | send | leave => exact Nat.le_refl _

/-- An index that is given away is the counter itself, which moves on. -/
theorem Turn.given_eq (h : Turn q x m r y) (hi : i ∈ m.given) :
    i = q.nextIndex ∧ r.nextIndex = i + 1 := by
  cases h with
  | allocate counted | newJob counted =>
    cases counted
    cases List.mem_singleton.1 hi
    exact ⟨rfl, rfl⟩
  | _ => cases hi

/-- What a move shows is what the client held already, or the counter just went past it. -/
theorem Turn.shown_lt (h : Turn q x m r y) (hx : ∀ k ∈ x.holds, k < q.nextIndex) :
    ∀ k ∈ m.shown, k < r.nextIndex := by
  intro k hk
  cases h with
  | call => cases hk
  | seed jobs =>
    obtain ⟨job, hjob, rfl⟩ := List.mem_map.1 hk
    exact q.index_lt_seeded hjob
  | push job =>
    obtain ⟨other, hother, rfl⟩ := List.mem_map.1 hk
    exact List.mem_singleton.1 hother ▸ q.index_lt_raised job
  | allocate counted | newJob counted =>
    cases counted
    exact List.mem_singleton.1 hk ▸ Nat.lt_succ_self _
  | send | leave => exact hx k hk

/-- What the client holds behind a move was shown by the move or held before. -/
theorem Turn.holds_subset (h : Turn q x m r y) : ∀ k ∈ y.holds, k ∈ m.shown := by
  intro k hk
  cases h with
  | call | leave => cases hk
  | seed jobs => simpa [Client.holds, Call.indices, Call.jobs, Move.shown] using hk
  | push job => simpa [Client.holds, Move.shown] using hk
  | send job => simpa [Client.holds, Call.indices, Call.jobs, Move.shown] using hk
  | allocate | newJob => simpa [Client.holds, Call.indices, Call.jobs, Move.shown] using hk

/-- The counter is above all indices that were shown, and above all that clients hold. -/
structure Office.Above (s : Office) (ks : List Nat) : Prop where
  positive : 1 ≤ s.queue.nextIndex
  shown : ∀ k ∈ ks, k < s.queue.nextIndex
  held : ∀ x ∈ s.clients, ∀ k ∈ x.holds, k < s.queue.nextIndex

theorem Step.above (h : Step s m t) (hs : s.Above ks) : t.Above (ks ++ m.shown) := by
  cases h with
  | turn _ _ turn =>
    have hle := turn.nextIndex_le
    have hx := hs.held _ (List.mem_append_right _ List.mem_cons_self)
    have hm := turn.shown_lt hx
    refine ⟨hs.positive.trans hle, fun k hk => ?_, fun z hz k hk => ?_⟩
    · rcases List.mem_append.1 hk with hk | hk
      · exact (hs.shown k hk).trans_le hle
      · exact hm k hk
    · -- the client that moved holds what it showed, all others hold what they held
      rcases List.mem_append.1 hz with hz | hz
      · exact (hs.held z (List.mem_append_left _ hz) k hk).trans_le hle
      · rcases List.mem_cons.1 hz with rfl | hz
        · exact hm k (turn.holds_subset k hk)
        · exact (hs.held z (List.mem_append_right _ (List.mem_cons_of_mem _ hz)) k hk).trans_le hle

theorem Step.given_eq (h : Step s m t) (hi : i ∈ m.given) : i = s.queue.nextIndex := by
  cases h with
  | turn _ _ turn => exact (turn.given_eq hi).1

/-- A client that is alone makes its move. -/
theorem Step.alone (h : Turn q x m r y) : Step ⟨q, [x]⟩ m ⟨r, [y]⟩ := .turn [] [] h

/-! ## Every course -/

theorem Run.above (run : Run s moves t) (hs : s.Above []) : t.Above (shownIn moves) := by
  induction run with
  | refl => exact hs
  | step _ step ih =>
    rw [shownIn_append, shownIn_singleton]
    exact step.above ih

/-- A run comes to each of its moves. -/
theorem Run.until (run : Run s (before ++ m :: after) u) :
    ∃ t v, Run s before t ∧ Step t m v := by
  generalize hmoves : before ++ m :: after = moves at run
  induction run generalizing after with
  | refl => simp at hmoves
  | @step moves n t u run step ih =>
    rcases List.eq_nil_or_concat after with rfl | ⟨rest, last, rfl⟩
    · obtain ⟨rfl, hm⟩ := List.append_inj' hmoves rfl
      cases hm
      exact ⟨t, u, run, step⟩
    · refine @ih rest ?_
      rw [List.concat_eq_append, ← List.cons_append, ← List.append_assoc] at hmoves
      exact (List.append_inj' hmoves rfl).1

/-- An index that is given away is above all that were shown before. -/
theorem Run.lt_of_given (run : Run s (before ++ m :: after) u) (hs : s.Above []) (hi : i ∈ m.given) :
    1 ≤ i ∧ ∀ k ∈ shownIn before, k < i := by
  obtain ⟨t, v, ahead, step⟩ := run.until
  have habove := ahead.above hs
  rw [step.given_eq hi]
  exact ⟨habove.positive, habove.shown⟩

theorem Run.nodup_given (run : Run s moves t) (hs : s.Above []) : (givenIn moves).Nodup := by
  induction run with
  | refl => exact List.nodup_nil
  | @step moves m t u run step ih =>
    rw [givenIn_append, givenIn_singleton]
    refine List.nodup_append.2 ⟨ih, m.nodup_given, fun k hk i hi hki => ?_⟩
    have hlt : k < i := step.given_eq hi ▸ (run.above hs).shown k (shownIn_of_givenIn hk)
    omega

theorem above_opened (slots clients : Nat) : (Office.opened slots clients).Above [] where
  positive := Nat.le_refl 1
  shown := fun _ hk => nomatch hk
  held := by
    intro x hx k hk
    cases List.eq_of_mem_replicate hx
    cases hk

/-- With nobody in between, a call makes of the queue what its function does. -/
theorem run_alone (q : Queue) (c : Call) :
    ∃ moves index, Run ⟨q, [.idle]⟩ (moves ++ [.leave c index]) ⟨c.perform q, [.idle]⟩ := by
  have called : Run ⟨q, [.idle]⟩ [.call c] ⟨q, [.calling c]⟩ := Run.refl.step (Step.alone (.call c))
  cases c with
  | seed jobs => exact ⟨_, none, (called.step (Step.alone (.seed jobs))).step (Step.alone (.leave _ _))⟩
  | allocate => exact ⟨_, _, (called.step (Step.alone (.allocate rfl))).step (Step.alone (.leave _ _))⟩
  | newJob source directory =>
    exact ⟨_, _, (called.step (Step.alone (.newJob rfl))).step (Step.alone (.leave _ _))⟩
  | push job =>
    have raised := called.step (Step.alone (.push job))
    rw [Call.perform, Queue.push_eq]
    exact ⟨_, none, (raised.step (Step.alone (.send job))).step (Step.alone (.leave _ none))⟩

/-- **Indices are fresh** in every course of any number of clients: an index that is given away, be it
alone or with a new job, is at least one and above all indices that were recovered, pushed, given away
or handed over before it, and no index is given away twice. -/
theorem indices_fresh {slots clients : Nat} (run : Run (.opened slots clients) moves s) :
    (∀ before m after, moves = before ++ m :: after → ∀ i ∈ m.given,
        1 ≤ i ∧ ∀ k ∈ shownIn before, k < i) ∧
      (givenIn moves).Nodup := by
  refine ⟨fun before m after hmoves i hi => ?_, run.nodup_given (above_opened slots clients)⟩
  subst hmoves
  exact run.lt_of_given (above_opened slots clients) hi

/-- A client asks for an index while another one pushes a job, before and after the counter is above
that job. -/
theorem indices_fresh_overtaken :
    let job : Job := { source := ⟨"a"⟩, directory := ⟨"/jobs"⟩, index := 7 }
    let created : Job := { source := ⟨"b"⟩, directory := ⟨"/jobs"⟩, index := 8 }
    let before : List Move := [.call (.push job), .call .allocate, .allot 1, .raise [job],
      .leave .allocate (some 1), .call (.newJob ⟨"b"⟩ ⟨"/jobs"⟩)]
    let moves := before ++ .create created :: [.send job]
    (∃ s, Run (.opened 1 2) moves s) ∧ (∀ k ∈ shownIn before, k < 8) ∧ (givenIn moves).Nodup ∧
      shownIn before = [1, 7, 1] ∧ givenIn moves = [1, 8] := by
  intro job created before moves
  have opened : Run (.opened 1 2) [] ⟨.ofSlots 1, [.idle, .idle]⟩ := .refl
  have pushing := opened.step (.turn [] [.idle] (.call (.push job)))
  have asking := pushing.step (.turn [.calling (.push job)] [] (.call .allocate))
  have allotted := asking.step (.turn [.calling (.push job)] [] (.allocate rfl))
  have raised := allotted.step (.turn [] [.served .allocate (some 1)] (.push job))
  have left := raised.step (.turn [.sending job] [] (.leave .allocate (some 1)))
  have again := left.step (.turn [.sending job] [] (.call (.newJob ⟨"b"⟩ ⟨"/jobs"⟩)))
  have new := again.step (.turn [.sending job] [] (.newJob rfl))
  have run : Run (.opened 1 2) moves _ := new.step (.turn [] [.served _ (some 8)] (.send job))
  have fresh := indices_fresh run
  exact ⟨⟨_, run⟩, (fresh.1 before (.create created) [.send job] rfl 8 (by decide)).2, fresh.2, rfl,
    rfl⟩

end Clients

end Restoration
