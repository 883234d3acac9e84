import Restoration.Encoding

/-!
# Queues

Jobs wait in a queue until a slot takes them. Indices of new jobs are larger than all indices the
queue ever saw. When the queue is asked to stop, the jobs that still wait are reported as cancelled.

    outcomes of drain q = one for each waiting job of q, by index
-/

namespace Restoration

/-- Jobs that wait to be encoded. -/
structure Queue where
  slots : Nat
  /-- The index of the next new job. -/
  nextIndex : Nat := 1
  waiting : List Job := []

namespace Queue

/-- An empty queue; there is at least one slot. -/
def ofSlots (slots : Nat) : Queue := { slots := max 1 slots }

/-- The smallest index above those of all jobs. -/
def indexAbove (jobs : List Job) : Nat := jobs.foldl (fun n j => max n (j.index + 1)) 1

/-- The queue, with new indices above those of some older jobs. -/
def seeded (q : Queue) (jobs : List Job) : Queue :=
  { q with nextIndex := max q.nextIndex (indexAbove jobs) }

/-- Hands out the next index. -/
def allocate (q : Queue) : Nat × Queue := (q.nextIndex, { q with nextIndex := q.nextIndex + 1 })

/-- A new job under the next index. -/
def newJob (q : Queue) (source directory : Path) : Job × Queue :=
  let (index, q) := q.allocate
  ({ source, directory, index }, q)

/-- Lets a job wait at the end of the queue. -/
def push (q : Queue) (job : Job) : Queue :=
  { q with waiting := q.waiting ++ [job], nextIndex := max q.nextIndex (job.index + 1) }

/-- How the encoding of a waiting job ended. -/
structure Outcome (ε : Type) where
  job : Job
  result : Except ε EncodingReport

/-- A job that was never taken. -/
def Outcome.untouched {ε : Type} (job : Job) : Outcome ε := ⟨job, .ok .cancelled⟩

/-- Takes one job after the other, until the work is asked to stop. -/
def drainInOrder {σ ε : Type} (stopped : σ → Bool) (handle : Job → σ → Outcome ε × σ) :
    List Job → σ → List (Outcome ε) × σ
  | [], s => ([], s)
  | job :: rest, s =>
    if stopped s then ((job :: rest).map .untouched, s)
    else
      let (o, s) := handle job s
      let (os, s) := drainInOrder stopped handle rest s
      (o :: os, s)

/-- The outcomes by the indices of their jobs; those with one index keep their order. -/
def byIndex {ε : Type} (os : List (Outcome ε)) : List (Outcome ε) :=
  os.mergeSort fun a b => a.job.index ≤ b.job.index

/-- Handles every waiting job. -/
def drain {σ ε : Type} (q : Queue) (stopped : σ → Bool) (handle : Job → σ → Outcome ε × σ) (s : σ) :
    List (Outcome ε) × σ :=
  let (os, s) := drainInOrder stopped handle q.waiting s
  (byIndex os, s)

end Queue

end Restoration
