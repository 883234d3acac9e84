import Restoration.Queue

/-!
# The slots of a queue

Jobs that wait are handled by several slots side by side. A slot goes round and round: it looks at
the flag, receives the first job that waits, calls the handler for it and records the outcome. It
quits once it finds the flag raised or nobody waiting. Whoever can move may move next, so that a run
is any interleaving of such moves:

    look, receive, call, finish, record, quit     a slot
    raise                                         anybody
-/

namespace Restoration

namespace Slots

open Queue (Outcome byIndex)

/-- A job that was pushed, and how many were pushed ahead of it. -/
structure Ticket where
  place : Nat
  job : Job

/-- The tickets of jobs that are pushed one after the other. -/
def tickets (jobs : List Job) : List Ticket := jobs.zipIdx.map fun (job, place) => ⟨place, job⟩

/-- Where a slot stands. -/
inductive Slot (ε : Type) where
  /-- It is about to look at the flag. -/
  | idle
  /-- It found the flag down. -/
  | admitted
  /-- It has a job, but did not yet call the handler. -/
  | loaded (t : Ticket)
  /-- The handler is at work on its job. -/
  | handling (t : Ticket)
  /-- The handler is done, but the outcome is not yet recorded. -/
  | handled (t : Ticket) (outcome : Outcome ε)
  | gone

/-- The slots and what they share. -/
structure Floor (ε : Type) where
  /-- Was the work asked to stop? -/
  raised : Bool
  waiting : List Ticket
  slots : List (Slot ε)
  /-- Outcomes in the order in which they were recorded. -/
  records : List (Ticket × Outcome ε) := []

/-- What can be seen of a move. -/
inductive Move (ε : Type) where
  | look (raised : Bool)
  | receive (t : Ticket)
  | call (t : Ticket)
  | finish (t : Ticket) (outcome : Outcome ε)
  | record (t : Ticket) (outcome : Outcome ε)
  | quit
  | raise

namespace Move

variable {ε : Type}

/-- Who still waits behind the move. -/
def leaves (m : Move ε) (waiting : List Ticket) : List Ticket :=
  match m with
  | receive _ => waiting.tail
  | _ => waiting

/-- What is recorded by the move. -/
def told : Move ε → List (Ticket × Outcome ε)
  | record t outcome => [(t, outcome)]
  | _ => []

end Move

variable {ε : Type}

/-- The floor before the first move: every job waits. -/
def Floor.opened (q : Queue) (raised : Bool) : Floor ε where
  raised := raised
  waiting := tickets q.waiting
  slots := List.replicate q.slots .idle

/-- Is the slot gone? -/
def Slot.isGone : Slot ε → Bool
  | gone => true
  | _ => false

/-- Are all slots gone? -/
def Floor.isOver (s : Floor ε) : Bool := s.slots.all Slot.isGone

/-- What is told of every job once the slots are gone: those that still wait are untouched. -/
def Floor.outcomes (s : Floor ε) : List (Ticket × Outcome ε) :=
  s.records ++ s.waiting.map fun t => (t, .untouched t.job)

/-- What the queue reports once the slots are gone. -/
def Floor.report (s : Floor ε) : List (Outcome ε) := byIndex (s.outcomes.map Prod.snd)

/-- One move of a slot. Nothing is assumed of what the handler returns. -/
inductive Turn (s : Floor ε) : Slot ε → Move ε → Slot ε → Prop where
  /-- A raised flag sends the slot away. The slot may see late that the flag is raised. -/
  | look {raised : Bool} (seen : raised = true → s.raised = true) :
    Turn s .idle (.look raised) (if raised then .gone else .admitted)
  | receive {t : Ticket} {rest : List Ticket} (next : s.waiting = t :: rest) :
    Turn s .admitted (.receive t) (.loaded t)
  /-- Nobody waits any more. -/
  | quit (none_waits : s.waiting = []) : Turn s .admitted .quit .gone
  | call (t : Ticket) : Turn s (.loaded t) (.call t) (.handling t)
  /-- The handler returns with the job as it left it, and a result. -/
  | finish (t : Ticket) (outcome : Outcome ε) :
    Turn s (.handling t) (.finish t outcome) (.handled t outcome)
  | record (t : Ticket) (outcome : Outcome ε) : Turn s (.handled t outcome) (.record t outcome) .idle

/-- One move. -/
inductive Step : Floor ε → Move ε → Floor ε → Prop where
  /-- Some slot makes a move. -/
  | turn {s : Floor ε} {before after : List (Slot ε)} {x y : Slot ε} {m : Move ε}
    (here : s.slots = before ++ x :: after) (turn : Turn s x m y) :
    Step s m
      { s with
        waiting := m.leaves s.waiting
        slots := before ++ y :: after
        records := s.records ++ m.told }
  /-- Somebody asks the work to stop: a handler, or somebody outside. -/
  | raise {s : Floor ε} : Step s .raise { s with raised := true }

/-- Some moves one after the other, the latest one last. -/
inductive Run (s : Floor ε) : List (Move ε) → Floor ε → Prop where
  | refl : Run s [] s
  | step {moves : List (Move ε)} {m : Move ε} {t u : Floor ε} (run : Run s moves t)
    (step : Step t m u) : Run s (moves ++ [m]) u

end Slots

end Restoration
