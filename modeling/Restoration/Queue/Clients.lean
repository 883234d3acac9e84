import Restoration.Queue

/-!
# The clients of a queue

Clients use a queue side by side. A call changes the counter of the queue once, in one step that
nothing comes between, and returns later. A push has two things to do: it raises the counter above
its job and then sends the job, and others may move in between. Whoever can move may move next, so
that a run is any interleaving of such moves:

    call, raise, send, return        to seed or to push
    call, allot or create, return    to allocate or to ask for a new job
-/

namespace Restoration

namespace Queue

/-- The queue with its counter above the job, which a push sees to first. -/
def raised (q : Queue) (job : Job) : Queue := { q with nextIndex := max q.nextIndex (job.index + 1) }

/-- The queue with the job behind all that wait, which a push sees to last. -/
def sent (q : Queue) (job : Job) : Queue := { q with waiting := q.waiting ++ [job] }

end Queue

namespace Clients

/-- What a client can ask of the queue. -/
inductive Call where
  | seed (jobs : List Job)
  | allocate
  | newJob (source directory : Path)
  | push (job : Job)

namespace Call

/-- The jobs that the call brings along. -/
def jobs : Call → List Job
  | seed jobs => jobs
  | push job => [job]
  | allocate | newJob _ _ => []

/-- What the call makes of the queue if nobody else uses it. -/
def perform (q : Queue) : Call → Queue
  | seed jobs => q.seeded jobs
  | allocate => q.allocate.2
  | newJob source directory => (q.newJob source directory).2
  | push job => q.push job

end Call

/-- Where a client stands. -/
inductive Client where
  | idle
  /-- It called, but did not yet reach the counter. -/
  | calling (c : Call)
  /-- The counter is above its job, which is not yet sent. -/
  | sending (job : Job)
  /-- Its call is done and about to return, with an index if one was asked for. -/
  | served (c : Call) (index : Option Nat)

/-- The queue and its clients. -/
structure Office where
  queue : Queue
  clients : List Client

/-- What can be seen of a move. -/
inductive Move where
  | call (c : Call)
  /-- The counter is raised above some jobs. -/
  | raise (jobs : List Job)
  /-- The counter gives an index away. -/
  | allot (index : Nat)
  /-- The counter gives the index of a new job away. -/
  | create (job : Job)
  | send (job : Job)
  | leave (c : Call) (index : Option Nat)

/-- An empty queue with idle clients. -/
def Office.opened (slots clients : Nat) : Office where
  queue := .ofSlots slots
  clients := List.replicate clients .idle

/-- One move of a client at the queue. -/
inductive Turn : Queue → Client → Move → Queue → Client → Prop where
  | call {q : Queue} (c : Call) : Turn q .idle (.call c) q (.calling c)
  | seed {q : Queue} (jobs : List Job) :
    Turn q (.calling (.seed jobs)) (.raise jobs) (q.seeded jobs) (.served (.seed jobs) none)
  | allocate {q r : Queue} {index : Nat} (counted : q.allocate = (index, r)) :
    Turn q (.calling .allocate) (.allot index) r (.served .allocate (some index))
  | newJob {q r : Queue} {source directory : Path} {job : Job}
    (counted : q.newJob source directory = (job, r)) :
    Turn q (.calling (.newJob source directory)) (.create job) r
      (.served (.newJob source directory) (some job.index))
  | push {q : Queue} (job : Job) :
    Turn q (.calling (.push job)) (.raise [job]) (q.raised job) (.sending job)
  | send {q : Queue} (job : Job) :
    Turn q (.sending job) (.send job) (q.sent job) (.served (.push job) none)
  | leave {q : Queue} (c : Call) (index : Option Nat) :
    Turn q (.served c index) (.leave c index) q .idle

/-- One move: some client makes it. -/
inductive Step : Office → Move → Office → Prop where
  | turn {q r : Queue} {x y : Client} {m : Move} (before after : List Client) (turn : Turn q x m r y) :
    Step ⟨q, before ++ x :: after⟩ m ⟨r, before ++ y :: after⟩

/-- Some moves one after the other, the latest one last. -/
inductive Run (s : Office) : List Move → Office → Prop where
  | refl : Run s [] s
  | step {moves : List Move} {m : Move} {t u : Office} (run : Run s moves t) (step : Step t m u) :
    Run s (moves ++ [m]) u

end Clients

end Restoration
