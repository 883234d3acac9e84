import Restoration.Encoding
import Restoration.Permits

/-!
# The crew of an encoding

The chunks of a job are encoded side by side. A launcher goes through the chunks: for each it waits
for a permit, looks whether the work was asked to stop, writes the script of the chunk, and starts
an encoder that takes the permit over. An encoder gives its permit back when it is done. Whoever can
move may move next, so that a run is any interleaving of such moves:

    acquire, look, write, start, close       the launcher
    work, finish, leave                      an encoder
    cancel                                   somebody outside
-/

namespace Restoration

namespace Crew

/-- What the launcher does next. -/
inductive Launcher where
  /-- It waits for a permit, as long as a chunk is left. -/
  | waiting
  /-- With a permit, it looks at the flag. -/
  | admitted (permit : Nat)
  /-- The flag was down: it writes the script of the chunk. -/
  | waved (permit : Nat)
  /-- The script is written: it starts the encoder. -/
  | scripted (permit : Nat)
  /-- It gives its permit back and launches no more. -/
  | closing (permit : Nat) (fault : Option JobFault)
  | closed (fault : Option JobFault)

/-- A script that cannot be written ends the loop. -/
def Launcher.behindWriting (permit : Nat) : Except JobFault Unit → Launcher
  | .ok () => scripted permit
  | .error fault => closing permit (some fault)

/-- How far an encoder got. -/
inductive Stint where
  | working
  /-- The encoder is done, but still has its permit. -/
  | finished (outcome : Except ToolFault Unit)
  | gone (outcome : Except ToolFault Unit)

/-- An encoder that was started. -/
structure Encoder where
  chunk : FrameRange
  permit : Nat
  stint : Stint := .working

/-- The encoder at its work, done or gone. -/
def Encoder.become (e : Encoder) (stint : Stint) : Encoder := { e with stint := stint }

/-- The script that the encoder reads. -/
def Encoder.script (job : Job) (e : Encoder) : Path := (Encoding.chunkScript job e.chunk).forEngine

/-- The file that the encoder writes. -/
def Encoder.output (job : Job) (e : Encoder) : Path := job.path (.fragment e.chunk.start)

/-- The launcher, the encoders and what they share. -/
structure Floor (τ : Type) where
  desk : Desk τ
  permits : Permits
  launcher : Launcher := .waiting
  /-- The chunks for which no encoder was started, the present one first. -/
  left : List FrameRange
  /-- The encoders in the order in which they were started. -/
  encoders : List Encoder := []

/-- What can be seen of a move. -/
inductive Move where
  | acquire (permit : Nat)
  | look (raised : Bool)
  | write (chunk : FrameRange) (script : Path)
  | start (chunk : FrameRange)
  | close
  | work (chunk : FrameRange)
  | finish (chunk : FrameRange) (outcome : Except ToolFault Unit)
  | leave (chunk : FrameRange)
  | cancel

variable {τ : Type}

/-- The floor before the first move: as many permits as the job has workers. -/
def Floor.opened (job : Job) (chunks : List FrameRange) (desk : Desk τ) : Floor τ where
  desk := desk
  permits := { free := job.workers }
  left := chunks

/-- One move. Nothing is assumed of what an encoder does to the desk while it works. -/
inductive Step (job : Job) (base : Script) : Floor τ → Move → Floor τ → Prop where
  /-- The launcher takes a permit for the next chunk, once one is free. -/
  | acquire {s : Floor τ} {c : FrameRange} {rest : List FrameRange} {n : Nat} {permits : Permits}
      (waiting : s.launcher = .waiting) (left : s.left = c :: rest)
      (free : s.permits.acquire? = some (n, permits)) :
      Step job base s (.acquire n) { s with permits := permits, launcher := .admitted n }
  /-- The launcher looks at the flag. -/
  | look {s : Floor τ} {n : Nat} {raised : Bool} {desk : Desk τ} (admitted : s.launcher = .admitted n)
      (looked : (Work.isCancelled : Work τ JobFault Bool) s.desk = (.ok raised, desk)) :
      Step job base s (.look raised)
        { s with desk := desk, launcher := if raised then .closing n none else .waved n }
  /-- The launcher writes the script of the chunk. -/
  | write {s : Floor τ} {c : FrameRange} {rest : List FrameRange} {n : Nat}
      {r : Except JobFault Unit} {desk : Desk τ}
      (waved : s.launcher = .waved n) (left : s.left = c :: rest)
      (written : Encoding.write (base.restrict c) (Encoding.chunkScript job c) s.desk = (r, desk)) :
      Step job base s (.write c (Encoding.chunkScript job c))
        { s with
          desk := desk
          launcher := .behindWriting n r }
  /-- The launcher starts an encoder, and hands its permit over to it. -/
  | start {s : Floor τ} {c : FrameRange} {rest : List FrameRange} {n : Nat}
      (scripted : s.launcher = .scripted n) (left : s.left = c :: rest) :
      Step job base s (.start c)
        { s with
          launcher := .waiting
          left := rest
          encoders := s.encoders ++ [{ chunk := c, permit := n }] }
  /-- The launcher leaves the loop early and gives its permit back. -/
  | close {s : Floor τ} {n : Nat} {fault : Option JobFault} (closing : s.launcher = .closing n fault) :
      Step job base s .close
        { s with permits := (s.permits.release n).2, launcher := .closed fault }
  /-- The launcher is through with all chunks. -/
  | pass {s : Floor τ} (waiting : s.launcher = .waiting) (left : s.left = []) :
      Step job base s .close { s with launcher := .closed none }
  /-- A working encoder does something at the desk. -/
  | work {s : Floor τ} {e : Encoder} (desk : Desk τ) (here : e ∈ s.encoders)
      (working : e.stint = .working) : Step job base s (.work e.chunk) { s with desk := desk }
  /-- A working encoder comes to its end. -/
  | finish {s : Floor τ} {before after : List Encoder} {e : Encoder}
      (outcome : Except ToolFault Unit) (here : s.encoders = before ++ e :: after)
      (working : e.stint = .working) :
      Step job base s (.finish e.chunk outcome)
        { s with encoders := before ++ e.become (.finished outcome) :: after }
  /-- An encoder that is done gives its permit back. -/
  | leave {s : Floor τ} {before after : List Encoder} {e : Encoder} {outcome : Except ToolFault Unit}
      (here : s.encoders = before ++ e :: after) (finished : e.stint = .finished outcome) :
      Step job base s (.leave e.chunk)
        { s with
          permits := (s.permits.release e.permit).2
          encoders := before ++ e.become (.gone outcome) :: after }
  /-- Somebody outside asks the work to stop. -/
  | cancel {s : Floor τ} : Step job base s .cancel { s with desk := { s.desk with cancelled := true } }

/-- Some moves one after the other, the latest one last. -/
inductive Run (job : Job) (base : Script) (s : Floor τ) : List Move → Floor τ → Prop where
  | refl : Run job base s [] s
  | step {moves : List Move} {m : Move} {t u : Floor τ} (run : Run job base s moves t)
      (step : Step job base t m u) : Run job base s (moves ++ [m]) u

end Crew

end Restoration
