import Substrate.Pool

/-!
# Pool sessions

A caller that spawns bodies on a pool, waits for them to park, resumes them and
shuts the pool down.  Between two operations the threads run until they have
nothing to do.
-/

namespace Substrate.Pool

open Coro

/-- The lock that all bodies of a pool share. -/
def sharedLock : String := ""

/-- The state of a session. -/
structure Session where
  /-- The pool. -/
  pool : Pool
  /-- What the names of its threads start with. -/
  threadName : String := "w"
  /-- How often the pool was shut down. -/
  shutdowns : Nat := 0

instance : Inhabited Session := ⟨⟨{}, "w", 0⟩⟩

/-- What a caller can do. -/
inductive Op where
  /-- Start a body a number of times. -/
  | spawn (body : String) (count : Nat)
  /-- Wait until a slot is occupied. -/
  | wait (slot : String)
  /-- Wait until a number of frames is in flight. -/
  | waitIdle (count : Nat)
  /-- Whether a slot is occupied. -/
  | occupied (slot : String)
  /-- Take the frame out of a slot and resume it. -/
  | resume (slot : String)
  /-- How many frames are in flight. -/
  | inFlight
  /-- How many threads there are. -/
  | workerCount
  /-- Whether the shared lock is held. -/
  | locked
  /-- Shut the pool down. -/
  | shutdown
  /-- Resume a frame of the caller's thread that is at some stage of its life. -/
  | resumeLocal (stage : Stage)
  deriving DecidableEq, Repr

/-- What an operation answers. -/
inductive Reply where
  /-- It was carried out. -/
  | nothing
  /-- What was waited for has come. -/
  | arrived
  /-- A yes or no. -/
  | truth (b : Bool)
  /-- A number. -/
  | number (n : Nat)
  /-- The slot is vacant. -/
  | vacant
  /-- It would wait for ever. -/
  | wouldBlock
  /-- A fault. -/
  | failed (f : Fault)
  deriving DecidableEq, Repr

namespace Session

/-- How many rounds the threads may take. -/
def fuel : Nat := Nat.pow 10 12

/-- Let the threads run. -/
def settle (s : Session) : Session := { s with pool := s.pool.settle fuel }

/-- Answer with another pool, after its threads have run. -/
def answer (s : Session) (pool : Pool) (r : Reply) : Session × Reply :=
  ({ s with pool }.settle, r)

/-- A session with a pool of threads. -/
def start (bodies : Registers (List Stmt)) (workers : Nat) (threadName : String) : Session :=
  { pool := .new bodies workers, threadName : Session }.settle

/-- Shut the pool down. -/
def shutdown (s : Session) : Session × Reply :=
  match s.pool.stop with
  | none => (s, .wouldBlock)
  | some pool =>
    let s := { s with pool, shutdowns := s.shutdowns + 1 }.settle
    (s, .number s.pool.world.inFlight)

/-- Resume a frame. -/
def resume (s : Session) (pool : Pool) (f : FrameId) : Session × Reply :=
  match pool.resume f with
  | .ok pool => s.answer pool .nothing
  | .error e => s.answer pool (.failed e)

/-- Carry out one operation. -/
def apply (s : Session) : Op → Session × Reply
  | .spawn body count =>
    s.answer ((List.range (max count 1)).foldl (fun p _ => p.spawn body) s.pool) .nothing
  | .wait slot => (s, if (s.pool.world.slot slot).isSome then .arrived else .wouldBlock)
  | .waitIdle count => (s, if s.pool.world.inFlight = count then .arrived else .wouldBlock)
  | .occupied slot => (s, .truth (s.pool.world.slot slot).isSome)
  | .resume slot =>
    match s.pool.world.takeSlot slot with
    | (_, none) => (s, .vacant)
    | (world, some f) => s.resume { s.pool with world } f
  | .inFlight => (s, .number s.pool.world.inFlight)
  | .workerCount => (s, .number s.pool.size)
  | .locked => (s, .truth (s.pool.world.lock sharedLock).held)
  | .shutdown => s.shutdown
  | .resumeLocal stage =>
    let (world, f) := s.pool.world.newFrame (some 0) .awaited "" 0
    let world := world.modifyFrame f fun frame => { frame with stage }
    s.resume { s.pool with world } f

/-- Shut the pool down, unless that was done. -/
def close (s : Session) : Session := if s.pool.stopping then s else s.shutdown.1

/-- The name of a thread. -/
def threadLabel (s : Session) (i : Nat) : String := s.threadName ++ "-" ++ toString i

/-- What was logged on each thread that logged anything. -/
def logs (s : Session) : List (String × List String) :=
  let all := (List.range s.pool.size).map fun i =>
    (s.threadLabel i,
     (s.pool.world.log.toList.filter fun e => e.1 == threadOf i).map Prod.snd)
  all.filter fun e => !e.2.isEmpty

/-- A line for each thread that has left its loop, in order of the lines. -/
def exits (s : Session) : List String :=
  let exited := (List.range s.pool.size).filter fun i =>
    (s.pool.members.get i).status == .exited
  let lines := exited.map fun i =>
    let stats := (s.pool.world.worker (s.pool.members.get i).worker).stats
    s!"DEBUG worker exiting worker={i} stats=" ++ stats.debugText
  lines.mergeSort fun a b => decide (a ≤ b)

/-- A line for the start of the pool and for each time it was shut down. -/
def trace (s : Session) : List String :=
  s!"INFO worker pool started workers={s.pool.size}" ::
    List.replicate s.shutdowns "DEBUG worker pool stopped"

end Session

end Substrate.Pool
