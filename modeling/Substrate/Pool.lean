import Substrate.Coro.Thread

/-!
# Worker pools

A pool has a fixed number of threads, each with a worker and an inbox.  Frames
spawned through the pool are free to run on any of its threads and are dealt
out in turn; a frame that is bound to a thread goes back to that thread.

The threads take turns in any order: `Pool.stepMember` is one step of one
thread, and everything a caller does is a step as well.
-/

namespace Substrate

open Coro

/-- How a thread of a pool stands. -/
inductive MemberStatus where
  /-- It takes frames from its inbox. -/
  | working
  /-- It has left its loop. -/
  | exited
  /-- A fault ended it. -/
  | ended (f : Fault)
  deriving DecidableEq, Repr

/-- A thread of a pool. -/
structure Member where
  /-- The thread. -/
  thread : Thread := {}
  /-- Its worker. -/
  worker : WorkerId := 0
  /-- The frames dealt to it, oldest first. -/
  inbox : List FrameId := []
  /-- How it stands. -/
  status : MemberStatus := .working
  deriving DecidableEq, Repr

instance : Inhabited Member := ⟨{}⟩

/-- A pool of threads. -/
structure Pool where
  /-- Frames, workers and what they share. -/
  world : World := {}
  /-- The threads. -/
  members : Table Member := .empty
  /-- How many threads there are. -/
  size : Nat := 0
  /-- How many frames were dealt out in turn. -/
  dealt : Nat := 0
  /-- Whether the threads are to leave their loops. -/
  stopping : Bool := false

namespace Pool

instance : Inhabited Pool := ⟨{}⟩

/-- The thread of member `i`; thread 0 is the caller's. -/
def threadOf (i : Nat) : ThreadId := i + 1

/-- Add a thread with a worker of its own. -/
def addMember (p : Pool) : Pool :=
  let (world, worker) := p.world.newWorker .unlock
  { p with world, size := p.size + 1,
           members := p.members.set p.size
             { worker, thread := { thread := threadOf p.size } } }

/-- A pool of at least one thread. -/
def new (bodies : Registers (List Stmt)) (workers : Nat) : Pool :=
  (List.range (max workers 1)).foldl (fun p _ => p.addMember) { world := { bodies } }

/-- Put a frame at the end of the inbox of member `i`. -/
def send (p : Pool) (i : Nat) (f : FrameId) : Pool :=
  { p with members := p.members.modify i fun m => { m with inbox := m.inbox ++ [f] } }

/-- Deal a frame to the next thread in turn. -/
def deal (p : Pool) (f : FrameId) : Pool :=
  { p.send (p.dealt % p.size) f with dealt := p.dealt + 1 }

/-- Start a body that may run on any thread. -/
def spawn (p : Pool) (body : String) : Pool :=
  let (world, f) := p.world.newFrame none .detached body 0
  let world := world.modifyFrame f fun frame => { frame with counted := true }
  { p with world := { world with inFlight := world.inFlight + 1 } }.deal f

/-- The member that runs on a thread. -/
def memberOn (p : Pool) (thread : ThreadId) : Option Nat :=
  if 0 < thread ∧ thread ≤ p.size then some (thread - 1) else none

/-- Send a suspended frame on: a free one in turn, a bound one to its thread. -/
def resume (p : Pool) (f : FrameId) : Except Fault Pool :=
  if (p.world.frame f).isComplete then .error (.doubleAwait (frameNumber f))
  else
    match (p.world.frame f).home with
    | none => .ok (p.deal f)
    | some home =>
      match p.memberOn home with
      | some i => .ok (p.send i f)
      | none => .error (.foreignFrame (frameNumber f))

/-- Ask the threads to leave their loops, which has to wait until nothing is in flight. -/
def stop (p : Pool) : Option Pool :=
  if p.world.inFlight = 0 then some { p with stopping := true } else none

/-- Record the state of member `i` and the world. -/
def put (p : Pool) (i : Nat) (world : World) (m : Member) : Pool :=
  { p with world, members := p.members.set i m }

/-- One step of member `i`, if it can take one: go on with what it is in the middle of,
or take the oldest frame of its inbox and pump, or leave its loop. -/
def stepMember (p : Pool) (i : Nat) : Option Pool :=
  let m := p.members.get i
  match m.status, m.thread.stack with
  | .working, _ :: _ =>
    match Thread.step p.world m.thread with
    | (_, _, .stuck) => none
    | (world, thread, .failed f) => some (p.put i world { m with thread, status := .ended f })
    | (world, thread, .aborted f) => some (p.put i world { m with thread, status := .ended f })
    | (world, thread, _) => some (p.put i world { m with thread })
  | .working, [] =>
    match m.inbox with
    | f :: inbox =>
      match p.world.schedule m.thread.toPlace m.worker f with
      | .ok world => some (p.put i world { m with inbox, thread := m.thread.beginPump m.worker })
      | .error e => some (p.put i p.world { m with inbox, status := .ended e })
    | [] => if p.stopping then some (p.put i p.world { m with status := .exited }) else none
  | _, _ => none

/-- One step of every member that can take one, and whether there was any. -/
def round (p : Pool) : Pool × Bool :=
  (List.range p.size).foldl (fun (p, moved) i =>
    match p.stepMember i with
    | some p => (p, true)
    | none => (p, moved)) (p, false)

/-- Let all threads run until none can take a step, for `fuel` rounds at most. -/
def settle : Nat → Pool → Pool
  | 0, p => p
  | fuel + 1, p =>
    match p.round with
    | (p, true) => settle fuel p
    | (p, false) => p

end Pool

end Substrate
