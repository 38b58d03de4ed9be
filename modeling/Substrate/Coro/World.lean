import Substrate.Cancel
import Substrate.Coro.RunLists
import Substrate.Coro.Worker
import Substrate.Fault
import Substrate.Registers

/-!
# The world of frames

Everything that bodies and callers share: the frames, the workers with their
run lists, and the slots, locks, cancel tokens and tasks known by name.  What
is named is made when it is first mentioned.
-/

namespace Substrate.Coro

/-- Something worth tracing. -/
inductive Event where
  /-- A worker starts to poll a frame. -/
  | resume (f : FrameId)
  /-- A detached frame was made. -/
  | spawn (f : FrameId)
  /-- A frame was put on a retire list. -/
  | retire (f : FrameId)
  /-- A retired frame is destroyed. -/
  | destroyRetired (f : FrameId)
  /-- A task let go of a frame that was started and is not complete. -/
  | detach (f : FrameId)
  /-- A frame is about to be published in a slot. -/
  | park (f : FrameId) (token : LockToken)
  /-- A worker is gone with frames on its run lists. -/
  | leak (pending : Nat)
  deriving DecidableEq, Repr

/-- The line a trace has for an event. -/
def Event.text : Event → String
  | .resume f => s!"TRACE resume frame={frameNumber f}"
  | .spawn f => s!"TRACE spawn detached frame={frameNumber f}"
  | .retire f => s!"TRACE retire frame={frameNumber f}"
  | .destroyRetired f => s!"TRACE destroy retired frame frame={frameNumber f}"
  | .detach f => s!"TRACE task dropped in flight; detaching frame={frameNumber f}"
  | .park f token => s!"DEBUG park frame={frameNumber f} token=" ++ token.debugText
  | .leak pending =>
    s!"WARN worker dropped with runnable frames; they are leaked pending={pending}"

/-- Where code runs: on a thread, under the worker that is entered there. -/
structure Place where
  /-- The thread. -/
  thread : ThreadId := 0
  /-- The worker entered last on that thread and not left yet. -/
  worker : Option WorkerId := none
  deriving DecidableEq, Repr

/-- Frames, workers and what they share. -/
structure World where
  /-- The bodies by name; a name without a body stands for the empty one. -/
  bodies : Registers (List Stmt) := .empty
  /-- The frames. -/
  frames : Table Frame := .empty
  /-- How many frames were ever made. -/
  frameCount : Nat := 0
  /-- The frames destroyed, newest first, and how each of them ended. -/
  ends : List (FrameId × Ending) := []
  /-- The run lists of all workers. -/
  runLists : RunLists := {}
  /-- The workers. -/
  workers : Table Worker := .empty
  /-- How many workers were ever made. -/
  workerCount : Nat := 0
  /-- The workers known by name. -/
  workerNames : Registers WorkerId := .empty
  /-- The tasks known by name. -/
  tasks : Registers Task := .empty
  /-- The slots that exist, with the frame published in each. -/
  slots : Registers (Option FrameId) := .empty
  /-- The locks. -/
  locks : Registers ParkLock := .empty
  /-- The flags of all cancel tokens. -/
  flags : CancelFlags := {}
  /-- The cancel tokens. -/
  tokens : Registers CancelToken := .empty
  /-- What was logged, with the thread it was logged on. -/
  log : Array (ThreadId × String) := #[]
  /-- What was traced. -/
  trace : Array Event := #[]
  /-- How many frames a pool counts as in flight. -/
  inFlight : Nat := 0

namespace World

instance : Inhabited World := ⟨{}⟩

/-- Log a text. -/
def say (w : World) (p : Place) (text : String) : World :=
  { w with log := w.log.push (p.thread, text) }

/-- Trace an event. -/
def emit (w : World) (e : Event) : World := { w with trace := w.trace.push e }

/-- A frame. -/
def frame (w : World) (f : FrameId) : Frame := w.frames.get f

/-- Change a frame. -/
def modifyFrame (w : World) (f : FrameId) (change : Frame → Frame) : World :=
  { w with frames := w.frames.modify f change }

/-- A worker. -/
def worker (w : World) (k : WorkerId) : Worker := w.workers.get k

/-- Change a worker. -/
def modifyWorker (w : World) (k : WorkerId) (change : Worker → Worker) : World :=
  { w with workers := w.workers.modify k change }

/-- Change the counters of a worker. -/
def count (w : World) (k : WorkerId) (change : Stats → Stats) : World :=
  w.modifyWorker k fun worker => { worker with stats := change worker.stats }

/-- How many frames are on the run lists of a worker. -/
def pending (w : World) (k : WorkerId) : Nat :=
  w.runLists.length (readyList k) + w.runLists.length (deferredList k)

/-! ## Names -/

/-- A fresh worker. -/
def newWorker (w : World) (hook : ReleaseHook) : World × WorkerId :=
  ({ w with workers := w.workers.set w.workerCount { hook }
            workerCount := w.workerCount + 1 }, w.workerCount)

/-- The worker of a name, made if need be. -/
def namedWorker (w : World) (name : String) : World × WorkerId :=
  match w.workerNames.get? name with
  | some k => (w, k)
  | none =>
    let (w, k) := w.newWorker .unlock
    ({ w with workerNames := w.workerNames.set name k }, k)

/-- The frame published in a slot. -/
def slot (w : World) (name : String) : Option FrameId := (w.slots.get? name).getD none

/-- Put a frame in a slot, or nothing. -/
def setSlot (w : World) (name : String) (f : Option FrameId) : World :=
  { w with slots := w.slots.set name f }

/-- The names of the occupied slots. -/
def occupiedSlots (w : World) : List String :=
  (w.slots.entries.filter fun e => e.2.isSome).map Prod.fst

/-- The lock of a name. -/
def lock (w : World) (name : String) : ParkLock := (w.locks.get? name).getD default

/-- Change the lock of a name. -/
def setLock (w : World) (name : String) (l : ParkLock) : World :=
  { w with locks := w.locks.set name l }

/-- The cancel token of a name, made if need be. -/
def namedToken (w : World) (name : String) : World × CancelToken :=
  match w.tokens.get? name with
  | some t => (w, t)
  | none =>
    let (flags, t) := w.flags.newToken
    ({ w with flags, tokens := w.tokens.set name t }, t)

/-- Whether the cancel token of a name is cancelled. -/
def isCancelled (w : World) (name : String) : Bool :=
  match w.tokens.get? name with
  | some t => t.isCancelled w.flags
  | none => false

/-- Cancel the token of a name. -/
def cancel (w : World) (name : String) : World :=
  let (w, t) := w.namedToken name
  { w with flags := w.flags.cancel t }

/-- Put a cancel token below the one of another name under a name. -/
def addChildToken (w : World) (name parent : String) : World :=
  let (w, t) := w.namedToken parent
  let (flags, child) := w.flags.newChild t
  { w with flags, tokens := w.tokens.set name child }

/-! ## Frames and run lists -/

/-- A frame that runs a body, bound to `home` or free. -/
def newFrame (w : World) (home : Option ThreadId) (disposal : Disposal) (body : String)
    (arg : Int) : World × FrameId :=
  let frame : Frame :=
    { body, arg, disposal, home, code := (w.bodies.get? body).getD [], alive := true,
      keepsOutput := disposal == .awaited }
  ({ w with frames := w.frames.set w.frameCount frame, frameCount := w.frameCount + 1 },
    w.frameCount)

/-- Put a frame on the ready list of a worker, unless it is on a run list. -/
def enqueue (w : World) (k : WorkerId) (f : FrameId) : World :=
  match w.runLists.push (readyList k) f with
  | none => w
  | some runLists =>
    { w with runLists }.count k fun s =>
      { s with enqueued := s.enqueued + 1, peak := max s.peak (runLists.length (readyList k)) }

/-- Put a frame on the deferred list of a worker, unless it is on a run list. -/
def defer (w : World) (k : WorkerId) (f : FrameId) : World :=
  { w with runLists := (w.runLists.push (deferredList k) f).getD w.runLists }

/-- The next frame of a worker: the top of its ready list, which is refilled from the
deferred list when it is empty, oldest on top. -/
def nextFrame (w : World) (k : WorkerId) : Option (FrameId × World) :=
  match w.runLists.pop (readyList k) with
  | some (f, runLists) => some (f, { w with runLists })
  | none =>
    let filled := w.runLists.pour (deferredList k) (readyList k)
      (w.runLists.length (deferredList k))
    (filled.pop (readyList k)).map fun (f, runLists) => (f, { w with runLists })

/-- Schedule a frame on a worker from a thread. -/
def schedule (w : World) (p : Place) (k : WorkerId) (f : FrameId) : Except Fault World :=
  if !(w.frame f).isAtHome p.thread then .error (.foreignFrame (frameNumber f))
  else if (w.frame f).isComplete then .error (.doubleAwait (frameNumber f))
  else .ok (w.enqueue k f)

/-- Start a detached frame on a worker. -/
def spawnDetached (w : World) (p : Place) (k : WorkerId) (body : String) (arg : Int) : World :=
  let (w, f) := w.newFrame (some p.thread) .detached body arg
  (w.emit (.spawn f)).enqueue k f

/-! ## Slots -/

/-- Publish a frame in a slot, which has to be vacant. -/
def publish (w : World) (slot : String) (f : FrameId) : Except Fault World :=
  match w.slot slot with
  | some occupant => .error (.invalidParkSlot (frameNumber occupant))
  | none => .ok (w.setSlot slot (some f))

/-- Take the frame out of a slot. -/
def takeSlot (w : World) (slot : String) : World × Option FrameId :=
  (w.setSlot slot none, w.slot slot)

/-- What a worker's release hook does with a token. -/
def release (w : World) (p : Place) (hook : ReleaseHook) (token : LockToken) : World :=
  match hook, token with
  | .report, token =>
    w.say p ("release:" ++ token.label ++ ":" ++ ",".intercalate w.occupiedSlots)
  | .unlock, .lock name => w.setLock name (w.lock name).release
  | .unlock, _ => w

end World

end Substrate.Coro
