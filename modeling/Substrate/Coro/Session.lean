import Substrate.Coro.Thread

/-!
# Coroutine sessions

A caller on one thread that makes workers and tasks, starts and pumps them, and
looks at what became of them.
-/

namespace Substrate.Coro

/-- The diagnostic form of a frame's handle. -/
def World.handleText (w : World) (f : FrameId) : String :=
  Text.record "FrameHandle"
    [("id", toString (frameNumber f)), ("thread_bound", Text.truth (w.frame f).home.isSome)]

/-- The diagnostic form of a task. -/
def World.taskText (w : World) (t : Task) : String :=
  Text.record "Task"
    [("frame", Text.optional (t.frame.map w.handleText)), ("started", Text.truth t.started)]

/-- The diagnostic form of a worker. -/
def World.workerText (w : World) (k : WorkerId) : String :=
  Text.record "Worker"
    [("ready", toString (w.runLists.length (readyList k))),
     ("deferred", toString (w.runLists.length (deferredList k))),
     ("stats", (w.worker k).stats.debugText)]

/-- The names of the bodies of the frames that are alive, in order. -/
def World.aliveBodies (w : World) : List String :=
  let alive := (List.range w.frameCount).filter fun f => (w.frame f).alive
  (alive.map fun f => (w.frame f).body).mergeSort fun a b => decide (a ≤ b)

/-- The state of a session. -/
structure Session where
  /-- Frames, workers and what they share. -/
  world : World := {}
  /-- Frames taken out of slots, by name. -/
  handles : Registers FrameId := .empty
  /-- The fault that ended everything. -/
  aborted : Option Fault := none

instance : Inhabited Session := ⟨{}⟩

/-- What a caller can do. -/
inductive Op where
  /-- Put a fresh worker under a name. -/
  | worker (name : String) (hook : ReleaseHook)
  /-- Give up a worker. -/
  | dropWorker (name : String)
  /-- Start a detached frame on a worker. -/
  | spawn (worker body : String) (arg : Int)
  /-- Start a detached frame on the worker entered. -/
  | spawnFree (body : String) (arg : Int)
  /-- Make a task. -/
  | new (task body : String) (arg : Int)
  /-- Start a task on a worker. -/
  | start (task worker : String)
  /-- Start a task on the worker entered. -/
  | startFree (task : String)
  /-- Take the result of a task. -/
  | take (task : String)
  /-- Poll a task. -/
  | poll (task : String)
  /-- Drop a task. -/
  | drop (task : String)
  /-- The state of a task. -/
  | info (task : String)
  /-- The diagnostic form of a task. -/
  | debug (task : String)
  /-- Pump a worker. -/
  | pump (worker : String)
  /-- Run a body to its end on a worker. -/
  | blockOn (worker body : String) (arg : Int)
  /-- Run a task to its end on a worker. -/
  | blockOnTask (worker task : String)
  /-- Run a body to its end on a worker made for it. -/
  | blockOnFree (body : String) (arg : Int)
  /-- The counters of a worker. -/
  | stats (worker : String)
  /-- How many frames are on the run lists of a worker. -/
  | pending (worker : String)
  /-- The diagnostic form of a worker. -/
  | workerDebug (worker : String)
  /-- The current frame of a worker. -/
  | current (worker : String)
  /-- Whether a slot is occupied. -/
  | slotOccupied (slot : String)
  /-- The diagnostic form of a slot. -/
  | slotDebug (slot : String)
  /-- Take the frame out of a slot and keep it under a name. -/
  | takeSlot (slot handle : String)
  /-- Schedule a kept frame on a worker. -/
  | schedule (worker handle : String)
  /-- Take the frame out of a slot and schedule it on a worker. -/
  | unpark (slot worker : String)
  /-- Schedule the frame of a task on a worker. -/
  | scheduleTask (worker task : String)
  /-- Schedule a kept frame on a worker of another thread. -/
  | foreign (handle : String)
  /-- Cancel a token. -/
  | cancel (token : String)
  /-- Put a token below another. -/
  | child (token parent : String)
  /-- Whether a lock is held, and its number if it is not. -/
  | lockState (lock : String)
  /-- Ask for a turn outside any worker. -/
  | pollYield
  /-- Ask to be parked outside any worker. -/
  | pollPark (slot : String)
  deriving DecidableEq, Repr

/-- What an operation answers. -/
inductive Reply where
  /-- It was carried out, or there is nothing to tell. -/
  | nothing
  /-- A yes or no. -/
  | truth (b : Bool)
  /-- A number. -/
  | number (n : Int)
  /-- A text. -/
  | text (s : String)
  /-- A task: the number of its frame, whether it was started, whether it is complete. -/
  | info (number : Option Nat) (started complete : Bool)
  /-- The counters of a worker, and how many frames are on its run lists. -/
  | stats (s : Stats) (pending : Nat)
  /-- Whether a lock is held, and its number if it is not. -/
  | lockState (held : Bool) (value : Option Int)
  /-- The slot is vacant. -/
  | vacant
  /-- The frame was destroyed. -/
  | stale
  /-- The frame is being polled. -/
  | running
  /-- The task has no frame. -/
  | taken
  /-- It named something that does not exist. -/
  | refused
  /-- A fault. -/
  | failed (f : Fault)
  deriving DecidableEq, Repr

namespace Session

/-- Where the caller runs. -/
def place : Place := {}

/-- How many steps a run may take. -/
def fuel : Nat := Nat.pow 10 12

/-- Answer with another world. -/
def answer (s : Session) (world : World) (r : Reply) : Session × Reply := ({ s with world }, r)

/-- Answer with another world or a fault. -/
def attempt (s : Session) : Except Fault World → Session × Reply
  | .ok world => s.answer world .nothing
  | .error e => (s, .failed e)

/-- Carry out `act` on the task of a name. -/
def onTask (s : Session) (name : String) (act : Task → Session × Reply) : Session × Reply :=
  match s.world.tasks.get? name with
  | some t => act t
  | none => (s, .refused)

/-- Record another state of a task. -/
def setTask (w : World) (name : String) (t : Task) : World :=
  { w with tasks := w.tasks.set name t }

/-- Run activities of the caller's thread to their end. -/
def runThread (s : Session) (begun : World × Thread × Progress) : Session × Reply :=
  let ended := match begun with
    | (w, t, .running) => t.run fuel w
    | ended => ended
  match ended with
  | (w, t, .finished (.output o)) => s.answer (w.dropOutput t.toPlace o) (.number o.value)
  | (w, _, .finished (.count n)) => s.answer w (.number n)
  | (w, _, .failed e) => s.answer w (.failed e)
  | (w, _, .aborted e) => ({ s with world := w, aborted := some e }, .failed e)
  | (w, _, _) => s.answer w .nothing

/-- Schedule a frame on a worker, unless it was destroyed or is being polled. -/
def scheduleFrame (s : Session) (p : Place) (k : WorkerId) (f : FrameId) : Session × Reply :=
  if !(s.world.frame f).alive then (s, .stale)
  else if (s.world.frame f).stage == .running then (s, .running)
  else s.attempt (s.world.schedule p k f)

/-- The session after a name was mentioned as a worker, and that worker. -/
def worker (s : Session) (name : String) : Session × WorkerId :=
  let (world, k) := s.world.namedWorker name
  ({ s with world }, k)

/-- Start a task on a worker and record its handle. -/
def startTask (s : Session) (name : String) (k : WorkerId) (t : Task) : Session × Reply :=
  match s.world.startTask place k t with
  | (t, .ok world) => s.answer (setTask world name t) .nothing
  | (t, .error e) => s.answer (setTask s.world name t) (.failed e)

/-- Carry out one operation. -/
def act (s : Session) : Op → Session × Reply
  | .worker name hook =>
    let old := s.world.workerNames.get? name
    let (world, k) := s.world.newWorker hook
    let world := { world with workerNames := world.workerNames.set name k }
    let world := match old with
      | some old => world.dropWorker place old
      | none => world
    s.answer world .nothing
  | .dropWorker name =>
    match s.world.workerNames.get? name with
    | none => (s, .truth false)
    | some k =>
      let world := { s.world with workerNames := s.world.workerNames.erase name }
      s.answer (world.dropWorker place k) (.truth true)
  | .spawn worker body arg =>
    let (s, k) := s.worker worker
    s.answer (s.world.spawnDetached place k body arg) .nothing
  | .spawnFree body _ => s.answer (s.world.say place ("~" ++ body)) (.failed .noActiveWorker)
  | .new task body arg =>
    let (world, t) := s.world.newTask place body arg
    let old := world.tasks.get? task
    let world := setTask world task t
    let world := match old with
      | some old => world.dropTask place old
      | none => world
    s.answer world (.number (s.world.frameCount + 1))
  | .start task worker =>
    s.onTask task fun t =>
      let (s, k) := s.worker worker
      s.startTask task k t
  | .startFree task => s.onTask task fun _ => (s, .failed .noActiveWorker)
  | .take task =>
    s.onTask task fun t =>
      match s.world.takeOutput place t with
      | (world, t, some o) =>
        s.answer ((setTask world task t).dropOutput place o) (.number o.value)
      | (world, t, none) => s.answer (setTask world task t) .nothing
  | .poll task =>
    s.onTask task fun t =>
      match s.world.pollTask place t with
      | (world, t, .ready o) =>
        s.answer ((setTask world task t).dropOutput place o) (.number o.value)
      | (world, t, .pending) => s.answer (setTask world task t) (.text "pending")
      | (world, t, .fault e) => s.answer (setTask world task t) (.failed e)
  | .drop task =>
    match s.world.tasks.get? task with
    | none => (s, .truth false)
    | some t =>
      let world := { s.world with tasks := s.world.tasks.erase task }
      s.answer (world.dropTask place t) (.truth true)
  | .info task =>
    s.onTask task fun t =>
      (s, .info (t.frame.map frameNumber) t.started (s.world.isTaskComplete t))
  | .debug task => s.onTask task fun t => (s, .text (s.world.taskText t))
  | .pump worker =>
    let (s, k) := s.worker worker
    s.runThread (s.world, ({} : Thread).beginPump k, .running)
  | .blockOn worker body arg =>
    let (s, k) := s.worker worker
    let (world, t) := s.world.newTask place body arg
    s.runThread (Thread.beginBlock world {} k t false)
  | .blockOnTask worker task =>
    let (s, k) := s.worker worker
    s.onTask task fun t =>
      let world := { s.world with tasks := s.world.tasks.erase task }
      s.runThread (Thread.beginBlock world {} k t false)
  | .blockOnFree body arg =>
    let (world, k) := s.world.newWorker .unlock
    let (world, t) := world.newTask place body arg
    s.runThread (Thread.beginBlock world {} k t true)
  | .stats worker =>
    let (s, k) := s.worker worker
    (s, .stats (s.world.worker k).stats (s.world.pending k))
  | .pending worker =>
    let (s, k) := s.worker worker
    (s, .number (s.world.pending k))
  | .workerDebug worker =>
    let (s, k) := s.worker worker
    (s, .text (s.world.workerText k))
  | .current worker =>
    let (s, k) := s.worker worker
    match (s.world.worker k).current with
    | some f => (s, .number (frameNumber f))
    | none => (s, .nothing)
  | .slotOccupied slot => (s, .truth (s.world.slot slot).isSome)
  | .slotDebug slot =>
    (s, .text (Text.record "ParkSlot" [("occupied", Text.truth (s.world.slot slot).isSome)]))
  | .takeSlot slot handle =>
    match s.world.takeSlot slot with
    | (world, none) => s.answer world .nothing
    | (world, some f) =>
      if (world.frame f).alive then
        ({ s with world, handles := s.handles.set handle f }, .text (world.handleText f))
      else s.answer world .stale
  | .schedule worker handle =>
    match s.handles.get? handle with
    | none => (s, .refused)
    | some f =>
      let (s, k) := s.worker worker
      s.scheduleFrame place k f
  | .unpark slot worker =>
    let (s, k) := s.worker worker
    match s.world.takeSlot slot with
    | (world, none) => s.answer world .vacant
    | (world, some f) => { s with world }.scheduleFrame place k f
  | .scheduleTask worker task =>
    s.onTask task fun t =>
      match t.frame with
      | none => (s, .taken)
      | some f =>
        let (s, k) := s.worker worker
        s.scheduleFrame place k f
  | .foreign handle =>
    match s.handles.get? handle with
    | none => (s, .refused)
    | some f => s.scheduleFrame { thread := 1 } s.world.workerCount f
  | .cancel token => s.answer (s.world.cancel token) .nothing
  | .child token parent => s.answer (s.world.addChildToken token parent) .nothing
  | .lockState lock =>
    let l := s.world.lock lock
    (s, .lockState l.held (if l.held then none else some l.value))
  | .pollYield => (s, .failed .noActiveWorker)
  | .pollPark _ => (s, .failed .noActiveWorker)

/-- Carry out one operation with a log of its own. -/
def apply (s : Session) (op : Op) : Session × Reply :=
  { s with world := { s.world with log := #[] } }.act op

/-- What was logged by the last operation. -/
def logged (s : Session) : List String := (s.world.log.map Prod.snd).toList

/-- The counters of the workers by name, each with how many frames are on its run lists. -/
def workerStats (s : Session) : Registers (Stats × Nat) :=
  s.world.workerNames.map fun k => ((s.world.worker k).stats, s.world.pending k)

/-- Drop all tasks in name order, then all workers. -/
def close (s : Session) : Session :=
  let world := { s.world with log := #[], tasks := .empty, workerNames := .empty }
  let world := world.dropTasks place s.world.tasks.values
  let world := s.world.workerNames.values.foldl (fun w k => w.dropWorker place k) world
  { s with world }

end Session

end Substrate.Coro
