import Substrate.Coro.Exec

/-!
# Threads

A thread runs activities that nest: a worker is pumped, it polls a frame, the
body of that frame pumps another worker or runs a task to its end, and so on.
`Thread.step` does the smallest piece of the innermost activity: one statement
of a body, one request for what a body waits for, or one turn of a pump.
-/

namespace Substrate.Coro

/-- Something a thread is in the middle of. -/
inductive Activity where
  /-- Pumping a worker; `outer` was entered before, and `count` frames were resumed. -/
  | pump (k : WorkerId) (outer : Option WorkerId) (count : Nat)
  /-- Polling a frame; `outer` was the worker's current frame before. -/
  | poll (k : WorkerId) (f : FrameId) (outer : Option FrameId)
  /-- About to release the token of a frame that has been published. -/
  | release (k : WorkerId) (token : LockToken)
  /-- Running a task to its end; `outer` was entered before. -/
  | block (k : WorkerId) (task : Task) (outer : Option WorkerId) (temporary : Bool)
  deriving DecidableEq, Repr

/-- A thread and what it is in the middle of, innermost first. -/
structure Thread extends Place where
  /-- The activities. -/
  stack : List Activity := []
  deriving DecidableEq, Repr

instance : Inhabited Thread := ⟨{}⟩

/-- What an activity ends with. -/
inductive Result where
  /-- Nothing to tell. -/
  | nothing
  /-- How many frames a pump resumed. -/
  | count (n : Nat)
  /-- The result of a task. -/
  | output (o : Output)
  deriving DecidableEq, Repr

/-- How a thread stands after a step. -/
inductive Progress where
  /-- It goes on. -/
  | running
  /-- Its outermost activity ended. -/
  | finished (r : Result)
  /-- A fault left its outermost activity. -/
  | failed (f : Fault)
  /-- A body raised, which ends everything. -/
  | aborted (f : Fault)
  /-- It waits for a lock. -/
  | stuck
  deriving DecidableEq, Repr

namespace Thread

/-- Start to pump a worker. -/
def beginPump (t : Thread) (k : WorkerId) : Thread :=
  { t with worker := some k, stack := .pump k t.worker 0 :: t.stack }

/-- The body of frame `f` raises: it lets go of what it holds, and then everything ends. -/
def abort (w : World) (t : Thread) (f : FrameId) (message : String) : World × Thread × Progress :=
  let w := w.dropTasks t.toPlace (w.frame f).heldTasks
  (w, { t with stack := [] }, .aborted (.unhandledFault (frameNumber f) message))

/-- A fault leaves activities, innermost first, up to a body or to the end. -/
def unwind (w : World) (t : Thread) (e : Fault) : List Activity → World × Thread × Progress
  | [] => (w, { t with stack := [] }, .failed e)
  | .pump _ outer _ :: below => unwind w { t with worker := outer } e below
  | .release _ _ :: below => unwind w t e below
  | .block k task outer temporary :: below =>
    let t := { t with worker := outer }
    let w := w.dropTask t.toPlace task
    let w := if temporary then w.dropWorker t.toPlace k else w
    unwind w t e below
  | .poll _ f _ :: _ => abort w t f e.message

/-- Start to run a task to its end on a worker. -/
def beginBlock (w : World) (t : Thread) (k : WorkerId) (task : Task) (temporary : Bool) :
    World × Thread × Progress :=
  let entered := { t with worker := some k }
  match w.startTask entered.toPlace k task with
  | (task, .ok w) =>
    let entered := { entered with stack := .block k task t.worker temporary :: t.stack }
    (w, entered.beginPump k, .running)
  | (task, .error e) => unwind w entered e (.block k task t.worker temporary :: t.stack)

/-- Hand the result of an ended activity to the one around it. -/
def giveResult (w : World) (t : Thread) (r : Result) : World × Thread × Progress :=
  match t.stack, r with
  | [], r => (w, t, .finished r)
  | .poll .. :: _, .count n => (w.say t.toPlace s!"pumped={n}", t, .running)
  | .poll _ f _ :: _, .output o => (w.useOutput t.toPlace f o, t, .running)
  | _, _ => (w, t, .running)

/-- A worker starts to poll a frame it took from its run lists. -/
def beginPoll (w : World) (t : Thread) (k : WorkerId) (f : FrameId) : World × Thread :=
  let outer := (w.worker k).current
  let w := w.emit (.resume f)
  let w := w.modifyFrame f fun frame => { frame with stage := .running, runner := some k }
  let w := w.modifyWorker k fun worker => { worker with current := some f }
  (w, { t with stack := .poll k f outer :: t.stack })

/-- A poll has ended. -/
def endPoll (w : World) (k : WorkerId) (outer : Option FrameId) : World :=
  w.modifyWorker k fun worker =>
    { worker with current := outer,
                  stats := { worker.stats with resumed := worker.stats.resumed + 1 } }

/-- The body of frame `f` did not return: the frame goes where it asked to go.
`t` is the thread without the poll. -/
def suspend (w : World) (t : Thread) (k : WorkerId) (f : FrameId) (outer : Option FrameId) :
    World × Thread × Progress :=
  let w := endPoll w k outer
  let w := w.modifyFrame f fun frame => { frame with stage := .suspended }
  let asked := (w.worker k).suspension
  let w := w.modifyWorker k fun worker => { worker with suspension := none }
  match asked with
  | none => (w.drainRetired t.toPlace k, t, .running)
  | some .turn =>
    let w := (w.defer k f).count k fun s => { s with yielded := s.yielded + 1 }
    (w.drainRetired t.toPlace k, t, .running)
  | some (.park slot token) =>
    let w := w.count k fun s => { s with parked := s.parked + 1 }
    let w := w.emit (.park f token)
    match w.publish slot f with
    | .error e => unwind w t e t.stack
    | .ok w =>
      if token.isNone then (w.drainRetired t.toPlace k, t, .running)
      else (w, { t with stack := .release k token :: t.stack }, .running)

/-- The body of frame `f` returned: its own tasks go and its result is stored. -/
def finish (w : World) (p : Place) (k : WorkerId) (f : FrameId) (outer : Option FrameId) : World :=
  let frame := w.frame f
  let w := w.modifyFrame f fun frame => { frame with tasks := [] }
  let w := w.dropTasks p (frame.tasks.map Prod.snd)
  let output : Output := ⟨frame.acc, frame.guard⟩
  let w := if frame.keepsOutput then w else w.dropOutput p output
  let w := if frame.counted then { w with inFlight := w.inFlight - 1 } else w
  let w := endPoll w k outer
  let w := w.modifyFrame f fun frame =>
    { frame with stage := .complete, output := if frame.keepsOutput then some output else none }
  w.modifyWorker k fun worker => { worker with suspension := none }

/-- A complete frame is disposed of: the frame that awaits it is woken, or it retires. -/
def dispose (w : World) (t : Thread) (k : WorkerId) (f : FrameId) : World × Thread × Progress :=
  let p := t.toPlace
  match (w.frame f).disposal with
  | .awaited =>
    let parent := (w.frame f).continuation
    let w := w.modifyFrame f fun frame => { frame with continuation := none }
    let w := match parent with
      | some parent => w.enqueue k parent
      | none => w
    (w.drainRetired p k, t, .running)
  | .detached =>
    match w.retire k f with
    | .error e => unwind w t e t.stack
    | .ok w => (w.drainRetired p k, t, .running)

/-- Run the body of frame `f` for one step.  `t` is the thread without the poll. -/
def runBody (w : World) (t : Thread) (k : WorkerId) (f : FrameId) (outer : Option FrameId) :
    World × Thread × Progress :=
  let inside := { t with stack := .poll k f outer :: t.stack }
  let frame := w.frame f
  let (after, move) := match frame.wait, frame.code with
    | some wait, _ => w.askWait t.toPlace f wait
    | none, s :: code =>
      (w.modifyFrame f fun frame => { frame with code }).exec t.toPlace f s
    | none, [] => (w, .finish)
  match move with
  | .next => (after, inside, .running)
  | .pump k => (after, inside.beginPump k, .running)
  | .block k task temporary => beginBlock after inside k task temporary
  | .raise message => abort after inside f message
  | .stuck => (w, inside, .stuck)
  | .suspend => suspend after t k f outer
  | .finish => dispose (finish after t.toPlace k f outer) t k f

/-- One step of the innermost activity. -/
def step (w : World) (t : Thread) : World × Thread × Progress :=
  match t.stack with
  | [] => (w, t, .finished .nothing)
  | .pump k outer count :: below =>
    match w.nextFrame k with
    | none => giveResult w { t with worker := outer, stack := below } (.count count)
    | some (f, w) =>
      if (w.frame f).alive && !(w.frame f).isComplete then
        let (w, t) := beginPoll w { t with stack := .pump k outer (count + 1) :: below } k f
        (w, t, .running)
      else (w.drainRetired t.toPlace k, t, .running)
  | .poll k f outer :: below => runBody w { t with stack := below } k f outer
  | .release k token :: below =>
    let w := w.release t.toPlace (w.worker k).hook token
    (w.drainRetired t.toPlace k, { t with stack := below }, .running)
  | .block k task outer temporary :: below =>
    match w.takeOutput t.toPlace task with
    | (w, _, some o) =>
      let t := { t with worker := outer, stack := below }
      let w := if temporary then w.dropWorker t.toPlace k else w
      giveResult w t (.output o)
    | (w, task, none) =>
      let number := match task.frame with
        | some f => frameNumber f
        | none => 0
      unwind w t (.stalled number) (.block k task outer temporary :: below)

/-- Run until the outermost activity ends, for `fuel` steps at most. -/
def run : Nat → World → Thread → World × Thread × Progress
  | 0, w, t => (w, t, .running)
  | fuel + 1, w, t =>
    match step w t with
    | (w, t, .running) => run fuel w t
    | ended => ended

end Thread

end Substrate.Coro
