import Substrate.Coro.World

/-!
# Tasks

What a handle does to its frame.  Dropping the handle of a frame that never
started or is complete destroys the frame, and with it what the frame holds;
dropping the handle of any other frame detaches it, so that the worker it
completes on disposes of it.
-/

namespace Substrate.Coro.World

/-- Drop a result. -/
def dropOutput (w : World) (p : Place) (o : Output) : World :=
  match o.guard with
  | some guard => w.say p ("drop:" ++ guard)
  | none => w

/-- Destroy a frame: its result goes first, then its body.  Gives the tasks that the
body still held. -/
def endFrame (w : World) (p : Place) (f : FrameId) (ending : Ending) : World × List Task :=
  let frame := w.frame f
  let w := match frame.output with
    | some o => w.dropOutput p o
    | none => w
  let w := w.say p ("~" ++ frame.body)
  let w := { w with ends := (f, ending) :: w.ends }
  (w.modifyFrame f fun frame =>
    { frame with alive := false, output := none, code := [], wait := none, tasks := [] },
   frame.heldTasks)

/-- Count a destroyed frame, if the worker entered is the one that polled it last. -/
def noteDestroyed (w : World) (p : Place) (runner : Option WorkerId) : World :=
  match p.worker with
  | none => w
  | some k =>
    if runner = some k then w.count k fun s => { s with destroyed := s.destroyed + 1 } else w

/-- Drop the handle of a frame: the tasks its destruction sets free, if it is destroyed. -/
def letGo (w : World) (p : Place) (t : Task) : World × Option (List Task) :=
  match t.frame with
  | none => (w, none)
  | some f =>
    let frame := w.frame f
    if !t.started || frame.isComplete then
      if frame.alive then
        let (w, held) := w.endFrame p f .dropped
        (w.noteDestroyed p frame.runner, some held)
      else (w, none)
    else
      let w := w.emit (.detach f)
      (w.modifyFrame f fun frame => { frame with continuation := none, disposal := .detached },
       none)

/-- Drop handles in order, up to the first whose frame is destroyed; `next` goes on with
what that frame held and the rest. -/
def dropThrough (next : World → List Task → World) (w : World) (p : Place) : List Task → World
  | [] => w
  | t :: rest =>
    match w.letGo p t with
    | (w, none) => dropThrough next w p rest
    | (w, some held) => next w (held ++ rest)

/-- Drop handles in order.  What a destroyed frame held goes right after it.  `fuel`
bounds the number of frames destroyed on the way. -/
def dropTasksWith : Nat → World → Place → List Task → World
  | 0, w, p, ts => w.dropThrough (fun w _ => w) p ts
  | fuel + 1, w, p, ts => w.dropThrough (fun w more => dropTasksWith fuel w p more) p ts

/-- Drop handles in order.  Each frame is destroyed once at most, so the number of
frames bounds the work. -/
def dropTasks (w : World) (p : Place) (ts : List Task) : World :=
  dropTasksWith w.frameCount w p ts

/-- Drop one handle. -/
def dropTask (w : World) (p : Place) (t : Task) : World := w.dropTasks p [t]

/-- Destroy a frame that no handle owns, and drop what it held. -/
def destroy (w : World) (p : Place) (f : FrameId) (ending : Ending) : World :=
  let (w, held) := w.endFrame p f ending
  w.dropTasks p held

/-- A task for a body. -/
def newTask (w : World) (p : Place) (body : String) (arg : Int) : World × Task :=
  let (w, f) := w.newFrame (some p.thread) .awaited body arg
  (w, { frame := some f })

/-- Start a task on a worker.  The handle counts as started even if the worker refuses
the frame. -/
def startTask (w : World) (p : Place) (k : WorkerId) (t : Task) : Task × Except Fault World :=
  match t.frame with
  | none => (t, .error (.doubleAwait 0))
  | some f => if t.started then (t, .ok w) else ({ t with started := true }, w.schedule p k f)

/-- Whether the frame of a task is complete. -/
def isTaskComplete (w : World) (t : Task) : Bool :=
  match t.frame with
  | none => false
  | some f => (w.frame f).isComplete

/-- Take the result of a task, if its frame is complete; that ends the frame. -/
def takeOutput (w : World) (p : Place) (t : Task) : World × Task × Option Output :=
  match t.frame with
  | none => (w, t, none)
  | some f =>
    let frame := w.frame f
    if frame.isComplete then
      let w := w.modifyFrame f fun frame => { frame with output := none }
      let w := w.destroy p f (.taken frame.output)
      (w.noteDestroyed p frame.runner, { t with frame := none }, frame.output)
    else (w, t, none)

/-- What polling gives. -/
inductive Polled where
  /-- Nothing yet. -/
  | pending
  /-- A result. -/
  | ready (o : Output)
  /-- A fault. -/
  | fault (f : Fault)

/-- Poll a task: take its result, or have the current frame woken when it is there. -/
def pollTask (w : World) (p : Place) (t : Task) : World × Task × Polled :=
  match t.frame with
  | none => (w, t, .fault (.doubleAwait 0))
  | some f =>
    if (w.frame f).isComplete then
      match w.takeOutput p t with
      | (w, t, some o) => (w, t, .ready o)
      | (w, t, none) => (w, t, .fault (.doubleAwait (frameNumber f)))
    else
      match p.worker.bind fun k => (w.worker k).current.map (k, ·) with
      | none => (w, t, .fault .noActiveWorker)
      | some (k, parent) =>
        let w := w.modifyFrame f fun frame =>
          { frame with continuation := frame.continuation.or (some parent) }
        if t.started then (w, t, .pending)
        else (w.enqueue k f, { t with started := true }, .pending)

/-- Destroy the frames a worker has retired, newest first. -/
def drainRetired (w : World) (p : Place) (k : WorkerId) : World :=
  let retired := (w.worker k).retired
  let w := w.modifyWorker k fun worker => { worker with retired := [] }
  let w := retired.foldl (fun w f => (w.emit (.destroyRetired f)).destroy p f .retired) w
  w.count k fun s => { s with destroyed := s.destroyed + retired.length }

/-- Put a complete frame on the retire list of a worker. -/
def retire (w : World) (k : WorkerId) (f : FrameId) : Except Fault World :=
  let w := w.emit (.retire f)
  if (w.frame f).retired then .error (.doubleRetire (frameNumber f))
  else
    let w := w.modifyFrame f fun frame => { frame with retired := true }
    let w := w.modifyWorker k fun worker => { worker with retired := f :: worker.retired }
    .ok (w.count k fun s => { s with retired := s.retired + 1 })

/-- Give up a worker.  The frames on its run lists are never run. -/
def dropWorker (w : World) (p : Place) (k : WorkerId) : World :=
  let w := w.drainRetired p k
  if w.pending k = 0 then w else w.emit (.leak (w.pending k))

end Substrate.Coro.World
