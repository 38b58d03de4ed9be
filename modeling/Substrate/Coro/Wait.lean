import Substrate.Coro.Task

/-!
# Waiting

How a body asks for the things it waits for.  Asking leaves a request with the
worker or a wake-up with another frame; when the frame is polled again, the
same wait is asked again until it is ready.
-/

namespace Substrate.Coro.World

/-! ## Tasks by name -/

/-- Whether the task of a name belongs to everyone and not to the body that mentions it. -/
def isShared (name : String) : Bool := name.toList.head? == some '@'

/-- The task a body means by a name. -/
def findTask (w : World) (f : FrameId) (name : String) : Option Task :=
  if isShared name then w.tasks.get? name else (w.frame f).task? name

/-- Record another state of the task a body means by a name. -/
def updateTask (w : World) (f : FrameId) (name : String) (t : Task) : World :=
  if isShared name then
    if w.tasks.contains name then { w with tasks := w.tasks.set name t } else w
  else w.modifyFrame f (·.setTask name t)

/-- Take a task out of a name. -/
def removeTask (w : World) (f : FrameId) (name : String) : World :=
  if isShared name then { w with tasks := w.tasks.erase name }
  else w.modifyFrame f (·.eraseTask name)

/-- Put a task under a name and drop the one it had. -/
def addTask (w : World) (p : Place) (f : FrameId) (name : String) (t : Task) : World :=
  let old := w.findTask f name
  let w :=
    if isShared name then { w with tasks := w.tasks.set name t }
    else w.modifyFrame f (·.addTask name t)
  match old with
  | some old => w.dropTask p old
  | none => w

/-! ## Futures -/

/-- Add to the accumulator of a frame, around at 64 bits. -/
def gain (w : World) (f : FrameId) (k : Int) : World :=
  w.modifyFrame f fun frame => { frame with acc := IntType.int64.wrap (frame.acc + k) }

/-- Add a result to the accumulator of a frame and drop it. -/
def useOutput (w : World) (p : Place) (f : FrameId) (o : Output) : World :=
  (w.gain f o.value).dropOutput p o

/-- Leave a request with the worker entered. -/
def request (w : World) (p : Place) (s : Suspension) : Except Fault World :=
  match p.worker with
  | none => .error .noActiveWorker
  | some k => .ok (w.modifyWorker k fun worker => { worker with suspension := some s })

/-- What asking for a future gives. -/
inductive Asked where
  /-- It is pending; this is what is left to ask for. -/
  | pending (future : Future)
  /-- It is there. -/
  | ready
  /-- It raises. -/
  | fault (f : Fault)

/-- The future of something wanted, before it was asked for.  A cancel token is looked up
here and kept, whatever its name stands for later. -/
def begin (w : World) : Wanted → World × Future
  | .turn => (w, .turn false)
  | .task name => (w, .task name)
  | .park slot token => (w, .park slot (.ofRaw token) false)
  | .checkpoint name =>
    let (w, token) := w.namedToken name
    (w, .checkpoint name token false)
  | .unknown => (w, .unknown)

/-- The futures of everything wanted. -/
def beginAll (w : World) : List Wanted → World × List Future
  | [] => (w, [])
  | wanted :: rest =>
    let (w, future) := w.begin wanted
    let (w, futures) := w.beginAll rest
    (w, future :: futures)

/-- The line logged when a checkpoint has ended. -/
def checkpointText (w : World) (name : String) (token : CancelToken) : String :=
  (if token.isCancelled w.flags then cancelledMessage else "ok") ++ ":" ++ name

/-- Ask for a future on behalf of frame `f`. -/
def ask (w : World) (p : Place) (f : FrameId) : Future → World × Asked
  | .turn true => (w, .ready)
  | .turn false =>
    match w.request p .turn with
    | .ok w => (w, .pending (.turn true))
    | .error e => (w, .fault e)
  | .task name =>
    match w.findTask f name with
    | none => (w.say p ("none:" ++ name), .ready)
    | some t =>
      match w.pollTask p t with
      | (w, t, .pending) => (w.updateTask f name t, .pending (.task name))
      | (w, t, .ready o) => ((w.updateTask f name t).useOutput p f o, .ready)
      | (w, t, .fault e) => (w.updateTask f name t, .fault e)
  | .child t =>
    match w.pollTask p t with
    | (w, t, .pending) => (w, .pending (.child t))
    | (w, _, .ready o) => (w.useOutput p f o, .ready)
    | (w, _, .fault e) => (w, .fault e)
  | .park _ _ true => (w, .ready)
  | .park slot token false =>
    match w.request p (.park slot token) with
    | .ok w => (w, .pending (.park slot token true))
    | .error e => (w, .fault e)
  | .checkpoint name token true => (w.say p (w.checkpointText name token), .ready)
  | .checkpoint name token false =>
    if token.isCancelled w.flags then (w.say p (w.checkpointText name token), .ready)
    else
      match w.request p .turn with
      | .ok w => (w, .pending (.checkpoint name token true))
      | .error e => (w, .fault e)
  | .unknown => (w, .ready)

/-- Ask for each of a list: what is still pending, or the first fault. -/
def askAll (w : World) (p : Place) (f : FrameId) : List Future → World × Except Fault (List Future)
  | [] => (w, .ok [])
  | future :: rest =>
    match w.ask p f future with
    | (w, .ready) => w.askAll p f rest
    | (w, .pending future) =>
      let (w, left) := w.askAll p f rest
      (w, left.map (future :: ·))
    | (w, .fault e) => (w, .error e)

/-- Ask in order until one is ready: its index after `i`, or what is left to ask for. -/
def askAny (w : World) (p : Place) (f : FrameId) (i : Nat) :
    List Future → World × Except Fault (Nat ⊕ List Future)
  | [] => (w, .ok (.inr []))
  | future :: rest =>
    match w.ask p f future with
    | (w, .ready) => (w, .ok (.inl i))
    | (w, .pending future) =>
      let (w, left) := w.askAny p f (i + 1) rest
      (w, left.map fun
        | .inl i => .inl i
        | .inr left => .inr (future :: left))
    | (w, .fault e) => (w, .error e)

/-- What running a body for one step comes to. -/
inductive Move where
  /-- It goes on. -/
  | next
  /-- It waits. -/
  | suspend
  /-- It returns. -/
  | finish
  /-- It pumps a worker before it goes on. -/
  | pump (k : WorkerId)
  /-- It runs a task to its end on a worker, which may have been made for it. -/
  | block (k : WorkerId) (task : Task) (temporary : Bool)
  /-- It raises. -/
  | raise (message : String)
  /-- It waits for a lock that is held; nothing changed. -/
  | stuck

/-- Record what a frame waits for. -/
def setWait (w : World) (f : FrameId) (wait : Option Wait) : World :=
  w.modifyFrame f fun frame => { frame with wait }

/-- Put statements in front of those a frame has still to run. -/
def prepend (w : World) (f : FrameId) (block : List Stmt) : World :=
  w.modifyFrame f fun frame => { frame with code := block ++ frame.code }

/-- The line logged when a spinning block has ended. -/
def spinsText (spins : Nat) : String := s!"spins={spins}"

/-- Ask for what a frame waits for. -/
def askWait (w : World) (p : Place) (f : FrameId) : Wait → World × Move
  | .one future =>
    match w.ask p f future with
    | (w, .ready) => (w.setWait f none, .next)
    | (w, .pending future) => (w.setWait f (some (.one future)), .suspend)
    | (w, .fault e) => (w, .raise e.message)
  | .all futures =>
    match w.askAll p f futures with
    | (w, .ok []) => (w.setWait f none, .next)
    | (w, .ok left) => (w.setWait f (some (.all left)), .suspend)
    | (w, .error e) => (w, .raise e.message)
  | .any [] => ((w.say p "won=-1").setWait f none, .next)
  | .any futures =>
    match w.askAny p f 0 futures with
    | (w, .ok (.inl i)) => ((w.say p s!"won={i}").setWait f none, .next)
    | (w, .ok (.inr left)) => (w.setWait f (some (.any left)), .suspend)
    | (w, .error e) => (w, .raise e.message)
  | .spin token asked spins most block =>
    if token.isCancelled w.flags then ((w.say p (spinsText spins)).setWait f none, .next)
    else if asked then
      ((w.prepend f (block ++ [.spinAgain token (spins + 1) most block])).setWait f none, .next)
    else
      match w.request p .turn with
      | .ok w => (w.setWait f (some (.spin token true spins most block)), .suspend)
      | .error e => (w, .raise e.message)

end Substrate.Coro.World
