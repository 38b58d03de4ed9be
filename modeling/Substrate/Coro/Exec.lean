import Substrate.Coro.Wait
import Substrate.Lock.Section

/-!
# Running statements

What one statement of a body does.  A statement that waits only records the
wait; asking for it is a step of its own.
-/

namespace Substrate.Coro.World

/-- Carry out `act` on the task a body means by a name; an absent one is logged. -/
def onTask (w : World) (p : Place) (f : FrameId) (name : String)
    (act : Task → World × Move) : World × Move :=
  match w.findTask f name with
  | some t => act t
  | none => (w.say p ("none:" ++ name), .next)

/-- Start a task of a body on a worker. -/
def startNamed (w : World) (p : Place) (f : FrameId) (name : String) (k : WorkerId) (t : Task) :
    World × Move :=
  match w.startTask p k t with
  | (t, .ok w) => (w.updateTask f name t, .next)
  | (t, .error e) => (w.updateTask f name t, .raise e.message)

/-- The number after adding to it, around at 64 bits. -/
def bump (k : Int) (value : Int) : Int := IntType.int64.wrap (value + k)

/-- Take a lock for parking and wait in a slot. -/
def parkHolding (w : World) (p : Place) (f : FrameId) (lock slot : String) (l : ParkLock) :
    World × Move :=
  let w := (w.setLock lock l).say p s!"parking:{l.value}"
  (w.setWait f (some (.one (.park slot (.lock lock) false))), .next)

/-- Take the frame out of a slot and schedule it on a worker. -/
def unpark (w : World) (p : Place) (slot : String) (k : WorkerId) : World × Move :=
  match w.takeSlot slot with
  | (w, none) => (w.say p ("vacant:" ++ slot), .next)
  | (w, some f) =>
    if !(w.frame f).alive then (w.say p ("stale:" ++ slot), .next)
    else if (w.frame f).stage == .running then (w.say p ("running:" ++ slot), .next)
    else
      match w.schedule p k f with
      | .ok w => (w, .next)
      | .error e => (w, .raise e.message)

/-- Take the result of a task of a body, if it is there. -/
def takeNamed (w : World) (p : Place) (f : FrameId) (name : String) (t : Task) : World × Move :=
  match w.takeOutput p t with
  | (w, t, some o) =>
    let w := (w.updateTask f name t).say p s!"took:{name}={o.value}"
    (w.useOutput p f o, .next)
  | (w, t, none) => ((w.updateTask f name t).say p ("pending:" ++ name), .next)

/-- What is logged about a task. -/
def taskInfo (w : World) (t : Task) : String :=
  let number := match t.frame with
    | some f => frameNumber f
    | none => 0
  toString number ++ ":" ++ Text.truth t.started ++ ":" ++ Text.truth (w.isTaskComplete t)

/-- Wait for a checkpoint to run a block once more, unless it ran often enough. -/
def spin (w : World) (p : Place) (f : FrameId) (token : CancelToken) (spins most : Nat)
    (block : List Stmt) : World × Move :=
  if spins < most then (w.setWait f (some (.spin token false spins most block)), .next)
  else (w.say p (spinsText spins), .next)

/-- Run one statement of frame `f`, whose code is already past it. -/
def exec (w : World) (p : Place) (f : FrameId) : Stmt → World × Move
  | .log text => (w.say p text, .next)
  | .logAcc => (w.say p s!"acc={(w.frame f).acc}", .next)
  | .logArg => (w.say p s!"n={(w.frame f).arg}", .next)
  | .add k => (w.gain f k, .next)
  | .addArg => (w.gain f (w.frame f).arg, .next)
  | .ret => (w.modifyFrame f fun frame => { frame with code := [] }, .next)
  | .guard name => (w.modifyFrame f fun frame => { frame with guard := some name }, .next)
  | .times 0 _ => (w, .next)
  | .times (count + 1) block => (w.prepend f (block ++ [.times count block]), .next)
  | .ifZero yes no => (w.prepend f (if (w.frame f).arg = 0 then yes else no), .next)
  | .yield => (w.setWait f (some (.one (.turn false))), .next)
  | .await body delta =>
    let (w, t) := w.newTask p body (bump delta (w.frame f).arg)
    (w.setWait f (some (.one (.child t))), .next)
  | .spawn body delta =>
    match p.worker with
    | some k => (w.spawnDetached p k body (bump delta (w.frame f).arg), .next)
    | none => (w, .raise Fault.noActiveWorker.message)
  | .spawnOn worker body delta =>
    let (w, k) := w.namedWorker worker
    (w.spawnDetached p k body (bump delta (w.frame f).arg), .next)
  | .new task body delta =>
    let (w, t) := w.newTask p body (bump delta (w.frame f).arg)
    (w.addTask p f task t, .next)
  | .start task =>
    w.onTask p f task fun t =>
      match p.worker with
      | some k => w.startNamed p f task k t
      | none => (w, .raise Fault.noActiveWorker.message)
  | .startOn task worker =>
    let (w, k) := w.namedWorker worker
    w.onTask p f task (w.startNamed p f task k)
  | .join task => (w.setWait f (some (.one (.task task))), .next)
  | .take task => w.onTask p f task (w.takeNamed p f task)
  | .drop task => w.onTask p f task fun t => ((w.removeTask f task).dropTask p t, .next)
  | .give task name =>
    match w.findTask f task with
    | some t => ((w.removeTask f task).addTask p f name t, .next)
    | none => (w, .next)
  | .info task => w.onTask p f task fun t => (w.say p (w.taskInfo t), .next)
  | .park slot token => (w.setWait f (some (.one (.park slot (.ofRaw token) false))), .next)
  | .unpark slot worker =>
    let (w, k) := w.namedWorker worker
    w.unpark p slot k
  | .tryLockPark lock k slot =>
    match (w.lock lock).hold? (bump k) with
    | some l => (w.prepend f [.logUnparked lock]).parkHolding p f lock slot l
    | none => (w.say p ("busy:" ++ lock), .next)
  | .tryLockAdd lock k =>
    match (w.lock lock).update? (bump k) with
    | some l => ((w.setLock lock l).say p s!"{lock}={l.value}", .next)
    | none => (w.say p ("busy:" ++ lock), .next)
  | .lockPark lock k slot =>
    match (w.lock lock).hold? (bump k) with
    | some l => w.parkHolding p f lock slot l
    | none => (w, .stuck)
  | .lockAdd lock k =>
    match (w.lock lock).update? (bump k) with
    | some l => (w.setLock lock l, .next)
    | none => (w, .stuck)
  | .logUnparked lock => (w.say p ("unparked:" ++ Text.truth (w.lock lock).held), .next)
  | .cancel token => (w.cancel token, .next)
  | .check token =>
    (w.say p ((if w.isCancelled token then "cancelled:" else "ok:") ++ token), .next)
  | .checkpoint name =>
    let (w, future) := w.begin (.checkpoint name)
    (w.setWait f (some (.one future)), .next)
  | .spin name most block =>
    let (w, token) := w.namedToken name
    w.spin p f token 0 most block
  | .spinAgain token spins most block => w.spin p f token spins most block
  | .all wanted =>
    let (w, futures) := w.beginAll wanted
    (w.setWait f (some (.all futures)), .next)
  | .any wanted =>
    let (w, futures) := w.beginAll wanted
    (w.setWait f (some (.any futures)), .next)
  | .pollOnce wanted =>
    let (w, future) := w.begin wanted
    match w.ask p f future with
    | (w, .ready) => (w.say p "ready=true", .next)
    | (w, .pending _) => (w.say p "ready=false", .next)
    | (w, .fault e) => (w, .raise e.message)
  | .blockOn body delta =>
    let (w, k) := w.newWorker .unlock
    let (w, t) := w.newTask p body (bump delta (w.frame f).arg)
    (w, .block k t true)
  | .blockOnWith worker body delta =>
    let (w, k) := w.namedWorker worker
    let (w, t) := w.newTask p body (bump delta (w.frame f).arg)
    (w, .block k t false)
  | .pump worker =>
    let (w, k) := w.namedWorker worker
    (w, .pump k)
  | .scheduleSelf worker =>
    let (w, k) := w.namedWorker worker
    match (w.worker k).current with
    | none => (w, .next)
    | some current =>
      match w.schedule p k current with
      | .ok w => (w, .next)
      | .error e => (w, .raise e.message)
  | .frame worker =>
    let (w, k) := w.namedWorker worker
    let number := match (w.worker k).current with
      | some current => frameNumber current
      | none => 0
    (w.say p s!"frame={number}", .next)
  | .raise payload => (w, .raise payload.message)
  | .unknown name => (w.say p ("bad:" ++ name), .next)

end Substrate.Coro.World
