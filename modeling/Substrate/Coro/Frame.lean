import Substrate.Coro.Body
import Substrate.Lock

/-!
# Frames and tasks

A frame is one run of a body together with its place in the life cycle.  A
task is the handle that owns a frame until its result was taken or the handle
let go of it.
-/

namespace Substrate.Coro

/-- Frames are named by numbers in order of allocation. -/
abbrev FrameId := Nat

/-- Workers are named by numbers in order of creation. -/
abbrev WorkerId := Nat

/-- Threads are named by numbers. -/
abbrev ThreadId := Nat

/-- The number a frame is shown by; 0 is left for no frame. -/
def frameNumber (f : FrameId) : Nat := f + 1

/-- The result of a body, with the guard that tells when it is dropped. -/
structure Output where
  /-- The accumulator the body ended with. -/
  value : Int
  /-- The name of the guard, if the body set one. -/
  guard : Option String := none
  deriving DecidableEq, Repr

/-- A handle on a frame. -/
structure Task where
  /-- The frame; none once its result was taken. -/
  frame : Option FrameId
  /-- Whether the frame was put on a run list through this handle. -/
  started : Bool := false
  deriving DecidableEq, Repr

/-- What a parking frame hands over to be released. -/
inductive LockToken where
  /-- Nothing. -/
  | none
  /-- A bare number other than 0. -/
  | raw (n : RawToken)
  /-- A lock by name. -/
  | lock (name : String)
  deriving DecidableEq, Repr

namespace LockToken

/-- The token of a bare number. -/
def ofRaw (n : RawToken) : LockToken := if n = 0 then .none else .raw n

/-- Whether there is nothing to release. -/
def isNone : LockToken → Bool
  | .none => true
  | _ => false

/-- What a token is called in a report. -/
def label : LockToken → String
  | .none => "0"
  | .raw n => toString n
  | .lock name => name

/-- The diagnostic form of a token. -/
def debugText : LockToken → String
  | .none => rawTokenText 0
  | .raw n => rawTokenText n
  | .lock name => "LockToken(" ++ name ++ ")"

end LockToken

/-- Something a suspended body waits for, with how far it got. -/
inductive Future where
  /-- The next turn, which was asked for or not. -/
  | turn (asked : Bool)
  /-- The result of the task under a name. -/
  | task (name : String)
  /-- The result of a task that nothing else refers to. -/
  | child (task : Task)
  /-- To be taken from a slot. -/
  | park (slot : String) (token : LockToken) (asked : Bool)
  /-- A turn between two checks of the cancel token that a name had at first. -/
  | checkpoint (name : String) (token : CancelToken) (asked : Bool)
  /-- Something that is there at once. -/
  | unknown
  deriving DecidableEq, Repr

/-- What the body of a suspended frame waits for. -/
inductive Wait where
  /-- One thing. -/
  | one (future : Future)
  /-- All that is still pending of a list. -/
  | all (pending : List Future)
  /-- The first of a list. -/
  | any (futures : List Future)
  /-- A checkpoint, to run a block once more. -/
  | spin (token : CancelToken) (asked : Bool) (spins most : Nat) (block : List Stmt)
  deriving Repr

/-- Where a frame is in its life. -/
inductive Stage where
  /-- It was never polled. -/
  | created
  /-- It was polled and did not return. -/
  | suspended
  /-- It is being polled. -/
  | running
  /-- Its body returned. -/
  | complete
  deriving DecidableEq, Repr

/-- Who disposes of a complete frame. -/
inductive Disposal where
  /-- Its task. -/
  | awaited
  /-- The worker it completed on. -/
  | detached
  deriving DecidableEq, Repr

/-- How a frame came to be destroyed. -/
inductive Ending where
  /-- Its task took its result. -/
  | taken (o : Option Output)
  /-- Its task was dropped. -/
  | dropped
  /-- The worker it completed on disposed of it. -/
  | retired
  deriving DecidableEq, Repr

/-- One run of a body. -/
structure Frame where
  /-- The name of the body. -/
  body : String := ""
  /-- What the body was called with. -/
  arg : Int := 0
  /-- The accumulator. -/
  acc : Int := 0
  /-- The guard of the result. -/
  guard : Option String := none
  /-- The statements still to run. -/
  code : List Stmt := []
  /-- What the body waits for before it goes on. -/
  wait : Option Wait := none
  /-- The tasks of the body by name, oldest first. -/
  tasks : List (String × Task) := []
  /-- Where it is in its life. -/
  stage : Stage := .created
  /-- Who disposes of it. -/
  disposal : Disposal := .awaited
  /-- The frame to wake when it completes. -/
  continuation : Option FrameId := none
  /-- The worker that polled it last. -/
  runner : Option WorkerId := none
  /-- The thread it is bound to, if any. -/
  home : Option ThreadId := none
  /-- Whether it was put on a retire list. -/
  retired : Bool := false
  /-- Whether it exists and was not destroyed. -/
  alive : Bool := false
  /-- The result, from completion until it is taken. -/
  output : Option Output := none
  /-- Whether the result outlives the return of the body. -/
  keepsOutput : Bool := true
  /-- Whether a pool counts it as in flight until its body returns. -/
  counted : Bool := false
  deriving Repr

namespace Frame

instance : Inhabited Frame := ⟨{}⟩

/-- Whether the body has returned. -/
def isComplete (f : Frame) : Bool := f.stage == .complete

/-- Whether code on a thread may run the frame. -/
def isAtHome (f : Frame) (thread : ThreadId) : Bool :=
  match f.home with
  | none => true
  | some home => home == thread

/-- The task a wait refers to alone. -/
def waitTasks : Option Wait → List Task
  | some (.one (.child t)) => [t]
  | _ => []

/-- The tasks an unfinished body holds, in the order in which they are dropped. -/
def heldTasks (f : Frame) : List Task := waitTasks f.wait ++ f.tasks.map Prod.snd

/-- The body's own task under a name. -/
def task? (f : Frame) (name : String) : Option Task := f.tasks.lookup name

/-- The frame without its own task of a name. -/
def eraseTask (f : Frame) (name : String) : Frame :=
  { f with tasks := f.tasks.filter fun e => e.1 != name }

/-- The frame with a task as its newest. -/
def addTask (f : Frame) (name : String) (t : Task) : Frame :=
  { f with tasks := (f.eraseTask name).tasks ++ [(name, t)] }

/-- The frame with another state of its task of a name. -/
def setTask (f : Frame) (name : String) (t : Task) : Frame :=
  { f with tasks := f.tasks.map fun e => if e.1 == name then (name, t) else e }

end Frame

end Substrate.Coro
