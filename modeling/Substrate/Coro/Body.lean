import Substrate.Cancel

/-!
# Bodies

The language in which the work of a frame is written.  A body has a number
`n` it is called with and an accumulator that starts at 0 and is its result.
It can make further tasks and start, await or drop them, give up the worker
for a while, and park until another frame wakes it.
-/

namespace Substrate.Coro

/-- Something a body can wait for. -/
inductive Wanted where
  /-- Its next turn. -/
  | turn
  /-- The result of the task under a name. -/
  | task (name : String)
  /-- To be taken from a slot, in which it parks with the given token number. -/
  | park (slot : String) (token : Nat)
  /-- Its next turn, provided a cancel token stays uncancelled. -/
  | checkpoint (token : String)
  /-- Something this language does not know, which is there at once. -/
  | unknown
  deriving DecidableEq, Repr

/-- What a body raises with. -/
inductive Payload where
  /-- A text. -/
  | text (s : String)
  /-- Something that has no text. -/
  | other
  deriving DecidableEq, Repr

/-- The message a payload is reported with. -/
def Payload.message : Payload → String
  | .text s => s
  | .other => "unknown panic"

/-- A statement of a body.  A child is called with `n` plus the given delta. -/
inductive Stmt where
  /-- Log a text. -/
  | log (text : String)
  /-- Log the accumulator. -/
  | logAcc
  /-- Log `n`. -/
  | logArg
  /-- Add to the accumulator. -/
  | add (k : Int)
  /-- Add `n` to the accumulator. -/
  | addArg
  /-- Return. -/
  | ret
  /-- Name the guard of the result. -/
  | guard (name : String)
  /-- Run a block a number of times. -/
  | times (count : Nat) (block : List Stmt)
  /-- Run the first block if `n` is 0 and the second otherwise. -/
  | ifZero (yes no : List Stmt)
  /-- Give up the worker until the next turn. -/
  | yield
  /-- Make a task, await it at once, and add its result. -/
  | await (body : String) (delta : Int)
  /-- Start a detached frame on the current worker. -/
  | spawn (body : String) (delta : Int)
  /-- Start a detached frame on a worker. -/
  | spawnOn (worker body : String) (delta : Int)
  /-- Make a task. -/
  | new (task body : String) (delta : Int)
  /-- Start a task on the current worker. -/
  | start (task : String)
  /-- Start a task on a worker. -/
  | startOn (task worker : String)
  /-- Await a task and add its result. -/
  | join (task : String)
  /-- Take the result of a task if it is there. -/
  | take (task : String)
  /-- Drop a task. -/
  | drop (task : String)
  /-- Give a task another name. -/
  | give (task name : String)
  /-- Log the state of a task. -/
  | info (task : String)
  /-- Park in a slot with a token number. -/
  | park (slot : String) (token : Nat)
  /-- Take the frame in a slot and schedule it on a worker. -/
  | unpark (slot worker : String)
  /-- Add to a lock's number and park with the lock's token, unless it is held. -/
  | tryLockPark (lock : String) (k : Int) (slot : String)
  /-- Add to a lock's number, unless it is held. -/
  | tryLockAdd (lock : String) (k : Int)
  /-- Wait for a lock, add to its number and park with its token. -/
  | lockPark (lock : String) (k : Int) (slot : String)
  /-- Wait for a lock and add to its number. -/
  | lockAdd (lock : String) (k : Int)
  /-- Log whether a lock is held, on the way out of parking with it. -/
  | logUnparked (lock : String)
  /-- Cancel a token. -/
  | cancel (token : String)
  /-- Log whether a token is cancelled. -/
  | check (token : String)
  /-- Await a checkpoint of a token and log how it went. -/
  | checkpoint (token : String)
  /-- Run a block until a checkpoint fails or it ran `most` times. -/
  | spin (token : String) (most : Nat) (block : List Stmt)
  /-- Go on running a block that ran `spins` times, under the token it began with. -/
  | spinAgain (token : CancelToken) (spins most : Nat) (block : List Stmt)
  /-- Await everything in a list. -/
  | all (wanted : List Wanted)
  /-- Await the first of a list. -/
  | any (wanted : List Wanted)
  /-- Ask for something once and go on either way. -/
  | pollOnce (wanted : Wanted)
  /-- Run a body to its end on a worker made for it. -/
  | blockOn (body : String) (delta : Int)
  /-- Run a body to its end on a worker. -/
  | blockOnWith (worker body : String) (delta : Int)
  /-- Pump a worker. -/
  | pump (worker : String)
  /-- Have a worker schedule its current frame. -/
  | scheduleSelf (worker : String)
  /-- Log the current frame of a worker. -/
  | frame (worker : String)
  /-- Raise. -/
  | raise (payload : Payload)
  /-- Something this language does not know. -/
  | unknown (name : String)
  deriving Repr

instance : Inhabited Stmt := ⟨.ret⟩

end Substrate.Coro
