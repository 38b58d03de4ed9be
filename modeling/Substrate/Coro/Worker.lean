import Substrate.Coro.Frame
import Substrate.Text.Record

/-!
# Workers

A worker has a ready list and a deferred list of frames, a current frame while
it polls, and counters.  A body that suspends leaves a request with the worker
that polls it, which tells where the frame goes next.
-/

namespace Substrate.Coro

/-- What a worker counts. -/
structure Stats where
  /-- Polls that ended. -/
  resumed : Nat := 0
  /-- Frames put on the ready list from outside the deferred list. -/
  enqueued : Nat := 0
  /-- Polls that ended in a slot. -/
  parked : Nat := 0
  /-- Polls that ended on the deferred list. -/
  yielded : Nat := 0
  /-- Frames put on the retire list. -/
  retired : Nat := 0
  /-- Frames destroyed. -/
  destroyed : Nat := 0
  /-- The greatest length of the ready list seen when a frame was put on it. -/
  peak : Nat := 0
  deriving DecidableEq, Repr

/-- The diagnostic form of the counters. -/
def Stats.debugText (s : Stats) : String :=
  Text.record "WorkerStats"
    [("resumed", toString s.resumed), ("enqueued", toString s.enqueued),
     ("parked", toString s.parked), ("yielded", toString s.yielded),
     ("retired", toString s.retired), ("destroyed", toString s.destroyed),
     ("peak_queue_depth", toString s.peak)]

/-- Where a suspending body asks its frame to go. -/
inductive Suspension where
  /-- On the deferred list. -/
  | turn
  /-- Into a slot, and then the token is released. -/
  | park (slot : String) (token : LockToken)
  deriving DecidableEq, Repr

/-- What a worker does with the token of a frame that has been parked. -/
inductive ReleaseHook where
  /-- Let go of the lock the token stands for. -/
  | unlock
  /-- Log the token and which slots are occupied. -/
  | report
  deriving DecidableEq, Repr

/-- A worker, apart from its run lists. -/
structure Worker where
  /-- The frame it polls. -/
  current : Option FrameId := none
  /-- What the body it polls has asked for. -/
  suspension : Option Suspension := none
  /-- What it does with the tokens of parked frames. -/
  hook : ReleaseHook := .unlock
  /-- Complete frames to destroy, newest first. -/
  retired : List FrameId := []
  /-- Its counters. -/
  stats : Stats := {}
  deriving DecidableEq, Repr

instance : Inhabited Worker := ⟨{}⟩

/-- The number of a worker's ready list. -/
def readyList (w : WorkerId) : Nat := 2 * w

/-- The number of a worker's deferred list. -/
def deferredList (w : WorkerId) : Nat := 2 * w + 1

end Substrate.Coro
