import Substrate.Lock

/-!
# Sections of code under the park lock

What a section may do while it has the lock: look at the guarded value, change
it, try to take the lock once more for a section within, and return or raise.
The lock is held while a section runs and let go when the section is left,
whichever way; only a parking section that returns keeps it.
-/

namespace Substrate

namespace Lock

/-- How a section ends. -/
inductive Ending where
  /-- It returns. -/
  | returns
  /-- It raises. -/
  | raises
  deriving DecidableEq, Repr

/-- A section of code. -/
inductive Section (α : Type) where
  /-- It ends. -/
  | done (ending : Ending)
  /-- It changes the value and goes on. -/
  | update (change : α → α) (rest : Section α)
  /-- It looks at the value and goes on. -/
  | look (rest : α → Section α)
  /-- It tries to lock for a section within and goes on, knowing whether that ran. -/
  | attempt (inner : Section α) (rest : Bool → Section α)

/-- What a section leaves behind. -/
structure Outcome (M α : Type) [RawMutex M] where
  /-- The lock. -/
  lock : RuntimeLock M α
  /-- How the section ended. -/
  ending : Ending
  /-- Whether each section tried from within ran, in order. -/
  attempts : List Bool := []

variable {M α : Type} [RawMutex M]

/-- The lock is let go of when the section is left. -/
def Outcome.released (r : Outcome M α) : Outcome M α := { r with lock := r.lock.release }

/-- Run a section on a lock as it stands.  A section within runs if the lock can be taken, and has
it until it is left. -/
def Section.perform : Section α → RuntimeLock M α → Outcome M α
  | .done ending, l => { lock := l, ending }
  | .update change rest, l => rest.perform { l with value := change l.value }
  | .look rest, l => (rest l.value).perform l
  | .attempt inner rest, l =>
    match l.tryAcquire with
    | none =>
      let after := (rest false).perform l
      { after with attempts := false :: after.attempts }
    | some l =>
      let within := (inner.perform l).released
      match within.ending with
      | .raises => { within with attempts := true :: within.attempts }
      | .returns =>
        let after := (rest true).perform within.lock
        { after with attempts := true :: within.attempts ++ after.attempts }

end Lock

namespace RuntimeLock

open Lock (Section Outcome)

variable {M α : Type} [RawMutex M]

/-- Wait for the lock, run a section and let go. -/
def lock? (l : RuntimeLock M α) (s : Section α) : Option (Outcome M α) :=
  l.acquire.map fun l => (s.perform l).released

/-- Run a section and let go, if the lock can be taken now. -/
def tryLock? (l : RuntimeLock M α) (s : Section α) : Option (Outcome M α) :=
  l.tryAcquire.map fun l => (s.perform l).released

/-- Wait for the lock, run a section, and keep the lock if the section returns. -/
def lockForPark? (l : RuntimeLock M α) (s : Section α) : Option (Outcome M α) :=
  l.acquire.map fun l =>
    let r := s.perform l
    match r.ending with
    | .returns => r
    | .raises => r.released

/-- Change the guarded value, unless the lock is held. -/
def update? (l : RuntimeLock M α) (change : α → α) : Option (RuntimeLock M α) :=
  (l.lock? (.update change (.done .returns))).map Outcome.lock

/-- Change the guarded value and keep the lock, unless it is held already. -/
def hold? (l : RuntimeLock M α) (change : α → α) : Option (RuntimeLock M α) :=
  (l.lockForPark? (.update change (.done .returns))).map Outcome.lock

end RuntimeLock

end Substrate
