import Substrate.Arith
import Substrate.Text.Hex
import Substrate.Text.Record

/-!
# The park lock

A value and a raw lock that guards it.  A plain section takes the lock, runs
and lets go, also when it raises.  A parking section keeps the lock and gives
out a token; whoever releases the token lets go of the lock.

What a raw lock is made of is left open (`RawMutex`), and what it has to do is
said by `LawfulRawMutex`.  The least one is a `Bool`.
-/

namespace Substrate

/-- A token's bare number; 0 stands for no lock. -/
abbrev RawToken := Nat

/-- The diagnostic form of a token's number. -/
def rawTokenText (raw : RawToken) : String :=
  if raw = 0 then "LockToken(none)" else "LockToken(0x" ++ Text.hex raw ++ ")"

/-- Raw locks, as one thread sees them. -/
class RawMutex (M : Type) where
  /-- A lock that was not used yet. -/
  fresh : M
  /-- Whether a lock is held. -/
  isLocked : M → Bool
  /-- Take a lock now, if that is possible. -/
  tryLock : M → Option M
  /-- Wait for a lock and take it, if that ever happens. -/
  lock : M → Option M
  /-- Let go of a lock. -/
  unlock : M → M

/-- A raw lock is taken exactly if it is free, and is held until it is let go of.  Nobody else
takes part, so waiting for a lock that is held does not end. -/
class LawfulRawMutex (M : Type) [RawMutex M] : Prop where
  isLocked_fresh : RawMutex.isLocked (RawMutex.fresh : M) = false
  tryLock_eq_none {m : M} : RawMutex.tryLock m = none ↔ RawMutex.isLocked m = true
  lock_eq_none {m : M} : RawMutex.lock m = none ↔ RawMutex.isLocked m = true
  isLocked_tryLock {m m' : M} : RawMutex.tryLock m = some m' → RawMutex.isLocked m' = true
  isLocked_lock {m m' : M} : RawMutex.lock m = some m' → RawMutex.isLocked m' = true
  isLocked_unlock {m : M} : RawMutex.isLocked m = true →
    RawMutex.isLocked (RawMutex.unlock m) = false

instance : RawMutex Bool where
  fresh := false
  isLocked m := m
  tryLock m := if m then none else some true
  lock m := if m then none else some true
  unlock _ := false

instance : LawfulRawMutex Bool where
  isLocked_fresh := rfl
  tryLock_eq_none {m} := by cases m <;> decide
  lock_eq_none {m} := by cases m <;> decide
  isLocked_tryLock {m m'} := by cases m <;> cases m' <;> decide
  isLocked_lock {m m'} := by cases m <;> cases m' <;> decide
  isLocked_unlock _ := rfl

/-- A lock around a value. -/
structure RuntimeLock (M α : Type) [RawMutex M] where
  /-- The guarded value. -/
  value : α
  /-- The raw lock. -/
  raw : M := RawMutex.fresh

namespace RuntimeLock

variable {M α : Type} [RawMutex M]

instance [Inhabited α] : Inhabited (RuntimeLock M α) := ⟨{ value := default }⟩

/-- Whether the lock is held. -/
def held (l : RuntimeLock M α) : Bool := RawMutex.isLocked l.raw

/-- Take the lock, unless it is held. -/
def tryAcquire (l : RuntimeLock M α) : Option (RuntimeLock M α) :=
  (RawMutex.tryLock l.raw).map fun raw => { l with raw }

/-- Wait for the lock and take it, if that ever happens. -/
def acquire (l : RuntimeLock M α) : Option (RuntimeLock M α) :=
  (RawMutex.lock l.raw).map fun raw => { l with raw }

/-- Let go of the lock. -/
def release (l : RuntimeLock M α) : RuntimeLock M α := { l with raw := RawMutex.unlock l.raw }

/-- The diagnostic form of a lock. -/
def debugText (l : RuntimeLock M α) : String :=
  Text.openRecord "RuntimeLock" [("locked", Text.truth l.held)]

end RuntimeLock

/-- A lock around a number of 64 bits. -/
abbrev ParkLock := RuntimeLock Bool Int

end Substrate
