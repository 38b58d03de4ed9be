import Substrate.Lock.Section

/-!
# Park lock sessions

One lock, the token of its last parking section, and what is done with them.
A call runs any section of code; the operations are the calls whose section adds
to the guarded number before it does anything else.
-/

namespace Substrate.Lock

/-- A lock, and the token of its last parking section. -/
structure State (M α : Type) [RawMutex M] where
  /-- The lock. -/
  lock : RuntimeLock M α
  /-- Whether there is a token that was not released yet. -/
  outstanding : Bool := false

/-- The state of a session. -/
abbrev Session := State Bool Int

instance {M α : Type} [RawMutex M] [Inhabited α] : Inhabited (State M α) := ⟨{ lock := default }⟩

/-- A call on the lock. -/
inductive Call (α : Type) where
  /-- A section that waits for the lock. -/
  | lock (s : Section α)
  /-- A section that runs only if the lock is free. -/
  | tryLock (s : Section α)
  /-- A parking section. -/
  | park (s : Section α)
  /-- Release the outstanding token. -/
  | release
  /-- Release the token of no lock. -/
  | releaseNone

/-- What a call comes to. -/
inductive Answer (M α : Type) [RawMutex M] where
  /-- Its section ran. -/
  | ran (r : Outcome M α)
  /-- Its section did not run. -/
  | refused
  /-- It would wait for ever. -/
  | blocked
  /-- A token was released, if there was one. -/
  | released (was : Bool)

/-- Carry out one call. -/
def State.call {M α : Type} [RawMutex M] (s : State M α) : Call α → State M α × Answer M α
  | .lock code =>
    match s.lock.lock? code with
    | some r => ({ s with lock := r.lock }, .ran r)
    | none => (s, .blocked)
  | .tryLock code =>
    match s.lock.tryLock? code with
    | some r => ({ s with lock := r.lock }, .ran r)
    | none => (s, .refused)
  | .park code =>
    match s.lock.lockForPark? code with
    | some r =>
      ({ lock := r.lock, outstanding := s.outstanding || r.ending == .returns }, .ran r)
    | none => (s, .blocked)
  | .release =>
    if s.outstanding then ({ lock := s.lock.release, outstanding := false }, .released true)
    else (s, .released false)
  | .releaseNone => (s, .released false)

/-- An operation on the lock. -/
inductive Op where
  /-- A section that waits for the lock. -/
  | lock (k : Int) (ending : Ending)
  /-- A section that runs only if the lock is free. -/
  | tryLock (k : Int) (ending : Ending)
  /-- A parking section. -/
  | park (k : Int) (ending : Ending)
  /-- Release the outstanding token. -/
  | release
  /-- Release the token of no lock. -/
  | releaseNone
  /-- A section that tries to lock once more from within. -/
  | nested (k : Int)
  /-- Whether the lock is held. -/
  | isLocked
  /-- The diagnostic form of the lock. -/
  | debug
  /-- What a bare token number stands for. -/
  | token (raw : RawToken)
  /-- Take the number out and go on with a fresh lock around `k`. -/
  | intoInner (k : Int)
  deriving DecidableEq, Repr

/-- What an operation answers. -/
inductive Reply where
  /-- It was carried out, or a section did not run. -/
  | nothing
  /-- A number. -/
  | number (n : Int)
  /-- A section raised with this text. -/
  | raised (text : String)
  /-- A parking section returned with this number. -/
  | parked (n : Int)
  /-- A yes or no. -/
  | truth (b : Bool)
  /-- A text. -/
  | text (s : String)
  /-- A token: its diagnostic form and its number. -/
  | token (debug : String) (raw : RawToken)
  /-- It would wait for ever. -/
  | wouldBlock
  deriving DecidableEq, Repr

/-- The text a section that adds `k` raises with. -/
def raiseText (k : Int) : String := s!"inside {k}"

/-- A section that adds `k` around at 64 bits, and then does something else. -/
def adding (k : Int) (rest : Section Int) : Section Int :=
  .update (fun v => IntType.int64.wrap (v + k)) rest

namespace Session

/-- Carry out a call whose section adds `k`; `reply` is what is told when the section returns. -/
def runSection (s : Session) (k : Int) (c : Call Int) (reply : Outcome Bool Int → Reply) :
    Session × Reply :=
  match s.call c with
  | (s, .ran r) =>
    match r.ending with
    | .returns => (s, reply r)
    | .raises => (s, .raised (raiseText k))
  | (s, .blocked) => (s, .wouldBlock)
  | (s, _) => (s, .nothing)

/-- The number after a section. -/
def valueReply (r : Outcome Bool Int) : Reply := .number r.lock.value

/-- Carry out one operation. -/
def apply (s : Session) : Op → Session × Reply
  | .lock k ending => s.runSection k (.lock (adding k (.done ending))) valueReply
  | .tryLock k ending => s.runSection k (.tryLock (adding k (.done ending))) valueReply
  | .park k ending => s.runSection k (.park (adding k (.done ending))) fun r => .parked r.lock.value
  | .release =>
    match s.call .release with
    | (s, .released was) => (s, .truth was)
    | (s, _) => (s, .nothing)
  | .releaseNone => ((s.call .releaseNone).1, .nothing)
  | .nested k =>
    s.runSection k (.lock (adding k (.attempt (.done .returns) fun _ => .done .returns))) fun r =>
      if r.attempts.any id then valueReply r else .nothing
  | .isLocked => (s, .truth s.lock.held)
  | .debug => (s, .text s.lock.debugText)
  | .token raw => (s, .token (rawTokenText raw) raw)
  | .intoInner k => ({ lock := { value := k } }, .number s.lock.value)

end Session

end Substrate.Lock
