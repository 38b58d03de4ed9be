import Substrate.Text.Blank
import Substrate.Text.Decimal
import Substrate.Text.Quoted
import Substrate.Text.Record

/-!
# Settings

The settings of a worker pool, read from named variables or put together by
hand, and the switches the library is built with.

`fromLookup` asks for the two variables in a fixed order and stops at the
first one it cannot use.
-/

namespace Substrate

/-- How many workers a pool is to have. -/
inductive WorkerCount where
  /-- One for each core of the machine. -/
  | perCore
  /-- A number above zero. -/
  | exactly (n : Nat)
  deriving DecidableEq, Repr

namespace WorkerCount

/-- A count from a number, where 0 stands for one per core. -/
def ofNat (n : Nat) : WorkerCount := if n = 0 then .perCore else .exactly n

/-- The number of workers on a machine with `cores` cores. -/
def resolve (cores : Nat) : WorkerCount → Nat
  | .perCore => cores
  | .exactly n => n

end WorkerCount

/-- The settings of a worker pool. -/
structure Settings where
  /-- How many workers. -/
  workers : WorkerCount := .perCore
  /-- What the names of the threads start with. -/
  threadName : String := "vireo-worker"
  deriving DecidableEq, Repr

/-- A variable whose value cannot be used. -/
structure SettingsError where
  /-- The name of the variable. -/
  name : String
  /-- The value as it was found. -/
  value : String
  /-- What is wrong with it. -/
  reason : String
  deriving DecidableEq, Repr

/-- The wording of a settings error. -/
def SettingsError.message (e : SettingsError) : String :=
  s!"invalid value `{e.value}` for {e.name}: {e.reason}"

/-- The diagnostic form of a settings error. -/
def SettingsError.debugText (e : SettingsError) : String :=
  Text.record "InvalidValue"
    [("var", Text.quoted e.name), ("value", Text.quoted e.value),
     ("reason", Text.quoted e.reason)]

namespace Settings

/-- The variable that holds the number of workers. -/
def workersVariable : String := "VIREO_WORKERS"

/-- The variable that holds the start of the thread names. -/
def threadNameVariable : String := "VIREO_THREAD_NAME"

/-- The greatest number of workers a setting can name. -/
def greatestWorkers : Nat := Nat.pow 2 64 - 1

/-- The workers setting for the value of its variable. -/
def readWorkers : Option String → Except SettingsError WorkerCount
  | none => .ok .perCore
  | some raw =>
    match Text.readNat greatestWorkers (Text.trim raw.toList) with
    | .ok n => .ok (.ofNat n)
    | .error e => .error ⟨workersVariable, raw, e.message⟩

/-- The thread name setting for the value of its variable. -/
def readThreadName : Option String → Except SettingsError String
  | none => .ok ({} : Settings).threadName
  | some name =>
    if (Text.trim name.toList).isEmpty then
      .error ⟨threadNameVariable, name, "must not be empty"⟩
    else .ok name

/-- Settings from the variables that `lookup` finds. -/
def fromLookup (lookup : String → Option String) : Except SettingsError Settings :=
  match readWorkers (lookup workersVariable) with
  | .error e => .error e
  | .ok workers =>
    match readThreadName (lookup threadNameVariable) with
    | .error e => .error e
    | .ok threadName => .ok ⟨workers, threadName⟩

/-- The variables that `fromLookup` asks for, in order. -/
def asked (lookup : String → Option String) : List String :=
  match readWorkers (lookup workersVariable) with
  | .error _ => [workersVariable]
  | .ok _ => [workersVariable, threadNameVariable]

/-- The settings with another number of workers; 0 stands for one per core. -/
def withWorkers (s : Settings) (n : Nat) : Settings := { s with workers := .ofNat n }

/-- The settings with another start of the thread names. -/
def withThreadName (s : Settings) (name : String) : Settings := { s with threadName := name }

end Settings

/-- The switches a build is made with. -/
structure BuildSwitches where
  /-- Bounds and emptiness are checked. -/
  safetyChecks : Bool
  /-- Fatal messages name the place they come from. -/
  sourceLocations : Bool
  /-- Double retire, double await and occupied slots are checked. -/
  protocolChecks : Bool
  /-- Pointers own what they point to. -/
  refcounting : Bool
  /-- Counts are changed atomically. -/
  atomicRefcount : Bool
  deriving DecidableEq, Repr

namespace BuildSwitches

/-- The switches of this build. -/
def current : BuildSwitches := ⟨true, true, true, true, false⟩

/-- The diagnostic form of the switches. -/
def debugText (b : BuildSwitches) : String :=
  Text.record "BuildConfig"
    [("safety_checks", Text.truth b.safetyChecks),
    ("source_locations", Text.truth b.sourceLocations),
     ("protocol_checks", Text.truth b.protocolChecks), ("refcounting", Text.truth b.refcounting),
     ("atomic_refcount", Text.truth b.atomicRefcount)]

end BuildSwitches

end Substrate
