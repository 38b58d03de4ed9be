import Substrate.Text.Quoted
import Substrate.Text.Record

/-!
# Faults

Every fatal condition of the library as a cause, with its wording in one
place.  `Fault` holds the conditions the library detects itself, `Defect`
those of the machine arithmetic underneath, and `Failure` is either.
-/

namespace Substrate

/-- A fatal condition that the library detects. -/
inductive Fault where
  /-- An empty pointer or container was read. -/
  | invalidMemory (what : String)
  /-- A checked cast named the wrong type. -/
  | incompatibleType (expected found : String)
  /-- The allocator refused a request. -/
  | allocationFailed (bytes : Nat)
  /-- An allocation with a negative length or a length above its capacity. -/
  | allocationRange (length capacity : Int)
  /-- An index outside a view. -/
  | indexOutOfRange (index : Int) (length : Nat)
  /-- Bounds outside a view's capacity, or the wrong way round. -/
  | slicingOutOfRange (start stop : Int) (capacity : Nat)
  /-- An integer was divided by zero. -/
  | divideByZero
  /-- A frame was put on the retire list a second time. -/
  | doubleRetire (frame : Nat)
  /-- A frame was awaited or scheduled after it completed. -/
  | doubleAwait (frame : Nat)
  /-- A frame parked in a slot that holds another. -/
  | invalidParkSlot (occupant : Nat)
  /-- A bound frame was scheduled away from its thread. -/
  | foreignFrame (frame : Nat)
  /-- A suspension primitive ran while no worker was pumping. -/
  | noActiveWorker
  /-- The root of a blocking run is suspended and nothing is left to run. -/
  | stalled (frame : Nat)
  /-- A body raised. -/
  | unhandledFault (frame : Nat) (message : String)
  deriving DecidableEq, Repr

namespace Fault

/-- The name of a kind of fault. -/
def kind : Fault → String
  | .invalidMemory _ => "InvalidMemory"
  | .incompatibleType .. => "IncompatibleType"
  | .allocationFailed _ => "MemoryAllocationFailed"
  | .allocationRange .. => "AllocationRange"
  | .indexOutOfRange .. => "IndexOutOfRange"
  | .slicingOutOfRange .. => "SlicingOutOfRange"
  | .divideByZero => "DivideByZero"
  | .doubleRetire _ => "DoubleRetire"
  | .doubleAwait _ => "DoubleAwait"
  | .invalidParkSlot _ => "InvalidParkSlot"
  | .foreignFrame _ => "ForeignFrame"
  | .noActiveWorker => "NoActiveWorker"
  | .stalled _ => "Stalled"
  | .unhandledFault .. => "UnhandledFault"

/-- The wording of a fault, with `number` for how frame numbers are written. -/
def messageWith (number : Nat → String) : Fault → String
  | .invalidMemory what => s!"invalid memory access: dereferenced an empty {what}"
  | .incompatibleType expected found =>
    s!"incompatible type: expected `{expected}`, found `{found}`"
  | .allocationFailed bytes => s!"memory allocation failed: {bytes} bytes requested"
  | .allocationRange length capacity =>
    s!"invalid allocation range: length {length} with capacity {capacity}"
  | .indexOutOfRange index length => s!"index out of range [{index}] with length {length}"
  | .slicingOutOfRange start stop capacity =>
    s!"slice bounds out of range [{start}:{stop}] with capacity {capacity}"
  | .divideByZero => "integer divide by zero"
  | .doubleRetire frame => "coroutine frame " ++ number frame ++ " retired twice"
  | .doubleAwait frame =>
    "coroutine frame " ++ number frame ++ " awaited or resumed after completion"
  | .invalidParkSlot occupant => "park output slot already holds frame " ++ number occupant
  | .foreignFrame frame => "coroutine frame " ++ number frame ++ " belongs to another thread"
  | .noActiveWorker => "no worker is pumping on this thread"
  | .stalled frame =>
    "task stalled: frame " ++ number frame ++ " is suspended and nothing is left to run"
  | .unhandledFault frame message =>
    "unhandled fault in coroutine frame " ++ number frame ++ ": " ++ message

/-- The wording of a fault. -/
def message (f : Fault) : String := f.messageWith toString

/-- The diagnostic form of a fault: its kind and its fields. -/
def debugText (f : Fault) : String :=
  Text.record f.kind <| match f with
    | .invalidMemory what => [("what", Text.quoted what)]
    | .incompatibleType expected found =>
      [("expected", Text.quoted expected), ("found", Text.quoted found)]
    | .allocationFailed bytes => [("bytes", toString bytes)]
    | .allocationRange length capacity =>
      [("length", toString length), ("capacity", toString capacity)]
    | .indexOutOfRange index length => [("index", toString index), ("length", toString length)]
    | .slicingOutOfRange start stop capacity =>
      [("start", toString start), ("end", toString stop), ("capacity", toString capacity)]
    | .divideByZero => []
    | .doubleRetire frame => [("frame", toString frame)]
    | .doubleAwait frame => [("frame", toString frame)]
    | .invalidParkSlot occupant => [("occupant", toString occupant)]
    | .foreignFrame frame => [("frame", toString frame)]
    | .noActiveWorker => []
    | .stalled frame => [("frame", toString frame)]
    | .unhandledFault frame message =>
      [("frame", toString frame), ("message", Text.quoted message)]

end Fault

/-- A condition of the arithmetic and indexing underneath. -/
inductive Defect where
  /-- A sum above the largest size. -/
  | addOverflow
  /-- A product above the largest size. -/
  | multiplyOverflow
  /-- A difference below zero. -/
  | subtractOverflow
  /-- A division by zero while decoding an offset. -/
  | zeroDivisor
  /-- An index past the end of a fixed array. -/
  | outOfBounds (length index : Nat)
  deriving DecidableEq, Repr

/-- The wording of a defect. -/
def Defect.message : Defect → String
  | .addOverflow => "attempt to add with overflow"
  | .multiplyOverflow => "attempt to multiply with overflow"
  | .subtractOverflow => "attempt to subtract with overflow"
  | .zeroDivisor => "attempt to divide by zero"
  | .outOfBounds length index =>
    s!"index out of bounds: the len is {length} but the index is {index}"

/-- Why an operation failed. -/
inductive Failure where
  /-- A condition the library detects. -/
  | fault (cause : Fault)
  /-- A condition of the arithmetic underneath. -/
  | defect (cause : Defect)
  deriving DecidableEq, Repr

namespace Failure

/-- The name of a kind of failure; defects share one. -/
def kind : Failure → String
  | .fault f => f.kind
  | .defect _ => "Panic"

/-- The wording of a failure. -/
def message : Failure → String
  | .fault f => f.message
  | .defect d => d.message

end Failure

end Substrate
