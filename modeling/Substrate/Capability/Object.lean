import Substrate.Capability.Grid
import Substrate.Ownership.Heap

/-!
# Objects

An object is a shared value seen through one view: the cell of the value, a
grid and an offset in it.  Masking goes to another view of the same value, of
which there is one more holder then.
-/

namespace Substrate.Capability

open Ownership (Heap)

/-- A value seen through a view, or nothing. -/
structure Object (κ ν : Type) where
  /-- The cell of the value. -/
  cell : Option Nat := none
  /-- The grid. -/
  grid : Option (Grid κ ν) := none
  /-- The offset in the grid. -/
  offset : Nat := 0
  deriving DecidableEq, Repr

namespace Object

variable {κ ν π : Type} [Inhabited π]

instance : Inhabited (Object κ ν) := ⟨{}⟩

/-- The empty object. -/
def empty : Object κ ν := {}

/-- Whether an object is empty. -/
def isEmpty (o : Object κ ν) : Bool := o.grid.isNone

/-- What reading an empty object fails with. -/
def emptyFault : Failure := .fault (.invalidMemory "trait object")

/-- The grid of an object. -/
def expectGrid (o : Object κ ν) : Except Failure (Grid κ ν) :=
  match o.grid with
  | some g => .ok g
  | none => .error emptyFault

/-- The cell of an object. -/
def expectCell (o : Object κ ν) : Except Failure Nat :=
  match o.cell with
  | some i => .ok i
  | none => .error emptyFault

/-- The number of holders of an object's value. -/
def holders (o : Object κ ν) (heap : Heap π) : Nat :=
  match o.cell with
  | some i => heap.count i
  | none => 0

/-- The offset of an object. -/
def typeOffset (o : Object κ ν) : Except Failure Nat := do
  let _ ← o.expectGrid
  return o.offset

/-- The view of an object. -/
def view (o : Object κ ν) : Except Failure Nat := do
  let g ← o.expectGrid
  return g.viewOf o.offset

/-- The type of the value. -/
def concrete (o : Object κ ν) : Except Failure κ := do
  let g ← o.expectGrid
  (g.concreteOf o.offset).mapError .defect

/-- What the function table of the current view is, as told by `pick`; `expected` names
what is asked for. -/
def vtable {β : Type} (o : Object κ ν) (expected : String) (pick : ν → Option β) :
    Except Failure β := do
  let g ← o.expectGrid
  match g.slots[o.offset]? with
  | none => .error (.defect (.outOfBounds g.slots.length o.offset))
  | some slot =>
    match slot.bind pick with
    | some found => .ok found
    | none => .error (.fault (.incompatibleType expected (g.viewName (g.viewOf o.offset))))

variable [TypeName κ]

/-- The object seen through another view, if its type implements it. -/
def tryMask (o : Object κ ν) (view : Nat) : Except Failure (Option (Object κ ν)) :=
  match o.grid with
  | none => .ok none
  | some g =>
    match g.remap o.offset view with
    | .error e => .error (.defect e)
    | .ok offset => .ok (offset.map fun offset => { o with offset })

/-- The object seen through another view, which its type has to implement. -/
def mask (o : Object κ ν) (view : Nat) : Except Failure (Object κ ν) := do
  let g ← o.expectGrid
  match ← o.tryMask view with
  | some masked => return masked
  | none =>
    let concrete ← o.concrete
    .error (.fault (.incompatibleType (g.viewName view) (TypeName.name concrete)))

/-- Another view of an object, if its type implements it. -/
def tryMaskOn (heap : Heap π) (o : Object κ ν) (view : Nat) :
    Heap π × Except Failure (Option (Object κ ν)) :=
  match o.tryMask view with
  | .ok (some masked) => (heap.retain? masked.cell, .ok (some masked))
  | .ok none => (heap, .ok none)
  | .error e => (heap, .error e)

/-- Another view of an object, which its type has to implement. -/
def maskOn (heap : Heap π) (o : Object κ ν) (view : Nat) : Heap π × Except Failure (Object κ ν) :=
  match o.mask view with
  | .ok masked => (heap.retain? masked.cell, .ok masked)
  | .error e => (heap, .error e)

variable [DecidableEq κ]

/-- Check that a value of a type may be seen at an offset. -/
def checkType (g : Grid κ ν) (offset : Nat) (concrete : κ) : Except Failure Unit :=
  match g.concreteOf offset with
  | .error e => .error (.defect e)
  | .ok row =>
    if row = concrete then .ok ()
    else .error (.fault (.incompatibleType (TypeName.name row) (TypeName.name concrete)))

/-- An object of a new value, which has to be of the type of the offset. -/
def create (heap : Heap π) (g : Grid κ ν) (offset : Nat) (concrete : κ) (value : π) :
    Heap π × Except Failure (Object κ ν) :=
  match checkType g offset concrete with
  | .error e => (heap, .error e)
  | .ok _ =>
    let (heap, i) := heap.make value
    (heap, .ok { cell := some i, grid := some g, offset })

/-- The cell of the value, which has to be of a type. -/
def cast (o : Object κ ν) (wanted : κ) : Except Failure Nat := do
  let row ← o.concrete
  if row = wanted then o.expectCell
  else .error (.fault (.incompatibleType (TypeName.name wanted) (TypeName.name row)))

/-- The diagnostic form of an object. -/
def debugText (o : Object κ ν) : Except Failure String :=
  match o.grid with
  | none => .ok "TraitObj(<nil>)"
  | some g => do
    let concrete ← o.concrete
    return Text.record "TraitObj" [
      ("type", Text.quoted (TypeName.name concrete)),
      ("view", Text.quoted (g.viewName (g.viewOf o.offset)))]

end Object

end Substrate.Capability
