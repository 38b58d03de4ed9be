import Substrate.Fault
import Substrate.Text.Quoted
import Substrate.Text.Record

/-!
# Capability grids

A grid has one row per concrete type and one column per view, and a slot for
each pair that may hold a table of functions.  An offset is a flat index into
the slots: the slot of a row and a view is at `row * views + view`, so dividing
an offset by the number of views gives its row back, and the remainder its view.
Views and offsets are handed out in 32 bits.

A builder collects views and implementations and then freezes them.  It does
not check that a view is one of its own; a view past the last one falls into a
later row, and outside the grid it is a defect.
-/

namespace Substrate.Capability

/-- Concrete types that have names. -/
class TypeName (κ : Type) where
  /-- The name of a type. -/
  name : κ → String

/-- A frozen grid of function tables `ν` for concrete types `κ`. -/
structure Grid (κ ν : Type) where
  /-- The names of the views, one per column. -/
  views : List String
  /-- The concrete types, one per row. -/
  rows : List κ
  /-- The slots, row after row. -/
  slots : List (Option ν)
  deriving DecidableEq, Repr

/-- That a type implements a view through a function table. -/
structure Implementation (κ ν : Type) where
  /-- The type. -/
  concrete : κ
  /-- The index of the view. -/
  view : Nat
  /-- The function table. -/
  vtable : ν
  deriving DecidableEq, Repr

/-- The views and implementations declared so far, in order. -/
structure Builder (κ ν : Type) where
  /-- The names of the views. -/
  views : List String := []
  /-- The implementations. -/
  implementations : List (Implementation κ ν) := []
  deriving DecidableEq, Repr

variable {κ ν : Type}

/-- What is left of a number in 32 bits. -/
def narrow (n : Nat) : Nat := n % Nat.pow 2 32

/-! ## Building -/

namespace Builder

/-- Declare a view: its index. -/
def view (b : Builder κ ν) (name : String) : Builder κ ν × Nat :=
  ({ b with views := b.views ++ [name] }, narrow b.views.length)

/-- Record an implementation. -/
def implement (b : Builder κ ν) (concrete : κ) (view : Nat) (vtable : ν) : Builder κ ν :=
  { b with implementations := b.implementations ++ [⟨concrete, view, vtable⟩] }

variable [DecidableEq κ]

/-- The types of implementations in order of first appearance, after `rows`. -/
def rowsFrom (rows : List κ) : List (Implementation κ ν) → List κ
  | [] => rows
  | i :: rest => rowsFrom (if i.concrete ∈ rows then rows else rows ++ [i.concrete]) rest

/-- Write implementations into the slots, one after the other. -/
def fill (width : Nat) (rows : List κ) (slots : List (Option ν)) :
    List (Implementation κ ν) → Except Defect (List (Option ν))
  | [] => .ok slots
  | i :: rest =>
    let flat := rows.idxOf i.concrete * width + i.view
    if flat < slots.length then fill width rows (slots.set flat (some i.vtable)) rest
    else .error (.outOfBounds slots.length flat)

/-- Freeze the grid. -/
def build (b : Builder κ ν) : Except Defect (Grid κ ν) :=
  let width := b.views.length
  let rows := rowsFrom [] b.implementations
  match fill width rows (List.replicate (rows.length * width) none) b.implementations with
  | .ok slots => .ok { views := b.views, rows, slots }
  | .error e => .error e

end Builder

/-! ## Offsets -/

namespace Grid

/-- The number of views. -/
def width (g : Grid κ ν) : Nat := g.views.length

/-- The name of a view. -/
def viewName (g : Grid κ ν) (view : Nat) : String := g.views.getD view "<unknown view>"

/-- The flat index of a row and a view, if the view is a column and its slot is taken. -/
def slotIndex (g : Grid κ ν) (row view : Nat) : Except Defect (Option Nat) :=
  if g.width ≤ view then .ok none
  else
    let flat := row * g.width + view
    match g.slots[flat]? with
    | none => .error (.outOfBounds g.slots.length flat)
    | some none => .ok none
    | some (some _) => .ok (some flat)

/-- The offset of a type seen through a view, if it implements it. -/
def offsetOf [DecidableEq κ] (g : Grid κ ν) (concrete : κ) (view : Nat) :
    Except Defect (Option Nat) :=
  match g.rows.findIdx? (· = concrete) with
  | none => .ok none
  | some row => (g.slotIndex row view).map (Option.map narrow)

/-- The offset of the same type seen through another view, if it implements it. -/
def remap (g : Grid κ ν) (offset view : Nat) : Except Defect (Option Nat) :=
  if g.width = 0 then .error .zeroDivisor
  else (g.slotIndex (offset / g.width) view).map (Option.map narrow)

/-- The view of an offset. -/
def viewOf (g : Grid κ ν) (offset : Nat) : Nat := narrow (offset % g.width)

/-- The type of an offset. -/
def concreteOf (g : Grid κ ν) (offset : Nat) : Except Defect κ :=
  if g.width = 0 then .error .zeroDivisor
  else
    match g.rows[offset / g.width]? with
    | some concrete => .ok concrete
    | none => .error (.outOfBounds g.rows.length (offset / g.width))

/-- The diagnostic form of a grid. -/
def debugText [TypeName κ] (g : Grid κ ν) : String :=
  Text.record "CapabilityTable" [
    ("views", Text.bracketed (g.views.map Text.quoted)),
    ("types", Text.bracketed (g.rows.map fun c => Text.quoted (TypeName.name c)))]

end Grid

end Substrate.Capability
