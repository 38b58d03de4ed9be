import Substrate.Table

/-!
# Counted cells

A heap of cells, each with a payload and the number of its holders.  A cell
whose last holder lets go is freed, and a payload that holds another cell then
lets go of that one, so a single release can run down a chain of cells.

Cells are named by numbers and never reused; a freed cell keeps its payload
but has no holder.
-/

namespace Substrate.Ownership

/-- A cell: how many holders it has, and what they share. -/
structure Cell (α : Type) where
  /-- The number of holders; 0 once it is freed, and before it is made. -/
  count : Nat := 0
  /-- What the holders share. -/
  payload : α

instance {α : Type} [Inhabited α] : Inhabited (Cell α) := ⟨⟨0, default⟩⟩

/-- Payloads that hold at most one cell themselves. -/
class Holder (α : Type) where
  /-- The cell that a payload holds. -/
  held : α → Option Nat

/-- The cells made so far. -/
structure Heap (α : Type) where
  /-- The cells. -/
  cells : Table (Cell α) := .empty
  /-- How many cells were made. -/
  size : Nat := 0

namespace Heap

variable {α : Type} [Inhabited α]

instance : Inhabited (Heap α) := ⟨{}⟩

/-- The number of holders of a cell. -/
def count (h : Heap α) (i : Nat) : Nat := (h.cells.get i).count

/-- The payload of a cell. -/
def payload (h : Heap α) (i : Nat) : α := (h.cells.get i).payload

/-- Whether a cell has holders. -/
def isLive (h : Heap α) (i : Nat) : Bool := 0 < h.count i

/-- A new cell with one holder. -/
def make (h : Heap α) (payload : α) : Heap α × Nat :=
  ({ cells := h.cells.set h.size ⟨1, payload⟩, size := h.size + 1 }, h.size)

/-- Change how many holders a cell has. -/
def setCount (h : Heap α) (i n : Nat) : Heap α :=
  { h with cells := h.cells.modify i fun c => { c with count := n } }

/-- Change the payload of a cell. -/
def setPayload (h : Heap α) (i : Nat) (payload : α) : Heap α :=
  { h with cells := h.cells.modify i fun c => { c with payload } }

/-- One more holder of a cell. -/
def retain (h : Heap α) (i : Nat) : Heap α := h.setCount i (h.count i + 1)

/-- One more holder of a cell, if there is one. -/
def retain? (h : Heap α) : Option Nat → Heap α
  | some i => h.retain i
  | none => h

/-- One holder less of a cell, and what follows from it: the cells freed, in order.
`fuel` bounds how many. -/
def releaseWith [Holder α] (h : Heap α) : Nat → Nat → Heap α × List Nat
  | 0, _ => (h, [])
  | fuel + 1, i =>
    if h.count i ≤ 1 then
      let freed := h.setCount i 0
      match Holder.held (h.payload i) with
      | none => (freed, [i])
      | some j =>
        let (after, rest) := freed.releaseWith fuel j
        (after, i :: rest)
    else (h.setCount i (h.count i - 1), [])

/-- One holder less of a cell: the cells freed, in order.  Each cell is freed once at
most, so one more than their number bounds the chain. -/
def release [Holder α] (h : Heap α) (i : Nat) : Heap α × List Nat := h.releaseWith (h.size + 1) i

/-- One holder less of a cell, if there is one. -/
def release? [Holder α] (h : Heap α) : Option Nat → Heap α × List Nat
  | some i => h.release i
  | none => (h, [])

/-- The cells that have holders. -/
def live (h : Heap α) : List Nat := (List.range h.size).filter h.isLive

end Heap

end Substrate.Ownership
