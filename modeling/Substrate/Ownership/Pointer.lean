import Substrate.Ownership.Heap

/-!
# Managed pointers

A pointer has a target and, if it owns, the cell whose holder it is.  It may
point at a whole node or at a part of one; either way it keeps the cell alive.
A pointer without a cell is a view: it keeps nothing alive and may dangle.

Nodes hold a pointer to a next node, so letting go of one can run down a list.
-/

namespace Substrate.Ownership

/-- What an address lies in. -/
inductive Site where
  /-- A cell of the heap. -/
  | cell (i : Nat)
  /-- A node that was not allocated and is never freed. -/
  | fixed (k : Nat)
  deriving DecidableEq, Repr

/-- Where in a node an address lies.  A node starts with its head. -/
inductive Part where
  /-- At its start. -/
  | start
  /-- At its tail. -/
  | tail
  deriving DecidableEq, Repr

/-- An address. -/
structure Place where
  /-- What it lies in. -/
  site : Site
  /-- Where it lies there. -/
  part : Part
  deriving DecidableEq, Repr

/-- A managed pointer. -/
structure Pointer where
  /-- What it points at; none if it is empty. -/
  target : Option Place := none
  /-- The cell it is a holder of. -/
  cell : Option Nat := none
  deriving DecidableEq, Repr

instance : Inhabited Pointer := ⟨{}⟩

/-- A node. -/
structure Node where
  /-- Its first number. -/
  head : Int := 0
  /-- Its second number. -/
  tail : Int := 0
  /-- The next node. -/
  next : Pointer := {}
  deriving DecidableEq, Repr

/-- What a cell can hold. -/
inductive Payload where
  /-- A node. -/
  | node (n : Node)
  /-- A bare number. -/
  | number (value : Int)
  deriving DecidableEq, Repr

instance : Inhabited Payload := ⟨.number 0⟩

instance : Holder Payload where
  held
    | .node n => n.next.cell
    | .number _ => none

/-- The cells and the fixed nodes. -/
structure Memory where
  /-- The cells. -/
  heap : Heap Payload := {}
  /-- The fixed nodes. -/
  fixed : Table Payload := .empty

namespace Memory

instance : Inhabited Memory := ⟨{}⟩

/-- How many fixed nodes there are. -/
def fixedCount : Nat := 3

/-- No cell yet, and the fixed nodes as they are at first. -/
def initial : Memory :=
  { fixed := (List.range fixedCount).foldl (fun t (k : Nat) =>
      t.set k (.node { head := 100 + k, tail := 200 + k })) .empty }

/-- What lies at a site. -/
def payload (m : Memory) : Site → Payload
  | .cell i => m.heap.payload i
  | .fixed k => m.fixed.get k

/-- Change what lies at a site. -/
def setPayload (m : Memory) (site : Site) (p : Payload) : Memory :=
  match site with
  | .cell i => { m with heap := m.heap.setPayload i p }
  | .fixed k => { m with fixed := m.fixed.set k p }

/-- Whether a site was freed. -/
def isFreed (m : Memory) : Site → Bool
  | .cell i => !m.heap.isLive i
  | .fixed _ => false

/-- The name of what lies at a site: from 1 up for cells, from -1 down for fixed nodes. -/
def nameOf : Site → Int
  | .cell i => i + 1
  | .fixed k => -1 - k

/-- The node at a site. -/
def node (m : Memory) (site : Site) : Node :=
  match m.payload site with
  | .node n => n
  | .number value => { head := value }

/-- The number at a place. -/
def read (m : Memory) (place : Place) : Int :=
  match m.payload place.site, place.part with
  | .number value, _ => value
  | .node n, .start => n.head
  | .node n, .tail => n.tail

/-- Change the number at a place. -/
def write (m : Memory) (place : Place) (value : Int) : Memory :=
  m.setPayload place.site <| match m.payload place.site, place.part with
    | .number _, _ => .number value
    | .node n, .start => .node { n with head := value }
    | .node n, .tail => .node { n with tail := value }

/-- Change the pointer to the next node in a node. -/
def setNext (m : Memory) (site : Site) (next : Pointer) : Memory :=
  match m.payload site with
  | .node n => m.setPayload site (.node { n with next })
  | .number _ => m

/-! ## Pointer operations -/

/-- The number of holders of the cell a pointer holds; 0 for a view. -/
def strongCount (m : Memory) (p : Pointer) : Nat :=
  match p.cell with
  | some i => m.heap.count i
  | none => 0

/-- A pointer that owns a new cell. -/
def makeOwned (m : Memory) (payload : Payload) : Memory × Pointer :=
  let (heap, i) := m.heap.make payload
  ({ m with heap }, { target := some ⟨.cell i, .start⟩, cell := some i })

/-- A pointer at a place that becomes a holder of a cell, if one is given. -/
def makeShared (m : Memory) (place : Place) (cell : Option Nat) : Memory × Pointer :=
  ({ m with heap := m.heap.retain? cell }, { target := some place, cell })

/-- One more pointer like `p`. -/
def clone (m : Memory) (p : Pointer) : Memory × Pointer :=
  ({ m with heap := m.heap.retain? p.cell }, p)

/-- Let go of a pointer: the cells freed, in order. -/
def drop (m : Memory) (p : Pointer) : Memory × List Nat :=
  let (heap, freed) := m.heap.release? p.cell
  ({ m with heap }, freed)

/-- A view of what a pointer points at. -/
def view (p : Pointer) : Pointer := { target := p.target }

/-- Make `p` point where `source` points: what `p` becomes, and the cells freed.  If both
point at the same place nothing happens, and `p` keeps its own cell.  `source` becomes
a holder before `p` lets go. -/
def assign (m : Memory) (p source : Pointer) : Memory × Pointer × List Nat :=
  if p.target = source.target then (m, p, [])
  else
    let (m, adopted) := m.clone source
    let (m, freed) := m.drop p
    (m, adopted, freed)

/-- Empty the pointer to the next node that a node holds. -/
def resetNext (m : Memory) (site : Site) : Memory × List Nat :=
  let old := (m.node site).next
  (m.setNext site {}).drop old

/-- Make the pointer that a node holds point where `source` points. -/
def assignNext (m : Memory) (site : Site) (source : Pointer) : Memory × List Nat :=
  if (m.node site).next.target = source.target then (m, [])
  else
    let (m, adopted) := m.clone source
    let (m, freed) := m.resetNext site
    (m.setNext site adopted, freed)

end Memory

end Substrate.Ownership
