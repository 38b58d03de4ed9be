import Substrate.Fault
import Substrate.Ownership.Heap
import Substrate.View.Element

/-!
# Stores and views

A store is a counted cell with a fixed number of slots.  A view is a window on
a store: a cursor, a length, and a capacity that may reach past the length.
Views of one store see each other's writes; a view that has to grow moves to a
store of its own.

The ledger counts the instances of elements that are made, dropped and cloned.
Every operation gives the memory after it also when it fails.
-/

namespace Substrate.View

open Ownership (Heap Holder)

/-- The greatest size there is. -/
def sizeLimit : Nat := Nat.pow 2 64 - 1

/-- The bytes of memory of the machine, 32 GiB.  One request for all of it is refused. -/
def memorySize : Nat := Nat.pow 2 35

/-- The slots of a store hold no cell. -/
instance {α : Type} : Holder (List α) := ⟨fun _ => none⟩

/-- How many instances of elements were made, dropped and made by cloning. -/
structure Ledger where
  /-- Instances made. -/
  made : Nat := 0
  /-- Instances dropped. -/
  dropped : Nat := 0
  /-- Instances made as clones of others. -/
  clones : Nat := 0
  deriving DecidableEq, Repr

namespace Ledger

/-- Make instances. -/
def make (l : Ledger) (n : Nat) : Ledger := { l with made := l.made + n }

/-- Drop instances. -/
def drop (l : Ledger) (n : Nat) : Ledger := { l with dropped := l.dropped + n }

/-- Clone instances. -/
def clone (l : Ledger) (n : Nat) : Ledger := { l.make n with clones := l.clones + n }

/-- The instances that exist. -/
def live (l : Ledger) : Int := (l.made : Int) - l.dropped

end Ledger

/-- A view that moved to a larger store. -/
structure Growth where
  /-- Its capacity before. -/
  oldCapacity : Nat
  /-- Its capacity after. -/
  newCapacity : Nat
  /-- Its length. -/
  length : Nat
  deriving DecidableEq, Repr

/-- The line a trace has for a growth. -/
def Growth.text (g : Growth) : String :=
  s!"TRACE slice grow old_cap={g.oldCapacity} new_cap={g.newCapacity} len={g.length}"

/-- All stores, and what has been done with their elements. -/
structure Memory (α : Type) where
  /-- The stores. -/
  stores : Heap (List α) := {}
  /-- The instances of elements. -/
  ledger : Ledger := {}
  /-- The growths so far. -/
  growths : Array Growth := #[]
  /-- Whether the allocator grants a number of bytes. -/
  grants : Nat → Bool := fun bytes => bytes < memorySize

/-- A window on a store. -/
structure Window where
  /-- The store; none for a view that never had one. -/
  store : Option Nat := none
  /-- Where in the store it starts. -/
  cursor : Nat := 0
  /-- How many elements it shows. -/
  length : Nat := 0
  /-- How many slots it may use from the cursor on. -/
  capacity : Nat := 0
  deriving DecidableEq, Repr

instance : Inhabited Window := ⟨{}⟩

namespace Window

/-- The view of nothing. -/
def empty : Window := {}

/-- The same window with no room past its length. -/
def clamped (v : Window) : Window := { v with capacity := v.length }

/-- Whether two views have one store. -/
def sharesStore (v u : Window) : Bool := v.store.isSome && v.store == u.store

/-- The position of an index, which has to lie within the length. -/
def checkIndex (v : Window) (index : Int) : Except Failure Nat :=
  if index < 0 ∨ (v.length : Int) ≤ index then
    .error (.fault (.indexOutOfRange index v.length))
  else .ok index.toNat

end Window

namespace Memory

variable {α : Type}

instance : Inhabited (Memory α) := ⟨{}⟩

/-- Change the ledger. -/
def note (m : Memory α) (change : Ledger → Ledger) : Memory α :=
  { m with ledger := change m.ledger }

/-- The number of views on the store of a view. -/
def holders (m : Memory α) (v : Window) : Nat :=
  match v.store with
  | some i => m.stores.count i
  | none => 0

/-- What a view shows. -/
def contents (m : Memory α) (v : Window) : List α :=
  match v.store with
  | some i => ((m.stores.payload i).drop v.cursor).take v.length
  | none => []

/-! ## Holders -/

/-- One more view of a store. -/
def retain (m : Memory α) (v : Window) : Memory α := { m with stores := m.stores.retain? v.store }

/-- One more view like `v`. -/
def clone (m : Memory α) (v : Window) : Memory α × Window := (m.retain v, v)

/-- Let go of a view.  The elements of a store go with its last view. -/
def drop (m : Memory α) (v : Window) : Memory α :=
  let (stores, freed) := m.stores.release? v.store
  let gone := freed.foldl (fun n i => n + (m.stores.payload i).length) 0
  { m with stores }.note (·.drop gone)

/-! ## Slots -/

/-- The store and the slot of a position of a view. -/
def locate (m : Memory α) (v : Window) (pos : Nat) : Except Failure (Nat × Nat) :=
  match v.store with
  | none => .error (.fault (.invalidMemory "managed pointer"))
  | some i =>
    let size := (m.stores.payload i).length
    if sizeLimit < v.cursor + pos then .error (.defect .addOverflow)
    else if size ≤ v.cursor + pos then .error (.defect (.outOfBounds size (v.cursor + pos)))
    else .ok (i, v.cursor + pos)

variable [Element α]

/-- The element in a slot. -/
def peek (m : Memory α) (i slot : Nat) : α := (m.stores.payload i).getD slot Element.blank

/-- Put an element in a slot, in place of the one it had. -/
def poke (m : Memory α) (i slot : Nat) (a : α) : Memory α :=
  { m with stores := m.stores.setPayload i ((m.stores.payload i).set slot a) }

/-- A clone of the element at a position. -/
def cloneAt (m : Memory α) (v : Window) (pos : Nat) : Memory α × Except Failure α :=
  match m.locate v pos with
  | .error e => (m, .error e)
  | .ok (i, slot) => (m.note (·.clone 1), .ok (m.peek i slot))

/-- Move an element to a position; the one that was there is dropped, or this one if
there is no such position. -/
def moveTo (m : Memory α) (v : Window) (pos : Nat) (a : α) : Memory α × Except Failure Unit :=
  match m.locate v pos with
  | .error e => (m.note (·.drop 1), .error e)
  | .ok (i, slot) => ((m.poke i slot a).note (·.drop 1), .ok ())

/-- Take the element at a position out and leave a blank one. -/
def takeAt (m : Memory α) (v : Window) (pos : Nat) : Memory α × Except Failure α :=
  match m.locate v pos with
  | .error e => (m, .error e)
  | .ok (i, slot) => ((m.poke i slot Element.blank).note (·.make 1), .ok (m.peek i slot))

/-! ## Reading and writing -/

/-- A clone of the element at an index. -/
def get (m : Memory α) (v : Window) (index : Int) : Memory α × Except Failure α :=
  match v.checkIndex index with
  | .error e => (m, .error e)
  | .ok pos => m.cloneAt v pos

/-- Move an element to an index.  It is dropped if the index is out of range. -/
def set (m : Memory α) (v : Window) (index : Int) (a : α) : Memory α × Except Failure Unit :=
  match v.checkIndex index with
  | .error e => (m.note (·.drop 1), .error e)
  | .ok pos => m.moveTo v pos a

/-- Elements from `count` positions on, gathered one at a time by `pick`. -/
def gather (pick : Memory α → Nat → Memory α × Except Failure α) (m : Memory α) (pos : Nat) :
    Nat → Memory α × Except Failure (List α)
  | 0 => (m, .ok [])
  | count + 1 =>
    match pick m pos with
    | (m, .error e) => (m, .error e)
    | (m, .ok a) =>
      match gather pick m (pos + 1) count with
      | (m, .error e) => (m.note (·.drop 1), .error e)
      | (m, .ok rest) => (m, .ok (a :: rest))

/-- Clones of all elements of a view. -/
def toList (m : Memory α) (v : Window) : Memory α × Except Failure (List α) :=
  gather (fun m pos => m.get v pos) m 0 v.length

/-- Move elements to positions from `pos` on. -/
def moveAll (m : Memory α) (v : Window) (pos : Nat) : List α → Memory α × Except Failure Unit
  | [] => (m, .ok ())
  | a :: rest =>
    match m.moveTo v pos a with
    | (m, .error e) => (m.note (·.drop rest.length), .error e)
    | (m, .ok ()) => m.moveAll v (pos + 1) rest

/-- Copy the elements of `source` over those of `v`, as many as both have. -/
def copyFrom (m : Memory α) (v source : Window) : Memory α × Except Failure Nat :=
  let n := min v.length source.length
  match gather (fun m pos => m.get source pos) m 0 n with
  | (m, .error e) => (m, .error e)
  | (m, .ok values) =>
    match m.moveAll v 0 values with
    | (m, .error e) => (m, .error e)
    | (m, .ok ()) => (m, .ok n)

/-- Whether elements at positions from `pos` on are equal in pairs, each pair cloned to
be compared, up to the first that is not. -/
def equalFrom [DecidableEq α] (m : Memory α) (v u : Window) (pos : Nat) :
    Nat → Memory α × Except Failure Bool
  | 0 => (m, .ok true)
  | count + 1 =>
    match m.get v pos with
    | (m, .error e) => (m, .error e)
    | (m, .ok a) =>
      match m.get u pos with
      | (m, .error e) => (m.note (·.drop 1), .error e)
      | (m, .ok b) =>
        let m := m.note (·.drop 2)
        if a = b then m.equalFrom v u (pos + 1) count else (m, .ok false)

/-- Whether two views show equal elements. -/
def equal [DecidableEq α] (m : Memory α) (v u : Window) : Memory α × Except Failure Bool :=
  if v.length = u.length then m.equalFrom v u 0 v.length else (m, .ok false)

/-! ## Windows -/

/-- The window from `start` to `stop`, which may reach up to the capacity. -/
def slice (m : Memory α) (v : Window) (start stop : Int) : Memory α × Except Failure Window :=
  if start < 0 ∨ stop < start ∨ (v.capacity : Int) < stop then
    (m, .error (.fault (.slicingOutOfRange start stop v.capacity)))
  else if sizeLimit < v.cursor + start.toNat then (m, .error (.defect .addOverflow))
  else
    (m.retain v, .ok
      { store := v.store, cursor := v.cursor + start.toNat, length := (stop - start).toNat,
        capacity := v.capacity - start.toNat })

/-! ## Growing -/

/-- A number of blank elements, if the allocator grants the room. -/
def allocate (m : Memory α) (capacity : Nat) : Except Failure (Memory α × List α) :=
  let bytes := min (capacity * Element.width α) sizeLimit
  if m.grants bytes then
    .ok (m.note (·.make capacity), List.replicate capacity Element.blank)
  else .error (.fault (.allocationFailed bytes))

/-- A view of a new store. -/
def newStore (m : Memory α) (slots : List α) (length : Nat) : Memory α × Window :=
  let (stores, i) := m.stores.make slots
  ({ m with stores }, { store := some i, length, capacity := slots.length })

/-- A view of `length` blank elements with room for `capacity`. -/
def alloc (m : Memory α) (length capacity : Int) : Memory α × Except Failure Window :=
  if length < 0 ∨ capacity < length then
    (m, .error (.fault (.allocationRange length capacity)))
  else if capacity = 0 then (m, .ok .empty)
  else
    match m.allocate capacity.toNat with
    | .error e => (m, .error e)
    | .ok (m, slots) =>
      let (m, v) := m.newStore slots length.toNat
      (m, .ok v)

/-- Move a view to a store of its own with room for `capacity`, its elements gathered by
`pick`. -/
def growBy (pick : Memory α → Nat → Memory α × Except Failure α) (m : Memory α) (v : Window)
    (capacity : Nat) : Memory α × Except Failure Window :=
  match m.allocate capacity with
  | .error e => (m, .error e)
  | .ok (m, slots) =>
    match gather pick m 0 v.length with
    | (m, .error e) => (m.note (·.drop capacity), .error e)
    | (m, .ok values) =>
      let m := m.note (·.drop v.length)
      let m := { m with growths := m.growths.push ⟨v.capacity, capacity, v.length⟩ }
      let (m, fresh) := m.newStore (values ++ slots.drop v.length) v.length
      (m.drop v, .ok fresh)

/-- Move a view to a store of its own with room for `capacity`.  The elements are moved
out if nobody else holds the old store, and cloned otherwise. -/
def grow (m : Memory α) (v : Window) (capacity : Nat) : Memory α × Except Failure Window :=
  m.growBy (if m.holders v = 1 then fun m pos => takeAt m v pos else fun m pos => cloneAt m v pos)
    v capacity

/-- A view with room for `additional` more elements: the same one if it has the room. -/
def reserve (m : Memory α) (v : Window) (additional : Nat) : Memory α × Except Failure Window :=
  let needed := v.length + additional
  if sizeLimit < needed then (m, .error (.defect .addOverflow))
  else if needed ≤ v.capacity then (m, .ok v)
  else if sizeLimit < 2 * needed then (m, .error (.defect .multiplyOverflow))
  else m.grow v (2 * needed)

/-- Move an element behind the last one; there has to be room. -/
def pushWithin (m : Memory α) (v : Window) (a : α) : Memory α × Except Failure Window :=
  match m.moveTo v v.length a with
  | (m, .error e) => (m, .error e)
  | (m, .ok ()) => (m, .ok { v with length := v.length + 1 })

/-- Move elements behind the last one; there has to be room. -/
def pushAllWithin (m : Memory α) (v : Window) : List α → Memory α × Except Failure Window
  | [] => (m, .ok v)
  | a :: rest =>
    match m.pushWithin v a with
    | (m, .error e) => (m.note (·.drop rest.length), .error e)
    | (m, .ok v) => m.pushAllWithin v rest

/-- Move an element behind the last one.  It is dropped if there can be no room. -/
def push (m : Memory α) (v : Window) (a : α) : Memory α × Except Failure Window :=
  match m.reserve v 1 with
  | (m, .error e) => (m.note (·.drop 1), .error e)
  | (m, .ok v) => m.pushWithin v a

/-- A view of elements that are moved into it. -/
def ofList (m : Memory α) (values : List α) : Memory α × Except Failure Window :=
  match m.alloc 0 values.length with
  | (m, .error e) => (m.note (·.drop values.length), .error e)
  | (m, .ok v) => m.pushAllWithin v values

/-- Clone elements behind the last one, one at a time; there has to be room. -/
def pushClonesWithin (m : Memory α) (v : Window) : List α → Memory α × Except Failure Window
  | [] => (m, .ok v)
  | a :: rest =>
    match (m.note (·.clone 1)).pushWithin v a with
    | (m, .error e) => (m, .error e)
    | (m, .ok v) => m.pushClonesWithin v rest

/-- Clone elements behind the last one. -/
def extend (m : Memory α) (v : Window) (values : List α) : Memory α × Except Failure Window :=
  match m.reserve v values.length with
  | (m, .error e) => (m, .error e)
  | (m, .ok v) => m.pushClonesWithin v values

/-- Clone the elements of `other` behind the last one.  They are read before the view
grows, since both may be windows on one store. -/
def append (m : Memory α) (v other : Window) : Memory α × Except Failure Window :=
  match m.toList other with
  | (m, .error e) => (m, .error e)
  | (m, .ok values) =>
    let (m, result) := m.extend v values
    (m.note (·.drop values.length), result)

/-! ## Iteration -/

/-- How many elements are left behind a position. -/
def remaining (v : Window) (pos : Nat) : Except Failure Nat :=
  if v.length < pos then .error (.defect .subtractOverflow) else .ok (v.length - pos)

/-- The next element at a position, cloned, and the position after it. -/
def next (m : Memory α) (v : Window) (pos : Nat) : Memory α × Except Failure (Option α × Nat) :=
  if v.length ≤ pos then (m, .ok (none, pos))
  else
    match m.get v pos with
    | (m, .error e) => (m, .error e)
    | (m, .ok a) => (m, .ok (some a, pos + 1))

/-- The order of the elements from `pos` on, of which `v` has a number left: in pairs, each cloned
to be compared, up to the first that differ or to an end. -/
def compareFrom (order : α → α → Ordering) (m : Memory α) (v u : Window) (pos : Nat) :
    Nat → Memory α × Except Failure Ordering
  | 0 =>
    match m.next u pos with
    | (m, .error e) => (m, .error e)
    | (m, .ok (none, _)) => (m, .ok .eq)
    | (m, .ok (some _, _)) => (m.note (·.drop 1), .ok .lt)
  | left + 1 =>
    match m.get v pos with
    | (m, .error e) => (m, .error e)
    | (m, .ok a) =>
      match m.next u pos with
      | (m, .error e) => (m.note (·.drop 1), .error e)
      | (m, .ok (none, _)) => (m.note (·.drop 1), .ok .gt)
      | (m, .ok (some b, _)) =>
        let m := m.note (·.drop 2)
        match order a b with
        | .eq => compareFrom order m v u (pos + 1) left
        | found => (m, .ok found)

/-- The order of what two views show. -/
def compare (order : α → α → Ordering) (m : Memory α) (v u : Window) :
    Memory α × Except Failure Ordering :=
  compareFrom order m v u 0 v.length

end Memory

end Substrate.View
