import Substrate.Fault
import Substrate.Ownership.Pointer
import Substrate.Registers

/-!
# Pointer sessions

Named pointers at nodes and at numbers, bare or typed, and the operations on
them.  Storing under a name computes the new pointer first and then lets go of
the one the name had.
-/

namespace Substrate.Ownership

/-- What a pointer is at. -/
inductive Tag where
  /-- A node. -/
  | node
  /-- A number. -/
  | number
  deriving DecidableEq, Repr

/-- A pointer under a name. -/
structure Register where
  /-- Whether it is bare, so that it cannot be dereferenced. -/
  bare : Bool := false
  /-- What it is at. -/
  tag : Tag := .node
  /-- The pointer. -/
  pointer : Pointer := {}
  deriving DecidableEq, Repr

/-- The state of a session. -/
structure Session where
  /-- The cells and the fixed nodes. -/
  memory : Memory := .initial
  /-- The pointers by name. -/
  registers : Registers Register := .empty

instance : Inhabited Session := ⟨{}⟩

/-- What can be pointed at inside a node. -/
inductive Field where
  /-- Its head. -/
  | head
  /-- Its tail. -/
  | tail
  /-- All of it. -/
  | whole
  /-- Something it does not have. -/
  | unknown
  deriving DecidableEq, Repr

/-- An operation on named pointers. -/
inductive Op where
  /-- An owner of a new node. -/
  | make (name : String) (head tail : Int)
  /-- A bare owner of a new number. -/
  | makeBare (name : String) (value : Int)
  /-- An empty pointer. -/
  | empty (name : String) (bare : Bool) (tag : Tag)
  /-- A view of a fixed node. -/
  | fixed (name : String) (k : Int)
  /-- Let go of a pointer. -/
  | drop (name : String)
  /-- One more pointer like another. -/
  | clone (name source : String)
  /-- A view of what another points at. -/
  | view (name source : String)
  /-- One more pointer like another, bare. -/
  | asBare (name source : String)
  /-- A pointer at a field. -/
  | project (name source : String) (field : Field)
  /-- Turn a pointer into a bare one. -/
  | intoBare (name source : String)
  /-- Turn a bare pointer into one that can be dereferenced. -/
  | fromBare (name source : String)
  /-- A bare pointer that shares the target and the cell of another. -/
  | share (name source : String)
  /-- One more pointer like the one to the next node. -/
  | next (name source : String)
  /-- Make a pointer point where another does. -/
  | assign (name source : String)
  /-- Whether two pointers of a kind have one target. -/
  | same (a b : String)
  /-- Whether two pointers have one target. -/
  | sameTarget (a b : String)
  /-- Make a node's next pointer point where another does. -/
  | link (a b : String)
  /-- Empty a node's next pointer. -/
  | unlink (name : String)
  /-- Make a pointer point where its node's next pointer does. -/
  | advance (name : String)
  /-- Empty a pointer. -/
  | reset (name : String)
  /-- Whether it is empty, whether it owns, and the number of holders. -/
  | info (name : String)
  /-- Whether its address is null. -/
  | isNull (name : String)
  /-- The count of its cell. -/
  | cellCount (name : String)
  /-- Check that it is not empty. -/
  | expect (name what : String)
  /-- Its diagnostic form. -/
  | debug (name : String)
  /-- What it points at. -/
  | get (name : String)
  /-- Change the number it points at. -/
  | set (name : String) (value : Int)
  /-- Change the number it points at, if it is the only holder. -/
  | setAlone (name : String) (value : Int)
  deriving DecidableEq, Repr

/-- What an operation answers. -/
inductive Reply where
  /-- It was carried out, or there is nothing to tell. -/
  | nothing
  /-- A yes or no. -/
  | truth (b : Bool)
  /-- A number. -/
  | number (n : Int)
  /-- A node: its name, head and tail. -/
  | node (name head tail : Int)
  /-- Whether a pointer is empty, whether it owns, and the number of holders. -/
  | info (empty owned : Bool) (count : Nat)
  /-- A text. -/
  | text (s : String)
  /-- A check went well. -/
  | passed
  /-- The target was freed. -/
  | dangling
  /-- It makes no sense for these registers. -/
  | refused
  /-- A fault. -/
  | failed (f : Fault)
  deriving DecidableEq, Repr

namespace Session

/-- What an operation comes to: the state, the answer, and the cells freed in order. -/
abbrev Outcome := Session × Reply × List Nat

/-- An answer that changes nothing. -/
def keep (s : Session) (r : Reply) : Outcome := (s, r, [])

/-- Put a pointer under a name and let go of the one it had. -/
def store (s : Session) (name : String) (memory : Memory) (r : Register) (reply : Reply) :
    Outcome :=
  let registers := s.registers.set name r
  match s.registers.get? name with
  | none => ({ memory, registers }, reply, [])
  | some old =>
    let (memory, freed) := memory.drop old.pointer
    ({ memory, registers }, reply, freed)

/-- Carry out `act` on the register of a name. -/
def on (s : Session) (name : String) (act : Register → Outcome) : Outcome :=
  match s.registers.get? name with
  | some r => act r
  | none => s.keep .refused

/-- Carry out `act` on the registers of two names. -/
def onBoth (s : Session) (a b : String) (act : Register → Register → Outcome) : Outcome :=
  s.on a fun ra => s.on b fun rb => act ra rb

/-- What a dereferenced pointer is called in faults. -/
def pointerLabel : String := "managed pointer"

/-- Whether the target of a register was freed. -/
def isDangling (s : Session) (r : Register) : Bool :=
  match r.pointer.target with
  | none => false
  | some place => s.memory.isFreed place.site

/-- Carry out `act` on the register of a name, unless its target was freed. -/
def onSound (s : Session) (name : String) (act : Register → Outcome) : Outcome :=
  s.on name fun r => if s.isDangling r then s.keep .dangling else act r

/-- Carry out `act` on the target of a pointer that is not bare; `empty` is the answer
when it has none. -/
def onTarget (s : Session) (r : Register) (empty : Reply) (act : Place → Outcome) : Outcome :=
  if r.bare then s.keep .refused
  else
    match r.pointer.target with
    | none => s.keep empty
    | some place => act place

/-- The fault of an empty pointer. -/
def emptyFault : Reply := .failed (.invalidMemory pointerLabel)

/-- The site of an owned node. -/
def ownedNode? (r : Register) : Option Site :=
  if r.bare || r.tag != .node || r.pointer.cell.isNone then none
  else r.pointer.target.map Place.site

/-- The diagnostic form of a pointer whose target is `value`. -/
def pointerText (value : String) (count : Nat) : String :=
  Text.record "Ptr" [("value", value), ("count", toString count)]

/-- The diagnostic form of what a pointer points at. -/
def targetText (m : Memory) (tag : Tag) (place : Place) : String :=
  match tag with
  | .number => toString (m.read place)
  | .node =>
    let n := m.node place.site
    s!"Node({n.head}, {n.tail})"

/-- The diagnostic form of a bare pointer. -/
def bareText (m : Memory) (p : Pointer) : String :=
  Text.record "RawPtr"
    [("payload", Text.optional (p.target.map fun _ => "ADDR")),
    ("count", toString (m.strongCount p))]

/-- Carry out one operation. -/
def apply (s : Session) : Op → Outcome
  | .make name head tail =>
    let (m, p) := s.memory.makeOwned (.node { head, tail })
    s.store name m { pointer := p } (.number (s.memory.heap.size + 1))
  | .makeBare name value =>
    let (m, p) := s.memory.makeOwned (.number value)
    s.store name m { bare := true, tag := .number, pointer := p } (.number (s.memory.heap.size + 1))
  | .empty name bare tag => s.store name s.memory { bare, tag } .nothing
  | .fixed name k =>
    let place : Place := ⟨.fixed (k % Memory.fixedCount).toNat, .start⟩
    s.store name s.memory { pointer := { target := some place } } .nothing
  | .drop name =>
    match s.registers.get? name with
    | none => s.keep (.truth false)
    | some r =>
      let (memory, freed) := s.memory.drop r.pointer
      ({ memory, registers := s.registers.erase name }, .truth true, freed)
  | .clone name source =>
    s.on source fun r =>
      let (m, p) := s.memory.clone r.pointer
      s.store name m { r with pointer := p } .nothing
  | .view name source =>
    s.on source fun r =>
      if r.bare then s.keep .refused
      else s.store name s.memory { r with pointer := Memory.view r.pointer } .nothing
  | .asBare name source =>
    s.on source fun r =>
      let (m, p) := s.memory.clone r.pointer
      s.store name m { r with bare := true, pointer := p } .nothing
  | .project name source field =>
    s.onSound source fun r =>
      if field = .unknown && r.tag == .node then s.keep .refused
      else s.onTarget r emptyFault fun place =>
        let target : Place := match r.tag, field with
          | .node, .tail => ⟨place.site, .tail⟩
          | _, _ => place
        let tag : Tag := if r.tag == .node && field == .whole then .node else .number
        let (m, p) := s.memory.makeShared target r.pointer.cell
        s.store name m { tag, pointer := p } .nothing
  | .intoBare name source =>
    s.on source fun r =>
      if r.bare then s.keep .refused
      else { s with registers := s.registers.erase source }.store name s.memory
        { r with bare := true } .nothing
  | .fromBare name source =>
    s.on source fun r =>
      if !r.bare then s.keep .refused
      else { s with registers := s.registers.erase source }.store name s.memory
        { r with bare := false } .nothing
  | .share name source =>
    s.on source fun r =>
      match r.pointer.target with
      | none => s.keep .refused
      | some place =>
        let (m, p) := s.memory.makeShared place r.pointer.cell
        s.store name m { r with bare := true, pointer := p } .nothing
  | .next name source =>
    s.onSound source fun r =>
      if r.tag != .node then s.keep .refused
      else s.onTarget r emptyFault fun place =>
        let (m, p) := s.memory.clone (s.memory.node place.site).next
        s.store name m { pointer := p } .nothing
  | .assign name source =>
    s.onBoth name source fun r from_ =>
      if r.bare != from_.bare || r.tag != from_.tag then s.keep .refused
      else
        let (memory, p, freed) := s.memory.assign r.pointer from_.pointer
        ({ memory, registers := s.registers.set name { r with pointer := p } }, .nothing, freed)
  | .same a b =>
    s.onBoth a b fun ra rb =>
      if ra.bare != rb.bare || (!ra.bare && ra.tag != rb.tag) then s.keep .refused
      else s.keep (.truth (ra.pointer.target == rb.pointer.target))
  | .sameTarget a b =>
    s.onBoth a b fun ra rb => s.keep (.truth (ra.pointer.target == rb.pointer.target))
  | .link a b =>
    s.onBoth a b fun ra rb =>
      match ownedNode? ra with
      | none => s.keep .refused
      | some site =>
        if rb.bare || rb.tag != .node then s.keep .refused
        else
          let (memory, freed) := s.memory.assignNext site rb.pointer
          ({ s with memory }, .nothing, freed)
  | .unlink name =>
    s.onSound name fun r =>
      if r.tag != .node then s.keep .refused
      else s.onTarget r .refused fun place =>
        if r.pointer.cell.isNone then s.keep .refused
        else
          let (memory, freed) := s.memory.resetNext place.site
          ({ s with memory }, .nothing, freed)
  | .advance name =>
    s.on name fun r =>
      match ownedNode? r with
      | none => s.keep .refused
      | some site =>
        let (memory, p, freed) := s.memory.assign r.pointer (s.memory.node site).next
        ({ memory, registers := s.registers.set name { r with pointer := p } }, .nothing, freed)
  | .reset name =>
    s.on name fun r =>
      let (memory, freed) := s.memory.drop r.pointer
      ({ memory, registers := s.registers.set name { r with pointer := {} } }, .nothing, freed)
  | .info name =>
    s.on name fun r =>
      s.keep (.info r.pointer.target.isNone r.pointer.cell.isSome (s.memory.strongCount r.pointer))
  | .isNull name => s.on name fun r => s.keep (.truth r.pointer.target.isNone)
  | .cellCount name =>
    s.on name fun r =>
      match r.pointer.cell with
      | some i => s.keep (.number (s.memory.heap.count i))
      | none => s.keep .nothing
  | .expect name what =>
    s.on name fun r =>
      s.keep (if r.pointer.target.isNone then .failed (.invalidMemory what) else .passed)
  | .debug name =>
    s.on name fun r =>
      if r.bare then s.keep (.text (bareText s.memory r.pointer))
      else if s.isDangling r then s.keep .dangling
      else s.onTarget r (.text "Ptr(<empty>)") fun place =>
        s.keep (.text
          (pointerText (targetText s.memory r.tag place) (s.memory.strongCount r.pointer)))
  | .get name =>
    s.onSound name fun r =>
      s.onTarget r emptyFault fun place =>
        match r.tag with
        | .number => s.keep (.number (s.memory.read place))
        | .node =>
          let n := s.memory.node place.site
          s.keep (.node (Memory.nameOf place.site) n.head n.tail)
  | .set name value =>
    s.onSound name fun r =>
      s.onTarget r emptyFault fun place =>
        ({ s with memory := s.memory.write place value }, .nothing, [])
  | .setAlone name value =>
    s.onSound name fun r =>
      s.onTarget r (.truth false) fun place =>
        if s.memory.strongCount r.pointer = 1 then
          ({ s with memory := s.memory.write place value }, .truth true, [])
        else s.keep (.truth false)

/-- Each pointer by name: whether it is empty, whether it owns, and the number of holders. -/
def infos (s : Session) : Registers (Bool × Bool × Nat) :=
  s.registers.map fun r =>
    (r.pointer.target.isNone, r.pointer.cell.isSome, s.memory.strongCount r.pointer)

/-- Let go of all pointers in name order: the cells freed, in order. -/
def close (s : Session) : Session × List Nat :=
  let (memory, freed) := s.registers.values.foldl (fun (m, freed) r =>
    let (m, more) := m.drop r.pointer
    (m, freed ++ more)) (s.memory, [])
  ({ memory, registers := .empty }, freed)

end Session

end Substrate.Ownership
