import Substrate.Dynamic.Plain
import Substrate.Dynamic.Registry
import Substrate.Registers
import Substrate.Text.Quoted

/-!
# Box sessions

Named boxes of values of any types and the operations on them.  Storing under a
name makes the new box first and then lets go of the one the name had.
-/

namespace Substrate.Dynamic

open Ownership (Heap)

/-- What an operation answers. -/
inductive Reply where
  /-- It was carried out, or there is nothing to tell. -/
  | nothing
  /-- A yes or no. -/
  | truth (b : Bool)
  /-- A number. -/
  | number (n : Nat)
  /-- A text. -/
  | text (s : String)
  /-- A pointer: the text of its target, the number of holders, whether it owns. -/
  | pointer (text : String) (count : Nat) (owned : Bool)
  /-- A box: whether it is empty, the name of its type, the number of holders. -/
  | info (empty : Bool) (type : Option String) (count : Nat)
  /-- A type: its name, whether registering it twice gives one descriptor, whether it is
  found, and the diagnostic form of its descriptor. -/
  | described (name : String) (once found : Bool) (debug : String)
  /-- Whether two values are equal, the hash of the first, the text of the second. -/
  | compared (equal : Bool) (digest text : String)
  /-- It names a box that does not exist. -/
  | refused
  /-- A fault. -/
  | failed (f : Fault)
  deriving DecidableEq, Repr

/-- Named boxes of plain values `α` with types `τ`. -/
structure Store (τ α : Type) where
  /-- The payloads. -/
  heap : Heap (Value τ α) := {}
  /-- The descriptors. -/
  registry : Registry (Kind τ) := {}
  /-- The boxes by name. -/
  boxes : Registers (Box τ) := .empty
  /-- The cells whose payloads have ended, in order. -/
  ended : List Nat := []

namespace Store

instance {τ α : Type} : Inhabited (Store τ α) := ⟨{}⟩

/-- What a new payload is made of. -/
inductive Given (α : Type) where
  /-- A value. -/
  | value (v : α)
  /-- One more box like the one of a name. -/
  | boxOf (name : String)
  deriving DecidableEq, Repr

/-- An operation on named boxes. -/
inductive Op (τ α : Type) where
  /-- A box of a value. -/
  | new (name : String) (given : Given α)
  /-- The empty box. -/
  | empty (name : String)
  /-- One more box that shares the payload of another. -/
  | clone (name source : String)
  /-- Let go of a box. -/
  | drop (name : String)
  /-- Whether two boxes are equal. -/
  | equal (a b : String)
  /-- Whether two boxes share a payload. -/
  | samePayload (a b : String)
  /-- Whether the payload has a type. -/
  | isOf (name : String) (t : Kind τ)
  /-- A copy of the payload, which has to have a type. -/
  | cast (name : String) (t : Kind τ)
  /-- A copy of the payload, if it has a type. -/
  | tryCast (name : String) (t : Kind τ)
  /-- A pointer to the payload, which has to have a type. -/
  | castPointer (name : String) (t : Kind τ)
  /-- Whether the descriptor is that of a type. -/
  | describedAs (name : String) (t : Kind τ)
  /-- Its text. -/
  | text (name : String)
  /-- Its diagnostic form. -/
  | debug (name : String)
  /-- Its hash. -/
  | hash (name : String)
  /-- What is known of a box. -/
  | info (name : String)
  /-- How many different boxes there are. -/
  | distinct (names : List String)
  /-- What is known of a type. -/
  | describe (t : Kind τ)
  /-- Compare two values, hash the first and print the second. -/
  | throughDescriptor (first second : Given α)
  deriving DecidableEq, Repr

variable {τ α : Type}

/-- What an operation comes to: the state, the answer, and the notes of the values that
ended, in order. -/
abbrev Outcome (τ α : Type) := Store τ α × Reply × List Int

/-- An answer that changes nothing. -/
def keep (s : Store τ α) (r : Reply) : Outcome τ α := (s, r, [])

/-- Act on the box of a name. -/
def on (s : Store τ α) (name : String) (act : Box τ → Outcome τ α) : Outcome τ α :=
  match s.boxes.get? name with
  | some b => act b
  | none => s.keep .refused

/-- One more value like a given one. -/
def copyContent (s : Store τ α) : Value τ α → Store τ α
  | .plain _ => s
  | .box b => { s with heap := b.retain s.heap }

/-- Make a value out of what is given. -/
def give (s : Store τ α) : Given α → Option (Store τ α × Value τ α)
  | .value v => some (s, .plain v)
  | .boxOf name => (s.boxes.get? name).map fun b => (s.copyContent (.box b), .box b)

/-- Register a type: its descriptor. -/
def register [DecidableEq τ] (s : Store τ α) (t : Kind τ) : Store τ α × Option Nat :=
  let (registry, call) := s.registry.register t
  ({ s with registry }, call.descriptor?)

variable [Plain τ α]

/-- The note that the end of a value in a cell leaves. -/
def farewell? : Value τ α → Option Int
  | .plain a => Plain.farewell? a
  | .box _ => none

/-- Let go of a box: the notes of the values that ended. -/
def dropBox (s : Store τ α) (b : Box τ) : Store τ α × List Int :=
  let (heap, freed) := b.release s.heap
  ({ s with heap, ended := s.ended ++ freed },
    freed.filterMap fun i => farewell? (heap.payload i))

/-- End a value that is in no cell. -/
def dropContent (s : Store τ α) : Value τ α → Store τ α × List Int
  | .plain a => (s, (Plain.farewell? a).toList)
  | .box b => s.dropBox b

/-- Put a box under a name, then let go of the one it had. -/
def store (s : Store τ α) (name : String) (b : Box τ) (r : Reply) : Outcome τ α :=
  let stored := { s with boxes := s.boxes.set name b }
  match s.boxes.get? name with
  | some old =>
    let (after, notes) := stored.dropBox old
    (after, r, notes)
  | none => stored.keep r

/-- Copy the payload in a cell and drop the copy: the text of it. -/
def copyText (s : Store τ α) (i : Nat) : Outcome τ α :=
  let v := s.heap.payload i
  let copied := s.copyContent v
  let (after, notes) := copied.dropContent v
  (after, .text (v.text copied.heap), notes)

/-- Let go of boxes in turn: the notes of the values that ended. -/
def dropAll (s : Store τ α) : List (Box τ) → Store τ α × List Int
  | [] => (s, [])
  | b :: rest =>
    let (after, notes) := s.dropBox b
    let (last, more) := after.dropAll rest
    (last, notes ++ more)

/-- Let go of all boxes in name order: the notes of the values that ended. -/
def close (s : Store τ α) : Store τ α × List Int :=
  dropAll { s with boxes := .empty } s.boxes.values

/-- The diagnostic form of each box by name, with the number of holders. -/
def summary (s : Store τ α) : Registers (String × Nat) :=
  s.boxes.map fun b => (b.debugText s.heap, b.strongCount s.heap)

/-- The diagnostic form of a descriptor. -/
def descriptorText (α : Type) [Plain τ α] (t : Kind τ) : String :=
  Text.openRecord "TypeDescriptor" [("name", Text.quoted (t.name α))]

variable [DecidableEq τ]

/-- The boxes of a list that equal none of `seen` and none before them. -/
def distinct (h : Heap (Value τ α)) (seen : List (Box τ)) : List (Box τ) → List (Box τ)
  | [] => []
  | b :: rest =>
    if seen.any (b.equal h) then distinct h seen rest else b :: distinct h (b :: seen) rest

/-- Carry out one operation. -/
def apply (s : Store τ α) : Op τ α → Outcome τ α
  | .new name given =>
    match s.give given with
    | none => s.keep .refused
    | some (made, v) =>
      let (known, _) := made.register v.kind
      let (heap, b) := Box.make known.heap v
      store { known with heap } name b .nothing
  | .empty name => s.store name .empty .nothing
  | .clone name source =>
    s.on source fun b => store { s with heap := b.retain s.heap } name b .nothing
  | .drop name =>
    match s.boxes.get? name with
    | none => s.keep (.truth false)
    | some b =>
      let (after, notes) := dropBox { s with boxes := s.boxes.erase name } b
      (after, .truth true, notes)
  | .equal a b => s.on a fun x => s.on b fun y => s.keep (.truth (x.equal s.heap y))
  | .samePayload a b => s.on a fun x => s.on b fun y => s.keep (.truth (x.cell == y.cell))
  | .isOf name t => s.on name fun b => s.keep (.truth (b.kind == some t))
  | .cast name t =>
    s.on name fun b =>
      match b.cast α t with
      | .error e => s.keep (.failed e)
      | .ok i => s.copyText i
  | .tryCast name t =>
    s.on name fun b =>
      match b.cast α t with
      | .error _ => s.keep .nothing
      | .ok i => s.copyText i
  | .castPointer name t =>
    s.on name fun b =>
      match b.cast α t with
      | .error e => s.keep (.failed e)
      | .ok i =>
        let held := { s with heap := b.retain s.heap }
        let reply := .pointer ((held.heap.payload i).text held.heap) (b.strongCount held.heap)
          b.cell.isSome
        let (after, notes) := held.dropBox b
        (after, reply, notes)
  | .describedAs name t =>
    s.on name fun b =>
      match b.kind with
      | none => s.keep .nothing
      | some found => s.keep (.truth (found == t))
  | .text name => s.on name fun b => s.keep (.text (b.text s.heap))
  | .debug name => s.on name fun b => s.keep (.text (b.debugText s.heap))
  | .hash name =>
    s.on name fun b =>
      s.keep (.text (Hash.digest (Hash.sip13 (Value.fed s.heap (.box b : Value τ α)))))
  | .info name =>
    s.on name fun b =>
      s.keep (.info b.isEmpty (b.kindName? α) (b.strongCount s.heap))
  | .distinct names =>
    match names.mapM s.boxes.get? with
    | none => s.keep .refused
    | some boxes => s.keep (.number (distinct s.heap [] boxes).length)
  | .describe t =>
    let (once, first) := s.register t
    let (twice, second) := once.register t
    twice.keep (.described (t.name α) (first == second)
      (twice.registry.lookup t).isSome (descriptorText α t))
  | .throughDescriptor first second =>
    match s.give first with
    | none => s.keep .refused
    | some (one, x) =>
      match one.give second with
      | none => s.keep .refused
      | some (two, y) =>
        let h := two.heap
        let reply := .compared (x.equal h y) (Hash.digest (Hash.sip13 (x.fed h))) (y.text h)
        let (afterY, notesY) := two.dropContent y
        let (after, notesX) := afterY.dropContent x
        (after, reply, notesY ++ notesX)

end Store

/-- A session boxes values of the plain types. -/
abbrev Session := Store PlainType PlainValue

/-- What a session boxes. -/
abbrev Given := Store.Given PlainValue

/-- An operation of a session. -/
abbrev Op := Store.Op PlainType PlainValue

end Substrate.Dynamic
