import Substrate.Registers
import Substrate.Text.Record
import Substrate.View.Memory

/-!
# View sessions

Named views and the operations on them.  Storing under a name computes the new
view first and then lets go of the one the name had.  Elements that an
operation makes only for its own use are dropped before it answers.
-/

namespace Substrate.View

/-- The state of a session. -/
structure Session (α : Type) where
  /-- The stores. -/
  memory : Memory α := {}
  /-- The views by name. -/
  views : Registers Window := .empty

/-- An operation on named views. -/
inductive Op (α : Type) where
  /-- The view of nothing. -/
  | empty (name : String)
  /-- A view of blank elements. -/
  | alloc (name : String) (length capacity : Int)
  /-- A view of given elements. -/
  | ofList (name : String) (values : List α)
  /-- Let go of a view. -/
  | drop (name : String)
  /-- One more view like another. -/
  | clone (name source : String)
  /-- A window on another view. -/
  | slice (name source : String) (start stop : Int)
  /-- The element at an index. -/
  | get (name : String) (index : Int)
  /-- Change the element at an index. -/
  | set (name : String) (index : Int) (a : α)
  /-- Add an element. -/
  | push (name : String) (a : α)
  /-- Add elements one at a time. -/
  | pushMany (name : String) (values : List α)
  /-- Add the elements of another view. -/
  | append (name source : String)
  /-- Add clones of given elements. -/
  | extend (name : String) (values : List α)
  /-- Make room for more elements. -/
  | reserve (name : String) (additional : Nat)
  /-- Copy elements of another view over those of one. -/
  | copyFrom (name source : String)
  /-- All elements. -/
  | toList (name : String)
  /-- Iterate a number of times. -/
  | iterate (name : String) (count : Nat)
  /-- Whether two views show equal elements. -/
  | equal (a b : String)
  /-- Whether two views have one store. -/
  | sharesStore (a b : String)
  /-- The diagnostic form of a view. -/
  | debug (name : String)
  /-- The measures of a view. -/
  | info (name : String)

/-- The measures of a view: length, capacity and the number of views on its store. -/
structure Measures where
  /-- The length. -/
  length : Nat
  /-- The capacity. -/
  capacity : Nat
  /-- The number of views on the store. -/
  holders : Nat
  deriving DecidableEq, Repr

/-- One turn of an iteration: how many elements were left before it, and its element. -/
structure Turn (α : Type) where
  /-- How many elements were left. -/
  left : Nat
  /-- The element. -/
  item : Option α

/-- What an operation answers. -/
inductive Reply (α : Type) where
  /-- It was carried out. -/
  | nothing
  /-- A yes or no. -/
  | truth (b : Bool)
  /-- A number. -/
  | number (n : Nat)
  /-- An element. -/
  | element (a : α)
  /-- Elements. -/
  | elements (values : List α)
  /-- Lengths and capacities after each growth. -/
  | growths (pairs : List (Nat × Nat))
  /-- The turns of an iteration. -/
  | turns (turns : List (Turn α))
  /-- The measures of a view, and whether it is empty. -/
  | info (m : Measures) (empty : Bool)
  /-- A text. -/
  | text (s : String)
  /-- It names a view that does not exist. -/
  | refused
  /-- A failure. -/
  | failed (f : Failure)

namespace Session

variable {α : Type}

instance : Inhabited (Session α) := ⟨{}⟩

/-- Put a view under a name and let go of the one it had. -/
def store (s : Session α) (name : String) (memory : Memory α) (v : Window) : Session α :=
  let old := (s.views.get? name).getD .empty
  { memory := memory.drop old, views := s.views.set name v }

/-- Answer a new view for a name, or a failure. -/
def storeResult (s : Session α) (name : String) :
    Memory α × Except Failure Window → Session α × Reply α
  | (memory, .ok v) => (s.store name memory v, .nothing)
  | (memory, .error e) => ({ s with memory }, .failed e)

/-- Answer a changed view for a name, or a failure. -/
def update (s : Session α) (name : String) :
    Memory α × Except Failure Window → Session α × Reply α
  | (memory, .ok v) => ({ memory, views := s.views.set name v }, .nothing)
  | (memory, .error e) => ({ s with memory }, .failed e)

/-- Answer what `reply` makes of a result of which `temporaries` instances are dropped. -/
def answer {β : Type} (s : Session α) (temporaries : β → Nat) (reply : β → Reply α) :
    Memory α × Except Failure β → Session α × Reply α
  | (memory, .ok b) => ({ s with memory := memory.note (·.drop (temporaries b)) }, reply b)
  | (memory, .error e) => ({ s with memory }, .failed e)

/-- Carry out `act` on the view of a name. -/
def on (s : Session α) (name : String) (act : Window → Session α × Reply α) :
    Session α × Reply α :=
  match s.views.get? name with
  | some v => act v
  | none => (s, .refused)

/-- Carry out `act` on the views of two names. -/
def onBoth (s : Session α) (a b : String) (act : Window → Window → Session α × Reply α) :
    Session α × Reply α :=
  s.on a fun v => s.on b fun u => act v u

/-- The session after instances were made. -/
def make (s : Session α) (n : Nat) : Session α := { s with memory := s.memory.note (·.make n) }

/-- The measures of a view. -/
def measure (s : Session α) (v : Window) : Measures := ⟨v.length, v.capacity, s.memory.holders v⟩

variable [Element α]

/-- Add elements one at a time: the view after them, and its length and capacity after
each that changed its capacity. -/
def pushEach (m : Memory α) (v : Window) :
    List α → Memory α × Window × Except Failure (List (Nat × Nat))
  | [] => (m, v, .ok [])
  | a :: rest =>
    match (m.note (·.make 1)).push v a with
    | (m, .error e) => (m, v, .error e)
    | (m, .ok after) =>
      let (m, last, pairs) := pushEach m after rest
      (m, last, pairs.map fun pairs =>
        if after.capacity = v.capacity then pairs else (after.length, after.capacity) :: pairs)

/-- Iterate a number of times from a position. -/
def iterate (m : Memory α) (v : Window) (pos : Nat) :
    Nat → Memory α × Except Failure (List (Turn α))
  | 0 => (m, .ok [])
  | count + 1 =>
    match Memory.remaining v pos with
    | .error e => (m, .error e)
    | .ok left =>
      match m.next v pos with
      | (m, .error e) => (m, .error e)
      | (m, .ok (item, pos)) =>
        let (m, rest) := iterate m v pos count
        (m, rest.map (⟨left, item⟩ :: ·))

/-- Carry out one operation. -/
def apply [DecidableEq α] (s : Session α) : Op α → Session α × Reply α
  | .empty name => (s.store name s.memory .empty, .nothing)
  | .alloc name length capacity => s.storeResult name (s.memory.alloc length capacity)
  | .ofList name values =>
    let s := s.make values.length
    s.storeResult name (s.memory.ofList values)
  | .drop name =>
    match s.views.get? name with
    | none => (s, .truth false)
    | some v => ({ memory := s.memory.drop v, views := s.views.erase name }, .truth true)
  | .clone name source =>
    s.on source fun v =>
      let (m, v) := s.memory.clone v
      (s.store name m v, .nothing)
  | .slice name source start stop =>
    s.on source fun v => s.storeResult name (s.memory.slice v start stop)
  | .get name index =>
    s.on name fun v => s.answer (fun _ => 1) .element (s.memory.get v index)
  | .set name index a =>
    s.on name fun v =>
      let s := s.make 1
      s.answer (fun _ => 0) (fun _ => .nothing) (s.memory.set v index a)
  | .push name a =>
    s.on name fun v =>
      let s := s.make 1
      s.update name (s.memory.push v a)
  | .pushMany name values =>
    s.on name fun v =>
      let (memory, last, result) := pushEach s.memory v values
      let s := { memory, views := s.views.set name last }
      match result with
      | .ok pairs => (s, .growths pairs)
      | .error e => (s, .failed e)
  | .append name source =>
    s.onBoth name source fun v u =>
      if name = source then
        let (m, temporary) := s.memory.clone u
        let (m, result) := m.append v temporary
        s.update name (m.drop temporary, result)
      else s.update name (s.memory.append v u)
  | .extend name values =>
    s.on name fun v =>
      let s := s.make values.length
      let (m, result) := s.memory.extend v values
      s.update name (m.note (·.drop values.length), result)
  | .reserve name additional => s.on name fun v => s.update name (s.memory.reserve v additional)
  | .copyFrom name source =>
    s.onBoth name source fun v u => s.answer (fun _ => 0) .number (s.memory.copyFrom v u)
  | .toList name => s.on name fun v => s.answer List.length .elements (s.memory.toList v)
  | .iterate name count =>
    s.on name fun v =>
      s.answer (fun turns => (turns.filterMap Turn.item).length) .turns
        (iterate s.memory v 0 count)
  | .equal a b => s.onBoth a b fun v u => s.answer (fun _ => 0) .truth (s.memory.equal v u)
  | .sharesStore a b => s.onBoth a b fun v u => (s, .truth (v.sharesStore u))
  | .debug name =>
    s.on name fun v =>
      s.answer List.length (fun values => .text (Text.bracketed (values.map Element.text)))
        (s.memory.toList v)
  | .info name => s.on name fun v => (s, .info (s.measure v) (v.length == 0))

/-- What each view shows, with its measures. -/
def summary (s : Session α) : Registers (List α × Measures) :=
  s.views.map fun v => (s.memory.contents v, s.measure v)

/-- Let go of all views. -/
def close (s : Session α) : Session α :=
  { memory := s.views.values.foldl Memory.drop s.memory, views := .empty }

end Session

end Substrate.View
