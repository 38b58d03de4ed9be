import Substrate.Capability.Figure
import Substrate.Capability.Object
import Substrate.Registers

/-!
# Capability sessions

Grids made at the start, named objects of figures, and the operations on them.
Storing under a name makes the new object first and then lets go of the one
the name had.
-/

namespace Substrate.Capability

open Ownership (Heap)

/-- A grid of figure types. -/
abbrev FigureGrid := Grid Concrete VTable

/-- A figure seen through a view. -/
abbrev FigureObject := Object Concrete VTable

/-- What a grid is to be built of: the views, and which type implements which of them
through which interface. -/
structure Plan where
  /-- The names of the views. -/
  views : List String
  /-- The implementations. -/
  implementations : List (Concrete × Nat × Interface)
  deriving DecidableEq, Repr

/-- Why there is no grid. -/
inductive NoGrid where
  /-- A type does not have the interface. -/
  | noTable
  /-- Freezing it went outside. -/
  | defect (cause : Defect)
  deriving DecidableEq, Repr

/-- Record implementations in a builder. -/
def Plan.implementAll (b : Builder Concrete VTable) :
    List (Concrete × Nat × Interface) → Option (Builder Concrete VTable)
  | [] => some b
  | (concrete, view, interface) :: rest =>
    match VTable.for? concrete interface with
    | none => none
    | some vtable => implementAll (b.implement concrete view vtable) rest

/-- The grid of a plan. -/
def Plan.build (p : Plan) : Except NoGrid FigureGrid :=
  let declared := p.views.foldl (fun b name => (b.view name).1) {}
  match implementAll declared p.implementations with
  | none => .error .noTable
  | some b => b.build.mapError .defect

/-- The state of a session. -/
structure Session where
  /-- The grids, where they could be built. -/
  grids : List (Option FigureGrid) := []
  /-- The figures. -/
  heap : Heap Figure := {}
  /-- The objects by name. -/
  objects : Registers FigureObject := .empty

instance : Inhabited Session := ⟨{}⟩

/-- An operation. -/
inductive Op where
  /-- The offset of a type and a view. -/
  | offsetOf (grid : Nat) (concrete : Concrete) (view : Nat)
  /-- The offset of the same type and another view. -/
  | remap (grid offset view : Nat)
  /-- The name of a view. -/
  | viewName (grid view : Nat)
  /-- The name of the type of an offset. -/
  | concreteName (grid offset : Nat)
  /-- The number of views. -/
  | viewCount (grid : Nat)
  /-- The diagnostic form of a grid. -/
  | gridDebug (grid : Nat)
  /-- An object of a figure. -/
  | new (name : String) (grid offset : Nat) (figure : Figure)
  /-- The empty object. -/
  | empty (name : String)
  /-- Let go of an object. -/
  | drop (name : String)
  /-- One more object like another. -/
  | clone (name source : String)
  /-- Another view of an object, which has to exist. -/
  | mask (name source : String) (view : Nat)
  /-- Another view of an object, if it exists. -/
  | tryMask (name source : String) (view : Nat)
  /-- Whether two objects share a figure. -/
  | sameFigure (a b : String)
  /-- Its area, through the interface for shapes. -/
  | area (name : String)
  /-- Its name, through the interface for names. -/
  | name (name : String)
  /-- Scale it, through the interface for scaling. -/
  | scale (name : String) (k : Int)
  /-- Ask for a function table that is a plain number. -/
  | numberTable (name : String)
  /-- Whether there is a figure. -/
  | data (name : String)
  /-- Its offset. -/
  | offset (name : String)
  /-- Its view. -/
  | view (name : String)
  /-- The name of its type. -/
  | concrete (name : String)
  /-- A copy of the figure, which has to be of a type. -/
  | cast (name : String) (concrete : Concrete)
  /-- A pointer to the figure, which has to be of a type. -/
  | castPointer (name : String) (concrete : Concrete)
  /-- Whether it is empty, and the number of holders. -/
  | info (name : String)
  /-- Its diagnostic form. -/
  | debug (name : String)
  deriving DecidableEq, Repr

/-- What an operation answers. -/
inductive Reply where
  /-- It was carried out, or there is nothing to tell. -/
  | nothing
  /-- There is a figure. -/
  | present
  /-- A yes or no. -/
  | truth (b : Bool)
  /-- A number. -/
  | number (n : Int)
  /-- A text. -/
  | text (s : String)
  /-- What a figure consists of. -/
  | figure (f : Figure)
  /-- A figure and the number of holders. -/
  | pointer (f : Figure) (count : Nat)
  /-- Whether an object is empty, and the number of holders. -/
  | info (empty : Bool) (count : Nat)
  /-- The function table found was written for another type. -/
  | foreignTable (writtenFor : Concrete)
  /-- It names a grid or an object that does not exist. -/
  | refused
  /-- It failed. -/
  | failed (f : Failure)
  deriving DecidableEq, Repr

namespace Session

/-- A session over the grids of some plans, where a plan may be missing. -/
def start (grids : List (Except NoGrid FigureGrid)) : Session :=
  { grids := grids.map Except.toOption }

/-- What an operation comes to: the state, the answer, and the notes of the figures that
ended, in order. -/
abbrev Outcome := Session × Reply × List String

/-- An answer that changes nothing. -/
def keep (s : Session) (r : Reply) : Outcome := (s, r, [])

/-- The answer `f` gives for a result, or its failure. -/
def keepResult {α : Type} (s : Session) (result : Except Failure α) (f : α → Reply) : Outcome :=
  match result with
  | .ok a => s.keep (f a)
  | .error e => s.keep (.failed e)

/-- Act on a grid. -/
def onGrid (s : Session) (grid : Nat) (act : FigureGrid → Outcome) : Outcome :=
  match s.grids[grid]? with
  | some (some g) => act g
  | _ => s.keep .refused

/-- Act on the object of a name. -/
def on (s : Session) (name : String) (act : FigureObject → Outcome) : Outcome :=
  match s.objects.get? name with
  | some o => act o
  | none => s.keep .refused

/-- One more holder of an object's figure. -/
def retain (s : Session) (o : FigureObject) : Session := { s with heap := s.heap.retain? o.cell }

/-- Let go of an object: the notes of the figures that ended. -/
def dropObject (s : Session) (o : FigureObject) : Session × List String :=
  let (heap, freed) := s.heap.release? o.cell
  ({ s with heap }, freed.map fun i => (heap.payload i).farewell)

/-- Put an object under a name, then let go of the one it had. -/
def store (s : Session) (name : String) (o : FigureObject) (r : Reply) : Outcome :=
  let stored := { s with objects := s.objects.set name o }
  match s.objects.get? name with
  | some old =>
    let (after, notes) := stored.dropObject old
    (after, r, notes)
  | none => stored.keep r

/-- The answer to an index that may be missing. -/
def indexReply : Option Nat → Reply
  | some i => .number i
  | none => .nothing

/-- Call through the function table of an interface.  A table that was written for a type
other than the figure's is not called. -/
def call (s : Session) (o : FigureObject) (interface : Interface)
    (act : Nat → Figure → Outcome) : Outcome :=
  match o.vtable interface.fullName fun v => if v.interface = interface then some v else none with
  | .error e => s.keep (.failed e)
  | .ok vtable =>
    match o.expectCell with
    | .error e => s.keep (.failed e)
    | .ok i =>
      let figure := s.heap.payload i
      if vtable.writtenFor = figure.concrete then act i figure
      else s.keep (.foreignTable vtable.writtenFor)

/-- Carry out one operation. -/
def apply (s : Session) : Op → Outcome
  | .offsetOf grid concrete view =>
    s.onGrid grid fun g =>
      s.keepResult ((g.offsetOf concrete view).mapError .defect) indexReply
  | .remap grid offset view =>
    s.onGrid grid fun g => s.keepResult ((g.remap offset view).mapError .defect) indexReply
  | .viewName grid view => s.onGrid grid fun g => s.keep (.text (g.viewName view))
  | .concreteName grid offset =>
    s.onGrid grid fun g =>
      s.keepResult ((g.concreteOf offset).mapError .defect) fun c => .text c.fullName
  | .viewCount grid => s.onGrid grid fun g => s.keep (.number g.width)
  | .gridDebug grid => s.onGrid grid fun g => s.keep (.text g.debugText)
  | .new name grid offset figure =>
    s.onGrid grid fun g =>
      match Object.create s.heap g offset figure.concrete figure with
      | (heap, .error e) => ({ s with heap }, .failed e, [figure.farewell])
      | (heap, .ok o) => store { s with heap } name o .nothing
  | .empty name => s.store name .empty .nothing
  | .drop name =>
    match s.objects.get? name with
    | none => s.keep (.truth false)
    | some o =>
      let (after, notes) := dropObject { s with objects := s.objects.erase name } o
      (after, .truth true, notes)
  | .clone name source => s.on source fun o => (s.retain o).store name o (.truth true)
  | .mask name source view =>
    s.on source fun o =>
      match o.maskOn s.heap view with
      | (heap, .error e) => keep { s with heap } (.failed e)
      | (heap, .ok masked) => store { s with heap } name masked (.truth true)
  | .tryMask name source view =>
    s.on source fun o =>
      match o.tryMaskOn s.heap view with
      | (heap, .error e) => keep { s with heap } (.failed e)
      | (heap, .ok none) => keep { s with heap } (.truth false)
      | (heap, .ok (some masked)) => store { s with heap } name masked (.truth true)
  | .sameFigure a b => s.on a fun x => s.on b fun y => s.keep (.truth (x.cell == y.cell))
  | .area name => s.on name fun o => s.call o .shape fun _ f => s.keep (.number f.area)
  | .name name => s.on name fun o => s.call o .named fun _ f => s.keep (.text f.name)
  | .scale name k =>
    s.on name fun o =>
      s.call o .scale fun i f => keep { s with heap := s.heap.setPayload i (f.scaled k) } .nothing
  | .numberTable name =>
    s.on name fun o =>
      s.keepResult (o.vtable Concrete.number.fullName fun _ => (none : Option Unit))
        fun _ => .nothing
  | .data name => s.on name fun o => s.keepResult o.expectCell fun _ => .present
  | .offset name => s.on name fun o => s.keepResult o.typeOffset fun n => .number n
  | .view name => s.on name fun o => s.keepResult o.view fun n => .number n
  | .concrete name =>
    s.on name fun o => s.keepResult o.concrete fun c => .text c.fullName
  | .cast name concrete =>
    s.on name fun o =>
      match o.cast concrete with
      | .error e => s.keep (.failed e)
      | .ok i =>
        let copy := s.heap.payload i
        (s, .figure copy, [copy.farewell])
  | .castPointer name concrete =>
    s.on name fun o =>
      match o.cast concrete with
      | .error e => s.keep (.failed e)
      | .ok i =>
        let held := s.retain o
        let reply := .pointer (held.heap.payload i) (o.holders held.heap)
        let (after, notes) := held.dropObject o
        (after, reply, notes)
  | .info name => s.on name fun o => s.keep (.info o.isEmpty (o.holders s.heap))
  | .debug name => s.on name fun o => s.keepResult o.debugText .text

/-- Whether each object is empty, and the number of holders, by name. -/
def summary (s : Session) : Registers (Bool × Nat) :=
  s.objects.map fun o => (o.isEmpty, o.holders s.heap)

/-- Let go of objects in turn: the notes of the figures that ended. -/
def dropAll (s : Session) : List FigureObject → Session × List String
  | [] => (s, [])
  | o :: rest =>
    let (after, notes) := s.dropObject o
    let (last, more) := after.dropAll rest
    (last, notes ++ more)

/-- Let go of all objects in name order: the notes of the figures that ended. -/
def close (s : Session) : Session × List String :=
  dropAll { s with objects := .empty } s.objects.values

end Session

end Substrate.Capability
