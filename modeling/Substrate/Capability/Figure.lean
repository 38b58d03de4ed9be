import Substrate.Arith
import Substrate.Capability.Grid
import Substrate.Ownership.Heap

/-!
# Figures

The values that a session makes objects of, and their function tables.  A
table serves one interface and was written for one concrete type; circles and
squares have all three interfaces, labels only a name.
-/

namespace Substrate.Capability

/-- A concrete type. -/
inductive Concrete where
  /-- Circles. -/
  | circle
  /-- Squares. -/
  | square
  /-- Labels. -/
  | label
  /-- Plain numbers, of which no object is ever made. -/
  | number
  deriving DecidableEq, Repr

namespace Concrete

/-- The short name of a type. -/
def shortName : Concrete → String
  | .circle => "Circle"
  | .square => "Square"
  | .label => "Label"
  | .number => "i64"

/-- The full name of a type. -/
def fullName : Concrete → String
  | .number => "i64"
  | c => "oracle_driver::traits::" ++ c.shortName

instance : TypeName Concrete := ⟨fullName⟩

end Concrete

/-- An interface. -/
inductive Interface where
  /-- Figures with an area. -/
  | shape
  /-- Figures with a name. -/
  | named
  /-- Figures that can be scaled. -/
  | scale
  deriving DecidableEq, Repr

/-- The full name of an interface. -/
def Interface.fullName : Interface → String
  | .shape => "oracle_driver::traits::Shape"
  | .named => "oracle_driver::traits::Named"
  | .scale => "oracle_driver::traits::Scale"

/-- A function table: its interface and the type it was written for. -/
structure VTable where
  /-- The interface. -/
  interface : Interface
  /-- The type whose values its functions take. -/
  writtenFor : Concrete
  deriving DecidableEq, Repr

/-- The function table of a type for an interface, if there is one. -/
def VTable.for? (c : Concrete) (i : Interface) : Option VTable :=
  match c, i with
  | .number, _ => none
  | .label, .shape => none
  | .label, .scale => none
  | c, i => some ⟨i, c⟩

/-- A value of a concrete type. -/
inductive Figure where
  /-- A circle of a radius. -/
  | circle (r : Int)
  /-- A square of a side. -/
  | square (side : Int)
  /-- A label with a text. -/
  | label (text : String)
  deriving DecidableEq, Repr

namespace Figure

instance : Inhabited Figure := ⟨.circle 0⟩

/-- Figures hold no cell. -/
instance : Ownership.Holder Figure := ⟨fun _ => none⟩

/-- The type of a figure. -/
def concrete : Figure → Concrete
  | .circle _ => .circle
  | .square _ => .square
  | .label _ => .label

/-- The area of a figure, wrapped at 64 bits. -/
def area : Figure → Int
  | .circle r => IntType.int64.wrap (3 * r * r)
  | .square side => IntType.int64.wrap (side * side)
  | .label _ => 0

/-- The name of a figure. -/
def name : Figure → String
  | .circle _ => "circle"
  | .square _ => "square"
  | .label text => text

/-- The figure scaled by `k`, wrapped at 64 bits. -/
def scaled (k : Int) : Figure → Figure
  | .circle r => .circle (IntType.int64.wrap (r * k))
  | .square side => .square (IntType.int64.wrap (side * k))
  | .label text => .label text

/-- The note that the end of a figure leaves. -/
def farewell : Figure → String
  | .circle r => "Circle " ++ toString r
  | .square side => "Square " ++ toString side
  | .label text => "Label " ++ text

end Figure

end Substrate.Capability
