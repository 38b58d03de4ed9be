import Substrate.Text.Quoted

/-!
# Elements

What a store can hold: values of a type with a blank value for fresh slots, a
width in bytes, and a diagnostic form.
-/

namespace Substrate.View

/-- A type whose values can be held in a store. -/
class Element (α : Type) where
  /-- The value of a fresh slot. -/
  blank : α
  /-- How many bytes a value takes. -/
  width : Nat
  /-- The diagnostic form of a value. -/
  text : α → String

instance : Element Int := ⟨0, 8, toString⟩

instance : Element UInt8 := ⟨0, 1, fun b => toString b.toNat⟩

instance : Element String := ⟨"", 24, Text.quoted⟩

/-- A number of which every instance is counted. -/
structure Tracked where
  /-- The number. -/
  value : Int
  deriving DecidableEq, Repr

instance : Element Tracked := ⟨⟨-1⟩, 8, fun t => "R" ++ toString t.value⟩

end Substrate.View
