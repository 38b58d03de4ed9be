import Substrate.Fault
import Substrate.Hash.Sip
import Substrate.Ownership.Heap

/-!
# Boxes

A box shares a counted payload of some type, or is empty.  The payload is a
plain value, whose type brings its own equality, bytes to hash and text, or a
box again.

Two boxes are equal if both are empty, or if their types agree and their
payloads are one and the same cell or equal by their own equality.

Equality, hashing and printing follow boxes into boxes.  A payload only refers
to cells made before it, so the number of cells bounds the depth; it is the
fuel of the recursions below.
-/

namespace Substrate.Dynamic

open Ownership (Heap Holder)

/-- Plain values `α` with types `τ`. -/
class Plain (τ : outParam Type) (α : Type) where
  /-- The type of a value. -/
  typeOf : α → τ
  /-- The name of a type. -/
  typeName : τ → String
  /-- Whether two values of one type are equal. -/
  same : α → α → Bool
  /-- The bytes a value feeds to a hasher. -/
  fed : α → List UInt8
  /-- The text of a value. -/
  text : α → String
  /-- The note that the end of a value leaves. -/
  farewell? : α → Option Int

/-- The type of a payload. -/
inductive Kind (τ : Type) where
  /-- A plain type. -/
  | plain (type : τ)
  /-- The type of boxes. -/
  | box
  deriving DecidableEq, Repr

/-- The name of the type of boxes. -/
def boxTypeName : String := "vireo_rt::dynamic::any::Any"

/-- The name of a type. -/
def Kind.name {τ : Type} (α : Type) [Plain τ α] : Kind τ → String
  | .plain t => Plain.typeName α t
  | .box => boxTypeName

/-- A box: the cell of its payload and the type of it, or neither. -/
structure Box (τ : Type) where
  /-- The cell of the payload. -/
  cell : Option Nat := none
  /-- The type of the payload. -/
  kind : Option (Kind τ) := none
  deriving DecidableEq, Repr

instance {τ : Type} : Inhabited (Box τ) := ⟨{}⟩

/-- A payload. -/
inductive Value (τ α : Type) where
  /-- A plain value. -/
  | plain (a : α)
  /-- A box. -/
  | box (b : Box τ)
  deriving DecidableEq, Repr

variable {τ α : Type}

instance : Inhabited (Value τ α) := ⟨.box {}⟩

/-- A boxed box holds the cell of its payload. -/
instance : Holder (Value τ α) where
  held
    | .plain _ => none
    | .box b => b.cell

/-- The type of a payload. -/
def Value.kind [Plain τ α] : Value τ α → Kind τ
  | .plain a => .plain (Plain.typeOf a)
  | .box _ => .box

namespace Box

/-- The empty box. -/
def empty : Box τ := {}

/-- Whether a box is empty. -/
def isEmpty (b : Box τ) : Bool := b.kind.isNone

/-- The number of holders of the payload. -/
def strongCount (h : Heap (Value τ α)) (b : Box τ) : Nat :=
  match b.cell with
  | some i => h.count i
  | none => 0

/-- A box of a value. -/
def make [Plain τ α] (h : Heap (Value τ α)) (v : Value τ α) : Heap (Value τ α) × Box τ :=
  let (after, i) := h.make v
  (after, { cell := some i, kind := some v.kind })

/-- One more holder of the payload. -/
def retain (h : Heap (Value τ α)) (b : Box τ) : Heap (Value τ α) := h.retain? b.cell

/-- One holder less of the payload: the cells freed, in order. -/
def release (h : Heap (Value τ α)) (b : Box τ) : Heap (Value τ α) × List Nat := h.release? b.cell

end Box

variable [Plain τ α]

/-! ## Equality -/

/-- Whether two payloads are equal, with `boxes` for the equality of boxes. -/
def Value.equalBy (boxes : Box τ → Box τ → Bool) : Value τ α → Value τ α → Bool
  | .plain a, .plain b => Plain.same a b
  | .box a, .box b => boxes a b
  | _, _ => false

section Equality

variable [DecidableEq τ]

/-- Whether two boxes are equal, with `values` for the equality of payloads. -/
def Box.equalBy (h : Heap (Value τ α)) (values : Value τ α → Value τ α → Bool)
    (a b : Box τ) : Bool :=
  match a.kind, b.kind with
  | none, none => true
  | some s, some t =>
    if s = t then
      match a.cell, b.cell with
      | some i, some j => i = j || values (h.payload i) (h.payload j)
      | _, _ => false
    else false
  | _, _ => false

/-- Whether two boxes are equal, following at most `fuel` boxes into boxes. -/
def Box.equalWith (h : Heap (Value τ α)) : Nat → Box τ → Box τ → Bool
  | 0 => Box.equalBy h fun _ _ => false
  | fuel + 1 => Box.equalBy h (Value.equalBy (Box.equalWith h fuel))

/-- Whether two boxes are equal. -/
def Box.equal (h : Heap (Value τ α)) (a b : Box τ) : Bool := Box.equalWith h (h.size + 1) a b

/-- Whether two payloads are equal. -/
def Value.equal (h : Heap (Value τ α)) (v w : Value τ α) : Bool := Value.equalBy (Box.equal h) v w

end Equality

/-! ## Hashing -/

/-- The bytes a payload feeds to a hasher, following at most `fuel` boxes.  A box feeds
the hash of its payload, and 0 if it is empty. -/
def Value.fedWith (h : Heap (Value τ α)) : Nat → Value τ α → List UInt8
  | _, .plain a => Plain.fed a
  | 0, .box _ => []
  | fuel + 1, .box b =>
    Hash.littleEndianBytes 8 <| match b.cell with
      | some i => (Hash.sip13 (Value.fedWith h fuel (h.payload i))).toNat
      | none => 0

/-- The bytes a payload feeds to a hasher. -/
def Value.fed (h : Heap (Value τ α)) (v : Value τ α) : List UInt8 := v.fedWith h (h.size + 1)

/-! ## Text -/

/-- The text of an empty box. -/
def Box.emptyText : String := "<nil>"

/-- The text of a payload, following at most `fuel` boxes. -/
def Value.textWith (h : Heap (Value τ α)) : Nat → Value τ α → String
  | _, .plain a => Plain.text a
  | 0, .box _ => Box.emptyText
  | fuel + 1, .box b =>
    match b.cell with
    | some i => Value.textWith h fuel (h.payload i)
    | none => Box.emptyText

/-- The text of a payload. -/
def Value.text (h : Heap (Value τ α)) (v : Value τ α) : String := v.textWith h (h.size + 1)

namespace Box

/-- The text of a box. -/
def text (h : Heap (Value τ α)) (b : Box τ) : String := (Value.box b).text h

/-- The name of the type of the payload. -/
def kindName? (α : Type) [Plain τ α] (b : Box τ) : Option String := b.kind.map (Kind.name α)

/-- The diagnostic form of a box. -/
def debugText (h : Heap (Value τ α)) (b : Box τ) : String :=
  match b.kindName? α with
  | some name => "Any<" ++ name ++ ">(" ++ b.text h ++ ")"
  | none => "Any(" ++ emptyText ++ ")"

/-! ## Casts -/

/-- The cell of the payload, which has to have the type `k`. -/
def cast [DecidableEq τ] (α : Type) [Plain τ α] (b : Box τ) (k : Kind τ) : Except Fault Nat :=
  match b.kind, b.cell with
  | some found, some i =>
    if found = k then .ok i else .error (.incompatibleType (k.name α) (found.name α))
  | _, _ => .error (.invalidMemory "dynamic container")

end Box

end Substrate.Dynamic
