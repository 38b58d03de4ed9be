import Substrate.Fault
import Substrate.Text.Decimal

/-!
# Fixed-width integer division

Quotient and remainder for the integer types of a given width.  The quotient
is truncated toward zero.  Division by zero is a fault; the one quotient that
leaves its range, the least signed number by minus one, wraps around to the
least number again.
-/

namespace Substrate

/-- An integer type: how many bits, and whether it has a sign. -/
structure IntType where
  /-- The number of bits. -/
  bits : Nat
  /-- Whether negative numbers belong to it. -/
  signed : Bool
  deriving DecidableEq, Repr

namespace IntType

/-- The signed type of 64 bits. -/
def int64 : IntType := ⟨64, true⟩

/-- The least number of the type. -/
def least (t : IntType) : Int := if t.signed then -(Nat.pow 2 (t.bits - 1)) else 0

/-- The greatest number of the type. -/
def greatest (t : IntType) : Int :=
  if t.signed then Nat.pow 2 (t.bits - 1) - 1 else Nat.pow 2 t.bits - 1

/-- Whether a number belongs to the type. -/
def holds (t : IntType) (x : Int) : Bool := t.least ≤ x && x ≤ t.greatest

/-- The number of the type that agrees with `x` modulo two to the width. -/
def wrap (t : IntType) (x : Int) : Int :=
  if t.signed then Int.bmod x (Nat.pow 2 t.bits) else x % Nat.pow 2 t.bits

/-- Read a number of the type. -/
def read (t : IntType) (s : List Char) : Except Text.NumberError Int :=
  if t.signed then Text.readInt (Nat.pow 2 (t.bits - 1)) (Nat.pow 2 (t.bits - 1) - 1) s
  else (Text.readNat (Nat.pow 2 t.bits - 1) s).map fun n => (n : Int)

/-- The quotient, truncated toward zero. -/
def div (t : IntType) (x y : Int) : Except Fault Int :=
  if y = 0 then .error .divideByZero else .ok (t.wrap (Int.tdiv x y))

/-- The remainder of the truncated quotient. -/
def rem (t : IntType) (x y : Int) : Except Fault Int :=
  if y = 0 then .error .divideByZero else .ok (t.wrap (Int.tmod x y))

end IntType

end Substrate
