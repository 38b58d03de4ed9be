import Substrate.Arith
import Substrate.Bytes
import Substrate.Dynamic.Box
import Substrate.Text.Record

/-!
# Plain values

The plain types that a session boxes: integers, truth values, characters,
texts and byte strings, and four types with rules of their own.  `meters` has
a unit, `fold` ignores case, `never` is equal to nothing, and the end of a
`token` is noted.
-/

namespace Substrate.Dynamic

/-- A plain type. -/
inductive PlainType where
  /-- Integers of a width. -/
  | int (t : IntType)
  /-- Truth values. -/
  | bool
  /-- Characters. -/
  | char
  /-- Texts. -/
  | text
  /-- Byte strings. -/
  | bytes
  /-- Lengths in metres. -/
  | meters
  /-- Texts up to the case of ASCII letters. -/
  | fold
  /-- Numbers that equal nothing. -/
  | never
  /-- Numbers whose end is noted. -/
  | token
  deriving DecidableEq, Repr

/-- A plain value. -/
inductive PlainValue where
  /-- An integer of a type. -/
  | int (t : IntType) (n : Int)
  /-- A truth value. -/
  | bool (b : Bool)
  /-- A character. -/
  | char (c : Char)
  /-- A text. -/
  | text (s : String)
  /-- A byte string. -/
  | bytes (b : List UInt8)
  /-- A length in metres. -/
  | meters (n : Int)
  /-- A text up to the case of ASCII letters. -/
  | fold (s : String)
  /-- A number that equals nothing. -/
  | never (n : Int)
  /-- A number whose end is noted. -/
  | token (n : Int)
  deriving DecidableEq, Repr

/-- The name of an integer type. -/
def intTypeName (t : IntType) : String := (if t.signed then "i" else "u") ++ toString t.bits

/-- The name of a plain type. -/
def PlainType.name : PlainType → String
  | .int t => intTypeName t
  | .bool => "bool"
  | .char => "char"
  | .text => "alloc::string::String"
  | .bytes => "vireo_rt::buffer::string::Str"
  | .meters => "oracle_driver::dynamic::Meters"
  | .fold => "oracle_driver::dynamic::Fold"
  | .never => "oracle_driver::dynamic::Never"
  | .token => "oracle_driver::dynamic::Tok"

/-- A text with its ASCII letters in lower case. -/
def foldCase (s : String) : String := s.map Char.toLower

/-- The lowest `count` bytes of an integer in two's complement, lowest first. -/
def intBytes (count : Nat) (n : Int) : List UInt8 :=
  Hash.littleEndianBytes count (n % Nat.pow 2 (8 * count)).toNat

namespace PlainValue

/-- The type of a value. -/
def typeOf : PlainValue → PlainType
  | .int t _ => .int t
  | .bool _ => .bool
  | .char _ => .char
  | .text _ => .text
  | .bytes _ => .bytes
  | .meters _ => .meters
  | .fold _ => .fold
  | .never _ => .never
  | .token _ => .token

/-- Whether two values are equal. -/
def same : PlainValue → PlainValue → Bool
  | .fold a, .fold b => foldCase a == foldCase b
  | .never _, .never _ => false
  | a, b => a = b

/-- The bytes a value feeds to a hasher. -/
def fed : PlainValue → List UInt8
  | .int t n => intBytes (t.bits / 8) n
  | .bool b => [if b then 1 else 0]
  | .char c => intBytes 4 c.toNat
  | .text s => ByteString.fed (Text.encode s)
  | .bytes b => ByteString.fed b
  | .meters n => intBytes 4 n
  | .fold s => ByteString.fed (Text.encode (foldCase s))
  | .never n => intBytes 8 n
  | .token n => intBytes 8 n

/-- The text of a value. -/
def shown : PlainValue → String
  | .int _ n => toString n
  | .bool b => Text.truth b
  | .char c => c.toString
  | .text s => s
  | .bytes b => Text.decodeLossy b
  | .meters n => toString n ++ "m"
  | .fold s => s
  | .never n => "never " ++ toString n
  | .token n => "#" ++ toString n

/-- The note that the end of a value leaves. -/
def farewell? : PlainValue → Option Int
  | .token n => some n
  | _ => none

end PlainValue

instance : Plain PlainType PlainValue where
  typeOf := PlainValue.typeOf
  typeName := PlainType.name
  same := PlainValue.same
  fed := PlainValue.fed
  text := PlainValue.shown
  farewell? := PlainValue.farewell?

end Substrate.Dynamic
