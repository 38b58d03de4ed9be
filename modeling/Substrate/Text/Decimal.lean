/-!
# Reading decimal numbers

A number is an optional sign and at least one digit.  Digits are added up from
the left and the reader stops at the first character that is not a digit or at
the first digit that takes the number out of its range, whichever comes first.
Leading zeros are free.
-/

namespace Substrate.Text

/-- Why a text is not a number of the range asked for. -/
inductive NumberError where
  /-- There is no character at all. -/
  | empty
  /-- A character other than a digit, a lone sign included. -/
  | invalidDigit
  /-- The number is above the range. -/
  | tooLarge
  /-- The number is below the range. -/
  | tooSmall
  deriving DecidableEq, Repr

/-- The wording of a reading error. -/
def NumberError.message : NumberError → String
  | .empty => "cannot parse integer from empty string"
  | .invalidDigit => "invalid digit found in string"
  | .tooLarge => "number too large to fit in target type"
  | .tooSmall => "number too small to fit in target type"

/-- The value of a decimal digit. -/
def digitValue? (c : Char) : Option Nat :=
  if '0' ≤ c ∧ c ≤ '9' then some (c.toNat - '0'.toNat) else none

/-- Add up digits after `acc`; `excess` is the error for a number above `limit`. -/
def addDigits (limit : Nat) (excess : NumberError) : Nat → List Char → Except NumberError Nat
  | acc, [] => .ok acc
  | acc, c :: rest =>
    match digitValue? c with
    | none => .error .invalidDigit
    | some d =>
      if 10 * acc + d ≤ limit then addDigits limit excess (10 * acc + d) rest else .error excess

/-- Digits after a sign: there has to be at least one. -/
def readDigits (limit : Nat) (excess : NumberError) (digits : List Char) : Except NumberError Nat :=
  if digits.isEmpty then .error .invalidDigit else addDigits limit excess 0 digits

/-- A number from 0 to `limit`, with an optional `+`. -/
def readNat (limit : Nat) : List Char → Except NumberError Nat
  | [] => .error .empty
  | '+' :: rest => readDigits limit .tooLarge rest
  | cs => readDigits limit .tooLarge cs

/-- A number from `-below` to `limit`, with an optional sign. -/
def readInt (below limit : Nat) : List Char → Except NumberError Int
  | '-' :: rest => (readDigits below .tooSmall rest).map fun n => -(n : Int)
  | cs => (readNat limit cs).map fun n => (n : Int)

end Substrate.Text
