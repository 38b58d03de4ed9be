/-!
# Hexadecimal text

Lower case hexadecimal digits, as many as needed or padded to a fixed count.
-/

namespace Substrate.Text

/-- The lower case hexadecimal digits of `n`, without leading zeros. -/
def hex (n : Nat) : String := String.ofList (Nat.toDigits 16 n)

/-- The hexadecimal digits of `n`, padded with zeros to at least `width`. -/
def hexPadded (width n : Nat) : String :=
  let digits := Nat.toDigits 16 n
  String.ofList (List.replicate (width - digits.length) '0' ++ digits)

end Substrate.Text
