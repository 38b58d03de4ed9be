import Substrate.Text.Hex
import Substrate.Text.Unprinted

/-!
# Quoted text

The diagnostic form of a text: in double quotes, with short escapes for the
quote, the backslash and five control characters, and the code point in
hexadecimal for every other character that does not print by itself.
-/

namespace Substrate.Text

/-- One character of a quoted text. -/
def escaped (c : Char) : String :=
  if c = '"' then "\\\""
  else if c = '\\' then "\\\\"
  else if c = '\t' then "\\t"
  else if c = '\r' then "\\r"
  else if c = '\n' then "\\n"
  else if c.toNat = 0 then "\\0"
  else if isPrinted c then c.toString
  else "\\u\x7b" ++ hex c.toNat ++ "\x7d"

/-- The text in double quotes, with what does not print escaped. -/
def quoted (s : String) : String := "\"" ++ String.join (s.toList.map escaped) ++ "\""

end Substrate.Text
