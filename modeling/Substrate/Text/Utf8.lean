/-!
# UTF-8 bytes

Encoding a text into bytes, and decoding any bytes into a text.  The decoder
reads one byte at a time.  A byte that cannot continue the character it stands
in ends it: the longest start of a character read so far becomes one
replacement character, and the byte is read again as a first byte.
-/

namespace Substrate.Text

/-- The UTF-8 bytes of a text. -/
def encode (s : String) : List UInt8 := s.toList.flatMap String.utf8EncodeChar

/-- The character written for bytes that are no character. -/
def replacement : Char := Char.ofNat 0xFFFD

/-- Where the decoder stands between two bytes. -/
inductive DecoderState where
  /-- Between characters. -/
  | start
  /-- Inside a character: the bits so far, how many more bytes it takes, and
  the range the next of them has to lie in. -/
  | inside (bits : Nat) (left : Nat) (low high : UInt8)
  deriving DecidableEq, Repr

/-- Read a byte as the first of a character. -/
def firstByte (b : UInt8) : List Char × DecoderState :=
  if b < 0x80 then ([Char.ofNat b.toNat], .start)
  else if 0xC2 ≤ b && b ≤ 0xDF then ([], .inside (b.toNat - 0xC0) 1 0x80 0xBF)
  else if b == 0xE0 then ([], .inside 0 2 0xA0 0xBF)
  else if b == 0xED then ([], .inside 0xD 2 0x80 0x9F)
  else if 0xE1 ≤ b && b ≤ 0xEF then ([], .inside (b.toNat - 0xE0) 2 0x80 0xBF)
  else if b == 0xF0 then ([], .inside 0 3 0x90 0xBF)
  else if 0xF1 ≤ b && b ≤ 0xF3 then ([], .inside (b.toNat - 0xF0) 3 0x80 0xBF)
  else if b == 0xF4 then ([], .inside 4 3 0x80 0x8F)
  else ([replacement], .start)

/-- Read one byte: the characters it settles and the state after it. -/
def decodeByte (state : DecoderState) (b : UInt8) : List Char × DecoderState :=
  match state with
  | .start => firstByte b
  | .inside bits left low high =>
    if low ≤ b && b ≤ high then
      let bits := 64 * bits + (b.toNat - 0x80)
      if left ≤ 1 then ([Char.ofNat bits], .start) else ([], .inside bits (left - 1) 0x80 0xBF)
    else
      let (out, next) := firstByte b
      (replacement :: out, next)

/-- Decode from a state to the end. -/
def decodeFrom : DecoderState → List UInt8 → List Char
  | .start, [] => []
  | .inside .., [] => [replacement]
  | state, b :: rest =>
    let (out, next) := decodeByte state b
    out ++ decodeFrom next rest

/-- Decode any bytes, with a replacement character for each stretch that is no
character. -/
def decodeLossy (bytes : List UInt8) : String := String.ofList (decodeFrom .start bytes)

/-- Decode bytes that are UTF-8 throughout: those that encoding gives back. -/
def decode? (bytes : List UInt8) : Option String :=
  let s := decodeLossy bytes
  if encode s = bytes then some s else none

end Substrate.Text
