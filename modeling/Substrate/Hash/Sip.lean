import Substrate.Text.Hex

/-!
# SipHash-1-3

The keyed hash SipHash with one round per word and three closing rounds, with
both keys zero.  The bytes are taken as little-endian 64-bit words; the last
word holds the remaining bytes and, on top, the length modulo 256.
-/

namespace Substrate.Hash

/-- The four words of the hash state. -/
structure SipState where
  v0 : UInt64
  v1 : UInt64
  v2 : UInt64
  v3 : UInt64

/-- Rotate a word left. -/
def rotateLeft (x : UInt64) (k : UInt64) : UInt64 := (x <<< k) ||| (x >>> (64 - k))

/-- One round. -/
def SipState.round (s : SipState) : SipState :=
  let v0 := s.v0 + s.v1
  let v1 := rotateLeft s.v1 13 ^^^ v0
  let v0 := rotateLeft v0 32
  let v2 := s.v2 + s.v3
  let v3 := rotateLeft s.v3 16 ^^^ v2
  let v0 := v0 + v3
  let v3 := rotateLeft v3 21 ^^^ v0
  let v2 := v2 + v1
  let v1 := rotateLeft v1 17 ^^^ v2
  let v2 := rotateLeft v2 32
  ⟨v0, v1, v2, v3⟩

/-- Take in one word. -/
def SipState.absorb (s : SipState) (word : UInt64) : SipState :=
  let t := { s with v3 := s.v3 ^^^ word }.round
  { t with v0 := t.v0 ^^^ word }

/-- The state for two zero keys. -/
def SipState.initial : SipState :=
  ⟨0x736f6d6570736575, 0x646f72616e646f6d, 0x6c7967656e657261, 0x7465646279746573⟩

/-- The number that bytes spell, lowest first. -/
def littleEndian : List UInt8 → Nat
  | [] => 0
  | b :: rest => b.toNat + 256 * littleEndian rest

/-- The `count` lowest bytes of a number, lowest first. -/
def littleEndianBytes : Nat → Nat → List UInt8
  | 0, _ => []
  | count + 1, n => UInt8.ofNat n :: littleEndianBytes count (n / 256)

/-- Take in the words of `bytes`; the last one also holds `length`. -/
def SipState.absorbAll (length : Nat) (s : SipState) : List UInt8 → SipState
  | b0 :: b1 :: b2 :: b3 :: b4 :: b5 :: b6 :: b7 :: rest =>
    (s.absorb (UInt64.ofNat (littleEndian [b0, b1, b2, b3, b4, b5, b6, b7]))).absorbAll length rest
  | tail => s.absorb (UInt64.ofNat (littleEndian tail + 2 ^ 56 * (length % 256)))

/-- The hash of a sequence of bytes. -/
def sip13 (bytes : List UInt8) : UInt64 :=
  let s := SipState.initial.absorbAll bytes.length bytes
  let s := { s with v2 := s.v2 ^^^ 0xff }.round.round.round
  s.v0 ^^^ s.v1 ^^^ s.v2 ^^^ s.v3

/-- A hash as sixteen hexadecimal digits. -/
def digest (h : UInt64) : String := Text.hexPadded 16 h.toNat

end Substrate.Hash
