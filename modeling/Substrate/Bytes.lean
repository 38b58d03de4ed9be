import Substrate.Hash.Sip
import Substrate.Text.Quoted
import Substrate.Text.Utf8
import Substrate.View.Memory

/-!
# Byte strings

A byte string is a view of bytes whose capacity is its length.  It is never
written in place: joining strings makes a new store, and cutting a string
shares the store but cannot reach past the bytes it was cut from.
-/

namespace Substrate

open View (Memory)

/-- A byte string. -/
structure ByteString where
  /-- The bytes. -/
  view : View.Window := {}
  deriving DecidableEq, Repr

namespace ByteString

instance : Inhabited ByteString := ⟨{}⟩

/-- The string of no bytes. -/
def empty : ByteString := {}

/-- How many bytes there are. -/
def length (s : ByteString) : Nat := s.view.length

/-- The bytes of a string. -/
def bytes (m : Memory UInt8) (s : ByteString) : List UInt8 := m.contents s.view

/-- Wrap a view. -/
def ofView : Memory UInt8 × Except Failure View.Window → Memory UInt8 × Except Failure ByteString
  | (m, result) => (m, result.map ByteString.mk)

/-- A string of given bytes. -/
def ofBytes (m : Memory UInt8) (bytes : List UInt8) : Memory UInt8 × Except Failure ByteString :=
  match m.alloc 0 bytes.length with
  | (m, .error e) => (m, .error e)
  | (m, .ok v) => ofView (m.extend v bytes)

/-- A string of the bytes of a text. -/
def ofText (m : Memory UInt8) (text : String) : Memory UInt8 × Except Failure ByteString :=
  ofBytes m (Text.encode text)

/-- One more string like another. -/
def clone (m : Memory UInt8) (s : ByteString) : Memory UInt8 × ByteString := (m.retain s.view, s)

/-- Let go of a string. -/
def drop (m : Memory UInt8) (s : ByteString) : Memory UInt8 := m.drop s.view

/-- The byte at an index. -/
def byteAt (m : Memory UInt8) (s : ByteString) (index : Int) :
    Memory UInt8 × Except Failure UInt8 :=
  m.get s.view index

/-- The bytes from `start` to `stop`. -/
def substring (m : Memory UInt8) (s : ByteString) (start stop : Int) :
    Memory UInt8 × Except Failure ByteString :=
  match m.slice s.view.clamped start stop with
  | (m, .error e) => (m, .error e)
  | (m, .ok v) => (m, .ok ⟨v.clamped⟩)

/-- The bytes of one string and then those of another, in a new store. -/
def concat (m : Memory UInt8) (s t : ByteString) : Memory UInt8 × Except Failure ByteString :=
  match m.alloc 0 (s.length + t.length) with
  | (m, .error e) => (m, .error e)
  | (m, .ok v) =>
    match m.append v s.view with
    | (m, .error e) => (m.drop v, .error e)
    | (m, .ok v) => ofView (m.append v t.view)

/-- A string with another behind it, in place of the string. -/
def append (m : Memory UInt8) (s t : ByteString) : Memory UInt8 × Except Failure ByteString :=
  match concat m s t with
  | (m, .error e) => (m, .error e)
  | (m, .ok joined) => (drop m s, .ok joined)

/-- A string with a text behind it, in place of the string. -/
def pushText (m : Memory UInt8) (s : ByteString) (text : String) :
    Memory UInt8 × Except Failure ByteString :=
  match ofText m text with
  | (m, .error e) => (m, .error e)
  | (m, .ok t) =>
    let (m, result) := append m s t
    (drop m t, result)

/-- Whether two strings have one store. -/
def sharesStore (s t : ByteString) : Bool := s.view.sharesStore t.view

/-- Whether two strings have equal bytes. -/
def equal (m : Memory UInt8) (s t : ByteString) : Memory UInt8 × Except Failure Bool :=
  m.equal s.view t.view

/-- The order of two bytes as unsigned numbers. -/
def compareByte (a b : UInt8) : Ordering := if a < b then .lt else if b < a then .gt else .eq

/-- The order of two strings. -/
def compare (m : Memory UInt8) (s t : ByteString) : Memory UInt8 × Except Failure Ordering :=
  m.compare compareByte s.view t.view

/-- The bytes of a string, copied out of its store, and what `use` makes of the copies. -/
def read {β : Type} (m : Memory UInt8) (s : ByteString) (use : List UInt8 → β) :
    Memory UInt8 × Except Failure β :=
  match m.toList s.view with
  | (m, .error e) => (m, .error e)
  | (m, .ok bytes) => (m.note (·.drop bytes.length), .ok (use bytes))

/-- The text of a string, with a replacement character for each stretch of bytes that
is no character. -/
def asText (m : Memory UInt8) (s : ByteString) : Memory UInt8 × Except Failure String :=
  s.read m Text.decodeLossy

/-- The diagnostic form of a string. -/
def debugText (m : Memory UInt8) (s : ByteString) : Memory UInt8 × Except Failure String :=
  s.read m fun bytes => Text.quoted (Text.decodeLossy bytes)

/-- What a sequence of bytes feeds to a hasher: itself and a byte that ends it. -/
def fed (bytes : List UInt8) : List UInt8 := bytes ++ [0xff]

end ByteString

end Substrate
