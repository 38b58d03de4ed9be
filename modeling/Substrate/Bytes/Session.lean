import Substrate.Bytes
import Substrate.Registers

/-!
# Byte string sessions

Named byte strings and the operations on them.
-/

namespace Substrate.Bytes

open View (Memory)

/-- The state of a session. -/
structure Session where
  /-- The stores. -/
  memory : Memory UInt8 := {}
  /-- The strings by name. -/
  strings : Registers ByteString := .empty

instance : Inhabited Session := ⟨{}⟩

/-- An operation on named strings. -/
inductive Op where
  /-- The string of no bytes. -/
  | empty (name : String)
  /-- A string of given bytes. -/
  | ofBytes (name : String) (bytes : List UInt8)
  /-- A string of a text. -/
  | ofText (name text : String)
  /-- One more string like another. -/
  | clone (name source : String)
  /-- A part of another string. -/
  | substring (name source : String) (start stop : Int)
  /-- Two strings joined. -/
  | concat (name a b : String)
  /-- Put a string behind another. -/
  | append (name source : String)
  /-- Put a text behind a string. -/
  | pushText (name text : String)
  /-- Let go of a string. -/
  | drop (name : String)
  /-- Whether two strings are equal. -/
  | equal (a b : String)
  /-- The order of two strings. -/
  | compare (a b : String)
  /-- Whether two strings have one store. -/
  | sharesStore (a b : String)
  /-- The byte at an index. -/
  | byteAt (name : String) (index : Int)
  /-- How many bytes there are, and whether there are none. -/
  | length (name : String)
  /-- The bytes. -/
  | bytes (name : String)
  /-- The text. -/
  | text (name : String)
  /-- The diagnostic form. -/
  | debug (name : String)
  /-- What is fed to a hasher, and the hash. -/
  | hash (name : String)
  deriving DecidableEq, Repr

/-- What an operation answers. -/
inductive Reply where
  /-- It was carried out. -/
  | nothing
  /-- A yes or no. -/
  | truth (b : Bool)
  /-- A byte. -/
  | byte (b : UInt8)
  /-- A length. -/
  | length (n : Nat)
  /-- Bytes. -/
  | bytes (bytes : List UInt8)
  /-- An order. -/
  | order (o : Ordering)
  /-- A text. -/
  | text (s : String)
  /-- What is fed to a hasher, and the hash. -/
  | hash (fed : List UInt8) (digest : String)
  /-- It names a string that does not exist. -/
  | refused
  /-- A failure. -/
  | failed (f : Failure)
  deriving DecidableEq, Repr

namespace Session

/-- Put a string under a name and let go of the one it had. -/
def store (s : Session) (name : String) :
    Memory UInt8 × Except Failure ByteString → Session × Reply
  | (memory, .ok t) =>
    let old := (s.strings.get? name).getD .empty
    ({ memory := ByteString.drop memory old, strings := s.strings.set name t }, .nothing)
  | (memory, .error e) => ({ s with memory }, .failed e)

/-- Put a string under a name in place of the one it had. -/
def replace (s : Session) (name : String) :
    Memory UInt8 × Except Failure ByteString → Session × Reply
  | (memory, .ok t) => ({ memory, strings := s.strings.set name t }, .nothing)
  | (memory, .error e) => ({ s with memory }, .failed e)

/-- Answer what `reply` makes of a result. -/
def answer {β : Type} (s : Session) (reply : β → Reply) :
    Memory UInt8 × Except Failure β → Session × Reply
  | (memory, .ok b) => ({ s with memory }, reply b)
  | (memory, .error e) => ({ s with memory }, .failed e)

/-- Carry out `act` on the string of a name. -/
def on (s : Session) (name : String) (act : ByteString → Session × Reply) : Session × Reply :=
  match s.strings.get? name with
  | some t => act t
  | none => (s, .refused)

/-- Carry out `act` on the strings of two names. -/
def onBoth (s : Session) (a b : String) (act : ByteString → ByteString → Session × Reply) :
    Session × Reply :=
  s.on a fun t => s.on b fun u => act t u

/-- Carry out one operation. -/
def apply (s : Session) : Op → Session × Reply
  | .empty name => s.store name (s.memory, .ok .empty)
  | .ofBytes name bytes => s.store name (ByteString.ofBytes s.memory bytes)
  | .ofText name text => s.store name (ByteString.ofText s.memory text)
  | .clone name source =>
    s.on source fun t =>
      let (m, t) := ByteString.clone s.memory t
      s.store name (m, .ok t)
  | .substring name source start stop =>
    s.on source fun t => s.store name (t.substring s.memory start stop)
  | .concat name a b => s.onBoth a b fun t u => s.store name (t.concat s.memory u)
  | .append name source => s.onBoth name source fun t u => s.replace name (t.append s.memory u)
  | .pushText name text => s.on name fun t => s.replace name (t.pushText s.memory text)
  | .drop name =>
    match s.strings.get? name with
    | none => (s, .truth false)
    | some t =>
      ({ memory := ByteString.drop s.memory t, strings := s.strings.erase name }, .truth true)
  | .equal a b => s.onBoth a b fun t u => s.answer .truth (t.equal s.memory u)
  | .compare a b => s.onBoth a b fun t u => s.answer .order (t.compare s.memory u)
  | .sharesStore a b => s.onBoth a b fun t u => (s, .truth (t.sharesStore u))
  | .byteAt name index => s.on name fun t => s.answer .byte (t.byteAt s.memory index)
  | .length name => s.on name fun t => (s, .length t.length)
  | .bytes name => s.on name fun t => s.answer .bytes (t.read s.memory id)
  | .text name => s.on name fun t => s.answer .text (t.asText s.memory)
  | .debug name => s.on name fun t => s.answer .text (t.debugText s.memory)
  | .hash name =>
    s.on name fun t =>
      s.answer (fun fed => .hash fed (Hash.digest (Hash.sip13 fed)))
        (t.read s.memory ByteString.fed)

/-- The bytes of each string by name. -/
def summary (s : Session) : Registers (List UInt8) := s.strings.map (·.bytes s.memory)

end Session

end Substrate.Bytes
