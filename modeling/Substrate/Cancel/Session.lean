import Substrate.Cancel
import Substrate.Registers

/-!
# Cancel token sessions

Named cancel tokens and the operations on them.
-/

namespace Substrate.Cancel

/-- The state of a session. -/
structure Session where
  /-- All flags made. -/
  flags : CancelFlags := {}
  /-- The tokens by name. -/
  tokens : Registers CancelToken := .empty

instance : Inhabited Session := ⟨{}⟩

/-- An operation on named tokens. -/
inductive Op where
  /-- A token without a parent. -/
  | new (name : String)
  /-- A token below another. -/
  | child (name parent : String)
  /-- A token some generations below another. -/
  | descendant (name ancestor : String) (depth : Nat)
  /-- The same token under another name. -/
  | clone (name source : String)
  /-- Give up a token. -/
  | drop (name : String)
  /-- Cancel a token. -/
  | cancel (name : String)
  /-- Whether a token is cancelled. -/
  | isCancelled (name : String)
  /-- Check a token. -/
  | check (name : String)
  /-- The diagnostic form of a token. -/
  | debug (name : String)
  deriving DecidableEq, Repr

/-- What an operation answers. -/
inductive Reply where
  /-- It was carried out. -/
  | done
  /-- A yes or no. -/
  | truth (b : Bool)
  /-- A check: whether the token is still live. -/
  | checked (live : Bool)
  /-- A text. -/
  | text (s : String)
  /-- It names a token that does not exist. -/
  | refused
  deriving DecidableEq, Repr

namespace Session

/-- Put a token under a name. -/
def store (s : Session) (name : String) (made : CancelFlags × CancelToken) : Session :=
  { flags := made.1, tokens := s.tokens.set name made.2 }

/-- Carry out `f` on the token called `name`, if there is one. -/
def onToken (s : Session) (name : String) (f : CancelToken → Session × Reply) : Session × Reply :=
  match s.tokens.get? name with
  | some t => f t
  | none => (s, .refused)

/-- Carry out one operation. -/
def apply (s : Session) : Op → Session × Reply
  | .new name => (s.store name s.flags.newToken, .done)
  | .child name parent => s.onToken parent fun t => (s.store name (s.flags.newChild t), .done)
  | .descendant name ancestor depth =>
    s.onToken ancestor fun t => (s.store name (s.flags.newDescendant t depth), .done)
  | .clone name source => s.onToken source fun t => (s.store name (s.flags, t), .done)
  | .drop name => ({ s with tokens := s.tokens.erase name }, .truth (s.tokens.contains name))
  | .cancel name => s.onToken name fun t => ({ s with flags := s.flags.cancel t }, .done)
  | .isCancelled name => s.onToken name fun t => (s, .truth (t.isCancelled s.flags))
  | .check name => s.onToken name fun t => (s, .checked (!t.isCancelled s.flags))
  | .debug name => s.onToken name fun t => (s, .text (t.debugText s.flags))

/-- Whether each token is cancelled, by name. -/
def verdicts (s : Session) : Registers Bool := s.tokens.map (·.isCancelled s.flags)

end Session

end Substrate.Cancel
