import Substrate.Table
import Substrate.Text.Record

/-!
# Cancel tokens

A token has a flag of its own and hears the flags of its ancestors.  Cancelling
raises the token's own flag, so it reaches the token, its copies and all its
descendants, and nothing else.  Flags are never lowered and outlive the tokens
that made them.
-/

namespace Substrate

/-- All cancel flags ever made. -/
structure CancelFlags where
  /-- Which flags are raised. -/
  raised : Table Bool := .empty
  /-- The number of flags made so far, which is the name of the next one. -/
  count : Nat := 0

instance : Inhabited CancelFlags := ⟨{}⟩

/-- A cancel token. -/
structure CancelToken where
  /-- The flag that cancelling this token raises. -/
  own : Nat
  /-- The flags of its ancestors, nearest first. -/
  ancestors : List Nat := []
  deriving DecidableEq, Repr

namespace CancelToken

/-- The flags the token hears: its own and its ancestors'. -/
def path (t : CancelToken) : List Nat := t.own :: t.ancestors

/-- Whether the token or one of its ancestors was cancelled. -/
def isCancelled (flags : CancelFlags) (t : CancelToken) : Bool :=
  t.path.any flags.raised.get

/-- The diagnostic form of a chain of flags. -/
def pathText (flags : CancelFlags) : List Nat → Option String
  | [] => none
  | i :: rest =>
    some (Text.record "Node"
      [("flag", Text.truth (flags.raised.get i)), ("parent", Text.optional (pathText flags rest))])

/-- The diagnostic form of a token. -/
def debugText (flags : CancelFlags) (t : CancelToken) : String :=
  Text.record "CancelToken" [("node", (pathText flags t.path).getD "")]

end CancelToken

namespace CancelFlags

/-- A token with a flag that nothing else hears yet. -/
def newToken (flags : CancelFlags) : CancelFlags × CancelToken :=
  ({ flags with count := flags.count + 1 }, ⟨flags.count, []⟩)

/-- A token below `parent`. -/
def newChild (flags : CancelFlags) (parent : CancelToken) : CancelFlags × CancelToken :=
  ({ flags with count := flags.count + 1 }, ⟨flags.count, parent.path⟩)

/-- A token `depth` generations below `ancestor`. -/
def newDescendant (flags : CancelFlags) (ancestor : CancelToken) : Nat → CancelFlags × CancelToken
  | 0 => (flags, ancestor)
  | depth + 1 =>
    let (flags, child) := flags.newChild ancestor
    flags.newDescendant child depth

/-- Raise the flag of a token. -/
def cancel (flags : CancelFlags) (t : CancelToken) : CancelFlags :=
  { flags with raised := flags.raised.set t.own true }

end CancelFlags

/-- What a check of a cancelled token reports. -/
def cancelledMessage : String := "operation cancelled"

end Substrate
