/-!
# The descriptor registry

Each type has one descriptor, made when the type is first registered.  A
registration looks the type up and, only if it is absent, goes on to find or
insert it.  These are two steps, and steps of other registrations may come in
between; finding before inserting keeps the first descriptor.
-/

namespace Substrate.Dynamic

/-- The types that have descriptors, in order of registration.  A descriptor is known by
its place in this order. -/
structure Registry (τ : Type) where
  /-- The registered types. -/
  types : List τ := []
  deriving DecidableEq, Repr

/-- A registration under way. -/
inductive Registration (τ : Type) where
  /-- It has not looked yet. -/
  | begun (type : τ)
  /-- It looked and found nothing. -/
  | missed (type : τ)
  /-- It has its descriptor. -/
  | done (type : τ) (descriptor : Nat)
  deriving DecidableEq, Repr

namespace Registry

variable {τ : Type} [DecidableEq τ]

instance : Inhabited (Registry τ) := ⟨{}⟩

/-- The descriptor of a type, if it was registered. -/
def lookup (r : Registry τ) (t : τ) : Option Nat := r.types.findIdx? (· = t)

/-- The descriptor of a type, made if it has none. -/
def findOrInsert (r : Registry τ) (t : τ) : Registry τ × Nat :=
  match r.lookup t with
  | some d => (r, d)
  | none => (⟨r.types ++ [t]⟩, r.types.length)

/-- One step of a registration. -/
def step (r : Registry τ) : Registration τ → Registry τ × Registration τ
  | .begun t =>
    match r.lookup t with
    | some d => (r, .done t d)
    | none => (r, .missed t)
  | .missed t =>
    let (after, d) := r.findOrInsert t
    (after, .done t d)
  | .done t d => (r, .done t d)

/-- Register a type with no other registration in between. -/
def register (r : Registry τ) (t : τ) : Registry τ × Registration τ :=
  let (after, call) := r.step (.begun t)
  after.step call

end Registry

/-- The descriptor that a registration ended with. -/
def Registration.descriptor? {τ : Type} : Registration τ → Option Nat
  | .done _ d => some d
  | _ => none

end Substrate.Dynamic
