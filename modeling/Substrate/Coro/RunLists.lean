import Substrate.Table

/-!
# Run lists

Any number of last-in first-out lists over one set of frames.  Every frame
carries one link and one mark, so a frame is on at most one list and joining a
list allocates nothing.  `push` refuses a frame that carries the mark.
-/

namespace Substrate.Coro

/-- What a frame carries for the run lists. -/
structure Link where
  /-- Whether the frame is on a list. -/
  queued : Bool := false
  /-- The frame below it on that list. -/
  next : Option Nat := none
  deriving DecidableEq, Repr

instance : Inhabited Link := ⟨{}⟩

/-- One list: its top and its length. -/
structure RunList where
  /-- The frame on top. -/
  head : Option Nat := none
  /-- How many frames it holds. -/
  length : Nat := 0
  deriving DecidableEq, Repr

instance : Inhabited RunList := ⟨{}⟩

/-- The links of all frames and the tops of all lists. -/
structure RunLists where
  /-- The link of each frame. -/
  links : Table Link := .empty
  /-- The lists. -/
  lists : Table RunList := .empty

namespace RunLists

instance : Inhabited RunLists := ⟨{}⟩

/-- Whether a frame is on a list. -/
def queued (r : RunLists) (f : Nat) : Bool := (r.links.get f).queued

/-- The length of list `q`. -/
def length (r : RunLists) (q : Nat) : Nat := (r.lists.get q).length

/-- Put frame `f` on top of list `q`, unless it is on a list already. -/
def push (r : RunLists) (q f : Nat) : Option RunLists :=
  if r.queued f then none
  else some
    { links := r.links.set f ⟨true, (r.lists.get q).head⟩
      lists := r.lists.set q ⟨some f, r.length q + 1⟩ }

/-- Take the frame on top of list `q`. -/
def pop (r : RunLists) (q : Nat) : Option (Nat × RunLists) :=
  (r.lists.get q).head.map fun f =>
    (f, { links := r.links.set f {}
          lists := r.lists.set q ⟨(r.links.get f).next, r.length q - 1⟩ })

/-- Move `count` frames from the top of list `source` to the top of list `target`, one
at a time, which turns their order around. -/
def pour (r : RunLists) (source target : Nat) : Nat → RunLists
  | 0 => r
  | count + 1 =>
    match r.pop source with
    | none => r
    | some (f, r) => ((r.push target f).getD r).pour source target count

/-- The frames of list `q` from the top, as far as `fuel` links reach. -/
def walk (r : RunLists) : Nat → Option Nat → List Nat
  | _, none => []
  | 0, some _ => []
  | fuel + 1, some f => f :: r.walk fuel (r.links.get f).next

/-- The frames of list `q` from the top. -/
def toList (r : RunLists) (q : Nat) : List Nat := r.walk (r.length q) (r.lists.get q).head

end RunLists

end Substrate.Coro
