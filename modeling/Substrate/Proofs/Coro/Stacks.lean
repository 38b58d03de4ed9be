import Substrate.Proofs.Coro.RunLists

/-!
# Any operations on run lists

Lists that share the links and marks of their frames act as stacks apart from
each other, whatever is pushed and popped and in whatever order.  `Stacks.Does`
says what an operation does to stacks and answers, without links or marks;
`Refines.perform` is one operation on the lists, and `Refines.performAll` any
number of them.
-/

namespace Substrate.Coro

/-- An operation on one of the lists. -/
inductive ListOp where
  /-- Put frame `f` on top of list `q`. -/
  | push (q f : Nat)
  /-- Take the frame on top of list `q`. -/
  | pop (q : Nat)
  deriving DecidableEq, Repr

/-- What an operation answers. -/
inductive ListAnswer where
  /-- Whether the frame was put on the list. -/
  | pushed (taken : Bool)
  /-- The frame that was on top, if there was one. -/
  | popped (frame : Option Nat)
  deriving DecidableEq, Repr

/-- One stack of frames for each list, the top first. -/
def Stacks : Type := Nat → List Nat

namespace Stacks

/-- Stack `q` is `l` and the others are as before. -/
def put (s : Stacks) (q : Nat) (l : List Nat) : Stacks := fun q' => if q' = q then l else s q'

/-- What an operation does to stacks on which no frame may be twice. -/
inductive Does (s : Stacks) : ListOp → ListAnswer → Stacks → Prop
  /-- A frame that is on a stack is refused. -/
  | refused {q f : Nat} (hon : ∃ q', f ∈ s q') : Does s (.push q f) (.pushed false) s
  /-- A frame that is on no stack goes on top of one. -/
  | pushed {q f : Nat} (hoff : ∀ q', f ∉ s q') :
      Does s (.push q f) (.pushed true) (s.put q (f :: s q))
  /-- There is nothing on an empty stack. -/
  | nothing {q : Nat} (hempty : s q = []) : Does s (.pop q) (.popped none) s
  /-- The frame on top of a stack is taken off. -/
  | popped {q f : Nat} {below : List Nat} (htop : s q = f :: below) :
      Does s (.pop q) (.popped (some f)) (s.put q below)

/-- What a sequence of operations does, with the answer to each. -/
inductive DoesAll : Stacks → List ListOp → List ListAnswer → Stacks → Prop
  | nil (s : Stacks) : DoesAll s [] [] s
  | cons {s s' s'' : Stacks} {op : ListOp} {answer : ListAnswer} {ops : List ListOp}
      {answers : List ListAnswer} (hop : s.Does op answer s') (hops : DoesAll s' ops answers s'') :
      DoesAll s (op :: ops) (answer :: answers) s''

end Stacks

namespace RunLists

/-- Do an operation on the lists. -/
def perform (r : RunLists) : ListOp → RunLists × ListAnswer
  | .push q f =>
    match r.push q f with
    | some after => (after, .pushed true)
    | none => (r, .pushed false)
  | .pop q =>
    match r.pop q with
    | some (f, after) => (after, .popped (some f))
    | none => (r, .popped none)

/-- Do operations on the lists one after another. -/
def performAll (r : RunLists) : List ListOp → RunLists × List ListAnswer
  | [] => (r, [])
  | op :: ops =>
    (((r.perform op).1.performAll ops).1, (r.perform op).2 :: ((r.perform op).1.performAll ops).2)

/-- The frame that `k` links lead to from the top of list `q`. -/
def reached (r : RunLists) (q : Nat) : Nat → Option Nat
  | 0 => (r.lists.get q).head
  | k + 1 => (r.reached q k).bind fun f => (r.links.get f).next

variable {r : RunLists} {piles : Stacks}

theorem Linked.drop {top : Option Nat} {l : List Nat} (h : r.Linked top l) (k : Nat)
    {f : Nat} (hf : l[k]? = some f) : r.Linked (r.links.get f).next (l.drop (k + 1)) := by
  induction k generalizing top l with
  | zero =>
    cases l with
    | nil => cases hf
    | cons g below =>
      cases hf
      cases top with
      | none => exact h.elim
      | some f =>
        obtain ⟨rfl, hbelow⟩ := h
        exact hbelow
  | succ k ih =>
    cases l with
    | nil => cases hf
    | cons g below =>
      cases top with
      | none => exact h.elim
      | some f => exact ih h.2 hf

/-- Following the links passes through the stack and ends behind it. -/
theorem Refines.reached_eq (h : r.Refines piles) (q k : Nat) : r.reached q k = (piles q)[k]? := by
  induction k with
  | zero => rw [reached, (h.linked q).head_eq, List.head?_eq_getElem?]
  | succ k ih =>
    rw [reached, ih]
    cases hk : (piles q)[k]? with
    | none =>
      have hend := List.getElem?_eq_none_iff.mp hk
      rw [Option.bind_none, List.getElem?_eq_none (by omega)]
    | some f =>
      rw [Option.bind_some, ((h.linked q).drop k hk).head_eq, List.head?_drop]

theorem Refines.queued_eq_false (h : r.Refines piles) {f : Nat} (hoff : ∀ q, f ∉ piles q) :
    r.queued f = false := by
  rw [Bool.eq_false_iff]
  intro hq
  obtain ⟨q, hmem⟩ := (h.queued_iff f).mp hq
  exact hoff q hmem

/-- A frame is refused, with nothing changed, exactly when it is on a list. -/
theorem Refines.refused_iff (h : r.Refines piles) (q f : Nat) :
    r.perform (.push q f) = (r, .pushed false) ↔ ∃ q', f ∈ piles q' := by
  rw [← h.queued_iff, perform, push]
  cases r.queued f <;> simp

/-- An operation on the lists is the same operation on the stacks. -/
theorem Refines.perform (h : r.Refines piles) (op : ListOp) :
    ∃ piles', piles.Does op (r.perform op).2 piles' ∧ (r.perform op).1.Refines piles' := by
  cases op with
  | push q f =>
    by_cases hon : ∃ q', f ∈ piles q'
    · rw [(h.refused_iff q f).mpr hon]
      exact ⟨piles, .refused hon, h⟩
    · have hoff : ∀ q', f ∉ piles q' := fun q' hmem => hon ⟨q', hmem⟩
      obtain ⟨after, hpush, hafter⟩ := refines_push h (h.queued_eq_false hoff) q
      rw [RunLists.perform, hpush]
      exact ⟨_, .pushed hoff, hafter⟩
  | pop q =>
    cases hq : piles q with
    | nil =>
      rw [RunLists.perform, pop_eq_none h hq]
      exact ⟨piles, .nothing hq, h⟩
    | cons f below =>
      obtain ⟨after, hpop, hafter⟩ := refines_pop h hq
      rw [RunLists.perform, hpop]
      exact ⟨_, .popped hq, hafter⟩

theorem Refines.performAll (ops : List ListOp) :
    ∀ {r : RunLists} {piles : Stacks}, r.Refines piles →
      ∃ piles', piles.DoesAll ops (r.performAll ops).2 piles' ∧
        (r.performAll ops).1.Refines piles' := by
  induction ops with
  | nil => exact fun {r piles} h => ⟨piles, .nil piles, h⟩
  | cons op ops ih =>
    intro r piles h
    obtain ⟨middle, hop, hmiddle⟩ := h.perform op
    obtain ⟨last, hops, hlast⟩ := ih hmiddle
    exact ⟨last, .cons hop hops, hlast⟩

/-- From clear links and empty lists, any operations on the lists answer as on stacks.  The
links of each list lead through its stack and end behind its last frame, the length is the
number of frames passed, no frame is at two places, a frame is marked exactly when it is on
a stack, and exactly then the next push of it is refused and changes nothing. -/
theorem run_lists_are_stacks (r : RunLists) (hclear : r.Clear) (ops : List ListOp) :
    ∃ piles : Stacks, Stacks.DoesAll (fun _ => []) ops (r.performAll ops).2 piles ∧
      (∀ q k, (r.performAll ops).1.reached q k = (piles q)[k]?) ∧
      (∀ q, (r.performAll ops).1.length q = (piles q).length) ∧
      (∀ q, (piles q).Nodup) ∧
      (∀ q q' f, f ∈ piles q → f ∈ piles q' → q = q') ∧
      (∀ f, (r.performAll ops).1.queued f = true ↔ ∃ q, f ∈ piles q) ∧
      ∀ q f, (r.performAll ops).1.perform (.push q f) = ((r.performAll ops).1, .pushed false) ↔
        ∃ q', f ∈ piles q' := by
  have hstart : r.Refines ((fun _ => []) : Stacks) := hclear.refines
  obtain ⟨piles, hdoes, h⟩ := Refines.performAll ops hstart
  exact ⟨piles, hdoes, h.reached_eq, h.length_eq, h.nodup, h.disjoint, h.queued_iff, h.refused_iff⟩

/-- Frames 5 and 6 on list 0 and frame 7 on list 1; 6 is refused by list 1 until it is popped. -/
theorem run_lists_are_stacks_shared :
    ({} : RunLists).Clear ∧ ∃ piles : Stacks,
      Stacks.DoesAll (fun _ => [])
        [.push 0 5, .push 0 6, .push 1 7, .push 1 6, .pop 0, .push 1 6]
        [.pushed true, .pushed true, .pushed true, .pushed false, .popped (some 6), .pushed true]
        piles := by
  obtain ⟨piles, hdoes, -⟩ := run_lists_are_stacks {} clear_empty
    [.push 0 5, .push 0 6, .push 1 7, .push 1 6, .pop 0, .push 1 6]
  exact ⟨clear_empty, piles, hdoes⟩

end RunLists

end Substrate.Coro
