import Substrate.Proofs.View.Runs

/-!
# Where the instances of elements are

Every instance of an element lies in a slot of a store that is held, or it is
in hand: made for an operation, cloned or taken out of a slot, and not yet
moved to a slot or dropped.  `Memory.stored` counts the slots and
`Memory.loose` what the ledger counts beyond them.

`Memory.Passes m m' n` says that from `m` to `m'` the instances in hand became
`n` more, and that no store that was freed is held again.  There is one lemma
for every function on memories: a clone gains one, a move loses one, a new
store loses as many as it has slots, and whatever a store that is freed had is
dropped with it.  An operation gains nothing in the end, whether it fails or
not, so the ledger of a run counts exactly the slots.
-/

namespace Substrate.View

open Ownership (Heap)

namespace Ledger

@[simp] theorem live_make (l : Ledger) (n : Nat) : (l.make n).live = l.live + n := by
  simp only [live, make]
  omega

@[simp] theorem live_drop (l : Ledger) (n : Nat) : (l.drop n).live = l.live - n := by
  simp only [live, drop]
  omega

@[simp] theorem live_clone (l : Ledger) (n : Nat) : (l.clone n).live = l.live + n :=
  live_make l n

end Ledger

namespace Memory

variable {α : Type}

/-! ## The slots of the stores that are held -/

/-- The slots of those of the first `n` stores that are held. -/
def slotsBelow (stores : Heap (List α)) : Nat → Nat
  | 0 => 0
  | n + 1 =>
    slotsBelow stores n + if 0 < stores.count n then (stores.payload n).length else 0

/-- The slots of the stores that are held. -/
def stored (m : Memory α) : Nat := slotsBelow m.stores m.stores.size

/-- The instances that are in no slot of a store that is held. -/
def loose (m : Memory α) : Int := m.ledger.live - m.stored

theorem slotsBelow_congr {stores stores' : Heap (List α)} {n : Nat}
    (hlive : ∀ k < n, 0 < stores'.count k ↔ 0 < stores.count k)
    (hlength : ∀ k < n, (stores'.payload k).length = (stores.payload k).length) :
    slotsBelow stores' n = slotsBelow stores n := by
  induction n with
  | zero => rfl
  | succ n ih =>
    rw [slotsBelow, slotsBelow, ih (fun k hk => hlive k (by omega)) fun k hk =>
      hlength k (by omega),
      hlength n (by omega)]
    simp only [hlive n (by omega)]

/-- A store that is freed takes its slots along. -/
theorem slotsBelow_freed {stores : Heap (List α)} {i n : Nat} (hi : 0 < stores.count i)
    (hlt : i < n) :
    slotsBelow (stores.setCount i 0) n + (stores.payload i).length = slotsBelow stores n := by
  induction n with
  | zero => omega
  | succ n ih =>
    rw [slotsBelow, slotsBelow, Heap.count_setCount, Heap.payload_setCount]
    by_cases hin : n = i
    · subst hin
      have hbelow : slotsBelow (stores.setCount n 0) n = slotsBelow stores n := by
        refine slotsBelow_congr (fun k hk => ?_) fun k _ => by rw [Heap.payload_setCount]
        rw [Heap.count_setCount, if_neg (by omega)]
      rw [hbelow, if_pos rfl, if_pos hi, if_neg (Nat.lt_irrefl 0)]
      omega
    · have := ih (by omega)
      rw [if_neg hin]
      omega

theorem slotsBelow_eq_zero {stores : Heap (List α)} {n : Nat} (h : ∀ k < n, stores.count k = 0) :
    slotsBelow stores n = 0 := by
  induction n with
  | zero => rfl
  | succ n ih =>
    rw [slotsBelow, ih fun k hk => h k (by omega), if_neg (by rw [h n (by omega)]; omega)]

section

variable {m m' m'' : Memory α} {v u : Window} {held : List Window}

theorem SameShape.stored_eq (h : SameShape m m') : m'.stored = m.stored := by
  unfold stored
  rw [h.size_eq]
  exact slotsBelow_congr (fun k _ => by rw [h.count_eq k]) fun k _ => h.length_eq k

theorem Sound.stored_eq_zero (h : m.Sound []) : m.stored = 0 := by
  refine slotsBelow_eq_zero fun k _ => ?_
  rw [h.balanced.counts k, heldBy_eq_zero]
  rfl

theorem isLive_eq_false_iff (stores : Heap (List α)) (i : Nat) :
    stores.isLive i = false ↔ stores.count i = 0 := by
  rw [← Bool.not_eq_true, Heap.isLive_iff]
  omega

/-! ## What came into hand -/

/-- From `m` to `m'` the instances in hand became `gained` more, and no store that was
freed is held again. -/
structure Passes (m m' : Memory α) (gained : Int) : Prop where
  loose_eq : m'.loose = m.loose + gained
  size_le : m.stores.size ≤ m'.stores.size
  freed : ∀ k < m.stores.size, m.stores.count k = 0 → m'.stores.count k = 0

theorem Passes.trans {a b : Int} (h : Passes m m' a) (h' : Passes m' m'' b) :
    Passes m m'' (a + b) := by
  refine ⟨?_, Nat.le_trans h.size_le h'.size_le, fun k hk hzero => ?_⟩
  · rw [h'.loose_eq, h.loose_eq, Int.add_assoc]
  · exact h'.freed k (Nat.lt_of_lt_of_le hk h.size_le) (h.freed k hk hzero)

theorem Passes.of_eq {a b : Int} (h : Passes m m' a) (hab : a = b) : Passes m m' b := hab ▸ h

theorem SameShape.passes (h : SameShape m m') {gained : Int}
    (hlive : m'.ledger.live = m.ledger.live + gained) : Passes m m' gained := by
  refine ⟨?_, Nat.le_of_eq h.size_eq.symm, fun k _ hzero => (h.count_eq k).trans hzero⟩
  rw [loose, loose, hlive, h.stored_eq]
  omega

theorem Passes.refl (m : Memory α) : Passes m m 0 :=
  (SameShape.note m id).passes (by simp [note])

theorem passes_make (m : Memory α) (n : Nat) : Passes m (m.note (·.make n)) n :=
  (SameShape.note m _).passes (Ledger.live_make _ n)

theorem passes_clone (m : Memory α) (n : Nat) : Passes m (m.note (·.clone n)) n :=
  (SameShape.note m _).passes (Ledger.live_clone _ n)

theorem passes_noteDrop (m : Memory α) (n : Nat) : Passes m (m.note (·.drop n)) (-n) :=
  (SameShape.note m _).passes (by rw [note, Ledger.live_drop]; rfl)

/-- How many instances a result puts in hand; none if it is a failure. -/
def inHand {β : Type} (size : β → Nat) : Except Failure β → Int
  | .ok b => size b
  | .error _ => 0

theorem inHand_zero {β : Type} (result : Except Failure β) : inHand (fun _ => 0) result = 0 := by
  cases result <;> rfl

/-! ## Stores -/

/-- The store of a view is held. -/
def Holds (m : Memory α) (v : Window) : Prop :=
  ∀ i, v.store = some i → 0 < m.stores.count i ∧ i < m.stores.size

theorem Sound.holds (h : m.Sound held) (hv : v ∈ held) : m.Holds v :=
  fun _ hi => ⟨h.live hv hi, h.lt_size hv hi⟩

theorem Holds.of_sameShape (h : m.Holds v) (hs : SameShape m m') : m'.Holds v := fun i hi => by
  rw [hs.count_eq, hs.size_eq]
  exact h i hi

theorem passes_retain (h : m.Holds v) : Passes m (m.retain v) 0 := by
  cases hs : v.store with
  | none =>
    have hsame : m.retain v = m := by rw [retain, hs]; rfl
    rw [hsame]
    exact Passes.refl m
  | some i =>
    obtain ⟨hi, -⟩ := h i hs
    have hcount : ∀ k, (m.retain v).stores.count k =
        if k = i then m.stores.count i + 1 else m.stores.count k := fun k => by
      rw [retain, hs]
      exact Heap.count_setCount _ _ _ _
    refine ⟨?_, Nat.le_of_eq (size_retain m v).symm, fun k _ hzero => ?_⟩
    · have hstored : (m.retain v).stored = m.stored := by
        unfold stored
        rw [size_retain]
        refine slotsBelow_congr (fun k _ => ?_) fun k _ => by rw [payload_retain]
        rw [hcount]
        split
        · rename_i hk
          rw [hk]
          omega
        · rfl
      rw [loose, loose, hstored]
      show m.ledger.live - _ = _
      omega
    · have hk : k ≠ i := fun hk => by
        rw [← hk] at hi
        omega
      rw [hcount, if_neg hk]
      exact hzero

/-- What a freed store had is dropped, so nothing comes into hand. -/
theorem passes_drop (h : m.Holds v) : Passes m (m.drop v) 0 := by
  cases hs : v.store with
  | none =>
    have hsame : m.drop v = m.note (·.drop 0) := by rw [drop, hs]; rfl
    rw [hsame]
    exact passes_noteDrop m 0
  | some i =>
    obtain ⟨hi, hlt⟩ := h i hs
    have hother : ∀ n k, m.stores.count k = 0 → (m.stores.setCount i n).count k = 0 :=
      fun n k hzero => by
        have hk : k ≠ i := fun hk => by
          rw [← hk] at hi
          omega
        rw [Heap.count_setCount, if_neg hk, hzero]
    by_cases hlast : m.stores.count i ≤ 1
    · have hdrop : m.drop v =
          { m with stores := m.stores.setCount i 0 }.note (·.drop (m.stores.payload i).length) := by
        -- slots hold no cells, so a store that is freed is the only one
        have hfreed : m.stores.release i = (m.stores.setCount i 0, [i]) := if_pos hlast
        simp only [drop, hs, Heap.release?, hfreed, List.foldl_cons, List.foldl_nil, Nat.zero_add]
      rw [hdrop]
      refine ⟨?_, Nat.le_refl _, fun k _ hzero => hother 0 k hzero⟩
      have hslots := slotsBelow_freed hi hlt
      show (m.ledger.drop (m.stores.payload i).length).live -
        ((slotsBelow (m.stores.setCount i 0) m.stores.size : Nat) : Int) = m.loose + 0
      rw [Ledger.live_drop, loose, stored]
      omega
    · have hdrop : m.drop v =
          { m with stores := m.stores.setCount i (m.stores.count i - 1) }.note (·.drop 0) := by
        have hkept : m.stores.release i = (m.stores.setCount i (m.stores.count i - 1), []) :=
          if_neg hlast
        simp only [drop, hs, Heap.release?, hkept, List.foldl_nil]
      rw [hdrop]
      refine ⟨?_, Nat.le_refl _, fun k _ hzero => hother _ k hzero⟩
      have hslots : slotsBelow (m.stores.setCount i (m.stores.count i - 1)) m.stores.size =
          m.stored := by
        refine slotsBelow_congr (fun k _ => ?_) fun k _ => by rw [Heap.payload_setCount]
        rw [Heap.count_setCount]
        split
        · rename_i hk
          rw [hk]
          omega
        · rfl
      show (m.ledger.drop 0).live - ((slotsBelow (m.stores.setCount i (m.stores.count i - 1))
        m.stores.size : Nat) : Int) = m.loose + 0
      rw [hslots, Ledger.live_drop, loose]
      omega

/-- Letting go of all views. -/
theorem Sound.dropAll (h : m.Sound held) :
    (held.foldl Memory.drop m).Sound [] ∧ Passes m (held.foldl Memory.drop m) 0 := by
  induction held generalizing m with
  | nil => exact ⟨h, Passes.refl m⟩
  | cons v rest ih =>
    obtain ⟨hsound, hpasses⟩ := ih h.drop.1
    exact ⟨hsound, (passes_drop (h.holds List.mem_cons_self)).trans hpasses⟩

/-- A new store takes as many instances as it has slots. -/
theorem passes_newStore (m : Memory α) (slots : List α) (length : Nat) :
    Passes m (m.newStore slots length).1 (-slots.length) := by
  have hmade := made_newStore m slots length
  refine ⟨?_, by rw [hmade.size_eq]; omega, fun k hk hzero => ?_⟩
  · have hbelow : slotsBelow (m.newStore slots length).1.stores m.stores.size = m.stored := by
      refine slotsBelow_congr (fun k hk => ?_) fun k hk => ?_
      · rw [hmade.count_eq, if_neg (by omega)]
      · rw [hmade.payload_eq, if_neg (by omega)]
    have hstored : (m.newStore slots length).1.stored = m.stored + slots.length := by
      rw [stored, hmade.size_eq, slotsBelow, hbelow, hmade.count_eq, hmade.payload_eq, if_pos rfl,
        if_pos rfl, if_pos Nat.one_pos]
    rw [loose, hstored, loose]
    show m.ledger.live - _ = _
    omega
  · rw [hmade.count_eq, if_neg (by omega)]
    exact hzero

theorem Holds.newStore (h : m.Holds v) (slots : List α) (length : Nat) :
    (m.newStore slots length).1.Holds v := by
  have hmade := made_newStore m slots length
  intro i hi
  obtain ⟨hlive, hlt⟩ := h i hi
  rw [hmade.count_eq, if_neg (by omega), hmade.size_eq]
  exact ⟨hlive, by omega⟩

/-! ## Slots -/

theorem sameShape_poke (m : Memory α) (i slot : Nat) (a : α) (change : Ledger → Ledger) :
    SameShape m ((m.poke i slot a).note change) := by
  refine ⟨rfl, fun k => Heap.count_setPayload _ _ _ _, fun k => ?_, rfl⟩
  show ((m.stores.setPayload i _).payload k).length = _
  rw [Heap.payload_setPayload]
  split
  · rename_i hk
    rw [hk, List.length_set]
  · rfl

/-- An element that is moved leaves the hand, whether there is a slot for it or not. -/
theorem passes_moveTo (m : Memory α) (v : Window) (pos : Nat) (a : α) :
    Passes m (m.moveTo v pos a).1 (-1) := by
  unfold moveTo
  split
  · exact passes_noteDrop m 1
  · rename_i i slot _
    exact (sameShape_poke m i slot a (·.drop 1)).passes (Ledger.live_drop m.ledger 1)

theorem passes_moveAll (m : Memory α) (v : Window) (pos : Nat) (values : List α) :
    Passes m (m.moveAll v pos values).1 (-values.length) := by
  induction values generalizing m pos with
  | nil => exact Passes.refl m
  | cons a rest ih =>
    have hmove := passes_moveTo m v pos a
    unfold moveAll
    rw [List.length_cons]
    split
    · rename_i m₁ e hresult
      rw [hresult] at hmove
      exact (hmove.trans (passes_noteDrop m₁ rest.length)).of_eq (by omega)
    · rename_i m₁ hresult
      rw [hresult] at hmove
      exact (hmove.trans (ih m₁ (pos + 1))).of_eq (by omega)

theorem passes_set (m : Memory α) (v : Window) (index : Int) (a : α) :
    Passes m (m.set v index a).1 (-1) := by
  unfold Memory.set
  split
  · exact passes_noteDrop m 1
  · exact passes_moveTo m v _ a

theorem passes_pushWithin (m : Memory α) (v : Window) (a : α) :
    Passes m (m.pushWithin v a).1 (-1) := by
  have hmove := passes_moveTo m v v.length a
  unfold pushWithin
  split <;> (rename_i hresult; rwa [hresult] at hmove)

theorem passes_pushAllWithin (m : Memory α) (v : Window) (values : List α) :
    Passes m (m.pushAllWithin v values).1 (-values.length) := by
  induction values generalizing m v with
  | nil => exact Passes.refl m
  | cons a rest ih =>
    have hpush := passes_pushWithin m v a
    unfold pushAllWithin
    rw [List.length_cons]
    split
    · rename_i m₁ e hresult
      rw [hresult] at hpush
      exact (hpush.trans (passes_noteDrop m₁ rest.length)).of_eq (by omega)
    · rename_i m₁ u hresult
      rw [hresult] at hpush
      exact (hpush.trans (ih m₁ u)).of_eq (by omega)

/-- Each clone is made and moved to its slot. -/
theorem passes_pushClonesWithin (m : Memory α) (v : Window) (values : List α) :
    Passes m (m.pushClonesWithin v values).1 0 := by
  induction values generalizing m v with
  | nil => exact Passes.refl m
  | cons a rest ih =>
    have hpush := (passes_clone m 1).trans (passes_pushWithin (m.note (·.clone 1)) v a)
    unfold pushClonesWithin
    split
    · rename_i m₁ e hresult
      rwa [hresult] at hpush
    · rename_i m₁ u hresult
      rw [hresult] at hpush
      exact hpush.trans (ih m₁ u)

theorem passes_slice (h : m.Holds v) (start stop : Int) :
    Passes m (m.slice v start stop).1 0 := by
  unfold slice
  split
  · exact Passes.refl m
  · split
    · exact Passes.refl m
    · exact passes_retain h

end

/-! ## Gathering -/

section

variable {pick : Memory α → Nat → Memory α × Except Failure α}

theorem sameShape_gather (hpick : ∀ m pos, SameShape m (pick m pos).1) (m : Memory α)
    (pos count : Nat) : SameShape m (gather pick m pos count).1 := by
  induction count generalizing m pos with
  | zero => exact .note m id
  | succ count ih =>
    have hfirst := hpick m pos
    unfold gather
    split
    · rename_i m₁ e hresult
      rwa [hresult] at hfirst
    · rename_i m₁ a hresult
      rw [hresult] at hfirst
      have hrest := ih m₁ (pos + 1)
      have hall : SameShape m (gather pick m₁ (pos + 1) count).1 :=
        ⟨hrest.size_eq.trans hfirst.size_eq,
          fun k => (hrest.count_eq k).trans (hfirst.count_eq k),
          fun k => (hrest.length_eq k).trans (hfirst.length_eq k),
          hrest.grants_eq.trans hfirst.grants_eq⟩
      split <;> (rename_i hresult; rw [hresult] at hall)
      · exact ⟨hall.size_eq, hall.count_eq, hall.length_eq, hall.grants_eq⟩
      · exact hall

/-- Elements that are gathered are in hand; if one cannot be read, those before it are
dropped. -/
theorem passes_gather
    (hpick : ∀ m pos, Passes m (pick m pos).1 (inHand (fun _ => 1) (pick m pos).2))
    (m : Memory α) (pos count : Nat) :
    Passes m (gather pick m pos count).1 (inHand List.length (gather pick m pos count).2) := by
  induction count generalizing m pos with
  | zero => exact Passes.refl m
  | succ count ih =>
    have hfirst := hpick m pos
    unfold gather
    split
    · rename_i m₁ e hresult
      rwa [hresult] at hfirst
    · rename_i m₁ a hresult
      rw [hresult] at hfirst
      have hall := hfirst.trans (ih m₁ (pos + 1))
      split
      · rename_i m₂ e hrest
        rw [hrest] at hall
        exact hall.trans (passes_noteDrop m₂ 1)
      · rename_i m₂ values hrest
        rw [hrest] at hall
        refine hall.of_eq ?_
        simp only [inHand, List.length_cons]
        omega

end

/-! ## Reading -/

variable [Element α] {m m' : Memory α} {v u : Window} {held rest : List Window}

theorem sameShape_cloneAt (m : Memory α) (v : Window) (pos : Nat) :
    SameShape m (m.cloneAt v pos).1 := by
  unfold cloneAt
  split
  · exact .note m id
  · exact .note m (·.clone 1)

theorem sameShape_takeAt (m : Memory α) (v : Window) (pos : Nat) :
    SameShape m (m.takeAt v pos).1 := by
  unfold takeAt
  split
  · exact .note m id
  · exact sameShape_poke m _ _ Element.blank (·.make 1)

theorem passes_cloneAt (m : Memory α) (v : Window) (pos : Nat) :
    Passes m (m.cloneAt v pos).1 (inHand (fun _ => 1) (m.cloneAt v pos).2) := by
  unfold cloneAt
  split
  · exact Passes.refl m
  · exact passes_clone m 1

/-- An element that is taken out is in hand, and the blank one in its place was made. -/
theorem passes_takeAt (m : Memory α) (v : Window) (pos : Nat) :
    Passes m (m.takeAt v pos).1 (inHand (fun _ => 1) (m.takeAt v pos).2) := by
  unfold takeAt
  split
  · exact Passes.refl m
  · exact (sameShape_poke m _ _ Element.blank (·.make 1)).passes (Ledger.live_make m.ledger 1)

theorem sameShape_get (m : Memory α) (v : Window) (index : Int) :
    SameShape m (m.get v index).1 := by
  unfold Memory.get
  split
  · exact .note m id
  · exact sameShape_cloneAt m v _

theorem passes_get (m : Memory α) (v : Window) (index : Int) :
    Passes m (m.get v index).1 (inHand (fun _ => 1) (m.get v index).2) := by
  unfold Memory.get
  split
  · exact Passes.refl m
  · exact passes_cloneAt m v _

theorem sameShape_toList (m : Memory α) (v : Window) : SameShape m (m.toList v).1 :=
  sameShape_gather (fun m pos => sameShape_get m v pos) m 0 v.length

theorem passes_toList (m : Memory α) (v : Window) :
    Passes m (m.toList v).1 (inHand List.length (m.toList v).2) :=
  passes_gather (fun m pos => passes_get m v pos) m 0 v.length

theorem passes_copyFrom (m : Memory α) (v source : Window) :
    Passes m (m.copyFrom v source).1 0 := by
  have hread := passes_gather (fun m pos => passes_get m source pos) m 0
    (min v.length source.length)
  unfold copyFrom
  dsimp only
  split
  · rename_i m₁ e hresult
    rwa [hresult] at hread
  · rename_i m₁ values hresult
    rw [hresult] at hread
    have hall := hread.trans (passes_moveAll m₁ v 0 values)
    have hzero : inHand List.length (.ok values) + -(values.length : Int) = 0 := by
      simp only [inHand]
      omega
    split <;> (rename_i hmoved; rw [hmoved] at hall; exact hall.of_eq hzero)

theorem passes_equalFrom [DecidableEq α] (m : Memory α) (v u : Window) (pos count : Nat) :
    Passes m (m.equalFrom v u pos count).1 0 := by
  induction count generalizing m pos with
  | zero => exact Passes.refl m
  | succ count ih =>
    have hfirst := passes_get m v pos
    unfold equalFrom
    split
    · rename_i m₁ e hresult
      rwa [hresult] at hfirst
    · rename_i m₁ a hresult
      rw [hresult] at hfirst
      have hboth := hfirst.trans (passes_get m₁ u pos)
      split
      · rename_i m₂ e hsecond
        rw [hsecond] at hboth
        exact hboth.trans (passes_noteDrop m₂ 1)
      · rename_i m₂ b hsecond
        rw [hsecond] at hboth
        have hdropped : Passes m (m₂.note (·.drop 2)) 0 := hboth.trans (passes_noteDrop m₂ 2)
        dsimp only
        split
        · exact hdropped.trans (ih _ (pos + 1))
        · exact hdropped

theorem passes_equal [DecidableEq α] (m : Memory α) (v u : Window) :
    Passes m (m.equal v u).1 0 := by
  unfold equal
  split
  · exact passes_equalFrom m v u 0 v.length
  · exact Passes.refl m

/-! ## Growing -/

theorem passes_alloc (m : Memory α) (length capacity : Int) :
    Passes m (m.alloc length capacity).1 0 := by
  unfold alloc
  split
  · exact Passes.refl m
  · split
    · exact Passes.refl m
    · rw [allocate_eq]
      split <;> rename_i hresult
      · exact Passes.refl m
      · split at hresult
        · cases hresult
          have hmade := (passes_make m capacity.toNat).trans
            (passes_newStore _ (List.replicate capacity.toNat (Element.blank : α)) length.toNat)
          refine hmade.of_eq ?_
          rw [List.length_replicate]
          omega
        · cases hresult

/-- The elements in hand and the blank ones that are left of a new store fill it; those that
they replace are dropped. -/
theorem passes_growBy {pick : Memory α → Nat → Memory α × Except Failure α}
    (hpick : ∀ m pos, SameShape m (pick m pos).1 ∧
      Passes m (pick m pos).1 (inHand (fun _ => 1) (pick m pos).2)) (h : m.Holds v) {capacity : Nat}
    (hlength : v.length ≤ capacity) : Passes m (m.growBy pick v capacity).1 0 := by
  unfold growBy
  rw [allocate_eq]
  split <;> rename_i hresult
  · exact Passes.refl m
  · split at hresult
    · cases hresult
      dsimp only
      have hshape := sameShape_gather (fun m pos => (hpick m pos).1) (m.note (·.make capacity)) 0
        v.length
      have hread := (passes_make m capacity).trans
        (passes_gather (fun m pos => (hpick m pos).2) (m.note (·.make capacity)) 0 v.length)
      split
      · rename_i m₁ e hgather
        rw [hgather] at hread
        refine (hread.trans (passes_noteDrop m₁ capacity)).of_eq ?_
        simp only [inHand]
        omega
      · rename_i m₁ values hgather
        rw [hgather] at hread hshape
        let m₂ : Memory α :=
          { m₁.note (·.drop v.length) with
            growths := m₁.growths.push ⟨v.capacity, capacity, v.length⟩ }
        let slots := values ++ (List.replicate capacity (Element.blank : α)).drop v.length
        have hdropped : Passes m₁ m₂ (-v.length) := by
          have hnoted := passes_noteDrop m₁ v.length
          exact ⟨hnoted.loose_eq, hnoted.size_le, hnoted.freed⟩
        have hshape₂ : SameShape m m₂ :=
          ⟨hshape.size_eq, hshape.count_eq, hshape.length_eq, hshape.grants_eq⟩
        have hall := ((hread.trans hdropped).trans (passes_newStore m₂ slots v.length)).trans
          (passes_drop ((h.of_sameShape hshape₂).newStore slots v.length))
        refine hall.of_eq ?_
        simp only [inHand, slots, List.length_append, List.length_drop, List.length_replicate]
        omega
    · cases hresult

theorem passes_grow (h : m.Holds v) {capacity : Nat} (hlength : v.length ≤ capacity) :
    Passes m (m.grow v capacity).1 0 := by
  refine passes_growBy (fun m pos => ?_) h hlength
  split
  · exact ⟨sameShape_takeAt m v pos, passes_takeAt m v pos⟩
  · exact ⟨sameShape_cloneAt m v pos, passes_cloneAt m v pos⟩

theorem passes_reserve (h : m.Holds v) (additional : Nat) :
    Passes m (m.reserve v additional).1 0 := by
  unfold reserve
  dsimp only
  split
  · exact Passes.refl m
  · split
    · exact Passes.refl m
    · split
      · exact Passes.refl m
      · exact passes_grow h (by omega)

theorem passes_push (h : m.Holds v) (a : α) : Passes m (m.push v a).1 (-1) := by
  have hreserve := passes_reserve h 1
  unfold push
  split
  · rename_i m₁ e hresult
    rw [hresult] at hreserve
    exact hreserve.trans (passes_noteDrop m₁ 1)
  · rename_i m₁ u hresult
    rw [hresult] at hreserve
    exact hreserve.trans (passes_pushWithin m₁ u a)

theorem passes_ofList (m : Memory α) (values : List α) :
    Passes m (m.ofList values).1 (-values.length) := by
  have halloc := passes_alloc m 0 values.length
  unfold ofList
  split
  · rename_i m₁ e hresult
    rw [hresult] at halloc
    exact (halloc.trans (passes_noteDrop m₁ values.length)).of_eq (by omega)
  · rename_i m₁ u hresult
    rw [hresult] at halloc
    exact (halloc.trans (passes_pushAllWithin m₁ u values)).of_eq (by omega)

theorem passes_extend (h : m.Holds v) (values : List α) : Passes m (m.extend v values).1 0 := by
  have hreserve := passes_reserve h values.length
  unfold extend
  split
  · rename_i m₁ e hresult
    rwa [hresult] at hreserve
  · rename_i m₁ u hresult
    rw [hresult] at hreserve
    exact hreserve.trans (passes_pushClonesWithin m₁ u values)

theorem passes_append (h : m.Holds v) (other : Window) : Passes m (m.append v other).1 0 := by
  have hshape := sameShape_toList m other
  have hread := passes_toList m other
  unfold append
  split
  · rename_i m₁ e hresult
    rwa [hresult] at hread
  · rename_i m₁ values hresult
    rw [hresult] at hread hshape
    have hextend := passes_extend (h.of_sameShape hshape) values
    have hall := (hread.trans hextend).trans (passes_noteDrop _ values.length)
    refine hall.of_eq ?_
    simp only [inHand]
    omega

end Memory

namespace Session

open Memory

section

variable {α : Type} {s : Session α} {name : String}

/-- Letting go of the view that a name had. -/
theorem passes_store (name : String) {m₀ m : Memory α} {u : Window}
    (hm : m.Sound (u :: s.views.values)) (hpasses : Passes m₀ m 0) :
    Passes m₀ (s.store name m u).memory 0 := by
  refine hpasses.trans (b := 0) (passes_drop ?_)
  cases hv : s.views.get? name with
  | none => exact fun i hi => by cases hi
  | some old => exact hm.holds (List.mem_cons_of_mem _ (Registers.mem_values_of_get? hv))

theorem passes_on {act : Window → Session α × Reply α}
    (hact : ∀ v, s.views.get? name = some v → Passes s.memory (act v).1.memory 0) :
    Passes s.memory (s.on name act).1.memory 0 := by
  unfold Session.on
  split
  · rename_i v hv
    exact hact v hv
  · exact Passes.refl _

theorem passes_onBoth {a b : String} {act : Window → Window → Session α × Reply α}
    (hact : ∀ v u, s.views.get? a = some v → s.views.get? b = some u →
      Passes s.memory (act v u).1.memory 0) :
    Passes s.memory (s.onBoth a b act).1.memory 0 :=
  passes_on fun v hv => passes_on fun u hu => hact v u hv hu

theorem passes_answer {β : Type} {temporaries : β → Nat} {reply : β → Reply α} {m₀ : Memory α}
    {result : Memory α × Except Failure β}
    (h : Passes m₀ result.1 (inHand temporaries result.2)) :
    Passes m₀ (s.answer temporaries reply result).1.memory 0 := by
  obtain ⟨m, result⟩ := result
  cases result with
  | error e => exact h
  | ok b =>
    refine (h.trans (passes_noteDrop m (temporaries b))).of_eq ?_
    simp only [inHand]
    omega

theorem passes_update {m₀ : Memory α} {result : Memory α × Except Failure Window}
    (h : Passes m₀ result.1 0) : Passes m₀ (s.update name result).1.memory 0 := by
  obtain ⟨m, result⟩ := result
  cases result with
  | error e => exact h
  | ok b => exact h

theorem passes_storeResult {m₀ m : Memory α} {result : Except Failure Window}
    (hsound : ∀ u, result = .ok u → m.Sound (u :: s.views.values)) (hpasses : Passes m₀ m 0) :
    Passes m₀ (s.storeResult name (m, result)).1.memory 0 := by
  cases result with
  | error e => exact hpasses
  | ok u => exact passes_store name (hsound u rfl) hpasses

theorem Sound.holds (h : s.Sound) {v : Window} (hv : s.views.get? name = some v) :
    s.memory.Holds v :=
  h.memory.holds (Registers.mem_values_of_get? hv)

/-- The number of views on a store. -/
def viewers (s : Session α) (i : Nat) : Nat := s.views.values.countP fun v => v.store = some i

theorem Sound.count_eq (h : s.Sound) (i : Nat) : s.memory.stores.count i = s.viewers i := by
  rw [h.memory.balanced.counts i, heldBy_eq_zero, Nat.add_zero, List.count, List.countP_filterMap,
    viewers]
  refine List.countP_congr fun v _ => ?_
  cases v.store <;> simp

end

variable {α : Type} [Element α] {s : Session α}

/-- Iterating puts the elements of its turns in hand. -/
theorem passes_iterate {m m' : Memory α} {v : Window} {pos count : Nat} {turns : List (Turn α)}
    (h : iterate m v pos count = (m', .ok turns)) :
    Passes m m' (turns.filterMap Turn.item).length := by
  induction count generalizing m pos turns with
  | zero =>
    cases h
    exact Passes.refl _
  | succ count ih =>
    unfold iterate at h
    split at h
    · cases h
    · rename_i left _
      split at h
      · cases h
      · rename_i m₁ item after hnext
        dsimp only at h
        cases hrest : iterate m₁ v after count with
        | mk m₂ result =>
          rw [hrest] at h
          cases result with
          | error e => cases h
          | ok rest =>
            cases h
            have hlater := ih hrest
            unfold Memory.next at hnext
            split at hnext
            · cases hnext
              exact hlater
            · have hget := passes_get m v pos
              split at hnext
              · cases hnext
              · rename_i a hresult
                cases hnext
                rw [hresult] at hget
                refine (hget.trans hlater).of_eq ?_
                simp only [inHand, List.filterMap_cons, List.length_cons]
                omega

theorem passes_pushEach {m : Memory α} {v : Window} {rest : List Window}
    (h : m.Sound (v :: rest)) (values : List α) : Passes m (pushEach m v values).1 0 := by
  induction values generalizing m v with
  | nil => exact Passes.refl m
  | cons a values ih =>
    have hnoted := h.of_sameShape (.note m (·.make 1))
    have hadded := hnoted.push a
    obtain ⟨-, hsound⟩ := hadded.sound hnoted (Nat.le_refl _)
    have hpush : Passes m ((m.note (·.make 1)).push v a).1 0 :=
      (passes_make m 1).trans (passes_push (hnoted.holds List.mem_cons_self) a)
    unfold pushEach
    cases hresult : (m.note (·.make 1)).push v a with
    | mk m₁ result =>
      rw [hresult] at hpush hsound
      cases result with
      | error e => exact hpush
      | ok u => exact hpush.trans (b := 0) (ih hsound)

/-- A view appended to itself: the clone that holds the store in the meantime is let go of. -/
theorem Sound.passes_appendSelf (h : s.Sound) {name : String} {v : Window}
    (hv : s.views.get? name = some v) :
    Passes s.memory (((s.memory.retain v).append v v).1.drop v) 0 := by
  have hretained := (h.apart hv).retain List.mem_cons_self rfl rfl (h.within hv)
  have hwithin := hretained.within v List.mem_cons_self
  obtain ⟨-, hsound⟩ := (hretained.append hwithin).sound hretained
    (Nat.le_of_eq hwithin.length_contents)
  have hretain := passes_retain (h.holds hv)
  have happend := passes_append (hretained.holds List.mem_cons_self) v
  have hdrop := passes_drop (hsound.holds (List.mem_cons_of_mem _ List.mem_cons_self))
  exact (hretain.trans happend).trans hdrop

variable [DecidableEq α]

/-- No operation leaves an instance in hand or drops one twice, and none brings a freed
store back. -/
theorem Sound.passes_apply (h : s.Sound) {op : Op α} (hfits : op.Fits) :
    Passes s.memory (s.apply op).1.memory 0 := by
  cases op with
  | empty name => exact passes_store name h.memory.empty (Passes.refl _)
  | alloc name length capacity =>
    have hpasses := passes_alloc s.memory length capacity
    have hallotted := h.memory.alloc length capacity fun _ => hfits
    rw [Session.apply]
    cases hresult : s.memory.alloc length capacity with
    | mk m result =>
      rw [hresult] at hpasses hallotted
      refine passes_storeResult (fun u hu => ?_) hpasses
      cases hallotted with
      | range _ => cases hu
      | memory _ => cases hu
      | made _ _ _ hsound _ =>
        cases hu
        exact hsound
  | ofList name values =>
    have hpasses := ((passes_make s.memory values.length).trans
      (passes_ofList (s.make values.length).memory values)).of_eq (b := 0) (by omega)
    rw [Session.apply]
    rcases (h.make values.length).memory.ofList values fun _ => hfits with
      ⟨-, m, hresult, -⟩ | ⟨m, w, hresult, hsound, -⟩
    · rw [hresult] at hpasses ⊢
      exact passes_storeResult (fun u hu => by cases hu) hpasses
    · rw [hresult] at hpasses ⊢
      refine passes_storeResult (fun u hu => ?_) hpasses
      cases hu
      exact hsound
  | drop name =>
    rw [Session.apply]
    split
    · exact Passes.refl _
    · rename_i v hv
      exact passes_drop (h.holds hv)
  | clone name source =>
    refine passes_on fun v hv => ?_
    exact passes_store name
      (h.memory.retain (Registers.mem_values_of_get? hv) rfl rfl (h.within hv))
      (passes_retain (h.holds hv))
  | slice name source start stop =>
    refine passes_on fun v hv => ?_
    have hpasses := passes_slice (h.holds hv) start stop
    rcases h.memory.slice (Registers.mem_values_of_get? hv) rfl (h.within hv) start stop with
      ⟨-, hresult⟩ | ⟨m, w, hresult, -, hsound, -⟩
    · rw [hresult] at hpasses ⊢
      exact passes_storeResult (fun u hu => by cases hu) hpasses
    · rw [hresult] at hpasses ⊢
      refine passes_storeResult (fun u hu => ?_) hpasses
      cases hu
      exact hsound
  | get name index => exact passes_on fun v _ => passes_answer (passes_get _ v index)
  | set name index a =>
    refine passes_on fun v _ => passes_answer ?_
    rw [inHand_zero]
    exact (passes_make s.memory 1).trans (passes_set (s.make 1).memory v index a)
  | push name a =>
    refine passes_on fun v hv => passes_update ?_
    exact (passes_make s.memory 1).trans (passes_push ((h.make 1).holds hv) a)
  | pushMany name values =>
    refine passes_on fun v hv => ?_
    have hpasses := passes_pushEach (h.apart hv) values
    dsimp only
    split <;> exact hpasses
  | append name source =>
    refine passes_onBoth fun v u hv hu => ?_
    split
    · rename_i heq
      subst heq
      cases hv.symm.trans hu
      exact passes_update (h.passes_appendSelf hv)
    · exact passes_update (passes_append (h.holds hv) u)
  | extend name values =>
    refine passes_on fun v hv => passes_update ?_
    have hmake := h.make values.length
    have hextend := (passes_make s.memory values.length).trans
      (passes_extend (hmake.holds hv) values)
    exact (hextend.trans (passes_noteDrop _ values.length)).of_eq (by omega)
  | reserve name additional =>
    exact passes_on fun v hv => passes_update (passes_reserve (h.holds hv) additional)
  | copyFrom name source =>
    refine passes_onBoth fun v u _ _ => passes_answer ?_
    rw [inHand_zero]
    exact passes_copyFrom s.memory v u
  | toList name => exact passes_on fun v _ => passes_answer (passes_toList _ v)
  | iterate name count =>
    refine passes_on fun v hv => ?_
    obtain ⟨change, turns, hturns⟩ := iterate_ok (h.within hv) count (Nat.zero_le _)
    rw [hturns]
    exact passes_answer (passes_iterate hturns)
  | equal a b =>
    refine passes_onBoth fun v u _ _ => passes_answer ?_
    rw [inHand_zero]
    exact passes_equal s.memory v u
  | sharesStore a b => exact passes_onBoth fun v u _ _ => Passes.refl _
  | debug name => exact passes_on fun v _ => passes_answer (passes_toList _ v)
  | info name => exact passes_on fun v _ => Passes.refl _

/-! ## A run -/

theorem run_loose (grants : Nat → Bool) {ops : List (Op α)} (hfits : ∀ op ∈ ops, op.Fits) :
    (run grants ops).memory.loose = 0 :=
  run_induct (P := fun s => s.memory.loose = 0) grants hfits rfl fun _ _ h hop hs =>
    (h.passes_apply hop).loose_eq.trans (by rw [hs]; rfl)

/-- In any state that a run reaches, failed operations included, the number of holders of a
view is the number of views on its store.  An operation frees exactly the stores that had
views before and have none after it, and no later view is on a freed store.  The instances
of elements that exist are as many as the slots of the stores that are held, so there are
none once all views are gone. -/
theorem instances_fill_held_stores (grants : Nat → Bool) {ops : List (Op α)}
    (hfits : ∀ op ∈ ops, op.Fits) :
    let s := run grants ops
    (∀ v : Window, s.memory.holders v = v.store.elim 0 s.viewers) ∧
    (∀ op : Op α, op.Fits →
      let s' := (s.apply op).1
      (∀ i, s.memory.stores.isLive i = true ∧ s'.memory.stores.isLive i = false ↔
        0 < s.viewers i ∧ s'.viewers i = 0) ∧
      ∀ i < s.memory.stores.size, s.memory.stores.isLive i = false → s'.viewers i = 0) ∧
    s.memory.ledger.live = s.memory.stored ∧
    (s.views.values = [] → s.memory.ledger.live = 0) ∧
    s.close.memory.ledger.live = 0 := by
  intro s
  have h : s.Sound := run_sound grants hfits
  have hloose : s.memory.loose = 0 := run_loose grants hfits
  have hlive : s.memory.ledger.live = s.memory.stored := by
    rw [loose] at hloose
    omega
  refine ⟨fun v => ?_, fun op hop => ⟨fun i => ?_, fun i hi hfreed => ?_⟩, hlive,
    fun hgone => ?_, ?_⟩
  · unfold holders
    cases v.store with
    | none => rfl
    | some i => exact h.count_eq i
  · rw [Heap.isLive_iff, isLive_eq_false_iff, h.count_eq, (apply_advances h hop).sound.count_eq]
  · rw [isLive_eq_false_iff] at hfreed
    rw [← (apply_advances h hop).sound.count_eq]
    exact (h.passes_apply hop).freed i hi hfreed
  · have hsound := h.memory
    rw [hgone] at hsound
    rw [hlive, hsound.stored_eq_zero]
    rfl
  · obtain ⟨hsound, hpasses⟩ := h.memory.dropAll
    have hclosed : s.close.memory.loose = 0 := hpasses.loose_eq.trans (by omega)
    have hempty : s.close.memory.stored = 0 := hsound.stored_eq_zero
    rw [loose] at hclosed
    omega

/-- A clone of three elements keeps their store when the first view grows.  The eight slots
of the new store and the three of the old one are all the instances there are; letting go
of the clone frees the old store. -/
theorem instances_fill_held_stores_grown :
    let ops : List (Op Int) := [.ofList "a" [1, 2, 3], .clone "b" "a", .push "a" 4, .set "a" 9 0]
    let s := run (· < 100) ops
    (∀ op ∈ ops, op.Fits) ∧ s.memory.holders ⟨some 0, 0, 3, 3⟩ = 1 ∧
      s.memory.ledger.live = 11 ∧
      (s.memory.stores.isLive 0 = true ∧
        (s.apply (.drop "b")).1.memory.stores.isLive 0 = false) ∧
      s.close.memory.ledger.live = 0 := by
  intro ops s
  have hfits : ∀ op ∈ ops, op.Fits := by simp [ops, Op.Fits, sizeLimit]
  obtain ⟨hholders, hfreed, hlive, -, hclose⟩ := instances_fill_held_stores (· < 100) hfits
  refine ⟨hfits, (hholders _).trans (by decide +kernel),
    hlive.trans (by decide +kernel), ?_, hclose⟩
  exact ((hfreed (.drop "b") trivial).1 0).mpr (by decide +kernel)

end Session

end Substrate.View
