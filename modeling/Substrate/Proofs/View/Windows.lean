import Substrate.Proofs.Ownership.Balance
import Substrate.View.Memory

/-!
# Windows within their stores

`Memory.Within` says that a view lies within its store: its length within its
capacity, and its capacity, counted from the cursor on, within the slots of the
store.  A view without a store has no slots, so it is empty and starts at 0.
`Memory.Sound` adds the counting equation of the stores.

There are three groups of facts.

* Writing: `Memory.Wrote` says that a block of values stands over the slots of
  one store and that nothing else changed.
* New views: one more view of a store, a view let go of, a new store.
* Reading: a position below the capacity has a slot, and reading a view gives
  its contents.
-/

namespace Substrate.View

open Ownership (Heap Holder)

/-- A list with a block of values written over it from `start` on. -/
def overwrite {α : Type} : List α → Nat → List α → List α
  | l, _, [] => l
  | l, start, a :: rest => overwrite (l.set start a) (start + 1) rest

@[simp] theorem length_overwrite {α : Type} (l : List α) (start : Nat) (values : List α) :
    (overwrite l start values).length = l.length := by
  induction values generalizing l start with
  | nil => rfl
  | cons a rest ih => simp [overwrite, ih]

theorem getElem?_overwrite {α : Type} (l : List α) (start : Nat) (values : List α)
    (hfit : start + values.length ≤ l.length) (k : Nat) :
    (overwrite l start values)[k]? =
      if start ≤ k ∧ k < start + values.length then values[k - start]? else l[k]? := by
  induction values generalizing l start with
  | nil =>
    rw [overwrite, if_neg (by rw [List.length_nil]; omega)]
  | cons a rest ih =>
    rw [List.length_cons] at hfit
    rw [overwrite, ih _ _ (by rw [List.length_set]; omega), List.getElem?_set, List.length_cons]
    by_cases hk : start = k
    · subst hk
      rw [if_neg (by omega), if_pos rfl, if_pos (by omega), if_pos (by omega), Nat.sub_self]
      rfl
    · rw [if_neg hk]
      by_cases hin : start + 1 ≤ k ∧ k < start + 1 + rest.length
      · rw [if_pos hin, if_pos (by omega), show k - start = (k - (start + 1)) + 1 by omega]
        rfl
      · rw [if_neg hin, if_neg (by omega)]

namespace Memory

variable {α : Type}

/-! ## Views and stores -/

/-- The slots of the store of a view; none for a view that never had a store. -/
def slots (m : Memory α) (v : Window) : List α :=
  match v.store with
  | some i => m.stores.payload i
  | none => []

theorem slots_of_store {m : Memory α} {v : Window} {i : Nat} (h : v.store = some i) :
    m.slots v = m.stores.payload i := by
  rw [slots, h]

theorem slots_congr {m m' : Memory α} {v : Window}
    (h : ∀ k, v.store = some k → m'.stores.payload k = m.stores.payload k) :
    m'.slots v = m.slots v := by
  unfold slots
  cases hs : v.store with
  | none => rfl
  | some k => exact h k hs

theorem contents_eq (m : Memory α) (v : Window) :
    m.contents v = ((m.slots v).drop v.cursor).take v.length := by
  unfold contents slots
  cases v.store <;> simp

theorem contents_congr {m m' : Memory α} {v : Window}
    (h : ∀ k, v.store = some k → m'.stores.payload k = m.stores.payload k) :
    m'.contents v = m.contents v := by
  rw [contents_eq, contents_eq, slots_congr h]

/-- A view lies within its store, and the store is no larger than a store can be. -/
structure Within (m : Memory α) (v : Window) : Prop where
  length_le : v.length ≤ v.capacity
  reach_le : v.cursor + v.capacity ≤ (m.slots v).length
  size_le : (m.slots v).length ≤ sizeLimit

/-- The counts are exact for the views held, and each of them lies within its store. -/
structure Sound (m : Memory α) (held : List Window) : Prop where
  balanced : m.stores.Balanced (held.filterMap Window.store)
  within : ∀ v ∈ held, m.Within v

section

variable {m m' : Memory α} {v u : Window} {held rest : List Window}

theorem Within.length_contents (h : m.Within v) : (m.contents v).length = v.length := by
  have := h.length_le
  have := h.reach_le
  rw [contents_eq, List.length_take, List.length_drop]
  omega

theorem getElem?_contents {i : Nat} (hi : i < v.length) :
    (m.contents v)[i]? = (m.slots v)[v.cursor + i]? := by
  rw [contents_eq, List.getElem?_take_of_lt hi, List.getElem?_drop]

theorem Within.congr (h : m.Within v) (hslots : (m'.slots v).length = (m.slots v).length) :
    m'.Within v :=
  ⟨h.length_le, hslots ▸ h.reach_le, hslots ▸ h.size_le⟩

/-- A view with less room on the same store. -/
theorem Within.narrow (h : m.Within v) (hstore : u.store = v.store)
    (hlength : u.length ≤ u.capacity)
    (hreach : u.cursor + u.capacity ≤ v.cursor + v.capacity) : m.Within u := by
  have hslots : m.slots u = m.slots v := by rw [slots, slots, hstore]
  refine ⟨hlength, ?_, hslots ▸ h.size_le⟩
  rw [hslots]
  exact Nat.le_trans hreach h.reach_le

theorem Within.empty (m : Memory α) : m.Within .empty :=
  ⟨Nat.le_refl _, Nat.le_refl _, Nat.zero_le _⟩

theorem filterMap_store_cons (v : Window) (l : List Window) :
    (v :: l).filterMap Window.store = v.store.toList ++ l.filterMap Window.store := by
  rw [List.filterMap_cons]
  cases v.store <;> rfl

theorem Sound.perm (h : m.Sound held) (hp : held.Perm rest) : m.Sound rest :=
  ⟨h.balanced.perm (hp.filterMap _), fun v hv => h.within v (hp.mem_iff.mpr hv)⟩

theorem Sound.live (h : m.Sound held) (hv : v ∈ held) {i : Nat} (hi : v.store = some i) :
    0 < m.stores.count i :=
  h.balanced.live_of_mem (List.mem_filterMap.mpr ⟨v, hv, hi⟩)

/-- A view lies in a store that is held: its length within its capacity and its capacity
within the store.  A view without a store is empty and starts at 0. -/
def Placed (m : Memory α) (v : Window) : Prop :=
  match v.store with
  | some i => 0 < m.stores.count i ∧ v.length ≤ v.capacity ∧
      v.cursor + v.capacity ≤ (m.stores.payload i).length
  | none => v.cursor = 0 ∧ v.length = 0 ∧ v.capacity = 0

theorem Sound.placed (h : m.Sound held) (hv : v ∈ held) : m.Placed v := by
  have hwithin := h.within v hv
  have hlength := hwithin.length_le
  have hreach := hwithin.reach_le
  unfold Placed
  cases hs : v.store with
  | none =>
    rw [slots, hs] at hreach
    simp only [List.length_nil] at hreach
    dsimp only
    omega
  | some i =>
    rw [slots_of_store hs] at hreach
    exact ⟨h.live hv hs, hlength, hreach⟩

theorem Sound.lt_size (h : m.Sound held) (hv : v ∈ held) {i : Nat} (hi : v.store = some i) :
    i < m.stores.size :=
  h.balanced.lt_size (h.live hv hi)

/-- Slots hold elements and no cells, so the count of a store is the number of views. -/
theorem heldBy_eq_zero (stores : Heap (List α)) (i : Nat) : stores.heldBy i = 0 := by
  simp [Heap.heldBy, Holder.held]

/-- `m'` has the stores of `m` with as many holders and slots each. -/
structure SameShape (m m' : Memory α) : Prop where
  size_eq : m'.stores.size = m.stores.size
  count_eq : ∀ k, m'.stores.count k = m.stores.count k
  length_eq : ∀ k, (m'.stores.payload k).length = (m.stores.payload k).length
  grants_eq : m'.grants = m.grants

theorem SameShape.note (m : Memory α) (change : Ledger → Ledger) : SameShape m (m.note change) :=
  ⟨rfl, fun _ => rfl, fun _ => rfl, rfl⟩

theorem SameShape.length_slots (h : SameShape m m') (v : Window) :
    (m'.slots v).length = (m.slots v).length := by
  unfold slots
  cases v.store with
  | none => rfl
  | some i => exact h.length_eq i

theorem Within.of_sameShape (h : m.Within v) (hs : SameShape m m') : m'.Within v :=
  h.congr (hs.length_slots v)

theorem Sound.of_sameShape (h : m.Sound held) (hs : SameShape m m') : m'.Sound held := by
  refine ⟨⟨fun i => ?_, fun i hi => ?_⟩, fun v hv => (h.within v hv).of_sameShape hs⟩
  · rw [hs.count_eq, h.balanced.counts i, heldBy_eq_zero, heldBy_eq_zero]
  · rw [hs.count_eq]
    exact h.balanced.unmade i (hs.size_eq ▸ hi)

/-! ## Writing -/

/-- The values stand over the slots of the store of `v` from position `pos` of `v` on;
nothing else changed. -/
structure Wrote (m m' : Memory α) (v : Window) (pos : Nat) (values : List α) : Prop where
  size_eq : m'.stores.size = m.stores.size
  count_eq : ∀ k, m'.stores.count k = m.stores.count k
  payload_eq : ∀ k, m'.stores.payload k =
    if v.store = some k then overwrite (m.stores.payload k) (v.cursor + pos) values
    else m.stores.payload k
  grants_eq : m'.grants = m.grants

theorem Wrote.sameShape {pos : Nat} {values : List α} (h : Wrote m m' v pos values) :
    SameShape m m' := by
  refine ⟨h.size_eq, h.count_eq, fun k => ?_, h.grants_eq⟩
  rw [h.payload_eq]
  split
  · exact length_overwrite _ _ _
  · rfl

/-- Nothing was written. -/
theorem Wrote.nil (change : Ledger → Ledger) (v : Window) (pos : Nat) :
    Wrote m (m.note change) v pos [] :=
  ⟨rfl, fun _ => rfl, fun k => by simp [overwrite, note], rfl⟩

theorem Wrote.note {pos : Nat} {values : List α} (h : Wrote m m' v pos values)
    (change : Ledger → Ledger) : Wrote m (m'.note change) v pos values :=
  ⟨h.size_eq, h.count_eq, h.payload_eq, h.grants_eq⟩

/-- Writing after nothing was written. -/
theorem Wrote.after {m'' : Memory α} {pos pos' : Nat} {values : List α} (h : Wrote m m' v pos [])
    (h' : Wrote m' m'' v pos' values) : Wrote m m'' v pos' values := by
  refine ⟨h'.size_eq.trans h.size_eq, fun k => (h'.count_eq k).trans (h.count_eq k), fun k => ?_,
    h'.grants_eq.trans h.grants_eq⟩
  rw [h'.payload_eq, h.payload_eq]
  split <;> rfl

/-- A block behind another is one block. -/
theorem Wrote.cons {m'' : Memory α} {pos : Nat} {a : α} {values : List α} (h : Wrote m m' v pos [a])
    (h' : Wrote m' m'' v (pos + 1) values) : Wrote m m'' v pos (a :: values) := by
  refine ⟨h'.size_eq.trans h.size_eq, fun k => (h'.count_eq k).trans (h.count_eq k), fun k => ?_,
    h'.grants_eq.trans h.grants_eq⟩
  rw [h'.payload_eq, h.payload_eq]
  split <;> rfl

/-- What a view shows after a block was written through a view of its store. -/
theorem getElem?_contents_overwritten {pos : Nat} {values : List α}
    (hpayload : ∀ k, v.store = some k →
      m'.stores.payload k = overwrite (m.stores.payload k) (v.cursor + pos) values)
    (hv : m.Within v) (hfit : pos + values.length ≤ v.capacity) (hu : m.Within u)
    (hstore : u.store = v.store) {i : Nat} (hi : i < u.length) :
    (m'.contents u)[i]? =
      if v.cursor + pos ≤ u.cursor + i ∧ u.cursor + i < v.cursor + pos + values.length then
        values[u.cursor + i - (v.cursor + pos)]?
      else (m.contents u)[i]? := by
  rw [getElem?_contents hi, getElem?_contents hi]
  cases hs : u.store with
  | none =>
    have := hu.length_le
    have := hu.reach_le
    rw [slots, hs] at this
    simp only [List.length_nil] at this
    omega
  | some k =>
    have hvs : v.store = some k := hstore ▸ hs
    have hreach := hv.reach_le
    rw [slots_of_store hvs] at hreach
    rw [slots_of_store hs, slots_of_store hs, hpayload k hvs, getElem?_overwrite _ _ _ (by omega)]

theorem Wrote.contents_getElem? {pos : Nat} {values : List α} (h : Wrote m m' v pos values)
    (hv : m.Within v) (hfit : pos + values.length ≤ v.capacity) {i : Nat} (hi : i < v.length) :
    (m'.contents v)[i]? =
      if v.cursor + pos ≤ v.cursor + i ∧ v.cursor + i < v.cursor + pos + values.length then
        values[v.cursor + i - (v.cursor + pos)]?
      else (m.contents v)[i]? :=
  getElem?_contents_overwritten (fun k hk => (h.payload_eq k).trans (if_pos hk)) hv hfit hv rfl hi

/-- A view of another store shows what it showed. -/
theorem Wrote.contents_of_ne {pos : Nat} {values : List α} (h : Wrote m m' v pos values)
    (hstore : ∀ k, v.store = some k → u.store ≠ some k) : m'.contents u = m.contents u := by
  refine contents_congr fun k hk => ?_
  rw [h.payload_eq, if_neg fun hv => hstore k hv hk]

end

/-! ## Positions -/

section

variable {m m' : Memory α} {v u : Window} {held rest : List Window}

/-- A position below the capacity has a slot. -/
theorem Within.locate (h : m.Within v) {pos : Nat} (hpos : pos < v.capacity) :
    ∃ i, v.store = some i ∧ m.locate v pos = .ok (i, v.cursor + pos) := by
  have hreach := h.reach_le
  have hsize := h.size_le
  cases hs : v.store with
  | none =>
    rw [slots, hs] at hreach
    simp only [List.length_nil] at hreach
    omega
  | some i =>
    rw [slots_of_store hs] at hreach hsize
    refine ⟨i, rfl, ?_⟩
    simp only [Memory.locate, hs]
    rw [if_neg (by omega), if_neg (by omega)]

theorem checkIndex_ok {index : Int} (h0 : 0 ≤ index) (hlt : index < v.length) :
    v.checkIndex index = .ok index.toNat := by
  rw [Window.checkIndex, if_neg (by omega)]

theorem checkIndex_error {index : Int} (h : index < 0 ∨ (v.length : Int) ≤ index) :
    v.checkIndex index = .error (.fault (.indexOutOfRange index v.length)) := by
  rw [Window.checkIndex, if_pos h]

theorem Within.moveTo (h : m.Within v) {pos : Nat} (hpos : pos < v.capacity) (a : α) :
    ∃ m', m.moveTo v pos a = (m', .ok ()) ∧ Wrote m m' v pos [a] := by
  obtain ⟨i, hs, hloc⟩ := h.locate hpos
  refine ⟨(m.poke i (v.cursor + pos) a).note (·.drop 1), by rw [Memory.moveTo, hloc], ?_⟩
  refine ⟨rfl, fun k => Heap.count_setPayload _ _ _ _, fun k => ?_, rfl⟩
  show (m.stores.setPayload i _).payload k = _
  rw [Heap.payload_setPayload, hs]
  by_cases hk : k = i
  · subst hk
    simp [overwrite]
  · rw [if_neg hk, if_neg (by simpa using fun h => hk h.symm)]

theorem Within.moveAll (h : m.Within v) (pos : Nat) (values : List α)
    (hfit : pos + values.length ≤ v.capacity) :
    ∃ m', m.moveAll v pos values = (m', .ok ()) ∧ Wrote m m' v pos values := by
  induction values generalizing m pos with
  | nil => exact ⟨m, rfl, Wrote.nil id v pos⟩
  | cons a rest ih =>
    rw [List.length_cons] at hfit
    obtain ⟨m₁, hmove, hwrote⟩ := h.moveTo (show pos < v.capacity by omega) a
    obtain ⟨m', hrest, hwrotes⟩ := ih (h.of_sameShape hwrote.sameShape) (pos + 1) (by omega)
    refine ⟨m', ?_, hwrote.cons hwrotes⟩
    rw [Memory.moveAll, hmove]
    exact hrest

/-! ## New views -/

theorem payload_retain (m : Memory α) (v : Window) (k : Nat) :
    (m.retain v).stores.payload k = m.stores.payload k := by
  show (m.stores.retain? v.store).payload k = _
  cases v.store with
  | none => rfl
  | some i => exact Heap.payload_setCount _ _ _ _

theorem size_retain (m : Memory α) (v : Window) : (m.retain v).stores.size = m.stores.size := by
  show (m.stores.retain? v.store).size = _
  cases v.store <;> rfl

/-- One more view of a store that is held. -/
theorem Sound.retain {w : Window} (h : m.Sound held) (hw : w ∈ held) (hv : v.store = w.store)
    (hstore : u.store = v.store) (hu : m.Within u) : (m.retain v).Sound (u :: held) := by
  have hslots : ∀ w : Window, (m.retain v).slots w = m.slots w :=
    fun w => slots_congr fun k _ => payload_retain m v k
  refine ⟨?_, ?_⟩
  · rw [filterMap_store_cons, hstore]
    exact h.balanced.retain? fun i hi => h.live hw (hv ▸ hi)
  · intro w hw
    rcases List.mem_cons.mp hw with rfl | hw
    · exact hu.congr (by rw [hslots])
    · exact (h.within w hw).congr (by rw [hslots])

theorem Sound.empty (h : m.Sound held) : m.Sound (.empty :: held) := by
  refine ⟨h.balanced, fun w hw => ?_⟩
  rcases List.mem_cons.mp hw with rfl | hw
  · exact Within.empty m
  · exact h.within w hw

/-- What cutting a window out of a view comes to: the bounds are refused, or there is one
more view of the same store.  The view itself may be one that nothing keeps, like another
one that is held but with less room. -/
theorem Sound.slice (h : m.Sound held) (hu : u ∈ held) (hstore : v.store = u.store)
    (hv : m.Within v) (start stop : Int) :
    (start < 0 ∨ stop < start ∨ (v.capacity : Int) < stop) ∧
        m.slice v start stop =
          (m, .error (.fault (.slicingOutOfRange start stop v.capacity))) ∨
      ∃ m' w, m.slice v start stop = (m', .ok w) ∧ w.length ≤ w.capacity ∧
        m'.Sound (w :: held) ∧ m'.grants = m.grants := by
  have hreach := hv.reach_le
  have hsize := hv.size_le
  unfold Memory.slice
  split
  · rename_i hbounds
    exact .inl ⟨hbounds, rfl⟩
  · rename_i hbounds
    refine .inr ?_
    rw [if_neg (by omega)]
    have hlength : (stop - start).toNat ≤ v.capacity - start.toNat := by omega
    refine ⟨_, _, rfl, hlength, h.retain hu hstore rfl (hv.narrow rfl hlength ?_), rfl⟩
    show v.cursor + start.toNat + (v.capacity - start.toNat) ≤ v.cursor + v.capacity
    omega

/-- What letting go of a view leaves. -/
structure Dropped (m m' : Memory α) : Prop where
  size_eq : m'.stores.size = m.stores.size
  payload_eq : ∀ k, m'.stores.payload k = m.stores.payload k
  grants_eq : m'.grants = m.grants

theorem Sound.drop (h : m.Sound (v :: held)) : (m.drop v).Sound held ∧ Dropped m (m.drop v) := by
  have hb := h.balanced
  rw [filterMap_store_cons] at hb
  have hr := hb.release?
  refine ⟨⟨hr.balanced, fun w hw => ?_⟩, ⟨hr.size_eq, hr.payload_eq, rfl⟩⟩
  have hslots : (m.drop v).slots w = m.slots w := slots_congr fun k _ => hr.payload_eq k
  exact (h.within w (List.mem_cons_of_mem _ hw)).congr (by rw [hslots])

/-- `m'` has one more store, which `u` shows; the others are as they were. -/
structure Made (m m' : Memory α) (u : Window) (slots : List α) : Prop where
  store_eq : u.store = some m.stores.size
  size_eq : m'.stores.size = m.stores.size + 1
  payload_eq : ∀ k, m'.stores.payload k =
    if k = m.stores.size then slots else m.stores.payload k
  count_eq : ∀ k, m'.stores.count k = if k = m.stores.size then 1 else m.stores.count k
  grants_eq : m'.grants = m.grants

theorem made_newStore (m : Memory α) (slots : List α) (length : Nat) :
    Made m (m.newStore slots length).1 (m.newStore slots length).2 slots :=
  ⟨rfl, rfl, Heap.payload_make m.stores slots, Heap.count_make m.stores slots, rfl⟩

theorem Made.slots_eq {slots : List α} (h : Made m m' u slots) : m'.slots u = slots := by
  rw [slots_of_store h.store_eq, h.payload_eq, if_pos rfl]

theorem Made.slots_of_held {slots : List α} (h : Made m m' u slots) (hs : m.Sound held)
    {w : Window} (hw : w ∈ held) : m'.slots w = m.slots w := by
  refine slots_congr fun k hk => ?_
  have := hs.lt_size hw hk
  rw [h.payload_eq, if_neg (by omega)]

theorem Made.sound {slots : List α} (h : Made m m' u slots) (hs : m.Sound held)
    (hu : m'.Within u) : m'.Sound (u :: held) := by
  refine ⟨⟨fun i => ?_, fun i hi => ?_⟩, fun w hw => ?_⟩
  · have hcount := hs.balanced.counts i
    rw [heldBy_eq_zero] at hcount
    rw [h.count_eq, heldBy_eq_zero, filterMap_store_cons, h.store_eq, Option.toList_some,
      List.singleton_append, List.count_cons]
    by_cases hi : i = m.stores.size
    · have := hs.balanced.unmade i (by omega)
      rw [if_pos hi, if_pos (by simp [hi])]
      omega
    · rw [if_neg hi, if_neg (by simpa using fun h => hi h.symm)]
      omega
  · rw [h.size_eq] at hi
    rw [h.count_eq, if_neg (by omega)]
    exact hs.balanced.unmade i (by omega)
  · rcases List.mem_cons.mp hw with rfl | hw
    · exact hu
    · exact (hs.within w hw).congr (by rw [h.slots_of_held hs hw])

end

/-! ## Reading -/

section

variable [Element α] {m m' : Memory α} {v u : Window} {held rest : List Window}

theorem Within.cloneAt (h : m.Within v) {pos : Nat} (hpos : pos < v.capacity) :
    m.cloneAt v pos =
      (m.note (·.clone 1), .ok ((m.slots v).getD (v.cursor + pos) Element.blank)) := by
  obtain ⟨i, hs, hloc⟩ := h.locate hpos
  rw [Memory.cloneAt, hloc, slots_of_store hs]
  rfl

theorem get_eq_cloneAt {i : Nat} (hi : i < v.length) : m.get v i = m.cloneAt v i := by
  rw [Memory.get, checkIndex_ok (by omega) (by omega)]
  rfl

/-- An index in range gives the element there. -/
theorem Within.get (h : m.Within v) {i : Nat} (hi : i < v.length) :
    ∃ a, (m.contents v)[i]? = some a ∧ m.get v i = (m.note (·.clone 1), .ok a) := by
  have hlength := h.length_le
  have hreach := h.reach_le
  refine ⟨(m.slots v).getD (v.cursor + i) Element.blank, ?_, ?_⟩
  · rw [getElem?_contents hi, List.getD_eq_getElem?_getD,
      List.getElem?_eq_getElem (show v.cursor + i < (m.slots v).length by omega)]
    rfl
  · rw [get_eq_cloneAt hi]
    exact h.cloneAt (by omega)

theorem get_error {index : Int} (h : index < 0 ∨ (v.length : Int) ≤ index) :
    m.get v index = (m, .error (.fault (.indexOutOfRange index v.length))) := by
  rw [Memory.get, checkIndex_error h]

omit [Element α] in
theorem contents_drop {pos : Nat} {a : α} (ha : (m.contents v)[pos]? = some a) :
    (m.contents v).drop pos = a :: (m.contents v).drop (pos + 1) := by
  obtain ⟨hlt, rfl⟩ := List.getElem?_eq_some_iff.mp ha
  exact List.drop_eq_getElem_cons hlt

/-- Elements cloned one after the other are the contents from there on. -/
theorem Within.gather_clone (h : m.Within v) (count pos : Nat) (hfit : pos + count ≤ v.length) :
    ∃ change, gather (fun m pos => m.cloneAt v pos) m pos count =
      (m.note change, .ok (((m.contents v).drop pos).take count)) := by
  induction count generalizing m pos with
  | zero => exact ⟨id, by rw [gather, List.take_zero]; rfl⟩
  | succ count ih =>
    obtain ⟨a, ha, hget⟩ := h.get (show pos < v.length by omega)
    rw [get_eq_cloneAt (show pos < v.length by omega)] at hget
    have hnoted : (m.note (·.clone 1)).Within v := ⟨h.length_le, h.reach_le, h.size_le⟩
    obtain ⟨change, hrest⟩ := ih hnoted (pos + 1) (by omega)
    refine ⟨change ∘ (·.clone 1), ?_⟩
    rw [gather, hget, contents_drop ha, List.take_succ_cons]
    dsimp only
    rw [hrest]
    rfl

theorem gather_get {count pos : Nat} (hfit : pos + count ≤ v.length) :
    gather (fun m pos => m.get v pos) m pos count =
      gather (fun m pos => m.cloneAt v pos) m pos count := by
  induction count generalizing m pos with
  | zero => rfl
  | succ count ih =>
    rw [gather, gather, get_eq_cloneAt (show pos < v.length by omega)]
    split
    · rfl
    · rw [ih (by omega)]

theorem Within.toList (h : m.Within v) :
    ∃ change, m.toList v = (m.note change, .ok (m.contents v)) := by
  obtain ⟨change, hall⟩ := h.gather_clone v.length 0 (by omega)
  refine ⟨change, ?_⟩
  rw [Memory.toList, gather_get (by omega), hall, List.drop_zero,
    List.take_of_length_le (Nat.le_of_eq h.length_contents)]

/-- An overlapping source is read as it was before the first write. -/
theorem Within.copyFrom (h : m.Within v) (hu : m.Within u) :
    ∃ m', m.copyFrom v u = (m', .ok (min v.length u.length)) ∧
      Wrote m m' v 0 ((m.contents u).take v.length) := by
  have hlength := h.length_le
  obtain ⟨change, hread⟩ := hu.gather_clone (min v.length u.length) 0 (by omega)
  have htake : ((m.contents u).drop 0).take (min v.length u.length) =
      (m.contents u).take v.length := by
    rw [List.drop_zero, ← List.take_take, List.take_of_length_le (i := u.length)]
    exact Nat.le_of_eq hu.length_contents
  rw [htake] at hread
  have hnoted : (m.note change).Within v := ⟨h.length_le, h.reach_le, h.size_le⟩
  obtain ⟨m', hmove, hwrote⟩ := hnoted.moveAll 0 ((m.contents u).take v.length)
    (by rw [List.length_take]; omega)
  refine ⟨m', ?_, (Wrote.nil change v 0).after hwrote⟩
  rw [Memory.copyFrom, gather_get (by omega), hread]
  dsimp only
  rw [hmove]

end

end Memory

end Substrate.View
