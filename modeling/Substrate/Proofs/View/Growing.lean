import Substrate.Proofs.View.Windows

/-!
# Growing

What the operations come to that need room behind the last element.  A view
that has the room writes in place; one that has not moves to a store of its
own first.  `Memory.Grown` says that a view moved there with its contents and
that every store still held is as it was, also where the elements were taken
out of the old store, because then nobody holds it.

`Memory.Added` is the one outcome that reserving, pushing, extending and
appending share, and `NoRoom` lists the three ways in which there can be no
room.  `Memory.Allotted` is the outcome of a new view.
-/

namespace Substrate.View

open Ownership (Heap)

/-- The bytes a store of that capacity takes. -/
def bytesFor (α : Type) [Element α] (capacity : Nat) : Nat :=
  min (capacity * Element.width α) sizeLimit

namespace Memory

section

variable {α : Type} {m m' : Memory α} {v u : Window} {rest : List Window}

/-- `u` is `v` moved to a store of its own.  The stores still held are as they were: the
old store of `v` is among them only if other views hold it, and then its elements were
cloned. -/
structure Grown (m m' : Memory α) (v u : Window) (capacity : Nat) : Prop where
  store_eq : u.store = some m.stores.size
  cursor_eq : u.cursor = 0
  length_eq : u.length = v.length
  capacity_eq : u.capacity = capacity
  contents_eq : m'.contents u = m.contents v
  size_eq : m'.stores.size = m.stores.size + 1
  kept : ∀ k, k < m.stores.size → 0 < m'.stores.count k →
    m'.stores.payload k = m.stores.payload k
  grants_eq : m'.grants = m.grants

/-- The view that was grown to has the room that was asked for. -/
theorem Grown.room {room : Nat} (h : Grown m m' v u (2 * (v.length + room))) :
    u.length + room ≤ u.capacity := by
  rw [h.length_eq, h.capacity_eq]
  omega

/-- The views that did not move show what they showed. -/
theorem Grown.contents_of_held {capacity : Nat} (hgrown : Grown m m' v u capacity)
    (h : m.Sound (v :: rest)) (h' : m'.Sound (u :: rest)) {w : Window} (hw : w ∈ rest) :
    m'.contents w = m.contents w :=
  contents_congr fun k hk => hgrown.kept k (h.lt_size (List.mem_cons_of_mem _ hw) hk)
    (h'.live (List.mem_cons_of_mem _ hw) hk)

/-- What follows an addition in a store of its own is not seen by the others. -/
theorem Grown.contents_of_wrote {capacity : Nat} {m'' : Memory α} {pos : Nat} {values : List α}
    (hgrown : Grown m m' v u capacity) (h : m.Sound (v :: rest)) (h' : m'.Sound (u :: rest))
    (hwrote : Wrote m' m'' u pos values) {w : Window} (hw : w ∈ rest) :
    m''.contents w = m.contents w := by
  rw [hwrote.contents_of_ne, hgrown.contents_of_held h h' hw]
  intro k hu hk
  have := h.lt_size (List.mem_cons_of_mem _ hw) hk
  have : some k = some m.stores.size := hu.symm.trans hgrown.store_eq
  cases this
  omega

theorem Within.pushWithin (h : m.Within v) (hroom : v.length < v.capacity) (a : α) :
    ∃ m', m.pushWithin v a = (m', .ok { v with length := v.length + 1 }) ∧
      Wrote m m' v v.length [a] := by
  obtain ⟨m', hmove, hwrote⟩ := h.moveTo hroom a
  exact ⟨m', by rw [Memory.pushWithin, hmove], hwrote⟩

theorem Within.lengthen (h : m.Within v) {n : Nat} (hroom : v.length + n ≤ v.capacity) :
    m.Within { v with length := v.length + n } :=
  ⟨hroom, h.reach_le, h.size_le⟩

/-- What a view shows once values were written behind its elements. -/
theorem Wrote.contents_lengthened {values : List α} (h : Wrote m m' v v.length values)
    (hv : m.Within v) (hroom : v.length + values.length ≤ v.capacity) :
    m'.contents { v with length := v.length + values.length } = m.contents v ++ values := by
  have hlong := hv.lengthen hroom
  have hlength := (hlong.of_sameShape h.sameShape).length_contents
  refine List.ext_getElem? fun i => ?_
  by_cases hi : i < v.length + values.length
  · rw [getElem?_contents_overwritten (fun k hk => (h.payload_eq k).trans (if_pos hk)) hv hroom
      hlong rfl hi]
    by_cases hold : i < v.length
    · rw [if_neg (by dsimp only; omega),
        List.getElem?_append_left (by rw [hv.length_contents]; omega),
        getElem?_contents hi, getElem?_contents hold]
      rfl
    · rw [if_pos (by dsimp only; omega),
        List.getElem?_append_right (by rw [hv.length_contents]; omega), hv.length_contents]
      congr 1
      dsimp only
      omega
  · rw [List.getElem?_eq_none (by rw [hlength]; dsimp only; omega),
      List.getElem?_eq_none (by rw [List.length_append, hv.length_contents]; omega)]

theorem Sound.lengthen (h : m.Sound (v :: rest)) {n : Nat}
    (hroom : v.length + n ≤ v.capacity) :
    m.Sound ({ v with length := v.length + n } :: rest) := by
  refine ⟨h.balanced, fun w hw => ?_⟩
  rcases List.mem_cons.mp hw with rfl | hw
  · exact (h.within v List.mem_cons_self).lengthen hroom
  · exact h.within w (List.mem_cons_of_mem _ hw)

/-- Pushing within the room one after the other writes one block, whatever each push
notes in the ledger before. -/
theorem Within.pushes (change : Ledger → Ledger)
    {add : Memory α → Window → List α → Memory α × Except Failure Window}
    (hnil : ∀ m v, add m v [] = (m, .ok v))
    (hcons : ∀ m v a rest m' u, (m.note change).pushWithin v a = (m', .ok u) →
      add m v (a :: rest) = add m' u rest)
    (h : m.Within v) (values : List α) (hroom : v.length + values.length ≤ v.capacity) :
    ∃ m', add m v values = (m', .ok { v with length := v.length + values.length }) ∧
      Wrote m m' v v.length values := by
  induction values generalizing m v with
  | nil => exact ⟨m, hnil m v, Wrote.nil id v v.length⟩
  | cons a rest ih =>
    rw [List.length_cons] at hroom
    have hnoted := h.of_sameShape (.note m change)
    obtain ⟨m₁, hpush, hwrote⟩ := hnoted.pushWithin (by omega) a
    have h₁ :=
      (hnoted.lengthen (show v.length + 1 ≤ v.capacity by omega)).of_sameShape hwrote.sameShape
    obtain ⟨m', hrest, hwrotes⟩ := ih h₁ (show v.length + 1 + rest.length ≤ v.capacity by omega)
    have hfirst : Wrote m m₁ v v.length [a] := (Wrote.nil change v 0).after hwrote
    refine ⟨m', ?_, hfirst.cons ?_⟩
    · rw [hcons m v a rest m₁ _ hpush, hrest, List.length_cons, Nat.add_right_comm, Nat.add_assoc]
    · exact ⟨hwrotes.size_eq, hwrotes.count_eq, hwrotes.payload_eq, hwrotes.grants_eq⟩

theorem Within.pushAllWithin (h : m.Within v) (values : List α)
    (hroom : v.length + values.length ≤ v.capacity) :
    ∃ m', m.pushAllWithin v values = (m', .ok { v with length := v.length + values.length }) ∧
      Wrote m m' v v.length values := by
  refine h.pushes id (fun _ _ => rfl) (fun m v a rest m' u hpush => ?_) values hroom
  rw [Memory.pushAllWithin, show m.pushWithin v a = (m', .ok u) from hpush]

theorem Within.pushClonesWithin (h : m.Within v) (values : List α)
    (hroom : v.length + values.length ≤ v.capacity) :
    ∃ m', m.pushClonesWithin v values = (m', .ok { v with length := v.length + values.length }) ∧
      Wrote m m' v v.length values := by
  refine h.pushes (·.clone 1) (fun _ _ => rfl) (fun m v a rest m' u hpush => ?_) values hroom
  rw [Memory.pushClonesWithin, hpush]

end

variable {α : Type} [Element α] {m m' : Memory α} {v u : Window} {held rest : List Window}

/-! ## Moving to a new store -/

/-- Taking an element out leaves a blank one. -/
theorem Within.takeAt (h : m.Within v) {pos : Nat} (hpos : pos < v.length) :
    ∃ a m', (m.contents v)[pos]? = some a ∧ m.takeAt v pos = (m', .ok a) ∧
      Wrote m m' v pos [Element.blank] := by
  have hlength := h.length_le
  have hreach := h.reach_le
  obtain ⟨i, hs, hloc⟩ := h.locate (show pos < v.capacity by omega)
  obtain ⟨m', hmove, hwrote⟩ := h.moveTo (show pos < v.capacity by omega) Element.blank
  rw [Memory.moveTo, hloc] at hmove
  obtain ⟨rfl, -⟩ := Prod.mk.inj hmove
  refine ⟨m.peek i (v.cursor + pos), _, ?_, by rw [Memory.takeAt, hloc], ?_⟩
  · rw [slots_of_store hs] at hreach
    rw [getElem?_contents hpos, slots_of_store hs, Memory.peek, List.getD_eq_getElem?_getD,
      List.getElem?_eq_getElem (by omega)]
    rfl
  · exact ⟨hwrote.size_eq, hwrote.count_eq, hwrote.payload_eq, hwrote.grants_eq⟩

/-- Elements taken out one after the other are the contents from there on. -/
theorem Within.gather_take (h : m.Within v) (count pos : Nat) (hfit : pos + count ≤ v.length) :
    ∃ m', gather (fun m pos => m.takeAt v pos) m pos count =
        (m', .ok (((m.contents v).drop pos).take count)) ∧
      Wrote m m' v pos (List.replicate count Element.blank) := by
  induction count generalizing m pos with
  | zero => exact ⟨m, by rw [gather, List.take_zero], Wrote.nil id v pos⟩
  | succ count ih =>
    have hlength := h.length_le
    obtain ⟨a, m₁, ha, htake, hwrote⟩ := h.takeAt (show pos < v.length by omega)
    have h₁ := h.of_sameShape hwrote.sameShape
    obtain ⟨m', hrest, hwrotes⟩ := ih h₁ (pos + 1) (by omega)
    -- the blank stands before the positions that are still to be taken
    have hlater : (m₁.contents v).drop (pos + 1) = (m.contents v).drop (pos + 1) := by
      refine List.ext_getElem? fun k => ?_
      rw [List.getElem?_drop, List.getElem?_drop]
      by_cases hk : pos + 1 + k < v.length
      · rw [hwrote.contents_getElem? h (by rw [List.length_singleton]; omega) hk,
          if_neg (by rw [List.length_singleton]; omega)]
      · rw [List.getElem?_eq_none (by rw [h₁.length_contents]; omega),
          List.getElem?_eq_none (by rw [h.length_contents]; omega)]
    refine ⟨m', ?_, hwrote.cons hwrotes⟩
    rw [gather, htake, contents_drop ha, List.take_succ_cons]
    dsimp only
    rw [hrest, hlater]

/-- `pick` gathers the elements of a view that is about to grow: its contents are read, and
its store changes only if no other view holds it. -/
def Gathers (pick : Memory α → Nat → Memory α × Except Failure α) (m : Memory α) (v : Window) :
    Prop :=
  ∃ m', gather pick m 0 v.length = (m', .ok (m.contents v)) ∧ SameShape m m' ∧
    ∀ k, (v.store = some k → m.stores.count k ≠ 1) → m'.stores.payload k = m.stores.payload k

/-- The elements may be taken out if nobody else holds their store. -/
theorem Within.gathers_take (h : m.Within v) (hone : m.holders v = 1) :
    Gathers (fun m pos => m.takeAt v pos) m v := by
  obtain ⟨m', hgather, hwrote⟩ := h.gather_take v.length 0 (by omega)
  rw [List.drop_zero, List.take_of_length_le (Nat.le_of_eq h.length_contents)] at hgather
  refine ⟨m', hgather, hwrote.sameShape, fun k hk => ?_⟩
  rw [hwrote.payload_eq, if_neg]
  intro hs
  rw [holders, hs] at hone
  exact hk hs hone

/-- The elements may be cloned whoever holds their store. -/
theorem Within.gathers_clone (h : m.Within v) : Gathers (fun m pos => m.cloneAt v pos) m v := by
  obtain ⟨change, hgather⟩ := h.gather_clone v.length 0 (by omega)
  rw [List.drop_zero, List.take_of_length_le (Nat.le_of_eq h.length_contents)] at hgather
  exact ⟨m.note change, hgather, .note m change, fun _ _ => rfl⟩

theorem allocate_eq (m : Memory α) (capacity : Nat) :
    m.allocate capacity =
      if m.grants (bytesFor α capacity) then
        .ok (m.note (·.make capacity), List.replicate capacity Element.blank)
      else .error (.fault (.allocationFailed (bytesFor α capacity))) := rfl

theorem grow_refused {capacity : Nat} (hrefused : m.grants (bytesFor α capacity) = false) :
    m.grow v capacity = (m, .error (.fault (.allocationFailed (bytesFor α capacity)))) := by
  rw [Memory.grow, Memory.growBy, allocate_eq, if_neg (by simp [hrefused])]

/-- However the elements are gathered, the view moves with its contents to a store of its
own, blank behind them. -/
theorem Sound.growBy (h : m.Sound (v :: rest)) {capacity : Nat}
    {pick : Memory α → Nat → Memory α × Except Failure α}
    (hgathers : Gathers pick (m.note (·.make capacity)) v) (hlength : v.length ≤ capacity)
    (hcapacity : capacity ≤ sizeLimit) (hgrants : m.grants (bytesFor α capacity) = true) :
    ∃ m' u, m.growBy pick v capacity = (m', .ok u) ∧ Grown m m' v u capacity ∧
      m'.Sound (u :: rest) ∧
      m'.slots u = m.contents v ++ List.replicate (capacity - v.length) Element.blank := by
  have hv := h.within v List.mem_cons_self
  obtain ⟨m₁, hgather, hshape, hkept⟩ := hgathers
  -- the elements are in hand: a new store takes them, and the old one is let go of
  let slots := m.contents v ++ (List.replicate capacity (Element.blank : α)).drop v.length
  let m₂ : Memory α :=
    { m₁.note (·.drop v.length) with
      growths := m₁.growths.push ⟨v.capacity, capacity, v.length⟩ }
  let m₃ := (m₂.newStore slots v.length).1
  let u := (m₂.newStore slots v.length).2
  have hgrow : m.growBy pick v capacity = (m₃.drop v, .ok u) := by
    rw [Memory.growBy, allocate_eq, if_pos hgrants]
    dsimp only
    rw [hgather]
    rfl
  have hslots : slots.length = capacity := by
    rw [List.length_append, hv.length_contents, List.length_drop, List.length_replicate]
    omega
  have hsound : m₂.Sound (v :: rest) :=
    h.of_sameShape ⟨hshape.size_eq, hshape.count_eq, hshape.length_eq, hshape.grants_eq⟩
  have hmade : Made m₂ m₃ u slots := made_newStore m₂ slots v.length
  have hu : m₃.Within u := by
    refine ⟨?_, ?_, ?_⟩
    · show v.length ≤ slots.length
      omega
    · rw [hmade.slots_eq]
      show 0 + slots.length ≤ slots.length
      omega
    · rw [hmade.slots_eq]
      omega
  obtain ⟨hdropped, hd⟩ := ((hmade.sound hsound hu).perm (List.Perm.swap v u rest)).drop
  have hlast : (m₃.drop v).slots u = slots := by
    rw [slots_congr fun k _ => hd.payload_eq k, hmade.slots_eq]
  refine ⟨m₃.drop v, u, hgrow, ?_, hdropped,
    hlast.trans (congrArg (m.contents v ++ ·) List.drop_replicate)⟩
  have hsize : m₂.stores.size = m.stores.size := hshape.size_eq
  refine ⟨?_, rfl, rfl, hslots, ?_, ?_, ?_, ?_⟩
  · rw [hmade.store_eq, hsize]
  · rw [Memory.contents_eq, hlast]
    show (slots.drop 0).take v.length = _
    rw [List.drop_zero, List.take_append_of_le_length (Nat.le_of_eq hv.length_contents.symm),
      List.take_of_length_le (Nat.le_of_eq hv.length_contents)]
  · rw [hd.size_eq, hmade.size_eq, hsize]
  · intro k hk hlive
    rw [hd.payload_eq, hmade.payload_eq, if_neg (by omega)]
    refine hkept k fun hs hone => ?_
    -- the last view has left this store
    have hbefore := h.balanced.counts k
    have hafter := hdropped.balanced.counts k
    have hone : m.stores.count k = 1 := hone
    rw [heldBy_eq_zero, filterMap_store_cons, hs, Option.toList_some, List.singleton_append,
      List.count_cons_self] at hbefore
    rw [heldBy_eq_zero, filterMap_store_cons, hmade.store_eq, Option.toList_some,
      List.singleton_append, List.count_cons_of_ne (by omega)] at hafter
    omega
  · rw [hd.grants_eq, hmade.grants_eq]
    exact hshape.grants_eq

theorem Sound.grow (h : m.Sound (v :: rest)) {capacity : Nat} (hlength : v.length ≤ capacity)
    (hcapacity : capacity ≤ sizeLimit) (hgrants : m.grants (bytesFor α capacity) = true) :
    ∃ m' u, m.grow v capacity = (m', .ok u) ∧ Grown m m' v u capacity ∧ m'.Sound (u :: rest) := by
  have hnoted := (h.within v List.mem_cons_self).of_sameShape (.note m (·.make capacity))
  rw [Memory.grow]
  split
  · rename_i hone
    obtain ⟨m', u, hgrow, hgrown, hsound, -⟩ :=
      h.growBy (hnoted.gathers_take hone) hlength hcapacity hgrants
    exact ⟨m', u, hgrow, hgrown, hsound⟩
  · obtain ⟨m', u, hgrow, hgrown, hsound, -⟩ :=
      h.growBy hnoted.gathers_clone hlength hcapacity hgrants
    exact ⟨m', u, hgrow, hgrown, hsound⟩

/-! ## Room for more elements -/

/-- Why a view cannot have room for `additional` more elements: their number or twice
their number is no size, or the allocator refuses the bytes. -/
inductive NoRoom (α : Type) [Element α] (grants : Nat → Bool) (v : Window) (additional : Nat) :
    Failure → Prop
  | sum (h : sizeLimit < v.length + additional) : NoRoom α grants v additional
      (.defect .addOverflow)
  | product (hsum : v.length + additional ≤ sizeLimit)
      (h : sizeLimit < 2 * (v.length + additional)) :
      NoRoom α grants v additional (.defect .multiplyOverflow)
  | memory (h : grants (bytesFor α (2 * (v.length + additional))) = false) :
      NoRoom α grants v additional
        (.fault (.allocationFailed (bytesFor α (2 * (v.length + additional)))))

/-- What adding `values` behind `v` comes to, with `room` asked for: they stand behind
the elements of `v`, or behind those of the view that `v` grew to, or there is no room.
`rest` are the other views. -/
inductive Added (m : Memory α) (rest : List Window) (v : Window) (room : Nat) (values : List α) :
    Memory α × Except Failure Window → Prop
  | within {m' : Memory α} (hfit : v.length + room ≤ v.capacity)
      (hwrote : Wrote m m' v v.length values) :
      Added m rest v room values (m', .ok { v with length := v.length + values.length })
  | grown {m₁ m' : Memory α} {u : Window} (hfull : v.capacity < v.length + room)
      (hgrown : Grown m m₁ v u (2 * (v.length + room))) (hsound : m₁.Sound (u :: rest))
      (hwrote : Wrote m₁ m' u u.length values) :
      Added m rest v room values (m', .ok { u with length := u.length + values.length })
  | failed {e : Failure} (change : Ledger → Ledger) (hfull : v.capacity < v.length + room)
      (hno : NoRoom α m.grants v room e) : Added m rest v room values (m.note change, .error e)

theorem Sound.reserve (h : m.Sound (v :: rest)) (additional : Nat) :
    Added m rest v additional [] (m.reserve v additional) := by
  have hv := h.within v List.mem_cons_self
  have hreach := hv.reach_le
  have hsize := hv.size_le
  unfold Memory.reserve
  dsimp only
  split
  · rename_i hsum
    exact .failed id (by omega) (.sum hsum)
  · rename_i hsum
    split
    · rename_i hfit
      exact .within hfit (Wrote.nil id v v.length)
    · rename_i hfull
      split
      · rename_i hproduct
        exact .failed id (by omega) (.product (by omega) hproduct)
      · rename_i hproduct
        by_cases hgrants : m.grants (bytesFor α (2 * (v.length + additional))) = true
        · have hlength := hv.length_le
          obtain ⟨m', u, hgrow, hgrown, hsound⟩ := h.grow
            (show v.length ≤ 2 * (v.length + additional) by omega) (by omega) hgrants
          rw [hgrow]
          exact .grown (by omega) hgrown hsound (Wrote.nil id u u.length)
        · rw [Bool.not_eq_true] at hgrants
          rw [grow_refused hgrants]
          exact .failed id (by omega) (.memory hgrants)

/-! ## Elements behind the last one -/

/-- Reserving and then adding within the room, by whatever `add` adds. -/
theorem Added.add {room : Nat} {values : List α} {reserved : Memory α × Except Failure Window}
    (hreserved : Added m rest v room [] reserved) (h : m.Sound (v :: rest))
    (hroom : values.length ≤ room) (change : Ledger → Ledger)
    (add : Memory α → Window → Memory α × Except Failure Window)
    (hadd : ∀ m u, m.Within u → u.length + values.length ≤ u.capacity →
      ∃ m', add m u = (m', .ok { u with length := u.length + values.length }) ∧
        Wrote m m' u u.length values) :
    Added m rest v room values (match reserved with
      | (m, .error e) => (m.note change, .error e)
      | (m, .ok u) => add m u) := by
  cases hreserved with
  | within hfit hwrote =>
    rename_i m₁
    have h₁ := (h.within v List.mem_cons_self).of_sameShape hwrote.sameShape
    obtain ⟨m', hm', hwrote'⟩ := hadd m₁ v h₁ (by omega)
    show Added m rest v room values (add m₁ v)
    rw [hm']
    exact .within hfit (hwrote.after hwrote')
  | grown hfull hgrown hsound hwrote =>
    rename_i m₁ m₂ u
    have h₂ := (hsound.within u List.mem_cons_self).of_sameShape hwrote.sameShape
    have := hgrown.room
    obtain ⟨m', hm', hwrote'⟩ := hadd m₂ u h₂ (by omega)
    show Added m rest v room values (add m₂ u)
    rw [hm']
    exact .grown hfull hgrown hsound (hwrote.after hwrote')
  | failed change' hfull hno => exact .failed (change ∘ change') hfull hno

theorem Sound.push (h : m.Sound (v :: rest)) (a : α) : Added m rest v 1 [a] (m.push v a) :=
  Added.add (h.reserve 1) h (Nat.le_refl _) (·.drop 1) (fun m u => m.pushWithin u a)
    fun _ _ hu hroom => hu.pushWithin hroom a

theorem Sound.extend (h : m.Sound (v :: rest)) (values : List α) :
    Added m rest v values.length values (m.extend v values) :=
  Added.add (h.reserve values.length) h (Nat.le_refl _) id (fun m u => m.pushClonesWithin u values)
    fun _ _ hu hroom => hu.pushClonesWithin values hroom

theorem Added.note {room : Nat} {values : List α} {m' : Memory α} {result : Except Failure Window}
    (h : Added m rest v room values (m', result)) (change : Ledger → Ledger) :
    Added m rest v room values (m'.note change, result) := by
  cases h with
  | within hfit hwrote => exact .within hfit (hwrote.note change)
  | grown hfull hgrown hsound hwrote => exact .grown hfull hgrown hsound (hwrote.note change)
  | failed change' hfull hno => exact .failed (change ∘ change') hfull hno

/-- Adding after the ledger changed. -/
theorem Added.of_note {room : Nat} {values : List α} {result : Memory α × Except Failure Window}
    {change : Ledger → Ledger} (h : Added (m.note change) rest v room values result) :
    Added m rest v room values result := by
  cases h with
  | within hfit hwrote => exact .within hfit ((Wrote.nil change v 0).after hwrote)
  | grown hfull hgrown hsound hwrote =>
    refine .grown hfull ?_ hsound hwrote
    exact ⟨hgrown.store_eq, hgrown.cursor_eq, hgrown.length_eq, hgrown.capacity_eq,
      hgrown.contents_eq, hgrown.size_eq, hgrown.kept, hgrown.grants_eq⟩
  | failed change' hfull hno => exact .failed (change' ∘ change) hfull hno

/-- The elements are those of `u` before the view grows, also where both share a store. -/
theorem Sound.append (h : m.Sound (v :: rest)) (hu : m.Within u) :
    Added m rest v u.length (m.contents u) (m.append v u) := by
  obtain ⟨change, hread⟩ := hu.toList
  have hextend := (h.of_sameShape (.note m change)).extend (m.contents u)
  rw [hu.length_contents] at hextend
  rw [Memory.append, hread]
  exact hextend.of_note.note (·.drop (m.contents u).length)

/-- What adding keeps. -/
theorem Added.sound {room : Nat} {values : List α} {result : Memory α × Except Failure Window}
    (h : Added m rest v room values result) (hs : m.Sound (v :: rest))
    (hroom : values.length ≤ room) :
    result.1.grants = m.grants ∧
      result.1.Sound (result.2.toOption.getD v :: rest) := by
  cases h with
  | within hfit hwrote =>
    exact ⟨hwrote.grants_eq, (hs.of_sameShape hwrote.sameShape).lengthen (by omega)⟩
  | grown hfull hgrown hsound hwrote =>
    have hroom' := hgrown.room
    exact ⟨hwrote.grants_eq.trans hgrown.grants_eq,
      (hsound.of_sameShape hwrote.sameShape).lengthen (by omega)⟩
  | failed change hfull hno => exact ⟨rfl, hs.of_sameShape (.note m change)⟩

theorem Added.noRoom {room : Nat} {values : List α} {m' : Memory α} {e : Failure}
    (h : Added m rest v room values (m', .error e)) : NoRoom α m.grants v room e := by
  cases h with
  | failed _ _ hno => exact hno

/-- Whatever an addition does, the view stays on its store or moves to a fresh one, and
views of other stores do not change. -/
theorem Added.frame {room : Nat} {values : List α} {m' : Memory α}
    {result : Except Failure Window} (hadded : Added m rest v room values (m', result))
    (h : m.Sound (v :: rest)) :
    m.stores.size ≤ m'.stores.size ∧
      (∀ u, result = .ok u → u.store = v.store ∨ u.store = some m.stores.size) ∧
      ∀ w ∈ rest, (∀ k, v.store = some k → w.store ≠ some k) → m'.contents w = m.contents w := by
  cases hadded with
  | within hfit hwrote =>
    refine ⟨Nat.le_of_eq hwrote.size_eq.symm, fun u hu => ?_, fun w _ => hwrote.contents_of_ne⟩
    cases hu
    exact .inl rfl
  | grown hfull hgrown hsound hwrote =>
    refine ⟨?_, fun u hu => ?_, fun w hw _ => hgrown.contents_of_wrote h hsound hwrote hw⟩
    · rw [hwrote.size_eq, hgrown.size_eq]
      omega
    · cases hu
      exact .inr hgrown.store_eq
  | failed change hfull hno =>
    exact ⟨Nat.le_refl _, fun u hu => (nomatch hu), fun w _ _ => rfl⟩

/-! ## New views -/

/-- What asking for a new view of `length` elements with room for `capacity` comes to. -/
inductive Allotted (m : Memory α) (held : List Window) (length capacity : Int) :
    Memory α × Except Failure Window → Prop
  | range (h : length < 0 ∨ capacity < length) :
      Allotted m held length capacity (m, .error (.fault (.allocationRange length capacity)))
  | memory (h : m.grants (bytesFor α capacity.toNat) = false) :
      Allotted m held length capacity
        (m, .error (.fault (.allocationFailed (bytesFor α capacity.toNat))))
  | made {m' : Memory α} {u : Window} (hrange : 0 ≤ length ∧ length ≤ capacity)
      (hlength : u.length = length.toNat) (hcapacity : u.capacity = capacity.toNat)
      (hsound : m'.Sound (u :: held)) (hgrants : m'.grants = m.grants) :
      Allotted m held length capacity (m', .ok u)

theorem Sound.alloc (h : m.Sound held) (length capacity : Int)
    (hsize : m.grants (bytesFor α capacity.toNat) = true → capacity ≤ sizeLimit) :
    Allotted m held length capacity (m.alloc length capacity) := by
  unfold Memory.alloc
  split
  · rename_i hrange
    exact .range hrange
  · rename_i hrange
    split
    · rename_i hzero
      refine .made (by omega) ?_ ?_ h.empty rfl
      · show 0 = length.toNat
        omega
      · show 0 = capacity.toNat
        omega
    · rename_i hzero
      rw [allocate_eq]
      by_cases hgrants : m.grants (bytesFor α capacity.toNat) = true
      · rw [if_pos hgrants]
        let m₁ := m.note (·.make capacity.toNat)
        let slots := List.replicate capacity.toNat (Element.blank : α)
        have hmade := made_newStore m₁ slots length.toNat
        have hslots : slots.length = capacity.toNat := List.length_replicate
        have hs : m₁.Sound held := h.of_sameShape (.note m _)
        have hlimit := hsize hgrants
        refine .made (by omega) rfl hslots (hmade.sound hs ⟨?_, ?_, ?_⟩) rfl
        · show length.toNat ≤ slots.length
          omega
        · rw [hmade.slots_eq]
          show 0 + slots.length ≤ slots.length
          omega
        · rw [hmade.slots_eq]
          omega
      · rw [Bool.not_eq_true] at hgrants
        rw [if_neg (by simp [hgrants])]
        exact .memory hgrants

/-- A view of given elements has exactly the room for them. -/
theorem Sound.ofList (h : m.Sound held) (values : List α)
    (hsize : m.grants (bytesFor α values.length) = true → values.length ≤ sizeLimit) :
    (m.grants (bytesFor α values.length) = false ∧ ∃ m',
        m.ofList values =
          (m', .error (.fault (.allocationFailed (bytesFor α values.length)))) ∧
        m'.Sound held ∧ m'.grants = m.grants) ∨
      ∃ m' u, m.ofList values = (m', .ok u) ∧ m'.Sound (u :: held) ∧ m'.grants = m.grants := by
  have hallotted := h.alloc 0 values.length (by simpa using hsize)
  unfold Memory.ofList
  cases hresult : m.alloc 0 values.length with
  | mk m₁ result =>
    rw [hresult] at hallotted
    cases hallotted with
    | range hrange => omega
    | memory hgrants =>
      exact .inl ⟨hgrants, _, rfl, h.of_sameShape (.note m _), rfl⟩
    | made hrange hlength hcapacity hsound hgrants =>
      rename_i u
      have hu := hsound.within u List.mem_cons_self
      have hzero : u.length = 0 := hlength
      have hroom : u.length + values.length ≤ u.capacity := by
        rw [hzero, hcapacity]
        omega
      obtain ⟨m', hpush, hwrote⟩ := hu.pushAllWithin values hroom
      exact .inr ⟨m', _, hpush, (hsound.of_sameShape hwrote.sameShape).lengthen hroom,
        hwrote.grants_eq.trans hgrants⟩

end Memory

end Substrate.View
