import Substrate.Proofs.View.Runs

/-!
# Operations that fail

A single operation that fails leaves the memory as it was: every view, every
store and every number of holders.  Only the ledger of instances may differ,
since elements that were made for the operation are gone again.

`Memory.Untouched` is that relation between the memory before and after, and
`Session.Spares` says of an operation that it holds whenever the operation
fails.  Every check comes before the first slot is written, so the memory after
a failure is the one before it; the exception is a view appended to itself,
where one more view of the store comes and goes.
-/

namespace Substrate.View

/-- The operation is carried out at once; adding elements one at a time is as many
operations as there are elements. -/
def Op.Single {α : Type} : Op α → Prop
  | .pushMany _ _ => False
  | _ => True

namespace Memory

section

variable {α : Type} {m m' : Memory α} {v : Window} {held : List Window} {e : Failure}

/-- `m'` has the stores of `m`, with the same slots and as many holders each. -/
structure Untouched (m m' : Memory α) : Prop where
  size_eq : m'.stores.size = m.stores.size
  count_eq : ∀ k, m'.stores.count k = m.stores.count k
  payload_eq : ∀ k, m'.stores.payload k = m.stores.payload k

theorem Untouched.note (m : Memory α) (change : Ledger → Ledger) : Untouched m (m.note change) :=
  ⟨rfl, fun _ => rfl, fun _ => rfl⟩

theorem Untouched.contents_eq (h : Untouched m m') (v : Window) :
    m'.contents v = m.contents v :=
  contents_congr fun k _ => h.payload_eq k

theorem Untouched.holders_eq (h : Untouched m m') (v : Window) : m'.holders v = m.holders v := by
  unfold holders
  cases v.store with
  | none => rfl
  | some i => exact h.count_eq i

/-- The views that are held decide the number of holders of every store. -/
theorem Sound.count_unique (h : m.Sound held) (h' : m'.Sound held) (k : Nat) :
    m'.stores.count k = m.stores.count k := by
  rw [h'.balanced.counts k, h.balanced.counts k, heldBy_eq_zero, heldBy_eq_zero]

/-- One more view of a store that comes and goes again. -/
theorem Untouched.drop_retained (h : Untouched (m.retain v) m') (hm : m.Sound held)
    (hm' : m'.Sound (v :: held)) : Untouched m (m'.drop v) := by
  obtain ⟨hsound, hdropped⟩ := hm'.drop
  refine ⟨?_, hm.count_unique hsound, fun k => ?_⟩
  · rw [hdropped.size_eq, h.size_eq, size_retain]
  · rw [hdropped.payload_eq, h.payload_eq, payload_retain]

theorem set_untouched {index : Int} {a : α} (h : m.set v index a = (m', .error e)) :
    Untouched m m' := by
  unfold Memory.set Memory.moveTo at h
  split at h
  · cases h
    exact .note m _
  · split at h
    · cases h
      exact .note m _
    · cases h

theorem slice_untouched {start stop : Int} (h : m.slice v start stop = (m', .error e)) :
    Untouched m m' := by
  unfold Memory.slice at h
  split at h
  · cases h
    exact .note m id
  · split at h
    · cases h
      exact .note m id
    · cases h

end

variable {α : Type} [Element α] {m m' : Memory α} {v u : Window} {held rest : List Window}
  {e : Failure}

theorem Added.untouched {room : Nat} {values : List α}
    (h : Added m rest v room values (m', .error e)) : Untouched m m' := by
  cases h with
  | failed change _ _ => exact .note m change

theorem get_untouched {index : Int} (h : m.get v index = (m', .error e)) : Untouched m m' := by
  unfold Memory.get Memory.cloneAt at h
  split at h
  · cases h
    exact .note m id
  · split at h
    · cases h
      exact .note m id
    · cases h

theorem Allotted.untouched {length capacity : Int}
    (h : Allotted m held length capacity (m', .error e)) : Untouched m m' := by
  cases h with
  | range _ => exact .note m id
  | memory _ => exact .note m id

/-- A view of given elements: once there is a store, they all fit. -/
theorem Sound.ofList_untouched (h : m.Sound held) {values : List α}
    (hsize : values.length ≤ sizeLimit) (hfail : m.ofList values = (m', .error e)) :
    Untouched m m' := by
  have hallotted := h.alloc 0 values.length fun _ => by omega
  unfold Memory.ofList at hfail
  cases hresult : m.alloc 0 values.length with
  | mk m₁ result =>
    rw [hresult] at hallotted hfail
    cases hallotted with
    | range hrange => omega
    | memory hrefused =>
      cases hfail
      exact .note m _
    | made hrange hlength hcapacity hsound hgrants =>
      rename_i u
      have hroom : u.length + values.length ≤ u.capacity := by
        rw [hlength, hcapacity]
        omega
      obtain ⟨m₂, hpush, -⟩ := (hsound.within u List.mem_cons_self).pushAllWithin values hroom
      dsimp only at hfail
      rw [hpush] at hfail
      cases hfail

/-- Room for more elements is refused exactly when their number is no size, or when the view
has not the room and twice their number is no size or the allocator refuses it. -/
theorem Sound.reserve_fails_iff (h : m.Sound (v :: rest)) (additional : Nat) :
    (∃ e, (m.reserve v additional).2 = .error e) ↔
      sizeLimit < v.length + additional ∨
        v.capacity < v.length + additional ∧
          (sizeLimit < 2 * (v.length + additional) ∨
            m.grants (bytesFor α (2 * (v.length + additional))) = false) := by
  have hv := h.within v List.mem_cons_self
  have hlength := hv.length_le
  have hreach := hv.reach_le
  have hsize := hv.size_le
  unfold Memory.reserve
  dsimp only
  split
  · rename_i hsum
    exact iff_of_true ⟨_, rfl⟩ (.inl hsum)
  · rename_i hsum
    split
    · rename_i hfit
      refine iff_of_false (fun hfail => ?_) (by omega)
      obtain ⟨e, he⟩ := hfail
      cases he
    · rename_i hfull
      split
      · rename_i hproduct
        exact iff_of_true ⟨_, rfl⟩ (.inr ⟨by omega, .inl hproduct⟩)
      · rename_i hproduct
        by_cases hgrants : m.grants (bytesFor α (2 * (v.length + additional))) = true
        · obtain ⟨m', u, hgrow, -⟩ := h.grow
            (show v.length ≤ 2 * (v.length + additional) by omega) (by omega) hgrants
          rw [hgrow, hgrants]
          refine iff_of_false (fun hfail => ?_) (by simp; omega)
          obtain ⟨e, he⟩ := hfail
          cases he
        · rw [Bool.not_eq_true] at hgrants
          rw [grow_refused hgrants]
          exact iff_of_true ⟨_, rfl⟩ (.inr ⟨by omega, .inr hgrants⟩)

end Memory

namespace Session

open Memory

section

variable {α : Type} {s : Session α} {name : String}

/-- If the operation that went from `s` to `out` failed, nothing changed. -/
def Spares (s : Session α) (out : Session α × Reply α) : Prop :=
  ∀ e, out.2 = .failed e → out.1.views = s.views ∧ Untouched s.memory out.1.memory

theorem spares_of_ok {out : Session α × Reply α} (h : ∀ e, out.2 ≠ .failed e) : Spares s out :=
  fun e he => (h e he).elim

theorem spares_on {act : Window → Session α × Reply α}
    (hact : ∀ v, s.views.get? name = some v → Spares s (act v)) : Spares s (s.on name act) := by
  unfold Session.on
  split
  · rename_i v hv
    exact hact v hv
  · exact spares_of_ok fun e => by simp

theorem spares_onBoth {a b : String} {act : Window → Window → Session α × Reply α}
    (hact : ∀ v u, s.views.get? a = some v → s.views.get? b = some u → Spares s (act v u)) :
    Spares s (s.onBoth a b act) :=
  spares_on fun v hv => spares_on fun u hu => hact v u hv hu

theorem spares_storeResult {m : Memory α} {result : Except Failure Window}
    (herror : ∀ e, result = .error e → Untouched s.memory m) :
    Spares s (s.storeResult name (m, result)) := by
  intro e he
  cases result with
  | ok v => cases he
  | error e' => exact ⟨rfl, herror e' rfl⟩

theorem spares_update {m : Memory α} {result : Except Failure Window}
    (herror : ∀ e, result = .error e → Untouched s.memory m) :
    Spares s (s.update name (m, result)) := by
  intro e he
  cases result with
  | ok v => cases he
  | error e' => exact ⟨rfl, herror e' rfl⟩

theorem spares_answer {β : Type} {temporaries : β → Nat} {reply : β → Reply α} {m : Memory α}
    {result : Except Failure β} (hreply : ∀ b e, reply b ≠ .failed e)
    (herror : ∀ e, result = .error e → Untouched s.memory m) :
    Spares s (s.answer temporaries reply (m, result)) := by
  intro e he
  cases result with
  | ok b => exact (hreply b e he).elim
  | error e' => exact ⟨rfl, herror e' rfl⟩

/-- The elements that an operation is given are made before it. -/
theorem Spares.of_make {out : Session α × Reply α} {n : Nat} (h : Spares (s.make n) out) :
    Spares s out :=
  fun e he =>
    have ⟨hviews, hsame⟩ := h e he
    ⟨hviews, hsame.size_eq, hsame.count_eq, hsame.payload_eq⟩

end

variable {α : Type} [Element α] {s : Session α}

theorem spares_updateAdded {name : String} {v : Window}
    {room : Nat} {values : List α} {result : Memory α × Except Failure Window}
    (hadded : Added s.memory (s.views.erase name).values v room values result) :
    Spares s (s.update name result) := by
  obtain ⟨m, result⟩ := result
  refine spares_update fun e he => ?_
  rw [he] at hadded
  exact hadded.untouched

/-- A view appended to itself: the clone that holds the store in the meantime is gone. -/
theorem Sound.spares_appendSelf (h : s.Sound) {name : String} {v : Window}
    (hv : s.views.get? name = some v) :
    Spares s (s.update name (((s.memory.retain v).append v v).1.drop v,
      ((s.memory.retain v).append v v).2)) := by
  have hapart := h.apart hv
  have hretained := hapart.retain List.mem_cons_self rfl rfl (h.within hv)
  have hwithin := hretained.within v List.mem_cons_self
  have hadded := hretained.append hwithin
  obtain ⟨-, hsound⟩ := hadded.sound hretained (Nat.le_of_eq hwithin.length_contents)
  refine spares_update fun e he => ?_
  cases hresult : (s.memory.retain v).append v v with
  | mk m result =>
    rw [hresult] at hadded hsound he
    cases he
    exact hadded.untouched.drop_retained hapart hsound

variable [DecidableEq α]

/-- What one operation leaves if it fails. -/
theorem Sound.apply_spares (h : s.Sound) {op : Op α} (hfits : op.Fits) (hsingle : op.Single) :
    Spares s (s.apply op) := by
  cases op with
  | empty name => exact spares_of_ok fun e he => by cases he
  | alloc name length capacity =>
    refine spares_storeResult fun e he => ?_
    have hallotted := h.memory.alloc length capacity fun _ => hfits
    rw [show s.memory.alloc length capacity = (_, .error e) from Prod.ext rfl he] at hallotted
    exact hallotted.untouched
  | ofList name values =>
    refine Spares.of_make (spares_storeResult fun e he => ?_)
    exact (h.make values.length).memory.ofList_untouched hfits (Prod.ext rfl he)
  | drop name =>
    rw [Session.apply]
    split
    · exact spares_of_ok fun e he => by cases he
    · exact spares_of_ok fun e he => by cases he
  | clone name source => exact spares_on fun v _ => spares_of_ok fun e he => by cases he
  | slice name source start stop =>
    exact spares_on fun v _ => spares_storeResult fun e he => slice_untouched (Prod.ext rfl he)
  | get name index =>
    exact spares_on fun v _ => spares_answer (fun _ _ => by simp) fun e he =>
      get_untouched (Prod.ext rfl he)
  | set name index a =>
    exact spares_on fun v _ => Spares.of_make (spares_answer (fun _ _ => by simp) fun e he =>
      set_untouched (Prod.ext rfl he))
  | push name a =>
    exact spares_on fun v hv => Spares.of_make
      (spares_updateAdded (((h.make 1).apart hv).push a))
  | pushMany name values => exact hsingle.elim
  | append name source =>
    refine spares_onBoth fun v u hv hu => ?_
    split
    · rename_i heq
      subst heq
      cases hv.symm.trans hu
      exact h.spares_appendSelf hv
    · exact spares_updateAdded ((h.apart hv).append (h.within hu))
  | extend name values =>
    have hmake := h.make values.length
    exact spares_on fun v hv => Spares.of_make (spares_updateAdded
      (((hmake.apart hv).extend values).note (·.drop values.length)))
  | reserve name additional =>
    exact spares_on fun v hv => spares_updateAdded ((h.apart hv).reserve additional)
  | copyFrom name source =>
    refine spares_onBoth fun v u hv hu => ?_
    obtain ⟨m, hcopy, -⟩ := (h.within hv).copyFrom (h.within hu)
    rw [hcopy]
    exact spares_of_ok fun e he => by cases he
  | toList name =>
    refine spares_on fun v hv => ?_
    obtain ⟨change, hread⟩ := (h.within hv).toList
    rw [hread]
    exact spares_of_ok fun e he => by cases he
  | iterate name count =>
    refine spares_on fun v hv => ?_
    obtain ⟨change, turns, hturns⟩ := iterate_ok (h.within hv) count (Nat.zero_le _)
    rw [hturns]
    exact spares_of_ok fun e he => by cases he
  | equal a b =>
    refine spares_onBoth fun v u hv hu => ?_
    obtain ⟨change, hequal⟩ := equal_ok (h.within hv) (h.within hu)
    rw [hequal]
    exact spares_of_ok fun e he => by cases he
  | sharesStore a b => exact spares_onBoth fun v u _ _ => spares_of_ok fun e he => by cases he
  | debug name =>
    refine spares_on fun v hv => ?_
    obtain ⟨change, hread⟩ := (h.within hv).toList
    rw [hread]
    exact spares_of_ok fun e he => by cases he
  | info name => exact spares_on fun v _ => spares_of_ok fun e he => by cases he

/-- Reserving answers what making room in the memory does. -/
theorem apply_reserve_failed {name : String} {v : Window} (hv : s.views.get? name = some v)
    (additional : Nat) :
    (∃ e, (s.apply (.reserve name additional)).2 = .failed e) ↔
      ∃ e, (s.memory.reserve v additional).2 = .error e := by
  rw [Session.apply, Session.on, hv]
  dsimp only
  cases hresult : s.memory.reserve v additional with
  | mk m result =>
    cases result with
    | ok u =>
      refine iff_of_false (fun hfail => ?_) fun hfail => ?_
      · obtain ⟨e, he⟩ := hfail
        cases he
      · obtain ⟨e, he⟩ := hfail
        cases he
    | error e => exact iff_of_true ⟨e, rfl⟩ ⟨e, rfl⟩

/-- The allocator of a run is the one it started with. -/
theorem run_grants (grants : Nat → Bool) {ops : List (Op α)} (hfits : ∀ op ∈ ops, op.Fits) :
    (run grants ops).memory.grants = grants :=
  run_induct (P := fun s => s.memory.grants = grants) grants hfits rfl fun _ _ h hop hs =>
    (apply_advances h hop).grants_eq.trans hs

/-- Take any state that a run reaches.  A single operation that fails leaves every name
with its view, and every view with what it shows and the holders it has; all stores have
the same slots and as many holders as before.  Room for `n` more elements is refused if
and only if the sum is no 64-bit number, or it exceeds the capacity and twice the sum is no
64-bit number or the allocator refuses room for as many elements. -/
theorem failed_operation_changes_nothing (grants : Nat → Bool) {ops : List (Op α)}
    (hfits : ∀ op ∈ ops, op.Fits) :
    let s := run grants ops
    (∀ (op : Op α) (e : Failure), op.Fits → op.Single → (s.apply op).2 = .failed e →
      let s' := (s.apply op).1
      s'.views = s.views ∧
      (∀ v, s'.memory.contents v = s.memory.contents v ∧
        s'.memory.holders v = s.memory.holders v) ∧
      s'.memory.stores.size = s.memory.stores.size ∧
      ∀ k, s'.memory.stores.payload k = s.memory.stores.payload k ∧
        s'.memory.stores.count k = s.memory.stores.count k) ∧
    ∀ (name : String) (v : Window) (n : Nat), s.views.get? name = some v →
      ((∃ e, (s.apply (.reserve name n)).2 = .failed e) ↔
        Nat.pow 2 64 ≤ v.length + n ∨
          v.capacity < v.length + n ∧
            (Nat.pow 2 64 ≤ 2 * (v.length + n) ∨
              grants (bytesFor α (2 * (v.length + n))) = false)) := by
  intro s
  have h : s.Sound := run_sound grants hfits
  refine ⟨fun op e hop hsingle hfail => ?_, fun name v n hv => ?_⟩
  · obtain ⟨hviews, hsame⟩ := h.apply_spares hop hsingle e hfail
    exact ⟨hviews, fun v => ⟨hsame.contents_eq v, hsame.holders_eq v⟩, hsame.size_eq,
      fun k => ⟨hsame.payload_eq k, hsame.count_eq k⟩⟩
  · have hlimit : ∀ n, Nat.pow 2 64 ≤ n ↔ sizeLimit < n := fun n => by
      show 18446744073709551616 ≤ n ↔ 18446744073709551615 < n
      omega
    rw [apply_reserve_failed hv, (h.apart hv).reserve_fails_iff, hlimit, hlimit,
      show s.memory.grants = grants from run_grants grants hfits]

/-- Four elements and a window on two of them, with an allocator that grants less than a
hundred bytes: the four cannot be appended to themselves, nor can there be room for
2^64 - 4 more of them, but there is room for two behind the window. -/
theorem failed_operation_changes_nothing_shared :
    let s : Session Int := run (· < 100) [.ofList "a" [1, 2, 3, 4], .slice "b" "a" 0 2]
    (∀ op ∈ [Op.ofList "a" [(1 : Int), 2, 3, 4], .slice "b" "a" 0 2], op.Fits) ∧
      (s.apply (.append "a" "a")).2 = .failed (.fault (.allocationFailed 128)) ∧
      (s.apply (.append "a" "a")).1.views = s.views ∧
      (s.apply (.append "a" "a")).1.memory.holders ⟨some 0, 0, 2, 4⟩ = 2 ∧
      (∃ e, (s.apply (.reserve "a" (Nat.pow 2 64 - 4))).2 = .failed e) ∧
      ¬ ∃ e, (s.apply (.reserve "b" 2)).2 = .failed e := by
  intro s
  have hfits : ∀ op ∈ [Op.ofList "a" [(1 : Int), 2, 3, 4], .slice "b" "a" 0 2], op.Fits := by
    simp [Op.Fits, sizeLimit]
  have hfail : (s.apply (.append "a" "a")).2 = .failed (.fault (.allocationFailed 128)) := rfl
  have ha : s.views.get? "a" = some ⟨some 0, 0, 4, 4⟩ := by decide +kernel
  have hb : s.views.get? "b" = some ⟨some 0, 0, 2, 4⟩ := by decide +kernel
  obtain ⟨hkept, hreserve⟩ := failed_operation_changes_nothing (· < 100) hfits
  obtain ⟨hviews, hshown, -⟩ := hkept (.append "a" "a") _ trivial trivial hfail
  refine ⟨hfits, hfail, hviews, (hshown _).2.trans (by decide +kernel), ?_, ?_⟩
  · exact (hreserve "a" _ (Nat.pow 2 64 - 4) ha).mpr (.inl (by decide))
  · exact fun he => absurd ((hreserve "b" _ 2 hb).mp he) (by decide)

end Session

end Substrate.View
