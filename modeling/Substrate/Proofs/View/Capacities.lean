import Mathlib.Data.Nat.Log
import Substrate.Proofs.View.Aliasing

/-!
# Capacities of a view that is pushed to

A view that is full moves to a store of twice the size needed, so pushing one
element takes a capacity `c` to `2 * (c + 1)`: `c + 2` doubles.  Between two
such moves the capacity stays, and the length catches up with it.

`Memory.Sound.push_cases` is what one push does to length, capacity and the
number of stores, and `pushEach_capacity` follows it through a whole run of
pushes.
-/

namespace Substrate.View

variable {α : Type} [Element α]

namespace Memory

/-- One push makes a view longer by one.  It stays on its store while it has room there;
once it is full it moves to a new one. -/
theorem Sound.push_cases {m m' : Memory α} {v u : Window} {rest : List Window} {a : α}
    (h : m.Sound (v :: rest)) (hpush : m.push v a = (m', .ok u)) :
    u.length = v.length + 1 ∧ m'.Sound (u :: rest) ∧
      (v.length < v.capacity ∧ u.capacity = v.capacity ∧ m'.stores.size = m.stores.size ∨
        v.length = v.capacity ∧ u.capacity = 2 * (v.capacity + 1) ∧
          m'.stores.size = m.stores.size + 1) := by
  have hlength := (h.within v List.mem_cons_self).length_le
  have hadded := h.push a
  have hsound := (hadded.sound h (Nat.le_refl _)).2
  rw [hpush] at hadded hsound
  cases hadded with
  | within hfit hwrote => exact ⟨rfl, hsound, .inl ⟨hfit, rfl, hwrote.size_eq⟩⟩
  | grown hfull hgrown _ hwrote =>
    have hlast : v.length = v.capacity := by omega
    refine ⟨congrArg (· + 1) hgrown.length_eq, hsound, .inr ⟨hlast, ?_, ?_⟩⟩
    · rw [← hlast]
      exact hgrown.capacity_eq
    · rw [hwrote.size_eq, hgrown.size_eq]

end Memory

namespace Session

open Memory

/-- Pushing one at a time: there is a new store for each change of the capacity, each
doubles `capacity + 2`, and before the last one there was not yet room for all. -/
theorem pushEach_capacity {m : Memory α} {v : Window} {rest : List Window}
    (h : m.Sound (v :: rest)) (values : List α) {pairs : List (Nat × Nat)}
    (hok : (pushEach m v values).2.2 = .ok pairs) :
    (pushEach m v values).1.stores.size = m.stores.size + pairs.length ∧
      (pushEach m v values).2.1.length = v.length + values.length ∧
      (pushEach m v values).2.1.capacity + 2 = (v.capacity + 2) * Nat.pow 2 pairs.length ∧
      ∀ r < pairs.length, (v.capacity + 2) * Nat.pow 2 r < v.length + values.length + 2 := by
  induction values generalizing m v pairs with
  | nil =>
    cases hok
    exact ⟨rfl, rfl, (Nat.mul_one _).symm, fun r hr => (Nat.not_lt_zero r hr).elim⟩
  | cons a values ih =>
    have hnoted := h.of_sameShape (.note m (·.make 1))
    unfold pushEach at hok ⊢
    cases hpush : (m.note (·.make 1)).push v a with
    | mk m₁ result =>
      rw [hpush] at hok
      cases result with
      | error e => cases hok
      | ok u =>
        obtain ⟨hlength, hsound, hcases⟩ := hnoted.push_cases hpush
        dsimp only at hok ⊢
        cases hrest : (pushEach m₁ u values).2.2 with
        | error e =>
          rw [hrest] at hok
          cases hok
        | ok pairs' =>
          obtain ⟨hsize, hlast, hcapacity, hleast⟩ := ih hsound hrest
          rw [hrest] at hok
          rw [hlast, List.length_cons]
          rcases hcases with ⟨hroom, hsame, hstores⟩ | ⟨hfull, hgrew, hstores⟩
          · -- the view stayed where it was
            have hpairs : pairs' = pairs := by
              simpa only [Except.map, if_pos hsame, Except.ok.injEq] using hok
            subst hpairs
            rw [hsame] at hcapacity hleast
            refine ⟨hsize.trans (by rw [hstores]; rfl), by omega, hcapacity, fun r hr => ?_⟩
            have := hleast r hr
            omega
          · -- the view was full, and moved to twice what it needed
            have hpairs : (u.length, u.capacity) :: pairs' = pairs := by
              simpa only [Except.map, if_neg (show u.capacity ≠ v.capacity by omega),
                Except.ok.injEq] using hok
            subst hpairs
            have hdouble (r : Nat) :
                (u.capacity + 2) * Nat.pow 2 r = (v.capacity + 2) * Nat.pow 2 (r + 1) := by
              rw [hgrew, show 2 * (v.capacity + 1) + 2 = (v.capacity + 2) * 2 by omega,
                Nat.mul_assoc, Nat.mul_comm 2]
              rfl
            refine ⟨?_, by omega, by rw [hcapacity, hdouble, List.length_cons], fun r hr => ?_⟩
            · rw [hsize, hstores, List.length_cons]
              show m.stores.size + 1 + _ = _
              omega
            · cases r with
              | zero =>
                show (v.capacity + 2) * 1 < _
                omega
              | succ r =>
                have := hleast r (by simpa using hr)
                rw [hdouble] at this
                omega

/-- Pushing one at a time is answered with the changes of capacity if no push failed. -/
theorem apply_pushMany_growths [DecidableEq α] {s : Session α} {name : String} {v : Window}
    {values : List α} {pairs : List (Nat × Nat)} (hv : s.views.get? name = some v) :
    (s.apply (.pushMany name values)).2 = .growths pairs ↔
      (pushEach s.memory v values).2.2 = .ok pairs := by
  simp only [Session.apply, Session.on, hv]
  cases (pushEach s.memory v values).2.2 <;> simp

/-- In any state that a run reaches, push elements one at a time onto a view of length `l` and
capacity `c`.  If none of the pushes fails, the view moves to a new store as often as it
changes its capacity, which is the least `r` for which `(c + 2) * 2 ^ r - 2` is room for
all elements, and that is its capacity in the end.  Starting with nothing, `r` is at most
the binary logarithm of one more than the number of elements, rounded up. -/
theorem pushes_grow_least_often [DecidableEq α] (grants : Nat → Bool) {ops : List (Op α)}
    (hfits : ∀ op ∈ ops, op.Fits) {name : String} {v : Window} {values : List α}
    {pairs : List (Nat × Nat)} (hv : (run grants ops).views.get? name = some v)
    (hok : ((run grants ops).apply (.pushMany name values)).2 = .growths pairs) :
    let s := run grants ops
    let s' := (s.apply (.pushMany name values)).1
    let r := pairs.length
    s'.memory.stores.size = s.memory.stores.size + r ∧
    v.length + values.length ≤ (v.capacity + 2) * Nat.pow 2 r - 2 ∧
    (∀ k, v.length + values.length ≤ (v.capacity + 2) * Nat.pow 2 k - 2 → r ≤ k) ∧
    (∃ u, s'.views.get? name = some u ∧ u.length = v.length + values.length ∧
      u.capacity = (v.capacity + 2) * Nat.pow 2 r - 2) ∧
    (v = .empty → r ≤ Nat.clog 2 (values.length + 1)) := by
  intro s s' r
  have h : s.Sound := run_sound grants hfits
  obtain ⟨hstores, hlength, hcapacity, hbefore⟩ :=
    pushEach_capacity (h.apart hv) values ((apply_pushMany_growths hv).mp hok)
  have hs' : s' =
      ⟨(pushEach s.memory v values).1, s.views.set name (pushEach s.memory v values).2.1⟩ :=
    apply_pushMany hv values
  have hwithin := (pushEach_sound (h.apart hv) values).1.within _ List.mem_cons_self
  have hfit := hwithin.length_le
  have hpos (k : Nat) : 0 < Nat.pow 2 k := Nat.pow_pos (by decide)
  have hleast (k : Nat) (hk : v.length + values.length ≤ (v.capacity + 2) * Nat.pow 2 k - 2) :
      r ≤ k := by
    refine Nat.le_of_not_lt fun hlt => ?_
    have := hbefore k hlt
    have := Nat.mul_le_mul_left (v.capacity + 2) (hpos k)
    omega
  have hroom : (v.capacity + 2) * Nat.pow 2 r = (pushEach s.memory v values).2.1.capacity + 2 :=
    hcapacity.symm
  refine ⟨?_, by omega, hleast, ⟨(pushEach s.memory v values).2.1, ?_, hlength, by omega⟩, ?_⟩
  · rw [hs']
    exact hstores
  · rw [hs']
    exact (Registers.get?_set _ _ _ _).trans (if_pos rfl)
  · rintro rfl
    have hlog : values.length + 1 ≤ Nat.pow 2 (Nat.clog 2 (values.length + 1)) :=
      Nat.le_pow_clog (by decide) _
    refine hleast _ ?_
    show 0 + values.length ≤ (0 + 2) * _ - 2
    omega

/-- One view, of nothing. -/
def nothingOps : List (Op Int) := [.empty "a"]

/-- Three elements pushed onto nothing: the capacities are 2 and 6. -/
theorem pushes_grow_least_often_three :
    (∀ op ∈ nothingOps, op.Fits) ∧
      ((run (· < 100) nothingOps).apply (.pushMany "a" [1, 2, 3])).2 = .growths [(1, 2), (3, 6)] ∧
      ((run (· < 100) nothingOps).apply (.pushMany "a" [1, 2, 3])).1.memory.stores.size = 2 ∧
      (∀ k, 3 ≤ 2 * Nat.pow 2 k - 2 → 2 ≤ k) ∧ 2 ≤ Nat.clog 2 4 := by
  have hfits : ∀ op ∈ nothingOps, op.Fits := by simp [nothingOps, Op.Fits]
  have hv : (run (· < 100) nothingOps).views.get? "a" = some .empty := by decide +kernel
  have hok : ((run (· < 100) nothingOps).apply (.pushMany "a" [1, 2, 3])).2 =
      .growths [(1, 2), (3, 6)] := (apply_pushMany_growths hv).mpr (by decide +kernel)
  obtain ⟨hstores, -, hleast, -, hlog⟩ := pushes_grow_least_often (· < 100) hfits hv hok
  refine ⟨hfits, hok, hstores.trans (by decide +kernel), fun k hk => ?_, ?_⟩
  · exact hleast k (by simpa [Window.empty] using hk)
  · simpa only [List.length_cons, List.length_nil, Nat.reduceAdd] using hlog rfl

end Session

end Substrate.View
