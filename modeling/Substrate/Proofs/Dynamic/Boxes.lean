import Substrate.Dynamic.Box
import Substrate.Proofs.Ownership.Balance

/-!
# Boxes and their heap

`Kept h bs` is the invariant of a heap whose payloads are boxed values, where
`bs` are the boxes outside the heap: the counts are exact for the cells of
`bs`, a box has the type of its payload, and a boxed box is of a cell made
before its own.  The last part is what keeps boxes from forming a circle.

There is one lemma for each thing that is done to boxes: a new one, a clone,
letting go.  From the order of the cells follows that a heap without boxes
outside has no live cell.
-/

namespace Substrate.Dynamic

open Ownership (Heap Holder)

variable {τ α : Type}

/-- The box in a payload, if it is one. -/
def Value.boxed : Value τ α → List (Box τ)
  | .plain _ => []
  | .box b => [b]

theorem filterMap_cons_cell (b : Box τ) (bs : List (Box τ)) :
    (b :: bs).filterMap Box.cell = b.cell.toList ++ bs.filterMap Box.cell := by
  cases hcell : b.cell <;> simp [hcell]

theorem Value.filterMap_boxed (v : Value τ α) :
    v.boxed.filterMap Box.cell = (Holder.held v).toList := by
  cases v with
  | plain a => rfl
  | box b =>
    rw [Value.boxed, filterMap_cons_cell]
    exact List.append_nil _

variable [Plain τ α]

/-- A box that is empty or has a cell below `n`, and the type of its payload. -/
structure Box.Below (h : Heap (Value τ α)) (n : Nat) (b : Box τ) : Prop where
  /-- The type is that of the payload. -/
  kind_eq : b.kind = b.cell.map fun i => (h.payload i).kind
  /-- The cell is below `n`. -/
  lt : ∀ i, b.cell = some i → i < n

theorem Box.below_empty (h : Heap (Value τ α)) (n : Nat) : Box.Below h n .empty :=
  ⟨rfl, by simp [Box.empty]⟩

theorem Box.Below.mono {h after : Heap (Value τ α)} {n m : Nat} {b : Box τ} (hb : b.Below h n)
    (hpayload : ∀ i, i < n → after.payload i = h.payload i) (hn : n ≤ m) : b.Below after m := by
  refine ⟨?_, fun i hi => Nat.lt_of_lt_of_le (hb.lt i hi) hn⟩
  rw [hb.kind_eq]
  cases hcell : b.cell with
  | none => rfl
  | some i => simp [hpayload i (hb.lt i hcell)]

/-- A payload that boxes a box boxes one below `n`. -/
def Value.Below (h : Heap (Value τ α)) (n : Nat) (v : Value τ α) : Prop :=
  ∀ b, v = .box b → b.Below h n

/-- The invariant of a heap of boxed values with the boxes `bs` outside it. -/
structure Kept (h : Heap (Value τ α)) (bs : List (Box τ)) : Prop where
  /-- The counts are exact. -/
  balanced : h.Balanced (bs.filterMap Box.cell)
  /-- The boxes outside have made cells and the types of their payloads. -/
  below : ∀ b ∈ bs, b.Below h h.size
  /-- A boxed box is of an earlier cell. -/
  earlier : ∀ i, i < h.size → (h.payload i).Below h i

namespace Kept

variable {h : Heap (Value τ α)} {bs : List (Box τ)}

theorem start : Kept ({} : Heap (Value τ α)) [] := by
  refine ⟨Heap.balanced_empty, by simp, ?_⟩
  intro i hi
  exact absurd hi (Nat.not_lt_zero i)

theorem perm {others : List (Box τ)} (hk : Kept h bs) (hp : bs.Perm others) : Kept h others :=
  ⟨hk.balanced.perm (hp.filterMap _), fun b hb => hk.below b (hp.mem_iff.mpr hb), hk.earlier⟩

/-- The payload of a box outside is live. -/
theorem live (hk : Kept h bs) {b : Box τ} (hb : b ∈ bs) {i : Nat} (hi : b.cell = some i) :
    0 < h.count i :=
  hk.balanced.live_of_mem (List.mem_filterMap.mpr ⟨b, hb, hi⟩)

/-- The payload of a box in a live payload is live. -/
theorem live_inner (hk : Kept h bs) {i : Nat} (hi : 0 < h.count i) {b : Box τ}
    (hb : h.payload i = .box b) {j : Nat} (hj : b.cell = some j) : 0 < h.count j :=
  hk.balanced.live_of_held hi (by rw [hb]; exact hj)

/-- An empty box has no payload to hold. -/
theorem addEmpty (hk : Kept h bs) : Kept h (.empty :: bs) :=
  ⟨hk.balanced, by simpa [Box.below_empty] using hk.below, hk.earlier⟩

/-- One more box that shares a live payload. -/
theorem retain (hk : Kept h bs) {b : Box τ} (hb : b.Below h h.size)
    (hlive : ∀ i, b.cell = some i → 0 < h.count i) : Kept (b.retain h) (b :: bs) := by
  have hpayload : ∀ i, (b.retain h).payload i = h.payload i := by
    intro i
    unfold Box.retain Heap.retain?
    split
    · exact Heap.payload_setCount h _ _ i
    · rfl
  have hsize : (b.retain h).size = h.size := by
    unfold Box.retain Heap.retain?
    split <;> rfl
  refine ⟨?_, ?_, ?_⟩
  · rw [filterMap_cons_cell]
    exact hk.balanced.retain? hlive
  · intro c hc
    rw [hsize]
    refine Box.Below.mono ?_ (fun i _ => hpayload i) (Nat.le_refl _)
    rcases List.mem_cons.mp hc with rfl | hc
    · exact hb
    · exact hk.below c hc
  · intro i hi c hc
    rw [hsize] at hi
    rw [hpayload] at hc
    exact (hk.earlier i hi c hc).mono (fun j _ => hpayload j) (Nat.le_refl _)

/-- One more box like one outside. -/
theorem clone (hk : Kept h bs) {b : Box τ} (hb : b ∈ bs) : Kept (b.retain h) (b :: bs) :=
  hk.retain (hk.below b hb) fun _ hi => hk.live hb hi

/-- One more box like one in the payload of a box outside. -/
theorem inner (hk : Kept h bs) {b c : Box τ} (hb : b ∈ bs) {i : Nat} (hi : b.cell = some i)
    (hc : h.payload i = .box c) : Kept (c.retain h) (c :: bs) := by
  have hlt := (hk.below b hb).lt i hi
  exact hk.retain ((hk.earlier i hlt c hc).mono (fun _ _ => rfl) (Nat.le_of_lt hlt))
    fun _ hj => hk.live_inner (hk.live hb hi) hc hj

/-- A new box.  A box that is its payload goes into the heap. -/
theorem make {v : Value τ α} (hk : Kept h (v.boxed ++ bs)) :
    Kept (Box.make h v).1 ((Box.make h v).2 :: bs) := by
  have hpayload : ∀ i, i < h.size → (h.make v).1.payload i = h.payload i := by
    intro i hi
    rw [Heap.payload_make, if_neg (by omega)]
  have hown : (h.make v).1.payload h.size = v := by
    rw [Heap.payload_make, if_pos rfl]
  refine ⟨?_, ?_, ?_⟩
  · have hb := hk.balanced
    rw [List.filterMap_append, Value.filterMap_boxed] at hb
    exact hb.makeHolding
  · intro b hb
    show b.Below (h.make v).1 (h.size + 1)
    rcases List.mem_cons.mp hb with rfl | hb
    · refine ⟨congrArg (fun w => some (Value.kind w)) hown.symm, ?_⟩
      intro i hi
      cases hi
      exact Nat.lt_succ_self _
    · exact (hk.below b (List.mem_append_right _ hb)).mono hpayload (Nat.le_succ _)
  · intro i hi b hb
    have hi : i < h.size + 1 := hi
    have hb : (h.make v).1.payload i = .box b := hb
    show b.Below (h.make v).1 i
    by_cases hnew : i = h.size
    · subst hnew
      rw [hown] at hb
      subst hb
      exact (hk.below b (by simp [Value.boxed])).mono hpayload (Nat.le_refl _)
    · have hlt : i < h.size := by omega
      rw [hpayload i hlt] at hb
      exact (hk.earlier i hlt b hb).mono (fun j hj => hpayload j (by omega)) (Nat.le_refl _)

/-- Letting go of a box. -/
theorem release {b : Box τ} (hk : Kept h (b :: bs)) :
    Kept (b.release h).1 bs ∧
      Heap.Released h (b.release h).1 (b.release h).2 (bs.filterMap Box.cell) := by
  have hb := hk.balanced
  rw [filterMap_cons_cell] at hb
  have hr := hb.release?
  refine ⟨⟨hr.balanced, ?_, ?_⟩, hr⟩
  · intro c hc
    show c.Below (h.release? b.cell).1 (h.release? b.cell).1.size
    rw [hr.size_eq]
    exact (hk.below c (List.mem_cons_of_mem _ hc)).mono (fun i _ => hr.payload_eq i) (Nat.le_refl _)
  · intro i hi c hc
    have hi : i < (h.release? b.cell).1.size := hi
    have hc : (h.release? b.cell).1.payload i = .box c := hc
    rw [hr.size_eq] at hi
    rw [hr.payload_eq] at hc
    exact (hk.earlier i hi c hc).mono (fun j _ => hr.payload_eq j) (Nat.le_refl _)

/-- Without boxes outside no cell is live: a live cell would be held by a live cell made
after it, and so on without end. -/
theorem all_freed (hk : Kept h []) (i : Nat) : h.count i = 0 := by
  suffices ∀ n i, h.size ≤ i + n → h.count i = 0 from this h.size i (Nat.le_add_left _ _)
  intro n
  induction n with
  | zero => exact fun i hi => hk.balanced.unmade i hi
  | succ n ih =>
    intro i hi
    have hcount : h.count i = h.heldBy i := by simpa using hk.balanced.counts i
    rw [hcount]
    refine List.countP_eq_zero.mpr fun j hmem hj => ?_
    simp only [Bool.and_eq_true, Heap.isLive_iff, beq_iff_eq] at hj
    cases hp : h.payload j with
    | plain a =>
      rw [hp] at hj
      cases hj.2
    | box b =>
      rw [hp] at hj
      have hlt := (hk.earlier j (List.mem_range.mp hmem) b hp).lt i hj.2
      have := ih j (by omega)
      omega

end Kept

end Substrate.Dynamic
