import Substrate.Ownership.Heap

/-!
# Exact holder counts

`Heap.Balanced h holders` is the counting equation of a heap: the count of
every cell is the number of times it occurs among `holders`, the cells held
from outside the heap, plus the number of live cells whose payload holds it.
A freed cell counts 0, so nothing outside and no live payload holds it.

There are three groups of facts.

* What the small operations do to the equation: a new cell, one more holder, a
  payload that starts or stops to hold a cell.
* `Released` says what letting go of a cell comes to, and `releaseWith_released`
  proves it for a chain of any length.  In the middle of a chain the equation
  holds for the cell that the last freed payload held, as one more holder from
  outside; the number of live cells bounds the chain.
* `Balanced.release?` is the same for a pointer that may hold nothing.
-/

namespace Substrate.Ownership.Heap

variable {α : Type} [Inhabited α]

/-! ## The small operations -/

theorem count_setCount (h : Heap α) (i n k : Nat) :
    (h.setCount i n).count k = if k = i then n else h.count k := by
  simp only [count, setCount, Table.get_modify]
  split <;> rfl

@[simp] theorem payload_setCount (h : Heap α) (i n k : Nat) :
    (h.setCount i n).payload k = h.payload k := by
  simp only [payload, setCount, Table.get_modify]
  split <;> rfl

@[simp] theorem size_setCount (h : Heap α) (i n : Nat) : (h.setCount i n).size = h.size := rfl

@[simp] theorem count_setPayload (h : Heap α) (i : Nat) (p : α) (k : Nat) :
    (h.setPayload i p).count k = h.count k := by
  simp only [count, setPayload, Table.get_modify]
  split <;> rfl

theorem payload_setPayload (h : Heap α) (i : Nat) (p : α) (k : Nat) :
    (h.setPayload i p).payload k = if k = i then p else h.payload k := by
  simp only [payload, setPayload, Table.get_modify]
  split <;> rfl

@[simp] theorem size_setPayload (h : Heap α) (i : Nat) (p : α) :
    (h.setPayload i p).size = h.size := rfl

theorem count_make (h : Heap α) (p : α) (k : Nat) :
    (h.make p).1.count k = if k = h.size then 1 else h.count k := by
  simp only [count, make, Table.get_set]
  split <;> rfl

theorem payload_make (h : Heap α) (p : α) (k : Nat) :
    (h.make p).1.payload k = if k = h.size then p else h.payload k := by
  simp only [payload, make, Table.get_set]
  split <;> rfl

theorem isLive_iff (h : Heap α) (i : Nat) : h.isLive i = true ↔ 0 < h.count i := by
  simp [isLive]

theorem isLive_setCount (h : Heap α) (i n k : Nat) :
    (h.setCount i n).isLive k = if k = i then decide (0 < n) else h.isLive k := by
  simp only [isLive, count_setCount]
  split <;> rfl

@[simp] theorem isLive_setPayload (h : Heap α) (i : Nat) (p : α) (k : Nat) :
    (h.setPayload i p).isLive k = h.isLive k := by
  simp [isLive]

/-! ## Counting over the cells -/

/-- Two tests of the numbers below `n` that agree except at `i` count the same, except
for `i`. -/
private theorem countP_range_update (p q : Nat → Bool) (i : Nat) (hpq : ∀ j, j ≠ i → p j = q j) :
    ∀ n, i < n →
      (List.range n).countP p + (q i).toNat = (List.range n).countP q + (p i).toNat := by
  have hsame : ∀ n, n ≤ i → (List.range n).countP p = (List.range n).countP q := by
    intro n hn
    refine List.countP_congr fun j hj => ?_
    have : j ≠ i := by have := List.mem_range.mp hj; omega
    rw [hpq j this]
  intro n
  induction n with
  | zero => intro hi; omega
  | succ n ih =>
    intro hi
    rw [List.range_succ, List.countP_append, List.countP_append, List.countP_singleton,
      List.countP_singleton]
    by_cases hn : n = i
    · subst hn
      rw [hsame n (Nat.le_refl n)]
      cases p n <;> cases q n <;> simp
    · have := ih (by omega)
      rw [hpq n hn]
      omega

theorem length_live_setCount {h : Heap α} {i : Nat} (hlt : i < h.size) (hi : 0 < h.count i) :
    (h.setCount i 0).live.length + 1 = h.live.length := by
  have := countP_range_update (h.setCount i 0).isLive h.isLive i
    (fun j hj => by simp [isLive_setCount, hj]) h.size hlt
  simp only [isLive_setCount, if_true, (isLive_iff h i).mpr hi] at this
  simpa [live, List.countP_eq_length_filter] using this

private theorem count_toList (c : Option Nat) (k : Nat) :
    c.toList.count k = (c == some k).toNat := by
  cases c with
  | none => rfl
  | some j =>
    by_cases hj : j = k
    · simp [hj]
    · simp [hj, beq_eq_false_iff_ne.mpr hj]

/-- How many live cells have a payload that holds cell `i`. -/
def heldBy [Holder α] (h : Heap α) (i : Nat) : Nat :=
  (List.range h.size).countP fun j => h.isLive j && Holder.held (h.payload j) == some i

/-- The counts are exact: `holders` are the cells held from outside the heap. -/
structure Balanced [Holder α] (h : Heap α) (holders : List Nat) : Prop where
  /-- A count is the number of holders outside and inside the heap. -/
  counts : ∀ i, h.count i = holders.count i + h.heldBy i
  /-- A cell that was not made has no holder. -/
  unmade : ∀ i, h.size ≤ i → h.count i = 0

variable [Holder α] {h : Heap α} {holders : List Nat}

theorem Balanced.perm {others : List Nat} (hb : h.Balanced holders) (hp : holders.Perm others) :
    h.Balanced others :=
  ⟨fun i => by rw [hb.counts i, hp.count_eq], hb.unmade⟩

/-- What is held from outside is live. -/
theorem Balanced.live_of_mem (hb : h.Balanced holders) {i : Nat} (hi : i ∈ holders) :
    0 < h.count i := by
  have := hb.counts i
  have := List.count_pos_iff.mpr hi
  omega

theorem Balanced.lt_size (hb : h.Balanced holders) {i : Nat} (hi : 0 < h.count i) : i < h.size := by
  refine Nat.lt_of_not_le fun hge => ?_
  have := hb.unmade i hge
  omega

/-- What a live payload holds is live. -/
theorem Balanced.live_of_held (hb : h.Balanced holders) {i j : Nat} (hj : 0 < h.count j)
    (hheld : Holder.held (h.payload j) = some i) : 0 < h.count i := by
  have : 0 < h.heldBy i := by
    refine List.countP_pos_iff.mpr ⟨j, List.mem_range.mpr (hb.lt_size hj), ?_⟩
    simp [hheld, isLive_iff, hj]
  have := hb.counts i
  omega

/-- The live cells are the cells that are not among `gone`. -/
theorem heldBy_eq_countP {gone : List Nat} (hgone : ∀ j, j ∈ gone ↔ j < h.size ∧ h.count j = 0)
    (i : Nat) : h.heldBy i = ((List.range h.size).filter (· ∉ gone)).countP fun j =>
      Holder.held (h.payload j) == some i := by
  rw [heldBy, List.countP_filter]
  refine List.countP_congr fun j hj => ?_
  have hj := List.mem_range.mp hj
  have hlive : h.isLive j = decide (j ∉ gone) := by
    rw [Bool.eq_iff_iff, isLive_iff, decide_eq_true_iff, hgone]
    omega
  rw [hlive, Bool.and_comm]

/-! ## New cells, new holders, new payloads -/

theorem balanced_empty : ({} : Heap α).Balanced [] := by
  have hcount : ∀ i, ({} : Heap α).count i = 0 := by
    intro i
    simp [count, Table.get_empty, default]
  exact ⟨fun i => by simp [hcount, heldBy], fun i _ => hcount i⟩

/-- A new cell is held once; the holder of what its payload holds moves into the heap. -/
theorem Balanced.makeHolding {p : α} (hb : h.Balanced ((Holder.held p).toList ++ holders)) :
    (h.make p).1.Balanced (h.size :: holders) := by
  have hnew : h.count h.size = 0 := hb.unmade _ (Nat.le_refl _)
  have hheldBy : ∀ i, (h.make p).1.heldBy i = h.heldBy i + (Holder.held p == some i).toNat := by
    intro i
    have hsize : (h.make p).1.size = h.size + 1 := rfl
    simp only [heldBy, hsize, List.range_succ, List.countP_append, List.countP_singleton]
    have hlast : ((h.make p).1.isLive h.size &&
        Holder.held ((h.make p).1.payload h.size) == some i) = (Holder.held p == some i) := by
      simp [isLive, count_make, payload_make]
    have hrest : (List.range h.size).countP (fun j => (h.make p).1.isLive j &&
        Holder.held ((h.make p).1.payload j) == some i) =
        (List.range h.size).countP fun j => h.isLive j && Holder.held (h.payload j) == some i := by
      refine List.countP_congr fun j hj => ?_
      have hj : j ≠ h.size := by have := List.mem_range.mp hj; omega
      simp [isLive, count_make, payload_make, hj]
    rw [hlast, hrest]
    cases Holder.held p == some i <;> rfl
  constructor
  · intro i
    have hc := hb.counts i
    rw [List.count_append, count_toList] at hc
    rw [count_make, hheldBy, List.count_cons]
    by_cases hi : i = h.size
    · subst hi
      simp; omega
    · rw [if_neg hi, if_neg (by simpa using fun h => hi h.symm)]
      omega
  · intro i hi
    have hi : h.size + 1 ≤ i := hi
    rw [count_make, if_neg (by omega)]
    exact hb.unmade i (by omega)

/-- A new cell is held once, and its payload holds nothing yet. -/
theorem Balanced.make (hb : h.Balanced holders) {p : α} (hp : Holder.held p = none) :
    (h.make p).1.Balanced (h.size :: holders) :=
  makeHolding (by rw [hp]; exact hb)

/-- The counts of cells that stay live do not matter to what payloads hold. -/
private theorem heldBy_setCount (h : Heap α) {i n : Nat} (hi : 0 < h.count i) (hn : 0 < n)
    (k : Nat) : (h.setCount i n).heldBy k = h.heldBy k := by
  refine List.countP_congr fun j _ => ?_
  rw [isLive_setCount, payload_setCount]
  by_cases hj : j = i
  · subst hj
    simp [hn, (isLive_iff h j).mpr hi]
  · simp [hj]

theorem Balanced.retain (hb : h.Balanced holders) {i : Nat} (hi : 0 < h.count i) :
    (h.retain i).Balanced (i :: holders) := by
  constructor
  · intro k
    rw [Heap.retain, count_setCount, heldBy_setCount h hi (Nat.succ_pos _), List.count_cons]
    have := hb.counts k
    by_cases hk : k = i
    · subst hk
      simp; omega
    · rw [if_neg hk, if_neg (by simpa using fun h => hk h.symm)]
      omega
  · intro k hk
    have hk : h.size ≤ k := hk
    have hne : k ≠ i := fun h' => by have := hb.lt_size hi; omega
    rw [Heap.retain, count_setCount, if_neg hne]
    exact hb.unmade k hk

/-- One more pointer with the cell of a pointer that is there already. -/
theorem Balanced.retain? (hb : h.Balanced holders) {c : Option Nat}
    (hc : ∀ i, c = some i → 0 < h.count i) :
    (h.retain? c).Balanced (c.toList ++ holders) := by
  cases c with
  | none => exact hb
  | some i => exact hb.retain (hc i rfl)

private theorem heldBy_setPayload (hb : h.Balanced holders) {i : Nat} (hi : 0 < h.count i) (p : α)
    (k : Nat) :
    (h.setPayload i p).heldBy k + (Holder.held (h.payload i) == some k).toNat =
      h.heldBy k + (Holder.held p == some k).toNat := by
  have hlive := (isLive_iff h i).mpr hi
  have := countP_range_update
    (fun j => (h.setPayload i p).isLive j && Holder.held ((h.setPayload i p).payload j) == some k)
    (fun j => h.isLive j && Holder.held (h.payload j) == some k) i
    (fun j hj => by simp [payload_setPayload, hj]) h.size (hb.lt_size hi)
  simpa [heldBy, payload_setPayload, hlive] using this

/-- A live cell gets a payload that holds another cell, or no cell: the holder of the
new one moves into the heap and the holder of the old one out of it. -/
theorem Balanced.setPayload {p : α} {i : Nat}
    (hb : h.Balanced ((Holder.held p).toList ++ holders)) (hi : 0 < h.count i) :
    (h.setPayload i p).Balanced ((Holder.held (h.payload i)).toList ++ holders) := by
  constructor
  · intro k
    have hc := hb.counts k
    have hk := heldBy_setPayload hb hi p k
    rw [List.count_append, count_toList] at hc
    rw [count_setPayload, List.count_append, count_toList]
    omega
  · intro k hk
    rw [count_setPayload]
    exact hb.unmade k hk

/-- A payload may change as long as it holds the same cell. -/
theorem Balanced.setPayload_same (hb : h.Balanced holders) {p : α} {i : Nat}
    (hp : Holder.held p = Holder.held (h.payload i)) : (h.setPayload i p).Balanced holders := by
  constructor
  · intro k
    have hheld : (h.setPayload i p).heldBy k = h.heldBy k := by
      refine List.countP_congr fun j _ => ?_
      rw [isLive_setPayload, payload_setPayload]
      by_cases hj : j = i
      · subst hj
        simp [hp]
      · simp [hj]
    rw [count_setPayload, hheld]
    exact hb.counts k
  · intro k hk
    rw [count_setPayload]
    exact hb.unmade k hk

/-! ## Letting go -/

/-- What letting go of one holder of a cell comes to: `after` is the heap that is left,
with `freed` freed on the way, and `holders` are the holders outside that are left. -/
structure Released (h after : Heap α) (freed holders : List Nat) : Prop where
  /-- The counts are exact again. -/
  balanced : after.Balanced holders
  /-- No cell is made. -/
  size_eq : after.size = h.size
  /-- Payloads stay as they are, also those of freed cells. -/
  payload_eq : ∀ k, after.payload k = h.payload k
  /-- No cell gains a holder. -/
  count_le : ∀ k, after.count k ≤ h.count k
  /-- The cells freed are those that were live and are not. -/
  mem_freed : ∀ k, k ∈ freed ↔ 0 < h.count k ∧ after.count k = 0
  /-- No cell is freed twice. -/
  nodup : freed.Nodup

/-- A holder of a cell that has others lets go. -/
private theorem released_shared {i : Nat} (hb : h.Balanced (i :: holders)) (hi : 1 < h.count i) :
    Released h (h.setCount i (h.count i - 1)) [] holders := by
  have hcount : ∀ k, (h.setCount i (h.count i - 1)).count k =
      if k = i then h.count k - 1 else h.count k := by
    intro k
    rw [count_setCount]
    split
    · rename_i hk; rw [hk]
    · rfl
  refine ⟨⟨?_, ?_⟩, rfl, payload_setCount h i _, ?_, ?_, List.nodup_nil⟩
  · intro k
    have hc := hb.counts k
    rw [List.count_cons] at hc
    rw [hcount, heldBy_setCount h (by omega) (by omega)]
    by_cases hk : k = i
    · subst hk
      simp only [beq_self_eq_true, if_true] at hc ⊢
      omega
    · rw [if_neg (by simpa using fun h => hk h.symm)] at hc
      rw [if_neg hk]
      omega
  · intro k hk
    have := hb.unmade k hk
    rw [hcount]
    split <;> omega
  · intro k
    rw [hcount]
    split <;> omega
  · intro k
    rw [hcount]
    simp only [List.not_mem_nil, false_iff]
    split
    · rename_i hk; subst hk; omega
    · omega

/-- Freeing a cell with one holder: what its payload held is one more holder from
outside, until that is let go of too. -/
theorem balanced_freed {i : Nat} (hb : h.Balanced (i :: holders)) (hi : h.count i = 1) :
    (h.setCount i 0).Balanced ((Holder.held (h.payload i)).toList ++ holders) := by
  have hlive : h.isLive i = true := (isLive_iff h i).mpr (by omega)
  have hlt : i < h.size := hb.lt_size (by omega)
  have hci := hb.counts i
  rw [List.count_cons_self] at hci
  constructor
  · intro k
    have hk := countP_range_update
      (fun j => (h.setCount i 0).isLive j && Holder.held ((h.setCount i 0).payload j) == some k)
      (fun j => h.isLive j && Holder.held (h.payload j) == some k) i
      (fun j hj => by simp [isLive_setCount, hj]) h.size hlt
    have hk : (h.setCount i 0).heldBy k + (Holder.held (h.payload i) == some k).toNat =
        h.heldBy k := by
      simpa [heldBy, isLive_setCount, hlive] using hk
    have hc := hb.counts k
    rw [List.count_cons] at hc
    rw [count_setCount, List.count_append, count_toList]
    by_cases hki : k = i
    · subst hki
      rw [if_pos rfl]
      omega
    · rw [if_neg (by simpa using fun h => hki h.symm)] at hc
      rw [if_neg hki]
      omega
  · intro k hk
    have := hb.unmade k hk
    rw [count_setCount]
    split
    · rfl
    · exact this

/-- A chain of releases, by induction on the fuel.  Each cell freed on the way was live
and is live no more, so the number of live cells is fuel enough. -/
private theorem releaseWith_released (fuel : Nat) :
    ∀ (h : Heap α) (i : Nat), h.Balanced (i :: holders) → h.live.length ≤ fuel →
      Released h (h.releaseWith fuel i).1 (h.releaseWith fuel i).2 holders := by
  induction fuel with
  | zero =>
    intro h i hb hfuel
    have hi : 0 < h.count i := hb.live_of_mem List.mem_cons_self
    have := length_live_setCount (hb.lt_size hi) hi
    omega
  | succ fuel ih =>
    intro h i hb hfuel
    have hi : 0 < h.count i := hb.live_of_mem List.mem_cons_self
    rw [releaseWith]
    split
    · have h1 : h.count i = 1 := by omega
      have hfreed := balanced_freed hb h1
      have hcount : ∀ k, (h.setCount i 0).count k = if k = i then 0 else h.count k :=
        count_setCount h i 0
      split
      · rename_i hheld
        rw [hheld] at hfreed
        refine ⟨hfreed, rfl, payload_setCount h i 0, ?_, ?_, by simp⟩
        · intro k
          rw [hcount]
          split <;> omega
        · intro k
          rw [hcount, List.mem_singleton]
          split
          · rename_i hk; subst hk; omega
          · rename_i hk; omega
      · rename_i j hheld
        rw [hheld] at hfreed
        have hlen := length_live_setCount (hb.lt_size hi) hi
        have hrest := ih (h.setCount i 0) j hfreed (by omega)
        -- the chain goes on in a heap where `i` counts 0 already, so it does not come back
        have hi0 : ((h.setCount i 0).releaseWith fuel j).1.count i = 0 := by
          have := hrest.count_le i
          rw [hcount, if_pos rfl] at this
          omega
        show Released h ((h.setCount i 0).releaseWith fuel j).1
          (i :: ((h.setCount i 0).releaseWith fuel j).2) holders
        refine ⟨hrest.balanced, hrest.size_eq, ?_, ?_, ?_, ?_⟩
        · intro k
          rw [hrest.payload_eq, payload_setCount]
        · intro k
          have := hrest.count_le k
          rw [hcount] at this
          split at this <;> omega
        · intro k
          rw [List.mem_cons, hrest.mem_freed, hcount]
          by_cases hk : k = i
          · subst hk
            simp [hi0, hi]
          · simp [hk]
        · refine List.nodup_cons.mpr ⟨?_, hrest.nodup⟩
          rw [hrest.mem_freed, hcount, if_pos rfl]
          omega
    · exact released_shared hb (by omega)

/-- Letting go of a cell keeps the counts exact. -/
theorem Balanced.release {i : Nat} (hb : h.Balanced (i :: holders)) :
    Released h (h.release i).1 (h.release i).2 holders := by
  have hlive : h.live.length ≤ h.size + 1 := by
    have := List.length_filter_le h.isLive (List.range h.size)
    rw [List.length_range] at this
    unfold live
    omega
  exact releaseWith_released (h.size + 1) h i hb hlive

/-- Letting go of what may be no cell at all. -/
theorem Balanced.release? {c : Option Nat} (hb : h.Balanced (c.toList ++ holders)) :
    Released h (h.release? c).1 (h.release? c).2 holders := by
  cases c with
  | none =>
    exact ⟨hb, rfl, fun _ => rfl, fun _ => Nat.le_refl _, fun k => by simp [Heap.release?]; omega,
      List.nodup_nil⟩
  | some i => exact hb.release

end Substrate.Ownership.Heap
