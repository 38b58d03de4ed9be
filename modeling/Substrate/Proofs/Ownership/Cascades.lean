import Substrate.Proofs.Ownership.Leaks

/-!
# What one release frees

A release that frees a cell goes on with the cell that the freed payload held.
`Heap.SolePath` is a path of that kind through cells that have one holder each,
counted before the release.  `Heap.Cascade` says that a release frees exactly
the longest such path, in order, takes one holder from the cell behind it, and
leaves all other cells alone; and that it ends.

The path is read off the heap as it was before, although the counts change on
the way.  This is right because a cell with one holder that is being let go of
from outside is held by no payload (`Balanced.not_owns`), so the path never
comes back to it.
-/

namespace Substrate.Ownership

namespace Heap

variable {α : Type} [Inhabited α] [Holder α] {h after : Heap α} {i : Nat} {cells : List Nat}

/-- A path from cell `i` on, along the cells that payloads hold, through cells that have one
holder each. -/
structure SolePath (h : Heap α) (i : Nat) (cells : List Nat) : Prop where
  starts : ∀ j ∈ cells.head?, j = i
  follows : cells.IsChain fun j k => Holder.held (h.payload j) = some k
  sole : ∀ j ∈ cells, h.count j = 1

theorem SolePath.nil (h : Heap α) (i : Nat) : h.SolePath i [] :=
  ⟨fun _ hj => (Option.not_mem_none _ hj).elim, .nil, fun _ hj => (List.not_mem_nil hj).elim⟩

theorem solePath_singleton (hi : h.count i = 1) : h.SolePath i [i] :=
  ⟨fun _ hj => (Option.mem_some.mp hj).symm, .singleton i, fun j hj => by
    rw [List.mem_singleton.mp hj, hi]⟩

theorem SolePath.cons {k : Nat} (hpath : h.SolePath k cells) (hi : h.count i = 1)
    (hheld : Holder.held (h.payload i) = some k) : h.SolePath i (i :: cells) := by
  refine ⟨fun _ hj => (Option.mem_some.mp hj).symm, ?_, ?_⟩
  · cases cells with
    | nil => exact .singleton i
    | cons j rest =>
      have hj : j = k := hpath.starts j rfl
      exact .cons_cons (hj ▸ hheld) hpath.follows
  · intro j hj
    rcases List.mem_cons.mp hj with rfl | hj
    · exact hi
    · exact hpath.sole j hj

/-- A path is empty, or it starts with `i` and goes on with what the payload of `i` holds. -/
theorem SolePath.cases (hpath : h.SolePath i cells) :
    cells = [] ∨ ∃ rest, cells = i :: rest ∧ h.count i = 1 ∧
      (rest = [] ∨ ∃ k, Holder.held (h.payload i) = some k ∧ h.SolePath k rest) := by
  cases cells with
  | nil => exact .inl rfl
  | cons j rest =>
    obtain rfl : j = i := hpath.starts j rfl
    refine .inr ⟨rest, rfl, hpath.sole j List.mem_cons_self, ?_⟩
    cases rest with
    | nil => exact .inl rfl
    | cons k rest =>
      obtain ⟨hheld, hfollows⟩ := List.isChain_cons_cons.mp hpath.follows
      exact .inr ⟨k, hheld, fun _ hj => (Option.mem_some.mp hj).symm, hfollows, fun j hj =>
        hpath.sole j (List.mem_cons_of_mem _ hj)⟩

/-- The cells of a path do not depend on those outside it. -/
theorem SolePath.congr (hpath : h.SolePath i cells) (hpayload : ∀ k, after.payload k = h.payload k)
    (hcount : ∀ k ∈ cells, after.count k = h.count k) : after.SolePath i cells := by
  refine ⟨hpath.starts, ?_, fun j hj => (hcount j hj).trans (hpath.sole j hj)⟩
  simp only [hpayload]
  exact hpath.follows

/-- Each cell of a path but the first is owned by another of them. -/
theorem SolePath.owned (hpath : h.SolePath i cells) {k : Nat} (hk : k ∈ cells) (hne : k ≠ i) :
    ∃ j, h.Owns j k := by
  induction cells generalizing i with
  | nil => cases hk
  | cons j rest ih =>
    obtain hnil | ⟨rest', hcons, hcount, hrest⟩ := hpath.cases
    · cases hnil
    · cases hcons
      have hk : k ∈ rest := by simpa [hne] using hk
      obtain rfl | ⟨l, hheld, htail⟩ := hrest
      · cases hk
      · by_cases hkl : k = l
        · exact ⟨j, by omega, hkl ▸ hheld⟩
        · exact ih htail hk hkl

/-- A cell whose only holder is outside the heap is owned by no cell. -/
theorem Balanced.not_owns {holders : List Nat} (hb : h.Balanced (i :: holders)) (hi : h.count i = 1)
    (j : Nat) : ¬ h.Owns j i := by
  intro hj
  have hcount := hb.counts i
  have := hb.heldBy_pos hj
  rw [List.count_cons_self] at hcount
  omega

/-- The cell behind a path from cell `i` on: what the last payload holds, or `i` itself if
there is no cell on the path. -/
def behind (h : Heap α) (i : Nat) (cells : List Nat) : Option Nat :=
  match cells.getLast? with
  | some j => Holder.held (h.payload j)
  | none => some i

theorem behind_cons {k : Nat} (hheld : Holder.held (h.payload i) = some k) (cells : List Nat) :
    h.behind i (i :: cells) = h.behind k cells := by
  unfold behind
  cases cells with
  | nil => simpa using hheld
  | cons j rest => simp [List.getLast?_cons]

/-- What follows when a holder of cell `i` lets go: the longest path of cells with one holder
is freed, the cell behind it has one holder less, and the rest stays as it is.  It ends:
no bound beyond the number of cells makes a difference. -/
structure Cascade (h after : Heap α) (i : Nat) (freed : List Nat) : Prop where
  path : h.SolePath i freed
  longest : ∀ cells, h.SolePath i cells → cells.length ≤ freed.length
  count_freed : ∀ k ∈ freed, after.count k = 0
  count_behind : ∀ k, h.behind i freed = some k → k ∉ freed ∧ after.count k + 1 = h.count k
  count_other : ∀ k, k ∉ freed → h.behind i freed ≠ some k → after.count k = h.count k
  payload_eq : ∀ k, after.payload k = h.payload k
  size_eq : after.size = h.size
  ends : ∀ fuel, h.live.length ≤ fuel → h.releaseWith fuel i = (after, freed)

section

variable {holders : List Nat} (hb : h.Balanced (i :: holders))
include hb

/-- A bound on a release of a live cell lets it take its first step. -/
theorem Balanced.fuel_eq {fuel : Nat} (hfuel : h.live.length ≤ fuel) :
    ∃ rest, fuel = rest + 1 ∧ (h.setCount i 0).live.length ≤ rest := by
  have hi : 0 < h.count i := hb.live_of_mem List.mem_cons_self
  have := length_live_setCount (hb.lt_size hi) hi
  exact ⟨fuel - 1, by omega, by omega⟩

/-- A holder of a cell that has others lets go. -/
theorem Balanced.cascade_shared (hi : 1 < h.count i) :
    Cascade h (h.setCount i (h.count i - 1)) i [] where
  path := .nil h i
  longest := fun cells hcells => by
    obtain rfl | ⟨rest, -, hone, -⟩ := hcells.cases
    · exact Nat.le_refl _
    · omega
  count_freed := fun k hk => (List.not_mem_nil hk).elim
  count_behind := fun k hk => by
    obtain rfl : i = k := Option.some.inj hk
    refine ⟨List.not_mem_nil, ?_⟩
    rw [count_setCount, if_pos rfl]
    omega
  count_other := fun k _ hk => by
    rw [count_setCount, if_neg fun he => hk (congrArg some he.symm)]
  payload_eq := payload_setCount h i _
  size_eq := rfl
  ends := fun fuel hfuel => by
    obtain ⟨rest, rfl, -⟩ := hb.fuel_eq hfuel
    rw [releaseWith, if_neg (by omega)]

/-- The only holder of a cell lets go whose payload holds nothing. -/
theorem Balanced.cascade_last (hi : h.count i = 1) (hheld : Holder.held (h.payload i) = none) :
    Cascade h (h.setCount i 0) i [i] where
  path := solePath_singleton hi
  longest := fun cells hcells => by
    obtain rfl | ⟨rest, rfl, -, rfl | ⟨k, hk, -⟩⟩ := hcells.cases
    · exact Nat.zero_le _
    · exact Nat.le_refl _
    · cases hheld.symm.trans hk
  count_freed := fun k hk => by rw [count_setCount, if_pos (List.mem_singleton.mp hk)]
  count_behind := fun k hk => by cases hheld.symm.trans hk
  count_other :=
    fun k hk _ => by rw [count_setCount, if_neg fun he => hk (List.mem_singleton.mpr he)]
  payload_eq := payload_setCount h i _
  size_eq := rfl
  ends := fun fuel hfuel => by
    obtain ⟨rest, rfl, -⟩ := hb.fuel_eq hfuel
    rw [releaseWith, if_pos (by omega), hheld]

/-- The only holder of a cell lets go, and then the payload lets go of what it held.  What
that comes to is the same in the heap before: nothing on the way leads back to the cell. -/
theorem Balanced.cascade_cons (hi : h.count i = 1) {k : Nat}
    (hheld : Holder.held (h.payload i) = some k) {freed : List Nat}
    (hrest : Cascade (h.setCount i 0) after k freed) : Cascade h after i (i :: freed) := by
  have hother {j : Nat} (hj : j ≠ i) : (h.setCount i 0).count j = h.count j := by
    rw [count_setCount, if_neg hj]
  have hzero : (h.setCount i 0).count i = 0 := by rw [count_setCount, if_pos rfl]
  have hmem : i ∉ freed := fun hmem => by
    have := hrest.path.sole i hmem
    omega
  have hpath : h.SolePath k freed :=
    hrest.path.congr (fun j => (payload_setCount h i 0 j).symm) fun j hj =>
      (hother fun he => hmem (he ▸ hj)).symm
  have hbehind (j : Nat) : (h.setCount i 0).behind j freed = h.behind j freed := by
    simp only [behind, payload_setCount]
  have hgone : after.count i = 0 := by
    by_cases hlast : (h.setCount i 0).behind k freed = some i
    · have := (hrest.count_behind i hlast).2
      omega
    · rw [hrest.count_other i hmem hlast, hzero]
  refine ⟨hpath.cons hi hheld, fun cells hcells => ?_, fun j hj => ?_, fun j hj => ?_,
    fun j hj hne => ?_, fun j => ?_, hrest.size_eq, fun fuel hfuel => ?_⟩
  · obtain rfl | ⟨rest, rfl, -, rfl | ⟨l, hl, htail⟩⟩ := hcells.cases
    · exact Nat.zero_le _
    · exact Nat.succ_le_succ (Nat.zero_le _)
    · obtain rfl : k = l := Option.some.inj (hheld.symm.trans hl)
      refine Nat.succ_le_succ (hrest.longest rest (htail.congr (payload_setCount h i 0) ?_))
      -- a path that came back to the cell would end in a payload that owns it
      refine fun j hj => hother fun he => ?_
      subst he
      by_cases hjk : j = k
      · exact hb.not_owns hi j ⟨by omega, hjk ▸ hheld⟩
      · obtain ⟨l, hl⟩ := htail.owned hj hjk
        exact hb.not_owns hi l hl
  · rcases List.mem_cons.mp hj with rfl | hj
    · exact hgone
    · exact hrest.count_freed j hj
  · rw [behind_cons hheld, ← hbehind] at hj
    obtain ⟨hnot, hcount⟩ := hrest.count_behind j hj
    have hji : j ≠ i := fun he => by
      rw [he] at hcount
      omega
    rw [hother hji] at hcount
    exact ⟨fun hmem => (List.mem_cons.mp hmem).elim hji hnot, hcount⟩
  · rw [List.mem_cons, not_or] at hj
    rw [behind_cons hheld, ← hbehind] at hne
    rw [hrest.count_other j hj.2 hne, hother hj.1]
  · rw [hrest.payload_eq, payload_setCount]
  · obtain ⟨rest, rfl, hlive⟩ := hb.fuel_eq hfuel
    rw [releaseWith, if_pos (by omega), hheld]
    dsimp only
    rw [hrest.ends rest hlive]

end

/-- What letting go of a holder of a cell comes to.  The number of live cells bounds how far
it goes: each cell freed on the way is live no more. -/
theorem Balanced.exists_cascade {holders : List Nat} (n : Nat) :
    ∀ (h : Heap α) (i : Nat), h.Balanced (i :: holders) → h.live.length ≤ n →
      ∃ after freed, Cascade h after i freed := by
  induction n with
  | zero =>
    intro h i hb hn
    obtain ⟨rest, hrest, -⟩ := hb.fuel_eq hn
    omega
  | succ n ih =>
    intro h i hb hn
    have hi : 0 < h.count i := hb.live_of_mem List.mem_cons_self
    by_cases hone : h.count i = 1
    · cases hheld : Holder.held (h.payload i) with
      | none => exact ⟨_, _, hb.cascade_last hone hheld⟩
      | some k =>
        have hfreed := balanced_freed hb hone
        rw [hheld] at hfreed
        have := length_live_setCount (hb.lt_size hi) hi
        obtain ⟨after, freed, hrest⟩ := ih (h.setCount i 0) k hfreed (by omega)
        exact ⟨after, i :: freed, hb.cascade_cons hone hheld hrest⟩
    · exact ⟨_, _, hb.cascade_shared (by omega)⟩

theorem Balanced.cascade {holders : List Nat} (hb : h.Balanced (i :: holders)) :
    Cascade h (h.release i).1 i (h.release i).2 := by
  obtain ⟨after, freed, hcascade⟩ := exists_cascade h.live.length h i hb (Nat.le_refl _)
  have hsize : h.live.length ≤ h.size + 1 := by
    have := List.length_filter_le h.isLive (List.range h.size)
    rw [List.length_range] at this
    unfold live
    omega
  rw [Heap.release, hcascade.ends _ hsize]
  exact hcascade

end Heap

namespace Session

open Heap (Cascade)

variable {s : Session} {name : String} {r : Register}

/-- Letting go of a pointer in a register, and of the register or not. -/
theorem Sound.cascade_drop (h : s.Sound) (hr : s.registers.get? name = some r) {i : Nat}
    (hi : r.pointer.cell = some i) :
    s.memory.heap.Cascade (s.memory.drop r.pointer).1.heap i (s.memory.drop r.pointer).2 := by
  have hmem : i ∈ s.held := List.mem_filterMap.mpr ⟨r, mem_of_get? hr, hi⟩
  have hcascade := (h.memory.balanced.perm (List.perm_cons_erase hmem)).cascade
  rw [Memory.drop, hi]
  exact hcascade

/-- The pointer that an owned node holds is let go of. -/
theorem Sound.apply_unlink (h : s.Sound) (hr : s.registers.get? name = some r) {j : Nat}
    (hj : ownedNode? r = some (.cell j)) :
    s.apply (.unlink name) =
      ({ s with memory := (s.memory.resetNext (.cell j)).1 }, .nothing,
        (s.memory.resetNext (.cell j)).2) := by
  obtain ⟨k, n, hcell, hmem, -⟩ := h.ownedNode hr hj
  cases hcell
  have hlive : 0 < s.memory.heap.count j := h.memory.balanced.live_of_mem hmem
  unfold ownedNode? at hj
  split at hj
  · cases hj
  · rename_i hnot
    simp only [Bool.or_eq_true, bne_iff_ne, ne_eq, not_or, Decidable.not_not,
      Option.isNone_iff_eq_none] at hnot
    obtain ⟨⟨hbare, htag⟩, hcell⟩ := hnot
    obtain ⟨place, htarget, hsite⟩ := Option.map_eq_some_iff.mp hj
    have hdangling : s.isDangling r = false := by
      simp [isDangling, htarget, hsite, Memory.isFreed, Heap.isLive, hlive]
    simp [Session.apply, Session.onSound, Session.on, Session.onTarget, hr, hdangling, htag, hbare,
      htarget, hcell, hsite]

theorem Sound.cascade_unlink (h : s.Sound) (hr : s.registers.get? name = some r) {i j : Nat}
    (hj : ownedNode? r = some (.cell j)) (hi : (s.memory.node (.cell j)).next.cell = some i) :
    (s.memory.setNext (.cell j) {}).heap.Cascade (s.apply (.unlink name)).1.memory.heap i
      (s.apply (.unlink name)).2.2 := by
  obtain ⟨k, n, hcell, hmem, hn⟩ := h.ownedNode hr hj
  cases hcell
  have hlive : 0 < s.memory.heap.count j := h.memory.balanced.live_of_mem hmem
  have hnext : (s.memory.node (.cell j)).next = n.next := by rw [Memory.node_of_payload hn]
  have hempty : ({} : Pointer).Paired := Pointer.paired_of_none rfl
  have htoNode : s.memory.ToNode {} := fun place hplace => by cases hplace
  obtain ⟨hsound, -⟩ := Memory.Sound.setNext h.memory hn hlive hempty htoNode
  have hbalanced := hsound.balanced
  rw [← hnext, hi] at hbalanced
  rw [h.apply_unlink hr hj, Memory.resetNext, Memory.drop, hi]
  exact hbalanced.cascade

/-- In any state that a run reaches, let go of one owning pointer to cell `i`: by dropping or
emptying a register that holds it, or by emptying the pointer that the node of a register
holds.  The cells dropped are, in order, those of the longest path from `i` on along the
pointers in nodes through cells that had one holder each.  The cell behind the path has one
holder less, and all else is as it was.  The bound on the number of steps is never
reached. -/
theorem release_drops_longest_sole_path (ops : List Op) {name : String} {r : Register}
    (hr : (run ops).1.registers.get? name = some r) :
    let s := (run ops).1
    (∀ i, r.pointer.cell = some i → ∀ op ∈ [Op.drop name, Op.reset name],
      s.memory.heap.Cascade (s.apply op).1.memory.heap i (s.apply op).2.2 ∧
        (s.apply op).1.memory.fixed = s.memory.fixed) ∧
    ∀ i j, ownedNode? r = some (.cell j) → (s.memory.node (.cell j)).next.cell = some i →
      (s.memory.setNext (.cell j) {}).heap.Cascade (s.apply (.unlink name)).1.memory.heap i
        (s.apply (.unlink name)).2.2 ∧
      (s.apply (.unlink name)).1.memory.fixed = s.memory.fixed := by
  intro s
  have h : s.Sound := (run_accounted ops).sound
  refine ⟨fun i hi op hop => ?_, fun i j hj hi => ⟨h.cascade_unlink hr hj hi, ?_⟩⟩
  · have hcascade := h.cascade_drop hr hi
    simp only [List.mem_cons, List.not_mem_nil, or_false] at hop
    rcases hop with rfl | rfl
    · have happly : s.apply (.drop name) =
          (⟨(s.memory.drop r.pointer).1, s.registers.erase name⟩, .truth true,
            (s.memory.drop r.pointer).2) := by
        rw [Session.apply, hr]
      rw [happly]
      exact ⟨hcascade, rfl⟩
    · have happly : s.apply (.reset name) =
          (⟨(s.memory.drop r.pointer).1, s.registers.set name { r with pointer := {} }⟩, .nothing,
            (s.memory.drop r.pointer).2) := by
        rw [Session.apply, Session.on, hr]
      rw [happly]
      exact ⟨hcascade, rfl⟩
  · rw [h.apply_unlink hr hj]
    show (s.memory.setNext (.cell j) {}).fixed = s.memory.fixed
    unfold Memory.setNext
    split <;> rfl

/-- Three nodes in a row; the first and the last are held by registers as well. -/
def row : List Op :=
  [.make "a" 0 0, .make "b" 0 0, .make "c" 0 0, .link "a" "b", .link "b" "c", .drop "b"]

/-- Dropping the first node drops the second with it, and the third has one holder less. -/
theorem release_drops_longest_sole_path_row :
    (run row).1.registers.get? "a" = some { pointer := ⟨some ⟨.cell 0, .start⟩, some 0⟩ } ∧
      ((run row).1.apply (.drop "a")).2.2 = [0, 1] ∧
      (run row).1.memory.heap.SolePath 0 [0, 1] ∧
      ((run row).1.apply (.drop "a")).1.memory.heap.count 2 + 1 =
        (run row).1.memory.heap.count 2 ∧
      ((run row).1.memory.setNext (.cell 0) {}).heap.Cascade
        ((run row).1.apply (.unlink "a")).1.memory.heap 1 [1] := by
  have hr : (run row).1.registers.get? "a" =
      some { pointer := ⟨some ⟨.cell 0, .start⟩, some 0⟩ } := by decide +kernel
  have hfreed : ((run row).1.apply (.drop "a")).2.2 = [0, 1] := by decide +kernel
  have hunlinked : ((run row).1.apply (.unlink "a")).2.2 = [1] := by decide +kernel
  obtain ⟨hdrop, hunlink⟩ := release_drops_longest_sole_path row hr
  have hcascade := (hdrop 0 rfl (.drop "a") (by simp)).1
  have hcascade' := (hunlink 1 0 rfl (by decide +kernel)).1
  rw [hfreed] at hcascade
  rw [hunlinked] at hcascade'
  exact ⟨hr, hfreed, hcascade.path, (hcascade.count_behind 2 (by decide +kernel)).2, hcascade'⟩

end Session

end Substrate.Ownership
