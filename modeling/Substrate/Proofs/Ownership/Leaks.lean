import Mathlib.Dynamics.PeriodicPts.Lemmas
import Mathlib.Data.Set.Finite.Basic
import Substrate.Proofs.Ownership.Runs

/-!
# Leaks

Counts do not see cycles.  A cell that lies on a cycle of owning payloads is
held by the cycle itself, so no release ever reaches it; every other cell goes
with the last pointer outside the heap.

There are three groups of facts.

* `Balanced.onCycle`: in a heap that nothing outside holds, every live cell has
  an owner, and owners chosen once and for all lead back to where they started.
* `Selfheld` is a set of cells that holds itself; a chain of releases passes it
  by.  `Lessened` collects what letting go of cells does to a heap.
* `Accounted.drops` follows a session whose registers are dropped in any order,
  and `run_close` is the order in which a session drops them at its end.
-/

namespace Substrate.Ownership

namespace Heap

variable {α : Type} [Inhabited α] [Holder α]

/-- The payload of live cell `j` holds cell `k`. -/
def Owns (h : Heap α) (j k : Nat) : Prop := 0 < h.count j ∧ Holder.held (h.payload j) = some k

/-- Owning payloads lead from cell `i` back to it. -/
def OnCycle (h : Heap α) (i : Nat) : Prop := Relation.TransGen h.Owns i i

/-- Every cell of `kept` is live and held by a cell of `kept`. -/
def Selfheld (h : Heap α) (kept : Nat → Prop) : Prop :=
  ∀ i, kept i → 0 < h.count i ∧ ∃ j, kept j ∧ h.Owns j i

variable {h after : Heap α} {holders : List Nat} {i : Nat} {kept : Nat → Prop}

theorem OnCycle.live (hi : h.OnCycle i) : 0 < h.count i := by
  obtain ⟨j, hij, -⟩ := Relation.TransGen.head'_iff.mp hi
  exact hij.1

/-- The owner of a cell on a cycle is on the cycle. -/
theorem selfheld_onCycle (h : Heap α) : h.Selfheld h.OnCycle := by
  intro i hi
  obtain ⟨j, hij, hji⟩ := Relation.TransGen.tail'_iff.mp hi
  exact ⟨hi.live, j, Relation.TransGen.head' hji hij, hji⟩

theorem exists_owns_of_heldBy_pos (hi : 0 < h.heldBy i) : ∃ j, h.Owns j i := by
  obtain ⟨j, -, hj⟩ := List.countP_pos_iff.mp hi
  simp only [Bool.and_eq_true, isLive_iff, beq_iff_eq] at hj
  exact ⟨j, hj⟩

theorem Balanced.heldBy_pos (hb : h.Balanced holders) {j : Nat} (hj : h.Owns j i) :
    0 < h.heldBy i := by
  refine List.countP_pos_iff.mpr ⟨j, List.mem_range.mpr (hb.lt_size hj.1), ?_⟩
  simp [hj.2, isLive_iff, hj.1]

/-! ## A heap that nothing outside holds -/

/-- Without holders outside, every live cell is on a cycle: choosing an owner for each
live cell is injective, and there are finitely many of them. -/
theorem Balanced.onCycle (hb : h.Balanced []) (hi : 0 < h.count i) : h.OnCycle i := by
  have hexists : ∀ k : {k // 0 < h.count k}, ∃ j : {j // 0 < h.count j}, h.Owns j k := by
    rintro ⟨k, hk⟩
    have hcount := hb.counts k
    rw [List.count_nil, Nat.zero_add] at hcount
    obtain ⟨j, hj⟩ := exists_owns_of_heldBy_pos (h := h) (i := k) (by omega)
    exact ⟨⟨j, hj.1⟩, hj⟩
  choose owner howner using hexists
  have hfinite : Finite {k // 0 < h.count k} :=
    ((Set.finite_lt_nat h.size).subset fun k hk => hb.lt_size hk).to_subtype
  have hinjective : Function.Injective owner := by
    intro a b hab
    have ha := (howner a).2
    rw [hab, (howner b).2] at ha
    exact Subtype.ext (Option.some.inj ha).symm
  have hpath : ∀ n x, Relation.TransGen h.Owns (owner^[n + 1] x) x := by
    intro n
    induction n with
    | zero => exact fun x => .single (howner x)
    | succ n ih => exact fun x => (ih (owner x)).tail (howner x)
  obtain ⟨n, hn, hperiod⟩ :=
    Function.mem_periodicPts.mp (hinjective.mem_periodicPts ⟨i, hi⟩)
  have hback := hpath (n - 1) ⟨i, hi⟩
  rwa [Nat.sub_add_cancel hn, hperiod.eq] at hback

/-! ## What a release passes by -/

/-- A chain of releases frees no cell of a set that holds itself: a cell that is freed was
held once, by the pointer that lets go of it. -/
theorem Selfheld.releaseWith (fuel : Nat) :
    ∀ {h : Heap α} {i : Nat}, h.Selfheld kept → h.Balanced (i :: holders) →
      (h.releaseWith fuel i).1.Selfheld kept := by
  induction fuel with
  | zero => exact fun hs _ => hs
  | succ fuel ih =>
    intro h i hs hb
    have hpos : 0 < h.count i := hb.live_of_mem List.mem_cons_self
    rw [Heap.releaseWith]
    split
    · rename_i hone
      have hfree : ¬ kept i := by
        intro hi
        obtain ⟨-, j, -, hj⟩ := hs i hi
        have hheld := hb.heldBy_pos hj
        have hcount := hb.counts i
        rw [List.count_cons_self] at hcount
        omega
      have hfreed : (h.setCount i 0).Selfheld kept := by
        intro k hk
        have hne : ∀ j, kept j → j ≠ i := fun j hj hji => hfree (hji ▸ hj)
        obtain ⟨hcount, j, hj, howns⟩ := hs k hk
        refine ⟨?_, j, hj, ?_, ?_⟩
        · rwa [count_setCount, if_neg (hne k hk)]
        · rw [count_setCount, if_neg (hne j hj)]
          exact howns.1
        · rw [payload_setCount]
          exact howns.2
      split
      · exact hfreed
      · rename_i j hheld
        have hnext := balanced_freed hb (by omega)
        rw [hheld] at hnext
        exact ih hfreed hnext
    · intro k hk
      have hlive : ∀ j, 0 < h.count j → 0 < (h.setCount i (h.count i - 1)).count j := by
        intro j hj
        rw [count_setCount]
        split <;> omega
      obtain ⟨hcount, j, hj, howns⟩ := hs k hk
      exact ⟨hlive k hcount, j, hj, hlive j howns.1, by rw [payload_setCount]; exact howns.2⟩

/-- What letting go of cells does to a heap. -/
structure Lessened (h after : Heap α) : Prop where
  /-- Payloads stay as they are. -/
  payload_eq : ∀ k, after.payload k = h.payload k
  /-- No cell is made. -/
  size_eq : after.size = h.size
  /-- No cell gains a holder. -/
  count_le : ∀ k, after.count k ≤ h.count k
  /-- What holds itself stays. -/
  selfheld : ∀ kept, h.Selfheld kept → after.Selfheld kept

theorem Lessened.refl (h : Heap α) : h.Lessened h :=
  ⟨fun _ => rfl, rfl, fun _ => Nat.le_refl _, fun _ hs => hs⟩

theorem Lessened.trans {last : Heap α} (h₁ : h.Lessened after) (h₂ : after.Lessened last) :
    h.Lessened last :=
  ⟨fun k => (h₂.payload_eq k).trans (h₁.payload_eq k), h₂.size_eq.trans h₁.size_eq,
    fun k => Nat.le_trans (h₂.count_le k) (h₁.count_le k),
    fun kept hs => h₂.selfheld kept (h₁.selfheld kept hs)⟩

theorem Balanced.lessened {c : Option Nat} (hb : h.Balanced (c.toList ++ holders)) :
    h.Lessened (h.release? c).1 := by
  have hreleased := hb.release?
  refine ⟨hreleased.payload_eq, hreleased.size_eq, hreleased.count_le, fun kept hs => ?_⟩
  cases c with
  | none => exact hs
  | some i => exact hs.releaseWith (h.size + 1) hb

theorem Lessened.owns (hl : h.Lessened after) {j k : Nat} (hjk : after.Owns j k) : h.Owns j k :=
  ⟨Nat.lt_of_lt_of_le hjk.1 (hl.count_le j), hl.payload_eq j ▸ hjk.2⟩

/-- Once nothing outside holds a cell, the live ones are those on a cycle, before as after. -/
theorem Lessened.live_iff_onCycle (hl : h.Lessened after) (hb : after.Balanced []) (i : Nat) :
    (0 < after.count i ↔ after.OnCycle i) ∧ (0 < after.count i ↔ h.OnCycle i) := by
  have hcycle : 0 < after.count i → after.OnCycle i := hb.onCycle
  refine ⟨⟨hcycle, OnCycle.live⟩, fun hi => ?_, fun hi => ?_⟩
  · exact Relation.TransGen.mono (fun _ _ => hl.owns) i i (hcycle hi)
  · exact (hl.selfheld _ (selfheld_onCycle h) i hi).1

end Heap

namespace Session

/-- The payload of allocation `j`, which was not released, has an owning pointer to
allocation `k`. -/
def OwnsNext (s : Session) (released : List Nat) (j k : Nat) : Prop :=
  j < s.memory.heap.size ∧ j ∉ released ∧ Holder.held (s.memory.heap.payload j) = some k

/-- Owning pointers in payloads lead from allocation `i` back to it. -/
def OnOwningCycle (s : Session) (released : List Nat) (i : Nat) : Prop :=
  Relation.TransGen (s.OwnsNext released) i i

variable {s : Session} {released : List Nat}

theorem Accounted.live_iff (h : s.Accounted released) {i : Nat} (hi : i < s.memory.heap.size) :
    i ∉ released ↔ 0 < s.memory.heap.count i := by
  rw [h.mem_released]
  omega

theorem Accounted.ownsNext_eq (h : s.Accounted released) :
    s.OwnsNext released = s.memory.heap.Owns := by
  funext j k
  refine propext ⟨fun hjk => ⟨(h.live_iff hjk.1).mp hjk.2.1, hjk.2.2⟩, fun hjk => ?_⟩
  have hj := h.sound.memory.balanced.lt_size hjk.1
  exact ⟨hj, (h.live_iff hj).mpr hjk.1, hjk.2⟩

theorem Accounted.onOwningCycle_iff (h : s.Accounted released) (i : Nat) :
    s.OnOwningCycle released i ↔ s.memory.heap.OnCycle i := by
  rw [OnOwningCycle, h.ownsNext_eq]
  rfl

/-! ## Dropping registers -/

/-- Dropping one register. -/
theorem Sound.lessened_drop (h : s.Sound) (name : String) :
    s.memory.heap.Lessened (s.apply (.drop name)).1.memory.heap ∧
      (s.apply (.drop name)).1.registers = s.registers.erase name := by
  rw [apply]
  split
  · rename_i hnone
    exact ⟨.refl _, (Registers.erase_eq_self hnone).symm⟩
  · rename_i r hr
    have hperm := (Registers.values_erase_perm h.ordered hr).filterMap fun r => r.pointer.cell
    rw [filterMap_cons_cell] at hperm
    exact ⟨(h.memory.balanced.perm hperm.symm).lessened, rfl⟩

/-- Dropping registers one after another: the ones that are left were not among them. -/
theorem Accounted.drops (names : List String) :
    ∀ {s : Session} {released : List Nat}, s.Accounted released →
      let last := (names.map Op.drop).foldl advance (s, released)
      last.1.Accounted last.2 ∧ s.memory.heap.Lessened last.1.memory.heap ∧
        ∀ e ∈ last.1.registers.entries, e ∈ s.registers.entries ∧ e.1 ∉ names := by
  induction names with
  | nil => exact fun h => ⟨h, .refl _, fun e he => ⟨he, List.not_mem_nil⟩⟩
  | cons name rest ih =>
    intro s released h
    obtain ⟨hl, hregisters⟩ := h.sound.lessened_drop name
    obtain ⟨hlast, hrest, hleft⟩ := ih (h.apply (.drop name))
    refine ⟨hlast, hl.trans hrest, fun e he => ?_⟩
    obtain ⟨hmem, hnot⟩ := hleft e he
    rw [hregisters, Registers.erase] at hmem
    obtain ⟨hold, hne⟩ := List.mem_filter.mp hmem
    refine ⟨hold, fun hin => ?_⟩
    rcases List.mem_cons.mp hin with heq | hin
    · simp [heq] at hne
    · exact hnot hin

/-- A session drops its registers in name order at its end. -/
theorem drops_eq_close (entries : List (String × Register)) :
    ∀ (memory : Memory) (released freed : List Nat), (Registers.mk entries).Ordered →
      (entries.map fun e => Op.drop e.1).foldl advance
          ({ memory, registers := ⟨entries⟩ }, released ++ freed) =
        let after := (entries.map Prod.snd).foldl (fun (m, freed) r =>
          let (m, more) := m.drop r.pointer
          (m, freed ++ more)) (memory, freed)
        ({ memory := after.1, registers := .empty }, released ++ after.2) := by
  induction entries with
  | nil => exact fun _ _ _ _ => rfl
  | cons e rest ih =>
    intro memory released freed hordered
    obtain ⟨name, r⟩ := e
    have hget : (Registers.mk ((name, r) :: rest)).get? name = some r := by
      simp [Registers.get?]
    have herase : (Registers.mk ((name, r) :: rest)).erase name = ⟨rest⟩ := by
      have hne : ∀ e ∈ rest, (e.1 != name) = true := by
        intro e he
        have hlt := (List.pairwise_cons.mp hordered).1 e he
        exact bne_iff_ne.mpr fun heq => String.lt_irrefl _ (heq ▸ hlt)
      simp [Registers.erase, List.filter_eq_self.mpr hne]
    have hstep : advance ({ memory, registers := ⟨(name, r) :: rest⟩ }, released ++ freed)
        (.drop name) =
        ({ memory := (memory.drop r.pointer).1, registers := ⟨rest⟩ },
          released ++ (freed ++ (memory.drop r.pointer).2)) := by
      simp [advance, apply, hget, herase, List.append_assoc]
    rw [List.map_cons, List.foldl_cons, hstep, ih _ _ _ (List.pairwise_cons.mp hordered).2]
    rfl

theorem run_append (ops more : List Op) : run (ops ++ more) = more.foldl advance (run ops) :=
  List.foldl_append

/-- The run that ends like a session: its registers are dropped in name order. -/
theorem run_close (ops : List Op) :
    run (ops ++ (run ops).1.registers.names.map Op.drop) =
      ((run ops).1.close.1, (run ops).2 ++ (run ops).1.close.2) := by
  have hordered := (run_accounted ops).sound.ordered
  have h := drops_eq_close (run ops).1.registers.entries (run ops).1.memory (run ops).2 [] hordered
  rw [List.append_nil] at h
  rw [run_append, Registers.names, List.map_map]
  exact h

/-- What owns an allocation points at it. -/
theorem Accounted.next_of_ownsNext (h : s.Accounted released) {j i : Nat}
    (hj : s.OwnsNext released j i) :
    ∃ n part, s.memory.payload (.cell j) = .node n ∧ n.next.cell = some i ∧
      n.next.target = some ⟨.cell i, part⟩ := by
  have hheld := hj.2.2
  cases hpayload : s.memory.heap.payload j with
  | number value =>
    rw [hpayload] at hheld
    cases hheld
  | node n =>
    rw [hpayload] at hheld
    obtain ⟨part, hpart⟩ := h.sound.memory.next_paired (.cell j) n hpayload i hheld
    exact ⟨n, part, hpayload, hheld, hpart⟩

/-- After the registers of any run were dropped, in any order, the allocations that were not
released are those on a cycle of owning pointers in payloads, before as after.  So views
keep nothing alive, and what only leads into a cycle is released. -/
theorem unreleased_iff_on_owning_cycle (ops : List Op) (names : List String)
    (hall : ∀ name ∈ (run ops).1.registers.names, name ∈ names) :
    let s := (run ops).1
    let released := (run ops).2
    let s' := (run (ops ++ names.map Op.drop)).1
    let released' := (run (ops ++ names.map Op.drop)).2
    s'.registers.values = [] ∧
    (∀ i, i < s'.memory.heap.size →
      (i ∉ released' ↔ s'.OnOwningCycle released' i) ∧
        (i ∉ released' ↔ s.OnOwningCycle released i)) ∧
    (∀ i, i < s'.memory.heap.size →
      (∀ j n part, j ∉ released → s.memory.payload (.cell j) = .node n →
        n.next.target = some ⟨.cell i, part⟩ → n.next.cell = none) → i ∈ released') ∧
    (∀ i k, Relation.TransGen (s.OwnsNext released) i k → s.OnOwningCycle released k →
      ¬ s.OnOwningCycle released i → i ∈ released') ∧
    run (ops ++ s.registers.names.map Op.drop) = (s.close.1, released ++ s.close.2) := by
  intro s released s' released'
  have h : s.Accounted released := run_accounted ops
  have hdrops := h.drops names
  rw [show (names.map Op.drop).foldl advance (s, released) = (s', released') from
    (run_append ops _).symm] at hdrops
  obtain ⟨h', hl, hleft⟩ := hdrops
  have hentries : s'.registers.entries = [] := by
    refine List.eq_nil_iff_forall_not_mem.mpr fun e he => ?_
    obtain ⟨hmem, hnot⟩ := hleft e he
    exact hnot (hall e.1 (List.mem_map_of_mem hmem))
  have hvalues : s'.registers.values = [] := by rw [Registers.values, hentries]; rfl
  have hbalanced : s'.memory.heap.Balanced [] := by
    have := h'.sound.memory.balanced
    rwa [held, hvalues] at this
  have hleaked : ∀ i, i < s'.memory.heap.size →
      (i ∉ released' ↔ s'.OnOwningCycle released' i) ∧
      (i ∉ released' ↔ s.OnOwningCycle released i) := by
    intro i hi
    rw [h'.live_iff hi, h'.onOwningCycle_iff, h.onOwningCycle_iff]
    exact hl.live_iff_onCycle hbalanced i
  refine ⟨hvalues, hleaked, fun i hi hborrowed => ?_, fun i k hik _ hi => ?_, run_close ops⟩
  · by_contra hlive
    obtain ⟨j, -, hj⟩ := Relation.TransGen.tail'_iff.mp ((hleaked i hi).2.mp hlive)
    obtain ⟨n, part, hn, hcell, hpart⟩ := h.next_of_ownsNext hj
    rw [hborrowed j n part hj.2.1 hn hpart] at hcell
    cases hcell
  · obtain ⟨j, hij, -⟩ := Relation.TransGen.head'_iff.mp hik
    have hlt : i < s'.memory.heap.size := hl.size_eq ▸ hij.1
    by_contra hlive
    exact hi ((hleaked i hlt).2.mp hlive)

/-- Two nodes that own one another, one that leads to them, and one at which only a view
points. -/
def ring : List Op :=
  [.make "a" 0 0, .make "b" 0 0, .make "c" 0 0, .make "d" 0 0, .view "v" "d", .link "a" "b",
    .link "b" "a", .link "c" "a", .link "d" "v"]

theorem unreleased_iff_on_owning_cycle_ring :
    (∀ name ∈ (run ring).1.registers.names, name ∈ ["d", "a", "v", "c", "b"]) ∧
      (run (ring ++ ["d", "a", "v", "c", "b"].map Op.drop)).2 = [3, 2] ∧
      (run ring).1.OnOwningCycle (run ring).2 0 ∧ ¬ (run ring).1.OnOwningCycle (run ring).2 2 := by
  have hall : ∀ name ∈ (run ring).1.registers.names, name ∈ ["d", "a", "v", "c", "b"] := by
    decide +kernel
  have hreleased : (run (ring ++ ["d", "a", "v", "c", "b"].map Op.drop)).2 = [3, 2] := by
    decide +kernel
  obtain ⟨-, hleaked, -⟩ := unreleased_iff_on_owning_cycle ring _ hall
  refine ⟨hall, hreleased, ?_, fun hcycle => ?_⟩
  · exact (hleaked 0 (by decide +kernel)).2.mp (by rw [hreleased]; decide)
  · exact absurd ((hleaked 2 (by decide +kernel)).2.mpr hcycle) (by rw [hreleased]; decide)

end Session

end Substrate.Ownership
