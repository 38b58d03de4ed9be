import Substrate.Proofs.Ownership.Pointers

/-!
# Runs of pointer operations

What holds in every state that a sequence of operations on named pointers can
reach.  `Session.Sound` is the invariant, `apply_advances` its step lemma, and
`run_sound` the run lemma: the counts are exact, and the cells released so far
are the cells made and no longer live.
-/

namespace Substrate.Ownership.Session

/-- The cells held by the registers, one entry for each register that holds one. -/
def held (s : Session) : List Nat := s.registers.values.filterMap fun r => r.pointer.cell

/-- The registers are in order, whatever the counts are. -/
structure Tidy (s : Session) : Prop where
  /-- Each name has one register. -/
  ordered : s.registers.Ordered
  /-- A pointer that holds a cell points into it. -/
  paired : ∀ r ∈ s.registers.values, r.pointer.Paired
  /-- A pointer at a node points at a node. -/
  toNode : ∀ r ∈ s.registers.values, r.tag = .node → s.memory.ToNode r.pointer

/-- The invariant of a session between two operations. -/
structure Sound (s : Session) : Prop extends Tidy s where
  /-- The counts are exact for the registers. -/
  memory : s.memory.Sound s.held

/-- An operation that went from memory `m` to `out` kept the invariant, and the cells it
reports as freed are those it freed. -/
structure Advances (m : Memory) (out : Outcome) : Prop where
  /-- The invariant holds afterwards. -/
  sound : out.1.Sound
  /-- What became of the cells. -/
  frees : m.Frees out.1.memory out.2.2

theorem Sound.keep {s : Session} (h : s.Sound) (r : Reply) : Advances s.memory (s.keep r) :=
  ⟨h, Memory.Frees.refl s.memory⟩

/-! ## Registers -/

theorem Sound.live {s : Session} (h : s.Sound) {r : Register}
    (hr : r ∈ s.registers.values) {i : Nat}
    (hi : r.pointer.cell = some i) : 0 < s.memory.heap.count i :=
  h.memory.balanced.live_of_mem (List.mem_filterMap.mpr ⟨r, hr, hi⟩)

theorem mem_of_get? {s : Session} {name : String} {r : Register}
    (h : s.registers.get? name = some r) : r ∈ s.registers.values :=
  Registers.mem_values_of_get? h

theorem filterMap_cons_cell (r : Register) (l : List Register) :
    (r :: l).filterMap (fun r => r.pointer.cell) =
      r.pointer.cell.toList ++ l.filterMap fun r => r.pointer.cell := by
  rw [List.filterMap_cons]
  cases r.pointer.cell <;> rfl

/-- The registers after storing under a name: each is new or was there. -/
theorem mem_values_set {s : Session} {name : String} {r r' : Register}
    (h : r' ∈ (s.registers.set name r).values) : r' = r ∨ r' ∈ s.registers.values := by
  obtain ⟨e, he, rfl⟩ := List.mem_map.mp h
  rcases Registers.mem_insertEntry he with rfl | he
  · exact Or.inl rfl
  · exact Or.inr (List.mem_map.mpr ⟨e, he, rfl⟩)

/-- The registers after erasing a name were there. -/
theorem mem_values_erase {s : Session} {name : String} {r : Register}
    (h : r ∈ (s.registers.erase name).values) : r ∈ s.registers.values := by
  obtain ⟨e, he, rfl⟩ := List.mem_map.mp h
  exact List.mem_map.mpr ⟨e, (List.mem_filter.mp he).1, rfl⟩

theorem Tidy.set {s : Session} (h : s.Tidy) {m : Memory} {freed : List Nat}
    (hfrees : s.memory.Frees m freed) (name : String) {r : Register} (hpaired : r.pointer.Paired)
    (htoNode : r.tag = .node → m.ToNode r.pointer) :
    Tidy { memory := m, registers := s.registers.set name r } := by
  refine ⟨h.ordered.set name r, ?_, ?_⟩
  · intro r' hr'
    rcases mem_values_set hr' with rfl | hr'
    · exact hpaired
    · exact h.paired r' hr'
  · intro r' hr' htag
    rcases mem_values_set hr' with rfl | hr'
    · exact htoNode htag
    · exact hfrees.toNode (h.toNode r' hr' htag)

theorem Tidy.erase {s : Session} (h : s.Tidy) {m : Memory} {freed : List Nat}
    (hfrees : s.memory.Frees m freed) (name : String) :
    Tidy { memory := m, registers := s.registers.erase name } :=
  ⟨h.ordered.erase name, fun r hr => h.paired r (mem_values_erase hr),
    fun r hr htag => hfrees.toNode (h.toNode r (mem_values_erase hr) htag)⟩

/-- The memory may change under the registers. -/
theorem Sound.withMemory {s : Session} (h : s.Sound) {m : Memory} {freed : List Nat} (reply : Reply)
    (hm : m.Sound s.held) (hfrees : s.memory.Frees m freed) :
    Advances s.memory ({ s with memory := m }, reply, freed) :=
  ⟨⟨⟨h.ordered, h.paired, fun r hr htag => hfrees.toNode (h.toNode r hr htag)⟩, hm⟩, hfrees⟩

/-! ## Storing and dropping -/

/-- Storing under a name.  `m` is the memory with the new pointer as one more holder, and
a cell that it has beyond those of the session is the cell of that pointer. -/
theorem Tidy.store {s : Session} (h : s.Tidy) (name : String) {m : Memory} {r : Register}
    (reply : Reply) {holders : List Nat} (hs : s.memory.Sound holders)
    (hm : m.Sound (r.pointer.cell.toList ++ s.held)) (hquiet : s.memory.Frees m [])
    (hmade : ∀ k, s.memory.heap.size ≤ k → k < m.heap.size → r.pointer.cell = some k)
    (hpaired : r.pointer.Paired) (htoNode : r.tag = .node → m.ToNode r.pointer) :
    Advances s.memory (s.store name m r reply) := by
  unfold Session.store
  split
  · rename_i hnone
    have hperm := (Registers.values_set_perm_of_none r hnone).filterMap fun r => r.pointer.cell
    rw [filterMap_cons_cell] at hperm
    exact ⟨⟨h.set hquiet name hpaired htoNode, hm.perm hperm.symm⟩, hquiet⟩
  · rename_i old hold
    have hperm := (Registers.values_set_perm h.ordered r hold).filterMap fun r => r.pointer.cell
    rw [filterMap_cons_cell, filterMap_cons_cell] at hperm
    have hm' := hm.perm hperm.symm
    obtain ⟨hdropped, hfrees, -⟩ := hm'.drop
    have hnew : ∀ k, r.pointer.cell = some k →
        k ∈ (s.registers.set name r).values.filterMap fun r => r.pointer.cell := by
      intro k hk
      have hmem : r ∈ (s.registers.set name r).values :=
        Registers.mem_values_of_get? (by rw [Registers.get?_set, if_pos rfl])
      exact List.mem_filterMap.mpr ⟨r, hmem, hk⟩
    have hall := hquiet.trans hfrees hs.balanced hm'.balanced fun k hk hk' =>
      hdropped.balanced.live_of_mem (hnew k (hmade k hk hk'))
    exact ⟨⟨h.set hall name hpaired fun htag => hfrees.toNode (htoNode htag), hdropped⟩, hall⟩

/-- Storing a pointer that needs no new cell. -/
theorem Sound.store {s : Session} (h : s.Sound) (name : String) {m : Memory} {r : Register}
    (reply : Reply) (hm : m.Sound (r.pointer.cell.toList ++ s.held)) (hquiet : s.memory.Frees m [])
    (hsize : m.heap.size = s.memory.heap.size) (hpaired : r.pointer.Paired)
    (htoNode : r.tag = .node → m.ToNode r.pointer) :
    Advances s.memory (s.store name m r reply) :=
  h.toTidy.store name reply h.memory hm hquiet (fun k hk hk' => by omega) hpaired htoNode

/-- Storing a copy of a pointer that is held. -/
theorem Sound.storeClone {s : Session} (h : s.Sound) (name : String) (r : Register) (reply : Reply)
    (hlive : ∀ i, r.pointer.cell = some i → 0 < s.memory.heap.count i) (hpaired : r.pointer.Paired)
    (htoNode : r.tag = .node → s.memory.ToNode r.pointer) :
    Advances s.memory (s.store name (s.memory.clone r.pointer).1 r reply) := by
  obtain ⟨hm, hquiet⟩ := h.memory.clone hlive
  exact h.store name reply hm hquiet (Memory.size_clone _ _) hpaired
    fun htag => hquiet.toNode (htoNode htag)

/-- Storing a pointer that holds nothing. -/
theorem Sound.storeView {s : Session} (h : s.Sound) (name : String) (r : Register) (reply : Reply)
    (hcell : r.pointer.cell = none) (htoNode : r.tag = .node → s.memory.ToNode r.pointer) :
    Advances s.memory (s.store name s.memory r reply) :=
  h.store name reply (by rw [hcell]; exact h.memory) (Memory.Frees.refl _) rfl
    (Pointer.paired_of_none hcell) htoNode

/-- Moving a register to another name. -/
theorem Sound.move {s : Session} (h : s.Sound) (name source : String) {r : Register} (bare : Bool)
    (reply : Reply) (hr : s.registers.get? source = some r) :
    Advances s.memory
      ({ s with registers := s.registers.erase source }.store name s.memory
        { r with bare } reply) := by
  have hperm := (Registers.values_erase_perm h.ordered hr).filterMap fun r => r.pointer.cell
  rw [filterMap_cons_cell] at hperm
  have htidy : Tidy { s with registers := s.registers.erase source } :=
    h.toTidy.erase (Memory.Frees.refl _) source
  exact htidy.store name reply h.memory (h.memory.perm hperm.symm) (Memory.Frees.refl _)
    (fun k hk hk' => by have hk : s.memory.heap.size ≤ k := hk; omega)
    (h.paired r (mem_of_get? hr)) fun htag => h.toNode r (mem_of_get? hr) htag

/-! ## One operation -/

section

variable {s : Session} (h : s.Sound)
include h

theorem Sound.on (name : String) {act : Register → Outcome}
    (hact : ∀ r, s.registers.get? name = some r → Advances s.memory (act r)) :
    Advances s.memory (s.on name act) := by
  unfold Session.on
  split
  · rename_i r hr
    exact hact r hr
  · exact h.keep _

theorem Sound.onBoth (a b : String) {act : Register → Register → Outcome}
    (hact : ∀ ra rb, s.registers.get? a = some ra → s.registers.get? b = some rb →
      Advances s.memory (act ra rb)) :
    Advances s.memory (s.onBoth a b act) :=
  h.on a fun ra ha => h.on b fun rb hb => hact ra rb ha hb

theorem Sound.onSound (name : String) {act : Register → Outcome}
    (hact : ∀ r, s.registers.get? name = some r → s.isDangling r = false →
      Advances s.memory (act r)) :
    Advances s.memory (s.onSound name act) := by
  refine h.on name fun r hr => ?_
  split
  · exact h.keep _
  · rename_i hd
    exact hact r hr (by simpa using hd)

theorem Sound.onTarget (r : Register) (empty : Reply) {act : Place → Outcome}
    (hact : ∀ place, r.pointer.target = some place → Advances s.memory (act place)) :
    Advances s.memory (s.onTarget r empty act) := by
  unfold Session.onTarget
  split
  · exact h.keep _
  · split
    · exact h.keep _
    · rename_i place hplace
      exact hact place hplace

/-- A new cell under a name. -/
theorem Sound.makeOwned (name : String) {p : Payload} (bare : Bool) (tag : Tag) (reply : Reply)
    (hp : ∀ n, p = .node n → n.next = {}) (htag : tag = .node → ∃ n, p = .node n) :
    Advances s.memory (s.store name (s.memory.makeOwned p).1
      { bare, tag, pointer := (s.memory.makeOwned p).2 } reply) := by
  obtain ⟨hm, hquiet⟩ := h.memory.makeOwned hp
  refine h.toTidy.store name reply h.memory hm hquiet ?_ ?_ ?_
  · intro k hk hk'
    have hk' : k < s.memory.heap.size + 1 := hk'
    have : k = s.memory.heap.size := by omega
    rw [this]
    rfl
  · intro i hi
    cases hi
    exact ⟨.start, rfl⟩
  · intro htag' place hplace
    cases hplace
    obtain ⟨n, rfl⟩ := htag htag'
    refine ⟨n, ?_⟩
    show (s.memory.heap.make (.node n)).1.payload s.memory.heap.size = _
    rw [Heap.payload_make, if_pos rfl]

/-- A pointer under a name is replaced by a copy of one that is held. -/
theorem Sound.assign {name : String} {r : Register} {source : Pointer} (reply : Reply)
    (hr : s.registers.get? name = some r)
    (hlive : ∀ i, source.cell = some i → 0 < s.memory.heap.count i) (hpaired : source.Paired)
    (htoNode : r.tag = .node → s.memory.ToNode source) :
    Advances s.memory
      ({ memory := (s.memory.assign r.pointer source).1,
         registers := s.registers.set name
           { r with pointer := (s.memory.assign r.pointer source).2.1 } }, reply,
       (s.memory.assign r.pointer source).2.2) := by
  by_cases heq : r.pointer.target = source.target
  · -- nothing happens, and the register is stored as it was
    have hassign : s.memory.assign r.pointer source = (s.memory, r.pointer, []) := by
      simp [Memory.assign, heq]
    rw [hassign]
    have hperm := (Registers.values_set_perm h.ordered r hr).cons_inv.filterMap
      fun r => r.pointer.cell
    exact ⟨⟨h.toTidy.set (Memory.Frees.refl _) name (h.paired r (mem_of_get? hr))
      (h.toNode r (mem_of_get? hr)), h.memory.perm hperm.symm⟩, Memory.Frees.refl _⟩
  · have hassign : s.memory.assign r.pointer source =
        (((s.memory.clone source).1.drop r.pointer).1, source,
          ((s.memory.clone source).1.drop r.pointer).2) := by
      simp [Memory.assign, heq, Memory.clone]
    rw [hassign]
    have := h.storeClone name { r with pointer := source } reply hlive hpaired htoNode
    unfold Session.store at this
    rwa [hr] at this

/-- A pointer under a name is dropped, and the name with it. -/
theorem Sound.drop {name : String} {r : Register} (reply : Reply)
    (hr : s.registers.get? name = some r) :
    Advances s.memory
      ({ memory := (s.memory.drop r.pointer).1, registers := s.registers.erase name }, reply,
       (s.memory.drop r.pointer).2) := by
  have hperm := (Registers.values_erase_perm h.ordered hr).filterMap fun r => r.pointer.cell
  rw [filterMap_cons_cell] at hperm
  obtain ⟨hm, hfrees, -⟩ := (h.memory.perm hperm.symm).drop
  exact ⟨⟨h.toTidy.erase hfrees name, hm⟩, hfrees⟩

/-- The site of an owned node is a live cell with a node. -/
theorem Sound.ownedNode {name : String} {r : Register} {site : Site}
    (hr : s.registers.get? name = some r) (hsite : ownedNode? r = some site) :
    ∃ i n, site = .cell i ∧ i ∈ s.held ∧ s.memory.payload site = .node n := by
  unfold ownedNode? at hsite
  split at hsite
  · cases hsite
  · rename_i hnot
    simp only [Bool.or_eq_true, bne_iff_ne, ne_eq, Option.isNone_iff_eq_none, not_or,
      Decidable.not_not] at hnot
    obtain ⟨⟨-, htag⟩, hcell⟩ := hnot
    obtain ⟨i, hi⟩ := Option.ne_none_iff_exists'.mp hcell
    obtain ⟨part, hpart⟩ := h.paired r (mem_of_get? hr) i hi
    obtain ⟨n, hn⟩ := h.toNode r (mem_of_get? hr) htag _ hpart
    rw [hpart] at hsite
    cases hsite
    exact ⟨i, n, rfl, List.mem_filterMap.mpr ⟨r, mem_of_get? hr, hi⟩, hn⟩

/-- The pointer in a node that was not freed holds a live cell, or none. -/
theorem Sound.next_live {r : Register} (hd : s.isDangling r = false) {place : Place} {n : Node}
    (hplace : r.pointer.target = some place) (hn : s.memory.payload place.site = .node n) {i : Nat}
    (hi : n.next.cell = some i) : 0 < s.memory.heap.count i := by
  obtain ⟨site, part⟩ := place
  cases site with
  | cell j =>
    have hj : 0 < s.memory.heap.count j := by
      simpa [isDangling, hplace, Memory.isFreed, Heap.isLive] using hd
    refine h.memory.balanced.live_of_held hj ?_
    have hn : s.memory.heap.payload j = .node n := hn
    rw [hn]
    exact hi
  | fixed k =>
    have := h.memory.fixed_held k
    have hn : s.memory.fixed.get k = .node n := hn
    rw [hn] at this
    exact absurd (this.symm.trans hi) (by simp)

/-- A pointer at a part of what another points at. -/
theorem Sound.project {source : String} {r : Register} (name : String) {place target : Place}
    (tag : Tag) (hr : s.registers.get? source = some r) (hplace : r.pointer.target = some place)
    (hsite : target.site = place.site) (htag : tag = .node → r.tag = .node) (bare : Bool)
    (reply : Reply) :
    Advances s.memory (s.store name (s.memory.makeShared target r.pointer.cell).1
      { bare, tag, pointer := (s.memory.makeShared target r.pointer.cell).2 } reply) := by
  refine h.storeClone name
    { bare, tag, pointer := { target := some target, cell := r.pointer.cell } }
    reply (fun i hi => h.live (mem_of_get? hr) hi) ?_ ?_
  · intro i hi
    obtain ⟨part, hpart⟩ := h.paired r (mem_of_get? hr) i hi
    rw [hplace] at hpart
    cases hpart
    obtain ⟨site, part⟩ := target
    cases hsite
    exact ⟨part, rfl⟩
  · intro ht place' hplace'
    cases hplace'
    rw [hsite]
    exact h.toNode r (mem_of_get? hr) (htag ht) place hplace

/-- What every operation does: the invariant is kept, and the cells reported as freed are
those that were live and are not. -/
theorem apply_advances (op : Op) : Advances s.memory (s.apply op) := by
  cases op with
  | make name head tail =>
    exact h.makeOwned name false .node _ (fun n hn => by cases hn; rfl) fun _ => ⟨_, rfl⟩
  | makeBare name value =>
    exact h.makeOwned name true .number _ (fun n hn => by cases hn) fun ht => by cases ht
  | empty name bare tag =>
    exact h.storeView name _ _ rfl fun _ place hplace => by cases hplace
  | fixed name k =>
    refine h.storeView name _ _ rfl fun _ place hplace => ?_
    cases hplace
    refine h.memory.fixed_isNode _ ?_
    have : (0 : Int) < Memory.fixedCount := by decide
    have := Int.emod_lt_of_pos k this
    have := Int.emod_nonneg k (b := Memory.fixedCount) (by decide)
    omega
  | drop name =>
    rw [apply]
    split
    · exact h.keep _
    · rename_i r hr
      exact h.drop _ hr
  | clone name source =>
    exact h.on source fun r hr => h.storeClone name r _ (fun i hi => h.live (mem_of_get? hr) hi)
      (h.paired r (mem_of_get? hr)) (h.toNode r (mem_of_get? hr))
  | view name source =>
    refine h.on source fun r hr => ?_
    split
    · exact h.keep _
    · exact h.storeView name { r with pointer := Memory.view r.pointer } _ rfl
        (h.toNode r (mem_of_get? hr))
  | asBare name source =>
    exact h.on source fun r hr => h.storeClone name { r with bare := true } _
      (fun i hi => h.live (mem_of_get? hr) hi) (h.paired r (mem_of_get? hr))
      (h.toNode r (mem_of_get? hr))
  | project name source field =>
    refine h.onSound source fun r hr _ => ?_
    split
    · exact h.keep _
    · refine h.onTarget r _ fun place hplace => ?_
      refine h.project name _ hr hplace ?_ ?_ false .nothing
      · split <;> rfl
      · intro ht
        split at ht
        · rename_i hif
          simp only [Bool.and_eq_true, beq_iff_eq] at hif
          exact hif.1
        · cases ht
  | intoBare name source =>
    refine h.on source fun r hr => ?_
    split
    · exact h.keep _
    · exact h.move name source true _ hr
  | fromBare name source =>
    refine h.on source fun r hr => ?_
    split
    · exact h.keep _
    · exact h.move name source false _ hr
  | share name source =>
    refine h.on source fun r hr => ?_
    split
    · exact h.keep _
    · rename_i place hplace
      exact h.project name r.tag hr hplace rfl (fun ht => ht) true .nothing
  | next name source =>
    refine h.onSound source fun r hr hd => ?_
    split
    · exact h.keep _
    · rename_i htag
      have htag : r.tag = .node := by simpa using htag
      refine h.onTarget r _ fun place hplace => ?_
      obtain ⟨n, hn⟩ := h.toNode r (mem_of_get? hr) htag place hplace
      rw [Memory.node_of_payload hn]
      exact h.storeClone name { pointer := n.next } _ (fun i hi => h.next_live hd hplace hn hi)
        (h.memory.next_paired _ n hn) fun _ => h.memory.next_toNode _ n hn
  | assign name source =>
    refine h.onBoth name source fun r from_ hr hfrom => ?_
    split
    · exact h.keep _
    · rename_i hkind
      simp only [Bool.or_eq_true, bne_iff_ne, ne_eq, not_or, Decidable.not_not] at hkind
      exact h.assign _ hr (fun i hi => h.live (mem_of_get? hfrom) hi)
        (h.paired from_ (mem_of_get? hfrom))
        fun htag => h.toNode from_ (mem_of_get? hfrom) (hkind.2 ▸ htag)
  | same a b =>
    refine h.onBoth a b fun ra rb _ _ => ?_
    split <;> exact h.keep _
  | sameTarget a b => exact h.onBoth a b fun _ _ _ _ => h.keep _
  | link a b =>
    refine h.onBoth a b fun ra rb ha hb => ?_
    split
    · exact h.keep _
    · rename_i site hsite
      split
      · exact h.keep _
      · rename_i hkind
        simp only [Bool.or_eq_true, bne_iff_ne, ne_eq, not_or, Decidable.not_not] at hkind
        obtain ⟨i, n, rfl, hi, hn⟩ := h.ownedNode ha hsite
        obtain ⟨hm, hfrees⟩ := h.memory.assignNext hn hi
          (fun j hj => h.live (mem_of_get? hb) hj) (h.paired rb (mem_of_get? hb))
          (h.toNode rb (mem_of_get? hb) hkind.2)
        exact h.withMemory _ hm hfrees
  | unlink name =>
    refine h.onSound name fun r hr _ => ?_
    split
    · exact h.keep _
    · rename_i htag
      have htag : r.tag = .node := by simpa using htag
      refine h.onTarget r _ fun place hplace => ?_
      split
      · exact h.keep _
      · rename_i hcell
        obtain ⟨i, hi⟩ := Option.ne_none_iff_exists'.mp (by simpa using hcell)
        obtain ⟨part, hpart⟩ := h.paired r (mem_of_get? hr) i hi
        rw [hplace] at hpart
        cases hpart
        obtain ⟨n, hn⟩ := h.toNode r (mem_of_get? hr) htag _ hplace
        obtain ⟨hm, hfrees, -⟩ := h.memory.resetNext hn (h.live (mem_of_get? hr) hi)
        exact h.withMemory _ hm hfrees
  | advance name =>
    refine h.on name fun r hr => ?_
    split
    · exact h.keep _
    · rename_i site hsite
      obtain ⟨i, n, rfl, hi, hn⟩ := h.ownedNode hr hsite
      have hheld : Holder.held (s.memory.heap.payload i) = n.next.cell := by
        have hn : s.memory.heap.payload i = .node n := hn
        rw [hn]
        rfl
      rw [Memory.node_of_payload hn]
      exact h.assign _ hr
        (fun j hj => h.memory.balanced.live_of_held (h.memory.balanced.live_of_mem hi)
          (hheld.trans hj))
        (h.memory.next_paired _ n hn) fun _ => h.memory.next_toNode _ n hn
  | reset name =>
    refine h.on name fun r hr => ?_
    have := h.storeView name { r with pointer := {} } .nothing rfl fun _ place hplace => by
      cases hplace
    unfold Session.store at this
    rwa [hr] at this
  | info name => exact h.on name fun _ _ => h.keep _
  | isNull name => exact h.on name fun _ _ => h.keep _
  | cellCount name =>
    refine h.on name fun r _ => ?_
    split <;> exact h.keep _
  | expect name what => exact h.on name fun _ _ => h.keep _
  | debug name =>
    refine h.on name fun r _ => ?_
    split
    · exact h.keep _
    · split
      · exact h.keep _
      · exact h.onTarget r _ fun _ _ => h.keep _
  | get name =>
    refine h.onSound name fun r _ _ => h.onTarget r _ fun place _ => ?_
    split <;> exact h.keep _
  | set name value =>
    refine h.onSound name fun r _ _ => h.onTarget r _ fun place _ => ?_
    obtain ⟨hm, hfrees⟩ := h.memory.write place value
    exact h.withMemory _ hm hfrees
  | setAlone name value =>
    refine h.onSound name fun r _ _ => h.onTarget r _ fun place _ => ?_
    split
    · obtain ⟨hm, hfrees⟩ := h.memory.write place value
      exact h.withMemory _ hm hfrees
    · exact h.keep _

end

/-! ## Runs -/

/-- One operation of a run: the session, and the cells released so far. -/
def advance (state : Session × List Nat) (op : Op) : Session × List Nat :=
  let (s, _, freed) := state.1.apply op
  (s, state.2 ++ freed)

/-- A run from a session without registers and cells: the session it ends in, and the
cells released on the way, in order. -/
def run (ops : List Op) : Session × List Nat := ops.foldl advance ({}, [])

/-- How many pointers own cell `i`: those in registers, and those in the payloads of cells
that were not released. -/
def owners (s : Session) (released : List Nat) (i : Nat) : Nat :=
  s.registers.values.countP (fun r => r.pointer.cell == some i) +
    ((List.range s.memory.heap.size).filter (· ∉ released)).countP fun j =>
      Holder.held (s.memory.heap.payload j) == some i

theorem sound_initial : ({} : Session).Sound := by
  have hcell : ∀ i, Memory.initial.payload (.cell i) = .number 0 := by
    intro i
    show ((Table.empty : Table (Cell Payload)).get i).payload = _
    rw [Table.get_empty]
    rfl
  have hfixed : ∀ k, ∃ n : Node, n.next = {} ∧
      (Memory.initial.fixed.get k = .node n ∨ Memory.initial.fixed.get k = .number 0 ∧ 3 ≤ k) := by
    intro k
    have hget : Memory.initial.fixed.get k =
        if k = 2 then .node { head := 102, tail := 202 }
        else if k = 1 then .node { head := 101, tail := 201 }
        else if k = 0 then .node { head := 100, tail := 200 } else .number 0 := by
      simp [Memory.initial, Memory.fixedCount, List.range_succ, Table.get_set, default]
    rw [hget]
    split
    · exact ⟨_, rfl, Or.inl rfl⟩
    · split
      · exact ⟨_, rfl, Or.inl rfl⟩
      · split
        · exact ⟨_, rfl, Or.inl rfl⟩
        · exact ⟨{}, rfl, Or.inr ⟨rfl, by omega⟩⟩
  have hnext : ∀ site n, Memory.initial.payload site = .node n → n.next = {} := by
    intro site n hn
    cases site with
    | cell i =>
      rw [hcell] at hn
      cases hn
    | fixed k =>
      have hn : Memory.initial.fixed.get k = .node n := hn
      obtain ⟨n', hn', hk | ⟨hk, _⟩⟩ := hfixed k
      · rw [hk] at hn
        cases hn
        exact hn'
      · rw [hk] at hn
        cases hn
  refine ⟨⟨Registers.ordered_empty, fun r hr => (List.not_mem_nil hr).elim,
      fun r hr => (List.not_mem_nil hr).elim⟩,
    ⟨Heap.balanced_empty, ?_, ?_, ?_, ?_, ?_⟩⟩
  · intro site n hn
    rw [hnext site n hn]
    exact Pointer.paired_of_none rfl
  · intro site n hn place hplace
    rw [hnext site n hn] at hplace
    cases hplace
  · intro i n hn
    have hn : Memory.initial.payload (.cell i) = .node n := hn
    rw [hcell] at hn
    cases hn
  · intro k
    show Holder.held (Memory.initial.fixed.get k) = none
    obtain ⟨n, hn, hk | ⟨hk, _⟩⟩ := hfixed k
    · rw [hk]
      exact congrArg Pointer.cell hn
    · rw [hk]
      rfl
  · intro k hk
    have hk : k < 3 := hk
    obtain ⟨n, _, hn | ⟨_, hge⟩⟩ := hfixed k
    · exact ⟨n, hn⟩
    · omega

/-- What a run keeps: the invariant, and that the cells released are the cells made that
are not live. -/
structure Accounted (s : Session) (released : List Nat) : Prop where
  /-- The invariant. -/
  sound : s.Sound
  /-- The cells released are those that were made and are not live. -/
  mem_released : ∀ i, i ∈ released ↔ i < s.memory.heap.size ∧ s.memory.heap.count i = 0
  /-- No cell is released twice. -/
  nodup : released.Nodup

theorem Accounted.apply {s : Session} {released : List Nat} (h : s.Accounted released) (op : Op) :
    (s.apply op).1.Accounted (released ++ (s.apply op).2.2) := by
  obtain ⟨hsound, hfrees⟩ := apply_advances h.sound op
  refine ⟨hsound, ?_, ?_⟩
  · intro i
    rw [List.mem_append, h.mem_released, hfrees.mem_freed]
    constructor
    · rintro (⟨hlt, h0⟩ | ⟨hpos, h0⟩)
      · exact ⟨Nat.lt_of_lt_of_le hlt hfrees.size_le, hfrees.dead i hlt h0⟩
      · exact ⟨Nat.lt_of_lt_of_le (h.sound.memory.balanced.lt_size hpos) hfrees.size_le, h0⟩
    · rintro ⟨hlt, h0⟩
      by_cases hold : i < s.memory.heap.size
      · by_cases hpos : s.memory.heap.count i = 0
        · exact Or.inl ⟨hold, hpos⟩
        · exact Or.inr ⟨by omega, h0⟩
      · have := hfrees.made i (by omega) hlt
        omega
  · refine List.nodup_append.mpr ⟨h.nodup, hfrees.nodup, ?_⟩
    rintro i hi _ hi' rfl
    have := ((h.mem_released i).mp hi).2
    have := ((hfrees.mem_freed i).mp hi').1
    omega

theorem run_accounted (ops : List Op) : (run ops).1.Accounted (run ops).2 := by
  suffices ∀ (ops : List Op) (state : Session × List Nat), state.1.Accounted state.2 →
      (ops.foldl advance state).1.Accounted (ops.foldl advance state).2 by
    refine this ops ({}, []) ⟨sound_initial, fun i => ?_, List.nodup_nil⟩
    show i ∈ [] ↔ i < 0 ∧ _
    simp
  intro ops
  induction ops with
  | nil => exact fun state h => h
  | cons op rest ih => exact fun state h => ih (advance state op) (h.apply op)

/-- The count of a cell is the number of its owners: the live cells are the cells that
were not released. -/
theorem Accounted.count_eq {s : Session} {released : List Nat}
    (h : s.Accounted released) (i : Nat) :
    s.memory.heap.count i = s.owners released i := by
  have hregisters : s.held.count i =
      s.registers.values.countP fun r => r.pointer.cell == some i := List.count_filterMap
  rw [h.sound.memory.balanced.counts i, hregisters, Heap.heldBy_eq_countP h.mem_released, owners]

/-- Between any two operations of any run, the count of each cell that was not released is
the number of pointers that own it, and that is at least 1.  No cell is released twice,
and an operation releases exactly the cells whose number of owners it takes to 0. -/
theorem counts_exact_and_released_at_zero (ops : List Op) (op : Op) :
    let s := (run ops).1
    let released := (run ops).2
    let s' := (s.apply op).1
    let freed := (s.apply op).2.2
    (∀ i, i < s.memory.heap.size → i ∉ released →
      s.memory.heap.count i = s.owners released i ∧ 1 ≤ s.owners released i) ∧
    (released ++ freed).Nodup ∧
    ∀ i, i ∈ freed ↔ 0 < s.owners released i ∧ s'.owners (released ++ freed) i = 0 := by
  intro s released s' freed
  have h : s.Accounted released := run_accounted ops
  have h' : s'.Accounted (released ++ freed) := h.apply op
  refine ⟨?_, h'.nodup, ?_⟩
  · intro i hlt hi
    have hcount := h.count_eq i
    refine ⟨hcount, ?_⟩
    rw [h.mem_released] at hi
    omega
  · intro i
    rw [← h.count_eq, ← h'.count_eq]
    exact (apply_advances h.sound op).frees.mem_freed i

end Substrate.Ownership.Session
