import Substrate.Proofs.Ownership.Runs

/-!
# Rebinding a pointer

Pointers are kept in registers and in the nodes of live cells.  Making one of
them point where another does (`Session.rebind`) adopts the source first, then
lets go of the old target, and then binds.  Letting go may run down a list and
free the very node that keeps the source, or a node on the way to it.

A pointer that can be rebound stays where it is meanwhile: the node that keeps
it is reached from the registers along owning pointers (`Memory.Reaches`), and
there is such a way that does not use the pointer itself (`Reaches.cut`), so
emptying the pointer does not free its node.
-/

namespace Substrate.Ownership

namespace Memory

/-- The cells that owning pointers lead to from `holders`. -/
inductive Reaches (m : Memory) (holders : List Nat) : Nat → Prop
  | held {i : Nat} (h : i ∈ holders) : Reaches m holders i
  | next {i j : Nat} {n : Node} (hi : Reaches m holders i) (hn : m.payload (.cell i) = .node n)
      (hj : n.next.cell = some j) : Reaches m holders j

variable {m m' : Memory} {holders : List Nat} {i : Nat}

theorem Sound.live_next (h : m.Sound holders) (hi : 0 < m.heap.count i) {n : Node}
    (hn : m.payload (.cell i) = .node n) {j : Nat} (hj : n.next.cell = some j) :
    0 < m.heap.count j := by
  refine h.balanced.live_of_held hi ?_
  have hn : m.heap.payload i = .node n := hn
  rw [hn]
  exact hj

theorem Sound.live_of_reaches (h : m.Sound holders) (hi : m.Reaches holders i) :
    0 < m.heap.count i := by
  induction hi with
  | held hi => exact h.balanced.live_of_mem hi
  | next _ hn hj ih => exact h.live_next ih hn hj

/-- A way to a cell that does not use the pointer in it.  The other nodes are as they were. -/
theorem Reaches.cut {others : List Nat} (hi : m.Reaches holders i)
    (hsame : ∀ k, k ≠ i → m'.payload (.cell k) = m.payload (.cell k))
    (hsub : ∀ k ∈ holders, k ∈ others) : m'.Reaches others i := by
  suffices ∀ j, m.Reaches holders j → m'.Reaches others j ∨ m'.Reaches others i from
    (this i hi).elim id id
  intro j hj
  induction hj with
  | held hj => exact .inl (.held (hsub _ hj))
  | next _ hn hj ih =>
    rename_i k _ _ _
    rcases ih with hk | hk
    · by_cases hki : k = i
      · exact .inr (hki ▸ hk)
      · exact .inl (.next hk ((hsame k hki).trans hn) hj)
    · exact .inr hk

theorem Frees.not_mem_of_live {freed : List Nat} (h : Frees m m' freed) (hi : 0 < m'.heap.count i) :
    i ∉ freed := by
  intro hmem
  have := ((h.mem_freed i).mp hmem).2
  omega

/-- The pointer in a node that is reached is made to point elsewhere: the node keeps the new
pointer, and neither it nor the cell of the new pointer is freed. -/
theorem Sound.assignNext_reached (h : m.Sound holders) {n : Node} {source : Pointer}
    (hn : m.payload (.cell i) = .node n) (hi : m.Reaches holders i)
    (hlive : ∀ j, source.cell = some j → 0 < m.heap.count j)
    (hne : n.next.target ≠ source.target) :
    let out := m.assignNext (.cell i) source
    out.1.payload (.cell i) = .node { n with next := source } ∧ 0 < out.1.heap.count i ∧
      ∀ j, source.cell = some j → j ∉ out.2 ∧ 0 < out.1.heap.count j := by
  obtain ⟨hcloned, -⟩ := h.clone hlive
  have hn₁ : (m.clone source).1.payload (.cell i) = .node n := (payload_clone m source _).trans hn
  have hi₁ : (m.clone source).1.Reaches (source.cell.toList ++ holders) i :=
    hi.cut (fun k _ => payload_clone m source _) fun k hk => List.mem_append_right _ hk
  have hlive₁ := hcloned.live_of_reaches hi₁
  -- the pointer is emptied, and what it held is let go of
  obtain ⟨hreset, hfrees, hn₂⟩ := hcloned.resetNext hn₁ hlive₁
  have hi₂ : ((m.clone source).1.resetNext (.cell i)).1.Reaches
      (source.cell.toList ++ holders) i := by
    refine hi₁.cut (fun k hk => ?_) fun k hk => hk
    have hbeside : (m.clone source).1.Sound
        (({} : Pointer).cell.toList ++ (source.cell.toList ++ holders)) := hcloned
    obtain ⟨hempty, -⟩ := hbeside.setNext hn₁ hlive₁ (Pointer.paired_of_none rfl)
      fun place hplace => by cases hplace
    have hsame := hempty.drop.2.2 (.cell k)
    rw [Memory.resetNext, node_of_payload hn₁, hsame, setNext_of_node hn₁, payload_setPayload,
      if_neg fun he => hk (Site.cell.inj he)]
  have hassign : m.assignNext (.cell i) source =
      (((m.clone source).1.resetNext (.cell i)).1.setNext (.cell i) source,
        ((m.clone source).1.resetNext (.cell i)).2) := by
    rw [Memory.assignNext, node_of_payload hn, if_neg hne]
    rfl
  rw [hassign, setNext_of_node hn₂]
  refine ⟨by rw [payload_setPayload, if_pos rfl], ?_, fun j hj => ?_⟩
  · rw [count_setPayload]
    exact hreset.live_of_reaches hi₂
  · have hj₂ := hreset.balanced.live_of_mem (i := j) (by simp [hj])
    exact ⟨hfrees.not_mem_of_live hj₂, by rwa [count_setPayload]⟩

/-- A pointer held beside others is made to point elsewhere: the cell of the new pointer is
not freed. -/
theorem Sound.assign_apart {p source : Pointer} (h : m.Sound (p.cell.toList ++ holders))
    (hlive : ∀ j, source.cell = some j → 0 < m.heap.count j) (hne : p.target ≠ source.target) :
    let out := m.assign p source
    out.2.1 = source ∧ ∀ j, source.cell = some j → j ∉ out.2.2 ∧ 0 < out.1.heap.count j := by
  obtain ⟨hcloned, -⟩ := h.clone hlive
  have hperm : (source.cell.toList ++ (p.cell.toList ++ holders)).Perm
      (p.cell.toList ++ (source.cell.toList ++ holders)) := by
    rw [← List.append_assoc, ← List.append_assoc]
    exact List.perm_append_comm.append_right _
  obtain ⟨hdropped, hfrees, -⟩ := (hcloned.perm hperm).drop
  have hassign : m.assign p source =
      (((m.clone source).1.drop p).1, source, ((m.clone source).1.drop p).2) := by
    rw [Memory.assign, if_neg hne]
    rfl
  rw [hassign]
  refine ⟨rfl, fun j hj => ?_⟩
  have hj₂ := hdropped.balanced.live_of_mem (i := j) (by simp [hj])
  exact ⟨hfrees.not_mem_of_live hj₂, hj₂⟩

end Memory

/-- Where a pointer is kept. -/
inductive Spot where
  /-- Under a name. -/
  | register (name : String)
  /-- In a node. -/
  | node (site : Site)
  deriving DecidableEq, Repr

namespace Session

/-- The pointer at a spot.  A node that was freed keeps none. -/
def pointerAt (s : Session) : Spot → Option Pointer
  | .register name => (s.registers.get? name).map (·.pointer)
  | .node site =>
    if s.memory.isFreed site then none
    else
      match s.memory.payload site with
      | .node n => some n.next
      | .number _ => none

/-- Whether the pointer at a spot can be changed: it has a name, or is in a node that owning
pointers lead to from the registers. -/
def CanChange (s : Session) : Spot → Prop
  | .register _ => True
  | .node (.cell i) => s.memory.Reaches s.held i
  | .node (.fixed _) => False

/-- Make the pointer at a spot point where `source` does: the cells freed. -/
def rebind (s : Session) (p : Spot) (source : Pointer) : Session × List Nat :=
  match p with
  | .register name =>
    match s.registers.get? name with
    | none => (s, [])
    | some r =>
      let (memory, pointer, freed) := s.memory.assign r.pointer source
      ({ memory, registers := s.registers.set name { r with pointer } }, freed)
  | .node site =>
    let (memory, freed) := s.memory.assignNext site source
    ({ s with memory }, freed)

/-- The spot that an operation rebinds, and the source. -/
def rebinds (s : Session) : Op → Option (Spot × Pointer)
  | .assign name source => do
    let r ← s.registers.get? name
    let from_ ← s.registers.get? source
    if r.bare = from_.bare ∧ r.tag = from_.tag then some (.register name, from_.pointer) else none
  | .advance name => do
    let r ← s.registers.get? name
    let site ← ownedNode? r
    some (.register name, (s.memory.node site).next)
  | .link a b => do
    let ra ← s.registers.get? a
    let rb ← s.registers.get? b
    let site ← ownedNode? ra
    if rb.bare = false ∧ rb.tag = .node then some (.node site, rb.pointer) else none
  | _ => none

/-! ## The three steps apart -/

/-- Clone `source` into a register of its own. -/
def hold (s : Session) (temporary : String) (source : Pointer) : Session :=
  { memory := (s.memory.clone source).1,
    registers := s.registers.set temporary { pointer := (s.memory.clone source).2 } }

/-- Let go of what the pointer at a spot is bound to, and leave it empty: the cells freed. -/
def vacate (s : Session) : Spot → Session × List Nat
  | .register name => ((s.apply (.reset name)).1, (s.apply (.reset name)).2.2)
  | .node site => ({ s with memory := (s.memory.resetNext site).1 }, (s.memory.resetNext site).2)

/-- Move the pointer of a register, which goes away, to a spot that is empty. -/
def settle (s : Session) (temporary : String) (p : Spot) : Session :=
  let moved := ((s.registers.get? temporary).getD {}).pointer
  match p with
  | .register name =>
    { s with registers := (s.registers.set name
        { (s.registers.get? name).getD {} with pointer := moved }).erase temporary }
  | .node site =>
    { memory := s.memory.setNext site moved, registers := s.registers.erase temporary }

variable {s : Session} {p q : Spot} {old source : Pointer}

/-- The node at a spot in a node. -/
theorem pointerAt_node {site : Site} (hp : s.pointerAt (.node site) = some old) :
    s.memory.isFreed site = false ∧ ∃ n, s.memory.payload site = .node n ∧ n.next = old := by
  rw [pointerAt] at hp
  split at hp
  · cases hp
  · rename_i hfreed
    refine ⟨by simpa using hfreed, ?_⟩
    split at hp
    · rename_i n hn
      exact ⟨n, hn, Option.some.inj hp⟩
    · cases hp

/-- The registers after a temporary one came and went while a name was stored twice. -/
theorem Tidy.registers_after (h : s.Tidy) {name temporary : String} {r r₁ r₂ t : Register}
    (hr : s.registers.get? name = some r) (htemp : s.registers.get? temporary = none) :
    ((((s.registers.set temporary t).set name r₁).set name r₂).erase temporary) =
      s.registers.set name r₂ := by
  have hne : name ≠ temporary := by
    rintro rfl
    rw [hr] at htemp
    cases htemp
  refine Registers.Ordered.ext ((((h.ordered.set _ _).set _ _).set _ _).erase _) (h.ordered.set _ _)
    fun other => ?_
  simp only [Registers.get?_erase, Registers.get?_set]
  grind

theorem rebind_eq_steps (h : s.Tidy) (hp : s.pointerAt p = some old)
    (hne : old.target ≠ source.target) {temporary : String}
    (htemp : s.registers.get? temporary = none) :
    s.rebind p source =
      (((s.hold temporary source).vacate p).1.settle temporary p,
        ((s.hold temporary source).vacate p).2) := by
  cases p with
  | register name =>
    obtain ⟨r, hr, rfl⟩ := Option.map_eq_some_iff.mp hp
    have hother : temporary ≠ name := by
      rintro rfl
      rw [hr] at htemp
      cases htemp
    have hheld : (s.hold temporary source).registers.get? name = some r := by
      rw [hold, Registers.get?_set, if_neg (Ne.symm hother), hr]
    have hvacate : (s.hold temporary source).vacate (.register name) =
        (⟨((s.memory.clone source).1.drop r.pointer).1,
          (s.registers.set temporary { pointer := source }).set name { r with pointer := {} }⟩,
          ((s.memory.clone source).1.drop r.pointer).2) := by
      simp only [vacate, Session.apply, Session.on, hheld]
      rfl
    rw [hvacate, rebind, hr]
    dsimp only
    rw [Memory.assign, if_neg hne, settle]
    simp only [Registers.get?_set, if_neg hother, if_true, Option.getD_some,
      h.registers_after hr htemp]
    rfl
  | node site =>
    obtain ⟨-, n, hn, rfl⟩ := pointerAt_node hp
    have hback : (s.registers.set temporary { pointer := source }).erase temporary =
        s.registers := by
      refine Registers.Ordered.ext ((h.ordered.set _ _).erase _) h.ordered fun other => ?_
      rw [Registers.get?_erase, Registers.get?_set]
      grind
    rw [rebind, Memory.assignNext, Memory.node_of_payload hn, if_neg hne, vacate, hold, settle]
    simp only [Registers.get?_set, if_true, Option.getD_some]
    rw [show (s.memory.clone source).2 = source from rfl, hback]

/-- Pointers with one target: nothing happens. -/
theorem rebind_eq_self (h : s.Tidy) (hp : s.pointerAt p = some old)
    (heq : old.target = source.target) : s.rebind p source = (s, []) := by
  cases p with
  | register name =>
    obtain ⟨r, hr, rfl⟩ := Option.map_eq_some_iff.mp hp
    have hsame : s.registers.set name r = s.registers := by
      refine Registers.Ordered.ext (h.ordered.set _ _) h.ordered fun other => ?_
      rw [Registers.get?_set]
      split
      · rename_i heq
        rw [heq, hr]
      · rfl
    rw [rebind, hr]
    dsimp only
    rw [Memory.assign, if_pos heq]
    dsimp only
    rw [hsame]
  | node site =>
    obtain ⟨-, n, hn, rfl⟩ := pointerAt_node hp
    rw [rebind, Memory.assignNext, Memory.node_of_payload hn, if_pos heq]

theorem pointerAt_of_node {i : Nat} {n : Node} (hn : s.memory.payload (.cell i) = .node n)
    (hi : 0 < s.memory.heap.count i) : s.pointerAt (.node (.cell i)) = some n.next := by
  simp [pointerAt, Memory.isFreed, Heap.isLive, hi, hn]

/-- The cell of a pointer that is kept somewhere is live. -/
theorem Sound.live_pointerAt (h : s.Sound) (hp : s.pointerAt p = some old) {i : Nat}
    (hi : old.cell = some i) : 0 < s.memory.heap.count i := by
  cases p with
  | register name =>
    obtain ⟨r, hr, rfl⟩ := Option.map_eq_some_iff.mp hp
    exact h.live (mem_of_get? hr) hi
  | node site =>
    obtain ⟨hfreed, n, hn, rfl⟩ := pointerAt_node hp
    cases site with
    | cell j =>
      refine h.memory.live_next (i := j) ?_ hn hi
      simpa [Memory.isFreed, Heap.isLive] using hfreed
    | fixed k =>
      have hheld := h.memory.fixed_held k
      have hn : s.memory.fixed.get k = .node n := hn
      rw [hn] at hheld
      cases hheld.symm.trans hi

/-- Pointers with different targets: the spot has the source, whose cell is not freed. -/
theorem Sound.rebind_adopts (h : s.Sound) (hp : s.pointerAt p = some old) (hchange : s.CanChange p)
    (hlive : ∀ i, source.cell = some i → 0 < s.memory.heap.count i)
    (hne : old.target ≠ source.target) :
    (s.rebind p source).1.pointerAt p = some source ∧
      ∀ i, source.cell = some i →
        i ∉ (s.rebind p source).2 ∧ 0 < (s.rebind p source).1.memory.heap.count i := by
  cases p with
  | register name =>
    obtain ⟨r, hr, rfl⟩ := Option.map_eq_some_iff.mp hp
    have hperm := (Registers.values_erase_perm h.ordered hr).filterMap fun r => r.pointer.cell
    rw [filterMap_cons_cell] at hperm
    obtain ⟨hsource, hkept⟩ := (h.memory.perm hperm.symm).assign_apart hlive hne
    rw [rebind, hr]
    refine ⟨?_, hkept⟩
    rw [pointerAt, Registers.get?_set, if_pos rfl, Option.map_some, hsource]
  | node site =>
    cases site with
    | fixed k => exact hchange.elim
    | cell j =>
      obtain ⟨-, n, hn, rfl⟩ := pointerAt_node hp
      obtain ⟨hn', hj, hkept⟩ := h.memory.assignNext_reached hn hchange hlive hne
      have hrebind : s.rebind (.node (.cell j)) source =
          ({ s with memory := (s.memory.assignNext (.cell j) source).1 },
            (s.memory.assignNext (.cell j) source).2) := rfl
      rw [hrebind]
      exact ⟨pointerAt_of_node (n := { n with next := source }) hn' hj, hkept⟩

/-- An operation that rebinds a pointer does so at a spot that can be changed, from a source
that is kept somewhere. -/
theorem Sound.apply_rebinds (h : s.Sound) {op : Op} (hop : s.rebinds op = some (p, source)) :
    s.apply op = ((s.rebind p source).1, .nothing, (s.rebind p source).2) ∧
      (∃ old, s.pointerAt p = some old) ∧ s.CanChange p ∧ ∃ q, s.pointerAt q = some source := by
  cases op with
  | assign name from_ =>
    obtain ⟨r, hr, hop⟩ := Option.bind_eq_some_iff.mp hop
    obtain ⟨t, ht, hop⟩ := Option.bind_eq_some_iff.mp hop
    split at hop
    · rename_i hkind
      cases hop
      refine ⟨?_, ⟨r.pointer, ?_⟩, trivial, .register from_, ?_⟩
      · simp [Session.apply, Session.onBoth, Session.on, rebind, hr, ht, hkind]
      · rw [pointerAt, hr, Option.map_some]
      · rw [pointerAt, ht, Option.map_some]
    · cases hop
  | advance name =>
    obtain ⟨r, hr, hop⟩ := Option.bind_eq_some_iff.mp hop
    obtain ⟨site, hsite, hop⟩ := Option.bind_eq_some_iff.mp hop
    cases hop
    obtain ⟨i, n, rfl, hi, hn⟩ := h.ownedNode hr hsite
    refine ⟨?_, ⟨r.pointer, ?_⟩, trivial, .node (.cell i), ?_⟩
    · simp [Session.apply, Session.on, rebind, hr, hsite]
    · rw [pointerAt, hr, Option.map_some]
    · rw [pointerAt_of_node hn (h.memory.balanced.live_of_mem hi), Memory.node_of_payload hn]
  | link a b =>
    obtain ⟨ra, ha, hop⟩ := Option.bind_eq_some_iff.mp hop
    obtain ⟨rb, hb, hop⟩ := Option.bind_eq_some_iff.mp hop
    obtain ⟨site, hsite, hop⟩ := Option.bind_eq_some_iff.mp hop
    split at hop
    · rename_i hkind
      cases hop
      obtain ⟨i, n, rfl, hi, hn⟩ := h.ownedNode ha hsite
      refine ⟨?_, ⟨n.next, ?_⟩, .held hi, .register b, ?_⟩
      · simp [Session.apply, Session.onBoth, Session.on, rebind, ha, hb, hsite, hkind]
      · exact pointerAt_of_node hn (h.memory.balanced.live_of_mem hi)
      · rw [pointerAt, hb, Option.map_some]
    · cases hop
  | _ => cases hop

/-- In any state that a run reaches, make the pointer at a spot point where the pointer at
another does, whether that is the same one, an alias, or lies in a node that is freed on the
way.  If both have one target, nothing changes at all.  Otherwise, if the source owns a
cell, then the spot has the target and the cell of the source, the cell is not freed, and
the state is the one that comes of cloning the source into a new register, letting go of the
old binding and moving the new register's pointer to the spot.  The operations that assign
pointers do this, and the spots are theirs to change. -/
theorem rebinding_adopts_then_releases (ops : List Op) :
    let s := (run ops).1
    (∀ p q old source, s.pointerAt p = some old → s.CanChange p → s.pointerAt q = some source →
      (old.target = source.target → s.rebind p source = (s, [])) ∧
      (old.target ≠ source.target → ∀ i, source.cell = some i →
        (s.rebind p source).1.pointerAt p = some source ∧
        i ∉ (s.rebind p source).2 ∧ 0 < (s.rebind p source).1.memory.heap.count i ∧
        ∀ temporary, s.registers.get? temporary = none →
          s.rebind p source =
            (((s.hold temporary source).vacate p).1.settle temporary p,
              ((s.hold temporary source).vacate p).2))) ∧
    ∀ op p source, s.rebinds op = some (p, source) →
      s.apply op = ((s.rebind p source).1, .nothing, (s.rebind p source).2) ∧
        (∃ old, s.pointerAt p = some old) ∧ s.CanChange p ∧ ∃ q, s.pointerAt q = some source := by
  intro s
  have h : s.Sound := (run_accounted ops).sound
  refine ⟨fun p q old source hp hchange hq => ⟨rebind_eq_self h.toTidy hp, fun hne i hi => ?_⟩,
    fun op p source hop => h.apply_rebinds hop⟩
  obtain ⟨hadopts, hkept⟩ :=
    h.rebind_adopts hp hchange (fun j hj => h.live_pointerAt hq hj) hne
  exact ⟨hadopts, (hkept i hi).1, (hkept i hi).2,
    fun temporary htemp => rebind_eq_steps h.toTidy hp hne htemp⟩

/-- A list of three nodes, held at its start. -/
def listOps : List Op :=
  [.make "a" 1 0, .make "b" 2 0, .make "c" 3 0, .link "a" "b", .link "b" "c", .drop "b", .drop "c"]

/-- Advancing along the list frees the node that keeps the source, and the two nodes behind
it stay. -/
theorem rebinding_adopts_then_releases_walking :
    let s := (run listOps).1
    let next : Pointer := ⟨some ⟨.cell 1, .start⟩, some 1⟩
    s.pointerAt (.node (.cell 0)) = some next ∧ (s.apply (.advance "a")).2.2 = [0] ∧
      (s.apply (.advance "a")).1.pointerAt (.register "a") = some next ∧
      0 < (s.apply (.advance "a")).1.memory.heap.count 1 ∧
      (s.apply (.advance "a")).1 =
        ((s.hold "t" next).vacate (.register "a")).1.settle "t" (.register "a") ∧
      s.apply (.assign "a" "a") = (s, .nothing, []) := by
  intro s next
  obtain ⟨hrebind, hops⟩ := rebinding_adopts_then_releases listOps
  have ha : s.pointerAt (.register "a") = some ⟨some ⟨.cell 0, .start⟩, some 0⟩ := by decide +kernel
  have hnext : s.pointerAt (.node (.cell 0)) = some next := by decide +kernel
  have hfreed : (s.apply (.advance "a")).2.2 = [0] := by decide +kernel
  have hadvance := (hops (.advance "a") (.register "a") next (by decide +kernel)).1
  have hself := (hops (.assign "a" "a") (.register "a") ⟨some ⟨.cell 0, .start⟩, some 0⟩
    (by decide +kernel)).1
  obtain ⟨hadopts, -, hcount, hsteps⟩ :=
    (hrebind _ _ _ _ ha trivial hnext).2 (by decide) 1 rfl
  have hnothing := (hrebind _ _ _ _ ha trivial ha).1 rfl
  have hsteps := hsteps "t" (by decide +kernel)
  rw [hnothing] at hself
  refine ⟨hnext, hfreed, ?_, ?_, ?_, hself⟩
  · rw [hadvance]
    exact hadopts
  · rw [hadvance]
    exact hcount
  · rw [hadvance, hsteps]

end Session

end Substrate.Ownership
