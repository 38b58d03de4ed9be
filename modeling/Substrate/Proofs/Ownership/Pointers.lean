import Substrate.Ownership.Session
import Substrate.Proofs.Ownership.Balance
import Substrate.Proofs.Registers

/-!
# Pointers and the cells they hold

`Memory.Sound m holders` is what every memory between two operations keeps: the
counts are exact for `holders`, a pointer stored in a node points into the cell
it holds, and what it points at is a node.  The last fact is why a pointer in a
node can be replaced in place: the payload that a node pointer leads to is a
node and has a pointer to replace.

`Memory.Frees` says what a change of memory did to the cells: which of them were
freed, and that no freed cell comes back.
-/

namespace Substrate.Ownership

/-- A pointer that holds a cell points into it. -/
def Pointer.Paired (p : Pointer) : Prop :=
  ∀ i, p.cell = some i → ∃ part, p.target = some ⟨.cell i, part⟩

theorem Pointer.paired_of_none {p : Pointer} (h : p.cell = none) : p.Paired := by
  intro i hi
  rw [h] at hi
  cases hi

namespace Memory

/-- There is a node at a site. -/
def IsNode (m : Memory) (site : Site) : Prop := ∃ n, m.payload site = .node n

/-- What a pointer points at, if anything, is a node. -/
def ToNode (m : Memory) (p : Pointer) : Prop :=
  ∀ place, p.target = some place → m.IsNode place.site

/-- The invariant of a memory, for the cells held from outside it. -/
structure Sound (m : Memory) (holders : List Nat) : Prop where
  /-- The counts are exact. -/
  balanced : m.heap.Balanced holders
  /-- A pointer in a node points into the cell it holds. -/
  next_paired : ∀ site n, m.payload site = .node n → n.next.Paired
  /-- A pointer in a node points at a node. -/
  next_toNode : ∀ site n, m.payload site = .node n → m.ToNode n.next
  /-- There is no node in a cell that was not made. -/
  lt_size : ∀ i n, m.payload (.cell i) = .node n → i < m.heap.size
  /-- Fixed nodes hold nothing. -/
  fixed_held : ∀ k, Holder.held (m.fixed.get k) = none
  /-- The fixed nodes are nodes. -/
  fixed_isNode : ∀ k, k < fixedCount → m.IsNode (.fixed k)

theorem Sound.perm {m : Memory} {holders others : List Nat} (h : m.Sound holders)
    (hp : holders.Perm others) : m.Sound others :=
  { h with balanced := h.balanced.perm hp }

/-- What a change of memory did to the cells. -/
structure Frees (m after : Memory) (freed : List Nat) : Prop where
  /-- A node stays a node. -/
  isNode : ∀ site, m.IsNode site → after.IsNode site
  /-- Cells are never unmade. -/
  size_le : m.heap.size ≤ after.heap.size
  /-- A new cell is live. -/
  made : ∀ k, m.heap.size ≤ k → k < after.heap.size → 0 < after.heap.count k
  /-- A freed cell does not come back. -/
  dead : ∀ k, k < m.heap.size → m.heap.count k = 0 → after.heap.count k = 0
  /-- The cells freed are those that were live and are not. -/
  mem_freed : ∀ k, k ∈ freed ↔ 0 < m.heap.count k ∧ after.heap.count k = 0
  /-- No cell is freed twice. -/
  nodup : freed.Nodup

theorem Frees.refl (m : Memory) : Frees m m [] :=
  ⟨fun _ h => h, Nat.le_refl _, fun k h h' => by omega, fun _ _ h => h, fun k => by simp; omega,
    List.nodup_nil⟩

theorem Frees.toNode {m after : Memory} {freed : List Nat} (h : Frees m after freed) {p : Pointer}
    (hp : m.ToNode p) : after.ToNode p :=
  fun place hplace => h.isNode _ (hp place hplace)

/-- One change after another, where what the first one made outlives the second. -/
theorem Frees.trans {m m₁ m₂ : Memory} {freed₁ freed₂ holders holders₁ : List Nat}
    (h₁ : Frees m m₁ freed₁) (h₂ : Frees m₁ m₂ freed₂) (hm : m.heap.Balanced holders)
    (hm₁ : m₁.heap.Balanced holders₁)
    (hkept : ∀ k, m.heap.size ≤ k → k < m₁.heap.size → 0 < m₂.heap.count k) :
    Frees m m₂ (freed₁ ++ freed₂) := by
  have hdead : ∀ k, k < m.heap.size → m₁.heap.count k = 0 → m₂.heap.count k = 0 :=
    fun k hk h0 => h₂.dead k (Nat.lt_of_lt_of_le hk h₁.size_le) h0
  refine ⟨fun site h => h₂.isNode site (h₁.isNode site h), Nat.le_trans h₁.size_le h₂.size_le,
    ?_, ?_, ?_, ?_⟩
  · intro k hk hk₂
    by_cases hk₁ : k < m₁.heap.size
    · exact hkept k hk hk₁
    · exact h₂.made k (by omega) hk₂
  · exact fun k hk h0 => hdead k hk (h₁.dead k hk h0)
  · intro k
    rw [List.mem_append, h₁.mem_freed, h₂.mem_freed]
    constructor
    · rintro (⟨hc, h0⟩ | ⟨hc₁, h0⟩)
      · exact ⟨hc, hdead k (hm.lt_size hc) h0⟩
      · refine ⟨Nat.pos_of_ne_zero fun hc => ?_, h0⟩
        have hlt := hm₁.lt_size hc₁
        by_cases hk : k < m.heap.size
        · have := h₁.dead k hk hc
          omega
        · have := hkept k (by omega) hlt
          omega
    · rintro ⟨hc, h0⟩
      by_cases hc₁ : m₁.heap.count k = 0
      · exact Or.inl ⟨hc, hc₁⟩
      · exact Or.inr ⟨by omega, h0⟩
  · refine List.nodup_append.mpr ⟨h₁.nodup, h₂.nodup, ?_⟩
    rintro k hk₁ _ hk₂ rfl
    have := ((h₁.mem_freed k).mp hk₁).2
    have := ((h₂.mem_freed k).mp hk₂).1
    omega

/-! ## Payloads -/

theorem payload_setPayload (m : Memory) (site other : Site) (p : Payload) :
    (m.setPayload site p).payload other = if other = site then p else m.payload other := by
  cases site with
  | cell i =>
    cases other with
    | cell k => simp [setPayload, payload, Heap.payload_setPayload]
    | fixed k => simp [setPayload, payload]
  | fixed i =>
    cases other with
    | cell k => simp [setPayload, payload]
    | fixed k => simp [setPayload, payload, Table.get_set]

theorem count_setPayload (m : Memory) (site : Site) (p : Payload) (k : Nat) :
    (m.setPayload site p).heap.count k = m.heap.count k := by
  cases site with
  | cell i => exact Heap.count_setPayload m.heap i p k
  | fixed i => rfl

/-- Writing a node over a node frees nothing. -/
theorem frees_setPayload (m : Memory) (site : Site) {p : Payload}
    (hp : m.IsNode site → ∃ n, p = .node n) : Frees m (m.setPayload site p) [] := by
  refine ⟨?_, ?_, ?_, ?_, ?_, List.nodup_nil⟩
  · intro other hother
    unfold IsNode
    rw [payload_setPayload]
    split
    · rename_i heq
      exact hp (heq ▸ hother)
    · exact hother
  · cases site <;> exact Nat.le_refl _
  · intro k h h'
    cases site <;> exact absurd h' (by simpa [setPayload] using h)
  · intro k _ h
    rw [count_setPayload]
    exact h
  · intro k
    rw [count_setPayload]
    simp
    omega

/-- The number at a place may change. -/
theorem Sound.write {m : Memory} {holders : List Nat} (h : m.Sound holders) (place : Place)
    (value : Int) : (m.write place value).Sound holders ∧ Frees m (m.write place value) [] := by
  obtain ⟨site, part⟩ := place
  -- only the numbers of a payload change, so it holds what it held
  obtain ⟨p, hwrite, hnode, hheld, hnext⟩ : ∃ p, m.write ⟨site, part⟩ value = m.setPayload site p ∧
      (m.IsNode site → ∃ n, p = .node n) ∧
      Holder.held p = Holder.held (m.payload site) ∧
      (∀ n, p = .node n → ∃ n', m.payload site = .node n' ∧ n.next = n'.next) := by
    refine ⟨_, rfl, ?_⟩
    cases hp : m.payload site with
    | number v => exact ⟨fun ⟨n, hn⟩ => by simp [hp] at hn, rfl, fun n hn => by simp at hn⟩
    | node n =>
      cases part with
      | start => exact ⟨fun _ => ⟨_, rfl⟩, rfl, fun n' hn => ⟨n, rfl, by cases hn; rfl⟩⟩
      | tail => exact ⟨fun _ => ⟨_, rfl⟩, rfl, fun n' hn => ⟨n, rfl, by cases hn; rfl⟩⟩
  rw [hwrite]
  have hfrees := frees_setPayload m site hnode
  have hnexts : ∀ other n, (m.setPayload site p).payload other = .node n →
      ∃ n', m.payload other = .node n' ∧ n.next = n'.next := by
    intro other n hn
    rw [payload_setPayload] at hn
    split at hn
    · rename_i heq
      rw [heq]
      exact hnext n hn
    · exact ⟨n, hn, rfl⟩
  refine ⟨⟨?_, ?_, ?_, ?_, ?_, ?_⟩, hfrees⟩
  · cases site with
    | cell i => exact h.balanced.setPayload_same hheld
    | fixed k => exact h.balanced
  · intro other n hn
    obtain ⟨n', hn', heq⟩ := hnexts other n hn
    exact heq ▸ h.next_paired other n' hn'
  · intro other n hn
    obtain ⟨n', hn', heq⟩ := hnexts other n hn
    exact heq ▸ hfrees.toNode (h.next_toNode other n' hn')
  · intro i n hn
    obtain ⟨n', hn', _⟩ := hnexts _ n hn
    exact Nat.lt_of_lt_of_le (h.lt_size i n' hn') hfrees.size_le
  · intro k
    cases site with
    | cell i => exact h.fixed_held k
    | fixed i =>
      simp only [Memory.setPayload, Table.get_set]
      split
      · rw [hheld]
        exact h.fixed_held i
      · exact h.fixed_held k
  · exact fun k hk => hfrees.isNode _ (h.fixed_isNode k hk)

/-! ## One more pointer, one pointer less -/

theorem payload_clone (m : Memory) (p : Pointer) (site : Site) :
    (m.clone p).1.payload site = m.payload site := by
  cases site with
  | cell k =>
    show (m.heap.retain? p.cell).payload k = m.heap.payload k
    cases p.cell with
    | none => rfl
    | some i => exact Heap.payload_setCount m.heap i _ k
  | fixed k => rfl

theorem size_clone (m : Memory) (p : Pointer) : (m.clone p).1.heap.size = m.heap.size := by
  show (m.heap.retain? p.cell).size = _
  cases p.cell <;> rfl

/-- A copy of a pointer whose cell is live. -/
theorem Sound.clone {m : Memory} {holders : List Nat} (h : m.Sound holders) {p : Pointer}
    (hlive : ∀ i, p.cell = some i → 0 < m.heap.count i) :
    (m.clone p).1.Sound (p.cell.toList ++ holders) ∧ Frees m (m.clone p).1 [] := by
  have hsite := payload_clone m p
  have hsize := size_clone m p
  have hnode : ∀ site, m.IsNode site → (m.clone p).1.IsNode site :=
    fun site ⟨n, hn⟩ => ⟨n, by rw [hsite, hn]⟩
  have hcount : ∀ k, ((m.clone p).1.heap.count k = 0 ↔ m.heap.count k = 0) := by
    intro k
    show (m.heap.retain? p.cell).count k = 0 ↔ _
    cases hc : p.cell with
    | none => exact Iff.rfl
    | some i =>
      have hi := hlive i hc
      show (m.heap.setCount i (m.heap.count i + 1)).count k = 0 ↔ _
      rw [Heap.count_setCount]
      split
      · rename_i hk
        subst hk
        omega
      · exact Iff.rfl
  refine ⟨⟨h.balanced.retain? hlive, ?_, ?_, ?_, h.fixed_held,
      fun k hk => hnode _ (h.fixed_isNode k hk)⟩,
    ⟨hnode, by omega, fun k h h' => by omega, fun k _ h => (hcount k).mpr h, ?_, List.nodup_nil⟩⟩
  · exact fun site n hn => h.next_paired site n (hsite site ▸ hn)
  · exact fun site n hn place hplace =>
      hnode _ (h.next_toNode site n (hsite site ▸ hn) place hplace)
  · exact fun i n hn => hsize ▸ h.lt_size i n (hsite _ ▸ hn)
  · intro k
    rw [hcount]
    simp
    omega

/-- Letting go of a pointer. -/
theorem Sound.drop {m : Memory} {holders : List Nat} {p : Pointer}
    (h : m.Sound (p.cell.toList ++ holders)) :
    (m.drop p).1.Sound holders ∧ Frees m (m.drop p).1 (m.drop p).2 ∧
      ∀ site, (m.drop p).1.payload site = m.payload site := by
  have hr := h.balanced.release?
  have hsite : ∀ site, (m.drop p).1.payload site = m.payload site := by
    intro site
    cases site with
    | cell k => exact hr.payload_eq k
    | fixed k => rfl
  have hnode : ∀ site, m.IsNode site → (m.drop p).1.IsNode site :=
    fun site ⟨n, hn⟩ => ⟨n, by rw [hsite, hn]⟩
  have hsize : (m.drop p).1.heap.size = m.heap.size := hr.size_eq
  refine ⟨⟨hr.balanced, ?_, ?_, ?_, h.fixed_held, fun k hk => hnode _ (h.fixed_isNode k hk)⟩,
    ⟨hnode, by omega, fun k h h' => by omega, ?_, hr.mem_freed, hr.nodup⟩, hsite⟩
  · exact fun site n hn => h.next_paired site n (hsite site ▸ hn)
  · exact fun site n hn place hplace =>
      hnode _ (h.next_toNode site n (hsite site ▸ hn) place hplace)
  · exact fun i n hn => hsize ▸ h.lt_size i n (hsite _ ▸ hn)
  · intro k _ hk
    have : (m.drop p).1.heap.count k ≤ m.heap.count k := hr.count_le k
    omega

/-- A pointer that owns a new cell. -/
theorem Sound.makeOwned {m : Memory} {holders : List Nat} (h : m.Sound holders) {p : Payload}
    (hp : ∀ n, p = .node n → n.next = {}) :
    (m.makeOwned p).1.Sound (m.heap.size :: holders) ∧ Frees m (m.makeOwned p).1 [] := by
  have hheld : Holder.held p = none := by
    cases p with
    | node n => exact congrArg Pointer.cell (hp n rfl)
    | number v => rfl
  have hsite : ∀ site, (m.makeOwned p).1.payload site =
      if site = .cell m.heap.size then p else m.payload site := by
    intro site
    cases site with
    | cell k =>
      show (m.heap.make p).1.payload k = _
      rw [Heap.payload_make]
      simp [payload]
    | fixed k => simp [Memory.makeOwned, payload]
  have hcount : ∀ k, (m.makeOwned p).1.heap.count k =
      if k = m.heap.size then 1 else m.heap.count k := Heap.count_make m.heap p
  have hnode : ∀ site, m.IsNode site → (m.makeOwned p).1.IsNode site := by
    rintro site ⟨n, hn⟩
    refine ⟨n, ?_⟩
    rw [hsite, if_neg, hn]
    rintro rfl
    have := h.lt_size _ n hn
    omega
  have hnext : ∀ site n, (m.makeOwned p).1.payload site = .node n →
      n.next = {} ∨ m.payload site = .node n := by
    intro site n hn
    rw [hsite] at hn
    split at hn
    · exact Or.inl (hp n hn)
    · exact Or.inr hn
  refine ⟨⟨h.balanced.make hheld, ?_, ?_, ?_, h.fixed_held,
      fun k hk => hnode _ (h.fixed_isNode k hk)⟩,
    ⟨hnode, Nat.le_succ _, ?_, ?_, ?_, List.nodup_nil⟩⟩
  · intro site n hn
    rcases hnext site n hn with hn | hn
    · exact hn ▸ Pointer.paired_of_none rfl
    · exact h.next_paired site n hn
  · intro site n hn
    rcases hnext site n hn with hn | hn
    · rw [hn]
      intro place hplace
      cases hplace
    · exact fun place hplace => hnode _ (h.next_toNode site n hn place hplace)
  · intro i n hn
    rw [hsite] at hn
    show i < m.heap.size + 1
    split at hn
    · rename_i heq
      cases heq
      omega
    · have := h.lt_size i n hn
      omega
  · intro k hk hk'
    have hk' : k < m.heap.size + 1 := hk'
    rw [hcount, if_pos (by omega)]
    exact Nat.one_pos
  · intro k hk h0
    rw [hcount, if_neg (by omega), h0]
  · intro k
    rw [hcount]
    simp only [List.not_mem_nil, false_iff, not_and]
    split
    · omega
    · omega

/-! ## The pointer in a node -/

theorem setNext_of_node {m : Memory} {site : Site} {n : Node} (h : m.payload site = .node n)
    (next : Pointer) : m.setNext site next = m.setPayload site (.node { n with next }) := by
  simp [setNext, h]

/-- The pointer in a live node is replaced: the new one moves in from outside and the
old one out. -/
theorem Sound.setNext {m : Memory} {holders : List Nat} {i : Nat} {n : Node} {next : Pointer}
    (h : m.Sound (next.cell.toList ++ holders)) (hn : m.payload (.cell i) = .node n)
    (hi : 0 < m.heap.count i) (hpaired : next.Paired) (htoNode : m.ToNode next) :
    (m.setNext (.cell i) next).Sound (n.next.cell.toList ++ holders) ∧
      Frees m (m.setNext (.cell i) next) [] := by
  rw [setNext_of_node hn]
  have hfrees := frees_setPayload m (.cell i) (p := .node { n with next }) fun _ => ⟨_, rfl⟩
  have hnexts : ∀ site n', (m.setPayload (.cell i) (.node { n with next })).payload site =
      .node n' →
      n'.next = next ∧ site = .cell i ∨ m.payload site = .node n' := by
    intro site n' hn'
    rw [payload_setPayload] at hn'
    split at hn'
    · rename_i heq
      cases hn'
      exact Or.inl ⟨rfl, heq⟩
    · exact Or.inr hn'
  refine ⟨⟨?_, ?_, ?_, ?_, h.fixed_held, fun k hk => hfrees.isNode _ (h.fixed_isNode k hk)⟩, hfrees⟩
  · have := h.balanced.setPayload (p := .node { n with next }) hi
    have hheld : Holder.held (m.heap.payload i) = n.next.cell := by
      have hn : m.heap.payload i = .node n := hn
      rw [hn]
      rfl
    rwa [hheld] at this
  · intro site n' hn'
    rcases hnexts site n' hn' with ⟨hn', _⟩ | hn'
    · exact hn' ▸ hpaired
    · exact h.next_paired site n' hn'
  · intro site n' hn'
    rcases hnexts site n' hn' with ⟨hn', _⟩ | hn'
    · exact hn' ▸ hfrees.toNode htoNode
    · exact hfrees.toNode (h.next_toNode site n' hn')
  · intro k n' hn'
    rcases hnexts _ n' hn' with ⟨_, heq⟩ | hn'
    · cases heq
      exact h.lt_size i n hn
    · exact h.lt_size k n' hn'

theorem node_of_payload {m : Memory} {site : Site} {n : Node} (h : m.payload site = .node n) :
    m.node site = n := by
  simp [node, h]

/-- The pointer in a live node is emptied. -/
theorem Sound.resetNext {m : Memory} {holders : List Nat} {i : Nat} {n : Node}
    (h : m.Sound holders) (hn : m.payload (.cell i) = .node n) (hi : 0 < m.heap.count i) :
    (m.resetNext (.cell i)).1.Sound holders ∧
      Frees m (m.resetNext (.cell i)).1 (m.resetNext (.cell i)).2 ∧
      (m.resetNext (.cell i)).1.payload (.cell i) = .node { n with next := {} } := by
  have hset : m.setNext (.cell i) {} = m.setPayload (.cell i) (.node { n with next := {} }) :=
    setNext_of_node hn {}
  have htoNode : m.ToNode {} := fun place hplace => by cases hplace
  have hempty : ({} : Pointer).Paired := Pointer.paired_of_none rfl
  obtain ⟨hsound, hquiet⟩ := Sound.setNext h hn hi hempty htoNode
  obtain ⟨hafter, hfrees, hpayload⟩ := hsound.drop
  have hreset : m.resetNext (.cell i) = (m.setNext (.cell i) {}).drop n.next := by
    rw [Memory.resetNext, node_of_payload hn]
  rw [hreset]
  refine ⟨hafter, ?_, ?_⟩
  · refine hquiet.trans hfrees h.balanced hsound.balanced fun k hk hk' => ?_
    rw [hset] at hk'
    have hk' : k < m.heap.size := hk'
    omega
  · rw [hpayload, hset, payload_setPayload, if_pos rfl]

/-- The pointer in a node that is held from outside is made to point elsewhere. -/
theorem Sound.assignNext {m : Memory} {holders : List Nat} {i : Nat} {n : Node} {source : Pointer}
    (h : m.Sound holders) (hn : m.payload (.cell i) = .node n) (hi : i ∈ holders)
    (hlive : ∀ j, source.cell = some j → 0 < m.heap.count j) (hpaired : source.Paired)
    (htoNode : m.ToNode source) :
    (m.assignNext (.cell i) source).1.Sound holders ∧
      Frees m (m.assignNext (.cell i) source).1 (m.assignNext (.cell i) source).2 := by
  unfold Memory.assignNext
  split
  · exact ⟨h, Frees.refl m⟩
  · obtain ⟨hcloned, hquiet⟩ := h.clone hlive
    have hn₁ : (m.clone source).1.payload (.cell i) = .node n := (payload_clone m source _).trans hn
    have hsize₁ := size_clone m source
    have hi₁ := hcloned.balanced.live_of_mem (List.mem_append_right source.cell.toList hi)
    obtain ⟨hreset, hfrees, hn₂⟩ := hcloned.resetNext hn₁ hi₁
    have hi₂ := hreset.balanced.live_of_mem (List.mem_append_right source.cell.toList hi)
    have hfrees₂ := hquiet.trans hfrees h.balanced hcloned.balanced fun k hk hk' => by omega
    obtain ⟨hset, hquiet₂⟩ := Sound.setNext hreset hn₂ hi₂ hpaired (hfrees₂.toNode htoNode)
    have hfrees₃ := hfrees₂.trans hquiet₂ h.balanced hreset.balanced fun k hk hk' => by
      have := hfrees₂.made k hk hk'
      refine Nat.pos_of_ne_zero fun h0 => ?_
      exact (List.not_mem_nil ((hquiet₂.mem_freed k).mpr ⟨this, h0⟩)).elim
    rw [List.append_nil] at hfrees₃
    exact ⟨hset, hfrees₃⟩

end Memory

end Substrate.Ownership
