import Substrate.Coro.RunLists

/-!
# Run lists as stacks

The links of all frames and the tops of all lists refine one stack for each
list.  `RunLists.Refines r piles` says so: following the links from the top of
list `q` gives `piles q`, no frame is on two places of the stacks, and the mark
of a frame says whether it is on one.

`refines_push` and `refines_pop` are the two operations on the stacks.
`RunLists.Sound` is the refinement with the stacks that `toList` reads off;
`Sound.push` and `Sound.pop` restate the operations for it, and `Sound.pour` is
what repeating them comes to.  The rest of the library uses only those.
-/

namespace Substrate.Coro.RunLists

/-- The frames from `top` down, following the links to the end. -/
def Linked (r : RunLists) : Option Nat → List Nat → Prop
  | none, [] => True
  | some f, g :: below => f = g ∧ r.Linked (r.links.get f).next below
  | _, _ => False

/-- The lists hold the frames of `piles`, top first. -/
structure Refines (r : RunLists) (piles : Nat → List Nat) : Prop where
  /-- The links lead through a stack and end. -/
  linked : ∀ q, r.Linked (r.lists.get q).head (piles q)
  /-- The length of a list is the length of its stack. -/
  length_eq : ∀ q, r.length q = (piles q).length
  /-- The mark of a frame says whether it is on a stack. -/
  queued_iff : ∀ f, r.queued f = true ↔ ∃ q, f ∈ piles q
  /-- No frame is twice on one stack. -/
  nodup : ∀ q, (piles q).Nodup
  /-- No frame is on two stacks. -/
  disjoint : ∀ q q' f, f ∈ piles q → f ∈ piles q' → q = q'

/-! ## Links -/

theorem Linked.congr {r r' : RunLists} {top : Option Nat} {l : List Nat} (h : r.Linked top l)
    (heq : ∀ f ∈ l, r'.links.get f = r.links.get f) : r'.Linked top l := by
  induction l generalizing top with
  | nil =>
    cases top with
    | none => trivial
    | some f => exact h.elim
  | cons g below ih =>
    cases top with
    | none => exact h.elim
    | some f =>
      obtain ⟨rfl, hbelow⟩ := h
      refine ⟨rfl, ?_⟩
      rw [heq f List.mem_cons_self]
      exact ih hbelow fun f' hf' => heq f' (List.mem_cons_of_mem _ hf')

theorem Linked.walk_eq {r : RunLists} {top : Option Nat} {l : List Nat} (h : r.Linked top l) :
    r.walk l.length top = l := by
  induction l generalizing top with
  | nil =>
    cases top with
    | none => rfl
    | some f => exact h.elim
  | cons g below ih =>
    cases top with
    | none => exact h.elim
    | some f =>
      obtain ⟨rfl, hbelow⟩ := h
      rw [List.length_cons, walk, ih hbelow]

theorem Linked.head_eq {r : RunLists} {top : Option Nat} {l : List Nat} (h : r.Linked top l) :
    top = l.head? := by
  cases l with
  | nil =>
    cases top with
    | none => rfl
    | some f => exact h.elim
  | cons g below =>
    cases top with
    | none => exact h.elim
    | some f => rw [h.1]; rfl

/-- Walking down the links gives the stack. -/
theorem Refines.toList_eq {r : RunLists} {piles : Nat → List Nat} (h : r.Refines piles) (q : Nat) :
    r.toList q = piles q := by
  rw [toList, h.length_eq q]
  exact (h.linked q).walk_eq

/-! ## The operations on stacks -/

/-- A frame that is on no stack goes on top of one. -/
theorem refines_push {r : RunLists} {piles : Nat → List Nat} (h : r.Refines piles) {f : Nat}
    (hf : r.queued f = false) (q : Nat) :
    ∃ r', r.push q f = some r' ∧
      r'.Refines fun q' => if q' = q then f :: piles q else piles q' := by
  have hnot : ∀ q, f ∉ piles q := by
    intro q' hmem
    have := (h.queued_iff f).mpr ⟨q', hmem⟩
    rw [hf] at this
    cases this
  refine ⟨_, by rw [push, if_neg (by simp [hf])], ?_⟩
  refine ⟨?_, ?_, ?_, ?_, ?_⟩
  · intro q'
    simp only [Table.get_set]
    split
    · rename_i hq
      subst hq
      refine ⟨rfl, ?_⟩
      simp only [Table.get_set_self]
      refine (h.linked q').congr fun g hg => ?_
      exact Table.get_set_of_ne _ _ fun heq => hnot q' (heq ▸ hg)
    · refine (h.linked q').congr fun g hg => ?_
      exact Table.get_set_of_ne _ _ fun heq => hnot q' (heq ▸ hg)
  · intro q'
    simp only [length, Table.get_set]
    split
    · exact congrArg (· + 1) (h.length_eq q)
    · exact h.length_eq q'
  · intro g
    simp only [queued, Table.get_set]
    by_cases hg : g = f
    · subst hg
      simp only [if_true, true_iff]
      exact ⟨q, by simp⟩
    · rw [if_neg hg]
      refine (h.queued_iff g).trans ⟨?_, ?_⟩
      · rintro ⟨q', hmem⟩
        refine ⟨q', ?_⟩
        split
        · rename_i hq
          exact List.mem_cons_of_mem _ (hq ▸ hmem)
        · exact hmem
      · rintro ⟨q', hmem⟩
        split at hmem
        · rcases List.mem_cons.mp hmem with heq | hmem
          · exact absurd heq hg
          · exact ⟨q, hmem⟩
        · exact ⟨q', hmem⟩
  · intro q'
    show (if q' = q then f :: piles q else piles q').Nodup
    split
    · exact List.nodup_cons.mpr ⟨hnot q, h.nodup q⟩
    · exact h.nodup q'
  · intro q₁ q₂ g h₁ h₂
    split at h₁ <;> split at h₂
    · omega
    · rename_i hq₁ _
      rcases List.mem_cons.mp h₁ with rfl | h₁
      · exact absurd h₂ (hnot q₂)
      · exact hq₁.trans (h.disjoint q q₂ g h₁ h₂)
    · rename_i _ hq₂
      rcases List.mem_cons.mp h₂ with rfl | h₂
      · exact absurd h₁ (hnot q₁)
      · exact (h.disjoint q₁ q g h₁ h₂).trans hq₂.symm
    · exact h.disjoint q₁ q₂ g h₁ h₂

/-- The frame on top of a stack is taken off. -/
theorem refines_pop {r : RunLists} {piles : Nat → List Nat} (h : r.Refines piles) {q f : Nat}
    {below : List Nat} (hq : piles q = f :: below) :
    ∃ r', r.pop q = some (f, r') ∧
      r'.Refines fun q' => if q' = q then below else piles q' := by
  have hlinked := h.linked q
  rw [hq] at hlinked
  have hhead : (r.lists.get q).head = some f := hlinked.head_eq
  rw [hhead] at hlinked
  have hbelow := hlinked.2
  have hnodup := h.nodup q
  rw [hq, List.nodup_cons] at hnodup
  have hnot : ∀ q', q' ≠ q → f ∉ piles q' := by
    intro q' hne hmem
    exact hne (h.disjoint q' q f hmem (hq ▸ List.mem_cons_self))
  refine ⟨_, by rw [pop, hhead]; rfl, ?_⟩
  refine ⟨?_, ?_, ?_, ?_, ?_⟩
  · intro q'
    simp only [Table.get_set]
    split
    · refine hbelow.congr fun g hg => ?_
      exact Table.get_set_of_ne _ _ fun heq => hnodup.1 (heq ▸ hg)
    · rename_i hne
      refine (h.linked q').congr fun g hg => ?_
      exact Table.get_set_of_ne _ _ fun heq => hnot q' hne (heq ▸ hg)
  · intro q'
    simp only [length, Table.get_set]
    split
    · have := h.length_eq q
      rw [length, hq, List.length_cons] at this
      show (r.lists.get q).length - 1 = _
      omega
    · exact h.length_eq q'
  · intro g
    simp only [queued, Table.get_set]
    by_cases hg : g = f
    · subst hg
      simp only [if_true, Bool.false_eq_true, false_iff, not_exists]
      intro q'
      split
      · exact hnodup.1
      · rename_i hne
        exact hnot q' hne
    · rw [if_neg hg]
      refine (h.queued_iff g).trans ⟨?_, ?_⟩
      · rintro ⟨q', hmem⟩
        refine ⟨q', ?_⟩
        split
        · rename_i hq'
          rw [hq', hq] at hmem
          exact (List.mem_cons.mp hmem).resolve_left hg
        · exact hmem
      · rintro ⟨q', hmem⟩
        split at hmem
        · exact ⟨q, hq ▸ List.mem_cons_of_mem _ hmem⟩
        · exact ⟨q', hmem⟩
  · intro q'
    show (if q' = q then below else piles q').Nodup
    split
    · exact hnodup.2
    · exact h.nodup q'
  · intro q₁ q₂ g h₁ h₂
    have hsub : ∀ q', g ∈ (if q' = q then below else piles q') → g ∈ piles q' := by
      intro q' hmem
      split at hmem
      · rename_i hq'
        rw [hq', hq]
        exact List.mem_cons_of_mem _ hmem
      · exact hmem
    exact h.disjoint q₁ q₂ g (hsub q₁ h₁) (hsub q₂ h₂)

theorem pop_eq_none {r : RunLists} {piles : Nat → List Nat} (h : r.Refines piles) {q : Nat}
    (hq : piles q = []) : r.pop q = none := by
  have := (h.linked q).head_eq
  rw [hq] at this
  rw [pop, this]
  rfl

/-! ## Sound run lists -/

/-- The lists are what walking down the links reads off. -/
def Sound (r : RunLists) : Prop := r.Refines r.toList

theorem Refines.sound {r : RunLists} {piles : Nat → List Nat} (h : r.Refines piles) : r.Sound := by
  have : r.toList = piles := funext h.toList_eq
  rw [Sound, this]
  exact h

/-- No frame has a mark or a link, and every list is empty. -/
structure Clear (r : RunLists) : Prop where
  /-- No frame has a mark or a link. -/
  link_eq : ∀ f, r.links.get f = {}
  /-- Every list is empty. -/
  list_eq : ∀ q, r.lists.get q = {}

theorem Clear.refines {r : RunLists} (h : r.Clear) : r.Refines fun _ => [] := by
  refine ⟨?_, ?_, ?_, fun _ => List.nodup_nil, ?_⟩
  · intro q
    rw [h.list_eq]
    trivial
  · intro q
    rw [length, h.list_eq]
    rfl
  · intro f
    rw [queued, h.link_eq]
    simp
  · intro q q' f h
    cases h

theorem clear_empty : ({} : RunLists).Clear := ⟨Table.get_empty, Table.get_empty⟩

theorem refines_empty : ({} : RunLists).Refines fun _ => [] := clear_empty.refines

theorem sound_empty : ({} : RunLists).Sound := refines_empty.sound

theorem toList_empty (q : Nat) : ({} : RunLists).toList q = [] := refines_empty.toList_eq q

namespace Sound

variable {r : RunLists} (h : r.Sound)
include h

theorem queued_iff (f : Nat) : r.queued f = true ↔ ∃ q, f ∈ r.toList q := Refines.queued_iff h f

theorem queued_eq_false {f : Nat} (hf : ∀ q, f ∉ r.toList q) : r.queued f = false := by
  rw [Bool.eq_false_iff]
  intro hq
  obtain ⟨q, hmem⟩ := (h.queued_iff f).mp hq
  exact hf q hmem

theorem length_toList (q : Nat) : (r.toList q).length = r.length q := (Refines.length_eq h q).symm

/-- A frame that is on no list goes on top of one. -/
theorem push {f : Nat} (hf : ∀ q, f ∉ r.toList q) (q : Nat) :
    ∃ r', r.push q f = some r' ∧ r'.Sound ∧
      ∀ q', r'.toList q' = if q' = q then f :: r.toList q else r.toList q' := by
  obtain ⟨r', hpush, hr'⟩ := refines_push h (h.queued_eq_false hf) q
  exact ⟨r', hpush, hr'.sound, hr'.toList_eq⟩

/-- A frame that is on a list is refused. -/
theorem push_eq_none {f q' : Nat} (hf : f ∈ r.toList q') (q : Nat) : r.push q f = none := by
  rw [RunLists.push, if_pos ((h.queued_iff f).mpr ⟨q', hf⟩)]

theorem pop {q f : Nat} {below : List Nat} (hq : r.toList q = f :: below) :
    ∃ r', r.pop q = some (f, r') ∧ r'.Sound ∧
      ∀ q', r'.toList q' = if q' = q then below else r.toList q' := by
  obtain ⟨r', hpop, hr'⟩ := refines_pop h hq
  exact ⟨r', hpop, hr'.sound, hr'.toList_eq⟩

theorem pop_eq_none {q : Nat} (hq : r.toList q = []) : r.pop q = none :=
  RunLists.pop_eq_none h hq

theorem toList_eq_nil {q : Nat} (hpop : r.pop q = none) : r.toList q = [] := by
  cases hq : r.toList q with
  | nil => rfl
  | cons f below =>
    obtain ⟨r', hpop', -⟩ := h.pop hq
    rw [hpop] at hpop'
    cases hpop'

/-- What is popped was on top. -/
theorem pop_cases {q f : Nat} {r' : RunLists} (hpop : r.pop q = some (f, r')) :
    ∃ below, r.toList q = f :: below ∧ r'.Sound ∧
      ∀ q', r'.toList q' = if q' = q then below else r.toList q' := by
  cases hq : r.toList q with
  | nil =>
    rw [h.pop_eq_none hq] at hpop
    cases hpop
  | cons g below =>
    obtain ⟨r'', hpop', hsound, hlists⟩ := h.pop hq
    rw [hpop] at hpop'
    cases hpop'
    exact ⟨below, rfl, hsound, hlists⟩

end Sound

/-- Pouring turns the order around. -/
theorem Sound.pour {source target : Nat} (hne : source ≠ target) :
    ∀ (n : Nat) {r : RunLists}, r.Sound →
      (r.pour source target n).Sound ∧
      ∀ q, (r.pour source target n).toList q =
        if q = source then (r.toList source).drop n
        else if q = target then ((r.toList source).take n).reverse ++ r.toList target
        else r.toList q := by
  intro n
  induction n with
  | zero =>
    intro r h
    refine ⟨h, fun q => ?_⟩
    show r.toList q = _
    split
    · rename_i hq; rw [hq]; rfl
    · split
      · rename_i hq; rw [hq]; rfl
      · rfl
  | succ n ih =>
    intro r h
    cases hsource : r.toList source with
    | nil =>
      rw [RunLists.pour, h.pop_eq_none hsource]
      refine ⟨h, fun q => ?_⟩
      show r.toList q = _
      split
      · rename_i hq; rw [hq, hsource]; rfl
      · split
        · rename_i hq; rw [hq]; rfl
        · rfl
    | cons f below =>
      obtain ⟨r₁, hpop, hr₁, hlists₁⟩ := h.pop hsource
      -- the frame just popped is on no list, so the other list takes it
      have hoff : ∀ q, f ∉ r₁.toList q := by
        intro q hmem
        rw [hlists₁] at hmem
        have hnodup := Refines.nodup h source
        rw [hsource, List.nodup_cons] at hnodup
        split at hmem
        · exact hnodup.1 hmem
        · rename_i hq
          exact hq (Refines.disjoint h q source f hmem (hsource ▸ List.mem_cons_self))
      obtain ⟨r₂, hpush, hr₂, hlists₂⟩ := hr₁.push hoff target
      rw [RunLists.pour, hpop]
      simp only [hpush, Option.getD_some]
      obtain ⟨hsound, hlists⟩ := ih hr₂
      refine ⟨hsound, fun q => ?_⟩
      rw [hlists q]
      simp only [hlists₂, hlists₁, if_neg hne, if_neg hne.symm]
      split
      · rfl
      · split
        · simp
        · rfl

end Substrate.Coro.RunLists
