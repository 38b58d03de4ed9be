import Substrate.Registers

/-!
# The values of named registers

`Registers.Ordered` says that the entries stand in ascending name order, so
that each name has one entry.  Every register file that starts empty and
changes by `set` and `erase` is ordered.

The rest of the library counts what registers hold.  For that the values are a
multiset: `values_set_perm`, `values_set_perm_of_none` and `values_erase_perm`
say what storing under a name and erasing a name do to it.

Ordered registers are determined by what their names stand for (`Ordered.ext`).
-/

namespace Substrate.Registers

open scoped List

variable {α : Type}

/-- The entries stand in ascending name order. -/
def Ordered (r : Registers α) : Prop := r.entries.Pairwise fun a b => a.1 < b.1

theorem ordered_empty : (empty : Registers α).Ordered := List.Pairwise.nil

/-! ## Order is kept -/

theorem mem_insertEntry {name : String} {a : α} {l : List (String × α)} {e : String × α}
    (h : e ∈ insertEntry name a l) : e = (name, a) ∨ e ∈ l := by
  induction l with
  | nil => exact Or.inl (by simpa [insertEntry] using h)
  | cons b rest ih =>
    obtain ⟨m, b⟩ := b
    unfold insertEntry at h
    split at h
    · rcases List.mem_cons.mp h with h | h
      · exact Or.inl h
      · exact Or.inr (List.mem_cons_of_mem _ h)
    · split at h
      · rcases List.mem_cons.mp h with h | h
        · exact Or.inl h
        · exact Or.inr h
      · rcases List.mem_cons.mp h with h | h
        · exact Or.inr (h ▸ List.mem_cons_self)
        · rcases ih h with h | h
          · exact Or.inl h
          · exact Or.inr (List.mem_cons_of_mem _ h)

private theorem pairwise_insertEntry (name : String) (a : α) (l : List (String × α))
    (h : l.Pairwise fun a b => a.1 < b.1) :
    (insertEntry name a l).Pairwise fun a b => a.1 < b.1 := by
  induction l with
  | nil => simp [insertEntry]
  | cons b rest ih =>
    obtain ⟨m, b⟩ := b
    rw [List.pairwise_cons] at h
    unfold insertEntry
    split
    · rename_i hm
      subst hm
      exact List.pairwise_cons.mpr h
    · rename_i hne
      split
      · rename_i hlt
        refine List.pairwise_cons.mpr ⟨?_, List.pairwise_cons.mpr h⟩
        intro e he
        rcases List.mem_cons.mp he with rfl | he
        · exact hlt
        · exact String.lt_trans hlt (h.1 e he)
      · rename_i hnlt
        have hgt : m < name := by
          by_cases hlt : m < name
          · exact hlt
          · exact absurd (String.le_antisymm (String.not_lt.mp hlt) (String.not_lt.mp hnlt)) hne
        refine List.pairwise_cons.mpr ⟨?_, ih h.2⟩
        intro e he
        rcases mem_insertEntry he with rfl | he
        · exact hgt
        · exact h.1 e he

theorem Ordered.set {r : Registers α} (h : r.Ordered) (name : String) (a : α) :
    (r.set name a).Ordered :=
  pairwise_insertEntry name a r.entries h

theorem Ordered.erase {r : Registers α} (h : r.Ordered) (name : String) :
    (r.erase name).Ordered :=
  h.filter _

/-! ## What a name stands for -/

theorem lookup_eq_none_of_lt {name : String} {l : List (String × α)}
    (h : ∀ e ∈ l, name < e.1) : l.lookup name = none := by
  induction l with
  | nil => rfl
  | cons e rest ih =>
    have hne : name ≠ e.1 := fun heq => String.lt_irrefl e.1 (heq ▸ h e List.mem_cons_self)
    rw [List.lookup_cons, beq_eq_false_iff_ne.mpr hne]
    exact ih fun e he => h e (List.mem_cons_of_mem _ he)

/-- A value that a name stands for is one of the values. -/
theorem mem_values_of_get? {r : Registers α} {name : String} {a : α}
    (h : r.get? name = some a) : a ∈ r.values := by
  obtain ⟨l⟩ := r
  simp only [get?, values] at h ⊢
  induction l with
  | nil => simp at h
  | cons e rest ih =>
    rw [List.lookup_cons] at h
    split at h
    · have : e.2 = a := by simpa using h
      exact this ▸ List.mem_cons_self
    · exact List.mem_cons_of_mem _ (ih h)

theorem get?_erase (r : Registers α) (name other : String) :
    (r.erase name).get? other = if other = name then none else r.get? other := by
  obtain ⟨l⟩ := r
  simp only [get?, erase]
  induction l with
  | nil => simp
  | cons e rest ih =>
    by_cases he : e.1 = name
    · rw [List.filter_cons_of_neg (by simpa using he), ih]
      split
      · rfl
      · rename_i hne
        rw [List.lookup_cons, beq_eq_false_iff_ne.mpr fun h => hne (h.trans he)]
    · rw [List.filter_cons_of_pos (by simpa using he), List.lookup_cons, List.lookup_cons, ih]
      split
      · rename_i heq
        have hother : other = e.1 := eq_of_beq heq
        rw [if_neg (hother ▸ he)]
      · rfl

private theorem eq_of_lookup_eq {l l' : List (String × α)} (h : l.Pairwise fun a b => a.1 < b.1)
    (h' : l'.Pairwise fun a b => a.1 < b.1) (heq : ∀ name, l.lookup name = l'.lookup name) :
    l = l' := by
  -- a name below all those of a list cannot stand for anything in it
  have hbelow : ∀ {name : String} {a : α} {l l' : List (String × α)},
      (∀ e ∈ l', name < e.1) → ((name, a) :: l).lookup name ≠ l'.lookup name := by
    intro name a l l' hlt
    rw [lookup_eq_none_of_lt hlt, List.lookup_cons_self]
    simp
  induction l generalizing l' with
  | nil =>
    cases l' with
    | nil => rfl
    | cons e' rest' => exact (hbelow (fun _ h => (List.not_mem_nil h).elim) (heq e'.1).symm).elim
  | cons e rest ih =>
    obtain ⟨m, b⟩ := e
    cases l' with
    | nil => exact (hbelow (fun _ h => (List.not_mem_nil h).elim) (heq m)).elim
    | cons e' rest' =>
      obtain ⟨m', b'⟩ := e'
      rw [List.pairwise_cons] at h h'
      have hname : m = m' := by
        refine String.le_antisymm (String.not_lt.mp fun hlt => ?_) (String.not_lt.mp fun hlt => ?_)
        · exact hbelow (List.forall_mem_cons.mpr ⟨hlt, fun e he => String.lt_trans hlt (h.1 e he)⟩)
            (heq m').symm
        · exact hbelow (List.forall_mem_cons.mpr ⟨hlt, fun e he => String.lt_trans hlt (h'.1 e he)⟩)
            (heq m)
      subst hname
      have hvalue : b = b' := by simpa [List.lookup_cons_self] using heq m
      have hrest : rest = rest' := by
        refine ih h.2 h'.2 fun name => ?_
        by_cases hn : name = m
        · rw [hn, lookup_eq_none_of_lt h.1, lookup_eq_none_of_lt h'.1]
        · have := heq name
          rwa [List.lookup_cons, List.lookup_cons, beq_eq_false_iff_ne.mpr hn] at this
      rw [hvalue, hrest]

/-- Ordered registers whose names stand for the same are the same. -/
theorem Ordered.ext {r r' : Registers α} (h : r.Ordered) (h' : r'.Ordered)
    (heq : ∀ name, r.get? name = r'.get? name) : r = r' := by
  obtain ⟨l⟩ := r
  obtain ⟨l'⟩ := r'
  rw [Registers.mk.injEq]
  exact eq_of_lookup_eq h h' heq

/-! ## The values as a multiset -/

/-- Storing under a new name adds a value. -/
theorem values_set_perm_of_none {r : Registers α} {name : String} (a : α)
    (h : r.get? name = none) : (r.set name a).values.Perm (a :: r.values) := by
  obtain ⟨l⟩ := r
  simp only [get?, set, values] at h ⊢
  induction l with
  | nil => simp [insertEntry]
  | cons e rest ih =>
    obtain ⟨m, b⟩ := e
    rw [List.lookup_cons] at h
    split at h
    · cases h
    · rename_i hne
      have hne : name ≠ m := beq_eq_false_iff_ne.mp hne
      unfold insertEntry
      rw [if_neg hne]
      split
      · exact List.Perm.refl _
      · exact ((ih h).cons b).trans (List.Perm.swap a b _)

/-- Storing under a name in use replaces its value. -/
theorem values_set_perm {r : Registers α} (ho : r.Ordered) {name : String} {old : α} (a : α)
    (h : r.get? name = some old) : (old :: (r.set name a).values).Perm (a :: r.values) := by
  obtain ⟨l⟩ := r
  simp only [Ordered, get?, set, values] at ho h ⊢
  induction l with
  | nil => simp at h
  | cons e rest ih =>
    obtain ⟨m, b⟩ := e
    rw [List.pairwise_cons] at ho
    rw [List.lookup_cons] at h
    unfold insertEntry
    split at h
    · rename_i heq
      have hold : b = old := by simpa using h
      rw [if_pos (eq_of_beq heq), hold]
      exact List.Perm.swap a old _
    · rename_i hne
      have hne : name ≠ m := beq_eq_false_iff_ne.mp hne
      rw [if_neg hne]
      split
      · -- a name below the first one cannot stand for anything
        rename_i hlt
        have := lookup_eq_none_of_lt fun e he => String.lt_trans hlt (ho.1 e he)
        rw [this] at h
        cases h
      · calc old :: b :: (insertEntry name a rest).map Prod.snd
          _ ~ b :: old :: (insertEntry name a rest).map Prod.snd := List.Perm.swap b old _
          _ ~ b :: a :: rest.map Prod.snd := (ih ho.2 h).cons b
          _ ~ a :: b :: rest.map Prod.snd := List.Perm.swap a b _

/-- Erasing a name takes its value away. -/
theorem values_erase_perm {r : Registers α} (ho : r.Ordered) {name : String} {old : α}
    (h : r.get? name = some old) : (old :: (r.erase name).values).Perm r.values := by
  obtain ⟨l⟩ := r
  simp only [Ordered, get?, erase, values] at ho h ⊢
  induction l with
  | nil => simp at h
  | cons e rest ih =>
    obtain ⟨m, b⟩ := e
    rw [List.pairwise_cons] at ho
    rw [List.lookup_cons] at h
    split at h
    · rename_i heq
      have hm : name = m := eq_of_beq heq
      have hold : b = old := by simpa using h
      have hrest : rest.filter (fun e => e.1 != name) = rest := by
        rw [List.filter_eq_self]
        intro e he
        have : e.1 ≠ name := fun h => String.lt_irrefl e.1 (by simpa [h, hm] using ho.1 e he)
        simpa using this
      rw [List.filter_cons_of_neg (by simp [hm]), hrest, hold]
      exact List.Perm.refl _
    · rename_i hne
      have hne : name ≠ m := beq_eq_false_iff_ne.mp hne
      rw [List.filter_cons_of_pos (by simpa using hne.symm)]
      exact (List.Perm.swap b old _).trans ((ih ho.2 h).cons b)

/-- Erasing a name that stands for nothing changes nothing. -/
theorem erase_eq_self {r : Registers α} {name : String} (h : r.get? name = none) :
    r.erase name = r := by
  obtain ⟨l⟩ := r
  simp only [get?, erase, mk.injEq] at h ⊢
  rw [List.filter_eq_self]
  intro e he
  have : e.1 ≠ name := by
    intro heq
    rw [List.lookup_eq_none_iff] at h
    have := h e he
    simp [heq] at this
  simpa using this

/-- Storing under a name, whether it is in use or not. -/
theorem values_set_perm_erase {r : Registers α} (ho : r.Ordered) (name : String) (a : α) :
    (r.set name a).values.Perm (a :: (r.erase name).values) := by
  cases h : r.get? name with
  | none =>
    rw [erase_eq_self h]
    exact values_set_perm_of_none a h
  | some old =>
    have hset : (old :: (r.set name a).values).Perm (a :: old :: (r.erase name).values) :=
      (values_set_perm ho a h).trans ((values_erase_perm ho h).symm.cons a)
    exact (hset.trans (List.Perm.swap old a _)).cons_inv

end Substrate.Registers
