/-!
# Total tables

A `Table α` maps every number to a value: finitely many entries are stored,
and every other number maps to the default.  Identities in this library
(cells, stores, frames, workers) are numbers handed out by counters and never
reused, so a table is read without a bounds check and a write outside the
stored part extends it.

`get_set` is the one equation the rest of the library needs.
-/

namespace Substrate

/-- A total map from numbers that is the default outside its stored part. -/
structure Table (α : Type) where
  /-- The stored part, from number 0 on. -/
  cells : Array α := #[]

namespace Table

variable {α : Type} [Inhabited α]

/-- The table that is the default everywhere. -/
def empty : Table α := ⟨#[]⟩

instance : Inhabited (Table α) := ⟨empty⟩

/-- The value at `i`. -/
def get (t : Table α) (i : Nat) : α := t.cells.getD i default

/-- The table with `a` at `i` and everything else as before. -/
def set (t : Table α) (i : Nat) (a : α) : Table α :=
  if h : i < t.cells.size then
    ⟨t.cells.set i a h⟩
  else
    ⟨(t.cells ++ Array.replicate (i - t.cells.size) default).push a⟩

/-- The table with `f` applied to the value at `i`. -/
def modify (t : Table α) (i : Nat) (f : α → α) : Table α := t.set i (f (t.get i))

@[simp] theorem get_empty (i : Nat) : (empty : Table α).get i = default := by
  simp [get, empty]

/-- A write is seen at its own number and nowhere else. -/
theorem get_set (t : Table α) (i j : Nat) (a : α) :
    (t.set i a).get j = if j = i then a else t.get j := by
  unfold set get
  split
  · rename_i h
    simp only [Array.getD_eq_getD_getElem?, Array.getElem?_set]
    by_cases hji : j = i
    · subst hji; simp
    · have hij : i ≠ j := fun e => hji e.symm
      simp [hji, hij]
  · rename_i h
    simp only [Array.getD_eq_getD_getElem?, Array.getElem?_push, Array.size_append,
      Array.size_replicate, Array.getElem?_append, Array.getElem?_replicate]
    by_cases hji : j = i
    · subst hji
      have : j = t.cells.size + (j - t.cells.size) := by omega
      simp [← this]
    · have hne : j ≠ t.cells.size + (i - t.cells.size) := by omega
      by_cases hlt : j < t.cells.size
      · simp [hji, hne, hlt]
      · simp only [hne, hji, hlt, if_false]
        rw [Array.getElem?_eq_none (by omega)]
        split <;> simp

@[simp] theorem get_set_self (t : Table α) (i : Nat) (a : α) : (t.set i a).get i = a := by
  simp [get_set]

theorem get_set_of_ne (t : Table α) {i j : Nat} (a : α) (h : j ≠ i) :
    (t.set i a).get j = t.get j := by
  simp [get_set, h]

theorem get_modify (t : Table α) (i j : Nat) (f : α → α) :
    (t.modify i f).get j = if j = i then f (t.get j) else t.get j := by
  unfold modify
  rw [get_set]
  split
  · rename_i h; rw [h]
  · rfl

end Table

end Substrate
