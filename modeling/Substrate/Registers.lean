/-!
# Named registers

A session keeps its values in registers named by text.  `Registers α` holds
them in name order, which is the order in which a session lists and drops
them.  Names are compared by code points, which is also the order of their
UTF-8 bytes.
-/

namespace Substrate

/-- Values under distinct names, in name order. -/
structure Registers (α : Type) where
  /-- The entries, by ascending name. -/
  entries : List (String × α) := []

namespace Registers

variable {α β : Type}

/-- No register at all. -/
def empty : Registers α := ⟨[]⟩

instance : Inhabited (Registers α) := ⟨empty⟩

/-- The value under `name`. -/
def get? (r : Registers α) (name : String) : Option α := r.entries.lookup name

/-- Whether there is a value under `name`. -/
def contains (r : Registers α) (name : String) : Bool := (r.get? name).isSome

/-- Put `a` under `name` into an ascending list of entries. -/
def insertEntry (name : String) (a : α) : List (String × α) → List (String × α)
  | [] => [(name, a)]
  | (m, b) :: rest =>
    if name = m then (name, a) :: rest
    else if name < m then (name, a) :: (m, b) :: rest
    else (m, b) :: insertEntry name a rest

/-- The registers with `a` under `name`. -/
def set (r : Registers α) (name : String) (a : α) : Registers α :=
  ⟨insertEntry name a r.entries⟩

/-- The registers without `name`. -/
def erase (r : Registers α) (name : String) : Registers α :=
  ⟨r.entries.filter fun e => e.1 != name⟩

/-- The values in name order. -/
def values (r : Registers α) : List α := r.entries.map Prod.snd

/-- The names in order. -/
def names (r : Registers α) : List String := r.entries.map Prod.fst

/-- Apply `f` to every value. -/
def map (f : α → β) (r : Registers α) : Registers β := ⟨r.entries.map fun e => (e.1, f e.2)⟩

@[simp] theorem get?_empty (name : String) : (empty : Registers α).get? name = none := rfl

theorem lookup_insertEntry (name other : String) (a : α) (l : List (String × α)) :
    (insertEntry name a l).lookup other = if other = name then some a else l.lookup other := by
  by_cases h : other = name
  · subst h
    induction l with
    | nil => simp [insertEntry]
    | cons e rest ih =>
      obtain ⟨m, b⟩ := e
      unfold insertEntry
      split
      · simp
      · rename_i hm
        split
        · simp
        · simpa [List.lookup_cons, beq_eq_false_iff_ne.mpr hm] using ih
  · have hb : (other == name) = false := beq_eq_false_iff_ne.mpr h
    induction l with
    | nil => simp [insertEntry, List.lookup_cons, hb, h]
    | cons e rest ih =>
      obtain ⟨m, b⟩ := e
      unfold insertEntry
      split
      · rename_i hm
        subst hm
        simp [List.lookup_cons, hb]
      · split
        · simp [List.lookup_cons, hb]
        · simp only [h, if_false] at ih ⊢
          simp [List.lookup_cons, ih]

/-- A register holds what was last stored in it. -/
theorem get?_set (r : Registers α) (name other : String) (a : α) :
    (r.set name a).get? other = if other = name then some a else r.get? other :=
  lookup_insertEntry name other a r.entries

end Registers

end Substrate
