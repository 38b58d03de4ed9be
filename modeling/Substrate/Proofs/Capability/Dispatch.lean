import Mathlib.Data.List.Find
import Substrate.Capability.Figure
import Substrate.Capability.Grid

/-!
# Dispatch through a grid

Which function table an offset of a grid leads to, in terms of the calls that
its builder took.  The slot at a flat index holds the table of the last
implementation written there (`getElem?_slots`).  As long as every view that
was recorded is a column of the grid, rows and columns can be read off a flat
index, so that slot is of the implementation's own type and view only
(`slot_of_own_views`).  A view past the last column is written into a later
row: `foreign_view_in_next_row` is the smallest grid on which it is seen.

Offsets have 32 bits, so all of this is about grids with no more slots than
that (`Grid.Addressable`).
-/

namespace Substrate.Capability

variable {κ ν : Type}

/-! ## Calls of a builder -/

/-- A call of a builder. -/
inductive Call (κ ν : Type) where
  | view (name : String)
  | implement (concrete : κ) (view : Nat) (vtable : ν)
  deriving DecidableEq, Repr

namespace Call

def viewName? : Call κ ν → Option String
  | .view name => some name
  | .implement .. => none

def implementation? : Call κ ν → Option (Implementation κ ν)
  | .view _ => none
  | .implement concrete column vtable => some ⟨concrete, column, vtable⟩

theorem implementation?_eq_some {c : Call κ ν} {i : Implementation κ ν} :
    c.implementation? = some i ↔ c = .implement i.concrete i.view i.vtable := by
  cases c <;> cases i <;> simp [implementation?]

end Call

namespace Builder

/-- The builder after one more call. -/
def call (b : Builder κ ν) : Call κ ν → Builder κ ν
  | .view name => (b.view name).1
  | .implement concrete view vtable => b.implement concrete view vtable

/-- The builder after calls from the start. -/
def after (calls : List (Call κ ν)) : Builder κ ν := calls.foldl call {}

theorem foldl_call (calls : List (Call κ ν)) (b : Builder κ ν) :
    calls.foldl call b =
      ⟨b.views ++ calls.filterMap Call.viewName?,
        b.implementations ++ calls.filterMap Call.implementation?⟩ := by
  induction calls generalizing b with
  | nil => simp
  | cons c rest ih =>
    rw [List.foldl_cons, ih]
    cases c <;>
      simp [call, view, implement, List.filterMap_cons, Call.viewName?, Call.implementation?]

theorem implementations_after (calls : List (Call κ ν)) :
    (after calls).implementations = calls.filterMap Call.implementation? := by
  simp [after, foldl_call]

theorem mem_implementations_after {calls : List (Call κ ν)} {i : Implementation κ ν} :
    i ∈ (after calls).implementations ↔
      Call.implement i.concrete i.view i.vtable ∈ calls := by
  rw [implementations_after, List.mem_filterMap]
  constructor
  · rintro ⟨c, hc, he⟩
    rwa [← Call.implementation?_eq_some.mp he]
  · intro h
    exact ⟨_, h, Call.implementation?_eq_some.mpr rfl⟩

/-- The last implementation with a property is recorded by the last call that
records one. -/
theorem last_call {calls : List (Call κ ν)} {p : Implementation κ ν → Bool}
    {i : Implementation κ ν} (h : (after calls).implementations.reverse.find? p = some i) :
    p i ∧ ∃ before later, calls = before ++ .implement i.concrete i.view i.vtable :: later ∧
      ∀ j, p j → .implement j.concrete j.view j.vtable ∉ later := by
  refine ⟨List.find?_some h, ?_⟩
  rw [implementations_after, ← List.filterMap_reverse, List.find?_filterMap,
    Option.bind_eq_some_iff] at h
  obtain ⟨c, hc, hi⟩ := h
  obtain ⟨-, later, before, hsplit, hlater⟩ := List.find?_eq_some_iff_append.mp hc
  have hcalls : calls = before.reverse ++ c :: later.reverse := by
    simpa using congrArg List.reverse hsplit
  refine ⟨before.reverse, later.reverse, ?_, ?_⟩
  · rw [hcalls, Call.implementation?_eq_some.mp hi]
  · intro j hj hmem
    have hno := hlater _ (List.mem_reverse.mp hmem)
    simp [Call.implementation?, hj] at hno

/-! ## Rows -/

section Rows

variable [DecidableEq κ]

theorem mem_rowsFrom {rows : List κ} {is : List (Implementation κ ν)} {c : κ} :
    c ∈ rowsFrom rows is ↔ c ∈ rows ∨ ∃ i ∈ is, i.concrete = c := by
  induction is generalizing rows with
  | nil => simp [rowsFrom]
  | cons i rest ih =>
    rw [rowsFrom, ih]
    split <;> grind

theorem nodup_rowsFrom {rows : List κ} (h : rows.Nodup) (is : List (Implementation κ ν)) :
    (rowsFrom rows is).Nodup := by
  induction is generalizing rows with
  | nil => exact h
  | cons i rest ih =>
    rw [rowsFrom]
    apply ih
    split
    · exact h
    · rw [List.nodup_append]
      refine ⟨h, by simp, ?_⟩
      intro a ha b hb
      rw [List.mem_singleton.mp hb]
      rintro rfl
      contradiction

/-! ## Slots -/

/-- The flat index at which an implementation is written. -/
def flatIndex (width : Nat) (rows : List κ) (i : Implementation κ ν) : Nat :=
  rows.idxOf i.concrete * width + i.view

theorem length_fill {width : Nat} {rows : List κ} {slots slots' : List (Option ν)}
    {is : List (Implementation κ ν)} (h : fill width rows slots is = .ok slots') :
    slots'.length = slots.length := by
  induction is generalizing slots with
  | nil => cases h; rfl
  | cons i rest ih =>
    rw [fill] at h
    split at h
    · simpa using ih h
    · cases h

theorem fill_ok {width : Nat} {rows : List κ} {slots : List (Option ν)}
    {is : List (Implementation κ ν)}
    (h : ∀ i ∈ is, flatIndex width rows i < slots.length) :
    ∃ slots', fill width rows slots is = .ok slots' := by
  induction is generalizing slots with
  | nil => exact ⟨slots, rfl⟩
  | cons i rest ih =>
    have hi : rows.idxOf i.concrete * width + i.view < slots.length := h i (by simp)
    rw [fill, if_pos hi]
    apply ih
    intro j hj
    simpa using h j (by simp [hj])

/-- The last implementation written at an index is the one found there. -/
theorem getElem?_fill {width : Nat} {rows : List κ} {slots slots' : List (Option ν)}
    {is : List (Implementation κ ν)} (h : fill width rows slots is = .ok slots') (k : Nat) :
    slots'[k]? = ((is.reverse.find? (flatIndex width rows · = k)).map
      fun i => some i.vtable).or slots[k]? := by
  induction is generalizing slots with
  | nil => cases h; rfl
  | cons i rest ih =>
    rw [fill] at h
    split at h
    case isFalse => cases h
    case isTrue hlt =>
      rw [ih h, List.reverse_cons, List.find?_append]
      by_cases hk : flatIndex width rows i = k
      · have hset : (slots.set (rows.idxOf i.concrete * width + i.view) (some i.vtable))[k]? =
            some (some i.vtable) := by
          rw [← hk, flatIndex, List.getElem?_set_self hlt]
        rw [hset]
        cases rest.reverse.find? (flatIndex width rows · = k) <;> simp [hk]
      · have hset : (slots.set (rows.idxOf i.concrete * width + i.view) (some i.vtable))[k]? =
            slots[k]? := List.getElem?_set_ne hk
        rw [hset]
        cases rest.reverse.find? (flatIndex width rows · = k) <;> simp [hk]

/-- The parts of a grid that was built. -/
theorem build_eq_ok {b : Builder κ ν} {g : Grid κ ν} (h : b.build = .ok g) :
    g.views = b.views ∧ g.rows = rowsFrom [] b.implementations ∧
      fill g.width g.rows (List.replicate (g.rows.length * g.width) none) b.implementations =
        .ok g.slots := by
  unfold build at h
  dsimp only at h
  split at h
  case h_1 slots hfill =>
    cases h
    exact ⟨rfl, rfl, hfill⟩
  case h_2 => cases h

/-- A slot holds the function table of the last implementation written there. -/
theorem getElem?_slots {b : Builder κ ν} {g : Grid κ ν} (h : b.build = .ok g) {k : Nat}
    (hk : k < g.rows.length * g.width) :
    g.slots[k]? = some ((b.implementations.reverse.find?
      (flatIndex g.width g.rows · = k)).map (·.vtable)) := by
  rw [getElem?_fill (build_eq_ok h).2.2 k]
  cases b.implementations.reverse.find? (flatIndex g.width g.rows · = k) <;> simp [hk]

theorem length_slots {b : Builder κ ν} {g : Grid κ ν} (h : b.build = .ok g) :
    g.slots.length = g.rows.length * g.width := by
  simpa using length_fill (build_eq_ok h).2.2

/-! ## Rows and columns of a flat index -/

omit [DecidableEq κ] in
theorem flat_lt {row rows view width : Nat} (hrow : row < rows) (hview : view < width) :
    row * width + view < rows * width :=
  calc row * width + view < row * width + width := by omega
    _ = (row + 1) * width := (Nat.succ_mul row width).symm
    _ ≤ rows * width := Nat.mul_le_mul_right width hrow

omit [DecidableEq κ] in
theorem flat_div (row : Nat) {view width : Nat} (hview : view < width) :
    (row * width + view) / width = row := by
  rw [Nat.add_comm, Nat.add_mul_div_right _ _ (by omega), Nat.div_eq_of_lt hview, Nat.zero_add]

omit [DecidableEq κ] in
theorem flat_mod (row : Nat) {view width : Nat} (hview : view < width) :
    (row * width + view) % width = view := by
  rw [Nat.mul_add_mod_self_right, Nat.mod_eq_of_lt hview]

/-- Where every view is a column, an implementation is written at the row of
its own type and the column of its own view. -/
theorem flatIndex_eq_iff {width : Nat} {rows : List κ} {i : Implementation κ ν} {c : κ}
    {view : Nat} (hi : i.concrete ∈ rows) (hiv : i.view < width) (hc : c ∈ rows)
    (hv : view < width) :
    flatIndex width rows i = rows.idxOf c * width + view ↔ i.concrete = c ∧ i.view = view := by
  constructor
  · intro h
    rw [flatIndex] at h
    have hrow : rows.idxOf i.concrete = rows.idxOf c := by
      rw [← flat_div (rows.idxOf i.concrete) hiv, h, flat_div _ hv]
    have hview : i.view = view := by
      rw [← flat_mod (rows.idxOf i.concrete) hiv, h, flat_mod _ hv]
    have hget := List.getElem_idxOf (List.idxOf_lt_length_of_mem hi)
    simp only [hrow, List.getElem_idxOf] at hget
    exact ⟨hget.symm, hview⟩
  · rintro ⟨rfl, rfl⟩
    rfl

/-- Where every view is a column, the slot of a type and a view holds the
function table of the last implementation of that type for that view. -/
theorem slot_of_own_views {b : Builder κ ν} {g : Grid κ ν} (h : b.build = .ok g)
    (hown : ∀ i ∈ b.implementations, i.view < g.width) {c : κ} (hc : c ∈ g.rows) {view : Nat}
    (hv : view < g.width) :
    g.slots[g.rows.idxOf c * g.width + view]? =
      some ((b.implementations.reverse.find? fun i => i.concrete = c ∧ i.view = view).map
        (·.vtable)) := by
  rw [getElem?_slots h (flat_lt (List.idxOf_lt_length_of_mem hc) hv)]
  congr 2
  apply List.find?_congr
  intro i hi
  rw [List.mem_reverse] at hi
  have hrow : i.concrete ∈ g.rows := by
    rw [(build_eq_ok h).2.1, mem_rowsFrom]
    exact .inr ⟨i, hi, rfl⟩
  simp only [flatIndex_eq_iff hrow (hown i hi) hc hv]

theorem build_ok {b : Builder κ ν} (hown : ∀ i ∈ b.implementations, i.view < b.views.length) :
    ∃ g, b.build = .ok g := by
  have hroom : ∀ i ∈ b.implementations,
      flatIndex b.views.length (rowsFrom [] b.implementations) i <
        (List.replicate ((rowsFrom [] b.implementations).length * b.views.length)
          (none : Option ν)).length := by
    intro i hi
    have hrow : i.concrete ∈ rowsFrom [] b.implementations :=
      mem_rowsFrom.mpr (.inr ⟨i, hi, rfl⟩)
    rw [List.length_replicate, flatIndex]
    exact flat_lt (List.idxOf_lt_length_of_mem hrow) (hown i hi)
  obtain ⟨slots, hslots⟩ := fill_ok hroom
  exact ⟨_, by rw [build, hslots]⟩

end Rows

end Builder

/-! ## Offsets -/

theorem narrow_of_lt {n : Nat} (h : n < Nat.pow 2 32) : narrow n = n := Nat.mod_eq_of_lt h

namespace Grid

/-- Every slot has an offset of its own. -/
def Addressable (g : Grid κ ν) : Prop := g.slots.length ≤ Nat.pow 2 32

instance (g : Grid κ ν) : Decidable g.Addressable := inferInstanceAs (Decidable (_ ≤ _))

theorem slotIndex_of_width_le {g : Grid κ ν} {view : Nat} (hv : g.width ≤ view) (row : Nat) :
    g.slotIndex row view = .ok none := by
  rw [slotIndex, if_pos hv]

theorem slotIndex_of_lt {g : Grid κ ν} {row view : Nat} {slot : Option ν} (hv : view < g.width)
    (hslot : g.slots[row * g.width + view]? = some slot) :
    g.slotIndex row view = .ok (slot.map fun _ => row * g.width + view) := by
  rw [slotIndex, if_neg (by omega)]
  cases slot <;> simp [hslot]

/-- The flat index of a slot is the same in 32 bits. -/
theorem narrow_slotIndex {g : Grid κ ν} (hfits : g.Addressable) (row view : Nat) :
    (g.slotIndex row view).map (Option.map narrow) = g.slotIndex row view := by
  rw [slotIndex]
  split
  · rfl
  · dsimp only
    split
    · rfl
    · rfl
    · rename_i hslot
      have hlt := (List.getElem?_eq_some_iff.mp hslot).1
      rw [Except.map, Option.map_some, narrow_of_lt (Nat.lt_of_lt_of_le hlt hfits)]

theorem viewOf_of_lt {g : Grid κ ν} (hfits : g.Addressable) {offset : Nat}
    (hoffset : offset < g.slots.length) : g.viewOf offset = offset % g.width :=
  narrow_of_lt (Nat.lt_of_le_of_lt (Nat.mod_le _ _) (Nat.lt_of_lt_of_le hoffset hfits))

theorem remap_of_width_le {g : Grid κ ν} (hw : g.width ≠ 0) {view : Nat} (hv : g.width ≤ view)
    (offset : Nat) : g.remap offset view = .ok none := by
  rw [remap, if_neg hw, slotIndex_of_width_le hv]
  rfl

theorem remap_eq {g : Grid κ ν} (hfits : g.Addressable) (hw : g.width ≠ 0) (offset view : Nat) :
    g.remap offset view = g.slotIndex (offset / g.width) view := by
  rw [remap, if_neg hw, narrow_slotIndex hfits]

variable [DecidableEq κ]

theorem offsetOf_of_mem {g : Grid κ ν} {c : κ} (hc : c ∈ g.rows) (view : Nat) :
    g.offsetOf c view = (g.slotIndex (g.rows.idxOf c) view).map (Option.map narrow) := by
  have hfind : g.rows.findIdx? (· = c) = some (g.rows.idxOf c) := by
    rw [List.findIdx?_eq_some_iff_findIdx_eq]
    exact ⟨List.idxOf_lt_length_of_mem hc, by simp [List.idxOf, beq_eq_decide]⟩
  rw [offsetOf, hfind]

theorem offsetOf_of_not_mem {g : Grid κ ν} {c : κ} (hc : c ∉ g.rows) (view : Nat) :
    g.offsetOf c view = .ok none := by
  have hfind : g.rows.findIdx? (· = c) = none := by
    rw [List.findIdx?_eq_none_iff]
    intro x hx
    have hne : x ≠ c := fun h => hc (h ▸ hx)
    simpa using hne
  rw [offsetOf, hfind]

theorem offsetOf_of_width_le {g : Grid κ ν} {view : Nat} (hv : g.width ≤ view) (c : κ) :
    g.offsetOf c view = .ok none := by
  by_cases hc : c ∈ g.rows
  · rw [offsetOf_of_mem hc, slotIndex_of_width_le hv]
    rfl
  · exact offsetOf_of_not_mem hc view

end Grid

namespace Builder

/-- That `vtable` is of the last call that implements `view` for `concrete`. -/
def LastFor (calls : List (Call κ ν)) (concrete : κ) (view : Nat) (vtable : ν) : Prop :=
  ∃ before later, calls = before ++ .implement concrete view vtable :: later ∧
    ∀ other, .implement concrete view other ∉ later

variable [DecidableEq κ]

theorem lastFor_of_find? {calls : List (Call κ ν)} {c : κ} {view : Nat} {i : Implementation κ ν}
    (h : (after calls).implementations.reverse.find?
      (fun i => i.concrete = c ∧ i.view = view) = some i) :
    LastFor calls c view i.vtable := by
  obtain ⟨hi, before, later, hcalls, hlater⟩ := last_call h
  obtain ⟨rfl, rfl⟩ : i.concrete = c ∧ i.view = view := by simpa using hi
  exact ⟨before, later, hcalls, fun other => hlater ⟨i.concrete, i.view, other⟩ (by simp)⟩

theorem find?_eq_none_iff {calls : List (Call κ ν)} {c : κ} {view : Nat} :
    (after calls).implementations.reverse.find? (fun i => i.concrete = c ∧ i.view = view) = none ↔
      ∀ vtable, .implement c view vtable ∉ calls := by
  simp only [List.find?_eq_none, List.mem_reverse, mem_implementations_after]
  constructor
  · intro h vtable hmem
    simpa using h ⟨c, view, vtable⟩ hmem
  · rintro h i hi hp
    obtain ⟨rfl, rfl⟩ : i.concrete = c ∧ i.view = view := by simpa using hp
    exact h i.vtable hi

/-- The row and the column of the offset of a type and a view, and that its slot is taken. -/
theorem taken_of_offsetOf {b : Builder κ ν} {g : Grid κ ν} (h : b.build = .ok g)
    (hfits : g.Addressable) {c : κ} {view offset : Nat}
    (hoffset : g.offsetOf c view = .ok (some offset)) :
    view < g.width ∧ g.rows[offset / g.width]? = some c ∧ offset % g.width = view ∧
      ∃ vtable, g.slots[offset]? = some (some vtable) := by
  by_cases hc : c ∈ g.rows
  · by_cases hv : view < g.width
    · have hlt : g.rows.idxOf c < g.rows.length := List.idxOf_lt_length_of_mem hc
      have hroom : g.rows.idxOf c * g.width + view < g.slots.length := by
        rw [length_slots h]
        exact flat_lt hlt hv
      obtain ⟨slot, hslot⟩ : ∃ slot, g.slots[g.rows.idxOf c * g.width + view]? = some slot :=
        ⟨_, List.getElem?_eq_getElem hroom⟩
      rw [Grid.offsetOf_of_mem hc, Grid.narrow_slotIndex hfits, Grid.slotIndex_of_lt hv hslot]
        at hoffset
      cases slot with
      | none => cases hoffset
      | some vtable =>
        cases hoffset
        refine ⟨hv, ?_, flat_mod _ hv, vtable, hslot⟩
        rw [flat_div _ hv, List.getElem?_eq_getElem hlt, List.getElem_idxOf]
    · rw [Grid.offsetOf_of_width_le (by omega)] at hoffset
      cases hoffset
  · rw [Grid.offsetOf_of_not_mem hc] at hoffset
    cases hoffset

/-- An offset gives back the type and the view it is of. -/
theorem place_of_offsetOf {b : Builder κ ν} {g : Grid κ ν} (h : b.build = .ok g)
    (hfits : g.Addressable) {c : κ} {view offset : Nat}
    (hoffset : g.offsetOf c view = .ok (some offset)) :
    g.concreteOf offset = .ok c ∧ g.viewOf offset = view := by
  obtain ⟨hv, hrow, hview, vtable, hslot⟩ := taken_of_offsetOf h hfits hoffset
  refine ⟨by rw [Grid.concreteOf, if_neg (by omega), hrow], ?_⟩
  rw [Grid.viewOf_of_lt hfits (List.getElem?_eq_some_iff.mp hslot).1, hview]

/-- The two outcomes of asking for a view that is a column. -/
theorem offsetOf_cases {calls : List (Call κ ν)} {g : Grid κ ν} (h : (after calls).build = .ok g)
    (hfits : g.Addressable) (hown : ∀ i ∈ (after calls).implementations, i.view < g.width)
    (c : κ) {view : Nat}
    (hv : view < g.width) :
    (g.offsetOf c view = .ok none ∧ ∀ vtable, .implement c view vtable ∉ calls) ∨
      ∃ offset vtable, g.offsetOf c view = .ok (some offset) ∧
        g.slots[offset]? = some (some vtable) ∧ LastFor calls c view vtable := by
  by_cases hc : c ∈ g.rows
  · have hslot := slot_of_own_views h hown hc hv
    rw [Grid.offsetOf_of_mem hc, Grid.narrow_slotIndex hfits, Grid.slotIndex_of_lt hv hslot]
    cases hfind : (after calls).implementations.reverse.find?
        (fun i => i.concrete = c ∧ i.view = view) with
    | none => exact .inl ⟨rfl, find?_eq_none_iff.mp hfind⟩
    | some i =>
      rw [hfind] at hslot
      exact .inr ⟨_, i.vtable, rfl, hslot, lastFor_of_find? hfind⟩
  · refine .inl ⟨Grid.offsetOf_of_not_mem hc view, fun vtable hmem => hc ?_⟩
    rw [(build_eq_ok h).2.1, mem_rowsFrom]
    exact .inr ⟨⟨c, view, vtable⟩, mem_implementations_after.mpr hmem, rfl⟩

/-- A function table found at an offset is of the offset's own type and view. -/
theorem lastFor_of_slot {calls : List (Call κ ν)} {g : Grid κ ν} (h : (after calls).build = .ok g)
    (hfits : g.Addressable) (hown : ∀ i ∈ (after calls).implementations, i.view < g.width)
    {offset : Nat} {c : κ}
    {vtable : ν} (hrow : g.concreteOf offset = .ok c)
    (hslot : g.slots[offset]? = some (some vtable)) :
    LastFor calls c (g.viewOf offset) vtable := by
  rw [Grid.viewOf_of_lt hfits (List.getElem?_eq_some_iff.mp hslot).1]
  unfold Grid.concreteOf at hrow
  split at hrow
  case isTrue => cases hrow
  case isFalse hw =>
    split at hrow
    case h_2 => cases hrow
    case h_1 row hget =>
      cases hrow
      obtain ⟨hlt, hget⟩ := List.getElem?_eq_some_iff.mp hget
      have hnodup : g.rows.Nodup := by
        rw [(build_eq_ok h).2.1]
        exact nodup_rowsFrom (by simp) _
      have hidx : g.rows.idxOf c = offset / g.width := by
        rw [← hget, hnodup.idxOf_getElem]
      have hv : offset % g.width < g.width := Nat.mod_lt _ (by omega)
      have hown := slot_of_own_views h hown (hget ▸ List.getElem_mem hlt) hv
      rw [hidx, Nat.div_add_mod', hslot] at hown
      obtain ⟨i, hfind, rfl⟩ := Option.map_eq_some_iff.mp (Option.some.inj hown).symm
      exact lastFor_of_find? hfind

/-- Asking for a view past the last column gives nothing.  If every view that
is implemented is a column, the grid is built; and if it is addressable, a type
has an offset for a view exactly if a call implements it, the function table
there is of the last such call, and a value of a type never meets a function
table of another type or view. -/
theorem dispatch_to_last_implementation (calls : List (Call κ ν)) :
    (∀ g, (after calls).build = .ok g → ∀ view, g.width ≤ view →
      (∀ c, g.offsetOf c view = .ok none) ∧
        ∀ offset < g.slots.length, g.remap offset view = .ok none) ∧
    ((∀ c view vtable, .implement c view vtable ∈ calls → view < (after calls).views.length) →
      ∃ g, (after calls).build = .ok g ∧ g.width = (after calls).views.length ∧
        (g.Addressable →
          (∀ c view, view < g.width →
            ((∃ offset, g.offsetOf c view = .ok (some offset)) ↔
              ∃ vtable, .implement c view vtable ∈ calls) ∧
            ((∀ vtable, .implement c view vtable ∉ calls) → g.offsetOf c view = .ok none) ∧
            ∀ offset, g.offsetOf c view = .ok (some offset) →
              g.concreteOf offset = .ok c ∧ g.viewOf offset = view ∧
                ∃ vtable, LastFor calls c view vtable ∧ g.slots[offset]? = some (some vtable)) ∧
          ∀ offset c vtable, g.concreteOf offset = .ok c → g.slots[offset]? = some (some vtable) →
            LastFor calls c (g.viewOf offset) vtable)) := by
  refine ⟨?_, ?_⟩
  · intro g hg view hv
    refine ⟨Grid.offsetOf_of_width_le hv, fun offset hoffset => ?_⟩
    have hw : g.width ≠ 0 := by
      intro hw
      rw [length_slots hg, hw] at hoffset
      omega
    exact Grid.remap_of_width_le hw hv offset
  · intro hown
    have hown : ∀ i ∈ (after calls).implementations, i.view < (after calls).views.length :=
      fun i hi => hown _ _ _ (mem_implementations_after.mp hi)
    obtain ⟨g, hg⟩ := build_ok hown
    have hwidth : g.width = (after calls).views.length := by
      rw [Grid.width, (build_eq_ok hg).1]
    rw [← hwidth] at hown
    refine ⟨g, hg, hwidth, fun hfits => ⟨fun c view hv => ?_, fun offset c vtable =>
      lastFor_of_slot hg hfits hown⟩⟩
    obtain ⟨hnone, hno⟩ | ⟨offset, vtable, hsome, hslot, hlast⟩ := offsetOf_cases hg hfits hown c hv
    · simp [hnone, hno]
    · obtain ⟨before, later, hcalls, -⟩ := id hlast
      have hmem : .implement c view vtable ∈ calls := by simp [hcalls]
      refine ⟨⟨fun _ => ⟨vtable, hmem⟩, fun _ => ⟨offset, hsome⟩⟩, fun h => absurd hmem (h vtable),
        fun offset' h => ?_⟩
      rw [hsome] at h
      cases h
      obtain ⟨hrow, hview⟩ := place_of_offsetOf hg hfits hsome
      exact ⟨hrow, hview, vtable, hlast, hslot⟩

/-- The calls of a grid on which circles implement both views, the first one
twice. -/
def circleCalls : List (Call Concrete VTable) :=
  [.view "shape", .implement .square 1 ⟨.named, .square⟩, .view "named",
    .implement .circle 0 ⟨.scale, .circle⟩, .implement .circle 1 ⟨.named, .circle⟩,
    .implement .circle 0 ⟨.shape, .circle⟩]

theorem dispatch_to_last_implementation_circle :
    ∃ g, (after circleCalls).build = .ok g ∧ g.offsetOf .circle 0 = .ok (some 2) ∧
      g.offsetOf .square 0 = .ok none ∧
      ∃ vtable, LastFor circleCalls .circle 0 vtable ∧ g.slots[2]? = some (some vtable) := by
  obtain ⟨g, hg, hwidth, hviews⟩ := (dispatch_to_last_implementation circleCalls).2 (by
    simp only [circleCalls, after, call, view, implement, List.foldl]
    grind)
  have hfits : g.Addressable := by
    cases hg
    decide
  obtain ⟨hviews, -⟩ := hviews hfits
  obtain ⟨-, -, hcircle⟩ := hviews .circle 0 (by rw [hwidth]; decide)
  obtain ⟨-, hsquare, -⟩ := hviews .square 0 (by rw [hwidth]; decide)
  have hoffset : g.offsetOf .circle 0 = .ok (some 2) := by
    cases hg
    rfl
  exact ⟨g, hg, hoffset, hsquare (by simp [circleCalls]), (hcircle 2 hoffset).2.2⟩

/-- The calls of a grid of two views on which circles implement a third one. -/
def foreignCalls : List (Call Concrete VTable) :=
  [.view "a", .view "b", .implement .circle 2 ⟨.shape, .circle⟩,
    .implement .square 1 ⟨.named, .square⟩]

/-- A view past the last column of a type's row is the first column of the
next one: squares, which do not implement it, get the function table of
circles there. -/
theorem foreign_view_in_next_row :
    ∃ g, (after foreignCalls).build = .ok g ∧ 0 < g.width ∧
      (∀ vtable, .implement .square 0 vtable ∉ foreignCalls) ∧
      g.offsetOf .square 0 = .ok (some 2) ∧ g.concreteOf 2 = .ok .square ∧
      g.slots[2]? = some (some ⟨.shape, .circle⟩) := by
  refine ⟨_, rfl, ?_, ?_, rfl, rfl, rfl⟩
  · decide
  · simp [foreignCalls]

end Builder

end Substrate.Capability
