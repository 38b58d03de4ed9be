import Substrate.Capability.Object
import Substrate.Proofs.Capability.Dispatch

/-!
# Masking

An object is a value, a grid and an offset, and masking it moves the offset along the row of the
value's type.  `Object.Placed` is what an object keeps that was made with an offset of its grid,
where slots have offsets: the offset is that of a slot which is taken, in the row of the type.  A
slot is found at `row * width + view`, so the row of every offset in it is the same, and where
masking leads depends on the last view alone.
-/

namespace Substrate.Capability

open Ownership (Heap)

variable {κ ν : Type}

namespace Grid

/-- The flat index of a view in the row of an offset. -/
def inRow (g : Grid κ ν) (offset view : Nat) : Nat := offset / g.width * g.width + view

theorem inRow_div (g : Grid κ ν) (offset : Nat) {view : Nat} (hv : view < g.width) :
    g.inRow offset view / g.width = offset / g.width :=
  Builder.flat_div _ hv

theorem inRow_mod (g : Grid κ ν) (offset : Nat) : g.inRow offset (offset % g.width) = offset :=
  Nat.div_add_mod' offset g.width

/-- Being in one row is the same from every offset of it. -/
theorem inRow_inRow (g : Grid κ ν) (offset other : Nat) {view : Nat} (hv : view < g.width) :
    g.inRow (g.inRow offset view) other = g.inRow offset other := by
  rw [inRow, g.inRow_div _ hv, inRow]

/-- Whether the type of an offset implements a view. -/
def Implements (g : Grid κ ν) (offset view : Nat) : Prop :=
  view < g.width ∧ ∃ vtable, g.slots[g.inRow offset view]? = some (some vtable)

theorem implements_inRow {g : Grid κ ν} {offset view : Nat} (hv : view < g.width) (other : Nat) :
    g.Implements (g.inRow offset view) other ↔ g.Implements offset other := by
  rw [Implements, Implements, g.inRow_inRow _ _ hv]

end Grid

namespace Object

/-- An object of a value of type `c` at a slot of its grid that is taken. -/
structure Placed (o : Object κ ν) (g : Grid κ ν) (c : κ) : Prop where
  /-- The grid. -/
  grid : o.grid = some g
  /-- There are as many slots as rows and columns make. -/
  slots : g.slots.length = g.rows.length * g.width
  /-- Every slot has an offset. -/
  fits : g.Addressable
  /-- There is a column. -/
  width : 0 < g.width
  /-- The row is that of the type. -/
  row : g.rows[o.offset / g.width]? = some c
  /-- The slot is taken. -/
  taken : ∃ vtable, g.slots[o.offset]? = some (some vtable)

variable {o : Object κ ν} {g : Grid κ ν} {c : κ} (h : o.Placed g c)
include h

theorem Placed.concrete : o.concrete = .ok c := by
  have hw := h.width
  have hrow : g.concreteOf o.offset = .ok c := by
    rw [Grid.concreteOf, if_neg (by omega), h.row]
  rw [Object.concrete, expectGrid, h.grid]
  show (g.concreteOf o.offset).mapError Failure.defect = _
  rw [hrow]
  rfl

/-- No index of a row is outside the grid. -/
theorem Placed.inRow_lt {view : Nat} (hv : view < g.width) :
    g.inRow o.offset view < g.slots.length := by
  rw [h.slots]
  exact Builder.flat_lt (List.getElem?_eq_some_iff.mp h.row).1 hv

/-- The offset of another view, if the type implements it. -/
theorem Placed.remap_of_implements {view : Nat} (hv : g.Implements o.offset view) :
    g.remap o.offset view = .ok (some (g.inRow o.offset view)) := by
  obtain ⟨hlt, vtable, hslot⟩ := hv
  rw [Grid.remap_eq h.fits (Nat.ne_of_gt h.width), Grid.slotIndex_of_lt hlt hslot]
  rfl

theorem Placed.remap_of_not_implements {view : Nat} (hv : ¬ g.Implements o.offset view) :
    g.remap o.offset view = .ok none := by
  by_cases hlt : view < g.width
  · have hslot : g.slots[g.inRow o.offset view]? = some none := by
      cases hget : g.slots[g.inRow o.offset view]? with
      | none =>
        have := List.getElem?_eq_none_iff.mp hget
        have := h.inRow_lt hlt
        omega
      | some slot =>
        cases slot with
        | none => rfl
        | some vtable => exact (hv ⟨hlt, vtable, hget⟩).elim
    rw [Grid.remap_eq h.fits (Nat.ne_of_gt h.width), Grid.slotIndex_of_lt hlt hslot]
    rfl
  · exact Grid.remap_of_width_le (Nat.ne_of_gt h.width) (Nat.le_of_not_lt hlt) _

/-- The object in the same row at another view. -/
theorem Placed.at {view : Nat} (hv : g.Implements o.offset view) :
    Placed { o with offset := g.inRow o.offset view } g c :=
  ⟨h.grid, h.slots, h.fits, h.width, by rw [g.inRow_div _ hv.1]; exact h.row, hv.2⟩

/-- The view of the object in the same row at another view. -/
theorem Placed.view_at {view : Nat} (hv : g.Implements o.offset view) :
    Object.view { o with offset := g.inRow o.offset view } = .ok view := by
  have hview : g.viewOf (g.inRow o.offset view) = view := by
    rw [Grid.viewOf_of_lt h.fits (h.inRow_lt hv.1)]
    exact Builder.flat_mod _ hv.1
  rw [Object.view, Object.expectGrid, h.grid]
  exact congrArg Except.ok hview

/-- The view an object has is implemented. -/
theorem Placed.implements_mod : g.Implements o.offset (o.offset % g.width) :=
  ⟨Nat.mod_lt _ h.width, by rw [Grid.inRow_mod]; exact h.taken⟩

variable [TypeName κ]

/-- What masking comes to where the type implements the view. -/
theorem Placed.mask_of_implements {view : Nat} (hv : g.Implements o.offset view) :
    o.tryMask view = .ok (some { o with offset := g.inRow o.offset view }) ∧
      o.mask view = .ok { o with offset := g.inRow o.offset view } := by
  have htry : o.tryMask view = .ok (some { o with offset := g.inRow o.offset view }) := by
    simp only [tryMask, h.grid, h.remap_of_implements hv, Option.map_some]
  refine ⟨htry, ?_⟩
  rw [mask, htry, expectGrid, h.grid]
  rfl

/-- What masking comes to where it does not. -/
theorem Placed.mask_of_not_implements {view : Nat} (hv : ¬ g.Implements o.offset view) :
    o.tryMask view = .ok none ∧
      o.mask view = .error (.fault (.incompatibleType (g.viewName view) (TypeName.name c))) := by
  have htry : o.tryMask view = .ok none := by
    simp only [tryMask, h.grid, h.remap_of_not_implements hv, Option.map_none]
  refine ⟨htry, ?_⟩
  rw [mask, htry, h.concrete, expectGrid, h.grid]
  rfl

variable {π : Type} [Inhabited π]

omit h [TypeName κ] in
/-- One more holder of an object's value. -/
theorem holders_retain? (heap : Heap π) {p : Object κ ν} (hcell : p.cell = o.cell)
    (hsome : o.cell.isSome) : p.holders (heap.retain? o.cell) = o.holders heap + 1 := by
  obtain ⟨i, hi⟩ := Option.isSome_iff_exists.mp hsome
  rw [holders, holders, hcell, hi]
  simp [Heap.retain?, Heap.retain, Heap.count, Heap.setCount, Table.get_modify]

omit h [TypeName κ] in
/-- A new value has one holder. -/
theorem holders_make (heap : Heap π) (value : π) (hcell : o.cell = some heap.size) :
    o.holders (heap.make value).1 = 1 := by
  simp [holders, hcell, Heap.make, Heap.count]

omit h in
/-- Masking an object in turn along views, keeping all the objects on the way. -/
def maskAlong (heap : Heap π) (o : Object κ ν) : List Nat → Heap π × Except Failure (Object κ ν)
  | [] => (heap, .ok o)
  | view :: rest =>
    match o.maskOn heap view with
    | (heap, .ok masked) => masked.maskAlong heap rest
    | (heap, .error e) => (heap, .error e)

/-- Masking along views that all succeed: the value, the row and so the views that are left
are those of the first object, and every view was one more holder. -/
theorem Placed.maskAlong_eq (hsome : o.cell.isSome) {heap heap' : Heap π} {views : List Nat}
    {p : Object κ ν} (hp : o.maskAlong heap views = (heap', .ok p)) :
    p.Placed g c ∧ p.cell = o.cell ∧ p.offset / g.width = o.offset / g.width ∧
      (∀ view, g.Implements p.offset view ↔ g.Implements o.offset view) ∧
      p.holders heap' = o.holders heap + views.length := by
  induction views generalizing o heap with
  | nil =>
    cases hp
    exact ⟨h, rfl, rfl, fun _ => Iff.rfl, rfl⟩
  | cons view rest ih =>
    rw [maskAlong, maskOn] at hp
    by_cases hv : g.Implements o.offset view
    · rw [(h.mask_of_implements hv).2] at hp
      obtain ⟨hplaced, hcell, hrow, himplements, hholders⟩ := ih (h.at hv) hsome hp
      refine ⟨hplaced, hcell, hrow.trans (g.inRow_div _ hv.1),
        fun other => (himplements other).trans (Grid.implements_inRow hv.1 other), ?_⟩
      have hone : Object.holders { o with offset := g.inRow o.offset view }
          (heap.retain? o.cell) = o.holders heap + 1 := holders_retain? heap rfl hsome
      rw [hholders, List.length_cons, Nat.add_comm rest.length, ← Nat.add_assoc, ← hone]
    · rw [(h.mask_of_not_implements hv).2] at hp
      cases hp

end Object

section

open Builder (after)

variable [DecidableEq κ]

/-- An object at an offset of a grid that was built. -/
theorem Object.placed_of_offsetOf {b : Builder κ ν} {g : Grid κ ν} (hg : b.build = .ok g)
    (hfits : g.Addressable) {c : κ} {view offset : Nat}
    (hoffset : g.offsetOf c view = .ok (some offset)) (cell : Option Nat) :
    Object.Placed { cell, grid := some g, offset } g c := by
  obtain ⟨hv, hrow, -, htaken⟩ := Builder.taken_of_offsetOf hg hfits hoffset
  exact ⟨rfl, Builder.length_slots hg, hfits, Nat.lt_of_le_of_lt (Nat.zero_le _) hv, hrow, htaken⟩

variable [TypeName κ] {π : Type} [Inhabited π]

/-- Making an object at an offset of its type. -/
theorem Object.create_of_offsetOf {b : Builder κ ν} {g : Grid κ ν} (hg : b.build = .ok g)
    (hfits : g.Addressable) {c : κ} {view offset : Nat}
    (hoffset : g.offsetOf c view = .ok (some offset)) (heap : Heap π) (value : π) :
    Object.create heap g offset c value =
      ((heap.make value).1, .ok { cell := some heap.size, grid := some g, offset }) := by
  have hrow := (Builder.place_of_offsetOf hg hfits hoffset).1
  have hcheck : checkType g offset c = .ok () := by
    rw [checkType, hrow]
    exact if_pos rfl
  rw [create, hcheck]
  rfl

end

end Substrate.Capability
