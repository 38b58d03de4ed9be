import Substrate.Dynamic.Session
import Substrate.Proofs.Dynamic.Boxes
import Substrate.Proofs.Registers

/-!
# Holders of boxed values

What holds in every state that a sequence of operations on named boxes can
reach, where the pointers that a cast gives may be kept as long as wanted.

`Store.Sound s loose` is the invariant.  `loose` are the boxes that are held
by no register: those an operation works with, and the pointers.  Each thing
that an operation does has a lemma that says which boxes become loose or cease
to be (`Sound.clone`, `Sound.make`, `Sound.put`, `Sound.dropBox`).
`Store.Settles` says what an operation comes to as a whole: the invariant
holds again, and the payloads that ended are one more part of the record of
all that have ended.
-/

namespace Substrate.Dynamic

open Ownership (Heap Holder)

variable {τ α : Type}

/-- Whether an operation copies payloads and drops the copies. -/
def Store.Op.copies : Store.Op τ α → Bool
  | .cast _ _ | .tryCast _ _ | .throughDescriptor _ _ => true
  | _ => false

namespace Store

/-- Holding on to a payload frees no cell. -/
theorem count_retain_eq_zero {h : Heap (Value τ α)} {b : Box τ}
    (hlive : ∀ i, b.cell = some i → 0 < h.count i) (i : Nat) :
    (b.retain h).count i = 0 ↔ h.count i = 0 := by
  unfold Box.retain Heap.retain?
  cases hcell : b.cell with
  | none => rfl
  | some j =>
    have := hlive j hcell
    show (h.retain j).count i = 0 ↔ _
    rw [Heap.retain, Heap.count_setCount]
    split
    · rename_i hij
      subst hij
      omega
    · rfl

theorem size_retain (h : Heap (Value τ α)) (b : Box τ) : (b.retain h).size = h.size := by
  unfold Box.retain Heap.retain?
  split <;> rfl

variable [Plain τ α]

/-- The invariant of a session while the boxes `loose` are held outside its registers. -/
structure Sound (s : Store τ α) (loose : List (Box τ)) : Prop where
  /-- Each name has one register. -/
  ordered : s.boxes.Ordered
  /-- The counts are exact for the registers and the loose boxes. -/
  kept : Kept s.heap (s.boxes.values ++ loose)
  /-- The payloads that have ended are those in cells that were made and are not live. -/
  mem_ended : ∀ i, i ∈ s.ended ↔ i < s.heap.size ∧ s.heap.count i = 0
  /-- No payload ends twice. -/
  nodup : s.ended.Nodup

theorem sound_start : ({} : Store τ α).Sound [] := by
  refine ⟨Registers.ordered_empty, Kept.start, fun i => ?_, List.nodup_nil⟩
  show i ∈ [] ↔ i < 0 ∧ _
  simp

section Parts

variable {s : Store τ α} {loose : List (Box τ)}

/-! ## The parts of operations -/

theorem Sound.perm {others : List (Box τ)} (hs : s.Sound loose) (hp : loose.Perm others) :
    s.Sound others :=
  ⟨hs.ordered, hs.kept.perm (hp.append_left _), hs.mem_ended, hs.nodup⟩

/-- The registry does not matter. -/
theorem Sound.register [DecidableEq τ] (hs : s.Sound loose) (t : Kind τ) :
    (s.register t).1.Sound loose :=
  ⟨hs.ordered, hs.kept, hs.mem_ended, hs.nodup⟩

/-- Holding on to a payload that is live. -/
theorem Sound.retain (hs : s.Sound loose) {b : Box τ}
    (hlive : ∀ i, b.cell = some i → 0 < s.heap.count i)
    (hk : Kept (b.retain s.heap) (b :: (s.boxes.values ++ loose))) :
    Sound { s with heap := b.retain s.heap } (b :: loose) := by
  refine ⟨hs.ordered, hk.perm List.perm_middle.symm, fun i => ?_, hs.nodup⟩
  show i ∈ s.ended ↔ i < (b.retain s.heap).size ∧ (b.retain s.heap).count i = 0
  rw [hs.mem_ended, size_retain, count_retain_eq_zero hlive]

/-- A clone of a box in a register. -/
theorem Sound.clone (hs : s.Sound loose) {b : Box τ} (hb : b ∈ s.boxes.values) :
    Sound { s with heap := b.retain s.heap } (b :: loose) :=
  hs.retain (fun _ hi => hs.kept.live (List.mem_append_left _ hb) hi)
    (hs.kept.clone (List.mem_append_left _ hb))

/-- A copy of the payload of a box in a register. -/
theorem Sound.copyContent (hs : s.Sound loose) {b : Box τ}
    (hb : b ∈ s.boxes.values) {i : Nat}
    (hi : b.cell = some i) :
    (s.copyContent (s.heap.payload i)).Sound ((s.heap.payload i).boxed ++ loose) := by
  have hmem : b ∈ s.boxes.values ++ loose := List.mem_append_left _ hb
  cases hv : s.heap.payload i with
  | plain a => exact hs
  | box c =>
    exact hs.retain (fun _ hj => hs.kept.live_inner (hs.kept.live hmem hi) hv hj)
      (hs.kept.inner hmem hi hv)

/-- A loose box goes under a name; the box of the name becomes loose. -/
theorem Sound.put {b : Box τ} (hs : s.Sound (b :: loose)) (name : String) :
    Sound { s with boxes := s.boxes.set name b } ((s.boxes.get? name).toList ++ loose) := by
  refine ⟨hs.ordered.set name b, hs.kept.perm ?_, hs.mem_ended, hs.nodup⟩
  cases hold : s.boxes.get? name with
  | none =>
    exact List.perm_middle.trans
      ((Registers.values_set_perm_of_none b hold).symm.append_right loose)
  | some old =>
    exact (List.perm_middle.trans
      ((Registers.values_set_perm hs.ordered b hold).symm.append_right loose)).trans
        List.perm_middle.symm

/-- The box of a name is taken from it. -/
theorem Sound.take (hs : s.Sound loose) {name : String} {b : Box τ}
    (hb : s.boxes.get? name = some b) :
    Sound { s with boxes := s.boxes.erase name } (b :: loose) := by
  refine ⟨hs.ordered.erase name, hs.kept.perm ?_, hs.mem_ended, hs.nodup⟩
  exact ((Registers.values_erase_perm hs.ordered hb).symm.append_right loose).trans
    List.perm_middle.symm

/-- With no box left all payloads have ended. -/
theorem Sound.all_ended (hs : s.Sound []) (hboxes : s.boxes.values = []) :
    s.heap.live = [] ∧ s.ended.Perm (List.range s.heap.size) := by
  have hk := hs.kept
  rw [hboxes] at hk
  constructor
  · refine List.filter_eq_nil_iff.mpr fun i _ => ?_
    simp [Heap.isLive, hk.all_freed i]
  · refine (List.perm_ext_iff_of_nodup hs.nodup List.nodup_range).mpr fun i => ?_
    rw [hs.mem_ended, List.mem_range]
    exact and_iff_left (hk.all_freed i)

/-- A value made out of what is given, loose. -/
theorem Sound.give {after : Store τ α} (hs : s.Sound loose) {given : Given α} {v : Value τ α}
    (h : s.give given = some (after, v)) :
    after.Sound (v.boxed ++ loose) ∧ after.ended = s.ended ∧ after.heap.size = s.heap.size ∧
      after.boxes = s.boxes := by
  cases given with
  | value w =>
    cases h
    exact ⟨hs, rfl, rfl, rfl⟩
  | boxOf name =>
    obtain ⟨b, hb, hmade⟩ := Option.map_eq_some_iff.mp h
    cases hmade
    exact ⟨hs.clone (Registers.mem_values_of_get? hb), rfl, size_retain s.heap b, rfl⟩

/-- A new box. -/
theorem Sound.make {v : Value τ α} (hs : s.Sound (v.boxed ++ loose)) :
    Sound { s with heap := (Box.make s.heap v).1 } ((Box.make s.heap v).2 :: loose) := by
  have hk : Kept s.heap (v.boxed ++ (s.boxes.values ++ loose)) :=
    hs.kept.perm (by
      rw [← List.append_assoc, ← List.append_assoc]
      exact List.perm_append_comm.append_right loose)
  refine ⟨hs.ordered, (Kept.make hk).perm List.perm_middle.symm, fun i => ?_, hs.nodup⟩
  show i ∈ s.ended ↔ i < s.heap.size + 1 ∧ (s.heap.make v).1.count i = 0
  rw [hs.mem_ended, Heap.count_make]
  split <;> omega

/-- Letting go of a loose box: what ends is what lost its last holder. -/
theorem Sound.dropBox {b : Box τ} (hs : s.Sound (b :: loose)) :
    (s.dropBox b).1.Sound loose := by
  obtain ⟨hk, hr⟩ := (hs.kept.perm List.perm_middle).release
  refine ⟨hs.ordered, hk, fun i => ?_, ?_⟩
  · show i ∈ s.ended ++ (b.release s.heap).2 ↔
      i < (b.release s.heap).1.size ∧ (b.release s.heap).1.count i = 0
    rw [List.mem_append, hs.mem_ended, hr.mem_freed, hr.size_eq]
    have hle := hr.count_le i
    have hlt := hs.kept.balanced.lt_size (i := i)
    omega
  · show (s.ended ++ (b.release s.heap).2).Nodup
    refine List.nodup_append.mpr ⟨hs.nodup, hr.nodup, ?_⟩
    rintro i hi _ hi' rfl
    have := ((hs.mem_ended i).mp hi).2
    have := ((hr.mem_freed i).mp hi').1
    omega

theorem Sound.size_dropBox {b : Box τ} (hs : s.Sound (b :: loose)) :
    (s.dropBox b).1.heap.size = s.heap.size :=
  (hs.kept.perm List.perm_middle).release.2.size_eq

theorem Sound.size_dropContent {v : Value τ α} (hs : s.Sound (v.boxed ++ loose)) :
    (s.dropContent v).1.heap.size = s.heap.size := by
  cases v with
  | plain a => rfl
  | box b => exact hs.size_dropBox

end Parts

/-! ## Operations -/

/-- What going from `s` to `after` came to: the invariant holds again, what ended is
recorded, and all that is new is held.  With `told`, the notes are those of the payloads
that ended; an operation that copies a payload also notes the end of the copy. -/
structure Settles (s : Store τ α) (loose : List (Box τ)) (told : Bool) (after : Store τ α)
    (notes : List Int) : Prop where
  /-- The invariant holds. -/
  sound : after.Sound loose
  /-- What ended, and its notes. -/
  ended : ∃ new, after.ended = s.ended ++ new ∧
    (told = true → notes = new.filterMap fun i => farewell? (after.heap.payload i))
  /-- Cells are never unmade. -/
  size_le : s.heap.size ≤ after.heap.size
  /-- A new cell is live. -/
  fresh : ∀ i, s.heap.size ≤ i → i < after.heap.size → 0 < after.heap.count i

/-- What ended is what was live and is not. -/
theorem Settles.mem_new {s after : Store τ α} {loose others : List (Box τ)} {told : Bool}
    {notes : List Int} (h : Settles s loose told after notes) (hs : s.Sound others) {new : List Nat}
    (hnew : after.ended = s.ended ++ new) (i : Nat) :
    i ∈ new ↔ 0 < s.heap.count i ∧ after.heap.count i = 0 := by
  have hbefore := hs.mem_ended i
  have hafter := h.sound.mem_ended i
  have hnodup := h.sound.nodup
  rw [hnew] at hafter hnodup
  rw [List.mem_append] at hafter
  have hlt := hs.kept.balanced.lt_size (i := i)
  have hle := h.size_le
  constructor
  · intro hi
    have hold : i ∉ s.ended := fun hi' => (List.nodup_append.mp hnodup).2.2 i hi' i hi rfl
    obtain ⟨hmade, hzero⟩ := hafter.mp (.inr hi)
    have hfresh := h.fresh i
    rw [hbefore] at hold
    omega
  · rintro ⟨hpos, hzero⟩
    rcases hafter.mpr ⟨by have := hlt hpos; omega, hzero⟩ with hi | hi
    · have := (hbefore.mp hi).2
      omega
    · exact hi

section Settling

variable {s after : Store τ α} {loose : List (Box τ)} {told : Bool}

/-- Nothing ends and nothing is made. -/
theorem Sound.settles (hs : after.Sound loose) (hended : after.ended = s.ended)
    (hsize : after.heap.size = s.heap.size) : Settles s loose told after [] :=
  ⟨hs, ⟨[], by simp [hended], fun _ => rfl⟩, Nat.le_of_eq hsize.symm, fun i hi hlt => by omega⟩

theorem Sound.keep (hs : s.Sound loose) (r : Reply) :
    Settles s loose told (s.keep r).1 (s.keep r).2.2 :=
  hs.settles rfl rfl

/-- Letting go of a loose box after what is new was put elsewhere. -/
theorem Sound.settles_dropBox {b : Box τ} (hs : after.Sound (b :: loose))
    (hended : after.ended = s.ended) (hsize : s.heap.size ≤ after.heap.size)
    (hnew : ∀ i, s.heap.size ≤ i → i < after.heap.size →
      ∃ c ∈ after.boxes.values ++ loose, c.cell = some i) :
    Settles s loose told (after.dropBox b).1 (after.dropBox b).2 := by
  have hdrop := hs.dropBox
  refine ⟨hdrop, ⟨(b.release after.heap).2, ?_, fun _ => rfl⟩, ?_, ?_⟩
  · exact congrArg (· ++ (b.release after.heap).2) hended
  · rw [hs.size_dropBox]
    exact hsize
  · intro i hi hlt
    rw [hs.size_dropBox] at hlt
    obtain ⟨c, hc, hcell⟩ := hnew i hi hlt
    exact hdrop.kept.live hc hcell

/-- Storing a loose box under a name.  What is new is its payload. -/
theorem Sound.store {b : Box τ} (hs : after.Sound (b :: loose)) (name : String) (r : Reply)
    (hended : after.ended = s.ended) (hsize : s.heap.size ≤ after.heap.size)
    (hnew : ∀ i, s.heap.size ≤ i → i < after.heap.size → b.cell = some i) :
    Settles s loose told (after.store name b r).1 (after.store name b r).2.2 := by
  have hput := hs.put name
  have hmem : b ∈ (after.boxes.set name b).values :=
    Registers.mem_values_of_get? (by rw [Registers.get?_set, if_pos rfl])
  unfold Store.store
  cases hold : after.boxes.get? name with
  | none =>
    rw [hold] at hput
    refine ⟨hput, ⟨[], by simp [Store.keep, hended], fun _ => rfl⟩, hsize, fun i hi hlt => ?_⟩
    exact hput.kept.live (List.mem_append_left _ hmem) (hnew i hi hlt)
  | some old =>
    rw [hold] at hput
    exact hput.settles_dropBox hended hsize fun i hi hlt =>
      ⟨b, List.mem_append_left _ hmem, hnew i hi hlt⟩

/-- Letting go of a value that an operation made for itself, whatever it notes. -/
theorem Sound.settles_dropContent {v : Value τ α} (hs : after.Sound (v.boxed ++ loose))
    (hended : ∃ new, after.ended = s.ended ++ new) (hsize : after.heap.size = s.heap.size)
    (notes : List Int) : Settles s loose false (after.dropContent v).1 notes := by
  obtain ⟨new, hnew⟩ := hended
  have hle : s.heap.size ≤ (after.dropContent v).1.heap.size :=
    Nat.le_of_eq (hs.size_dropContent.trans hsize).symm
  have hfresh : ∀ i, s.heap.size ≤ i → i < (after.dropContent v).1.heap.size →
      0 < (after.dropContent v).1.heap.count i := by
    intro i hi hlt
    rw [hs.size_dropContent] at hlt
    omega
  cases v with
  | plain a => exact ⟨hs, ⟨new, hnew, by simp⟩, hle, hfresh⟩
  | box b =>
    refine ⟨hs.dropBox, ⟨new ++ (b.release after.heap).2, ?_, by simp⟩, hle, hfresh⟩
    show after.ended ++ (b.release after.heap).2 = _
    rw [hnew, List.append_assoc]

theorem Sound.on (hs : s.Sound loose) (name : String) {act : Box τ → Outcome τ α}
    (hact : ∀ b, s.boxes.get? name = some b → Settles s loose told (act b).1 (act b).2.2) :
    Settles s loose told (s.on name act).1 (s.on name act).2.2 := by
  unfold Store.on
  split
  · rename_i b hb
    exact hact b hb
  · exact hs.keep _

/-- Copying a payload and dropping the copy. -/
theorem Sound.copyText (hs : s.Sound loose) {name : String} {b : Box τ}
    (hb : s.boxes.get? name = some b) {i : Nat} (hi : b.cell = some i) :
    Settles s loose false (s.copyText i).1 (s.copyText i).2.2 := by
  refine (hs.copyContent (Registers.mem_values_of_get? hb) hi).settles_dropContent ⟨[], ?_⟩ ?_ _
  · cases s.heap.payload i <;> simp [Store.copyContent]
  · cases s.heap.payload i with
    | plain a => rfl
    | box c => exact size_retain s.heap c

end Settling

theorem Sound.dropAll {s : Store τ α} {loose : List (Box τ)} (bs : List (Box τ))
    (hs : s.Sound (bs ++ loose)) :
    (s.dropAll bs).1.Sound loose ∧ (s.dropAll bs).1.heap.size = s.heap.size ∧
      (s.dropAll bs).1.boxes = s.boxes := by
  induction bs generalizing s with
  | nil => exact ⟨hs, rfl, rfl⟩
  | cons b rest ih =>
    obtain ⟨hlast, hsize, hboxes⟩ := ih hs.dropBox
    exact ⟨hlast, hsize.trans hs.size_dropBox, hboxes⟩

/-- Letting go of all boxes leaves the loose ones. -/
theorem Sound.close {s : Store τ α} {loose : List (Box τ)} (hs : s.Sound loose) :
    s.close.1.Sound loose ∧ s.close.1.heap.size = s.heap.size ∧ s.close.1.boxes.values = [] := by
  have hbare : Sound { s with boxes := .empty } (s.boxes.values ++ loose) :=
    ⟨Registers.ordered_empty, hs.kept, hs.mem_ended, hs.nodup⟩
  obtain ⟨hlast, hsize, hboxes⟩ := hbare.dropAll
  exact ⟨hlast, hsize, congrArg Registers.values hboxes⟩

variable [DecidableEq τ]

theorem cell_of_cast {b : Box τ} {t : Kind τ} {i : Nat}
    (h : b.cast α t = .ok i) : b.cell = some i := by
  unfold Box.cast at h
  split at h
  · split at h
    · cases h
      assumption
    · cases h
  · cases h

theorem Sound.apply {s : Store τ α} {loose : List (Box τ)} (hs : s.Sound loose) (op : Op τ α) :
    Settles s loose (!op.copies) (s.apply op).1 (s.apply op).2.2 := by
  cases op with
  | new name given =>
    rw [Store.apply]
    split
    · exact hs.keep _
    · rename_i made v hgive
      obtain ⟨hmade, hended, hsize, -⟩ := hs.give hgive
      have hle : s.heap.size ≤ made.heap.size + 1 := by omega
      refine Sound.store (hmade.register v.kind).make name _ hended hle fun i hi hlt => ?_
      have hlt : i < made.heap.size + 1 := hlt
      have hi : i = made.heap.size := by omega
      rw [hi]
      rfl
  | empty name =>
    have hempty : s.Sound (.empty :: loose) :=
      ⟨hs.ordered, hs.kept.addEmpty.perm List.perm_middle.symm, hs.mem_ended, hs.nodup⟩
    exact hempty.store name _ rfl (Nat.le_refl _) fun i hi hlt => by omega
  | clone name source =>
    refine hs.on source fun b hb => ?_
    have hsize : (b.retain s.heap).size = s.heap.size := size_retain s.heap b
    have hcloned := hs.clone (Registers.mem_values_of_get? hb)
    refine hcloned.store name _ rfl (Nat.le_of_eq hsize.symm) fun i hi hlt => ?_
    have hlt : i < (b.retain s.heap).size := hlt
    omega
  | drop name =>
    rw [Store.apply]
    split
    · exact hs.keep _
    · rename_i b hb
      exact (hs.take hb).settles_dropBox rfl (Nat.le_refl _) fun i hi hlt => by
        have hlt : i < s.heap.size := hlt
        omega
  | castPointer name t =>
    refine hs.on name fun b hb => ?_
    split
    · exact hs.keep _
    · have hsize : (b.retain s.heap).size = s.heap.size := size_retain s.heap b
      have hcloned := hs.clone (Registers.mem_values_of_get? hb)
      refine hcloned.settles_dropBox rfl (Nat.le_of_eq hsize.symm) fun i hi hlt => ?_
      have hlt : i < (b.retain s.heap).size := hlt
      omega
  | cast name t =>
    refine hs.on name fun b hb => ?_
    split
    · exact hs.keep _
    · rename_i i hcast
      exact hs.copyText hb (cell_of_cast hcast)
  | tryCast name t =>
    refine hs.on name fun b hb => ?_
    split
    · exact hs.keep _
    · rename_i i hcast
      exact hs.copyText hb (cell_of_cast hcast)
  | throughDescriptor first second =>
    rw [Store.apply]
    split
    · exact hs.keep _
    · rename_i one x hx
      split
      · exact hs.keep _
      · rename_i two y hy
        obtain ⟨hone, hended, hsize, -⟩ := hs.give hx
        obtain ⟨htwo, hended', hsize', -⟩ := hone.give hy
        have hafter := htwo.settles_dropContent (s := s) ⟨[], by simp [hended, hended']⟩
          (hsize'.trans hsize) []
        obtain ⟨new, hnew, -⟩ := hafter.ended
        have hsize'' := htwo.size_dropContent.trans (hsize'.trans hsize)
        exact hafter.sound.settles_dropContent ⟨new, hnew⟩ hsize'' _
  | describe t => exact ((hs.register t).register t).settles rfl rfl
  | distinct names =>
    rw [Store.apply]
    split <;> exact hs.keep _
  | equal a b => exact hs.on a fun x _ => hs.on b fun y _ => hs.keep _
  | samePayload a b => exact hs.on a fun x _ => hs.on b fun y _ => hs.keep _
  | isOf name t => exact hs.on name fun b _ => hs.keep _
  | describedAs name t =>
    refine hs.on name fun b _ => ?_
    split <;> exact hs.keep _
  | text name => exact hs.on name fun b _ => hs.keep _
  | debug name => exact hs.on name fun b _ => hs.keep _
  | hash name => exact hs.on name fun b _ => hs.keep _
  | info name => exact hs.on name fun b _ => hs.keep _

end Store

/-! ## Runs -/

/-- A session, and the pointers that were obtained from its boxes and kept, by name. -/
structure Holdings (τ α : Type) where
  /-- The session. -/
  session : Store τ α := {}
  /-- The pointers: each has the cell of a payload and its type. -/
  pointers : Registers (Box τ) := .empty

/-- What is done to a session and the pointers. -/
inductive Deed (τ α : Type) where
  /-- An operation of the session. -/
  | op (op : Store.Op τ α)
  /-- Obtain a pointer to the payload of a box, which has to have a type, and keep it under a
  name in place of the one kept there. -/
  | point (pointer name : String) (t : Kind τ)
  /-- Let go of a pointer. -/
  | letGo (pointer : String)
  deriving DecidableEq, Repr

/-- Whether a deed copies payloads and drops the copies. -/
def Deed.copies : Deed τ α → Bool
  | .op o => o.copies
  | _ => false

namespace Holdings

/-- How many holders the payload in cell `i` has: boxes in registers, pointers, and boxes that
are payloads and have not ended. -/
def holders (s : Holdings τ α) (i : Nat) : Nat :=
  s.session.boxes.values.countP (fun b => b.cell == some i) +
    s.pointers.values.countP (fun b => b.cell == some i) +
    ((List.range s.session.heap.size).filter (· ∉ s.session.ended)).countP fun j =>
      Holder.held (s.session.heap.payload j) == some i

variable [Plain τ α]

/-- The invariant of a run. -/
structure Sound (s : Holdings τ α) : Prop where
  /-- Each name has one pointer. -/
  ordered : s.pointers.Ordered
  /-- The invariant of the session, with the pointers as loose boxes. -/
  session : s.session.Sound s.pointers.values

/-- The count of a cell is the number of its holders: the live cells are those whose payloads
have not ended. -/
theorem Sound.count_eq {s : Holdings τ α} (hs : s.Sound) (i : Nat) :
    s.session.heap.count i = s.holders i := by
  have hcells : ∀ bs : List (Box τ),
      (bs.filterMap Box.cell).count i = bs.countP fun b => b.cell == some i :=
    fun bs => List.count_filterMap
  rw [hs.session.kept.balanced.counts i, List.filterMap_append, List.count_append, hcells, hcells,
    Heap.heldBy_eq_countP hs.session.mem_ended, holders]

/-- What a deed came to. -/
structure Settles (s : Holdings τ α) (told : Bool) (out : Holdings τ α × List Int) : Prop where
  /-- Each name has one pointer. -/
  ordered : out.1.pointers.Ordered
  /-- What it came to for the session. -/
  session : s.session.Settles out.1.pointers.values told out.1.session out.2

theorem Sound.keep {s : Holdings τ α} (hs : s.Sound) (told : Bool) : Settles s told (s, []) :=
  ⟨hs.ordered, hs.session.settles rfl rfl⟩

variable [DecidableEq τ]

/-- Do something: the holdings after it, and the notes of the values that ended. -/
def apply (s : Holdings τ α) : Deed τ α → Holdings τ α × List Int
  | .op op => ({ s with session := (s.session.apply op).1 }, (s.session.apply op).2.2)
  | .point pointer name t =>
    match s.session.boxes.get? name with
    | none => (s, [])
    | some b =>
      match b.cast α t with
      | .error _ => (s, [])
      | .ok _ =>
        let held := { s.session with heap := b.retain s.session.heap }
        match s.pointers.get? pointer with
        | none => ({ session := held, pointers := s.pointers.set pointer b }, [])
        | some old =>
          let (after, notes) := held.dropBox old
          ({ session := after, pointers := s.pointers.set pointer b }, notes)
  | .letGo pointer =>
    match s.pointers.get? pointer with
    | none => (s, [])
    | some b =>
      let (after, notes) := s.session.dropBox b
      ({ session := after, pointers := s.pointers.erase pointer }, notes)

/-- A run from a session without boxes, payloads and pointers. -/
def run (deeds : List (Deed τ α)) : Holdings τ α := deeds.foldl (fun s deed => (s.apply deed).1) {}

theorem Sound.apply {s : Holdings τ α} (hs : s.Sound) (deed : Deed τ α) :
    Settles s (!deed.copies) (s.apply deed) := by
  cases deed with
  | op op => exact ⟨hs.ordered, hs.session.apply op⟩
  | point pointer name t =>
    rw [Holdings.apply]
    split
    · exact hs.keep _
    · rename_i b hb
      split
      · exact hs.keep _
      · have hheld := hs.session.clone (Registers.mem_values_of_get? hb)
        have hsize : (b.retain s.session.heap).size = s.session.heap.size := Store.size_retain _ b
        have hordered := hs.ordered.set pointer b
        split
        · rename_i hnone
          have hperm := Registers.values_set_perm_of_none b hnone
          exact ⟨hordered, (hheld.perm hperm.symm).settles rfl hsize⟩
        · rename_i old hold
          have hperm := Registers.values_set_perm hs.ordered b hold
          refine ⟨hordered, (hheld.perm hperm.symm).settles_dropBox rfl
            (Nat.le_of_eq hsize.symm) fun i hi hlt => ?_⟩
          have hlt : i < (b.retain s.session.heap).size := hlt
          omega
  | letGo pointer =>
    rw [Holdings.apply]
    split
    · exact hs.keep _
    · rename_i b hb
      have hperm := Registers.values_erase_perm hs.ordered hb
      refine ⟨hs.ordered.erase pointer, (hs.session.perm hperm.symm).settles_dropBox rfl
        (Nat.le_refl _) fun i hi hlt => ?_⟩
      omega

theorem sound_run (deeds : List (Deed τ α)) : (run deeds).Sound := by
  suffices ∀ (deeds : List (Deed τ α)) (s : Holdings τ α), s.Sound →
      (deeds.foldl (fun s deed => (s.apply deed).1) s).Sound from
    this deeds {} ⟨Registers.ordered_empty, Store.sound_start⟩
  intro deeds
  induction deeds with
  | nil => exact fun s hs => hs
  | cons deed rest ih =>
    intro s hs
    obtain ⟨hordered, hsession⟩ := hs.apply deed
    exact ih _ ⟨hordered, hsession.sound⟩

/-- A cast to a pointer that is not kept is one that is kept and let go of. -/
theorem letGo_point {s : Holdings τ α} {pointer : String} (h : s.pointers.get? pointer = none)
    (name : String) (t : Kind τ) :
    ((s.apply (.point pointer name t)).1.apply (.letGo pointer)).1.session =
      (s.apply (.op (.castPointer name t))).1.session := by
  simp only [Holdings.apply, Store.apply, Store.on]
  cases s.session.boxes.get? name with
  | none => simp [h, Store.keep]
  | some b =>
    cases hcast : b.cast α t with
    | error e => simp [h, hcast, Store.keep]
    | ok i => simp [h, hcast, Registers.get?_set]

/-- Between any two deeds of any run, the count of a payload that has not ended is the number
of its holders, at least 1, and that is what a box or a pointer reports.  A deed ends exactly
the payloads whose last holder it takes, in the record and in the notes, and no payload ends
twice.  With no box and no pointer left every payload has ended.  A cast to a pointer that
is not kept holds the payload until the operation is over. -/
theorem payloads_end_with_last_holder (deeds : List (Deed τ α)) (deed : Deed τ α) :
    let s := run deeds
    let after := (s.apply deed).1
    let notes := (s.apply deed).2
    (∀ i, i < s.session.heap.size → i ∉ s.session.ended →
      s.session.heap.count i = s.holders i ∧ 1 ≤ s.holders i) ∧
    (∀ b ∈ s.session.boxes.values ++ s.pointers.values,
      b.strongCount s.session.heap = b.cell.elim 0 s.holders) ∧
    (∃ new, after.session.ended = s.session.ended ++ new ∧ after.session.ended.Nodup ∧
      (∀ i, i ∈ new ↔ 0 < s.holders i ∧ after.holders i = 0) ∧
      (deed.copies = false →
        notes = new.filterMap fun i => Store.farewell? (after.session.heap.payload i))) ∧
    (s.pointers.values = [] → s.session.boxes.values = [] →
      s.session.heap.live = [] ∧ s.session.ended.Perm (List.range s.session.heap.size)) ∧
    (s.pointers.values = [] →
      s.session.close.1.heap.live = [] ∧
      s.session.close.1.ended.Perm (List.range s.session.heap.size)) ∧
    (∀ pointer name t, s.pointers.get? pointer = none →
      ((s.apply (.point pointer name t)).1.apply (.letGo pointer)).1.session =
        (s.apply (.op (.castPointer name t))).1.session) := by
  intro s after notes
  have hs : s.Sound := sound_run deeds
  have hstep := hs.apply deed
  have hafter : after.Sound := ⟨hstep.ordered, hstep.session.sound⟩
  refine ⟨?_, ?_, ?_, ?_, ?_, fun _ name t h => letGo_point h name t⟩
  · intro i hlt hi
    have hcount := hs.count_eq i
    refine ⟨hcount, ?_⟩
    rw [hs.session.mem_ended] at hi
    omega
  · intro b _
    unfold Box.strongCount
    cases b.cell with
    | none => rfl
    | some i => exact hs.count_eq i
  · obtain ⟨new, hnew, hnotes⟩ := hstep.session.ended
    refine ⟨new, hnew, hafter.session.nodup, fun i => ?_, fun hcopies => hnotes (by simp [hcopies])⟩
    rw [← hs.count_eq, ← hafter.count_eq]
    exact hstep.session.mem_new hs.session hnew i
  · intro hpointers hboxes
    have hsession := hs.session
    rw [hpointers] at hsession
    exact hsession.all_ended hboxes
  · intro hpointers
    have hsession := hs.session
    rw [hpointers] at hsession
    obtain ⟨hclosed, hsize, hboxes⟩ := hsession.close
    rw [← hsize]
    exact hclosed.all_ended hboxes

end Holdings

end Substrate.Dynamic
