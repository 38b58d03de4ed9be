import Substrate.Proofs.Coro.Accounts

/-!
# Owners

A frame that is alive has at most one owner: the handle that is on it or, once that was dropped in
flight, the worker that it completes on.  A frame that was destroyed has none.  So no frame is
destroyed twice, and a worker counts no more frames as destroyed than it has polled and buried.

* `Desk.Owned` says this of a desk, and `Disposes d d'` that what happens between two desks keeps it
  and counts every destroyed frame once at most.
* `Disposes.letGo` and `Disposes.spend` are about frames that end through a handle,
  `Disposes.newTask` is about frames that are made, and `Disposes.retire` about a frame that its
  worker disposes of.
* `Disposes.ledger`: whatever happens in a session keeps to the owners of frames.
-/

namespace Substrate.Coro

/-! ## Counting frames -/

private theorem countP_range_update {p q : Nat → Bool} {i n : Nat} (hi : i < n)
    (heq : ∀ j, j ≠ i → p j = q j) :
    (List.range n).countP p + (q i).toNat = (List.range n).countP q + (p i).toNat := by
  have hpart : ∀ n, (i < n → (List.range n).countP p + (q i).toNat =
      (List.range n).countP q + (p i).toNat) ∧
      (n ≤ i → (List.range n).countP p = (List.range n).countP q) := by
    intro n
    induction n with
    | zero => exact ⟨fun h => absurd h (Nat.not_lt_zero i), fun _ => rfl⟩
    | succ n ih =>
      simp only [List.range_succ, List.countP_append, List.countP_cons, List.countP_nil]
      refine ⟨fun h => ?_, fun h => ?_⟩
      · rcases Nat.lt_or_ge i n with hlt | hge
        · have := ih.1 hlt
          rw [heq n (Nat.ne_of_gt hlt)]
          omega
        · have := ih.2 hge
          obtain rfl : i = n := by omega
          cases p i <;> cases q i <;> simp <;> omega
      · have := ih.2 (by omega)
        rw [heq n (by omega)]
        omega
  exact (hpart n).1 hi

namespace World

variable {w w' : World}

/-- How many of the frames that were made have a property. -/
def having (w : World) (q : Frame → Bool) : Nat :=
  (List.range w.frameCount).countP fun f => q (w.frame f)

theorem having_le {q q' : Frame → Bool} (h : ∀ fr, q fr = true → q' fr = true) (w : World) :
    w.having q ≤ w.having q' :=
  List.countP_mono_left fun f _ => h (w.frame f)

/-- The record of one frame changes. -/
theorem having_update {q : Frame → Bool} {f : FrameId} (hf : f < w.frameCount)
    (hcount : w'.frameCount = w.frameCount) (hother : ∀ g, g ≠ f → q (w'.frame g) = q (w.frame g)) :
    w'.having q + (q (w.frame f)).toNat = w.having q + (q (w'.frame f)).toNat := by
  unfold having
  rw [hcount]
  exact countP_range_update hf hother

/-- Frames are made that do not have the property. -/
theorem having_grown {q : Frame → Bool} (hcount : w.frameCount ≤ w'.frameCount)
    (hmade : ∀ f, f < w.frameCount → q (w'.frame f) = q (w.frame f))
    (hfresh : ∀ f, w.frameCount ≤ f → f < w'.frameCount → q (w'.frame f) = false) :
    w'.having q = w.having q := by
  obtain ⟨n, hn⟩ := Nat.exists_eq_add_of_le hcount
  have hnone : ((List.range n).map (w.frameCount + ·)).countP (fun f => q (w'.frame f)) = 0 := by
    refine List.countP_eq_zero.mpr fun f hf => ?_
    obtain ⟨i, hi, rfl⟩ := List.mem_map.mp hf
    rw [hfresh _ (Nat.le_add_right _ _) (by have := List.mem_range.mp hi; omega)]
    exact Bool.false_ne_true
  unfold having
  rw [hn, List.range_add, List.countP_append, hnone, Nat.add_zero]
  refine List.countP_congr fun f hf => ?_
  rw [hmade f (List.mem_range.mp hf)]

/-- How many of the frames that worker `k` polled last were destroyed. -/
def buried (w : World) (k : WorkerId) : Nat :=
  w.having fun fr => !fr.alive && fr.runner == some k

theorem buried_congr (hcount : w'.frameCount = w.frameCount)
    (halive : ∀ f, (w'.frame f).alive = (w.frame f).alive)
    (hrunner : ∀ f, (w.frame f).alive = false → (w'.frame f).runner = (w.frame f).runner)
    (k : WorkerId) : w'.buried k = w.buried k := by
  refine having_grown (Nat.le_of_eq hcount.symm) (fun f _ => ?_)
    fun f hf hf' => absurd hf (Nat.not_le_of_lt (hcount ▸ hf'))
  rw [halive]
  cases hf : (w.frame f).alive with
  | true => rfl
  | false => rw [hrunner f hf]

/-- Every frame that a worker has counted as destroyed is one that it has buried. -/
def Settles (w w' : World) : Prop :=
  ∀ k, (w'.worker k).stats.destroyed + w.buried k ≤ (w.worker k).stats.destroyed + w'.buried k

theorem Settles.refl (w : World) : w.Settles w := fun _ => Nat.le_refl _

theorem Settles.trans {w'' : World} (h : w.Settles w') (h' : w'.Settles w'') : w.Settles w'' := by
  intro k
  have := h k
  have := h' k
  omega

theorem destroyed_noteDestroyed (w : World) (p : Place) (runner : Option WorkerId) (k : WorkerId) :
    ((w.noteDestroyed p runner).worker k).stats.destroyed ≤
      (w.worker k).stats.destroyed + if runner = some k then 1 else 0 := by
  unfold World.noteDestroyed
  split
  · exact Nat.le_add_right _ _
  · rename_i j _
    split
    · rename_i hrunner
      rw [World.count, World.worker_modifyWorker]
      split
      · rename_i hk
        have hsame : runner = some k := hrunner.trans (congrArg some hk.symm)
        exact Nat.le_of_eq (congrArg ((w.worker k).stats.destroyed + ·) (if_pos hsame).symm)
      · exact Nat.le_add_right _ _
    · exact Nat.le_add_right _ _

/-- A worker has buried one frame more than it has counted, and may count it. -/
theorem Settles.counted {w'' : World} {runner : Option WorkerId}
    (h : ∀ k, (w'.worker k).stats.destroyed + w.buried k + (if runner = some k then 1 else 0) ≤
      (w.worker k).stats.destroyed + w'.buried k) (hagrees : w'.Agrees w'')
    (hcounted : ∀ k, (w''.worker k).stats.destroyed ≤
      (w'.worker k).stats.destroyed + if runner = some k then 1 else 0) : w.Settles w'' := by
  intro k
  have hburied := buried_congr hagrees.frameCount (fun g => by rw [hagrees.frame])
    (fun g _ => by rw [hagrees.frame]) k
  have := h k
  have := hcounted k
  omega

/-- A frame that was alive is buried. -/
theorem buried_endFrame (w : World) (p : Place) {f : FrameId} (hf : f < w.frameCount)
    (halive : (w.frame f).alive = true) (ending : Ending) (k : WorkerId) :
    (w.endFrame p f ending).1.buried k =
      w.buried k + if (w.frame f).runner = some k then 1 else 0 := by
  have hcount := (Layout.endFrame_agrees w p f ending).frameCount
  have hupdate := having_update (q := fun fr => !fr.alive && fr.runner == some k) hf hcount
    fun g hg => by rw [frame_endFrame, if_neg hg]
  rw [frame_endFrame, if_pos rfl] at hupdate
  simp only [halive, Layout.gone, Bool.not_true, Bool.false_and, Bool.not_false, Bool.true_and,
    Bool.toNat_false, Nat.add_zero] at hupdate
  rw [buried, buried, hupdate]
  by_cases hk : (w.frame f).runner = some k
  · simp [hk]
  · simp [hk]

theorem destroyed_endFrame (w : World) (p : Place) (f : FrameId) (ending : Ending) (k : WorkerId) :
    ((w.endFrame p f ending).1.worker k).stats.destroyed = (w.worker k).stats.destroyed := by
  have hworkers : (w.endFrame p f ending).1.workers = w.workers := by
    unfold World.endFrame
    simp only
    split
    · rename_i o _
      obtain ⟨log, heq⟩ := Layout.dropOutput_eq w p o
      rw [heq]
      rfl
    · rfl
  rw [World.worker, World.worker, hworkers]

end World

/-! ## Owners -/

namespace Desk

/-- How many owners a frame has: the handles on it, and the worker that is to dispose of it. -/
def owners (d : Desk) (c : FrameId) : Nat :=
  handlesOn d.handles c + (d.world.frame c).orphaned.toNat

/-- A frame that is alive has one owner at most, and one that was destroyed has none.  The frame
that is `spent`, if any, was destroyed, and the handle through which that was done is still there.
-/
structure Owned (d : Desk) (spent : Option FrameId) : Prop where
  bounded : ∀ c, some c ≠ spent → d.owners c ≤ (d.world.frame c).alive.toNat
  spent : ∀ c, spent = some c → (d.world.frame c).alive = false ∧
    (d.world.frame c).stage = .complete ∧ (d.world.frame c).orphaned = false

/-- There are fewer handles, and no frame changes. -/
theorem Owned.of_frames {d d' : Desk} {spent : Option FrameId} (h : d.Owned spent)
    (hframe : ∀ c, d'.world.frame c = d.world.frame c)
    (hhandles : ∀ c, handlesOn d'.handles c ≤ handlesOn d.handles c) : d'.Owned spent := by
  refine ⟨fun c hc => ?_, fun c hc => ?_⟩
  · have := h.bounded c hc
    have := hhandles c
    unfold Desk.owners at *
    rw [hframe]
    omega
  · rw [hframe]
    exact h.spent c hc

/-- A frame with an owner is alive, and has no other owner. -/
theorem Owned.alive {d : Desk} (h : d.Owned none) {c : FrameId} (hpos : 0 < d.owners c) :
    (d.world.frame c).alive = true ∧ d.owners c = 1 := by
  have hbound := h.bounded c nofun
  cases halive : (d.world.frame c).alive with
  | false =>
    rw [halive, Bool.toNat_false] at hbound
    omega
  | true =>
    rw [halive, Bool.toNat_true] at hbound
    exact ⟨rfl, Nat.le_antisymm hbound hpos⟩

theorem Owned.sole {d : Desk} (h : d.Owned none) {t : Task} (ht : t ∈ d.handles) {c : FrameId}
    (hc : t.frame = some c) : (d.world.frame c).alive = true ∧ (d.world.frame c).orphaned = false ∧
      handlesOn d.handles c = 1 := by
  have hpos := handlesOn_pos ht hc
  obtain ⟨halive, hone⟩ := h.alive (c := c) (Nat.lt_of_lt_of_le hpos (Nat.le_add_right _ _))
  rw [Desk.owners] at hone
  refine ⟨halive, ?_, by omega⟩
  cases horphaned : (d.world.frame c).orphaned with
  | false => rfl
  | true =>
    rw [horphaned, Bool.toNat_true] at hone
    omega

end Desk

theorem World.Calm.settles {w w' : World} (h : w.Calm w') : w.Settles w' := by
  intro k
  have := buried_congr h.frameCount h.alive h.runner k
  have := h.destroyed k
  omega

/-! ## Handles -/

/-- No edit makes another handle on a frame that was made. -/
theorem Edit.handlesOn_le {strict : Prop} {d d' : Desk} (h : Edit strict d d') (hneat : d.Neat) :
    d.world.frameCount ≤ d'.world.frameCount ∧
      ∀ c, c < d.world.frameCount → handlesOn d'.handles c ≤ handlesOn d.handles c := by
  -- most edits leave all handles where they are
  have hsame : ∀ {w : World} {polled asked done popped}, w.frameCount = d.world.frameCount →
      w.tasks = d.world.tasks → (∀ g, (w.frame g).tasks = (d.world.frame g).tasks ∧
        (w.frame g).wait = (d.world.frame g).wait) →
      d.world.frameCount ≤ w.frameCount ∧ ∀ c, c < d.world.frameCount →
        handlesOn (⟨w, d.hand, polled, asked, done, popped⟩ : Desk).handles c ≤
        handlesOn d.handles c := by
    intro w polled asked done popped hcount htasks hframe
    refine ⟨Nat.le_of_eq hcount.symm, fun c _ => Nat.le_of_eq ?_⟩
    rw [Desk.handles, Desk.handles, World.held_congr htasks hcount hframe]
  have hended : ∀ {p : Place} {f : FrameId} {ending : Ending} {hand : List Task},
      f < d.world.frameCount → (∀ c, handlesOn hand c ≤ handlesOn d.hand c) →
      d.world.frameCount ≤ (d.world.endFrame p f ending).1.frameCount ∧ ∀ c,
      c < d.world.frameCount →
        handlesOn ({ d with
          world := (d.world.endFrame p f ending).1
          hand := (d.world.frame f).heldTasks ++ hand } : Desk).handles c ≤
          handlesOn d.handles c := by
    intro p f ending hand hmade hhand
    have hcount := (Layout.endFrame_agrees d.world p f ending).frameCount
    refine ⟨Nat.le_of_eq hcount.symm, fun c _ => ?_⟩
    have hheld := d.world.count_held_endFrame p hmade ending
    have := hheld ⟨some c, false⟩
    have := hheld ⟨some c, true⟩
    have := hhand c
    simp only [Desk.handles, handlesOn, List.count_append] at *
    omega
  cases h with
  | move halike hw hfewer => exact ⟨Nat.le_of_eq halike.frameCount.symm, fun c _ => (hfewer c).2⟩
  | recruit hook => exact hsame rfl rfl fun _ => ⟨rfl, rfl⟩
  | make body arg =>
    refine ⟨Nat.le_succ _, fun c hc => Nat.le_of_eq ?_⟩
    simp only [Desk.handles, World.held_newFrame, handlesOn_append, handlesOn_cons]
    rw [if_neg fun e => Nat.ne_of_gt hc (Option.some.inj e)]
    rfl
  | spawn k body arg =>
    refine ⟨?_, fun c _ => Nat.le_of_eq ?_⟩
    · rw [World.enqueue_frameCount]
      exact Nat.le_succ _
    · rw [Desk.handles, World.held_enqueue, World.held_newFrame]
      rfl
  | start k halike hw hfewer hstarted hstage =>
    refine ⟨Nat.le_of_eq ?_, fun c _ => ?_⟩
    · exact ((World.enqueue_frameCount _ _ _).trans halike.frameCount).symm
    · rw [Desk.handles, World.held_enqueue]
      exact (hfewer c).2
  | @ask c b hmade hstage =>
    refine hsame rfl rfl fun g => ?_
    obtain ⟨continuation, e⟩ := d.world.frame_subscribe c b g
    rw [e]
    exact ⟨rfl, rfl⟩
  | detach hstage =>
    refine hsame rfl rfl fun g => ?_
    rw [World.frame_modifyFrame]
    split <;> exact ⟨rfl, rfl⟩
  | discard p ending halive hhand =>
    refine hended (hneat.born _ halive).1 fun c => ?_
    rw [hhand, handlesOn_cons]
    exact Nat.le_add_right _ _
  | destroy p ending hmade hstage => exact hended hmade fun c => Nat.le_refl _
  | @resume k f w t hnext hmade halive hstage =>
    have hpopped := World.nextFrame_same hnext
    refine hsame ?_ ?_ fun g => ?_
    · rw [hpopped]
      rfl
    · rw [hpopped]
      rfl
    · rw [World.frame_beginPoll, hpopped]
      split <;> exact ⟨rfl, rfl⟩
  | skip hnext =>
    rw [World.nextFrame_same hnext]
    exact hsame rfl rfl fun _ => ⟨rfl, rfl⟩
  | @rest f polled k outer hpolled =>
    exact hsame rfl rfl fun g => ⟨(Edit.holds_released d.world k f outer g).1,
      (Edit.holds_released d.world k f outer g).2.1⟩
  | @yield f polled k outer hpolled =>
    exact hsame rfl rfl fun g => ⟨(Edit.holds_released d.world k f outer g).1,
      (Edit.holds_released d.world k f outer g).2.1⟩
  | @park f polled slot k outer hpolled hvacant =>
    exact hsame rfl rfl fun g => ⟨(Edit.holds_released d.world k f outer g).1,
      (Edit.holds_released d.world k f outer g).2.1⟩
  | @complete f polled k outer output hpolled =>
    refine hsame rfl rfl fun g => ?_
    rw [frame_completed]
    split <;> exact ⟨rfl, rfl⟩
  | @wake c b k hstage hcontinuation hstrict =>
    refine hsame (World.enqueue_frameCount _ _ _) (Layout.enqueue_same _ _ _).2 fun g => ?_
    rw [World.frame_enqueue, World.frame_modifyFrame]
    split <;> exact ⟨rfl, rfl⟩
  | vacate slot => exact hsame rfl rfl fun _ => ⟨rfl, rfl⟩
  | unpark k hslot =>
    refine hsame (World.enqueue_frameCount _ _ _) (Layout.enqueue_same _ _ _).2 fun g => ?_
    rw [World.frame_enqueue]
    exact ⟨rfl, rfl⟩
  | schedule k hstage hstrict =>
    refine hsame (World.enqueue_frameCount _ _ _) (Layout.enqueue_same _ _ _).2 fun g => ?_
    rw [World.frame_enqueue]
    exact ⟨rfl, rfl⟩

/-- As long as no frame is made, there are never more handles on any. -/
theorem Edits.handlesOn_le {strict : Prop} {d d' : Desk} (h : Edits strict d d') (hneat : d.Neat)
    (hcount : d'.world.frameCount = d.world.frameCount) (c : FrameId) :
    handlesOn d'.handles c ≤ handlesOn d.handles c := by
  obtain ⟨hneat', -, hle⟩ := h.induct (P := fun d' => d.world.frameCount ≤ d'.world.frameCount ∧
    ∀ c, c < d.world.frameCount → handlesOn d'.handles c ≤ handlesOn d.handles c)
    (fun hedit hneat h => ⟨Nat.le_trans h.1 (hedit.handlesOn_le hneat).1, fun c hc =>
      Nat.le_trans ((hedit.handlesOn_le hneat).2 c (Nat.lt_of_lt_of_le hc h.1)) (h.2 c hc)⟩)
    hneat ⟨Nat.le_refl _, fun _ _ => Nat.le_refl _⟩
  rcases Nat.lt_or_ge c d.world.frameCount with hc | hc
  · exact hle c hc
  · have hnone : handlesOn d'.handles c = 0 :=
      handlesOn_eq_zero fun t ht e => Nat.not_lt_of_le hc (hcount ▸ hneat'.made t ht c e)
    rw [hnone]
    exact Nat.zero_le _

/-! ## What keeps to the owners -/

/-- What happens between two desks gives no frame a second owner, and every frame that a worker
counts as destroyed was alive before. -/
def Disposes (spent : Option FrameId) (d d' : Desk) : Prop :=
  Edits False d d' ∧
    (d.Neat → d.Owned spent → d'.Owned spent ∧ d.world.Settles d'.world)

namespace Disposes

variable {spent : Option FrameId} {d d' d'' : Desk}

theorem trans (h : Disposes spent d d') (h' : Disposes spent d' d'') : Disposes spent d d'' := by
  refine ⟨h.1.trans h'.1, fun hneat howned => ?_⟩
  obtain ⟨howned', hsettles⟩ := h.2 hneat howned
  obtain ⟨howned'', hsettles'⟩ := h'.2 (h.1.neat hneat) howned'
  exact ⟨howned'', hsettles.trans hsettles'⟩

theorem of_neat (h : d.Neat → Disposes spent d d') : Disposes spent d d' :=
  ⟨.of_neat fun hneat => (h hneat).1, fun hneat => (h hneat).2 hneat⟩

/-- Nothing happens to owners. -/
theorem calm (h : Edits False d d') (hcalm : d.Neat → d.world.Calm d'.world) :
    Disposes none d d' := by
  refine ⟨h, fun hneat howned => ?_⟩
  have hcalm := hcalm hneat
  refine ⟨⟨fun c _ => ?_, nofun⟩, hcalm.settles⟩
  have hhandles := h.handlesOn_le hneat hcalm.frameCount c
  have := howned.bounded c nofun
  rw [Desk.owners] at *
  rw [hcalm.alive, hcalm.orphaned]
  omega

/-- Handles outside the world go. -/
theorem forget {hand : List Task} (h : Fewer d.hand hand) : Disposes spent d { d with hand } := by
  refine ⟨.forget h, fun _ howned => ⟨howned.of_frames (fun _ => rfl) fun c => ?_, .refl d.world⟩⟩
  have := (h c).2
  simp only [Desk.handles, handlesOn_append]
  exact Nat.add_le_add_left this _

end Disposes

/-! ## Letting go -/

namespace Desk

variable {d : Desk} {spent : Option FrameId} {f : FrameId}

/-- The owners of frames once a frame is destroyed and what it held is outside the world. -/
theorem owners_endFrame (hmade : f < d.world.frameCount) (p : Place) (ending : Ending)
    (hand : List Task) (c : FrameId) :
    ({ d with
      world := (d.world.endFrame p f ending).1
      hand := (d.world.frame f).heldTasks ++ hand } : Desk).owners c =
      handlesOn (d.world.held ++ hand) c + (d.world.frame c).orphaned.toNat := by
  have hheld : ∀ x, ((d.world.endFrame p f ending).1.held ++
      ((d.world.frame f).heldTasks ++ hand)).count x = (d.world.held ++ hand).count x := by
    intro x
    have := d.world.count_held_endFrame p hmade ending x
    simp only [List.count_append]
    omega
  have horphaned : ((d.world.endFrame p f ending).1.frame c).orphaned =
      (d.world.frame c).orphaned := by
    rw [World.frame_endFrame]
    split <;> rfl
  rw [owners, horphaned]
  exact congrArg (· + _) (handlesOn_congr hheld c)

/-- A frame without owners is destroyed. -/
theorem Owned.bury (h : d.Owned spent) (hmade : f < d.world.frameCount)
    (halive : (d.world.frame f).alive = true) (p : Place) (ending : Ending) {hand : List Task}
    (hhand : ∀ c, handlesOn hand c ≤ handlesOn d.hand c)
    (hnone : handlesOn (d.world.held ++ hand) f + (d.world.frame f).orphaned.toNat = 0) :
    ({ d with
      world := (d.world.endFrame p f ending).1
      hand := (d.world.frame f).heldTasks ++ hand } : Desk).Owned spent := by
  refine ⟨fun c hc => ?_, fun c hc => ?_⟩
  · rw [owners_endFrame hmade]
    by_cases hf : c = f
    · rw [hf, hnone]
      exact Nat.zero_le _
    · have := h.bounded c hc
      have := hhand c
      simp only [Desk.owners, Desk.handles, handlesOn_append, World.frame_endFrame, if_neg hf] at *
      omega
  · have hf : c ≠ f := by
      rintro rfl
      rw [(h.spent c hc).1] at halive
      cases halive
    simp only [World.frame_endFrame, if_neg hf]
    exact h.spent c hc

/-- A complete frame is destroyed through a handle, which is still there. -/
theorem Owned.bury_spent (h : d.Owned none) (hmade : f < d.world.frameCount)
    (hstage : (d.world.frame f).stage = .complete) (horphaned : (d.world.frame f).orphaned = false)
    (p : Place) (ending : Ending) :
    ({ d with
      world := (d.world.endFrame p f ending).1
      hand := (d.world.frame f).heldTasks ++ d.hand } : Desk).Owned (some f) := by
  refine ⟨fun c hc => ?_, fun c hc => ?_⟩
  · have hf : c ≠ f := fun e => hc (congrArg some e)
    rw [owners_endFrame hmade]
    simp only [World.frame_endFrame, if_neg hf]
    exact h.bounded c nofun
  · cases hc
    simp only [World.frame_endFrame, if_pos]
    exact ⟨rfl, hstage, horphaned⟩

theorem Owned.agrees (h : d.Owned spent) {w : World} (hagrees : d.world.Agrees w) :
    ({ d with world := w } : Desk).Owned spent := by
  refine h.of_frames hagrees.frame fun c => Nat.le_of_eq ?_
  simp only [Desk.handles, hagrees.held]

end Desk

namespace Disposes

variable {spent : Option FrameId} {d d' d'' : Desk}

/-- The handle of a frame in flight is dropped, and the frame is left to the worker that it
completes on. -/
theorem detach {f : FrameId} {started : Bool} {hand : List Task}
    (hhand : d.hand = ⟨some f, started⟩ :: hand) (hstage : (d.world.frame f).stage ≠ .complete)
    (hedits : Edits False d { d with
      world := (d.world.emit (.detach f)).modifyFrame f fun frame =>
        { frame with continuation := none, disposal := .detached }
      hand }) :
    Disposes spent d { d with
      world := (d.world.emit (.detach f)).modifyFrame f fun frame =>
        { frame with continuation := none, disposal := .detached }
      hand } := by
  refine ⟨hedits, fun hneat howned => ?_⟩
  have hframe : ∀ c, ((d.world.emit (.detach f)).modifyFrame f fun frame =>
      { frame with continuation := none, disposal := .detached }).frame c = if c = f then
        { d.world.frame c with continuation := none, disposal := .detached } else d.world.frame c :=
    fun c => World.frame_modifyFrame _ _ _ _
  have hheld : ((d.world.emit (.detach f)).modifyFrame f fun frame =>
      { frame with continuation := none, disposal := .detached }).held = d.world.held :=
    World.held_modifyFrame (d.world.emit (.detach f)) rfl
  have hcount : ((d.world.emit (.detach f)).modifyFrame f fun frame =>
      { frame with continuation := none, disposal := .detached }).frameCount = d.world.frameCount :=
        rfl
  have hworker : ∀ k, ((d.world.emit (.detach f)).modifyFrame f fun frame =>
      { frame with continuation := none, disposal := .detached }).worker k = d.world.worker k :=
    fun _ => rfl
  generalize (d.world.emit (.detach f)).modifyFrame f _ = w at hframe hheld hcount hworker ⊢
  refine ⟨⟨fun c hc => ?_, fun c hc => ?_⟩, fun k => Nat.le_of_eq ?_⟩
  · have hbound := howned.bounded c hc
    simp only [Desk.owners, Desk.handles, hhand, hheld, hframe, handlesOn_append,
      handlesOn_cons] at hbound ⊢
    by_cases hcf : c = f
    · subst hcf
      simp only [if_true] at hbound ⊢
      cases halive : (d.world.frame c).alive <;> cases hretired : (d.world.frame c).retired <;>
        simp [Frame.orphaned, halive, hretired] at hbound ⊢ <;> omega
    · simp only [if_neg hcf, if_neg fun e => hcf (Option.some.inj e).symm, Nat.add_zero] at hbound ⊢
      exact hbound
  · obtain ⟨hdead, hcomplete, horphaned⟩ := howned.spent c hc
    have hcf : c ≠ f := fun e => hstage (e ▸ hcomplete)
    simp only [hframe, if_neg hcf]
    exact ⟨hdead, hcomplete, horphaned⟩
  · have hsame : ∀ c, (w.frame c).alive = (d.world.frame c).alive ∧
        (w.frame c).runner = (d.world.frame c).runner := by
      intro c
      rw [hframe]
      split <;> exact ⟨rfl, rfl⟩
    rw [hworker, World.buried_congr hcount (fun c => (hsame c).1) fun c _ => (hsame c).2]

/-- A handle is dropped; what its frame held is outside the world if the frame is destroyed. -/
theorem letGo (p : Place) {t : Task} {hand : List Task} (hhand : d.hand = t :: hand) :
    Disposes spent d { d with
      world := (d.world.letGo p t).1
      hand := (d.world.letGo p t).2.getD [] ++ hand } := by
  have hedits : Edits False d _ := Edits.letGo p hhand
  have hgone : Disposes spent d { d with hand } := forget (hhand ▸ .suffix [t] hand)
  have hhandles : ∀ c, handlesOn d.handles c =
      handlesOn (d.world.held ++ hand) c + if t.frame = some c then 1 else 0 := by
    intro c
    rw [Desk.handles, hhand, handlesOn_append, handlesOn_cons, handlesOn_append]
    omega
  obtain ⟨frame, started⟩ := t
  cases frame with
  | none => exact hgone
  | some f =>
    unfold World.letGo at hedits ⊢
    simp only at hedits hhandles ⊢
    split
    · rename_i hends
      split
      · rename_i halive
        refine ⟨?_, fun hneat howned => ?_⟩
        · rwa [if_pos hends, if_pos halive] at hedits
        have hmade := (hneat.born f halive).1
        have hf : some f ≠ spent := by
          rintro rfl
          rw [(howned.spent f rfl).1] at halive
          cases halive
        have hfewer : ∀ c, handlesOn hand c ≤ handlesOn d.hand c := by
          intro c
          rw [hhand, handlesOn_cons]
          exact Nat.le_add_right _ _
        have hnone : handlesOn (d.world.held ++ hand) f + (d.world.frame f).orphaned.toNat = 0 := by
          have := howned.bounded f hf
          rw [Desk.owners, hhandles, if_pos rfl, halive, Bool.toNat_true] at this
          omega
        have hburied := howned.bury hmade halive p .dropped hfewer hnone
        refine ⟨hburied.agrees (World.noteDestroyed_agrees _ p _), .counted (fun k => ?_)
          (World.noteDestroyed_agrees _ p _) (World.destroyed_noteDestroyed _ p _)⟩
        rw [World.destroyed_endFrame, World.buried_endFrame _ p hmade halive]
        exact Nat.le_of_eq (Nat.add_assoc _ _ _)
      · exact hgone
    · rename_i hends
      rw [if_neg hends] at hedits
      have hstage : (d.world.frame f).stage ≠ .complete := by
        intro hcomplete
        simp [Frame.isComplete, hcomplete] at hends
      exact detach hhand hstage hedits

/-- Handles outside the world are dropped. -/
theorem dropTasks (p : Place) (ts : List Task) {hand : List Task} (hhand : d.hand = ts ++ hand) :
    Disposes spent d { d with world := d.world.dropTasks p ts, hand } := by
  have hstep : ∀ (w : World) (t : Task) (rest : List Task),
      Disposes spent d { d with world := w, hand := t :: rest ++ hand } → Disposes spent d { d with
        world := (w.letGo p t).1, hand := (w.letGo p t).2.getD [] ++ rest ++ hand } := by
    intro w t rest h
    rw [List.append_assoc]
    exact h.trans (letGo p rfl)
  obtain ⟨rest, hdropped⟩ := World.dropTasks_induct
    (P := fun w ts => Disposes spent d { d with world := w, hand := ts ++ hand }) p hstep ts
    (forget (hhand ▸ .refl _))
  exact hdropped.trans (forget (.suffix rest hand))

end Disposes

/-! ## Taking results -/

/-- A frame that is alive is destroyed, and what it held is dropped: its worker has buried one frame
more than it has counted. -/
theorem Desk.Owned.destroy {d : Desk} {spent : Option FrameId} {f : FrameId} {p : Place}
    {ending : Ending} (hended : ({ d with
      world := (d.world.endFrame p f ending).1
      hand := (d.world.frame f).heldTasks ++ d.hand } : Desk).Owned spent)
    (hneat : d.Neat) (hmade : f < d.world.frameCount) (halive : (d.world.frame f).alive = true) :
    ({ d with world := d.world.destroy p f ending } : Desk).Owned spent ∧
      ∀ k, ((d.world.destroy p f ending).worker k).stats.destroyed + d.world.buried k +
        (if (d.world.frame f).runner = some k then 1 else 0) ≤
          (d.world.worker k).stats.destroyed + (d.world.destroy p f ending).buried k := by
  obtain ⟨hdropped, hsettles⟩ := (Disposes.dropTasks p _ rfl).2
    (Edit.neat_of_endFrame hneat p ending hmade (.refl d.hand)) hended
  refine ⟨hdropped, fun k => ?_⟩
  have hburied := d.world.buried_endFrame p hmade halive ending k
  have hdestroyed := d.world.destroyed_endFrame p f ending k
  have hsettled : ((d.world.destroy p f ending).worker k).stats.destroyed +
      (d.world.endFrame p f ending).1.buried k ≤
        ((d.world.endFrame p f ending).1.worker k).stats.destroyed +
          (d.world.destroy p f ending).buried k := hsettles k
  omega

/-- The result of a complete frame is taken through a handle: the frame is destroyed and counted,
and the handle is still there. -/
theorem Desk.Owned.take {d : Desk} (h : d.Owned none) (hneat : d.Neat) (p : Place) {t : Task}
    (ht : t ∈ d.handles) {c : FrameId} (hc : t.frame = some c)
    (hstage : (d.world.frame c).stage = .complete) :
    ({ d with world := (d.world.takeOutput p t).1 } : Desk).Owned (some c) ∧
      d.world.Settles (d.world.takeOutput p t).1 := by
  obtain ⟨halive, horphaned, -⟩ := h.sole ht hc
  have hmade := hneat.made t ht c hc
  have htaken : (d.world.takeOutput p t).1 =
      ((d.world.modifyFrame c fun frame => { frame with output := none }).destroy p c
        (.taken (d.world.frame c).output)).noteDestroyed p (d.world.frame c).runner := by
    unfold World.takeOutput
    rw [hc]
    simp only [Frame.isComplete, hstage]
    rfl
  have htouched : Edits False d { d with
      world := d.world.modifyFrame c fun frame => { frame with output := none } } :=
    .touch ⟨rfl, rfl, rfl, rfl, rfl⟩ rfl rfl
  have hstill : d.world.Still (d.world.modifyFrame c fun frame => { frame with output := none }) :=
    .modifyFrame _ ⟨rfl, rfl, rfl, rfl⟩
  have hstage' :
      ((d.world.modifyFrame c fun frame => { frame with output := none }).frame c).stage =
      .complete := by
    rw [World.frame_modifyFrame, if_pos rfl]
    exact hstage
  rw [htaken]
  generalize d.world.modifyFrame c _ = w at htouched hstill hstage' ⊢
  have hkept := hstill.frame c
  have hmade' : c < w.frameCount := hstill.frameCount ▸ hmade
  obtain ⟨howned, hsettles⟩ := (Disposes.calm htouched fun _ => .of_still hstill).2 hneat h
  obtain ⟨hdestroyed, hburied⟩ :=
    (howned.bury_spent hmade' hstage' (hkept.orphaned.trans horphaned) p
    (.taken (d.world.frame c).output)).destroy (htouched.neat hneat) hmade'
    (hkept.alive.trans halive)
  refine ⟨hdestroyed.agrees (World.noteDestroyed_agrees _ p _),
    hsettles.trans (.counted (fun k => ?_)
    (World.noteDestroyed_agrees _ p _) (World.destroyed_noteDestroyed _ p _))⟩
  rw [← hkept.runner]
  exact hburied k

namespace Disposes

variable {d d' : Desk}

/-- The result of a complete frame is taken through a handle, and then the handle goes. -/
theorem spend (p : Place) {t : Task} (ht : t ∈ d.handles) {c : FrameId} (hc : t.frame = some c)
    (hstage : (d.world.frame c).stage = .complete)
    (h : Edits False { d with world := (d.world.takeOutput p t).1 } d')
    (hcalm : (d.world.takeOutput p t).1.Calm d'.world)
    (hspent : d.Neat → handlesOn d'.handles c + 1 ≤ handlesOn d.handles c) :
    Disposes none d d' := by
  have htaken : d.Neat → Edits False d { d with world := (d.world.takeOutput p t).1 } :=
    fun hneat =>
    .takeOutput p fun g hg => hneat.made t ht g hg
  refine ⟨.of_neat fun hneat => (htaken hneat).trans h, fun hneat howned => ?_⟩
  have hone := (howned.sole ht hc).2.2
  obtain ⟨hbounded, hsettles⟩ := howned.take hneat p ht hc hstage
  refine ⟨⟨fun g _ => ?_, nofun⟩, hsettles.trans hcalm.settles⟩
  rw [Desk.owners, hcalm.orphaned, hcalm.alive]
  by_cases hg : g = c
  · subst hg
    have horphaned : ((d.world.takeOutput p t).1.frame g).orphaned = false :=
      (hbounded.spent g rfl).2.2
    have := hspent hneat
    rw [horphaned, Bool.toNat_false]
    omega
  · have hbound := hbounded.bounded g fun e => hg (Option.some.inj e)
    have hhandles := h.handlesOn_le ((htaken hneat).neat hneat) hcalm.frameCount g
    exact Nat.le_trans (Nat.add_le_add_right hhandles _) hbound

end Disposes

/-! ## Making frames -/

theorem World.settles_newFrame (w : World) (home : Option ThreadId)
    (disposal : Disposal) (body : String)
    (arg : Int) : w.Settles (w.newFrame home disposal body arg).1 := by
  refine fun k => Nat.le_of_eq (congrArg (_ + ·) (World.having_grown (Nat.le_succ _) ?_ ?_).symm)
  · intro f hf
    rw [World.frame_newFrame, if_neg (Nat.ne_of_lt hf)]
  · intro f hf hf'
    rw [World.frame_newFrame, if_pos (Nat.le_antisymm (Nat.le_of_lt_succ hf') hf)]
    rfl

/-- The frame that is made belongs to a handle or, if it is detached, to a worker. -/
theorem Desk.Owned.newFrame {d : Desk} (h : d.Owned none) (hneat : d.Neat) (home : Option ThreadId)
    (disposal : Disposal) (body : String) (arg : Int) {hand : List Task}
    (hhand : ∀ c, handlesOn hand c ≤ handlesOn d.hand c +
      if c = d.world.frameCount ∧ disposal = .awaited then 1 else 0) :
    ({ d with world := (d.world.newFrame home disposal body arg).1, hand } : Desk).Owned none := by
  refine ⟨fun c _ => ?_, nofun⟩
  have hbound := h.bounded c nofun
  have hhand := hhand c
  simp only [Desk.owners, Desk.handles, handlesOn_append, World.held_newFrame,
    World.frame_newFrame] at hbound ⊢
  by_cases hc : c = d.world.frameCount
  · have hnone : handlesOn d.handles c = 0 :=
      handlesOn_eq_zero fun t ht e => Nat.lt_irrefl _ (hc ▸ hneat.made t ht c e)
    rw [Desk.handles, handlesOn_append] at hnone
    have hother : (Disposal.awaited == Disposal.detached) = false := rfl
    cases disposal <;> simp [hc, hother, Frame.orphaned] at hhand hnone ⊢ <;> omega
  · simp only [hc, false_and, if_false, Nat.add_zero] at hhand ⊢
    omega

namespace Disposes

variable {d : Desk} {f : FrameId}

theorem newTask (p : Place) (hp : p.thread = 0) (body : String) (arg : Int) :
    Disposes none d { d with
      world := (d.world.newTask p body arg).1
      hand := (d.world.newTask p body arg).2 :: d.hand } := by
  refine ⟨.newTask p hp body arg, fun hneat howned => ⟨?_, d.world.settles_newFrame _ _ _ _⟩⟩
  refine howned.newFrame hneat (some p.thread) .awaited body arg fun c => ?_
  have hframe : (d.world.newTask p body arg).2.frame = some d.world.frameCount := rfl
  rw [handlesOn_cons, hframe]
  refine Nat.add_le_add_left ?_ _
  by_cases hc : c = d.world.frameCount
  · simp [hc]
  · rw [if_neg fun e => hc (Option.some.inj e).symm]
    exact Nat.zero_le _

theorem spawnDetached (p : Place) (hp : p.thread = 0) (k : WorkerId) (body : String) (arg : Int) :
    Disposes none d { d with world := d.world.spawnDetached p k body arg } := by
  refine ⟨.spawnDetached p hp k body arg, fun hneat howned => ?_⟩
  have hmade := howned.newFrame hneat (some p.thread) .detached body arg
    fun c => Nat.le_add_right (handlesOn d.hand c) _
  have hsettles := d.world.settles_newFrame (some p.thread) .detached body arg
  let made :=
    (d.world.newFrame (some p.thread) .detached body arg).1.emit (.spawn d.world.frameCount)
  have hcalm : made.Calm (made.enqueue k d.world.frameCount) :=
    World.Deed.calm (.enqueue _ (.inl trivial))
  refine ⟨hmade.of_frames (fun c => ?_) fun c => Nat.le_of_eq ?_, hsettles.trans hcalm.settles⟩
  · exact World.frame_enqueue made k _ c
  · rw [Desk.handles,
      show ({ d with world := d.world.spawnDetached p k body arg } : Desk).world.held =
      made.held from World.held_enqueue made k _]
    rfl

/-! ## Disposing of frames -/

/-- A complete frame that has lost its handle is disposed of by the worker that polled it. -/
theorem retire {k : WorkerId} (p : Place) (hmade : f < d.world.frameCount)
    (hstage : (d.world.frame f).stage = .complete) (hrunner : (d.world.frame f).runner = some k)
    (horphaned : (d.world.frame f).orphaned = true) :
    Disposes none d { d with world := (retiring d.world k f).drainRetired p k } := by
  refine ⟨.retire p hmade hstage, fun hneat howned => ?_⟩
  obtain ⟨hagrees, hretired⟩ := World.cleared_agrees d.world (f := f) (hneat.drained k)
  have hworker := World.worker_cleared d.world k f
  rw [World.drainRetired_retiring d.world p (hneat.drained k)]
  generalize cleared d.world k f = w at hagrees hretired hworker
  have hmarked : Edits False d { d with world := w } := by
    have htouched : Edits False d { d with
        world := d.world.modifyFrame f fun frame => { frame with retired := true } } :=
      .touch ⟨rfl, rfl, rfl, rfl, rfl⟩ rfl rfl
    exact htouched.trans (.agrees hagrees hretired)
  have hframe : ∀ g, w.frame g =
      if g = f then { d.world.frame g with retired := true } else d.world.frame g :=
    fun g => (hagrees.frame g).trans (World.frame_modifyFrame _ _ _ _)
  have hcount : w.frameCount = d.world.frameCount := hagrees.frameCount
  have hheld : w.held = d.world.held :=
    hagrees.held.trans (World.held_modifyFrame d.world rfl)
  -- the worker was the one owner, and now that the frame is marked there is none
  obtain ⟨halive, hone⟩ := howned.alive (c := f) (by
    rw [Desk.owners, horphaned]
    exact Nat.succ_pos _)
  have hnone : handlesOn (w.held ++ d.hand) f = 0 := by
    rw [Desk.owners, Desk.handles, horphaned, Bool.toNat_true] at hone
    rw [hheld]
    omega
  have hself : w.frame f = { d.world.frame f with retired := true } := (hframe f).trans (if_pos rfl)
  have hunowned : (w.frame f).orphaned = false := by
    rw [hself]
    exact Bool.and_false _
  have halive' : (w.frame f).alive = true := hself ▸ halive
  have hmade' : f < w.frameCount := hcount.symm ▸ hmade
  have hcleared : ({ d with world := w } : Desk).Owned none := by
    refine ⟨fun c _ => ?_, fun _ hspent => by cases hspent⟩
    by_cases hc : c = f
    · subst hc
      rw [Desk.owners, Desk.handles, hnone, hunowned]
      exact Nat.zero_le _
    · have hbefore := howned.bounded c fun hspent => by cases hspent
      rw [Desk.owners, Desk.handles, hframe, if_neg hc, hheld]
      exact hbefore
  have hended :=
    hcleared.bury hmade' halive' p .retired (fun c => Nat.le_refl (handlesOn d.hand c)) (by
    rw [hunowned]
    exact hnone)
  obtain ⟨hdestroyed, hburied⟩ := hended.destroy (hmarked.neat hneat) hmade' halive'
  have hagrees' := ((w.destroy p f .retired).count_agrees k
    fun s => { s with destroyed := s.destroyed + 1 }).1
  have hsettles : d.world.Settles w := by
    intro j
    have hsame := World.buried_congr hcount
      (fun g => by rw [hframe]; split <;> rfl) (fun g _ => by rw [hframe]; split <;> rfl) j
    have hstats : (w.worker j).stats.destroyed = (d.world.worker j).stats.destroyed := by
      rw [hworker]
      split <;> rfl
    omega
  refine ⟨hdestroyed.agrees hagrees', hsettles.trans (.counted hburied hagrees' fun j => ?_)⟩
  rw [World.count, World.worker_modifyWorker]
  split
  · rename_i hj
    have hsame : (w.frame f).runner = some j := by
      rw [hself, hj]
      exact hrunner
    exact Nat.le_of_eq (congrArg (((w.destroy p f .retired).worker j).stats.destroyed + ·)
      (if_pos hsame).symm)
  · exact Nat.le_add_right _ _

/-- Whatever happens in a session keeps to the owners of frames. -/
theorem ledger : Ledger False True (Disposes none) where
  trans := .trans
  of_neat := .of_neat
  calm := .calm
  dropTasks := .dropTasks
  spend p _ _ ht hc hstage := .spend p ht hc hstage
  newTask p body arg hp := .newTask p hp body arg
  spawnDetached p k body arg hp := .spawnDetached p hp k body arg
  retire p hmade hstage hrunner := .retire p hmade hstage (hrunner trivial)

end Disposes

end Substrate.Coro
