import Substrate.Proofs.Coro.Edits.Calls

/-!
# Dropping handles

Dropping the handle of a task may destroy the frame of the task.  A frame that is on
a run list, in a slot or being polled is not destroyed that way, as long as a frame
is scheduled by hand only if it is in no slot and has no handle that has yet to start
it, and a body that returns wakes only a frame that waits and is in no slot.

* `Desk.Placed` is what the edits keep then: a frame is in one place at most, and a
  handle that has not started its frame keeps it out of all of them.
* `Reach.engaged_frames_survive_drops` says what a drop spares at every moment of such
  a run.
-/

namespace Substrate.Coro

/-- A frame is on a run list. -/
def World.Listed (w : World) (f : FrameId) : Prop := ∃ q, f ∈ w.runLists.toList q

/-! ## Run lists -/

namespace World

variable {w w' : World} {f : FrameId}

/-- What is on the lists once a frame was put on one of them. -/
theorem push_listed (h : w.runLists.Sound) {q : Nat} {runLists : RunLists}
    (hpush : w.runLists.push q f = some runLists) :
    runLists.Sound ∧ ∀ g, (∃ q, g ∈ runLists.toList q) → g = f ∨ w.Listed g := by
  have hoff : ∀ q, f ∉ w.runLists.toList q := by
    intro q' hmem
    rw [h.push_eq_none hmem] at hpush
    cases hpush
  obtain ⟨r, hr, hsound, hlists⟩ := h.push hoff q
  rw [hr] at hpush
  cases hpush
  refine ⟨hsound, fun g ⟨q', hg⟩ => ?_⟩
  rw [hlists] at hg
  split at hg
  · rcases List.mem_cons.mp hg with hg | hg
    · exact .inl hg
    · exact .inr ⟨q, hg⟩
  · exact .inr ⟨q', hg⟩

theorem slot_enqueue (w : World) (k : WorkerId) (f : FrameId) (slot : String) :
    (w.enqueue k f).slot slot = w.slot slot := by
  unfold World.enqueue
  split <;> rfl

theorem enqueue_listed (h : w.runLists.Sound) (k : WorkerId) (f : FrameId) :
    (w.enqueue k f).runLists.Sound ∧ ∀ g, (w.enqueue k f).Listed g → g = f ∨ w.Listed g := by
  unfold World.enqueue
  split
  · exact ⟨h, fun g hg => .inr hg⟩
  · rename_i hpush
    exact push_listed h hpush

theorem defer_listed (h : w.runLists.Sound) (k : WorkerId) (f : FrameId) :
    (w.defer k f).runLists.Sound ∧ ∀ g, (w.defer k f).Listed g → g = f ∨ w.Listed g := by
  unfold World.defer
  cases hpush : w.runLists.push (deferredList k) f with
  | none => exact ⟨h, fun g hg => .inr hg⟩
  | some runLists => exact push_listed h hpush

/-- A frame that was popped is on no list any more. -/
theorem pop_listed {r r' : RunLists} (h : r.Sound) {q : Nat} (hpop : r.pop q = some (f, r')) :
    r'.Sound ∧ (∃ q, f ∈ r.toList q) ∧
      ∀ g, (∃ q, g ∈ r'.toList q) → g ≠ f ∧ ∃ q, g ∈ r.toList q := by
  obtain ⟨below, hq, hsound, hlists⟩ := h.pop_cases hpop
  have htop : f ∈ r.toList q := hq ▸ List.mem_cons_self
  have hnodup := RunLists.Refines.nodup h q
  rw [hq, List.nodup_cons] at hnodup
  refine ⟨hsound, ⟨q, htop⟩, fun g ⟨q', hg⟩ => ?_⟩
  rw [hlists] at hg
  split at hg
  · refine ⟨fun e => hnodup.1 (e ▸ hg), q, ?_⟩
    rw [hq]
    exact List.mem_cons_of_mem _ hg
  · rename_i hne
    exact ⟨fun e => hne (RunLists.Refines.disjoint h q' q f (e ▸ hg) htop), q', hg⟩

theorem nextFrame_listed (h : w.runLists.Sound) {k : WorkerId}
    (hnext : w.nextFrame k = some (f, w')) :
    w'.runLists.Sound ∧ w.Listed f ∧ ∀ g, w'.Listed g → g ≠ f ∧ w.Listed g := by
  obtain ⟨r, rfl, hpop | ⟨-, hpop⟩⟩ := World.nextFrame_some hnext
  · exact pop_listed h hpop
  · obtain ⟨hsound, hlists⟩ := h.pour (readyList_ne_deferredList k k).symm
      (w.runLists.length (deferredList k))
    have hpoured : ∀ g, (∃ q, g ∈ (w.runLists.pour (deferredList k) (readyList k)
        (w.runLists.length (deferredList k))).toList q) → w.Listed g := by
      rintro g ⟨q, hg⟩
      rw [hlists] at hg
      split at hg
      · exact ⟨_, List.mem_of_mem_drop hg⟩
      · split at hg
        · rcases List.mem_append.mp hg with hg | hg
          · exact ⟨_, List.mem_of_mem_take (List.mem_reverse.mp hg)⟩
          · exact ⟨_, hg⟩
        · exact ⟨q, hg⟩
    obtain ⟨hsound', hf, hrest⟩ := pop_listed hsound hpop
    exact ⟨hsound', hpoured _ hf, fun g hg => ⟨(hrest g hg).1, hpoured g (hrest g hg).2⟩⟩

end World

/-! ## Places -/

/-- Every frame is in one place at most, and is at a point of its life that fits the place. -/
structure Desk.Placed (d : Desk) : Prop where
  lists : d.world.runLists.Sound
  /-- A frame on a list is alive and can be polled. -/
  listed : ∀ f, d.world.Listed f → (d.world.frame f).alive = true ∧
    ((d.world.frame f).stage = .created ∨ (d.world.frame f).stage = .suspended)
  /-- A frame in a slot waits, and it is on no list. -/
  slotted : ∀ slot f, d.world.slot slot = some f → (d.world.frame f).alive = true ∧
    (d.world.frame f).stage = .suspended ∧ ¬d.world.Listed f
  /-- No frame is in two slots. -/
  apart : ∀ slot slot' f, d.world.slot slot = some f → d.world.slot slot' = some f → slot = slot'
  /-- A frame that is polled is alive and runs. -/
  running : ∀ f ∈ d.polled, (d.world.frame f).alive = true ∧ (d.world.frame f).stage = .running
  /-- No frame is polled within a poll of its own. -/
  nested : d.polled.Nodup
  /-- There is one handle at most on a frame. -/
  owned : ∀ c, d.handles.count ⟨some c, false⟩ + d.handles.count ⟨some c, true⟩ ≤ 1
  /-- A frame whose handle has yet to start it is alive, was never polled and is on no list. -/
  unstarted : ∀ c, ⟨some c, false⟩ ∈ d.handles → (d.world.frame c).alive = true ∧
    (d.world.frame c).stage = .created ∧ ¬d.world.Listed c

namespace Desk.Placed

variable {d d' : Desk} {f : FrameId}

/-- The record of what was taken from run lists does not matter. -/
theorem unrecorded {popped : List (WorkerId × FrameId)} (h : ({ d with popped } : Desk).Placed) :
    d.Placed :=
  ⟨h.lists, h.listed, h.slotted, h.apart, h.running, h.nested, h.owned, h.unstarted⟩

/-- No frame is in another place or at another point of its life. -/
theorem same (h : d.Placed)
    (hframe : ∀ g, (d'.world.frame g).alive = (d.world.frame g).alive ∧
      (d'.world.frame g).stage = (d.world.frame g).stage)
    (hlists : d'.world.runLists = d.world.runLists)
    (hslot : ∀ slot, d'.world.slot slot = d.world.slot slot) (hpolled : d'.polled = d.polled)
    (hfewer : Fewer d.handles d'.handles) : d'.Placed := by
  have hlisted : ∀ g, d'.world.Listed g ↔ d.world.Listed g := by
    intro g
    rw [World.Listed, World.Listed, hlists]
  refine ⟨hlists ▸ h.lists, fun g hg => ?_, fun slot g hg => ?_, fun slot slot' g hg hg' => ?_,
    fun g hg => ?_, hpolled ▸ h.nested, fun c => ?_, fun c hc => ?_⟩
  · rw [(hframe g).1, (hframe g).2]
    exact h.listed g ((hlisted g).mp hg)
  · rw [(hframe g).1, (hframe g).2, hlisted]
    exact h.slotted slot g (hslot slot ▸ hg)
  · exact h.apart slot slot' g (hslot slot ▸ hg) (hslot slot' ▸ hg')
  · rw [(hframe g).1, (hframe g).2]
    exact h.running g (hpolled ▸ hg)
  · exact Nat.le_trans (hfewer c).2 (h.owned c)
  · rw [(hframe c).1, (hframe c).2, hlisted]
    refine h.unstarted c (List.count_pos_iff.mp ?_)
    exact Nat.lt_of_lt_of_le (List.count_pos_iff.mpr hc) (hfewer c).1

/-- A frame that is polled is in no other place. -/
theorem alone (h : d.Placed) (hf : f ∈ d.polled) :
    ¬d.world.Listed f ∧ (∀ slot, d.world.slot slot ≠ some f) ∧ ⟨some f, false⟩ ∉ d.handles := by
  have hrunning := (h.running f hf).2
  refine ⟨fun hlisted => ?_, fun slot hslot => ?_, fun hhandle => ?_⟩
  · rcases (h.listed f hlisted).2 with e | e <;> (rw [e] at hrunning; cases hrunning)
  · rw [(h.slotted slot f hslot).2.1] at hrunning
    cases hrunning
  · rw [(h.unstarted f hhandle).2.1] at hrunning
    cases hrunning

/-- A frame that is in no place goes on a list. -/
theorem enlist (h : d.Placed) {w : World} (hframe : ∀ g, w.frame g = d.world.frame g)
    (hslot : ∀ slot, w.slot slot = d.world.slot slot) (hheld : w.held = d.world.held)
    (hlists : w.runLists.Sound ∧ ∀ g, w.Listed g → g = f ∨ d.world.Listed g)
    (halive : (d.world.frame f).alive = true)
    (hstage : (d.world.frame f).stage = .created ∨ (d.world.frame f).stage = .suspended)
    (hvacant : ∀ slot, d.world.slot slot ≠ some f) (hhandle : ⟨some f, false⟩ ∉ d.handles) :
    ({ d with world := w } : Desk).Placed := by
  have hhandles : ({ d with world := w } : Desk).handles = d.handles :=
    congrArg (· ++ d.hand) hheld
  refine ⟨hlists.1, fun g hg => ?_, fun slot g hg => ?_, fun slot slot' g hg hg' => ?_,
    fun g hg => ?_, h.nested, fun c => hhandles ▸ h.owned c, fun c hc => ?_⟩
  · rw [hframe]
    rcases hlists.2 g hg with rfl | hg
    · exact ⟨halive, hstage⟩
    · exact h.listed g hg
  · have hg : d.world.slot slot = some g := hslot slot ▸ hg
    obtain ⟨halive', hstage', hlisted⟩ := h.slotted slot g hg
    rw [hframe]
    refine ⟨halive', hstage', fun hnow => ?_⟩
    rcases hlists.2 g hnow with rfl | hbefore
    · exact hvacant slot hg
    · exact hlisted hbefore
  · exact h.apart slot slot' g (hslot slot ▸ hg) (hslot slot' ▸ hg')
  · rw [hframe]
    exact h.running g hg
  · have hc : ⟨some c, false⟩ ∈ d.handles := hhandles ▸ hc
    obtain ⟨halive', hstage', hlisted⟩ := h.unstarted c hc
    rw [hframe]
    refine ⟨halive', hstage', fun hnow => ?_⟩
    rcases hlists.2 c hnow with rfl | hbefore
    · exact hhandle hc
    · exact hlisted hbefore

theorem enqueue (h : d.Placed) (k : WorkerId) (halive : (d.world.frame f).alive = true)
    (hstage : (d.world.frame f).stage = .created ∨ (d.world.frame f).stage = .suspended)
    (hvacant : ∀ slot, d.world.slot slot ≠ some f) (hhandle : ⟨some f, false⟩ ∉ d.handles) :
    ({ d with world := d.world.enqueue k f } : Desk).Placed := by
  exact h.enlist (d.world.frame_enqueue k f) (d.world.slot_enqueue k f) (d.world.held_enqueue k f)
    (World.enqueue_listed h.lists k f) halive hstage hvacant hhandle

/-- A poll ends, and its frame is at another point of its life. -/
theorem endPoll (h : d.Placed) {polled done : List FrameId} (hpolled : d.polled = f :: polled)
    {w : World} (stage : Stage)
    (hframe : ∀ g, (w.frame g).alive = (d.world.frame g).alive ∧
      (w.frame g).stage = if g = f then stage else (d.world.frame g).stage)
    (hlists : w.runLists = d.world.runLists) (hslot : ∀ slot, w.slot slot = d.world.slot slot)
    (hheld : w.held = d.world.held) : ({ d with world := w, polled, done } : Desk).Placed := by
  have hf : f ∈ d.polled := hpolled ▸ List.mem_cons_self
  obtain ⟨hunlisted, hvacant, hhandle⟩ := h.alone hf
  have hnodup := h.nested
  rw [hpolled, List.nodup_cons] at hnodup
  have hlisted : ∀ g, w.Listed g ↔ d.world.Listed g := by
    intro g
    rw [World.Listed, World.Listed, hlists]
  have hhandles : ({ d with world := w, polled, done } : Desk).handles = d.handles :=
    congrArg (· ++ d.hand) hheld
  have hother : ∀ g, g ≠ f → (w.frame g).alive = (d.world.frame g).alive ∧
      (w.frame g).stage = (d.world.frame g).stage := fun g hg => by simpa [hg] using hframe g
  refine ⟨hlists ▸ h.lists, fun g hg => ?_, fun slot g hg => ?_, fun slot slot' g hg hg' => ?_,
    fun g hg => ?_, hnodup.2, fun c => hhandles ▸ h.owned c, fun c hc => ?_⟩
  · have hg : d.world.Listed g := (hlisted g).mp hg
    have hne : g ≠ f := fun e => hunlisted (e ▸ hg)
    rw [(hother g hne).1, (hother g hne).2]
    exact h.listed g hg
  · have hg : d.world.slot slot = some g := hslot slot ▸ hg
    have hne : g ≠ f := fun e => hvacant slot (e ▸ hg)
    rw [(hother g hne).1, (hother g hne).2, hlisted]
    exact h.slotted slot g hg
  · exact h.apart slot slot' g (hslot slot ▸ hg) (hslot slot' ▸ hg')
  · have hne : g ≠ f := fun e => hnodup.1 (e ▸ hg)
    rw [(hother g hne).1, (hother g hne).2]
    exact h.running g (hpolled ▸ List.mem_cons_of_mem _ hg)
  · have hc : ⟨some c, false⟩ ∈ d.handles := hhandles ▸ hc
    have hne : c ≠ f := fun e => hhandle (e ▸ hc)
    rw [(hother c hne).1, (hother c hne).2, hlisted]
    exact h.unstarted c hc

/-- A slot is emptied. -/
theorem vacate (h : d.Placed) (slot : String) :
    ({ d with world := d.world.setSlot slot none } : Desk).Placed := by
  have hold : ∀ {s g}, (d.world.setSlot slot none).slot s = some g → d.world.slot s = some g := by
    intro s g hg
    rw [Layout.slot_setSlot] at hg
    split at hg
    · cases hg
    · exact hg
  exact ⟨h.lists, h.listed, fun s g hg => h.slotted s g (hold hg),
    fun s s' g hg hg' => h.apart s s' g (hold hg) (hold hg'), h.running, h.nested,
    h.owned, h.unstarted⟩

/-- A frame that is in no place goes in a slot. -/
theorem publish (h : d.Placed) {slot : String} (halive : (d.world.frame f).alive = true)
    (hstage : (d.world.frame f).stage = .suspended) (hlisted : ¬d.world.Listed f)
    (hvacant : ∀ slot, d.world.slot slot ≠ some f) :
    ({ d with world := d.world.setSlot slot (some f) } : Desk).Placed := by
  have hcases : ∀ {s g}, (d.world.setSlot slot (some f)).slot s = some g →
      s = slot ∧ g = f ∨ d.world.slot s = some g := by
    intro s g hg
    rw [Layout.slot_setSlot] at hg
    split at hg
    · rename_i hs
      cases hg
      exact .inl ⟨hs, rfl⟩
    · exact .inr hg
  refine ⟨h.lists, h.listed, fun s g hg => ?_, fun s s' g hg hg' => ?_, h.running,
    h.nested, h.owned,
    h.unstarted⟩
  · rcases hcases hg with ⟨-, rfl⟩ | hg
    · exact ⟨halive, hstage, hlisted⟩
    · exact h.slotted s g hg
  · rcases hcases hg with ⟨hs, rfl⟩ | hold
    · rcases hcases hg' with ⟨hs', -⟩ | hold'
      · exact hs.trans hs'.symm
      · exact absurd hold' (hvacant s')
    · rcases hcases hg' with ⟨-, rfl⟩ | hold'
      · exact absurd hold (hvacant s)
      · exact h.apart s s' g hold hold'

/-- A frame is made that is in no place. -/
theorem newFrame (h : d.Placed) (hneat : d.Neat) (disposal : Disposal) (body : String) (arg : Int)
    {hand : List Task}
    (hhand : hand = d.hand ∨ hand = ⟨some d.world.frameCount, false⟩ :: d.hand) :
    ({ d with world := (d.world.newFrame (some 0) disposal body arg).1, hand } : Desk).Placed := by
  have hframe := d.world.frame_newFrame (some 0) disposal body arg
  have hheld := d.world.held_newFrame (some 0) disposal body arg
  -- what is alive was made before, so it is another frame
  have hother : ∀ g, (d.world.frame g).alive = true →
      (d.world.newFrame (some 0) disposal body arg).1.frame g = d.world.frame g := by
    intro g hg
    rw [hframe, if_neg (Nat.ne_of_lt (hneat.born g hg).1)]
  have hfresh : ∀ b, d.handles.count ⟨some d.world.frameCount, b⟩ = 0 := by
    intro b
    refine List.count_eq_zero.mpr fun hmem => ?_
    exact Nat.lt_irrefl _ (hneat.made _ hmem _ rfl)
  refine ⟨h.lists, fun g hg => ?_, fun slot g hg => ?_, h.apart, fun g hg => ?_,
    h.nested, fun c => ?_,
    fun c hc => ?_⟩
  · rw [hother g (h.listed g hg).1]
    exact h.listed g hg
  · rw [hother g (h.slotted slot g hg).1]
    exact h.slotted slot g hg
  · rw [hother g (h.running g hg).1]
    exact h.running g hg
  · have := h.owned c
    have := hfresh false
    have := hfresh true
    rcases hhand with rfl | rfl
    · simp only [Desk.handles, hheld] at *
      omega
    · by_cases hc : d.world.frameCount = c
      · subst hc
        simp [Desk.handles, hheld] at *
        omega
      · simp [Desk.handles, hheld, hc] at *
        omega
  · have hcases : ⟨some c, false⟩ ∈ d.handles ∨ c = d.world.frameCount := by
      rcases List.mem_append.mp hc with hc | hc
      · rw [hheld] at hc
        exact .inl (List.mem_append_left _ hc)
      · rcases hhand with rfl | rfl
        · exact .inl (List.mem_append_right _ hc)
        · rcases List.mem_cons.mp hc with e | hc
          · cases e
            exact .inr rfl
          · exact .inl (List.mem_append_right _ hc)
    rcases hcases with hc | rfl
    · rw [hother c (h.unstarted c hc).1]
      exact h.unstarted c hc
    · rw [hframe, if_pos rfl]
      refine ⟨rfl, rfl, fun hlisted => ?_⟩
      exact Nat.lt_irrefl _ (hneat.born _ (h.listed _ hlisted).1).1

/-- A frame that is in no place is destroyed, and what it held is outside the world. -/
theorem endFrame (h : d.Placed) (p : Place) (ending : Ending) (hmade : f < d.world.frameCount)
    (hlisted : ¬d.world.Listed f) (hvacant : ∀ slot, d.world.slot slot ≠ some f)
    (hpolled : f ∉ d.polled)
    {hand : List Task} (hfewer : Fewer d.hand hand)
    (hhandle : ⟨some f, false⟩ ∉ d.world.held ++ hand) :
    ({ d with
      world := (d.world.endFrame p f ending).1
      hand := (d.world.frame f).heldTasks ++ hand } : Desk).Placed := by
  have hagrees := Layout.endFrame_agrees d.world p f ending
  have hcount := d.world.count_held_endFrame p hmade ending
  have hother : ∀ g, g ≠ f → (d.world.endFrame p f ending).1.frame g = d.world.frame g := by
    intro g hg
    rw [World.frame_endFrame, if_neg hg]
  have hlists : (d.world.endFrame p f ending).1.runLists = d.world.runLists := hagrees.runLists
  have hslot : ∀ slot, (d.world.endFrame p f ending).1.slot slot = d.world.slot slot := by
    intro slot
    rw [World.slot, World.slot, hagrees.slots]
    rfl
  have hsame : ∀ g, (d.world.endFrame p f ending).1.Listed g ↔ d.world.Listed g := by
    intro g
    rw [World.Listed, World.Listed, hlists]
  refine ⟨?_, fun g hg => ?_, fun slot g hg => ?_, fun slot slot' g hg hg' => ?_,
    fun g hg => ?_, h.nested,
    fun c => ?_, fun c hc => ?_⟩
  · show (d.world.endFrame p f ending).1.runLists.Sound
    rw [hlists]
    exact h.lists
  · have hg : d.world.Listed g := (hsame g).mp hg
    rw [hother g fun e => hlisted (e ▸ hg)]
    exact h.listed g hg
  · have hg : d.world.slot slot = some g := hslot slot ▸ hg
    rw [hother g fun e => hvacant slot (e ▸ hg), hsame]
    exact h.slotted slot g hg
  · exact h.apart slot slot' g (hslot slot ▸ hg) (hslot slot' ▸ hg')
  · rw [hother g fun e => hpolled (e ▸ hg)]
    exact h.running g hg
  · have := h.owned c
    have := hfewer c
    have := hcount ⟨some c, false⟩
    have := hcount ⟨some c, true⟩
    simp only [Desk.handles, List.count_append] at *
    omega
  · have hpos : 0 < (d.world.held ++ hand).count ⟨some c, false⟩ := by
      have hc := List.count_pos_iff.mpr hc
      have := hcount ⟨some c, false⟩
      simp only [Desk.handles, List.count_append] at *
      omega
    have hne : c ≠ f := fun e => hhandle (e ▸ List.count_pos_iff.mp hpos)
    have hold : ⟨some c, false⟩ ∈ d.handles := by
      refine List.count_pos_iff.mp ?_
      have := hfewer c
      simp only [Desk.handles, List.count_append] at *
      omega
    rw [hother c hne, hsame]
    exact h.unstarted c hold

/-- A worker polls the next frame on its lists. -/
theorem resume (h : d.Placed) {k : WorkerId} {w : World} (t : Thread)
    (hnext : d.world.nextFrame k = some (f, w)) (halive : (d.world.frame f).alive = true)
    (popped : List (WorkerId × FrameId)) :
    ({ d with world := (Thread.beginPoll w t k f).1, polled := f :: d.polled, popped } :
      Desk).Placed := by
  obtain ⟨hsound, hf, hrest⟩ := World.nextFrame_listed h.lists hnext
  have hw := World.nextFrame_same hnext
  have hframe : ∀ g, w.frame g = d.world.frame g := fun g => by rw [hw]; rfl
  have hslot : ∀ slot, w.slot slot = d.world.slot slot := fun slot => by rw [hw]; rfl
  have hheld : (Thread.beginPoll w t k f).1.held = d.world.held := by
    refine World.held_congr (by rw [hw]; rfl) (by rw [hw]; rfl) fun g => ?_
    rw [World.frame_beginPoll, hframe]
    split <;> exact ⟨rfl, rfl⟩
  have hhandles : ∀ x, x ∈ ({ d with world := (Thread.beginPoll w t k f).1 } : Desk).handles ↔
      x ∈ d.handles := by
    intro x
    rw [Desk.handles, Desk.handles, hheld]
  have hother : ∀ g, g ≠ f → (Thread.beginPoll w t k f).1.frame g = d.world.frame g := by
    intro g hg
    rw [World.frame_beginPoll, if_neg hg, hframe]
  have hpolled : f ∉ d.polled := fun hmem => (h.alone hmem).1 hf
  refine ⟨hsound, fun g hg => ?_, fun slot g hg => ?_, fun slot slot' g hg hg' =>
    ?_, fun g hg => ?_,
    List.nodup_cons.mpr ⟨hpolled, h.nested⟩, fun c => ?_, fun c hc => ?_⟩
  · obtain ⟨hne, hbefore⟩ := hrest g hg
    rw [hother g hne]
    exact h.listed g hbefore
  · have hg : d.world.slot slot = some g := hslot slot ▸ hg
    obtain ⟨halive', hstage, hlisted⟩ := h.slotted slot g hg
    rw [hother g fun e => hlisted (e ▸ hf)]
    exact ⟨halive', hstage, fun hnow => hlisted (hrest g hnow).2⟩
  · exact h.apart slot slot' g (hslot slot ▸ hg) (hslot slot' ▸ hg')
  · rcases List.mem_cons.mp hg with rfl | hg
    · rw [World.frame_beginPoll, if_pos rfl, hframe]
      exact ⟨halive, rfl⟩
    · rw [hother g fun e => hpolled (e ▸ hg)]
      exact h.running g hg
  · rw [Desk.handles, hheld]
    exact h.owned c
  · obtain ⟨halive', hstage, hlisted⟩ := h.unstarted c ((hhandles _).mp hc)
    rw [hother c fun e => hlisted (e ▸ hf)]
    exact ⟨halive', hstage, fun hnow => hlisted (hrest c hnow).2⟩

/-- A worker passes over the next frame on its lists. -/
theorem skip (h : d.Placed) {k : WorkerId} {w : World}
    (hnext : d.world.nextFrame k = some (f, w)) (popped : List (WorkerId × FrameId)) :
    ({ d with world := w, popped } : Desk).Placed := by
  obtain ⟨hsound, -, hrest⟩ := World.nextFrame_listed h.lists hnext
  rw [World.nextFrame_same hnext] at hrest ⊢
  refine ⟨hsound, fun g hg => h.listed g (hrest g hg).2, fun slot g hg => ?_, h.apart, h.running,
    h.nested, h.owned, fun c hc => ?_⟩
  · obtain ⟨halive, hstage, hlisted⟩ := h.slotted slot g hg
    exact ⟨halive, hstage, fun hnow => hlisted (hrest g hnow).2⟩
  · obtain ⟨halive, hstage, hlisted⟩ := h.unstarted c hc
    exact ⟨halive, hstage, fun hnow => hlisted (hrest c hnow).2⟩

/-- A poll ends without the body having returned. -/
theorem released (h : d.Placed) {polled : List FrameId}
    (hpolled : d.polled = f :: polled) (k : WorkerId)
    (outer : Option FrameId) :
    ({ d with world := Coro.released d.world k f outer, polled } : Desk).Placed := by
  refine h.endPoll hpolled .suspended (fun g => ?_) rfl (fun _ => rfl) ?_
  · rw [frame_released]
    split <;> exact ⟨rfl, rfl⟩
  · refine World.held_congr rfl rfl fun g => ?_
    rw [frame_released]
    split <;> exact ⟨rfl, rfl⟩

/-- A frame whose poll has ended is in no place. -/
theorem freed (h : d.Placed) {polled : List FrameId}
    (hpolled : d.polled = f :: polled) (k : WorkerId)
    (outer : Option FrameId) :
    ((Coro.released d.world k f outer).frame f).alive = true ∧
      ((Coro.released d.world k f outer).frame f).stage = .suspended ∧
      ¬(Coro.released d.world k f outer).Listed f ∧
      (∀ slot, (Coro.released d.world k f outer).slot slot ≠ some f) ∧
      ⟨some f, false⟩ ∉
      ({ d with world := Coro.released d.world k f outer, polled } : Desk).handles := by
  have hf : f ∈ d.polled := hpolled ▸ List.mem_cons_self
  obtain ⟨hlisted, hvacant, -⟩ := h.alone hf
  have hself : (Coro.released d.world k f outer).frame f =
      { d.world.frame f with stage := .suspended } := by
    rw [frame_released, if_pos rfl]
  refine ⟨?_, ?_, hlisted, hvacant, fun hmem => ?_⟩
  · rw [hself]
    exact (h.running f hf).1
  · rw [hself]
  · have hcreated := ((h.released hpolled k outer).unstarted f hmem).2.1
    rw [hself] at hcreated
    cases hcreated

end Desk.Placed

/-- Every edit keeps frames in their places, provided it is guarded. -/
theorem Edit.placed {strict : Prop} (hstrict : strict) {d d' : Desk} (h : Edit strict d d')
    (hneat : d.Neat) (hplaced : d.Placed) : d'.Placed := by
  -- a change of whom a frame wakes or of who disposes of it
  have hlinked : ∀ (f : FrameId) (change : Frame → Frame) (asked : List (FrameId × FrameId)),
      (∀ fr, (change fr).alive = fr.alive ∧ (change fr).stage = fr.stage ∧
        (change fr).heldTasks = fr.heldTasks) →
        ({ d with world := d.world.modifyFrame f change, asked } : Desk).Placed := by
    intro f change asked hchange
    refine hplaced.same (fun g => ?_) rfl (fun _ => rfl) rfl ?_
    · show ((d.world.modifyFrame f change).frame g).alive = _ ∧
        ((d.world.modifyFrame f change).frame g).stage = _
      rw [World.frame_modifyFrame]
      split
      · exact ⟨(hchange _).1, (hchange _).2.1⟩
      · exact ⟨rfl, rfl⟩
    · rw [Desk.handles, Desk.handles, World.held_modifyFrame _ (hchange _).2.2]
      exact .refl _
  cases h with
  | move halike hw hfewer =>
    refine hplaced.same (fun g => ⟨(halike.frame g).alive, (halike.frame g).stage⟩) halike.runLists
      (fun slot => ?_) rfl hfewer
    rw [World.slot, World.slot, halike.slots]
  | recruit hook =>
    exact hplaced.same (fun _ => ⟨rfl, rfl⟩) rfl (fun _ => rfl) rfl (.refl _)
  | make body arg => exact hplaced.newFrame hneat .awaited body arg (.inr rfl)
  | spawn k body arg =>
    have hmade := hplaced.newFrame hneat .detached body arg (.inl rfl)
    have hself := d.world.frame_newFrame (some 0) .detached body arg d.world.frameCount
    rw [if_pos rfl] at hself
    refine hmade.enqueue k (by rw [hself]) (by rw [hself]; exact .inl rfl) (fun slot hslot => ?_)
      fun hmem => ?_
    · exact Nat.lt_irrefl _ (hneat.born _ (hplaced.slotted slot _ hslot).1).1
    · rw [Desk.handles, World.held_newFrame] at hmem
      exact Nat.lt_irrefl _ (hneat.made _ hmem _ rfl)
  | @start f w hand k halike hw hfewer hstarted hstage =>
    have hmem : ⟨some f, false⟩ ∈ d.handles :=
      List.count_pos_iff.mp (Nat.lt_of_le_of_lt (Nat.zero_le _) hstarted)
    obtain ⟨halive, hcreated, -⟩ := hplaced.unstarted f hmem
    have hslot : ∀ slot, w.slot slot = d.world.slot slot := fun slot => by
      rw [World.slot, World.slot, halike.slots]
    have hmoved : ({ d with world := w, hand } : Desk).Placed :=
      hplaced.same (fun g => ⟨(halike.frame g).alive, (halike.frame g).stage⟩)
        halike.runLists hslot rfl
        hfewer
    refine hmoved.enqueue k ((halike.frame f).alive.trans halive)
      (.inl ((halike.frame f).stage.trans hcreated)) (fun slot hf => ?_) fun hnow => ?_
    · have := (hplaced.slotted slot f (hslot slot ▸ hf)).2.1
      rw [hcreated] at this
      cases this
    · have := hplaced.owned f
      have := List.count_pos_iff.mpr hnow
      simp only [Desk.handles] at *
      omega
  | @ask c b hmade hstage =>
    exact hlinked c (fun frame => { frame with continuation := frame.continuation.or (some b) }) _
      fun _ => ⟨rfl, rfl, rfl⟩
  | @detach f hstage =>
    exact hlinked f (fun frame => { frame with continuation := none, disposal := .detached }) _
      fun _ => ⟨rfl, rfl, rfl⟩
  | @discard f hand p ending halive hhand =>
    have hmem : ⟨some f, false⟩ ∈ d.handles :=
      List.mem_append_right _ (hhand ▸ List.mem_cons_self)
    obtain ⟨-, hcreated, hlisted⟩ := hplaced.unstarted f hmem
    refine hplaced.endFrame p ending (hneat.born f halive).1 hlisted
      (fun slot hf => ?_) (fun hf => ?_)
      (hhand ▸ .suffix [_] hand) fun hleft => ?_
    · have := (hplaced.slotted slot f hf).2.1
      rw [hcreated] at this
      cases this
    · exact (hplaced.alone hf).2.2 hmem
    · have := hplaced.owned f
      have := List.count_pos_iff.mpr hleft
      simp only [Desk.handles, hhand, List.count_append, List.count_cons_self] at *
      omega
  | @destroy f p ending hmade hstage =>
    refine hplaced.endFrame p ending hmade (fun hf => ?_) (fun slot hf => ?_)
      (fun hf => ?_) (.refl _)
      fun hf => ?_
    · rcases (hplaced.listed f hf).2 with e | e <;> (rw [e] at hstage; cases hstage)
    · rw [(hplaced.slotted slot f hf).2.1] at hstage
      cases hstage
    · rw [(hplaced.running f hf).2] at hstage
      cases hstage
    · rw [(hplaced.unstarted f hf).2.1] at hstage
      cases hstage
  | resume t hnext hmade halive hstage => exact hplaced.resume t hnext halive _
  | skip hnext => exact hplaced.skip hnext _
  | rest k outer hpolled => exact hplaced.released hpolled k outer
  | @yield f polled k outer hpolled =>
    have hreleased := hplaced.released hpolled k outer
    obtain ⟨halive, hsuspended, hlisted, hvacant, hhandle⟩ := hplaced.freed hpolled k outer
    refine hreleased.enlist (f := f) (fun _ => rfl) (fun _ => rfl) rfl
      (World.defer_listed hreleased.lists k f) halive (.inr hsuspended) hvacant hhandle
  | @park f polled slot k outer hpolled hvacant =>
    obtain ⟨halive, hsuspended, hlisted, hvacant, -⟩ := hplaced.freed hpolled k outer
    exact (hplaced.released hpolled k outer).publish halive hsuspended hlisted hvacant
  | @complete f polled k outer output hpolled =>
    refine hplaced.endPoll hpolled .complete (fun g => ?_) rfl (fun _ => rfl) ?_
    · rw [frame_completed]
      split <;> exact ⟨rfl, rfl⟩
    · refine World.held_congr rfl rfl fun g => ?_
      rw [frame_completed]
      split <;> exact ⟨rfl, rfl⟩
  | @wake c b k hstage hcontinuation hguard =>
    obtain ⟨halive, hsuspended, hvacant⟩ := hguard hstrict
    have hunlinked := hlinked c (fun frame => { frame with continuation := none }) d.asked
      fun _ => ⟨rfl, rfl, rfl⟩
    have hself : ∀ g, ((d.world.modifyFrame c fun frame =>
        { frame with continuation := none }).frame g).alive = (d.world.frame g).alive ∧
        ((d.world.modifyFrame c fun frame =>
          { frame with continuation := none }).frame g).stage = (d.world.frame g).stage := by
      intro g
      rw [World.frame_modifyFrame]
      split <;> exact ⟨rfl, rfl⟩
    refine hunlinked.enqueue k ((hself b).1.trans halive)
      (.inr ((hself b).2.trans hsuspended)) hvacant
      fun hmem => ?_
    have hcreated := (hunlinked.unstarted b hmem).2.1
    rw [(hself b).2, hsuspended] at hcreated
    cases hcreated
  | vacate slot => exact hplaced.vacate slot
  | @unpark f slot k hslot =>
    obtain ⟨halive, hsuspended, hlisted⟩ := hplaced.slotted slot f hslot
    refine (hplaced.vacate slot).enqueue k halive (.inr hsuspended) (fun s hs => ?_) fun hmem => ?_
    · rw [Layout.slot_setSlot] at hs
      split at hs
      · cases hs
      · rename_i hne
        exact hne (hplaced.apart s slot f hs hslot)
    · rw [(hplaced.unstarted f hmem).2.1] at hsuspended
      cases hsuspended
  | @schedule f k hstage hguard =>
    obtain ⟨halive, hrunning, hvacant, hhandle⟩ := hguard hstrict
    refine hplaced.enqueue k halive ?_ hvacant hhandle
    cases hnow : (d.world.frame f).stage with
    | created => exact .inl rfl
    | suspended => exact .inr rfl
    | running => exact absurd hnow hrunning
    | complete => exact absurd hnow hstage

/-! ## Drops -/

/-- A frame that outlives some handles: its body has not returned, and no handle has yet to start
it. -/
structure World.Outlives (g : FrameId) (w : World) (ts : List Task) : Prop where
  born : ∀ f, (w.frame f).alive = true → f < w.frameCount
  alive : (w.frame g).alive = true
  pending : (w.frame g).isComplete = false
  started : ⟨some g, false⟩ ∉ w.held ++ ts

namespace World.Outlives

variable {g : FrameId} {w : World} {t : Task} {ts : List Task}

theorem letGo (h : w.Outlives g (t :: ts)) (p : Place) :
    (w.letGo p t).1.Outlives g ((w.letGo p t).2.getD [] ++ ts) := by
  have hrest : ⟨some g, false⟩ ∉ w.held ++ ts := by
    intro hmem
    refine h.started (List.mem_append.mpr ?_)
    exact (List.mem_append.mp hmem).imp id (List.mem_cons_of_mem t)
  obtain ⟨frame, started⟩ := t
  cases frame with
  | none => exact ⟨h.born, h.alive, h.pending, hrest⟩
  | some f =>
    unfold World.letGo
    simp only
    split
    · rename_i hends
      split
      · rename_i halive
        have hne : g ≠ f := by
          rintro rfl
          have hstarted : started = false := by simpa [h.pending] using hends
          exact h.started (by simp [hstarted])
        have hnoted := World.noteDestroyed_agrees (w.endFrame p f .dropped).1 p (w.frame f).runner
        have hcount := w.count_held_endFrame p (h.born f halive) .dropped ⟨some g, false⟩
        refine ⟨fun x hx => ?_, ?_, ?_, fun hmem => hrest ?_⟩
        · rw [hnoted.frame, World.frame_endFrame] at hx
          rw [hnoted.frameCount, (Layout.endFrame_agrees w p f .dropped).frameCount]
          split at hx
          · cases hx
          · exact h.born x hx
        · rw [hnoted.frame, World.frame_endFrame, if_neg hne]
          exact h.alive
        · rw [hnoted.frame, World.frame_endFrame, if_neg hne]
          exact h.pending
        · have hfreed : (w.endFrame p f .dropped).2 = (w.frame f).heldTasks := rfl
          rw [hnoted.held] at hmem
          have := List.count_pos_iff.mpr hmem
          refine List.count_pos_iff.mp ?_
          simp only [List.count_append, Option.getD_some, hfreed] at *
          omega
      · exact ⟨h.born, h.alive, h.pending, hrest⟩
    · have hframe : ∀ x, (((w.emit (.detach f)).modifyFrame f fun frame =>
          { frame with continuation := none, disposal := .detached }).frame x).alive =
            (w.frame x).alive ∧ (((w.emit (.detach f)).modifyFrame f fun frame =>
          { frame with continuation := none, disposal := .detached }).frame x).isComplete =
            (w.frame x).isComplete := by
        intro x
        rw [World.frame_modifyFrame]
        split <;> exact ⟨rfl, rfl⟩
      refine ⟨fun x hx => h.born x ((hframe x).1 ▸ hx), (hframe g).1.trans h.alive,
        (hframe g).2.trans h.pending, ?_⟩
      rw [World.held_modifyFrame _ rfl]
      exact hrest

theorem dropTasks (h : w.Outlives g ts) (p : Place) :
    ((w.dropTasks p ts).frame g).alive = true := by
  obtain ⟨rest, h⟩ := World.dropTasks_induct (P := fun w ts => w.Outlives g ts) p
    (fun _ _ _ h => h.letGo p) ts h
  exact h.alive

end World.Outlives

/-! ## Runs -/

namespace World

theorem unpublished_iff (w : World) (f : FrameId) :
    (∀ slot, w.slot slot ≠ some f) ↔ ∀ entry ∈ w.slots.entries, w.slot entry.1 ≠ some f := by
  refine ⟨fun h entry _ => h entry.1, fun h slot hslot => ?_⟩
  cases hget : w.slots.get? slot with
  | none => simp [World.slot, hget] at hslot
  | some held =>
    obtain ⟨above, below, hentries, -⟩ := List.lookup_eq_some_iff.mp hget
    exact h (slot, held) (by simp [hentries]) hslot

instance (w : World) (b : FrameId) : Decidable (w.Wakeable b) :=
  decidable_of_iff ((w.frame b).alive = true ∧ (w.frame b).stage = .suspended ∧
      ∀ entry ∈ w.slots.entries, w.slot entry.1 ≠ some b)
    ⟨fun h => ⟨h.1, h.2.1, (w.unpublished_iff b).mpr h.2.2⟩,
      fun h => ⟨h.alive, h.suspended, (w.unpublished_iff b).mp h.unpublished⟩⟩

end World

/-- Whether a frame at a station is on a run list, in a slot or being polled. -/
def Station.engaged : Station → Bool
  | .ready _ | .deferred _ | .parked _ | .polled => true
  | _ => false

namespace Moment

/-- A frame is scheduled by hand only if it is in no slot and has been started, and a body that
returns wakes only a frame that can be woken. -/
def Prudent (m : Moment) : Action → Prop
  | .call op => ∀ f ∈ m.session.scheduled op, (∀ slot, ¬m.At f (.parked slot)) ∧ ¬m.At f .unstarted
  | .step => (∀ s ∈ m.thread.nextStmt m.world, s.schedulesSelf = false) ∧
    ∀ c ∈ m.thread.returning m.world, ∀ b ∈ ((m.thread.ended m.world).frame c).continuation,
      (m.thread.ended m.world).Wakeable b
  | .close => True

instance (m : Moment) (action : Action) : Decidable (m.Prudent action) :=
  match action with
  | .call op =>
    decidable_of_iff (∀ f ∈ m.session.scheduled op,
        (∀ entry ∈ m.world.slots.entries, m.world.slot entry.1 ≠ some f) ∧
        ⟨some f, false⟩ ∉ m.handles)
      (forall₂_congr fun f _ => and_congr_left' (m.world.unpublished_iff f).symm)
  | .step => inferInstanceAs (Decidable ((∀ s ∈ _, _) ∧ ∀ c ∈ _, ∀ b ∈ _, _))
  | .close => inferInstanceAs (Decidable True)

/-- The caller drops a task: its handle is taken out of the world, if there is one. -/
theorem world_drop (m : Moment) (hordered : m.world.tasks.Ordered) (task : String) :
    ∃ w ts, (m.act (.call (.drop task))).world = w.dropTasks Session.place ts ∧ m.world.Alike w ∧
      ∀ t ∈ w.held ++ ts, t ∈ m.handles := by
  have halike : ∀ tasks, m.world.Alike { m.opened.world with tasks } :=
    fun tasks => ⟨fun _ => .refl _, rfl, rfl, rfl, rfl, fun _ => rfl⟩
  simp only [Moment.act, Moment.call, Session.launch, Session.act]
  cases hget : m.world.tasks.get? task with
  | none =>
    refine ⟨m.opened.world, [], ?_, halike m.world.tasks, fun t ht => ?_⟩
    · rw [show m.opened.world.tasks.get? task = none from hget, World.dropTasks_nil]
      rfl
    · rw [List.append_nil] at ht
      exact List.mem_append_left _ ht
  | some t =>
    refine ⟨{ m.opened.world with tasks := m.world.tasks.erase task }, [t], ?_, halike _,
      fun t' ht' => List.mem_append_left _ ?_⟩
    · rw [show m.opened.world.tasks.get? task = some t from hget]
      rfl
    · have hperm := Registers.values_erase_perm hordered hget
      have hold : ∀ x ∈ t :: (m.world.tasks.erase task).values, x ∈ m.world.held :=
        fun x hx => List.mem_append_left _ (hperm.mem_iff.mp hx)
      rcases List.mem_append.mp ht' with ht' | ht'
      · rcases List.mem_append.mp ht' with ht' | ht'
        · exact hold t' (List.mem_cons_of_mem _ ht')
        · exact List.mem_append_right _ ht'
      · exact hold t' (List.mem_singleton.mp ht' ▸ List.mem_cons_self)

/-- The first moment of a run. -/
theorem placed_start (bodies : Registers (List Stmt)) :
    (({ session := { world := { bodies } } } : Moment).desk []).Placed := by
  have hlisted : ∀ f, ¬({ bodies } : World).Listed f := by
    rintro f ⟨q, hf⟩
    rw [show ({ bodies } : World).runLists.toList q = [] from RunLists.toList_empty q] at hf
    cases hf
  exact ⟨RunLists.sound_empty, fun f hf => absurd hf (hlisted f), nofun, nofun,
    nofun, List.nodup_nil,
    fun c => Nat.zero_le 1, nofun⟩

end Moment

/-- A frame that is on a run list, in a slot or being polled has been started and has not returned.
-/
theorem Desk.Placed.of_engaged {m : Moment} {asked : List (FrameId × FrameId)}
    (h : (m.desk asked).Placed) {f : FrameId} {s : Station} (hengaged : s.engaged = true)
    (hf : m.At f s) : (m.world.frame f).alive = true ∧ (m.world.frame f).isComplete = false ∧
      ⟨some f, false⟩ ∉ m.handles := by
  have hlisted : m.world.Listed f → (m.world.frame f).alive = true ∧
      (m.world.frame f).isComplete = false ∧ ⟨some f, false⟩ ∉ m.handles := by
    intro hf
    obtain ⟨halive, hstage⟩ := h.listed f hf
    refine ⟨halive, ?_, fun hmem => (h.unstarted f hmem).2.2 hf⟩
    rcases hstage with e | e <;> (rw [Frame.isComplete]; exact e ▸ rfl)
  cases s with
  | ready k => exact hlisted ⟨readyList k, hf⟩
  | deferred k => exact hlisted ⟨deferredList k, hf⟩
  | parked slot =>
    obtain ⟨halive, hstage, -⟩ := h.slotted slot f hf
    refine ⟨halive, by rw [Frame.isComplete]; exact hstage ▸ rfl, fun hmem => ?_⟩
    cases hstage.symm.trans (h.unstarted f hmem).2.1
  | polled =>
    obtain ⟨halive, hstage⟩ := h.running f hf
    exact ⟨halive, by rw [Frame.isComplete]; exact hstage ▸ rfl, (h.alone hf).2.2⟩
  | unstarted | taken | awaiting | complete => cases hengaged

namespace Reach

variable {m : Moment}

/-- At every moment of a prudent run, frames are in their places. -/
theorem desk_placed (h : Reach Moment.Prudent m) (hlive : m.session.aborted = none) :
    ∃ asked, (m.desk asked).Neat ∧ (m.desk asked).Placed := by
  induction h with
  | start bodies => exact ⟨[], Moment.neat_start bodies, Moment.placed_start bodies⟩
  | @next m action h hcan hprudent ih =>
    obtain ⟨asked, hneat, hplaced⟩ := ih hcan.live
    have hedits : Edits True (m.desk asked)
        ((m.act action).desk (asked ++ m.asks action) (m.pops action)) := by
      refine Moment.entered Edits.ledger h.thread hcan ?_ ?_ ?_ nofun hlive
      · rintro - op rfl f hf
        obtain ⟨hslot, hhandle⟩ := hprudent f hf
        exact ⟨hslot, fun hmem => hhandle (List.mem_append_left _ hmem)⟩
      · rintro - rfl s hs worker rfl
        exact nomatch hprudent.1 _ hs
      · rintro - rfl c hc b hb
        exact hprudent.2 c hc b hb
    obtain ⟨hneat', hplaced'⟩ := hedits.induct (Edit.placed trivial) hneat hplaced
    exact ⟨_, hneat'.unrecorded, hplaced'.unrecorded⟩

/-- At every moment of a prudent run, a frame that is on a run list, in a slot or being polled is
alive, and it stays so when any handles are taken out of the world and dropped, in particular when
the caller drops a task. -/
theorem engaged_frames_survive_drops (h : Reach Moment.Prudent m) (hlive : m.session.aborted = none)
    {f : FrameId} {s : Station} (hengaged : s.engaged = true) (hf : m.At f s) :
    (m.world.frame f).alive = true ∧
      (∀ (w : World) (ts : List Task) (p : Place), m.world.Alike w →
        (∀ t ∈ w.held ++ ts, t ∈ m.handles) → ((w.dropTasks p ts).frame f).alive = true) ∧
      ∀ task, ((m.act (.call (.drop task))).world.frame f).alive = true := by
  obtain ⟨asked, hneat, hplaced⟩ := h.desk_placed hlive
  obtain ⟨halive, hpending, hstarted⟩ := hplaced.of_engaged hengaged hf
  have hdrops : ∀ (w : World) (ts : List Task) (p : Place), m.world.Alike w →
      (∀ t ∈ w.held ++ ts, t ∈ m.handles) → ((w.dropTasks p ts).frame f).alive = true := by
    intro w ts p halike hhandles
    refine World.Outlives.dropTasks ⟨fun g hg => ?_, (halike.frame f).alive.trans halive, ?_,
      fun hmem => hstarted (hhandles _ hmem)⟩ p
    · rw [halike.frameCount]
      exact (hneat.born g ((halike.frame g).alive ▸ hg)).1
    · rw [Frame.isComplete, (halike.frame f).stage]
      exact hpending
  refine ⟨halive, hdrops, fun task => ?_⟩
  obtain ⟨w, ts, hworld, halike, hhandles⟩ := m.world_drop hneat.world.ordered task
  rw [hworld]
  exact hdrops w ts _ halike hhandles

/-- The caller drops the handle of a task that a body awaits, while its frame is in a slot. -/
theorem engaged_frames_survive_drops_joining :
    Reach Moment.Prudent (joining.after joiningActions) ∧
      (joining.after joiningActions).session.aborted = none ∧
      (joining.after joiningActions).At 0 (.parked "s") ∧
      ⟨some 0, true⟩ ∈ (joining.after joiningActions).handles ∧
      (((joining.after joiningActions).world.dropTask {} ⟨some 0, true⟩).frame 0).alive = true ∧
      (((joining.after joiningActions).act (.call (.drop "@t"))).world.frame 0).alive = true := by
  have hreach : Reach Moment.Prudent (joining.after joiningActions) :=
    (Reach.start _).after (by decide +kernel)
  have hlive : (joining.after joiningActions).session.aborted = none := by decide +kernel
  have hparked : (joining.after joiningActions).At 0 (.parked "s") := by
    show (joining.after joiningActions).world.slot "s" = some 0
    decide +kernel
  have hhandles : ∀ t ∈ (joining.after joiningActions).world.held ++ [⟨some 0, true⟩],
      t ∈ (joining.after joiningActions).handles := by
    decide +kernel
  obtain ⟨-, hdrops, hdrop⟩ := engaged_frames_survive_drops hreach hlive rfl hparked
  exact ⟨hreach, hlive, hparked, hhandles _ (List.mem_append_right _ List.mem_cons_self),
    hdrops _ _ {} (.of_agrees (.refl _) fun _ => rfl) hhandles, hdrop "@t"⟩

end Reach

namespace Moment

/-- When the caller drops a task, a frame is destroyed and stays at its station. -/
structure Loses (m : Moment) (task : String) (f : FrameId) (s : Station) : Prop where
  engaged : s.engaged = true
  before : m.At f s
  alive : (m.world.frame f).alive = true
  after : (m.act (.call (.drop task))).At f s
  destroyed : ((m.act (.call (.drop task))).world.frame f).alive = false

end Moment

/-- The frame of a task is scheduled by hand before the task has started it. -/
def hasty : Moment :=
  ({ session := { world := { bodies := Registers.empty.set "f" [] } } } : Moment).after
    [.call (.new "t" "f" 0), .call (.scheduleTask "w" "t")]

/-- A frame on a run list is destroyed with the handle that has yet to start it. -/
theorem queued_frame_lost_with_handle :
    Reach (fun _ _ => True) hasty ∧ hasty.session.aborted = none ∧ hasty.fault = none ∧
      hasty.Loses "t" 0 (.ready 0) := by
  refine ⟨(Reach.start _).after (by decide +kernel), by decide +kernel, by decide +kernel, rfl, ?_,
    by decide +kernel, ?_, by decide +kernel⟩
  · show 0 ∈ hasty.world.runLists.toList (readyList 0)
    decide +kernel
  · show 0 ∈ (hasty.act (.call (.drop "t"))).world.runLists.toList (readyList 0)
    decide +kernel

/-- A frame is scheduled by hand while it is in a slot, and its body returns. -/
def rescheduled : Moment :=
  ({ session := { world := { bodies := Registers.empty.set "f" [.park "a" 0] } } } : Moment).after
    ([.call (.new "t" "f" 0), .call (.start "t" "w"), .call (.pump "w"), .step, .step, .step, .step,
      .call (.scheduleTask "w" "t"), .call (.pump "w"), .step, .step, .step, .step])

/-- A body polls a task once and parks.  The task returns and wakes it, and it returns, too. -/
def awakened : Moment :=
  ({ session := { world := { bodies :=
    (Registers.empty.set "main" [.pollOnce (.task "@t"), .park "a" 0]).set "c" [.park "q" 0] } } } :
      Moment).after
    ([.call (.new "@t" "c" 0), .call (.new "u" "main" 0), .call (.start "u" "w"),
      .call (.pump "w")] ++
      List.replicate 8 .step ++ [.call (.unpark "q" "w"), .call (.pump "w")] ++
      List.replicate 7 .step)

/-- A frame in a slot is destroyed with its handle once its body has returned. -/
theorem published_frames_lost_with_handle :
    (Reach (fun _ _ => True) rescheduled ∧ rescheduled.fault = none ∧
      rescheduled.Loses "t" 0 (.parked "a")) ∧
    Reach (fun _ _ => True) awakened ∧ awakened.fault = none ∧
      awakened.Loses "u" 1 (.parked "a") := by
  refine ⟨⟨(Reach.start _).after (by decide +kernel), by decide +kernel, rfl,
    ?_, by decide +kernel, ?_,
    by decide +kernel⟩, (Reach.start _).after (by decide +kernel), by decide +kernel, rfl, ?_,
    by decide +kernel, ?_, by decide +kernel⟩
  · show rescheduled.world.slot "a" = some 0
    decide +kernel
  · show (rescheduled.act (.call (.drop "t"))).world.slot "a" = some 0
    decide +kernel
  · show awakened.world.slot "a" = some 1
    decide +kernel
  · show (awakened.act (.call (.drop "u"))).world.slot "a" = some 1
    decide +kernel

end Substrate.Coro
