import Mathlib.Logic.Relation
import Substrate.Proofs.Coro.Calls

/-!
# Edits

Whatever happens in a session is made of a few kinds of edits, each of which does
one thing: make a frame, put one on a list, poll it, destroy it, and so on.  What
holds in every run is proved edit by edit; that operations and steps are made of
edits is proved once, in the modules after this one.

* `Desk` is the world in the middle of a step, with what lies outside it.
* `Edit strict` says what each edit does and when it happens.  Under `strict`, two
  edits that a session does not guard are guarded: a frame that is scheduled by
  hand and a frame that is woken are in no other place.
* `Desk.Neat` is what every edit keeps about names and handles.
* `Edits strict` is any number of edits of a neat desk.
-/

namespace Substrate.Coro

/-- Two records of a frame agree on its life, on who disposes of it and on whom it wakes. -/
structure Frame.Alike (fr fr' : Frame) : Prop where
  alive : fr'.alive = fr.alive
  stage : fr'.stage = fr.stage
  disposal : fr'.disposal = fr.disposal
  continuation : fr'.continuation = fr.continuation
  home : fr'.home = fr.home

theorem Frame.Alike.refl (fr : Frame) : fr.Alike fr := ⟨rfl, rfl, rfl, rfl, rfl⟩

/-- No frame is in another place or at another point of its life. -/
structure World.Alike (w w' : World) : Prop where
  frame : ∀ f, (w.frame f).Alike (w'.frame f)
  frameCount : w'.frameCount = w.frameCount
  ends : w'.ends = w.ends
  runLists : w'.runLists = w.runLists
  slots : w'.slots = w.slots
  retired : ∀ k, (w'.worker k).retired = (w.worker k).retired

/-- A wait for several things has no task without a name among them. -/
def Wait.Childless : Wait → Prop
  | .all futures | .any futures => ∀ t, .child t ∉ futures
  | _ => True

theorem Wait.Childless.of_futures {wait : Wait} (h : ∀ t, .child t ∉ wait.futures) :
    wait.Childless := by
  cases wait with
  | all | any => exact h
  | _ => trivial

/-- Names are used once, and only a wait for one thing holds a handle. -/
structure World.Neat (w : World) : Prop where
  ordered : w.tasks.Ordered
  names : ∀ f, ((w.frame f).tasks.map Prod.fst).Nodup
  childless : ∀ f wait, (w.frame f).wait = some wait → wait.Childless

/-- The world in the middle of a step, and what lies outside it. -/
structure Desk where
  /-- Frames, workers and what they share. -/
  world : World
  /-- The handles outside the world. -/
  hand : List Task := []
  /-- The frames being polled, innermost first. -/
  polled : List FrameId := []
  /-- The polls that found a task pending, oldest first: its frame, and the frame that asked. -/
  asked : List (FrameId × FrameId) := []
  /-- The frames whose bodies have returned, latest first. -/
  done : List FrameId := []
  /-- The frames taken from run lists, oldest first, each with the worker that took it. -/
  popped : List (WorkerId × FrameId) := []

/-- The handles in the world and outside it. -/
def Desk.handles (d : Desk) : List Task := d.world.held ++ d.hand

/-- There are no more handles on any frame, and no more that have not started it. -/
def Fewer (handles handles' : List Task) : Prop :=
  ∀ c, handles'.count ⟨some c, false⟩ ≤ handles.count ⟨some c, false⟩ ∧
    handles'.count ⟨some c, false⟩ + handles'.count ⟨some c, true⟩ ≤
      handles.count ⟨some c, false⟩ + handles.count ⟨some c, true⟩

/-- The worker takes back the poll of a body that has returned. -/
def completed (w : World) (k : WorkerId) (f : FrameId) (outer : Option FrameId)
    (output : Option Output) : World :=
  ((Thread.endPoll w k outer).modifyFrame f fun frame =>
    { frame with stage := .complete, output }).modifyWorker k fun worker =>
      { worker with suspension := none }

theorem frame_completed (w : World) (k : WorkerId) (f : FrameId) (outer : Option FrameId)
    (output : Option Output) (g : FrameId) : (completed w k f outer output).frame g =
      if g = f then { w.frame g with stage := .complete, output } else w.frame g :=
  World.frame_modifyFrame w f g _

/-- One thing that happens to a desk. -/
inductive Edit (strict : Prop) (d : Desk) : Desk → Prop
  /-- Bodies, names and counters change, and handles move or go. -/
  | move {w : World} {hand : List Task} (halike : d.world.Alike w) (hneat : w.Neat)
    (hfewer : Fewer d.handles (w.held ++ hand)) : Edit strict d { d with world := w, hand }
  /-- A worker is made. -/
  | recruit (hook : ReleaseHook) : Edit strict d { d with world := (d.world.newWorker hook).1 }
  /-- A task is made. -/
  | make (body : String) (arg : Int) :
    Edit strict d { d with
      world := (d.world.newFrame (some 0) .awaited body arg).1
      hand := ⟨some d.world.frameCount, false⟩ :: d.hand }
  /-- A detached frame is made and put on a list. -/
  | spawn (k : WorkerId) (body : String) (arg : Int) :
    Edit strict d { d with
      world := (d.world.newFrame (some 0) .detached body arg).1.enqueue k d.world.frameCount }
  /-- A handle starts its frame, and counts as started from then on. -/
  | start {f : FrameId} {w : World} {hand : List Task} (k : WorkerId) (halike : d.world.Alike w)
    (hneat : w.Neat) (hfewer : Fewer d.handles (w.held ++ hand))
    (hstarted : (w.held ++ hand).count ⟨some f, false⟩ < d.handles.count ⟨some f, false⟩)
    (hstage : (d.world.frame f).stage ≠ .complete) :
    Edit strict d { d with world := w.enqueue k f, hand }
  /-- Frame `b` polls a task whose frame `c` is pending. -/
  | ask {c : FrameId} (b : FrameId) (hmade : c < d.world.frameCount)
    (hstage : (d.world.frame c).stage ≠ .complete) :
    Edit strict d { d with world := d.world.subscribe c b, asked := d.asked ++ [(c, b)] }
  /-- The handle of a frame in flight is dropped. -/
  | detach {f : FrameId} (hstage : (d.world.frame f).stage ≠ .complete) :
    Edit strict d { d with world := d.world.modifyFrame f fun frame =>
      { frame with continuation := none, disposal := .detached } }
  /-- The handle of a frame that it never started is dropped, and the frame with it. -/
  | discard {f : FrameId} {hand : List Task} (p : Place) (ending : Ending)
    (halive : (d.world.frame f).alive = true) (hhand : d.hand = ⟨some f, false⟩ :: hand) :
    Edit strict d { d with
      world := (d.world.endFrame p f ending).1, hand := (d.world.frame f).heldTasks ++ hand }
  /-- A complete frame is destroyed. -/
  | destroy {f : FrameId} (p : Place) (ending : Ending) (hmade : f < d.world.frameCount)
    (hstage : (d.world.frame f).stage = .complete) :
    Edit strict d { d with
      world := (d.world.endFrame p f ending).1, hand := (d.world.frame f).heldTasks ++ d.hand }
  /-- A worker polls the next frame on its lists. -/
  | resume {k : WorkerId} {f : FrameId} {w : World} (t : Thread)
    (hnext : d.world.nextFrame k = some (f, w)) (hmade : f < d.world.frameCount)
    (halive : (d.world.frame f).alive = true) (hstage : (d.world.frame f).stage ≠ .complete) :
    Edit strict d { d with
      world := (Thread.beginPoll w t k f).1
      polled := f :: d.polled
      popped := d.popped ++ [(k, f)] }
  /-- A worker passes over the next frame on its lists. -/
  | skip {k : WorkerId} {f : FrameId} {w : World} (hnext : d.world.nextFrame k = some (f, w)) :
    Edit strict d { d with world := w, popped := d.popped ++ [(k, f)] }
  /-- A poll ends, and something else is going to wake the frame. -/
  | rest {f : FrameId} {polled : List FrameId} (k : WorkerId) (outer : Option FrameId)
    (hpolled : d.polled = f :: polled) :
    Edit strict d { d with world := released d.world k f outer, polled }
  /-- A poll ends, and the frame waits for its turn. -/
  | yield {f : FrameId} {polled : List FrameId} (k : WorkerId) (outer : Option FrameId)
    (hpolled : d.polled = f :: polled) :
    Edit strict d { d with
      world := ((released d.world k f outer).defer k f).count k
        fun s => { s with yielded := s.yielded + 1 }
      polled }
  /-- A poll ends, and the frame is published in a slot. -/
  | park {f : FrameId} {polled : List FrameId} {slot : String} (k : WorkerId)
    (outer : Option FrameId) (hpolled : d.polled = f :: polled)
    (hvacant : d.world.slot slot = none) :
    Edit strict d { d with world := (released d.world k f outer).setSlot slot (some f), polled }
  /-- A poll ends, and the body has returned. -/
  | complete {f : FrameId} {polled : List FrameId} (k : WorkerId) (outer : Option FrameId)
    (output : Option Output) (hpolled : d.polled = f :: polled) :
    Edit strict d { d with
      world := completed d.world k f outer output
      polled
      done := f :: d.done }
  /-- A complete frame wakes the frame that asked for it. -/
  | wake {c b : FrameId} (k : WorkerId) (hstage : (d.world.frame c).stage = .complete)
    (hcontinuation : (d.world.frame c).continuation = some b)
    (hstrict : strict → (d.world.frame b).alive = true ∧ (d.world.frame b).stage = .suspended ∧
      ∀ slot, d.world.slot slot ≠ some b) :
    Edit strict d { d with
      world :=
      (d.world.modifyFrame c fun frame => { frame with continuation := none }).enqueue k b }
  /-- A slot is emptied. -/
  | vacate (slot : String) : Edit strict d { d with world := d.world.setSlot slot none }
  /-- A frame is taken out of a slot and scheduled. -/
  | unpark {f : FrameId} {slot : String} (k : WorkerId) (hslot : d.world.slot slot = some f) :
    Edit strict d { d with world := (d.world.setSlot slot none).enqueue k f }
  /-- A frame is scheduled by hand. -/
  | schedule {f : FrameId} (k : WorkerId) (hstage : (d.world.frame f).stage ≠ .complete)
    (hstrict : strict → (d.world.frame f).alive = true ∧ (d.world.frame f).stage ≠ .running ∧
      (∀ slot, d.world.slot slot ≠ some f) ∧ ⟨some f, false⟩ ∉ d.handles) :
    Edit strict d { d with world := d.world.enqueue k f }

/-! ## Alike worlds -/

namespace World

theorem Agrees.refl (w : World) : w.Agrees w := ⟨fun _ => rfl, rfl, rfl, rfl, rfl, rfl⟩

theorem Agrees.trans {w w' w'' : World} (h : w.Agrees w') (h' : w'.Agrees w'') : w.Agrees w'' :=
  ⟨fun f => (h'.frame f).trans (h.frame f), h'.frameCount.trans h.frameCount, h'.ends.trans h.ends,
    h'.runLists.trans h.runLists, h'.tasks.trans h.tasks, h'.slots.trans h.slots⟩

theorem emit_agrees (w : World) (e : Event) : w.Agrees (w.emit e) ∧ w.Steady (w.emit e) :=
  ⟨⟨fun _ => rfl, rfl, rfl, rfl, rfl, rfl⟩, .of_workers rfl rfl rfl⟩

theorem count_agrees (w : World) (k : WorkerId) (change : Stats → Stats) :
    w.Agrees (w.count k change) ∧ w.Steady (w.count k change) :=
  ⟨⟨fun _ => rfl, rfl, rfl, rfl, rfl, rfl⟩, w.steady_count k change⟩

theorem Alike.of_agrees {w w' : World} (h : w.Agrees w')
    (hretired : ∀ k, (w'.worker k).retired = (w.worker k).retired) : w.Alike w' :=
  ⟨fun f => by rw [h.frame]; exact .refl _, h.frameCount, h.ends, h.runLists, h.slots, hretired⟩

theorem Alike.modifyFrame (w : World) {f : FrameId} {change : Frame → Frame}
    (h : (w.frame f).Alike (change (w.frame f))) : w.Alike (w.modifyFrame f change) := by
  refine ⟨fun g => ?_, rfl, rfl, rfl, rfl, fun _ => rfl⟩
  rw [frame_modifyFrame]
  split
  · rename_i hg
    exact hg ▸ h
  · exact .refl _

theorem Neat.of_agrees {w w' : World} (h : w.Neat) (hagrees : w.Agrees w') : w'.Neat :=
  ⟨hagrees.tasks ▸ h.ordered, fun f => by rw [hagrees.frame]; exact h.names f,
    fun f => by rw [hagrees.frame]; exact h.childless f⟩

theorem Neat.modifyFrame {w : World} (h : w.Neat) {f : FrameId} {change : Frame → Frame}
    (hnames : ((change (w.frame f)).tasks.map Prod.fst).Nodup)
    (hchildless : ∀ wait, (change (w.frame f)).wait = some wait → wait.Childless) :
    (w.modifyFrame f change).Neat := by
  refine ⟨h.ordered, fun g => ?_, fun g => ?_⟩ <;> rw [frame_modifyFrame]
  · split
    · rename_i hg
      exact hg ▸ hnames
    · exact h.names g
  · split
    · rename_i hg
      exact hg ▸ hchildless
    · exact h.childless g

/-- The handles in the world are those of the same names, bodies and waits. -/
theorem held_congr {w w' : World} (htasks : w'.tasks = w.tasks)
    (hcount : w'.frameCount = w.frameCount)
    (hframe : ∀ g, (w'.frame g).tasks = (w.frame g).tasks ∧ (w'.frame g).wait = (w.frame g).wait) :
    w'.held = w.held := by
  simp only [held, htasks, hcount, Frame.heldTasks, (hframe _).1, (hframe _).2]

/-- The handles in the world do not change with a frame that goes on holding the same ones. -/
theorem held_modifyFrame (w : World) {f : FrameId} {change : Frame → Frame}
    (h : (change (w.frame f)).heldTasks = (w.frame f).heldTasks) :
    (w.modifyFrame f change).held = w.held := by
  have hframe : ∀ g, ((w.modifyFrame f change).frame g).heldTasks = (w.frame g).heldTasks := by
    intro g
    rw [frame_modifyFrame]
    split
    · rename_i hg
      exact hg ▸ h
    · rfl
  simp only [held, hframe]
  rfl

theorem held_enqueue (w : World) (k : WorkerId) (f : FrameId) : (w.enqueue k f).held = w.held := by
  simp only [held, frame_enqueue, enqueue_frameCount, (Layout.enqueue_same w k f).2]

/-- The record of a frame when one is made. -/
theorem frame_newFrame (w : World) (home : Option ThreadId) (disposal : Disposal) (body : String)
    (arg : Int) (g : FrameId) : (w.newFrame home disposal body arg).1.frame g =
      if g = w.frameCount then
        { body, arg, disposal, home, code := (w.bodies.get? body).getD [], alive := true,
          keepsOutput := disposal == .awaited }
      else w.frame g :=
  Table.get_set _ _ _ _

/-- The handles in the world when a frame that holds nothing is made. -/
theorem held_newFrame (w : World) (home : Option ThreadId) (disposal : Disposal) (body : String)
    (arg : Int) : (w.newFrame home disposal body arg).1.held = w.held := by
  have hcount : (w.newFrame home disposal body arg).1.frameCount = w.frameCount + 1 := rfl
  have hsame : ∀ g ∈ List.range w.frameCount,
      ((w.newFrame home disposal body arg).1.frame g).heldTasks = (w.frame g).heldTasks := by
    intro g hg
    rw [frame_newFrame, if_neg (Nat.ne_of_lt (List.mem_range.mp hg))]
  have hnone : ((w.newFrame home disposal body arg).1.frame w.frameCount).heldTasks = [] := by
    rw [frame_newFrame, if_pos rfl]
    rfl
  rw [held, held, hcount, List.range_succ, List.flatMap_append, List.flatMap_cons, hnone,
    List.flatMap_nil, List.append_nil, List.append_nil]
  congr 1
  rw [List.flatMap_def, List.flatMap_def, List.map_congr_left hsame]

theorem frame_endFrame (w : World) (p : Place) (f : FrameId) (ending : Ending) (g : FrameId) :
    (w.endFrame p f ending).1.frame g = if g = f then Layout.gone (w.frame g) else w.frame g :=
  ((Layout.endFrame_agrees w p f ending).frame g).trans (frame_modifyFrame w f g Layout.gone)

/-- What a destroyed frame held is no longer in the world. -/
theorem count_held_endFrame (w : World) (p : Place) {f : FrameId} (hf : f < w.frameCount)
    (ending : Ending) (t : Task) :
    (w.endFrame p f ending).1.held.count t + (w.frame f).heldTasks.count t = w.held.count t := by
  rw [(Layout.endFrame_agrees w p f ending).held]
  exact World.count_held_modifyFrame { w with ends := (f, ending) :: w.ends } hf Layout.gone t

theorem frame_beginPoll (w : World) (t : Thread) (k : WorkerId) (f g : FrameId) :
    (Thread.beginPoll w t k f).1.frame g =
      if g = f then { w.frame g with stage := .running, runner := some k } else w.frame g :=
  frame_modifyFrame w f g _

end World

/-! ## Handles -/

theorem Fewer.refl (l : List Task) : Fewer l l := fun _ => ⟨Nat.le_refl _, Nat.le_refl _⟩

theorem Fewer.of_count {l l' : List Task} (h : ∀ c b, l'.count ⟨some c, b⟩ ≤ l.count ⟨some c, b⟩) :
    Fewer l l' :=
  fun c => ⟨h c false, Nat.add_le_add (h c false) (h c true)⟩

theorem Fewer.suffix (l l' : List Task) : Fewer (l ++ l') l' := by
  refine .of_count fun c b => ?_
  rw [List.count_append]
  exact Nat.le_add_left _ _

theorem Fewer.trans {l l' l'' : List Task} (h : Fewer l l') (h' : Fewer l' l'') : Fewer l l'' :=
  fun c => ⟨Nat.le_trans (h' c).1 (h c).1, Nat.le_trans (h' c).2 (h c).2⟩

/-- A handle without a frame does not count. -/
theorem Fewer.lost {t : Task} (l : List Task) (h : t.frame = none) : Fewer l (t :: l) := by
  have hne : ∀ c b, t ≠ ⟨some c, b⟩ := by
    rintro c b rfl
    cases h
  exact .of_count fun c b => Nat.le_of_eq (List.count_cons_of_ne (hne c b))

/-- A handle counts as started. -/
theorem Fewer.started (f : FrameId) (l : List Task) :
    Fewer (⟨some f, false⟩ :: l) (⟨some f, true⟩ :: l) := by
  intro c
  by_cases hc : f = c
  · simp [hc]
    omega
  · simp [hc]

/-- A handle on a frame was there before. -/
theorem Fewer.exists_mem {l l' : List Task} (h : Fewer l l') {t : Task} (ht : t ∈ l') {f : FrameId}
    (hf : t.frame = some f) : ∃ t' ∈ l, t'.frame = some f := by
  obtain ⟨-, htotal⟩ := h f
  obtain ⟨frame, started⟩ := t
  have hpos : 0 < l'.count ⟨some f, started⟩ := by
    rw [← hf]
    exact List.count_pos_iff.mpr ht
  have hsome : 0 < l.count ⟨some f, false⟩ ∨ 0 < l.count ⟨some f, true⟩ := by
    cases started <;> omega
  rcases hsome with h | h
  · exact ⟨_, List.count_pos_iff.mp h, rfl⟩
  · exact ⟨_, List.count_pos_iff.mp h, rfl⟩

/-- What every edit keeps about names and handles. -/
structure Desk.Neat (d : Desk) : Prop where
  /-- Names are used once, and only a wait for one thing holds a handle. -/
  world : d.world.Neat
  /-- No frame is left on a retire list. -/
  drained : ∀ k, (d.world.worker k).retired = []
  /-- A handle is on a frame that was made. -/
  made : ∀ t ∈ d.handles, ∀ f, t.frame = some f → f < d.world.frameCount
  /-- A frame that is alive was made, and it belongs to the thread. -/
  born : ∀ f, (d.world.frame f).alive = true →
    f < d.world.frameCount ∧ (d.world.frame f).home = some 0
  /-- A frame that is polled was made. -/
  polled : ∀ f ∈ d.polled, f < d.world.frameCount

/-- The record of what was taken from run lists does not matter. -/
theorem Desk.Neat.unrecorded {d : Desk} {popped : List (WorkerId × FrameId)}
    (h : ({ d with popped } : Desk).Neat) : d.Neat :=
  ⟨h.world, h.drained, h.made, h.born, h.polled⟩

namespace Edit

variable {strict : Prop} {d d' : Desk}

theorem neat_of (h : d.Neat) (hneat : d'.world.Neat)
    (hretired : ∀ k, (d'.world.worker k).retired = (d.world.worker k).retired)
    (hcount : d'.world.frameCount = d.world.frameCount) (hfewer : Fewer d.handles d'.handles)
    (hborn : ∀ f, (d'.world.frame f).alive = true →
      (d.world.frame f).alive = true ∧ (d'.world.frame f).home = (d.world.frame f).home)
    (hpolled : ∀ f ∈ d'.polled, f < d.world.frameCount) : d'.Neat := by
  refine ⟨hneat, fun k => (hretired k).trans (h.drained k), fun t ht f hf => ?_, fun f hf => ?_, ?_⟩
  · obtain ⟨t', ht', hf'⟩ := hfewer.exists_mem ht hf
    rw [hcount]
    exact h.made t' ht' f hf'
  · obtain ⟨halive, hhome⟩ := hborn f hf
    rw [hcount, hhome]
    exact h.born f halive
  · rw [hcount]
    exact hpolled

/-- No frame is in another place or at another point of its life. -/
theorem neat_of_alike (h : d.Neat) {w : World} {hand : List Task} (halike : d.world.Alike w)
    (hw : w.Neat) (hfewer : Fewer d.handles (w.held ++ hand)) :
    ({ d with world := w, hand } : Desk).Neat := by
  refine neat_of h hw halike.retired halike.frameCount hfewer (fun f hf => ?_) h.polled
  exact ⟨(halike.frame f).alive ▸ hf, (halike.frame f).home⟩

/-- No body comes to hold or to wait for anything else. -/
theorem neat_of_same (h : d.Neat)
    (hframe : ∀ g, (d'.world.frame g).tasks = (d.world.frame g).tasks ∧
      (d'.world.frame g).wait = (d.world.frame g).wait ∧
      (d'.world.frame g).alive = (d.world.frame g).alive ∧
      (d'.world.frame g).home = (d.world.frame g).home)
    (htasks : d'.world.tasks = d.world.tasks)
    (hretired : ∀ k, (d'.world.worker k).retired = (d.world.worker k).retired)
    (hcount : d'.world.frameCount = d.world.frameCount) (hhand : Fewer d.hand d'.hand)
    (hpolled : ∀ f ∈ d'.polled, f < d.world.frameCount) : d'.Neat := by
  have hheld : d'.world.held = d.world.held :=
    World.held_congr htasks hcount fun g => ⟨(hframe g).1, (hframe g).2.1⟩
  refine neat_of h ⟨htasks ▸ h.world.ordered, fun g => ?_, fun g => ?_⟩ hretired
    hcount ?_ ?_ hpolled
  · rw [(hframe g).1]
    exact h.world.names g
  · rw [(hframe g).2.1]
    exact h.world.childless g
  · intro c
    have := hhand c
    simp only [Desk.handles, hheld, List.count_append]
    omega
  · intro g hg
    rw [(hframe g).2.2.1] at hg
    exact ⟨hg, (hframe g).2.2.2⟩

/-- A frame is made that holds nothing. -/
theorem neat_of_newFrame (h : d.Neat) (disposal : Disposal) (body : String) (arg : Int)
    {hand : List Task} (hhand : ∀ t ∈ hand, t ∈ d.hand ∨ t.frame = some d.world.frameCount) :
    ({ d with world := (d.world.newFrame (some 0) disposal body arg).1, hand } : Desk).Neat := by
  have hframe := d.world.frame_newFrame (some 0) disposal body arg
  refine ⟨⟨h.world.ordered, fun g => ?_, fun g => ?_⟩, h.drained, fun t ht f hf => ?_, fun g => ?_,
    fun f hf => Nat.lt_succ_of_lt (h.polled f hf)⟩
  · show (((d.world.newFrame (some 0) disposal body arg).1.frame g).tasks.map Prod.fst).Nodup
    rw [hframe]
    split
    · exact List.nodup_nil
    · exact h.world.names g
  · show ∀ wait, ((d.world.newFrame (some 0) disposal body arg).1.frame g).wait = some wait → _
    rw [hframe]
    split
    · exact nofun
    · exact h.world.childless g
  · show f < d.world.frameCount + 1
    rcases List.mem_append.mp ht with ht | ht
    · rw [World.held_newFrame] at ht
      exact Nat.lt_succ_of_lt (h.made t (List.mem_append_left _ ht) f hf)
    · rcases hhand t ht with ht | ht
      · exact Nat.lt_succ_of_lt (h.made t (List.mem_append_right _ ht) f hf)
      · rw [ht] at hf
        cases hf
        exact Nat.lt_succ_self _
  · show ((d.world.newFrame (some 0) disposal body arg).1.frame g).alive = true →
      g < d.world.frameCount + 1 ∧
      ((d.world.newFrame (some 0) disposal body arg).1.frame g).home = _
    rw [hframe]
    split
    · rename_i hg
      exact fun _ => ⟨hg ▸ Nat.lt_succ_self _, rfl⟩
    · exact fun halive => ⟨Nat.lt_succ_of_lt (h.born g halive).1, (h.born g halive).2⟩

/-- A frame is put on a list. -/
theorem neat_of_enqueue (h : d.Neat) (k : WorkerId) (f : FrameId) {hand : List Task}
    (hhand : Fewer d.hand hand) : ({ d with world := d.world.enqueue k f, hand } : Desk).Neat :=
  neat_of_same h (fun g => by rw [World.frame_enqueue]; exact ⟨rfl, rfl, rfl, rfl⟩)
    (Layout.enqueue_same d.world k f).2
    (d.world.steady_enqueue k f).retired (d.world.enqueue_frameCount k f) hhand h.polled

/-- A frame is destroyed, and what it held is outside the world. -/
theorem neat_of_endFrame (h : d.Neat) (p : Place) {f : FrameId} (ending : Ending)
    (hmade : f < d.world.frameCount) {hand : List Task} (hhand : Fewer d.hand hand) :
    ({ d with
      world := (d.world.endFrame p f ending).1
      hand := (d.world.frame f).heldTasks ++ hand } : Desk).Neat := by
  have hframe := d.world.frame_endFrame p f ending
  have hcount := d.world.count_held_endFrame p hmade ending
  have hagrees := Layout.endFrame_agrees d.world p f ending
  refine neat_of h ⟨?_, fun g => ?_, fun g => ?_⟩
    (Layout.steady_endFrame d.world p f ending).retired hagrees.frameCount ?_ ?_ h.polled
  · show (d.world.endFrame p f ending).1.tasks.Ordered
    rw [hagrees.tasks]
    exact h.world.ordered
  · rw [hframe]
    split
    · exact List.nodup_nil
    · exact h.world.names g
  · rw [hframe]
    split
    · exact nofun
    · exact h.world.childless g
  · intro c
    have := hhand c
    have := hcount ⟨some c, false⟩
    have := hcount ⟨some c, true⟩
    simp only [Desk.handles, List.count_append]
    omega
  · intro g
    rw [hframe]
    split
    · exact nofun
    · exact fun halive => ⟨halive, rfl⟩

theorem retired_released (w : World) (k : WorkerId) (f : FrameId) (outer : Option FrameId)
    (k' : WorkerId) : ((released w k f outer).worker k').retired = (w.worker k').retired := by
  show (((Thread.endPoll w k outer).modifyWorker k _).worker k').retired = _
  rw [World.worker_modifyWorker, Thread.endPoll, World.worker_modifyWorker]
  split <;> rfl

theorem holds_released (w : World) (k : WorkerId) (f : FrameId) (outer : Option FrameId)
    (g : FrameId) : ((released w k f outer).frame g).tasks = (w.frame g).tasks ∧
      ((released w k f outer).frame g).wait = (w.frame g).wait ∧
      ((released w k f outer).frame g).alive = (w.frame g).alive ∧
      ((released w k f outer).frame g).home = (w.frame g).home := by
  rw [frame_released]
  split <;> exact ⟨rfl, rfl, rfl, rfl⟩

protected theorem neat (h : Edit strict d d') (hneat : d.Neat) : d'.Neat := by
  have hbelow : ∀ {f polled}, d.polled = f :: polled → ∀ g ∈ polled, g < d.world.frameCount :=
    fun hpolled g hg => hneat.polled g (hpolled ▸ List.mem_cons_of_mem _ hg)
  cases h with
  | move halike hw hfewer => exact neat_of_alike hneat halike hw hfewer
  | recruit hook =>
    refine ⟨hneat.world.of_agrees (d.world.newWorker_agrees hook), fun k => ?_, hneat.made,
      hneat.born, hneat.polled⟩
    show ((d.world.workers.set d.world.workerCount { hook }).get k).retired = []
    rw [Table.get_set]
    split
    · rfl
    · exact hneat.drained k
  | make body arg =>
    refine neat_of_newFrame hneat .awaited body arg fun t ht => ?_
    rcases List.mem_cons.mp ht with rfl | ht
    · exact .inr rfl
    · exact .inl ht
  | spawn k body arg =>
    exact neat_of_enqueue (neat_of_newFrame hneat .detached body arg fun t ht => .inl ht) k _
      (.refl _)
  | start k halike hw hfewer hstarted hstage =>
    exact neat_of_enqueue (neat_of_alike hneat halike hw hfewer) k _ (.refl _)
  | ask b hmade hstage =>
    refine neat_of_same hneat (fun g => ?_) rfl (fun _ => rfl) rfl (.refl _) hneat.polled
    rw [World.subscribe, World.frame_modifyFrame]
    split <;> exact ⟨rfl, rfl, rfl, rfl⟩
  | detach hstage =>
    refine neat_of_same hneat (fun g => ?_) rfl (fun _ => rfl) rfl (.refl _) hneat.polled
    rw [World.frame_modifyFrame]
    split <;> exact ⟨rfl, rfl, rfl, rfl⟩
  | discard p ending halive hhand =>
    refine neat_of_endFrame hneat p ending (hneat.born _ halive).1 fun c => ?_
    simp only [hhand, List.count_cons]
    omega
  | destroy p ending hmade hstage => exact neat_of_endFrame hneat p ending hmade (.refl _)
  | @resume k f w t hnext hmade halive hstage =>
    have hsame := World.nextFrame_same hnext
    refine neat_of_same hneat (fun g => ?_) ?_ (fun k' => ?_) ?_ (.refl _) fun g hg => ?_
    · show ((Thread.beginPoll w t k f).1.frame g).tasks = _ ∧ _
      rw [World.frame_beginPoll, hsame]
      split <;> exact ⟨rfl, rfl, rfl, rfl⟩
    · rw [hsame]
      rfl
    · show (((w.emit _).modifyFrame f _).modifyWorker k _ |>.worker k').retired = _
      rw [World.worker_modifyWorker, hsame]
      split <;> rfl
    · rw [hsame]
      rfl
    · rcases List.mem_cons.mp hg with rfl | hg
      · exact hmade
      · exact hneat.polled g hg
  | skip hnext =>
    rw [World.nextFrame_same hnext]
    exact neat_of_same hneat (fun _ => ⟨rfl, rfl, rfl, rfl⟩) rfl (fun _ => rfl) rfl (.refl _)
      hneat.polled
  | @rest f polled k outer hpolled =>
    exact neat_of_same hneat (holds_released d.world k f outer) rfl
      (retired_released d.world k f outer) rfl (.refl _) (hbelow hpolled)
  | @yield f polled k outer hpolled =>
    refine neat_of_same hneat (holds_released d.world k f outer) rfl (fun k' => ?_) rfl (.refl _)
      (hbelow hpolled)
    rw [(World.steady_count _ _ _).retired]
    exact retired_released d.world k f outer k'
  | @park f polled slot k outer hpolled hvacant =>
    exact neat_of_same hneat (holds_released d.world k f outer) rfl
      (retired_released d.world k f outer) rfl (.refl _) (hbelow hpolled)
  | @complete f polled k outer output hpolled =>
    refine neat_of_same hneat (fun g => ?_) rfl (fun k' => ?_) rfl (.refl _) (hbelow hpolled)
    · rw [frame_completed]
      split <;> exact ⟨rfl, rfl, rfl, rfl⟩
    · show (((Thread.endPoll d.world k outer).modifyWorker k _).worker k').retired = _
      rw [World.worker_modifyWorker, Thread.endPoll, World.worker_modifyWorker]
      split <;> rfl
  | @wake c b k hstage hcontinuation hstrict =>
    refine neat_of_enqueue (d := { d with world := d.world.modifyFrame c _ }) ?_ k b (.refl _)
    refine neat_of_same hneat (fun g => ?_) rfl (fun _ => rfl) rfl (.refl _) hneat.polled
    rw [World.frame_modifyFrame]
    split <;> exact ⟨rfl, rfl, rfl, rfl⟩
  | vacate slot =>
    exact neat_of_same hneat (fun _ => ⟨rfl, rfl, rfl, rfl⟩) rfl (fun _ => rfl) rfl (.refl _)
      hneat.polled
  | @unpark f slot k hslot =>
    refine neat_of_enqueue (d := { d with world := d.world.setSlot slot none }) ?_ k f (.refl _)
    exact neat_of_same hneat (fun _ => ⟨rfl, rfl, rfl, rfl⟩) rfl (fun _ => rfl) rfl (.refl _)
      hneat.polled
  | schedule k hstage hstrict => exact neat_of_enqueue hneat k _ (.refl _)

end Edit

/-- A neat desk leads to another one by any number of edits. -/
def Edits (strict : Prop) (d d' : Desk) : Prop := d.Neat → Relation.ReflTransGen (Edit strict) d d'

namespace Edits

variable {strict : Prop} {d d' d'' : Desk}

theorem refl (strict : Prop) (d : Desk) : Edits strict d d := fun _ => .refl

theorem one (h : d.Neat → Edit strict d d') : Edits strict d d' := fun hneat => .single (h hneat)

theorem of_neat (h : d.Neat → Edits strict d d') : Edits strict d d' := fun hneat => h hneat hneat

/-- What every edit keeps, any number of them keeps. -/
theorem induct {P : Desk → Prop} (hedit : ∀ {d d'}, Edit strict d d' → d.Neat → P d → P d')
    (h : Edits strict d d') (hneat : d.Neat) (hd : P d) : d'.Neat ∧ P d' := by
  have hedits := h hneat
  clear h
  induction hedits with
  | refl => exact ⟨hneat, hd⟩
  | tail _ h ih => exact ⟨h.neat ih.1, hedit h ih.1 ih.2⟩

protected theorem neat (h : Edits strict d d') (hneat : d.Neat) : d'.Neat :=
  (h.induct (P := fun _ => True) (fun _ _ _ => trivial) hneat trivial).1

theorem trans (h : Edits strict d d') (h' : Edits strict d' d'') : Edits strict d d'' :=
  fun hneat => (h hneat).trans (h' (h.neat hneat))

end Edits

end Substrate.Coro
