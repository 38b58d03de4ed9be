import Substrate.Proofs.Coro.WorkerChanges
import Substrate.Proofs.Coro.Edits.Handles

/-!
# Ledgers

Most edits leave every frame to those that own it.  The others drop handles, take results, make
frames or dispose of them.  A relation between desks that holds of both kinds, and of one thing done
after another, holds of whatever happens in a session.  That is proved once, in the modules after
this one.

* `handlesOn` counts the handles on a frame, and `World.Calm` says that no frame comes to another
  owner.
* `World.Shrinks` says that frames come to hold no more handles.
* `Ledger strict known` says what a relation has to hold of, and `Edits.ledger` that being made of
  edits is one.
-/

namespace Substrate.Coro

/-! ## Handles on a frame -/

/-- How many of some handles are on a frame. -/
def handlesOn (handles : List Task) (c : FrameId) : Nat :=
  handles.count ⟨some c, false⟩ + handles.count ⟨some c, true⟩

theorem handlesOn_append (l l' : List Task) (c : FrameId) :
    handlesOn (l ++ l') c = handlesOn l c + handlesOn l' c := by
  simp only [handlesOn, List.count_append]
  omega

theorem handlesOn_cons (t : Task) (l : List Task) (c : FrameId) :
    handlesOn (t :: l) c = handlesOn l c + if t.frame = some c then 1 else 0 := by
  obtain ⟨frame, started⟩ := t
  simp only [handlesOn, List.count_cons]
  by_cases hc : frame = some c
  · cases started <;> simp [hc] <;> omega
  · simp [hc]

theorem handlesOn_pos {l : List Task} {t : Task} (ht : t ∈ l) {c : FrameId}
    (hc : t.frame = some c) :
    0 < handlesOn l c := by
  obtain ⟨frame, started⟩ := t
  cases hc
  have := List.count_pos_iff.mpr ht
  unfold handlesOn
  cases started <;> omega

theorem handlesOn_eq_zero {l : List Task} {c : FrameId} (h : ∀ t ∈ l, t.frame ≠ some c) :
    handlesOn l c = 0 := by
  unfold handlesOn
  rw [List.count_eq_zero_of_not_mem fun hmem => h _ hmem rfl,
    List.count_eq_zero_of_not_mem fun hmem => h _ hmem rfl]

theorem handlesOn_congr {l l' : List Task} (h : ∀ x, l'.count x = l.count x) (c : FrameId) :
    handlesOn l' c = handlesOn l c := by
  rw [handlesOn, handlesOn, h, h]

/-! ## What leaves owners alone -/

/-- A frame without a handle that no worker has disposed of. -/
def Frame.orphaned (fr : Frame) : Bool := fr.disposal == .detached && !fr.retired

/-- No frame comes to another owner or is destroyed, and workers count no frame as destroyed. -/
structure World.Calm (w w' : World) : Prop where
  frameCount : w'.frameCount = w.frameCount
  alive : ∀ f, (w'.frame f).alive = (w.frame f).alive
  orphaned : ∀ f, (w'.frame f).orphaned = (w.frame f).orphaned
  runner : ∀ f, (w.frame f).alive = false → (w'.frame f).runner = (w.frame f).runner
  destroyed : ∀ k, (w'.worker k).stats.destroyed ≤ (w.worker k).stats.destroyed

theorem Frame.Kept.orphaned {fr fr' : Frame} (h : fr.Kept fr') : fr'.orphaned = fr.orphaned := by
  rw [Frame.orphaned, Frame.orphaned, h.disposal, h.retired]

namespace World

variable {w w' w'' : World}

namespace Calm

theorem of_kept (hcount : w'.frameCount = w.frameCount)
    (hframe : ∀ f, (w.frame f).Kept (w'.frame f))
    (hdestroyed : ∀ k, (w'.worker k).stats.destroyed ≤ (w.worker k).stats.destroyed) : w.Calm w' :=
  ⟨hcount, fun f => (hframe f).alive, fun f => (hframe f).orphaned, fun f _ => (hframe f).runner,
    hdestroyed⟩

theorem of_still (h : w.Still w') : w.Calm w' := by
  refine .of_kept h.frameCount h.frame fun k => Nat.le_of_eq ?_
  exact congrArg (fun books => books.2.destroyed) (h.books k)

theorem trans (h : w.Calm w') (h' : w'.Calm w'') : w.Calm w'' :=
  ⟨h'.frameCount.trans h.frameCount, fun f => (h'.alive f).trans (h.alive f),
    fun f => (h'.orphaned f).trans (h.orphaned f),
    fun f hf => (h'.runner f ((h.alive f).trans hf)).trans (h.runner f hf),
    fun k => Nat.le_trans (h'.destroyed k) (h.destroyed k)⟩

theorem released (w : World) (k : WorkerId) (f : FrameId) (outer : Option FrameId) :
    w.Calm (Substrate.Coro.released w k f outer) := by
  refine .of_kept rfl (fun g => ?_) fun j => Nat.le_of_eq ?_
  · rw [frame_released]
    split <;> exact ⟨rfl, rfl, rfl, rfl⟩
  · show (((Thread.endPoll w k outer).modifyWorker k _).worker j).stats.destroyed = _
    rw [World.worker_modifyWorker, Thread.endPoll, World.worker_modifyWorker]
    split <;> rfl

theorem completed (w : World) (k : WorkerId) (f : FrameId) (outer : Option FrameId)
    (output : Option Output) : w.Calm (Substrate.Coro.completed w k f outer output) := by
  refine .of_kept rfl (fun g => ?_) fun j => Nat.le_of_eq ?_
  · rw [frame_completed]
    split <;> exact ⟨rfl, rfl, rfl, rfl⟩
  · show (((Thread.endPoll w k outer).modifyWorker k _).worker j).stats.destroyed = _
    rw [World.worker_modifyWorker, Thread.endPoll, World.worker_modifyWorker]
    split <;> rfl

/-- A frame is taken off a list. -/
theorem nextFrame {k : WorkerId} {f : FrameId} (h : w.nextFrame k = some (f, w')) : w.Calm w' := by
  rw [nextFrame_same h]
  exact .of_kept rfl (fun _ => .refl _) fun _ => Nat.le_refl _

/-- A frame that is alive comes to be polled. -/
theorem beginPoll (w : World) (t : Thread) (k : WorkerId) {f : FrameId}
    (halive : (w.frame f).alive = true) : w.Calm (Thread.beginPoll w t k f).1 := by
  refine ⟨rfl, fun g => ?_, fun g => ?_, fun g hg => ?_, fun j => Nat.le_of_eq ?_⟩
  · rw [frame_beginPoll]
    split <;> rfl
  · rw [frame_beginPoll]
    split <;> rfl
  · rw [frame_beginPoll, if_neg]
    rintro rfl
    rw [halive] at hg
    cases hg
  · show ((World.modifyWorker _ k _).worker j).stats.destroyed = _
    rw [World.worker_modifyWorker]
    split <;> rfl

end Calm

/-- A deed that neither drops nor makes anything is calm, whoever does it. -/
theorem Deed.calm (h : Deed False False (fun _ => True) w w') : w.Calm w' := by
  cases h with
  | still h => exact .of_still h
  | @enqueue k f hk =>
    refine .of_kept (w.enqueue_frameCount k f) (fun g => by rw [frame_enqueue]; exact .refl _)
      fun j => ?_
    unfold World.enqueue
    split
    · exact Nat.le_refl _
    · rw [World.count, World.worker_modifyWorker]
      split <;> exact Nat.le_refl _
  | hire hook =>
    refine .of_kept rfl (fun _ => .refl _) fun k => ?_
    show ((w.workers.set w.workerCount { hook }).get k).stats.destroyed ≤ _
    rw [Table.get_set]
    split
    · exact Nat.zero_le _
    · exact Nat.le_refl _
  | rename h => exact .of_kept rfl (fun _ => .refl _) fun _ => Nat.le_refl _
  | make hmakes => exact hmakes.elim
  | finish hdrops => exact hdrops.elim
  | note hdrops => exact hdrops.elim
  | detach hdrops => exact hdrops.elim

theorem Deeds.calm (h : Deeds False False (fun _ => True) w w') : w.Calm w' := by
  induction h with
  | refl => exact .of_still (.elsewhere rfl)
  | tail _ h ih => exact ih.trans h.calm

/-! ## Handles that go -/

/-- Frames hold the handles that they held, or none any more. -/
structure Shrinks (w w' : World) : Prop where
  tasks : w'.tasks = w.tasks
  frameCount : w'.frameCount = w.frameCount
  frame : ∀ g, (w'.frame g).tasks = (w.frame g).tasks ∧ (w'.frame g).wait = (w.frame g).wait ∨
    (w'.frame g).tasks = [] ∧ (w'.frame g).wait = none

namespace Shrinks

variable {w w' w'' : World}

theorem of_same (htasks : w'.tasks = w.tasks) (hcount : w'.frameCount = w.frameCount)
    (hframe : ∀ g, (w'.frame g).tasks = (w.frame g).tasks ∧ (w'.frame g).wait = (w.frame g).wait) :
    w.Shrinks w' := ⟨htasks, hcount, fun g => .inl (hframe g)⟩

theorem trans (h : w.Shrinks w') (h' : w'.Shrinks w'') : w.Shrinks w'' := by
  refine ⟨h'.tasks.trans h.tasks, h'.frameCount.trans h.frameCount, fun g => ?_⟩
  rcases h'.frame g with ⟨htasks, hwait⟩ | hnone
  · rw [htasks, hwait]
    exact h.frame g
  · exact .inr hnone

theorem agrees (h : w.Agrees w') : w.Shrinks w' :=
  .of_same h.tasks h.frameCount fun g => by rw [h.frame]; exact ⟨rfl, rfl⟩

theorem modifyFrame (w : World) (f : FrameId) {change : Frame → Frame}
    (htasks : (change (w.frame f)).tasks = (w.frame f).tasks)
    (hwait : (change (w.frame f)).wait = (w.frame f).wait) :
    w.Shrinks (w.modifyFrame f change) := by
  refine .of_same rfl rfl fun g => ?_
  rw [frame_modifyFrame]
  split
  · rename_i hg
    exact hg ▸ ⟨htasks, hwait⟩
  · exact ⟨rfl, rfl⟩

theorem endFrame (w : World) (p : Place) (f : FrameId) (ending : Ending) :
    w.Shrinks (w.endFrame p f ending).1 := by
  have hagrees := Layout.endFrame_agrees w p f ending
  refine ⟨hagrees.tasks, hagrees.frameCount, fun g => ?_⟩
  rw [frame_endFrame]
  split
  · exact .inr ⟨rfl, rfl⟩
  · exact .inl ⟨rfl, rfl⟩

theorem letGo (w : World) (p : Place) (t : Task) : w.Shrinks (w.letGo p t).1 := by
  unfold World.letGo
  split
  · exact agrees (.refl w)
  · rename_i f _
    simp only
    split
    · split
      · exact (endFrame w p f .dropped).trans (agrees (noteDestroyed_agrees _ p _))
      · exact agrees (.refl w)
    · have hdetached : (w.emit (.detach f)).Shrinks ((w.emit (.detach f)).modifyFrame f fun frame =>
          { frame with continuation := none, disposal := .detached }) := modifyFrame _ f rfl rfl
      exact (agrees (emit_agrees w _).1).trans hdetached

theorem dropTasks (w : World) (p : Place) (ts : List Task) : w.Shrinks (w.dropTasks p ts) :=
  World.dropTasks_keeps (P := w.Shrinks) p (fun w' t h => h.trans (letGo w' p t)) ts
    (agrees (.refl w))

theorem takeOutput (w : World) (p : Place) (t : Task) : w.Shrinks (w.takeOutput p t).1 := by
  unfold World.takeOutput
  split
  · exact agrees (.refl w)
  · rename_i f _
    simp only
    split
    · have hemptied : w.Shrinks (w.modifyFrame f fun frame => { frame with output := none }) :=
        modifyFrame w f rfl rfl
      have hended := hemptied.trans (endFrame _ p f (.taken (w.frame f).output))
      exact (hended.trans (dropTasks _ p _)).trans (agrees (noteDestroyed_agrees _ p _))
    · exact agrees (.refl w)

theorem useOutput (w : World) (p : Place) (f : FrameId) (o : Output) :
    w.Shrinks (w.useOutput p f o) := by
  have hgained : w.Shrinks (w.gain f o.value) := modifyFrame w f rfl rfl
  obtain ⟨log, heq⟩ := Layout.dropOutput_eq (w.gain f o.value) p o
  unfold World.useOutput
  rw [heq]
  exact hgained.trans (.of_same rfl rfl fun _ => ⟨rfl, rfl⟩)

/-- The state of a handle is recorded in both worlds. -/
theorem updateTask (h : w.Shrinks w') (f : FrameId) (name : String) (t : Task) :
    (w.updateTask f name t).Shrinks (w'.updateTask f name t) := by
  unfold World.updateTask
  rw [h.tasks]
  split
  · split
    · exact ⟨rfl, h.frameCount, h.frame⟩
    · exact h
  · refine ⟨h.tasks, h.frameCount, fun g => ?_⟩
    rw [frame_modifyFrame, frame_modifyFrame]
    split
    · rename_i hg
      subst hg
      rcases h.frame g with ⟨htasks, hwait⟩ | ⟨htasks, hwait⟩
      · exact .inl ⟨by simp only [Frame.setTask, htasks], hwait⟩
      · exact .inr ⟨by simp only [Frame.setTask, htasks, List.map_nil], hwait⟩
    · exact h.frame g

theorem setWait (h : w.Shrinks w') (f : FrameId) :
    (w.setWait f none).Shrinks (w'.setWait f none) := by
  refine ⟨h.tasks, h.frameCount, fun g => ?_⟩
  rw [World.setWait, World.setWait, frame_modifyFrame, frame_modifyFrame]
  split
  · exact (h.frame g).imp (fun hsame => ⟨hsame.1, rfl⟩) fun hnone => ⟨hnone.1, rfl⟩
  · exact h.frame g

theorem handlesOn_le (h : w.Shrinks w') (c : FrameId) : handlesOn w'.held c ≤
    handlesOn w.held c := by
  have hframe : ∀ g x, (w'.frame g).heldTasks.count x ≤ (w.frame g).heldTasks.count x := by
    intro g x
    rcases h.frame g with ⟨htasks, hwait⟩ | ⟨htasks, hwait⟩
    · exact Nat.le_of_eq (by rw [Frame.heldTasks, Frame.heldTasks, htasks, hwait])
    · rw [Frame.heldTasks, htasks, hwait]
      exact Nat.zero_le _
  have hflat : ∀ (l : List FrameId) x, (l.flatMap fun g => (w'.frame g).heldTasks).count x ≤
      (l.flatMap fun g => (w.frame g).heldTasks).count x := by
    intro l x
    induction l with
    | nil => exact Nat.le_refl _
    | cons g rest ih =>
      simp only [List.flatMap_cons, List.count_append]
      exact Nat.add_le_add (hframe g x) ih
  have hheld : ∀ x, w'.held.count x ≤ w.held.count x := by
    intro x
    rw [World.count_held, World.count_held, h.tasks, h.frameCount]
    exact Nat.add_le_add_left (hflat _ x) _
  exact Nat.add_le_add (hheld _) (hheld _)

end Shrinks

/-- One handle less is on a frame once the handle that a body means by a name has lost it. -/
theorem Neat.handlesOn_updateTask {w : World} (h : w.Neat) {f c : FrameId} (hf : f < w.frameCount)
    {name : String} {t t' : Task} (hfind : w.findTask f name = some t) (hc : t.frame = some c)
    (hlost : t'.frame = none) : handlesOn (w.updateTask f name t').held c + 1 =
    handlesOn w.held c := by
  have hcount : handlesOn (w.updateTask f name t').held c + handlesOn [t] c =
      handlesOn w.held c + handlesOn [t'] c := by
    have := h.count_updateTask hf hfind t' ⟨some c, false⟩
    have := h.count_updateTask hf hfind t' ⟨some c, true⟩
    simp only [handlesOn]
    omega
  have hnil : handlesOn [] c = 0 := rfl
  have hno : t'.frame ≠ some c := fun e => by rw [hlost] at e; cases e
  rw [handlesOn_cons, handlesOn_cons, hnil, if_pos hc, if_neg hno] at hcount
  omega

/-- One handle less is on a frame once the body that waited for its task waits for nothing. -/
theorem handlesOn_setWait (w : World) {f c : FrameId} (hf : f < w.frameCount) {t : Task}
    (hwait : (w.frame f).wait = some (.one (.child t))) (hc : t.frame = some c) :
    handlesOn (w.setWait f none).held c + 1 = handlesOn w.held c := by
  have hheld : (w.frame f).heldTasks = t :: (w.frame f).tasks.map Prod.snd := by
    rw [Frame.heldTasks, hwait]
    rfl
  have hcount : handlesOn (w.setWait f none).held c + handlesOn (w.frame f).heldTasks c =
      handlesOn w.held c + handlesOn ((w.frame f).tasks.map Prod.snd) c := by
    have hmodified := w.count_held_modifyFrame hf fun frame => { frame with wait := none }
    have := hmodified ⟨some c, false⟩
    have := hmodified ⟨some c, true⟩
    simp only [World.setWait, handlesOn, Frame.heldTasks, Frame.waitTasks, List.nil_append] at *
    omega
  rw [hheld, handlesOn_cons, if_pos hc] at hcount
  omega

end World

/-! ## Frames that retire -/

/-- The world once worker `k` has taken the one frame off its retire list again. -/
def cleared (w : World) (k : WorkerId) (f : FrameId) : World :=
  ((retiring w k f).modifyWorker k fun worker => { worker with retired := [] }).emit
    (.destroyRetired f)

theorem World.cleared_agrees (w : World) {k : WorkerId} {f : FrameId}
    (hretired : (w.worker k).retired = []) :
    (w.modifyFrame f fun frame => { frame with retired := true }).Agrees (cleared w k f) ∧
      ∀ k', ((cleared w k f).worker k').retired = (w.worker k').retired := by
  refine ⟨⟨fun _ => rfl, rfl, rfl, rfl, rfl, rfl⟩, fun k' => ?_⟩
  obtain ⟨stats, e⟩ := worker_retiring w k f k'
  rw [cleared, (World.emit_agrees _ _).2.retired, World.worker_modifyWorker, e]
  split
  · rename_i hk
    rw [hk, hretired]
  · rfl

/-- A frame that retires is destroyed at once. -/
theorem World.drainRetired_retiring (w : World) (p : Place) {k : WorkerId} {f : FrameId}
    (hretired : (w.worker k).retired = []) : (retiring w k f).drainRetired p k =
      ((cleared w k f).destroy p f .retired).count k
        fun s => { s with destroyed := s.destroyed + 1 } := by
  have hlist : ((retiring w k f).worker k).retired = [f] := by
    obtain ⟨stats, e⟩ := worker_retiring w k f k
    rw [e, if_pos rfl]
    exact congrArg (f :: ·) hretired
  unfold World.drainRetired
  simp only [hlist, List.foldl_cons, List.foldl_nil, List.length_singleton]
  rfl

/-- A complete frame is disposed of by its worker at once. -/
theorem Edits.retire {strict : Prop} {d : Desk} {k : WorkerId} {f : FrameId} (p : Place)
    (hmade : f < d.world.frameCount)
    (hstage : (d.world.frame f).stage = .complete) :
    Edits strict d { d with world := (retiring d.world k f).drainRetired p k } := by
  refine .of_neat fun hneat => ?_
  obtain ⟨hagrees, hretired⟩ := World.cleared_agrees d.world (f := f) (hneat.drained k)
  rw [World.drainRetired_retiring d.world p (hneat.drained k)]
  generalize cleared d.world k f = w at hagrees hretired
  have hmarked : Edits strict d { d with
      world := d.world.modifyFrame f fun frame => { frame with retired := true } } :=
    .touch ⟨rfl, rfl, rfl, rfl, rfl⟩ rfl rfl
  have hcomplete : (w.frame f).stage = .complete := by
    rw [hagrees.frame, World.frame_modifyFrame, if_pos rfl]
    exact hstage
  have hmade' : f < w.frameCount := hagrees.frameCount ▸ hmade
  have hdestroyed :=
    (hmarked.trans (.agrees hagrees hretired)).trans (.destroy p .retired hmade' hcomplete)
  obtain ⟨hcount, hcount'⟩ := (w.destroy p f .retired).count_agrees k
    fun s => { s with destroyed := s.destroyed + 1 }
  exact hdestroyed.trans (.agrees hcount hcount'.retired)

/-! ## Ledgers -/

/-- What a relation between desks holds of if it holds of whatever happens in a session.  Under
`known`, the frame that a worker disposes of is one that it polled last. -/
structure Ledger (strict known : Prop) (R : Desk → Desk → Prop) : Prop where
  trans {d d' d'' : Desk} : R d d' → R d' d'' → R d d''
  of_neat {d d' : Desk} : (d.Neat → R d d') → R d d'
  /-- No frame comes to another owner. -/
  calm {d d' : Desk} : Edits strict d d' → (d.Neat → d.world.Calm d'.world) → R d d'
  /-- Handles outside the world are dropped. -/
  dropTasks {d : Desk} (p : Place) (ts : List Task) {hand : List Task} : d.hand = ts ++ hand →
    R d { d with world := d.world.dropTasks p ts, hand }
  /-- The result of a complete frame is taken through a handle, and then the handle goes. -/
  spend {d d' : Desk} (p : Place) {t : Task} {c : FrameId} : t ∈ d.handles → t.frame = some c →
    (d.world.frame c).stage = .complete →
    Edits strict { d with world := (d.world.takeOutput p t).1 } d' →
    (d.world.takeOutput p t).1.Calm d'.world →
    (d.Neat → handlesOn d'.handles c + 1 ≤ handlesOn d.handles c) → R d d'
  newTask {d : Desk} (p : Place) (body : String) (arg : Int) : p.thread = 0 →
    R d { d with
      world := (d.world.newTask p body arg).1
      hand := (d.world.newTask p body arg).2 :: d.hand }
  spawnDetached {d : Desk} (p : Place) (k : WorkerId) (body : String) (arg : Int) : p.thread = 0 →
    R d { d with world := d.world.spawnDetached p k body arg }
  /-- A complete frame that has lost its handle is disposed of by its worker. -/
  retire {d : Desk} {k : WorkerId} {f : FrameId} (p : Place) : f < d.world.frameCount →
    (d.world.frame f).stage = .complete → (known → (d.world.frame f).runner = some k) →
    (d.world.frame f).orphaned = true →
    R d { d with world := (retiring d.world k f).drainRetired p k }

/-- Being made of edits. -/
theorem Edits.ledger {strict : Prop} : Ledger strict False (Edits strict) where
  trans := .trans
  of_neat := .of_neat
  calm h _ := h
  dropTasks := .dropTasks
  spend p _ _ ht _ _ h _ _ := .of_neat fun hneat => (Edits.takeOutput p (hneat.made _ ht)).trans h
  newTask p body arg hp := .newTask p hp body arg
  spawnDetached p k body arg hp := .spawnDetached p hp k body arg
  retire p hmade hstage _ _ := .retire p hmade hstage

namespace Ledger

variable {strict known : Prop} {R : Desk → Desk → Prop} (L : Ledger strict known R) {d d' : Desk}
  {f : FrameId} {name : String} {t : Task}
include L

/-- Code that neither drops nor makes anything. -/
theorem deeds (h : Edits strict d d')
    (hdeeds : World.Deeds False False (fun _ => True) d.world d'.world) : R d d' :=
  L.calm h fun _ => hdeeds.calm

theorem refl (d : Desk) : R d d := L.deeds (.refl strict d) (.refl _ _ _ _)

/-- Handles outside the world go. -/
theorem forget {hand : List Task} (h : Fewer d.hand hand) : R d { d with hand } :=
  L.deeds (.forget h) (.refl _ _ _ _)

/-- Neither frames nor workers nor the tasks known to everyone change. -/
theorem elsewhere {w : World} (h : w = { w with
      workers := d.world.workers, workerCount := d.world.workerCount
      workerNames := d.world.workerNames, frames := d.world.frames
      frameCount := d.world.frameCount, runLists := d.world.runLists, tasks := d.world.tasks
      slots := d.world.slots, ends := d.world.ends }) : R d { d with world := w } := by
  rw [h]
  exact L.deeds (.agrees ⟨fun _ => rfl, rfl, rfl, rfl, rfl, rfl⟩ fun _ => rfl) (.elsewhere rfl)

/-- A body computes. -/
theorem compute {change : Frame → Frame} (h : ∃ acc guard code,
      change (d.world.frame f) = { d.world.frame f with acc, guard, code }) :
    R d { d with world := d.world.modifyFrame f change } := by
  obtain ⟨acc, guard, code, e⟩ := h
  refine L.deeds (.touch ?_ ?_ ?_) (.touch ?_) <;> rw [e]
  · exact ⟨rfl, rfl, rfl, rfl, rfl⟩
  · exact ⟨rfl, rfl, rfl, rfl⟩

theorem say (p : Place) (text : String) : R d { d with world := d.world.say p text } :=
  L.elsewhere rfl

theorem dropOutput (p : Place) (o : Output) : R d { d with world := d.world.dropOutput p o } := by
  obtain ⟨log, heq⟩ := Layout.dropOutput_eq d.world p o
  rw [heq]
  exact L.elsewhere rfl

theorem useOutput (p : Place) (o : Output) : R d { d with world := d.world.useOutput p f o } := by
  have hgained : R d { d with world := d.world.gain f o.value } := L.compute ⟨_, _, _, rfl⟩
  exact L.trans hgained (L.dropOutput p o)

theorem newWorker (hook : ReleaseHook) : R d { d with world := (d.world.newWorker hook).1 } :=
  L.deeds (.newWorker hook) (.newWorker hook)

theorem namedWorker (name : String) : R d { d with world := (d.world.namedWorker name).1 } :=
  L.deeds (.namedWorker name) (.namedWorker name)

theorem beside {w : World} (h : d.world.Beside w) : R d { d with world := w } := by
  rw [h.same]
  exact L.elsewhere rfl

theorem request {p : Place} {s : Suspension} {w : World} (h : d.world.request p s = .ok w) :
    R d { d with world := w } := by
  unfold World.request at h
  split at h
  · cases h
  · cases h
    refine L.deeds (.agrees ⟨fun _ => rfl, rfl, rfl, rfl, rfl, rfl⟩ fun k => ?_)
      (.still (.modifyWorker _ rfl))
    rw [World.worker_modifyWorker]
    split <;> rfl

/-! ### Handles under names -/

theorem dropTask (p : Place) (t : Task) {hand : List Task} (hhand : d.hand = t :: hand) :
    R d { d with world := d.world.dropTask p t, hand } :=
  L.dropTasks p [t] hhand

/-- The handle that a body means by a name changes places with one outside the world. -/
theorem updateTask (hf : f ∈ d.polled) (hfind : d.world.findTask f name = some t) {t' : Task}
    {hand : List Task} (hfewer : Fewer (t :: d.hand) (t' :: hand)) :
    R d { d with world := d.world.updateTask f name t', hand } :=
  L.deeds (.updateTask hf hfind hfewer) (.updateTask f name t')

/-- The handle that a body means by a name starts its frame. -/
theorem startTask (hf : f ∈ d.polled) {c : FrameId}
    (hfind : d.world.findTask f name = some ⟨some c, false⟩) (k : WorkerId)
    (hstage : (d.world.frame c).stage ≠ .complete) :
    R d { d with world := (d.world.enqueue k c).updateTask f name ⟨some c, true⟩ } :=
  L.deeds (.startTask hf hfind k hstage)
    ((World.Deeds.enqueue (.inl trivial) c).trans (.updateTask f name _))

theorem removeTask (hf : f ∈ d.polled) (hfind : d.world.findTask f name = some t) :
    R d { d with world := d.world.removeTask f name, hand := t :: d.hand } :=
  L.deeds (.removeTask hf hfind) (.removeTask f name)

/-- A handle is taken out of a name known to everyone. -/
theorem unshareTask (hget : d.world.tasks.get? name = some t) :
    R d { d with world := { d.world with tasks := d.world.tasks.erase name }
                 hand := t :: d.hand } :=
  L.deeds (.unshareTask hget) (.elsewhere rfl)

/-- A handle goes under the name by which a body means it, and what was there is dropped. -/
theorem addTask (p : Place) (hf : f ∈ d.polled) {hand : List Task} (hhand : d.hand = t :: hand) :
    R d { d with world := d.world.addTask p f name t, hand } := by
  have hstored : R d _ := L.deeds (.storeTask hf hhand name) (.storeTask f name t)
  unfold World.addTask
  simp only
  cases hfind : d.world.findTask f name with
  | none =>
    rw [hfind] at hstored
    exact hstored
  | some old =>
    rw [hfind] at hstored
    exact L.trans hstored (L.dropTask p old rfl)

/-- The result of the task that a body means by a name is taken. -/
theorem spendNamed (hf : f ∈ d.polled) (p : Place) (hfind : d.world.findTask f name = some t)
    {c : FrameId} (hframe : t.frame = some c) (hstage : (d.world.frame c).stage = .complete) :
    R d { d with
      world := (d.world.takeOutput p t).1.updateTask f name { t with frame := none } } := by
  refine L.of_neat fun hneat => ?_
  have hmade := hneat.polled f hf
  have hmem : t ∈ d.handles := List.mem_append_left _ (Layout.mem_held_of_findTask hmade hfind)
  refine L.spend p hmem hframe hstage (.spendTask hf rfl)
    (World.Deeds.calm (.updateTask f name _)) fun _ => ?_
  have hle := ((World.Shrinks.takeOutput d.world p t).updateTask f name
    { t with frame := none }).handlesOn_le c
  have hlost : handlesOn (d.world.updateTask f name { t with frame := none }).held c + 1 = _ :=
    hneat.world.handlesOn_updateTask hmade hfind hframe rfl
  simp only [Desk.handles, handlesOn_append]
  omega

end Ledger

end Substrate.Coro
