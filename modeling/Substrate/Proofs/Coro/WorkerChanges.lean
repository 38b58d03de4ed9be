import Mathlib.Logic.Relation
import Substrate.Proofs.Coro.Edits.WorldEdits
import Substrate.Proofs.Coro.Requests
import Substrate.Proofs.Coro.BodyInvariants
import Substrate.Proofs.Coro.Whereabouts

/-!
# Changes to workers and run lists

What code does to workers and run lists is made of a few kinds of deeds: frames become ready,
workers are hired, frames are made, and those that are destroyed are counted.  What holds of the
counters of the workers is proved deed by deed.

* `World.Deed drops makes crew` is one deed of code that has entered workers of `crew` only.
  Without `drops`, no handle is dropped and no result is taken.
* `World.Deeds.walk` says that code is made of deeds.
* `World.Deeds.ran`: code polls no frame itself.
-/

namespace Substrate.Coro

/-- What a worker has to account for: the frames it is to dispose of, and what it has counted apart
from the polls that ended in a slot. -/
def Worker.books (worker : Worker) : List FrameId × Stats :=
  (worker.retired, { worker.stats with parked := 0 })

/-- Two records of a frame agree on who polled it last, on who disposes of it and on whether that
was done. -/
structure Frame.Kept (fr fr' : Frame) : Prop where
  runner : fr'.runner = fr.runner
  disposal : fr'.disposal = fr.disposal
  retired : fr'.retired = fr.retired
  alive : fr'.alive = fr.alive

theorem Frame.Kept.refl (fr : Frame) : fr.Kept fr := ⟨rfl, rfl, rfl, rfl⟩

theorem Frame.Kept.trans {fr fr' fr'' : Frame} (h : fr.Kept fr') (h' : fr'.Kept fr'') :
    fr.Kept fr'' :=
  ⟨h'.runner.trans h.runner, h'.disposal.trans h.disposal, h'.retired.trans h.retired,
    h'.alive.trans h.alive⟩

/-- The worker entered at a place, if any, is one of `crew`. -/
def Place.Within (p : Place) (crew : WorkerId → Prop) : Prop := ∀ k, p.worker = some k → crew k

namespace World

/-- Nothing happens to run lists, nor to the books of the workers, and no frame is made. -/
structure Still (w w' : World) : Prop where
  books : ∀ k, (w'.worker k).books = (w.worker k).books
  frame : ∀ f, (w.frame f).Kept (w'.frame f)
  runLists : w'.runLists = w.runLists
  workerCount : w'.workerCount = w.workerCount
  workerNames : w'.workerNames = w.workerNames
  frameCount : w'.frameCount = w.frameCount

namespace Still

variable {w w' w'' : World}

theorem trans (h : w.Still w') (h' : w'.Still w'') : w.Still w'' :=
  ⟨fun k => (h'.books k).trans (h.books k), fun f => (h.frame f).trans (h'.frame f),
    h'.runLists.trans h.runLists, h'.workerCount.trans h.workerCount,
    h'.workerNames.trans h.workerNames, h'.frameCount.trans h.frameCount⟩

/-- Neither workers nor frames change. -/
theorem elsewhere (h : w' = { w' with
      workers := w.workers, workerCount := w.workerCount, workerNames := w.workerNames
      frames := w.frames, frameCount := w.frameCount, runLists := w.runLists }) :
    w.Still w' := by
  rw [h]
  exact ⟨fun _ => rfl, fun _ => .refl _, rfl, rfl, rfl, rfl⟩

theorem modifyFrame (w : World) {f : FrameId} {change : Frame → Frame}
    (h : (w.frame f).Kept (change (w.frame f))) : w.Still (w.modifyFrame f change) := by
  refine ⟨fun _ => rfl, fun g => ?_, rfl, rfl, rfl, rfl⟩
  rw [World.frame_modifyFrame]
  split
  · rename_i hg
    exact hg ▸ h
  · exact .refl _

theorem modifyWorker (w : World) {k : WorkerId} {change : Worker → Worker}
    (h : (change (w.worker k)).books = (w.worker k).books) : w.Still (w.modifyWorker k change) := by
  refine ⟨fun j => ?_, fun _ => .refl _, rfl, rfl, rfl, rfl⟩
  rw [World.worker_modifyWorker]
  split
  · rename_i hj
    exact hj ▸ h
  · rfl

/-- A worker with nothing to dispose of disposes of nothing. -/
theorem drainRetired (w : World) (p : Place) {k : WorkerId} (h : (w.worker k).retired = []) :
    w.Still (w.drainRetired p k) := by
  rw [w.drainRetired_eq p h]
  refine (modifyWorker w ?_).trans (modifyWorker _ rfl)
  simp only [Worker.books, h]

theorem dropWorker (w : World) (p : Place) {k : WorkerId} (h : (w.worker k).retired = []) :
    w.Still (w.dropWorker p k) := by
  unfold World.dropWorker
  simp only
  split
  · exact drainRetired w p h
  · exact (drainRetired w p h).trans (.elsewhere rfl)

end Still

/-- One thing that code does to workers, run lists or the number of frames. -/
inductive Deed (drops makes : Prop) (crew : WorkerId → Prop) (w : World) : World → Prop
  /-- Everything else. -/
  | still {w' : World} (h : w.Still w') : Deed drops makes crew w w'
  /-- A frame becomes ready, unless it is on a list. -/
  | enqueue {k : WorkerId} (f : FrameId) (hk : w.Knows crew k) : Deed drops makes crew
      w (w.enqueue k f)
  /-- A worker is hired. -/
  | hire (hook : ReleaseHook) : Deed drops makes crew w (w.newWorker hook).1
  /-- Workers lose their names, or the last one hired gets one. -/
  | rename {names : Registers WorkerId}
    (h : ∀ name k, names.get? name = some k →
      w.workerNames.get? name = some k ∨ k + 1 = w.workerCount) :
    Deed drops makes crew w { w with workerNames := names }
  /-- A frame is made. -/
  | make (hmakes : makes) (home : Option ThreadId) (disposal : Disposal)
      (body : String) (arg : Int) :
    Deed drops makes crew w (w.newFrame home disposal body arg).1
  /-- A frame is destroyed. -/
  | finish (hdrops : drops) (p : Place) (f : FrameId) (ending : Ending) :
    Deed drops makes crew w (w.endFrame p f ending).1
  /-- A destroyed frame is counted. -/
  | note (hdrops : drops) {k : WorkerId} (hk : crew k) :
    Deed drops makes crew w (w.count k fun s => { s with destroyed := s.destroyed + 1 })
  /-- A frame in flight loses its handle. -/
  | detach (hdrops : drops) (f : FrameId) :
    Deed drops makes crew w (w.modifyFrame f fun frame =>
      { frame with continuation := none, disposal := .detached })

/-- Any number of deeds. -/
def Deeds (drops makes : Prop) (crew : WorkerId → Prop) : World → World → Prop :=
  Relation.ReflTransGen (Deed drops makes crew)

namespace Deeds

variable {drops makes : Prop} {crew : WorkerId → Prop} {p : Place} {w w' w'' : World} {k : WorkerId}

theorem refl (drops makes : Prop) (crew : WorkerId → Prop) (w : World) :
    Deeds drops makes crew w w :=
  Relation.ReflTransGen.refl

theorem trans (h : Deeds drops makes crew w w') (h' : Deeds drops makes crew w' w'') :
    Deeds drops makes crew w w'' :=
  Relation.ReflTransGen.trans h h'

theorem one (h : Deed drops makes crew w w') : Deeds drops makes crew w w' := .single h

theorem still (h : w.Still w') : Deeds drops makes crew w w' := .one (.still h)

/-- Neither workers nor frames change. -/
theorem elsewhere (h : w' = { w' with
      workers := w.workers, workerCount := w.workerCount, workerNames := w.workerNames
      frames := w.frames, frameCount := w.frameCount, runLists := w.runLists }) :
    Deeds drops makes crew w w' := .still (.elsewhere h)

/-- The record of a frame changes, but not who disposes of it. -/
theorem touch {f : FrameId} {change : Frame → Frame} (h : (w.frame f).Kept (change (w.frame f))) :
    Deeds drops makes crew w (w.modifyFrame f change) := .still (.modifyFrame w h)

/-! ## Workers and run lists -/

theorem newWorker (hook : ReleaseHook) : Deeds drops makes crew w (w.newWorker hook).1 :=
  .one (.hire hook)

theorem nameWorker (name : String) (hook : ReleaseHook) :
    Deeds drops makes crew w { (w.newWorker hook).1 with
      workerNames := w.workerNames.set name (w.newWorker hook).2 } := by
  refine (newWorker hook).trans (.one (.rename fun other k hother => ?_))
  rw [Registers.get?_set] at hother
  split at hother
  · cases hother
    exact .inr rfl
  · exact .inl hother

theorem namedWorker (name : String) : Deeds drops makes crew w (w.namedWorker name).1 := by
  unfold World.namedWorker
  split
  · exact .refl drops makes crew w
  · exact nameWorker name .unlock

theorem newTask (hmakes : makes) (p : Place) (body : String) (arg : Int) :
    Deeds drops makes crew w (w.newTask p body arg).1 := .one (.make hmakes _ _ _ _)

theorem enqueue (hk : w.Knows crew k) (f : FrameId) : Deeds drops makes crew w (w.enqueue k f) :=
  .one (.enqueue f hk)

/-! ## Handles -/

theorem noteDestroyed (hdrops : drops) (hp : p.Within crew) (runner : Option WorkerId) :
    Deeds drops makes crew w (w.noteDestroyed p runner) := by
  unfold World.noteDestroyed
  split
  · exact .refl drops makes crew w
  · rename_i k hk
    split
    · exact .one (.note hdrops (hp k hk))
    · exact .refl drops makes crew w

theorem updateTask (f : FrameId) (name : String) (t : Task) :
    Deeds drops makes crew w (w.updateTask f name t) := by
  unfold World.updateTask
  split
  · split
    · exact .elsewhere rfl
    · exact .refl drops makes crew w
  · exact .touch ⟨rfl, rfl, rfl, rfl⟩

theorem removeTask (f : FrameId) (name : String) :
    Deeds drops makes crew w (w.removeTask f name) := by
  unfold World.removeTask
  split
  · exact .elsewhere rfl
  · exact .touch ⟨rfl, rfl, rfl, rfl⟩

theorem storeTask (f : FrameId) (name : String) (t : Task) :
    Deeds drops makes crew w (if World.isShared name then { w with tasks := w.tasks.set name t }
      else w.modifyFrame f (·.addTask name t)) := by
  split
  · exact .elsewhere rfl
  · exact .touch ⟨rfl, rfl, rfl, rfl⟩

/-! ## Code -/

theorem handling (w : World) (hp : p.Within crew) :
    Handling p drops (fun _ => True) (Deeds drops makes crew w) where
  beside h hbeside := h.trans (.elsewhere (by rw [hbeside.same]))
  named name h := h.trans (namedWorker name)
  enqueue h _ hk := h.trans (enqueue (hk.imp_left (hp _)) _)
  subscribe h _ _ := h.trans (.touch ⟨rfl, rfl, rfl, rfl⟩)
  current _ _ := trivial
  slotted _ _ := trivial
  vacate _ h := h.trans (.elsewhere rfl)
  finish ending hdrops h _ := h.trans (.one (.finish hdrops p _ ending))
  held _ _ _ _ _ _ _ := trivial
  note runner hdrops h := h.trans (noteDestroyed hdrops hp runner)
  detach hdrops h _ := h.trans (.one (.detach hdrops _))
  empty _ h _ := h.trans (.touch ⟨rfl, rfl, rfl, rfl⟩)

theorem dropTasks (hdrops : drops) (hp : p.Within crew) (ts : List Task) :
    Deeds drops makes crew w (w.dropTasks p ts) :=
  (handling w hp).dropTasks hdrops (.refl drops makes crew w) fun _ _ _ _ => trivial

theorem dropTask (hdrops : drops) (hp : p.Within crew) (t : Task) :
    Deeds drops makes crew w (w.dropTask p t) := dropTasks hdrops hp [t]

theorem destroy (hdrops : drops) (hp : p.Within crew) (f : FrameId) (ending : Ending) :
    Deeds drops makes crew w (w.destroy p f ending) :=
  (handling w hp).destroy hdrops (.refl drops makes crew w) trivial ending

theorem takeOutput (hdrops : drops) (hp : p.Within crew) (t : Task) :
    Deeds drops makes crew w (w.takeOutput p t).1 :=
  (handling w hp).takeOutput hdrops (.refl drops makes crew w) fun _ _ => trivial

theorem startTask (hk : w.Knows crew k) {t t' : Task}
    (h : w.startTask p k t = (t', .ok w')) : Deeds drops makes crew w w' := by
  obtain ⟨g, -, -, rfl | rfl⟩ := World.startTask_ok h
  · exact .refl drops makes crew _
  · exact enqueue hk g

/-- Whatever a body does is made of deeds. -/
theorem walk (w : World) (hp : p.Within crew) (f : FrameId) (n : Nat) :
    Walk p f (fun _ => True) makes drops n (fun _ => True) (fun _ => True)
      (Deeds drops makes crew w) where
  toHandling := handling w hp
  sub := id
  compute h hchange := h.trans (.touch (by
    obtain ⟨acc, guard, code, e⟩ := hchange
    rw [e]
    exact ⟨rfl, rfl, rfl, rfl⟩))
  setWait h _ _ := h.trans (.touch ⟨rfl, rfl, rfl, rfl⟩)
  find _ _ _ _ _ := trivial
  update h _ _ := h.trans (updateTask f _ _)
  remove h _ := h.trans (removeTask f _)
  store h _ _ := h.trans (storeTask f _ _)
  request _ h _ := h.trans (.still (.modifyWorker _ rfl))
  hire h := h.trans (newWorker .unlock)
  make disposal body arg hmakes h _ := h.trans (.one (.make hmakes _ disposal body arg))
  fresh _ := trivial

theorem setWait (f : FrameId) (wait : Option Wait) : Deeds drops makes crew w (w.setWait f wait) :=
  .touch ⟨rfl, rfl, rfl, rfl⟩

theorem dropOutput (p : Place) (o : Output) : Deeds drops makes crew w (w.dropOutput p o) := by
  obtain ⟨log, heq⟩ := Layout.dropOutput_eq w p o
  rw [heq]
  exact .elsewhere rfl

theorem useOutput (p : Place) (f : FrameId) (o : Output) :
    Deeds drops makes crew w (w.useOutput p f o) := by
  have hgained : Deeds drops makes crew w (w.gain f o.value) := .touch ⟨rfl, rfl, rfl, rfl⟩
  exact hgained.trans (dropOutput p o)

theorem askWait {wait : Wait} (hdrops : wait.Drops → drops) (hp : p.Within crew) (f : FrameId) :
    Deeds drops makes crew w (w.askWait p f wait).1 :=
  (walk w hp f 0).askWait hdrops (.refl drops makes crew w) (fun _ _ => trivial)
    (fun _ _ _ _ => trivial) fun _ _ _ _ => trivial

/-- A body runs one statement. -/
theorem exec {s : Stmt} (hdrops : s.Drops → drops) (hmakes : s.Makes → makes) (hp : p.Within crew)
    (f : FrameId) : Deeds drops makes crew w (w.exec p f s).1 :=
  (walk w hp f w.frameCount).exec (fun _ _ => trivial) hdrops (fun h _ => hmakes h) rfl
    (.refl drops makes crew w)

/-- A body lets go of its own tasks. -/
theorem bereft (hdrops : drops) (hp : p.Within crew) (f : FrameId) :
    Deeds drops makes crew w (bereft w p f) := by
  have hemptied : Deeds drops makes crew w
      (w.modifyFrame f fun frame => { frame with tasks := [] }) :=
    .touch ⟨rfl, rfl, rfl, rfl⟩
  exact hemptied.trans (.dropTasks hdrops hp _)

end Deeds

/-! ## Who polled a frame -/

/-- No frame is polled: each has the runner that it had, and those that are made have none. -/
structure Ran (w w' : World) : Prop where
  frameCount : w.frameCount ≤ w'.frameCount
  made : ∀ f, f < w.frameCount → (w'.frame f).runner = (w.frame f).runner
  fresh : ∀ f, w.frameCount ≤ f → f < w'.frameCount → (w'.frame f).runner = none

namespace Ran

variable {w w' w'' : World}

theorem of_frames (hframe : ∀ f, (w'.frame f).runner = (w.frame f).runner)
    (hcount : w'.frameCount = w.frameCount) : w.Ran w' :=
  ⟨Nat.le_of_eq hcount.symm, fun f _ => hframe f,
    fun _ h h' => absurd h (Nat.not_le_of_lt (hcount ▸ h'))⟩

theorem of_still (h : w.Still w') : w.Ran w' :=
  .of_frames (fun f => (h.frame f).runner) h.frameCount

theorem trans (h : w.Ran w') (h' : w'.Ran w'') : w.Ran w'' := by
  refine ⟨Nat.le_trans h.frameCount h'.frameCount, fun f hf => ?_, fun f hf hf' => ?_⟩
  · exact (h'.made f (Nat.lt_of_lt_of_le hf h.frameCount)).trans (h.made f hf)
  · rcases Nat.lt_or_ge f w'.frameCount with hmade | hfresh
    · exact (h'.made f hmade).trans (h.fresh f hf hmade)
    · exact h'.fresh f hfresh hf'

end Ran

/-- Code polls no frame itself. -/
theorem Deed.ran {drops makes : Prop} {crew : WorkerId → Prop} {w w' : World}
    (h : Deed drops makes crew w w') : w.Ran w' := by
  cases h with
  | still h => exact .of_still h
  | enqueue f hk => exact .of_frames (fun g => by rw [frame_enqueue]) (w.enqueue_frameCount _ f)
  | hire hook => exact .of_frames (fun _ => rfl) rfl
  | rename h => exact .of_frames (fun _ => rfl) rfl
  | make hmakes home disposal body arg =>
    refine ⟨Nat.le_succ _, fun f hf => ?_, fun f hf hf' => ?_⟩
    · rw [frame_newFrame, if_neg (Nat.ne_of_lt hf)]
    · rw [frame_newFrame, if_pos (Nat.le_antisymm (Nat.le_of_lt_succ hf') hf)]
  | finish hdrops p f ending =>
    refine .of_frames (fun g => ?_) (Layout.endFrame_agrees w p f ending).frameCount
    rw [frame_endFrame]
    split <;> rfl
  | note hdrops hk => exact .of_frames (fun _ => rfl) rfl
  | detach hdrops f =>
    refine .of_frames (fun g => ?_) rfl
    rw [frame_modifyFrame]
    split <;> rfl

theorem Deeds.ran {drops makes : Prop} {crew : WorkerId → Prop} {w w' : World}
    (h : Deeds drops makes crew w w') : w.Ran w' := by
  induction h with
  | refl => exact .of_frames (fun _ => rfl) rfl
  | tail _ h ih => exact ih.trans h.ran

end World

end Substrate.Coro
