import Substrate.Proofs.Coro.Runs
import Substrate.Proofs.Coro.BodyInvariants

/-!
# What operations keep

What a caller asks for is made of the same changes as what bodies do.  A property that these keep is
kept by every operation that is carried out at once.

* `Errand` adds the changes that only a caller makes to `Handling`.
* `Errand.act` is about the operations of a session.
-/

namespace Substrate.Coro

/-- Some operations drop handles or take results. -/
def Op.Drops : Op → Prop
  | .new .. | .take .. | .poll .. | .drop .. => True
  | _ => False

/-- Some operations make frames at once. -/
def Op.Makes : Op → Prop
  | .spawn .. | .new .. => True
  | _ => False

/-- `P` is kept by what a caller does to the world `w₀`. -/
structure Errand (w₀ : World) (makes drops : Prop) (G : FrameId → Prop) (P : World → Prop) : Prop
    extends Handling Session.place drops G P where
  shared {w : World} {name : String} {t : Task} : P w → w.tasks.get? name = some t → t.On G
  share {w : World} {t : Task} (name : String) : P w → t.On G → P (Session.setTask w name t)
  unshare {w : World} (name : String) : P w → P { w with tasks := w.tasks.erase name }
  hire {w : World} (name : String) (hook : ReleaseHook) : P w →
    P { (w.newWorker hook).1 with workerNames := w.workerNames.set name (w.newWorker hook).2 }
  unname {w : World} (name : String) : P w → P { w with workerNames := w.workerNames.erase name }
  fire {w : World} {k : WorkerId} : P w →
    (w.worker k).retired = (w₀.worker k).retired ∨ (w.worker k).retired = [] →
      P (w.dropWorker Session.place k)
  make {w : World} (disposal : Disposal) (body : String) (arg : Int) : makes → P w →
    w.frameCount = w₀.frameCount → P (w.newFrame (some Session.place.thread) disposal body arg).1
  fresh : makes → G w₀.frameCount

theorem Session.scheduleFrame_keeps {P : World → Prop} {s : Session} (h : P s.world) {p : Place}
    {k : WorkerId} {f : FrameId} (henqueued : P (s.world.enqueue k f)) :
    P (s.scheduleFrame p k f).1.world := by
  unfold scheduleFrame
  split
  · exact h
  · split
    · exact h
    · unfold World.schedule
      split
      · exact h
      · split
        · exact h
        · exact henqueued

namespace Errand

variable {makes drops : Prop} {G : FrameId → Prop} {P : World → Prop} {s : Session}
  (H : Errand s.world makes drops G P)
include H

/-- A name is mentioned as a worker, and a frame is scheduled on it. -/
theorem schedule {u : Session} (h : P u.world) {k : WorkerId} {g : FrameId} (hg : G g)
    (hk : u.world.Knows (Session.place.worker = some ·) k) :
    P (u.scheduleFrame Session.place k g).1.world :=
  Session.scheduleFrame_keeps h (H.enqueue h hg hk)

theorem started {w : World} (h : P w) (name : String) {k : WorkerId}
    (hk : w.Knows (Session.place.worker = some ·) k) {t : Task} (ht : t.On G) :
    P (Session.started w name k t) := by
  have ht' : (w.startTask Session.place k t).1.On G :=
    fun c hc => ht c (w.startTask_frame Session.place k t ▸ hc)
  unfold Session.started
  generalize hstarted : w.startTask Session.place k t = r at ht'
  obtain ⟨t', result⟩ := r
  cases result with
  | ok world => exact H.share name (H.toHandling.startTask h hk ht hstarted) ht'
  | error e => exact H.share name h ht'

theorem emptied {w : World} (hdrops : drops) (h : P w) (name : String) {t : Task} (ht : t.On G) :
    P (Session.emptied w name t) := by
  have htaken := H.takeOutput hdrops h ht
  have ht' : (w.takeOutput Session.place t).2.1.On G :=
    fun c hc => ht c (w.takeOutput_frame Session.place t hc)
  unfold Session.emptied
  generalize w.takeOutput Session.place t = r at htaken ht'
  obtain ⟨world, t', output⟩ := r
  have hstored := H.share name htaken ht'
  cases output with
  | some o => exact H.dropOutput hstored o
  | none => exact hstored

theorem polled {w : World} (hdrops : drops) (h : P w) (name : String) {t : Task} (ht : t.On G) :
    P (Session.polled w name t) := by
  have hpolled := H.pollTask hdrops h ht
  have ht' : (w.pollTask Session.place t).2.1.On G :=
    fun c hc => ht c (w.pollTask_frame Session.place t hc)
  unfold Session.polled
  generalize w.pollTask Session.place t = r at hpolled ht'
  obtain ⟨world, t', polled⟩ := r
  have hstored := H.share name hpolled ht'
  cases polled with
  | ready o => exact H.dropOutput hstored o
  | pending => exact hstored
  | fault e => exact hstored

/-- An operation that is carried out at once. -/
theorem act {op : Op} (h : P s.world) (hlaunch : s.launch op = none)
    (hhandles : ∀ {handle f}, s.handles.get? handle = some f → G f)
    (hforeign : ∀ {handle f}, s.handles.get? handle = some f →
      P (s.scheduleFrame { thread := 1 } s.world.workerCount f).1.world)
    (hdrops : op.Drops → drops)
    (hmakes : op.Makes → (s.act op).1.world.frameCount = s.world.frameCount + 1 → makes) :
    P (s.act op).1.world := by
  have hmention : ∀ worker, P (s.world.namedWorker worker).1 := fun worker => H.named worker h
  have hknows := s.world.knows_namedWorker (Session.place.worker = some ·)
  have heffect := s.act_effect hlaunch
  generalize (s.act op).1.world = w' at heffect hmakes ⊢
  cases heffect with
  | none => exact h
  | mention worker => exact hmention worker
  | hire name hook =>
    have hmade := H.hire name hook h
    unfold Session.hired
    split
    · rename_i old _
      refine H.fire hmade ?_
      simp only [World.worker, World.newWorker, Table.get_set]
      split
      · exact .inr rfl
      · exact .inl rfl
    · exact hmade
  | @fire name k hk => exact H.fire (H.unname name h) (.inl rfl)
  | spawn worker body arg =>
    have hcount := s.world.namedWorker_frameCount worker
    have hnew := hmakes trivial ((World.spawnDetached_frameCount _ Session.place _ body arg).trans
      (congrArg (· + 1) hcount))
    have hmade := H.make .detached body arg hnew (hmention worker) hcount
    have htraced : P (((s.world.namedWorker worker).1.newFrame (some Session.place.thread) .detached
        body arg).1.emit (.spawn (s.world.namedWorker worker).1.frameCount)) :=
      H.beside hmade ⟨rfl, fun _ hi => hi⟩
    exact H.enqueue htraced (hcount ▸ H.fresh hnew) (hknows worker)
  | say body arg => exact H.say h _
  | new task body arg =>
    -- the handle that was there before, if any, is dropped
    have hnew : makes := by
      refine hmakes trivial ?_
      unfold Session.shared
      split
      · exact World.dropTasks_frameCount _ Session.place _
      · rfl
    have hmade := H.make .awaited body arg hnew h rfl
    have hstored := H.share (t := (s.world.newTask Session.place body arg).2) task hmade
      fun c hc => Option.some.inj hc ▸ H.fresh hnew
    unfold Session.shared
    split
    · rename_i old hold
      exact H.dropTask (hdrops trivial) hstored (H.shared h hold)
    · exact hstored
  | start worker hget => exact H.started (hmention worker) _ (hknows worker) (H.shared h hget)
  | take hget => exact H.emptied (hdrops trivial) h _ (H.shared h hget)
  | poll hget => exact H.polled (hdrops trivial) h _ (H.shared h hget)
  | drop hget => exact H.dropTask (hdrops trivial) (H.unshare _ h) (H.shared h hget)
  | vacate slot handle => exact H.vacate slot h
  | @schedule _ f worker hscheduled =>
    refine H.schedule (u := (s.worker worker).1) (hmention worker) ?_ (hknows worker)
    rcases Session.scheduled_cases hscheduled with ⟨handle, hget⟩ | ⟨task, t, hget, hframe⟩
    · exact hhandles hget
    · exact H.shared h hget f hframe
  | unpark slot worker =>
    have hvacated := H.vacate slot (hmention worker)
    simp only [Session.unparked, World.takeSlot]
    cases hslot : (s.worker worker).1.world.slot slot with
    | none => exact hvacated
    | some f =>
      exact H.schedule (u := { (s.worker worker).1 with world := _ }) hvacated
        (H.slotted (hmention worker) hslot) (hknows worker)
  | foreign hget => exact hforeign hget
  | cancel token => exact H.beside h (.cancel s.world token)
  | child token parent => exact H.beside h (s.world.addChildToken_beside token parent)

end Errand

end Substrate.Coro
