import Substrate.Proofs.Coro.CallerInvariants
import Substrate.Proofs.Coro.Steps

/-!
# What threads keep

What a thread does besides running bodies is made of a few kinds of changes.  A property that these
and the changes of `Handling` keep is kept by all activities of a thread.

* `Course` lists the changes.
* `Course.step` is about a step of a thread, `Course.call` and `Course.close` about what a caller
  does.
-/

namespace Substrate.Coro

/-- `P` is kept by whatever a thread does with its workers and the frames it polls. -/
structure Course (P : World → Prop) : Prop where
  handling (p : Place) : Handling p True (fun _ => True) P
  worker {w : World} {k : WorkerId} (change : Worker → Worker) : P w → P (w.modifyWorker k change)
  lists {w : World} (runLists : RunLists) : P w → P { w with runLists }
  occupy {w : World} (slot : String) (g : FrameId) : P w → P (w.setSlot slot (some g))
  mark {w : World} {g : FrameId} {change : Frame → Frame} : P w →
    (∃ acc stage continuation runner retired output, change (w.frame g) =
      { w.frame g with acc, stage, continuation, runner, retired, output }) →
      P (w.modifyFrame g change)

/-- `P` is kept when the tasks of frame `g` are taken from it. -/
def Strips (P : World → Prop) (g : FrameId) : Prop :=
  ∀ {w : World}, P w → P (w.modifyFrame g fun frame => { frame with tasks := [] })

namespace Course

open Thread

variable {P : World → Prop} (C : Course P) {w w' : World}
include C

theorem emit (h : P w) (e : Event) : P (w.emit e) :=
  (C.handling {}).beside h ⟨rfl, fun _ hi => hi⟩

theorem enqueue (h : P w) (k : WorkerId) (g : FrameId) : P (w.enqueue k g) := by
  unfold World.enqueue
  split
  · exact h
  · exact C.worker _ (C.lists _ h)

theorem drainRetired (h : P w) (p : Place) (k : WorkerId) : P (w.drainRetired p k) := by
  have hfold : ∀ (gs : List FrameId) {w : World}, P w →
      P (gs.foldl (fun w g => (w.emit (.destroyRetired g)).destroy p g .retired) w) := by
    intro gs
    induction gs with
    | nil => exact fun h => h
    | cons g rest ih =>
      exact fun h => ih ((C.handling p).destroy trivial (C.emit h _) trivial .retired)
  exact C.worker _ (hfold _ (C.worker _ h))

theorem dropWorker (h : P w) (p : Place) (k : WorkerId) : P (w.dropWorker p k) := by
  have hdrained := C.drainRetired h p k
  unfold World.dropWorker
  simp only
  split
  · exact hdrained
  · exact C.emit hdrained _

theorem startTask (h : P w) {p : Place} {k : WorkerId} {t t' : Task}
    (hstart : w.startTask p k t = (t', .ok w')) : P w' := by
  obtain ⟨g, -, -, rfl | rfl⟩ := World.startTask_ok hstart
  · exact h
  · exact C.enqueue h k g

theorem retire (h : P w) {k : WorkerId} {g : FrameId} (hretired : w.retire k g = .ok w') :
    P w' := by
  unfold World.retire at hretired
  simp only at hretired
  split at hretired
  · cases hretired
  · cases hretired
    exact C.worker _ (C.worker _ (C.mark (C.emit h _) ⟨_, _, _, _, _, _, rfl⟩))

theorem publish (h : P w) {slot : String} {g : FrameId} (hpublished : w.publish slot g = .ok w') :
    P w' := by
  obtain ⟨-, rfl⟩ := World.publish_ok hpublished
  exact C.occupy slot g h

theorem nextFrame (h : P w) {k : WorkerId} {g : FrameId} (hnext : w.nextFrame k = some (g, w')) :
    P w' := by
  rw [World.nextFrame_same hnext]
  exact C.lists _ h

/-! ## Steps -/

theorem unwind (e : Fault) (stack : List Activity) : ∀ {w : World} (t : Thread), P w →
    P (Thread.unwind w t e stack).1 := by
  induction stack with
  | nil => exact fun _ h => h
  | cons a below ih =>
    intro w t h
    cases a with
    | poll k g outer => exact (C.handling t.toPlace).dropTasks trivial h fun _ _ _ _ => trivial
    | pump k outer count => exact ih _ h
    | release k token => exact ih _ h
    | block k task outer temporary =>
      simp only [Thread.unwind]
      have hdropped := (C.handling { t with worker := outer }.toPlace).dropTask trivial h
        (t := task) fun _ _ => trivial
      split
      · exact ih _ (C.dropWorker hdropped _ k)
      · exact ih _ hdropped

theorem giveResult (h : P w) (t : Thread) (r : Result) : P (Thread.giveResult w t r).1 := by
  unfold Thread.giveResult
  split
  · exact h
  · exact (C.handling t.toPlace).say h _
  · exact (C.handling t.toPlace).dropOutput (C.mark h ⟨_, _, _, _, _, _, rfl⟩) _
  · exact h

theorem finish (h : P w) (p : Place) (k : WorkerId) {g : FrameId} (hstrips : Strips P g)
    (outer : Option FrameId) : P (Thread.finish w p k g outer) := by
  have hdropped : P (bereft w p g) :=
    (C.handling p).dropTasks trivial (hstrips h) fun _ _ _ _ => trivial
  obtain ⟨log, inFlight, heq⟩ := finish_eq w p k g outer
  rw [heq]
  have hcounted : P { bereft w p g with log, inFlight } :=
    (C.handling p).beside hdropped ⟨rfl, fun _ hi => hi⟩
  exact C.worker _ (C.mark (C.worker _ hcounted) ⟨_, _, _, _, _, _, rfl⟩)

theorem dispose (h : P w) (t : Thread) (k : WorkerId) (g : FrameId) :
    P (Thread.dispose w t k g).1 := by
  unfold Thread.dispose
  simp only
  split
  · have hcleared : P (w.modifyFrame g fun frame => { frame with continuation := none }) :=
      C.mark h ⟨_, _, _, _, _, _, rfl⟩
    refine C.drainRetired ?_ t.toPlace k
    split
    · exact C.enqueue hcleared k _
    · exact hcleared
  · split
    · exact C.unwind _ _ t h
    · rename_i hretired
      exact C.drainRetired (C.retire h hretired) t.toPlace k

theorem suspend (h : P w) (t : Thread) (k : WorkerId) (g : FrameId) (outer : Option FrameId) :
    P (Thread.suspend w t k g outer).1 := by
  have hreleased : P (released w k g outer) :=
    C.worker _ (C.mark (C.worker _ h) ⟨_, _, _, _, _, _, rfl⟩)
  rw [suspend_eq]
  split
  · exact C.drainRetired hreleased t.toPlace k
  · exact C.drainRetired (C.worker _ (C.lists _ hreleased)) t.toPlace k
  · rename_i slot token _
    have hparked := C.emit (C.worker (k := k) (fun worker => { worker with
      stats := { worker.stats with parked := worker.stats.parked + 1 } }) hreleased) (.park g token)
    simp only
    split
    · exact C.unwind _ _ t hparked
    · rename_i hpublished
      have hslotted := C.publish hparked hpublished
      split
      · exact C.drainRetired hslotted t.toPlace k
      · exact hslotted

theorem beginBlock (h : P w) (t : Thread) (k : WorkerId) (task : Task) (temporary : Bool) :
    P (Thread.beginBlock w t k task temporary).1 := by
  unfold Thread.beginBlock
  simp only
  split
  · rename_i hstart
    exact C.startTask h hstart
  · exact C.unwind _ _ _ h

theorem follow (h : P w) {g : FrameId} (hstrips : Strips P g) {after : World}
    (hafter : P after) (t : Thread)
    (k : WorkerId) (outer : Option FrameId) (move : World.Move) :
    P (Thread.follow w t k g outer after move).1 := by
  cases move with
  | next => exact hafter
  | pump k' => exact hafter
  | block k' task temporary => exact C.beginBlock hafter _ k' task temporary
  | raise message => exact (C.handling _).dropTasks trivial hafter fun _ _ _ _ => trivial
  | stuck => exact h
  | suspend => exact C.suspend hafter t k g outer
  | finish => exact C.dispose (C.finish hafter t.toPlace k hstrips outer) t k g

/-- A step of a thread, given what the body does that runs. -/
theorem step (h : P w) {t : Thread}
    (hbody : ∀ g, t.polling = some g → Strips P g ∧ P (advance w t.toPlace g).1) :
    P (t.step w).1 := by
  obtain ⟨p, stack⟩ := t
  cases stack with
  | nil => exact h
  | cons a below =>
    cases a with
    | pump k outer count =>
      simp only [Thread.step]
      split
      · exact C.giveResult h _ _
      · rename_i g w' hnext
        have hpopped := C.nextFrame h hnext
        split
        · exact C.worker _ (C.mark (C.emit hpopped (.resume g)) ⟨_, _, _, _, _, _, rfl⟩)
        · exact C.drainRetired hpopped p k
    | poll k g outer =>
      obtain ⟨hstrips, hafter⟩ := hbody g rfl
      have hstep : Thread.step w ⟨p, .poll k g outer :: below⟩ =
          Thread.follow w ⟨p, below⟩ k g outer
          (advance w p g).1 (advance w p g).2 := runBody_eq w ⟨p, below⟩ k g outer
      rw [hstep]
      exact C.follow h hstrips hafter _ k outer _
    | release k token =>
      have hreleased : P (w.release p (w.worker k).hook token) := by
        unfold World.release
        split
        · exact (C.handling p).say h _
        · exact (C.handling p).beside h ⟨rfl, fun _ hi => hi⟩
        · exact h
      exact C.drainRetired hreleased p k
    | block k task outer temporary =>
      have htaken := (C.handling p).takeOutput trivial h (t := task) fun _ _ => trivial
      simp only [Thread.step]
      generalize w.takeOutput p task = r at htaken
      obtain ⟨w', task', output⟩ := r
      cases output with
      | none => exact C.unwind _ _ _ htaken
      | some o =>
        simp only
        split
        · exact C.giveResult (C.dropWorker htaken _ k) _ _
        · exact C.giveResult htaken _ _

/-! ## Operations of the caller -/

theorem receive (s : Session) {r : World × Thread × Progress} (h : P r.1) :
    P (s.receive r).world := by
  obtain ⟨w, t, progress⟩ := r
  cases progress with
  | finished result =>
    cases result with
    | output o => exact (C.handling t.toPlace).dropOutput h o
    | _ => exact h
  | _ => exact h

/-- An operation that begins activities of the thread. -/
theorem launch {s s' : Session} {op : Op} (E : Errand s.world True True (fun _ => True) P)
    (hhire : ∀ {w : World}, P w → P (w.newWorker .unlock).1) (h : P s.world)
    {begun : World × Thread × Progress} (hlaunch : s.launch op = some (s', begun)) : P begun.1 := by
  cases op with
  | pump worker =>
    cases hlaunch
    exact E.named worker h
  | blockOn worker body arg =>
    cases hlaunch
    exact C.beginBlock (E.make .awaited body arg trivial (E.named worker h)
      (s.world.namedWorker_frameCount worker)) {} _ _ false
  | blockOnTask worker task =>
    simp only [Session.launch] at hlaunch
    obtain ⟨t, -, e⟩ := Option.map_eq_some_iff.mp hlaunch
    cases e
    exact C.beginBlock (E.unshare task (E.named worker h)) {} _ t false
  | blockOnFree body arg =>
    cases hlaunch
    exact C.beginBlock (E.make .awaited body arg trivial (hhire h) rfl) {} _ _ true
  | _ => cases hlaunch

theorem close {s : Session}
    (h : P { s.world with log := #[], tasks := .empty, workerNames := .empty }) :
    P s.close.world := by
  have hworkers : ∀ (ks : List WorkerId) {w : World}, P w →
      P (ks.foldl (fun w k => w.dropWorker Session.place k) w) := by
    intro ks
    induction ks with
    | nil => exact fun h => h
    | cons k rest ih => exact fun h => ih (C.dropWorker h Session.place k)
  exact hworkers _ ((C.handling Session.place).dropTasks trivial h fun _ _ _ _ => trivial)

/-- An operation of the caller. -/
theorem call {m : Moment} {op : Op} (E : Errand m.opened.world True True (fun _ => True) P)
    (hhire : ∀ {w : World}, P w → P (w.newWorker .unlock).1) (h : P m.world) :
    P (m.call op).world := by
  have hopened : P m.opened.world := E.beside h ⟨rfl, fun _ hi => hi⟩
  simp only [Moment.call]
  split
  · rename_i s begun hlaunch
    exact C.receive s (C.launch E hhire hopened hlaunch)
  · rename_i hlaunch
    exact E.act hopened hlaunch (fun _ => trivial)
      (fun _ => Session.scheduleFrame_keeps hopened (C.enqueue hopened _ _)) (fun _ => trivial)
      fun _ _ => trivial

end Course

end Substrate.Coro
