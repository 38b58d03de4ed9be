import Substrate.Proofs.Coro.CallerInvariants

/-!
# Requests left with workers

A body that waits leaves a request with the worker that polls it, and the worker
takes it when the poll ends.  So whatever a session does, no worker has a request
while no activity polls a frame on it.

* `World.Requests p w w'`: code at place `p` leaves requests with the worker entered
  at most.
* `Thread.Unasked` is what a step of a thread preserves, and `Reach.unasked` holds of
  every run.
-/

namespace Substrate.Coro

/-- Code at place `p` leaves a request with the worker entered there, or with none. -/
def World.Requests (p : Place) (w w' : World) : Prop :=
  ∀ j, p.worker = some j ∨ (w'.worker j).suspension = none ∨
    (w'.worker j).suspension = (w.worker j).suspension

namespace World.Requests

variable {p p' : Place} {w w' w'' : World}

theorem of_suspension (h : ∀ j, (w'.worker j).suspension = (w.worker j).suspension) :
    w.Requests p w' := fun j => .inr (.inr (h j))

theorem of_workers (h : w'.workers = w.workers) : w.Requests p w' :=
  of_suspension fun j => by rw [World.worker, World.worker, h]

theorem refl (p : Place) (w : World) : w.Requests p w := of_suspension fun _ => rfl

theorem next (h : w.Requests p w') (h' : w'.Requests p w'') : w.Requests p w'' := by
  intro j
  rcases h' j with hp | hnone | hsame
  · exact .inl hp
  · exact .inr (.inl hnone)
  · rw [hsame]
    exact h j

theorem modifyWorker (p : Place) (w : World) (k : WorkerId) {change : Worker → Worker}
    (h : (change (w.worker k)).suspension = none ∨
      (change (w.worker k)).suspension = (w.worker k).suspension) :
    w.Requests p (w.modifyWorker k change) := by
  intro j
  rw [World.worker_modifyWorker]
  split
  · rename_i hj
    rw [hj]
    exact .inr h
  · exact .inr (.inr rfl)

theorem count (p : Place) (w : World) (k : WorkerId) (change : Stats → Stats) :
    w.Requests p (w.count k change) := modifyWorker p w k (.inr rfl)

theorem newWorker (p : Place) (w : World) (hook : ReleaseHook) :
    w.Requests p (w.newWorker hook).1 := by
  intro j
  have hworker : (w.newWorker hook).1.worker j = if j =
      w.workerCount then { hook } else w.worker j :=
    Table.get_set _ _ _ _
  rw [hworker]
  split
  · exact .inr (.inl rfl)
  · exact .inr (.inr rfl)

theorem namedWorker (p : Place) (w : World) (name : String) :
    w.Requests p (w.namedWorker name).1 := by
  unfold World.namedWorker
  split
  · exact refl p w
  · exact (newWorker p w .unlock).next (of_workers rfl)

theorem enqueue (p : Place) (w : World) (k : WorkerId) (f : FrameId) :
    w.Requests p (w.enqueue k f) := by
  unfold World.enqueue
  split
  · exact refl p w
  · rename_i r _
    have hpushed : w.Requests p { w with runLists := r } := of_workers rfl
    exact hpushed.next (count p _ k _)

/-! ## Handles -/

theorem dropOutput (p : Place) (w : World) (p' : Place) (o : Output) :
    w.Requests p (w.dropOutput p' o) := by
  obtain ⟨log, heq⟩ := Layout.dropOutput_eq w p' o
  rw [heq]
  exact of_workers rfl

theorem endFrame (p : Place) (w : World) (p' : Place) (f : FrameId) (ending : Ending) :
    w.Requests p (w.endFrame p' f ending).1 := by
  obtain ⟨log, heq⟩ := Layout.endFrame_eq w p' f ending
  rw [heq]
  exact of_workers rfl

theorem noteDestroyed (p : Place) (w : World) (p' : Place) (runner : Option WorkerId) :
    w.Requests p (w.noteDestroyed p' runner) := by
  rcases w.noteDestroyed_cases p' runner with e | ⟨k, e⟩ <;> rw [e]
  · exact refl p w
  · exact count p w k _

/-- Nothing that is done with handles leaves a request. -/
theorem handling (p : Place) (w : World) (p' : Place) :
    Handling p' True (fun _ => True) (w.Requests p) where
  beside h hbeside := h.next (of_workers (by rw [hbeside.same]))
  named name h := h.next (namedWorker p _ name)
  enqueue h _ _ := h.next (enqueue p _ _ _)
  subscribe h _ _ := h.next (of_workers rfl)
  current _ _ := trivial
  slotted _ _ := trivial
  vacate _ h := h.next (of_workers rfl)
  finish ending _ h _ := h.next (endFrame p _ p' _ ending)
  held _ _ _ _ _ _ _ := trivial
  note runner _ h := h.next (noteDestroyed p _ p' runner)
  detach _ h _ := h.next (of_workers rfl)
  empty _ h _ := h.next (of_workers rfl)

theorem dropTasks (p : Place) (w : World) (p' : Place) (ts : List Task) :
    w.Requests p (w.dropTasks p' ts) :=
  (handling p w p').dropTasks trivial (refl p w) fun _ _ _ _ => trivial

theorem dropTask (p : Place) (w : World) (p' : Place) (t : Task) : w.Requests p (w.dropTask p' t) :=
  dropTasks p w p' [t]

theorem destroy (p : Place) (w : World) (p' : Place) (f : FrameId) (ending : Ending) :
    w.Requests p (w.destroy p' f ending) :=
  (handling p w p').destroy trivial (refl p w) trivial ending

theorem takeOutput (p : Place) (w : World) (p' : Place) (t : Task) :
    w.Requests p (w.takeOutput p' t).1 :=
  (handling p w p').takeOutput trivial (refl p w) fun _ _ => trivial

theorem drainRetired (p : Place) (w : World) (p' : Place) (k : WorkerId) :
    w.Requests p (w.drainRetired p' k) := by
  have hfold : ∀ (fs : List FrameId) (w : World), w.Requests p
      (fs.foldl (fun w f => (w.emit (.destroyRetired f)).destroy p' f .retired) w) := by
    intro fs
    induction fs with
    | nil => exact fun w => refl p w
    | cons f rest ih =>
      intro w
      have hemitted : w.Requests p (w.emit (.destroyRetired f)) := of_workers rfl
      exact (hemitted.next (destroy p _ p' f .retired)).next (ih _)
  have hcleared : w.Requests p (w.modifyWorker k fun worker => { worker with retired := [] }) :=
    modifyWorker p w k (.inr rfl)
  exact (hcleared.next (hfold _ _)).next (count p _ k _)

theorem dropWorker (p : Place) (w : World) (p' : Place) (k : WorkerId) :
    w.Requests p (w.dropWorker p' k) := by
  have hdrained := drainRetired p w p' k
  unfold World.dropWorker
  simp only
  split
  · exact hdrained
  · exact hdrained.next (of_workers rfl)

theorem retire (p : Place) {k : WorkerId} {f : FrameId} (h : w.retire k f = .ok w') :
    w.Requests p w' := by
  unfold World.retire at h
  simp only at h
  split at h
  · cases h
  · cases h
    have hmarked : w.Requests p ((w.emit (.retire f)).modifyFrame f fun frame =>
        { frame with retired := true }) := of_workers rfl
    exact (hmarked.next (modifyWorker p _ k (.inr rfl))).next (count p _ k _)

theorem startTask (p : Place) {p' : Place} {k : WorkerId} {t t' : Task}
    (h : w.startTask p' k t = (t', .ok w')) : w.Requests p w' := by
  obtain ⟨g, -, -, rfl | rfl⟩ := World.startTask_ok h
  · exact refl p _
  · exact enqueue p w k g

theorem updateTask (p : Place) (w : World) (f : FrameId) (name : String) (t : Task) :
    w.Requests p (w.updateTask f name t) := by
  unfold World.updateTask
  split
  · split
    · exact of_workers rfl
    · exact refl p w
  · exact of_workers rfl

theorem removeTask (p : Place) (w : World) (f : FrameId) (name : String) :
    w.Requests p (w.removeTask f name) := by
  unfold World.removeTask
  split <;> exact of_workers rfl

/-! ## Waits and statements -/

theorem useOutput (p : Place) (w : World) (p' : Place) (f : FrameId) (o : Output) :
    w.Requests p (w.useOutput p' f o) := by
  have hgained : w.Requests p (w.gain f o.value) := of_workers rfl
  exact hgained.next (dropOutput p _ p' o)

/-- A request goes to the worker entered. -/
theorem request {k : WorkerId} (hk : p.worker = some k) (s : Suspension) :
    w.Requests p (w.modifyWorker k fun worker => { worker with suspension := some s }) := by
  intro j
  by_cases hj : j = k
  · exact .inl (hj ▸ hk)
  · rw [World.worker_modifyWorker, if_neg hj]
    exact .inr (.inr rfl)

theorem walk (p : Place) (w : World) (f : FrameId) (n : Nat) :
    Walk p f (fun _ => True) True True n (fun _ => True) (fun _ => True) (w.Requests p) where
  toHandling := handling p w p
  sub := id
  compute h _ := h.next (of_workers rfl)
  setWait h _ _ := h.next (of_workers rfl)
  find _ _ _ _ _ := trivial
  update h _ _ := h.next (updateTask p _ f _ _)
  remove h _ := h.next (removeTask p _ f _)
  store h _ _ := h.next (by split <;> exact of_workers rfl)
  request s h hk := h.next (request hk s)
  hire h := h.next (newWorker p _ .unlock)
  make _ _ _ _ h _ := h.next (of_workers rfl)
  fresh _ := trivial

theorem askWait (p : Place) (w : World) (f : FrameId) (wait : Wait) :
    w.Requests p (w.askWait p f wait).1 :=
  (walk p w f 0).askWait (fun _ => trivial) (refl p w) (fun _ _ => trivial) (fun _ _ _ _ => trivial)
    fun _ _ _ _ => trivial

theorem exec (p : Place) (w : World) (f : FrameId) (s : Stmt) : w.Requests p (w.exec p f s).1 :=
  (walk p w f w.frameCount).exec (fun _ _ => trivial) (fun _ => trivial) (fun _ _ => trivial) rfl
    (refl p w)

theorem none_of (h : w.Requests {} w') {k : WorkerId} (hk : (w.worker k).suspension = none) :
    (w'.worker k).suspension = none := by
  rcases h k with hp | hnone | hsame
  · cases hp
  · exact hnone
  · exact hsame.trans hk

end World.Requests

/-! ## Activities -/

/-- The workers on which activities poll frames. -/
def pollers (stack : List Activity) : List WorkerId :=
  stack.filterMap fun
    | .poll k _ _ => some k
    | _ => none

/-- The worker entered is the one that the innermost activity belongs to. -/
def Entered : Option WorkerId → List Activity → Prop
  | entered, [] => entered = none
  | entered, .pump k outer _ :: below | entered, .block k _ outer _ :: below =>
    entered = some k ∧ Entered outer below
  | entered, .release k _ :: below | entered, .poll k _ _ :: below =>
    entered = some k ∧ Entered (some k) below

/-- Only a worker on which a frame is polled has a request. -/
structure Thread.Unasked (w : World) (t : Thread) : Prop where
  entered : Entered t.worker t.stack
  asked : ∀ k, (w.worker k).suspension ≠ none → k ∈ pollers t.stack

namespace Thread

variable {w w' : World} {t : Thread}

/-- No request is left, and no poll has ended. -/
theorem Unasked.of_requests (h : t.Unasked w) (hrequests : w.Requests {} w') {t' : Thread}
    (hentered : Entered t'.worker t'.stack) (hpollers : ∀ k ∈ pollers t.stack,
      k ∈ pollers t'.stack) :
    t'.Unasked w' :=
  ⟨hentered, fun k hk => hpollers k (h.asked k fun hnone => hk (hrequests.none_of hnone))⟩

theorem giveResult_requests (w : World) (t : Thread) (r : Result) :
    w.Requests {} (giveResult w t r).1 ∧ (giveResult w t r).2.1 = t := by
  unfold giveResult
  split
  · exact ⟨.refl {} w, rfl⟩
  · exact ⟨.of_workers rfl, rfl⟩
  · exact ⟨.useOutput {} w t.toPlace _ _, rfl⟩
  · exact ⟨.refl {} w, rfl⟩

/-- A fault that leaves activities ends everything or meets no poll. -/
theorem unwind_requests (e : Fault) (stack : List Activity) :
    ∀ (w : World) (t : Thread), Entered t.worker stack →
      (unwind w t e stack).2.2.isAborted = true ∨
        pollers stack = [] ∧ w.Requests {} (unwind w t e stack).1 ∧
        (unwind w t e stack).2.1.stack = [] ∧ (unwind w t e stack).2.1.worker = none := by
  induction stack with
  | nil => exact fun w t hentered => .inr ⟨rfl, .refl {} w, rfl, hentered⟩
  | cons activity below ih =>
    intro w t hentered
    cases activity with
    | pump k outer count => exact ih w { t with worker := outer } hentered.2
    | release k token => exact ih w t (hentered.1 ▸ hentered.2)
    | poll k f outer => exact .inl rfl
    | block k task outer temporary =>
      have hdropped := World.Requests.dropTask {} w { t with worker := outer }.toPlace task
      have hgone : w.Requests {} (if temporary then
          (w.dropTask { t with worker := outer }.toPlace task).dropWorker
            { t with worker := outer }.toPlace k
          else w.dropTask { t with worker := outer }.toPlace task) := by
        split
        · exact hdropped.next (.dropWorker {} _ _ k)
        · exact hdropped
      exact (ih _ { t with worker := outer } hentered.2).imp id fun ⟨hpollers, hrequests, hrest⟩ =>
        ⟨hpollers, hgone.next hrequests, hrest⟩

/-- The same about requests that were left before. -/
theorem Unasked.unwind (stack : List Activity)
    (h : ∀ k, (w.worker k).suspension ≠ none → k ∈ pollers stack)
    (hentered : Entered t.worker stack) (e : Fault) :
    (unwind w t e stack).2.2.isAborted = true ∨
      (unwind w t e stack).2.1.Unasked (unwind w t e stack).1 := by
  refine (unwind_requests e stack w t hentered).imp id fun ⟨hpollers, hrequests, hstack, hworker⟩ =>
    ?_
  refine ⟨by rw [hstack]; exact hworker, fun k hk => ?_⟩
  have hmem := h k fun hnone => hk (hrequests.none_of hnone)
  rw [hpollers] at hmem
  cases hmem

theorem Unasked.beginBlock (h : t.Unasked w) (k : WorkerId) (task : Task) (temporary : Bool) :
    (beginBlock w t k task temporary).2.2.isAborted = true ∨
      (beginBlock w t k task temporary).2.1.Unasked (beginBlock w t k task temporary).1 := by
  unfold Thread.beginBlock
  simp only
  generalize hstart : w.startTask _ k task = r
  obtain ⟨task', result⟩ := r
  cases result with
  | ok w' => exact .inr (h.of_requests (.startTask {} hstart) ⟨rfl, rfl, h.entered⟩ fun _ hk => hk)
  | error e =>
    exact Unasked.unwind (.block k task' t.worker temporary :: t.stack) h.asked ⟨rfl, h.entered⟩ e

/-- The innermost poll has ended, and its worker took the request. -/
theorem Unasked.polled {k : WorkerId} {f : FrameId} {outer : Option FrameId} {stack : List Activity}
    (h : ∀ j, (w.worker j).suspension ≠ none → j ∈ pollers (.poll k f outer :: stack))
    (hrequests : w.Requests {} w') (hk : (w'.worker k).suspension = none) :
    ∀ j, (w'.worker j).suspension ≠ none → j ∈ pollers stack := by
  intro j hj
  rcases List.mem_cons.mp (h j fun hnone => hj (hrequests.none_of hnone)) with rfl | hmem
  · exact absurd hk hj
  · exact hmem

theorem released_requests (w : World) (k : WorkerId) (f : FrameId) (outer : Option FrameId) :
    w.Requests {} (released w k f outer) ∧ ((released w k f outer).worker k).suspension = none := by
  have hended : w.Requests {} (endPoll w k outer) := .modifyWorker {} w k (.inr rfl)
  have hstaged : w.Requests {} ((endPoll w k outer).modifyFrame f fun frame =>
      { frame with stage := .suspended }) := hended.next (.of_workers rfl)
  refine ⟨hstaged.next (.modifyWorker {} _ k (.inl rfl)), ?_⟩
  unfold released
  rw [World.worker_modifyWorker, if_pos rfl]

theorem Unasked.suspend {k : WorkerId} {f : FrameId} {outer : Option FrameId}
    (h : ∀ j, (w.worker j).suspension ≠ none → j ∈ pollers (.poll k f outer :: t.stack))
    (hworker : t.worker = some k) (hentered : Entered (some k) t.stack) :
    (suspend w t k f outer).2.2.isAborted = true ∨
      (suspend w t k f outer).2.1.Unasked (suspend w t k f outer).1 := by
  obtain ⟨hreleased, hnone⟩ := released_requests w k f outer
  have hentered' : Entered t.worker t.stack := by
    rw [hworker]
    exact hentered
  have hleft : ∀ {w' : World}, (released w k f outer).Requests {} w' →
      ∀ j, (w'.worker j).suspension ≠ none → j ∈ pollers t.stack :=
    fun hw' => polled h (hreleased.next hw') (hw'.none_of hnone)
  rw [suspend_eq]
  split
  · exact .inr ⟨hentered', hleft (.drainRetired {} _ _ k)⟩
  · have hdeferred : (released w k f outer).Requests {} (((released w k f outer).defer k f).count k
        fun s => { s with yielded := s.yielded + 1 }) :=
      World.Requests.next (.of_workers rfl) (.count {} _ k _)
    exact .inr ⟨hentered', hleft (hdeferred.next (.drainRetired {} _ _ k))⟩
  · rename_i slot token _
    have hcounted := World.Requests.count {} (released w k f outer) k fun s =>
      { s with parked := s.parked + 1 }
    have hparked : (released w k f outer).Requests {} (((released w k f outer).count k fun s =>
        { s with parked := s.parked + 1 }).emit (.park f token)) := hcounted.next (.of_workers rfl)
    simp only
    split
    · exact Unasked.unwind (t := t) t.stack (hleft hparked) hentered' _
    · rename_i w' hpublished
      have hslotted : (released w k f outer).Requests {} w' := by
        obtain ⟨-, rfl⟩ := World.publish_ok hpublished
        exact hparked.next (.of_workers rfl)
      split
      · exact .inr ⟨hentered', hleft (hslotted.next (.drainRetired {} _ _ k))⟩
      · exact .inr ⟨⟨hworker, hentered⟩, hleft hslotted⟩

theorem finish_requests (w : World) (p : Place) (k : WorkerId) (f : FrameId)
    (outer : Option FrameId) :
    w.Requests {} (finish w p k f outer) ∧ ((finish w p k f outer).worker k).suspension = none := by
  have hcleared : w.Requests {} (w.modifyFrame f fun frame => { frame with tasks := [] }) :=
    .of_workers rfl
  have hdropped := hcleared.next (.dropTasks {} _ p ((w.frame f).tasks.map Prod.snd))
  constructor
  · unfold finish
    simp only
    refine World.Requests.next ?_ (.modifyWorker {} _ k (.inl rfl))
    refine World.Requests.next ?_ (.of_workers rfl)
    refine World.Requests.next ?_ (.modifyWorker {} _ k (.inr rfl))
    split
    · refine World.Requests.next ?_ (.of_workers rfl)
      split
      · exact hdropped
      · exact hdropped.next (.dropOutput {} _ p _)
    · split
      · exact hdropped
      · exact hdropped.next (.dropOutput {} _ p _)
  · unfold finish
    simp only
    rw [World.worker_modifyWorker, if_pos rfl]

theorem Unasked.dispose (h : t.Unasked w) (k : WorkerId) (f : FrameId) :
    (dispose w t k f).2.2.isAborted = true ∨ (dispose w t k f).2.1.Unasked (dispose w t k f).1 := by
  unfold Thread.dispose
  simp only
  split
  · refine .inr (h.of_requests ?_ h.entered fun _ hk => hk)
    refine World.Requests.next ?_ (.drainRetired {} _ _ k)
    split
    · exact World.Requests.next (.of_workers rfl) (.enqueue {} _ k _)
    · exact .of_workers rfl
  · split
    · exact Unasked.unwind t.stack h.asked h.entered _
    · rename_i hretired
      exact .inr (h.of_requests (World.Requests.next (.retire {} hretired) (.drainRetired {} _ _ k))
        h.entered fun _ hk => hk)

/-- A body leaves requests with the worker that polls its frame. -/
theorem Unasked.follow {k : WorkerId} {f : FrameId} {outer : Option FrameId} {after : World}
    (h : ({ t with stack := .poll k f outer :: t.stack } : Thread).Unasked w)
    (hafter : w.Requests t.toPlace after) (move : World.Move) :
    (follow w t k f outer after move).2.2.isAborted = true ∨
      (follow w t k f outer after move).2.1.Unasked (follow w t k f outer after move).1 := by
  obtain ⟨hworker, hentered⟩ := h.entered
  have hasked : ∀ j, (after.worker j).suspension ≠ none →
      j ∈ pollers (.poll k f outer :: t.stack) := by
    intro j hj
    rcases hafter j with hp | hnone | hsame
    · rw [show t.worker = some k from hworker] at hp
      cases hp
      exact List.mem_cons_self
    · exact absurd hnone hj
    · exact h.asked j (hsame ▸ hj)
  have hself : ({ t with stack := .poll k f outer :: t.stack } : Thread).Unasked after :=
    ⟨⟨hworker, hentered⟩, hasked⟩
  cases move with
  | next => exact .inr hself
  | pump k' => exact .inr ⟨⟨rfl, hworker, hentered⟩, hasked⟩
  | block k' task temporary => exact hself.beginBlock k' task temporary
  | raise message => exact .inl rfl
  | stuck => exact .inr h
  | suspend => exact Unasked.suspend hasked hworker hentered
  | finish =>
    obtain ⟨hfinished, hnone⟩ := finish_requests after t.toPlace k f outer
    have hleft : t.Unasked (finish after t.toPlace k f outer) :=
      ⟨by rw [show t.worker = some k from hworker]; exact hentered, polled hasked hfinished hnone⟩
    exact hleft.dispose k f

/-- What a step of a thread preserves, unless it ends everything. -/
theorem Unasked.step (h : t.Unasked w) :
    (t.step w).2.2.isAborted = true ∨ (t.step w).2.1.Unasked (t.step w).1 := by
  obtain ⟨p, stack⟩ := t
  cases stack with
  | nil => exact .inr h
  | cons activity below =>
    cases activity with
    | pump k outer count =>
      obtain ⟨hworker, hentered⟩ := h.entered
      simp only [Thread.step]
      split
      · obtain ⟨hrequests, hthread⟩ :=
          giveResult_requests w ⟨{ p with worker := outer }, below⟩ (.count count)
        refine .inr (h.of_requests hrequests ?_ fun _ hk => ?_)
        · rw [hthread]
          exact hentered
        · rw [hthread]
          exact hk
      · rename_i f w' hnext
        have hpopped : w.Requests {} w' := by
          rw [World.nextFrame_same hnext]
          exact .of_workers rfl
        split
        · have hresumed : w.Requests {} ((w'.emit (.resume f)).modifyFrame f fun frame =>
              { frame with stage := .running, runner := some k }) := hpopped.next (.of_workers rfl)
          exact .inr (h.of_requests (hresumed.next (.modifyWorker {} _ k (.inr rfl)))
            ⟨hworker, hworker ▸ h.entered⟩ fun _ hk => List.mem_cons_of_mem _ hk)
        · exact .inr (h.of_requests (hpopped.next (.drainRetired {} _ _ k)) h.entered fun _ hk =>
            hk)
    | poll k f outer =>
      simp only [Thread.step]
      rw [runBody_eq]
      refine Unasked.follow (t := ⟨p, below⟩) h ?_ _
      unfold advance
      split
      · exact .askWait p w f _
      · exact World.Requests.next (.of_workers rfl) (.exec p _ f _)
      · exact .refl p w
    | release k token =>
      obtain ⟨hworker, hentered⟩ := h.entered
      refine .inr (h.of_requests ?_ (show Entered p.worker below from hworker ▸ hentered)
        fun _ hk => hk)
      refine World.Requests.next ?_ (.drainRetired {} _ _ k)
      unfold World.release
      split <;> exact .of_workers rfl
    | block k task outer temporary =>
      obtain ⟨hworker, hentered⟩ := h.entered
      have htaken := World.Requests.takeOutput {} w p task
      simp only [Thread.step]
      generalize w.takeOutput p task = r at htaken
      obtain ⟨w', task', output⟩ := r
      cases output with
      | some o =>
        simp only
        have hgone : w.Requests {}
            (if temporary then w'.dropWorker { p with worker := outer } k else w') := by
          split
          · exact htaken.next (.dropWorker {} _ _ k)
          · exact htaken
        obtain ⟨hrequests, hthread⟩ := giveResult_requests
          (if temporary then w'.dropWorker { p with worker := outer } k else w')
          ⟨{ p with worker := outer }, below⟩ (.output o)
        refine .inr (h.of_requests (hgone.next hrequests) ?_ fun _ hk => ?_)
        · rw [hthread]
          exact hentered
        · rw [hthread]
          exact hk
      | none =>
        have hasked : ∀ j, (w'.worker j).suspension ≠ none → j ∈ pollers below :=
          fun j hj => h.asked j fun hnone => hj (htaken.none_of hnone)
        exact Unasked.unwind (.block k task' outer temporary :: below) hasked ⟨hworker, hentered⟩ _

end Thread

/-! ## Runs -/

namespace Session

variable {s : Session}

/-- A caller has entered no worker, and leaves no request. -/
theorem errand_requests (w : World) :
    Errand w True True (fun _ => True) (w.Requests {}) where
  toHandling := World.Requests.handling {} w place
  shared _ _ _ _ := trivial
  share _ h _ := h.next (.of_workers rfl)
  unshare _ h := h.next (.of_workers rfl)
  hire _ hook h := (h.next (.newWorker {} _ hook)).next (.of_workers rfl)
  unname _ h := h.next (.of_workers rfl)
  fire h _ := h.next (.dropWorker {} _ place _)
  make _ _ _ _ h _ := h.next (.of_workers rfl)
  fresh _ := trivial

theorem act_requests {op : Op} (hlaunch : s.launch op = none) :
    s.world.Requests {} (s.act op).1.world :=
  (errand_requests s.world).act (.refl {} _) hlaunch (fun _ => trivial)
    (fun _ => scheduleFrame_keeps (.refl {} _) (.enqueue {} _ _ _)) (fun _ => trivial) fun _ _ =>
    trivial

theorem launch_unasked {s' : Session} {op : Op} {begun : World × Thread × Progress}
    (hnone : ∀ k, (s.world.worker k).suspension = none) (hlaunch : s.launch op = some (s', begun)) :
    begun.2.2.isAborted = true ∨ begun.2.1.Unasked begun.1 := by
  have hidle : ∀ {w : World}, s.world.Requests {} w → ({} : Thread).Unasked w :=
    fun hw => ⟨rfl, fun k hk => absurd (hw.none_of (hnone k)) hk⟩
  cases op with
  | pump worker =>
    cases hlaunch
    have hnamed := hidle (.namedWorker {} s.world worker)
    exact .inr ⟨⟨rfl, rfl⟩, hnamed.asked⟩
  | blockOn worker body arg =>
    cases hlaunch
    have hnamed := World.Requests.namedWorker {} s.world worker
    have hmade : s.world.Requests {} ((s.world.namedWorker worker).1.newTask place body arg).1 :=
      hnamed.next (.of_workers rfl)
    exact (hidle hmade).beginBlock _ _ false
  | blockOnTask worker task =>
    simp only [launch] at hlaunch
    obtain ⟨t, -, e⟩ := Option.map_eq_some_iff.mp hlaunch
    cases e
    have hnamed := World.Requests.namedWorker {} s.world worker
    have hunshared : s.world.Requests {} { (s.world.namedWorker worker).1 with
        tasks := (s.world.namedWorker worker).1.tasks.erase task } := hnamed.next (.of_workers rfl)
    exact (hidle hunshared).beginBlock _ t false
  | blockOnFree body arg =>
    cases hlaunch
    have hworker := World.Requests.newWorker {} s.world .unlock
    have hmade : s.world.Requests {} ((s.world.newWorker .unlock).1.newTask place body arg).1 :=
      hworker.next (.of_workers rfl)
    exact (hidle hmade).beginBlock _ _ true
  | _ => cases hlaunch

theorem close_requests (s : Session) : s.world.Requests {} s.close.world := by
  have hcleared : s.world.Requests {}
      { s.world with log := #[], tasks := .empty, workerNames := .empty } :=
    .of_workers rfl
  have hworkers : ∀ (ks : List WorkerId) (w : World),
      w.Requests {} (ks.foldl (fun w k => w.dropWorker place k) w) := by
    intro ks
    induction ks with
    | nil => exact fun w => .refl {} w
    | cons k rest ih => exact fun w => World.Requests.next (.dropWorker {} w place k) (ih _)
  exact (hcleared.next (.dropTasks {} _ place _)).next (hworkers _ _)

end Session

theorem Thread.Unasked.idle {w : World} {t : Thread} (h : t.Unasked w) (hidle : t.stack = [])
    (k : WorkerId) : (w.worker k).suspension = none := by
  refine Option.eq_none_iff_forall_ne_some.mpr fun s hk => ?_
  have hmem := h.asked k (by rw [hk]; rintro ⟨⟩)
  rw [hidle] at hmem
  cases hmem

/-- In every run, only a worker on which a frame is polled has a request. -/
theorem Reach.unasked {allowed : Moment → Action → Prop} {m : Moment} (h : Reach allowed m)
    (hlive : m.session.aborted = none) : m.thread.Unasked m.world := by
  induction h with
  | start bodies => exact ⟨rfl, fun k hk => absurd rfl hk⟩
  | @next m action _ hcan _ ih =>
    have h := ih hcan.live
    have harrived : ∀ (s : Session) (r : World × Thread × Progress),
        (s.receive r).aborted = none → r.2.2.isAborted = true ∨ r.2.1.Unasked r.1 →
        r.2.1.Unasked (s.receive r).world := by
      intro s r hreceived hr
      obtain ⟨w, t, progress⟩ := r
      rcases hr with haborted | hr
      · cases progress with
        | aborted e => cases hreceived
        | _ => cases haborted
      · have hsteady := (Moment.receive_agrees s (w, t, progress)).2
        exact ⟨hr.entered, fun k hk => hr.asked k (hsteady.suspension k ▸ hk)⟩
    cases action with
    | step => exact harrived _ _ hlive h.step
    | close =>
      have hidle : m.thread.stack = [] := hcan.2
      exact h.of_requests (Session.close_requests m.session) h.entered fun _ hk => hk
    | call op =>
      have hidle : m.thread.stack = [] := hcan.2
      have hnone : ∀ k, (m.opened.world.worker k).suspension = none := h.idle hidle
      simp only [Moment.act, Moment.call] at hlive ⊢
      cases hlaunch : m.opened.launch op with
      | some r =>
        obtain ⟨s, begun⟩ := r
        simp only [hlaunch] at hlive ⊢
        exact harrived s begun hlive (Session.launch_unasked hnone hlaunch)
      | none =>
        simp only [hlaunch] at hlive ⊢
        have hopened : m.thread.Unasked m.opened.world := ⟨h.entered, h.asked⟩
        exact hopened.of_requests (Session.act_requests hlaunch) h.entered fun _ hk => hk

end Substrate.Coro
