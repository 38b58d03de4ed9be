import Substrate.Proofs.Coro.Chains
import Substrate.Proofs.Coro.Edits.Bodies
import Substrate.Proofs.Coro.BodyInvariants

/-!
# Steps by edits

Each step of a thread is made of edits and entered in every ledger, as long as it does not end
everything.

* `Thread.asks` lists the polls of pending tasks in a step.
* `Ledger.step` is about every step.  What it needs under `strict` is that the body
  does not schedule itself, and that a body that returns wakes only a frame that
  waits and is published nowhere.
-/

namespace Substrate.Coro

/-- The desk after what a thread did. -/
def Desk.after (d : Desk) (r : World × Thread × Progress) : Desk :=
  { d with world := r.1, hand := blocked r.2.1.stack, polled := polls r.2.1.stack }

/-- The desk while a thread is in the middle of its activities. -/
def Thread.desk (t : Thread) (w : World) (asked : List (FrameId × FrameId)) (done : List FrameId)
    (popped : List (WorkerId × FrameId) := []) : Desk :=
  { world := w, hand := blocked t.stack, polled := polls t.stack, asked, done, popped }

/-- The polls that the next step of a thread makes of pending tasks. -/
def Thread.asks (t : Thread) (w : World) : List (FrameId × FrameId) :=
  match t.polling with
  | none => []
  | some f =>
    match (w.frame f).wait, (w.frame f).code with
    | some wait, _ => w.asksWait t.toPlace f wait
    | none, s :: code => (w.modifyFrame f fun frame => { frame with code }).asksStmt t.toPlace f s
    | none, [] => []

/-- The frame that the next step of a thread takes from the lists of a worker. -/
def Thread.pops (t : Thread) (w : World) : List (WorkerId × FrameId) :=
  match t.stack with
  | .pump k _ _ :: _ => (w.nextFrame k).toList.map fun next => (k, next.1)
  | _ => []

/-- The world once the body that a thread polls has returned, before its frame is disposed of. -/
def Thread.ended (t : Thread) (w : World) : World :=
  match t.stack with
  | .poll k f outer :: _ => Thread.finish w t.toPlace k f outer
  | _ => w

/-- A frame that can be woken: it waits, and nobody else can schedule it. -/
structure World.Wakeable (w : World) (b : FrameId) : Prop where
  alive : (w.frame b).alive = true
  suspended : (w.frame b).stage = .suspended
  unpublished : ∀ slot, w.slot slot ≠ some b

/-- A statement that finds a lock held asks for nothing. -/
theorem World.asksStmt_of_stuck {w : World} {p : Place} {f : FrameId} {s : Stmt}
    (h : (w.exec p f s).2 = .stuck) : w.asksStmt p f s = [] := by
  cases s with
  | pollOnce wanted =>
    simp only [World.exec] at h
    split at h <;> cases h
  | _ => rfl

theorem World.exec_ne_finish (w : World) (p : Place) (f : FrameId) (s : Stmt) :
    (w.exec p f s).2 ≠ .finish := by
  unfold World.exec
  split
  all_goals
    try simp only [World.onTask, World.startNamed, World.takeNamed, World.unpark, World.parkHolding,
      World.spin]
  all_goals repeat' split
  all_goals
    intro e
    cases e

/-- Only a body that waits for nothing and has nothing left to run returns. -/
theorem Thread.advance_finish {w : World} {p : Place} {f : FrameId}
    (h : (Thread.advance w p f).2 = .finish) :
    (w.frame f).wait = none ∧ (w.frame f).code = [] ∧ (Thread.advance w p f).1 = w := by
  unfold Thread.advance at h ⊢
  cases hwait : (w.frame f).wait with
  | some wait =>
    simp only [hwait] at h
    rcases World.askWait_move w p f wait with e | e | ⟨message, e⟩ <;> rw [e] at h <;> cases h
  | none =>
    cases hcode : (w.frame f).code with
    | nil => exact ⟨rfl, rfl, rfl⟩
    | cons s code =>
      simp only [hwait, hcode] at h
      exact absurd h (World.exec_ne_finish _ _ _ _)

theorem Thread.asks_of_stuck {w : World} {t : Thread} {k : WorkerId} {f : FrameId}
    {outer : Option FrameId} (h : (Thread.advance w t.toPlace f).2 = .stuck) :
    ({ t with stack := .poll k f outer :: t.stack } : Thread).asks w = [] := by
  unfold Thread.advance at h
  unfold Thread.asks
  simp only [Thread.polling]
  cases hwait : (w.frame f).wait with
  | some wait =>
    simp only [hwait] at h
    rcases World.askWait_move w t.toPlace f wait with e | e |
      ⟨message, e⟩ <;> rw [e] at h <;> cases h
  | none =>
    cases hcode : (w.frame f).code with
    | nil => rfl
    | cons s code =>
      simp only [hwait, hcode] at h
      exact World.asksStmt_of_stuck h

/-- A body returns in the next step if that is what it does next. -/
theorem Thread.returning_poll (w : World) (t : Thread) (k : WorkerId) (f : FrameId)
    (outer : Option FrameId) : ({ t with stack := .poll k f outer :: t.stack } : Thread).returning
    w = match (Thread.advance w t.toPlace f).2 with
      | .finish => some f
      | _ => none := by
  split
  · rename_i h
    obtain ⟨hwait, hcode, -⟩ := Thread.advance_finish h
    simp [Thread.returning, Thread.polling, hwait, hcode]
  · rename_i h
    refine Option.filter_eq_none_iff.mpr fun g hg hreturns => h ?_
    cases hg
    simp only [Bool.and_eq_true, Option.isNone_iff_eq_none, List.isEmpty_iff] at hreturns
    simp [Thread.advance, hreturns]

section

variable (w : World) (p : Place) (k : WorkerId) (f : FrameId) (outer : Option FrameId)

theorem finish_frameCount : (Thread.finish w p k f outer).frameCount = w.frameCount := by
  obtain ⟨log, inFlight, heq⟩ := finish_eq w p k f outer
  rw [heq]
  exact World.dropTasks_frameCount _ _ _

theorem finish_stage : ((Thread.finish w p k f outer).frame f).stage = .complete := by
  obtain ⟨log, inFlight, heq⟩ := finish_eq w p k f outer
  rw [heq]
  show ((World.modifyFrame _ f _).frame f).stage = _
  rw [World.frame_modifyFrame, if_pos rfl]

end

/-- A body that returns was polled by the worker that takes back the poll. -/
theorem finish_runner (w : World) (p : Place) (k : WorkerId) {f : FrameId} (hf : f < w.frameCount)
    (outer : Option FrameId) : ((Thread.finish w p k f outer).frame f).runner =
    (w.frame f).runner := by
  have hbereft : World.Deeds True True (fun _ => True) w (bereft w p f) :=
    .bereft trivial (fun _ _ => trivial) f
  obtain ⟨log, inFlight, heq⟩ := finish_eq w p k f outer
  rw [heq]
  show ((World.modifyFrame _ f _).frame f).runner = _
  rw [World.frame_modifyFrame, if_pos rfl]
  exact hbereft.ran.made f hf

/-- Nothing happens, or the result of a complete frame is taken and the handle loses it. -/
theorem World.takeOutput_eq (w : World) (p : Place) (t : Task) :
    w.takeOutput p t = (w, t, none) ∨ ∃ c, t.frame = some c ∧ (w.frame c).stage = .complete ∧
      (w.takeOutput p t).2.1.frame = none := by
  unfold World.takeOutput
  split
  · exact .inl rfl
  · rename_i c hframe
    simp only
    split
    · rename_i hcomplete
      exact .inr ⟨c, hframe, by simpa [Frame.isComplete] using hcomplete, rfl⟩
    · exact .inl rfl

theorem Thread.dispose_awaited (w : World) (t : Thread) (k : WorkerId) {f : FrameId}
    (h : (w.frame f).disposal = .awaited) :
    Thread.dispose w t k f = ((woken w k f).drainRetired t.toPlace k, t, .running) := by
  unfold Thread.dispose woken
  cases (w.frame f).continuation <;> simp only [h]

/-- A frame does not retire twice. -/
theorem World.retire_refused (w : World) (k : WorkerId) {f : FrameId}
    (h : (w.frame f).retired = true) :
    w.retire k f = .error (.doubleRetire (frameNumber f)) := by
  unfold World.retire
  simp only
  rw [if_pos (show ((w.emit (.retire f)).frame f).retired = true from h)]

namespace Ledger

variable {strict known : Prop} {R : Desk → Desk → Prop} (L : Ledger strict known R) {d : Desk}
include L

/-- The retire list of a worker that is empty is drained. -/
theorem drain (p : Place) (k : WorkerId) : R d { d with world := d.world.drainRetired p k } := by
  refine L.calm (.of_neat fun hneat => ?_) fun hneat =>
    .of_still (.drainRetired _ p (hneat.drained k))
  exact .agrees (d.world.drainRetired_agrees p (hneat.drained k))
    (d.world.steady_drainRetired p (hneat.drained k)).retired

/-- A worker made for one task goes. -/
theorem dropTemporary (p : Place) (k : WorkerId) (temporary : Bool) :
    R d { d with world := if temporary then d.world.dropWorker p k else d.world } := by
  cases temporary with
  | false => exact L.refl d
  | true =>
    refine L.calm (.of_neat fun hneat => ?_) fun hneat =>
      .of_still (.dropWorker _ p (hneat.drained k))
    obtain ⟨hagrees, hsteady⟩ := d.world.dropTemporary p (hneat.drained k) true
    exact .agrees hagrees hsteady.retired

/-! ## Faults -/

theorem unwind (e : Fault) (stack : List Activity) : ∀ {d : Desk} (t : Thread),
    d.hand = blocked stack → d.polled = polls stack →
      (Thread.unwind d.world t e stack).2.2.isAborted = false →
        R d (d.after (Thread.unwind d.world t e stack)) := by
  induction stack with
  | nil =>
    intro d t hhand hpolled _
    obtain ⟨w, hand, polled, asked, done, popped⟩ := d
    cases hhand
    cases hpolled
    exact L.refl _
  | cons activity below ih =>
    intro d t hhand hpolled hlive
    cases activity with
    | pump k outer count => exact ih _ hhand hpolled hlive
    | release k token => exact ih _ hhand hpolled hlive
    | poll k f outer => cases hlive
    | block k task outer temporary =>
      have hdropped : R d _ := L.dropTask ({ t with worker := outer } : Thread).toPlace task hhand
      have hgone := L.trans hdropped
        (L.dropTemporary ({ t with worker := outer } : Thread).toPlace k temporary)
      exact L.trans hgone (ih _ rfl hpolled hlive)

/-- A handle outside the world starts its frame. -/
theorem startHand {f : FrameId} {hand : List Task} (hhand : d.hand = ⟨some f, false⟩ :: hand)
    (k : WorkerId) (hstage : (d.world.frame f).stage ≠ .complete) :
    R d { d with world := d.world.enqueue k f, hand := ⟨some f, true⟩ :: hand } := by
  refine L.deeds (.one fun hneat => .start k (.of_agrees (.refl _) fun _ => rfl) hneat.world
    (fun c => ?_) ?_ hstage) (.enqueue (.inl trivial) f)
  · have := Fewer.started f hand c
    simp only [Desk.handles, hhand, List.count_append] at *
    omega
  · simp [Desk.handles, hhand]

/-- A thread starts to run a task to its end. -/
theorem beginBlock {t : Thread} {task : Task} (hhand : d.hand = task :: blocked t.stack)
    (hpolled : d.polled = polls t.stack) (k : WorkerId) (temporary : Bool)
    (hlive : (Thread.beginBlock d.world t k task temporary).2.2.isAborted = false) :
    R d (d.after (Thread.beginBlock d.world t k task temporary)) := by
  have hfailed : ∀ {task' : Task} {e : Fault},
      Fewer (task :: blocked t.stack) (task' :: blocked t.stack) →
      (Thread.unwind d.world { t with worker := some k } e
        (.block k task' t.worker temporary :: t.stack)).2.2.isAborted = false →
      R d (d.after (Thread.unwind d.world { t with worker := some k } e
        (.block k task' t.worker temporary :: t.stack))) := by
    intro task' e hfewer hlive
    have hchanged : R d { d with hand := task' :: blocked t.stack } := L.forget (hhand ▸ hfewer)
    exact L.trans hchanged
      (L.unwind e (.block k task' t.worker temporary :: t.stack) _ rfl hpolled hlive)
  obtain ⟨frame, started⟩ := task
  unfold Thread.beginBlock World.startTask at hlive ⊢
  cases frame with
  | none => exact hfailed (.refl _) hlive
  | some f =>
    cases started with
    | true =>
      obtain ⟨w, hand, polled, asked, done, popped⟩ := d
      cases hhand
      cases hpolled
      exact L.refl _
    | false =>
      simp only [Bool.false_eq_true, if_false] at hlive ⊢
      cases hschedule : d.world.schedule { t.toPlace with worker := some k } k f with
      | error e =>
        rw [hschedule] at hlive
        exact hfailed (.started f _) hlive
      | ok w =>
        obtain ⟨rfl, hstage⟩ := World.schedule_ok hschedule
        have hstarted : R d _ := L.startHand hhand k hstage
        rw [hpolled] at hstarted
        exact hstarted

/-- The result of an activity goes to the one around it. -/
theorem giveResult {t : Thread} (hhand : d.hand = blocked t.stack)
    (hpolled : d.polled = polls t.stack)
    (r : Result) : R d (d.after (Thread.giveResult d.world t r)) := by
  obtain ⟨w, hand, polled, asked, done, popped⟩ := d
  cases hhand
  cases hpolled
  unfold Thread.giveResult
  split
  · exact L.refl _
  · exact L.say _ _
  · exact L.useOutput _ _
  · exact L.refl _

/-! ## Polls that end -/

section

variable {t : Thread} {k : WorkerId} {f : FrameId} {outer : Option FrameId}

/-- A frame is published in a slot, or the slot is occupied. -/
theorem publish (outer : Option FrameId) (hhand : d.hand = blocked t.stack)
    (hpolled : d.polled = f :: polls t.stack) {w : World}
    (hagrees : (released d.world k f outer).Agrees w)
    (hretired : ∀ k', (w.worker k').retired = ((released d.world k f outer).worker k').retired)
    (hcalm : (released d.world k f outer).Calm w)
    {slot : String} {token : LockToken} {r : World × Thread × Progress}
    (hr : r = match w.publish slot f with
      | .error e => Thread.unwind w t e t.stack
      | .ok w =>
        if token.isNone then (w.drainRetired t.toPlace k, t, .running)
        else (w, { t with stack := .release k token :: t.stack }, .running))
    (hlive : r.2.2.isAborted = false) : R d (d.after r) := by
  have hreleased : d.world.Calm w := (World.Calm.released d.world k f outer).trans hcalm
  unfold World.publish at hr
  cases hslot : w.slot slot with
  | some occupant =>
    rw [hslot] at hr
    rw [hr] at hlive ⊢
    have hrest : Edits strict d
        { d with world := released d.world k f outer, polled := polls t.stack } :=
      .one fun _ => .rest k outer hpolled
    have hparked : R d { d with world := w, polled := polls t.stack } :=
      L.calm (hrest.trans (.agrees hagrees hretired)) fun _ => hreleased
    exact L.trans hparked (L.unwind _ t.stack t hhand rfl hlive)
  | none =>
    have hvacant : d.world.slot slot = none := by
      rw [← hslot, World.slot, World.slot, hagrees.slots]
      rfl
    have hpark : Edits strict d { d with
        world := (released d.world k f outer).setSlot slot (some f)
        polled := polls t.stack } :=
      .one fun _ => .park k outer hpolled hvacant
    have hpublished : ((released d.world k f outer).setSlot slot (some f)).Agrees
        (w.setSlot slot (some f)) :=
      ⟨hagrees.frame, hagrees.frameCount, hagrees.ends, hagrees.runLists, hagrees.tasks,
        congrArg (·.set slot (some f)) hagrees.slots⟩
    have hparked : R d { d with world := w.setSlot slot (some f), polled := polls t.stack } :=
      L.calm (hpark.trans (.agrees hpublished hretired)) fun _ =>
        hreleased.trans (.of_still (.elsewhere rfl))
    rw [hhand] at hparked
    rw [hslot] at hr
    simp only at hr
    split at hr
    · rw [hr]
      exact L.trans hparked (L.drain _ k)
    · rw [hr]
      exact hparked

/-- A body waits, and its frame goes where it has asked to go. -/
theorem suspend (hhand : d.hand = blocked t.stack) (hpolled : d.polled = f :: polls t.stack)
    (hlive : (Thread.suspend d.world t k f outer).2.2.isAborted = false) :
    R d (d.after (Thread.suspend d.world t k f outer)) := by
  have hsuspend := suspend_eq d.world t k f outer
  generalize Thread.suspend d.world t k f outer = r at hlive hsuspend
  cases hasked : (d.world.worker k).suspension with
  | none =>
    rw [hasked] at hsuspend
    rw [hsuspend, Desk.after, ← hhand]
    have hrest : R d { d with world := released d.world k f outer, polled := polls t.stack } :=
      L.calm (.one fun _ => .rest k outer hpolled) fun _ => .released d.world k f outer
    exact L.trans hrest (L.drain _ k)
  | some request =>
    rw [hasked] at hsuspend
    cases request with
    | turn =>
      rw [hsuspend, Desk.after, ← hhand]
      have hyield : R d { d with
          world := ((released d.world k f outer).defer k f).count k
            fun s => { s with yielded := s.yielded + 1 }
          polled := polls t.stack } := by
        refine L.calm (.one fun _ => .yield k outer hpolled) fun _ => ?_
        refine (World.Calm.released d.world k f outer).trans
          (.of_kept rfl (fun _ => .refl _) fun j => ?_)
        show ((World.modifyWorker _ k _).worker j).stats.destroyed ≤ _
        rw [World.worker_modifyWorker]
        split <;> exact Nat.le_refl _
      exact L.trans hyield (L.drain _ k)
    | park slot token =>
      obtain ⟨hcount, hcount'⟩ := (released d.world k f outer).count_agrees k
        fun s => { s with parked := s.parked + 1 }
      obtain ⟨hemit, hemit'⟩ := World.emit_agrees ((released d.world k f outer).count k
        fun s => { s with parked := s.parked + 1 }) (.park f token)
      have hcounted : (released d.world k f outer).Still
          ((released d.world k f outer).count k fun s =>
          { s with parked := s.parked + 1 }) := .modifyWorker _ rfl
      exact L.publish outer hhand hpolled (hcount.trans hemit) (hcount'.trans hemit').retired
        (.of_still (hcounted.trans (.elsewhere rfl))) hsuspend hlive

/-- A body that returns lets go of its own tasks, and then its worker takes back the poll. -/
theorem finish (p : Place) (k : WorkerId) (outer : Option FrameId)
    (hpolled : d.polled = f :: polls t.stack) :
    R d { d with
      world := Thread.finish d.world p k f outer
      polled := polls t.stack
      done := f :: d.done } := by
  have hf : f ∈ d.polled := hpolled ▸ List.mem_cons_self
  have hgiven : R d { d with
      world := d.world.modifyFrame f fun frame => { frame with tasks := [] }
      hand := (d.world.frame f).tasks.map Prod.snd ++ d.hand } := by
    refine L.deeds (.shift hf ⟨rfl, rfl, rfl, rfl, rfl⟩ (fun _ => List.nodup_nil) (fun wait => .inl)
      fun c => ?_) (.touch ⟨rfl, rfl, rfl, rfl⟩)
    simp only [Frame.heldTasks, List.count_append, List.map_nil, List.count_nil]
    omega
  have hbereft : R d { d with world := bereft d.world p f } := L.trans hgiven (L.dropTasks p _ rfl)
  obtain ⟨log, inFlight, heq⟩ := finish_eq d.world p k f outer
  rw [heq]
  have hlogged : R d { d with world := { bereft d.world p f with log, inFlight } } :=
    L.trans hbereft (L.elsewhere rfl)
  exact L.trans hlogged
    (L.calm (.one fun _ => .complete k outer _ hpolled) fun _ => .completed _ _ _ _ _)

/-- The frame of a body that has returned wakes the frame that asked for it, or it goes. -/
theorem dispose (hhand : d.hand = blocked t.stack) (hpolled : d.polled = polls t.stack)
    (hmade : f < d.world.frameCount) (hstage : (d.world.frame f).stage = .complete)
    (hwake : strict → ∀ b, (d.world.frame f).continuation = some b → d.world.Wakeable b)
    (hrunner : known → (d.world.frame f).runner = some k)
    (hlive : (Thread.dispose d.world t k f).2.2.isAborted = false) :
    R d (d.after (Thread.dispose d.world t k f)) := by
  cases hdisposal : (d.world.frame f).disposal with
  | awaited =>
    have hsevered : World.Deeds False False (fun _ => True) d.world
        (d.world.modifyFrame f fun frame => { frame with continuation := none }) :=
      .touch ⟨rfl, rfl, rfl, rfl⟩
    have hwoken : R d { d with world := woken d.world k f } := by
      unfold woken
      split
      · rename_i b hb
        refine L.deeds (.one fun _ => .wake k hstage hb fun h => ?_)
          (hsevered.trans (.enqueue (.inl trivial) b))
        exact ⟨(hwake h b hb).alive, (hwake h b hb).suspended, (hwake h b hb).unpublished⟩
      · rename_i hb
        exact L.deeds (.touch ⟨rfl, rfl, rfl, hb.symm, rfl⟩ rfl rfl) hsevered
    rw [Thread.dispose_awaited d.world t k hdisposal, Desk.after, ← hhand, ← hpolled]
    exact L.trans hwoken (L.drain _ k)
  | detached =>
    simp only [Thread.dispose, hdisposal] at hlive ⊢
    cases hfresh : (d.world.frame f).retired with
    | false =>
      have horphaned : (d.world.frame f).orphaned = true := by
        rw [Frame.orphaned, hdisposal, hfresh]
        rfl
      rw [retire_eq d.world k hfresh, Desk.after, ← hhand, ← hpolled]
      exact L.retire _ hmade hstage hrunner horphaned
    | true =>
      rw [d.world.retire_refused k hfresh] at hlive ⊢
      exact L.unwind _ t.stack t hhand hpolled hlive

end

/-! ## Steps -/

section

variable {t : Thread} {k : WorkerId} {f : FrameId} {outer : Option FrameId}

/-- What the body of a frame does next. -/
theorem advance (hthread : t.thread = 0) (hf : f ∈ d.polled) (hstrict : strict → ∀ s ∈
      ({ t with stack := .poll k f outer :: t.stack } : Thread).nextStmt d.world,
        ∀ worker, s ≠ .scheduleSelf worker)
    (hlive : ∀ message, (Thread.advance d.world t.toPlace f).2 ≠ .raise message) :
    R d { d with
      world := (Thread.advance d.world t.toPlace f).1
      hand := (Thread.advance d.world t.toPlace f).2.hand ++ d.hand
      asked := d.asked ++
        ({ t with stack := .poll k f outer :: t.stack } : Thread).asks d.world } := by
  unfold Thread.advance Thread.asks
  unfold Thread.advance at hlive
  unfold Thread.nextStmt at hstrict
  simp only [Thread.polling, Option.bind_some] at hstrict hlive ⊢
  cases hwait : (d.world.frame f).wait with
  | some wait =>
    rw [hwait] at hlive
    have hasked : R d _ := L.askWait hf t.toPlace hwait hlive
    have hnone : (d.world.askWait t.toPlace f wait).2.hand = [] := by
      rcases World.askWait_move d.world t.toPlace f wait with e | e |
        ⟨message, e⟩ <;> rw [e] <;> rfl
    simp only [hnone]
    exact hasked
  | none =>
    cases hcode : (d.world.frame f).code with
    | nil => exact L.quiet d
    | cons s code =>
      have hadvanced : R d { d with
          world := d.world.modifyFrame f fun frame => { frame with code } } :=
        L.compute ⟨_, _, _, rfl⟩
      rw [hwait, hcode] at hstrict
      exact L.trans hadvanced (L.exec (by exact hf) hthread fun h => hstrict h s rfl)

/-- The body of a frame runs for one step. -/
theorem runBody (hthread : t.thread = 0) (hhand : d.hand = blocked t.stack)
    (hpolled : d.polled = f :: polls t.stack)
    (hstmt : strict →
    ∀ s ∈ ({ t with stack := .poll k f outer :: t.stack } : Thread).nextStmt d.world,
      ∀ worker, s ≠ .scheduleSelf worker)
    (hwake : strict → (d.world.frame f).wait = none → (d.world.frame f).code = [] →
      ∀ b, ((Thread.finish d.world t.toPlace k f outer).frame f).continuation = some b →
        (Thread.finish d.world t.toPlace k f outer).Wakeable b)
    (hrunner : known → (d.world.frame f).runner = some k)
    (hlive : (Thread.runBody d.world t k f outer).2.2.isAborted = false) :
    R d ({ d with
      asked := d.asked ++ ({ t with stack := .poll k f outer :: t.stack } : Thread).asks d.world
      done :=
      (({ t with stack := .poll k f outer :: t.stack } : Thread).returning d.world).toList ++
        d.done }.after (Thread.runBody d.world t k f outer)) := by
  refine L.of_neat fun hneat => ?_
  have hf : f ∈ d.polled := hpolled ▸ List.mem_cons_self
  have hmade : f < d.world.frameCount := hneat.polled f hf
  have hadvanced := L.advance hthread hf hstmt
  have hfinish := Thread.advance_finish (w := d.world) (p := t.toPlace) (f := f)
  have hreturning := Thread.returning_poll d.world t k f outer
  rw [Thread.runBody_eq] at hlive ⊢
  generalize ({ t with stack := .poll k f outer :: t.stack } : Thread).returning d.world = returning
    at hreturning ⊢
  generalize hasks : ({ t with stack := .poll k f outer :: t.stack } : Thread).asks d.world = asked
    at hadvanced ⊢
  generalize hr : Thread.advance d.world t.toPlace f = r at hadvanced hlive hfinish hreturning ⊢
  obtain ⟨after, move⟩ := r
  obtain ⟨w, hand, polled, log, done, popped⟩ := d
  cases hhand
  cases hpolled
  subst hreturning
  cases move with
  | next => exact hadvanced nofun
  | pump k' => exact hadvanced nofun
  | block k' task temporary =>
    exact L.trans (hadvanced nofun)
      (L.beginBlock (t := { t with stack := .poll k f outer :: t.stack })
      rfl rfl k' temporary hlive)
  | raise message => cases hlive
  | stuck =>
    have hnothing : ({ t with stack := .poll k f outer :: t.stack } : Thread).asks w = [] :=
      Thread.asks_of_stuck (by rw [hr])
    exact silent (R := R) (L.refl _) (hasks.symm.trans hnothing)
  | suspend => exact L.trans (hadvanced nofun) (L.suspend rfl rfl hlive)
  | finish =>
    obtain ⟨hwait, hcode, rfl⟩ := hfinish rfl
    have hreturned := L.trans (hadvanced nofun) (L.finish t.toPlace k outer rfl)
    refine L.trans hreturned (L.dispose rfl rfl ?_ ?_ (fun h => hwake h hwait hcode) ?_ hlive)
    · rw [finish_frameCount]
      exact hmade
    · exact finish_stage _ _ _ _ _
    · exact fun h => (finish_runner _ t.toPlace k hmade outer).trans (hrunner h)

end

/-- A worker resumes the next frame of its lists, passes over it, or has none left. -/
theorem pump {p : Place} {k : WorkerId} {outer : Option WorkerId} {count : Nat}
    {below : List Activity}
    (hhand : d.hand = blocked below) (hpolled : d.polled = polls below) :
    R d ({ d with
      popped := d.popped ++ Thread.pops ⟨p, .pump k outer count :: below⟩ d.world }.after
        (Thread.step d.world ⟨p, .pump k outer count :: below⟩)) := by
  simp only [Thread.step, Thread.pops]
  cases hnext : d.world.nextFrame k with
  | none =>
    simp only [Option.toList_none, List.map_nil, List.append_nil]
    exact L.giveResult hhand hpolled _
  | some next =>
    obtain ⟨f, w⟩ := next
    have hframe : w.frame f = d.world.frame f := by
      rw [World.nextFrame_same hnext]
      rfl
    simp only
    split
    · rename_i hcond
      rw [hframe, Bool.and_eq_true, Bool.not_eq_true'] at hcond
      have hstage : (d.world.frame f).stage ≠ .complete := by
        simpa [Frame.isComplete] using hcond.2
      have hresumed : R d { d with
          world := (Thread.beginPoll w ⟨p, .pump k outer (count + 1) :: below⟩ k f).1
          polled := f :: d.polled, popped := d.popped ++ [(k, f)] } := by
        refine L.calm (.one fun hneat => .resume _ hnext (hneat.born f hcond.1).1 hcond.1 hstage)
          fun _ => ?_
        exact (World.Calm.nextFrame hnext).trans
          (.beginPoll w ⟨p, .pump k outer (count + 1) :: below⟩ k (hframe.symm ▸ hcond.1))
      rw [hhand, hpolled] at hresumed
      exact hresumed
    · have hskipped : R d { d with world := w, popped := d.popped ++ [(k, f)] } :=
        L.calm (.one fun _ => .skip hnext) fun _ => .nextFrame hnext
      have hdrained := L.trans hskipped (L.drain p k)
      rw [hhand, hpolled] at hdrained
      exact hdrained

/-- A worker releases a token. -/
theorem release {p : Place} {k : WorkerId} {token : LockToken} {below : List Activity}
    (hhand : d.hand = blocked below) (hpolled : d.polled = polls below) :
    R d (d.after (Thread.step d.world ⟨p, .release k token :: below⟩)) := by
  have hreleased : R d { d with world := d.world.release p (d.world.worker k).hook token } := by
    unfold World.release
    split
    · exact L.elsewhere rfl
    · exact L.elsewhere rfl
    · exact L.refl d
  have hdrained := L.trans hreleased (L.drain p k)
  rw [hhand, hpolled] at hdrained
  exact hdrained

/-- A task was run to its end, or nothing is left that could bring it there. -/
theorem block_ended {p : Place} {k : WorkerId} {task : Task} {outer : Option WorkerId}
    {temporary : Bool}
    {below : List Activity} (hhand : d.hand = task :: blocked below)
    (hpolled : d.polled = polls below)
    (hlive : (Thread.step d.world ⟨p, .block k task outer temporary :: below⟩).2.2.isAborted =
      false) :
    R d (d.after (Thread.step d.world ⟨p, .block k task outer temporary :: below⟩)) := by
  have hmem : task ∈ d.handles := List.mem_append_right _ (hhand ▸ List.mem_cons_self)
  simp only [Thread.step] at hlive ⊢
  rcases d.world.takeOutput_eq p task with hkept | ⟨c, hframe, hstage, hlost⟩
  · rw [hkept] at hlive ⊢
    exact L.unwind _ (.block k task outer temporary :: below) _ hhand hpolled hlive
  · -- the result is taken, and the handle that is left without a frame is forgotten
    have hgone : R d { d with world := (d.world.takeOutput p task).1, hand := blocked below } := by
      refine L.spend p hmem hframe hstage (.forget_head hhand) (.of_still (.elsewhere rfl)) fun _ =>
        ?_
      have hle := (World.Shrinks.takeOutput d.world p task).handlesOn_le c
      simp only [Desk.handles, hhand, handlesOn_append, handlesOn_cons, if_pos hframe]
      omega
    generalize d.world.takeOutput p task = r at hlive hgone hlost ⊢
    obtain ⟨w, task', output⟩ := r
    cases output with
    | some o =>
      have hended := L.trans hgone (L.dropTemporary { p with worker := outer } k temporary)
      exact L.trans hended (L.giveResult rfl hpolled _)
    | none =>
      have hchanged : R d { d with world := w, hand := task' :: blocked below } :=
        L.trans hgone (L.forget (.lost _ hlost))
      exact L.trans hchanged
        (L.unwind _ (.block k task' outer temporary :: below) _ rfl hpolled hlive)

/-- One step of a thread, as long as it does not end everything. -/
theorem step {t : Thread} (hthread : t.thread = 0) (hhand : d.hand = blocked t.stack)
    (hpolled : d.polled = polls t.stack)
    (hstmt : strict → ∀ s ∈ t.nextStmt d.world, ∀ worker, s ≠ .scheduleSelf worker)
    (hwake : strict → ∀ c, t.returning d.world = some c →
      ∀ b, ((t.ended d.world).frame c).continuation = some b → (t.ended d.world).Wakeable b)
    (hrunner : known → ∀ k f outer, .poll k f outer ∈ t.stack → (d.world.frame f).runner = some k)
    (hlive : (t.step d.world).2.2.isAborted = false) :
    R d ({ d with
      asked := d.asked ++ t.asks d.world
      done := (t.returning d.world).toList ++ d.done
      popped := d.popped ++ t.pops d.world }.after (t.step d.world)) := by
  obtain ⟨p, stack⟩ := t
  -- outside any body nothing is asked for, and outside any pump no frame is taken
  have hunasked : ∀ {r : World × Thread × Progress} {popped : List (WorkerId × FrameId)},
      R d ({ d with popped }.after r) →
        R d ({ d with asked := d.asked ++ [], done := d.done, popped }.after r) := by
    intro r popped h
    rw [List.append_nil]
    exact h
  have huntaken : ∀ {r : World × Thread × Progress}, R d (d.after r) →
      R d ({ d with popped := d.popped ++ [] }.after r) := by
    intro r h
    rw [List.append_nil]
    exact h
  cases stack with
  | nil => exact hunasked (huntaken (L.giveResult hhand hpolled .nothing))
  | cons activity below =>
    cases activity with
    | pump k outer count => exact hunasked (L.pump hhand hpolled)
    | poll k f outer =>
      rw [show Thread.pops ⟨p, .poll k f outer :: below⟩ d.world = [] from rfl, List.append_nil]
      refine L.runBody (t := ⟨p, below⟩) hthread hhand hpolled hstmt (fun h hwait hcode => ?_)
        (fun h => hrunner h k f outer List.mem_cons_self) hlive
      refine hwake h f ?_
      simp [Thread.returning, Thread.polling, hwait, hcode]
    | release k token => exact hunasked (huntaken (L.release hhand hpolled))
    | block k task outer temporary => exact hunasked (huntaken (L.block_ended hhand hpolled hlive))

end Ledger

end Substrate.Coro
