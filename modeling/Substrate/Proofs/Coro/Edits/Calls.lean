import Substrate.Proofs.Coro.Edits.Steps
import Substrate.Proofs.Coro.Runs

/-!
# Runs by edits

What the caller does is made of edits, too, and so is every move of a run that does
not end everything.

* `Ledger.act`, `Ledger.launch` and `Ledger.close` are about the operations of the caller.
* `Moment.entered` is about every move, and `Moment.neat_start` about the first moment.
-/

namespace Substrate.Coro

namespace World

theorem enqueue_setTask (w : World) (k : WorkerId) (c : FrameId) (name : String) (t : Task) :
    Session.setTask (w.enqueue k c) name t = (Session.setTask w name t).enqueue k c := by
  unfold World.enqueue
  rw [show (Session.setTask w name t).runLists = w.runLists from rfl]
  cases w.runLists.push (readyList k) c <;> rfl

/-- A task that is polled outside any worker is not found pending. -/
theorem pends_outside (w : World) (t : Task) : w.pends Session.place t = [] := by
  unfold pends
  split
  · rfl
  · split <;> rfl

end World

namespace Edits

variable {strict : Prop} {d : Desk} {name : String} {t : Task}

/-! ## Handles of the caller -/

/-- Another state of a handle of the caller. -/
theorem setTask (hget : d.world.tasks.get? name = some t) {t' : Task} {hand : List Task}
    (hfewer : Fewer (t :: d.hand) (t' :: hand)) :
    Edits strict d { d with world := Session.setTask d.world name t', hand } := by
  refine setTasks (·.set name t') fun hordered c => ?_
  have hperm := Registers.values_set_perm hordered t' hget
  have := hperm.count_eq ⟨some c, false⟩
  have := hperm.count_eq ⟨some c, true⟩
  have := hfewer c
  simp only [List.count_append, List.count_cons] at *
  omega

/-- A handle of the caller that has lost its frame. -/
theorem setLost (name : String) (hlost : t.frame = none) :
    Edits strict d { d with world := Session.setTask d.world name t } :=
  ((forget (.lost d.hand hlost)).trans (shareTask rfl name)).trans (forget (.suffix _ d.hand))

/-- The desk while the caller is idle. -/
def idle (w : World) (asked : List (FrameId × FrameId)) (done : List FrameId)
    (popped : List (WorkerId × FrameId)) : Desk :=
  { world := w, asked, done, popped }

end Edits

namespace Ledger

section

variable {strict known : Prop} {R : Desk → Desk → Prop} (L : Ledger strict known R) {d : Desk}
  {name : String} {t : Task}
include L

/-- Another state of a handle of the caller. -/
theorem setTask (hget : d.world.tasks.get? name = some t) {t' : Task} {hand : List Task}
    (hfewer : Fewer (t :: d.hand) (t' :: hand)) :
    R d { d with world := Session.setTask d.world name t', hand } :=
  L.deeds (.setTask hget hfewer) (.elsewhere rfl)

/-- The caller starts a task. -/
theorem startShared (hget : d.world.tasks.get? name = some t) (k : WorkerId) :
    R d { d with world := Session.started d.world name k t } := by
  obtain ⟨frame, started⟩ := t
  unfold Session.started World.startTask
  cases frame with
  | none => exact L.setTask hget (.refl _)
  | some c =>
    cases started with
    | true => exact L.setTask hget (.refl _)
    | false =>
      simp only [Bool.false_eq_true, if_false]
      cases hschedule : d.world.schedule Session.place k c with
      | ok w =>
        obtain ⟨rfl, hstage⟩ := World.schedule_ok hschedule
        refine L.deeds ?_ ((World.Deeds.enqueue (.inl trivial) c).trans (.elsewhere rfl))
        simp only [World.enqueue_setTask]
        refine .start k ⟨fun _ => .refl _, rfl, rfl, rfl, rfl, fun _ => rfl⟩
          (fun hneat => ⟨hneat.ordered.set name _, hneat.names, hneat.childless⟩)
          (fun hneat x => ?_)
          hstage
        have hset := (Registers.values_set_perm hneat.world.ordered ⟨some c, true⟩ hget).count_eq x
        have := d.world.count_setTasks (d.world.tasks.set name ⟨some c, true⟩) x
        simp only [Session.setTask, List.count_cons, List.count_nil] at *
        omega
      | error e => exact L.setTask hget (.started _ _)

/-- The caller takes the result of a complete frame, and its handle loses the frame. -/
theorem spendShared (hget : d.world.tasks.get? name = some t) {c : FrameId}
    (hframe : t.frame = some c)
    (hstage : (d.world.frame c).stage = .complete) {t' : Task} (hlost : t'.frame = none) :
    R d { d with world := Session.setTask (d.world.takeOutput Session.place t).1 name t' } := by
  have hmem : t ∈ d.handles := List.mem_append_left _ (mem_held_of_get? hget)
  refine L.spend Session.place hmem hframe hstage (.setLost name hlost) (.of_still (.elsewhere rfl))
    fun hneat => ?_
  have hshrinks := World.Shrinks.takeOutput d.world Session.place t
  have hstored : (Session.setTask d.world name t').Shrinks
      (Session.setTask (d.world.takeOutput Session.place t).1 name t') :=
    ⟨congrArg (·.set name t') hshrinks.tasks, hshrinks.frameCount, hshrinks.frame⟩
  have hle := hstored.handlesOn_le c
  have hset : handlesOn (Session.setTask d.world name t').held c + 1 =
      handlesOn d.world.held c := by
    have hperm := Registers.values_set_perm hneat.world.ordered t' hget
    have hvalues := handlesOn_congr (fun x => (hperm.count_eq x).symm) c
    rw [handlesOn_cons, handlesOn_cons, if_pos hframe, hlost, if_neg nofun] at hvalues
    have hcount := d.world.count_setTasks (d.world.tasks.set name t')
    have := hcount ⟨some c, false⟩
    have := hcount ⟨some c, true⟩
    simp only [handlesOn, Session.setTask] at *
    omega
  simp only [Desk.handles, handlesOn_append]
  omega

/-- The caller takes the result of a task. -/
theorem takeShared (hget : d.world.tasks.get? name = some t) :
    R d { d with world := Session.emptied d.world name t } := by
  unfold Session.emptied
  rcases d.world.takeOutput_eq Session.place t with e | ⟨c, hframe, hstage, hlost⟩
  · rw [e]
    exact L.setTask hget (.refl _)
  · have hspent := L.spendShared hget hframe hstage hlost
    generalize d.world.takeOutput Session.place t = r at hspent
    obtain ⟨w, t', output⟩ := r
    cases output with
    | none => exact hspent
    | some o => exact L.trans hspent (L.dropOutput _ o)

/-- The caller polls a task outside any worker. -/
theorem pollShared (hget : d.world.tasks.get? name = some t) :
    R d { d with world := Session.polled d.world name t } := by
  unfold Session.polled
  have hpolls := d.world.pollTask_polls Session.place t
  rw [World.pends_outside] at hpolls
  generalize d.world.pollTask Session.place t = r at hpolls
  generalize hasked : ([] : List (FrameId × FrameId)) = asked at hpolls
  cases hpolls with
  | failed e => exact L.setTask hget (.refl _)
  | @taken c polled hframe hstage hpolled =>
    have hspent : R d { d with
        world := Session.setTask (d.world.takeOutput Session.place t).1 name
          { t with frame := none } } :=
      L.spendShared hget hframe hstage rfl
    cases polled with
    | pending => exact absurd rfl hpolled
    | ready o => exact L.trans hspent (L.dropOutput _ o)
    | fault e => exact hspent
  | pending => cases hasked

/-- The caller makes a task. -/
theorem newShared (name : String) (body : String) (arg : Int) :
    R d { d with
      world := Session.shared (d.world.newTask Session.place body arg).1 name
        (d.world.newTask Session.place body arg).2 } := by
  have hshared : R d _ := L.trans (L.newTask Session.place body arg rfl)
    (L.deeds (.shareTask rfl name) (.elsewhere rfl))
  unfold Session.shared
  split
  · rename_i old hget
    rw [hget] at hshared
    exact L.trans hshared (L.dropTask Session.place old rfl)
  · rename_i hget
    rw [hget] at hshared
    exact hshared

/-- A worker is given up. -/
theorem dropWorker (p : Place) (k : WorkerId) : R d { d with world := d.world.dropWorker p k } :=
  L.dropTemporary p k true

/-- A fresh worker is put under a name, and the one that had it is given up. -/
theorem putWorker (name : String) (hook : ReleaseHook) :
    R d { d with world := Session.hired d.world name hook } := by
  have hedits : Edits strict d _ := (Edits.newWorker hook).trans
    (.agrees (w := { (d.world.newWorker hook).1 with
      workerNames := (d.world.newWorker hook).1.workerNames.set name (d.world.newWorker hook).2 })
      ⟨fun _ => rfl, rfl, rfl, rfl, rfl, rfl⟩ fun _ => rfl)
  have hnamed := L.deeds hedits (.nameWorker name hook)
  unfold Session.hired
  split
  · exact L.trans hnamed (L.dropWorker Session.place _)
  · exact hnamed

theorem dropWorkers (p : Place) (workers : List WorkerId) : ∀ {d : Desk},
    R d { d with world := workers.foldl (fun w k => w.dropWorker p k) d.world } := by
  induction workers with
  | nil => exact L.refl _
  | cons k rest ih => exact L.trans (L.dropWorker p k) ih

end

/-! ## Operations of the caller -/

variable {strict known : Prop} {R : Desk → Desk → Prop} (L : Ledger strict known R) {s : Session}
  {asked : List (FrameId × FrameId)} {done : List FrameId} {popped : List (WorkerId × FrameId)}
include L

open Edits (idle)

/-- The names of workers change. -/
theorem rename {names : Registers WorkerId}
    (h : ∀ name k, names.get? name = some k → s.world.workerNames.get? name = some k) :
    R (idle s.world asked done popped)
      (idle { s.world with workerNames := names } asked done popped) :=
  L.deeds (.agrees ⟨fun _ => rfl, rfl, rfl, rfl, rfl, rfl⟩ fun _ => rfl)
    (.one (.rename fun name k hk => .inl (h name k hk)))

/-- The caller schedules a frame. -/
theorem scheduleFrame {f : FrameId} (k : WorkerId)
    (hstrict : strict → (∀ slot, s.world.slot slot ≠ some f) ∧ ⟨some f, false⟩ ∉ s.world.held) :
    R (idle s.world asked done popped)
      (idle (s.scheduleFrame Session.place k f).1.world asked done popped) := by
  unfold Session.scheduleFrame
  split
  · exact L.refl _
  · rename_i halive
    split
    · exact L.refl _
    · rename_i hrunning
      cases hschedule : s.world.schedule Session.place k f with
      | error e => exact L.refl _
      | ok w =>
        obtain ⟨rfl, hstage⟩ := World.schedule_ok hschedule
        have halive : (s.world.frame f).alive = true := by simpa using halive
        have hrunning : (s.world.frame f).stage ≠ .running := by simpa using hrunning
        refine L.deeds (.one fun _ => .schedule k hstage fun h =>
          ⟨halive, hrunning, (hstrict h).1, ?_⟩)
          (.enqueue (.inl trivial) f)
        rw [Desk.handles, idle, List.append_nil]
        exact (hstrict h).2

/-- A worker of another thread is asked to schedule a frame. -/
theorem foreign {f : FrameId} (k : WorkerId) :
    R (idle s.world asked done popped)
      (idle (s.scheduleFrame { thread := 1 } k f).1.world asked done popped) := by
  refine L.of_neat fun hneat => ?_
  unfold Session.scheduleFrame
  split
  · exact L.refl _
  · rename_i halive
    split
    · exact L.refl _
    · have halive : (s.world.frame f).alive = true := by simpa using halive
      have hhome : (s.world.frame f).home = some 0 := (hneat.born f halive).2
      have haway : (s.world.frame f).isAtHome 1 = false := by
        rw [Frame.isAtHome, hhome]
        rfl
      rw [World.schedule, haway]
      exact L.refl _

/-- The caller takes a frame out of a slot and schedules it. -/
theorem unparkFrame (slot : String) (k : WorkerId) :
    R (idle s.world asked done popped) (idle (s.unparked slot k) asked done popped) := by
  have hvacated : R (idle s.world asked done popped)
      (idle (s.world.setSlot slot none) asked done popped) :=
    L.vacate slot
  unfold Session.unparked World.takeSlot
  cases hslot : s.world.slot slot with
  | none => exact hvacated
  | some f =>
    simp only [Session.scheduleFrame]
    split
    · exact hvacated
    · split
      · exact hvacated
      · cases hschedule : (s.world.setSlot slot none).schedule Session.place k f with
        | error e => exact hvacated
        | ok w =>
          obtain ⟨rfl, -⟩ := World.schedule_ok hschedule
          exact L.unslot (d := idle s.world asked done popped) k hslot

/-- An operation that is carried out at once. -/
theorem act {op : Op} (hlaunch : s.launch op = none)
    (hstrict : strict → ∀ f, s.scheduled op = some f →
      (∀ slot, s.world.slot slot ≠ some f) ∧ ⟨some f, false⟩ ∉ s.world.held) :
    R (idle s.world asked done popped) (idle (s.act op).1.world asked done popped) := by
  have hmention : ∀ worker, R (idle s.world asked done popped)
      (idle (s.world.namedWorker worker).1 asked done popped) := fun worker => L.namedWorker worker
  have hnamed : ∀ worker {f}, (∀ slot, s.world.slot slot ≠ some f) ∧
      ⟨some f, false⟩ ∉ s.world.held →
      (∀ slot, (s.worker worker).1.world.slot slot ≠ some f) ∧
        ⟨some f, false⟩ ∉ (s.worker worker).1.world.held := by
    intro worker f h
    have hagrees := s.world.namedWorker_agrees worker
    simp only [Session.worker, World.slot, hagrees.slots, hagrees.held]
    exact h
  have heffect := s.act_effect hlaunch
  generalize (s.act op).1.world = w' at heffect ⊢
  cases heffect with
  | none => exact L.refl _
  | mention worker => exact hmention worker
  | hire name hook => exact L.putWorker name hook
  | @fire name k hk =>
    have hunnamed : R (idle s.world asked done popped)
        (idle { s.world with workerNames := s.world.workerNames.erase name } asked
          done popped) := by
      refine L.rename fun other k hother => ?_
      rw [Registers.get?_erase] at hother
      split at hother
      · cases hother
      · exact hother
    exact L.trans hunnamed (L.dropWorker _ _)
  | spawn worker body arg =>
    exact L.trans (hmention worker) (L.spawnDetached Session.place _ body arg rfl)
  | say body arg => exact L.say _ _
  | new task body arg => exact L.newShared task body arg
  | start worker hget =>
    rw [← (s.world.namedWorker_agrees worker).tasks] at hget
    exact L.trans (hmention worker) (L.startShared hget (s.world.namedWorker worker).2)
  | take hget => exact L.takeShared hget
  | poll hget => exact L.pollShared hget
  | drop hget =>
    have hgone : R (idle s.world asked done popped) _ := L.unshareTask hget
    exact L.trans hgone (L.dropTask _ _ rfl)
  | vacate slot handle => exact L.vacate slot
  | @schedule _ f worker hscheduled =>
    refine L.trans (hmention worker) (L.scheduleFrame (s := (s.worker worker).1) _ fun h => ?_)
    exact hnamed worker (hstrict h f hscheduled)
  | unpark slot worker =>
    exact L.trans (hmention worker)
      (L.unparkFrame (s := (s.worker worker).1) slot (s.worker worker).2)
  | foreign hget => exact L.foreign _
  | cancel token => exact L.beside (.cancel s.world token)
  | child token parent => exact L.beside (s.world.addChildToken_beside token parent)

/-- The activities that an operation begins. -/
theorem launch {s' : Session} {op : Op} {begun : World × Thread × Progress}
    (hlaunch : s.launch op = some (s', begun)) (hlive : begun.2.2.isAborted = false) :
    R (idle s.world asked done popped) ((idle s.world asked done popped).after begun) := by
  cases op with
  | pump worker =>
    cases hlaunch
    exact L.namedWorker worker
  | blockOn worker body arg =>
    cases hlaunch
    have hmade : R (idle s.world asked done popped) _ :=
      L.trans (L.namedWorker worker) (L.newTask Session.place body arg rfl)
    exact L.trans hmade (L.beginBlock (t := {}) rfl rfl _ false hlive)
  | blockOnTask worker task =>
    simp only [Session.launch] at hlaunch
    obtain ⟨t, hget, e⟩ := Option.map_eq_some_iff.mp hlaunch
    cases e
    have hgone : R (idle s.world asked done popped) _ :=
      L.trans (L.namedWorker worker) (L.unshareTask hget)
    exact L.trans hgone (L.beginBlock (t := {}) rfl rfl _ false hlive)
  | blockOnFree body arg =>
    cases hlaunch
    have hmade : R (idle s.world asked done popped) _ :=
      L.trans (L.newWorker .unlock) (L.newTask Session.place body arg rfl)
    exact L.trans hmade (L.beginBlock (t := {}) rfl rfl _ true hlive)
  | _ => cases hlaunch

/-- The caller lets go of all tasks and workers. -/
theorem close : R (idle s.world asked done popped) (idle s.close.world asked done popped) := by
  have hunshared : R (idle s.world asked done popped) { idle s.world asked done popped with
      world := { s.world with tasks := .empty }, hand := s.world.tasks.values ++ [] } :=
    L.deeds (.setTasks (fun _ => Registers.ordered_empty) fun _ =>
      .refl (s.world.tasks.values ++ []))
      (.elsewhere rfl)
  have hopened : R (idle s.world asked done popped) { idle s.world asked done popped with
      world := { s.world with log := #[], tasks := .empty, workerNames := .empty }
      hand := s.world.tasks.values ++ [] } := by
    refine L.trans hunshared
      (L.calm (.agrees ⟨fun _ => rfl, rfl, rfl, rfl, rfl, rfl⟩ fun _ => rfl) ?_)
    exact fun _ => .of_kept rfl (fun _ => .refl _) fun _ => Nat.le_refl _
  exact L.trans (L.trans hopened (L.dropTasks Session.place _ rfl)) (L.dropWorkers _ _)

end Ledger

/-! ## Moves of a run -/

namespace Moment

/-- The polls that an action makes of pending tasks. -/
def asks (m : Moment) : Action → List (FrameId × FrameId)
  | .step => m.thread.asks m.world
  | _ => []

/-- The frames that an action takes from run lists. -/
def pops (m : Moment) : Action → List (WorkerId × FrameId)
  | .step => m.thread.pops m.world
  | _ => []

/-- The desk at a moment. -/
def desk (m : Moment) (asked : List (FrameId × FrameId))
    (popped : List (WorkerId × FrameId) := []) :
    Desk :=
  m.thread.desk m.world asked (m.returned.map Prod.fst) popped

variable {strict : Prop} {m : Moment} {asked : List (FrameId × FrameId)}
  {popped : List (WorkerId × FrameId)}

theorem desk_idle (h : m.thread.stack = []) :
    m.desk asked popped = Edits.idle m.world asked (m.returned.map Prod.fst) popped := by
  rw [desk, Thread.desk, h]
  rfl

/-- Nothing was aborted, so the last step did not. -/
theorem receive_live {s : Session} {r : World × Thread × Progress}
    (h : (s.receive r).aborted = none) : r.2.2.isAborted = false := by
  obtain ⟨w, t, progress⟩ := r
  cases progress with
  | aborted e => cases h
  | _ => rfl

/-- The result of the outermost activity is dropped. -/
theorem receive_still (s : Session) (r : World × Thread × Progress) :
    r.1.Still (s.receive r).world := by
  obtain ⟨w, t, progress⟩ := r
  cases progress with
  | finished result =>
    cases result with
    | output o =>
      obtain ⟨log, heq⟩ := Layout.dropOutput_eq w t.toPlace o
      show w.Still (w.dropOutput t.toPlace o)
      rw [heq]
      exact .elsewhere rfl
    | _ => exact .elsewhere rfl
  | _ => exact .elsewhere rfl

/-- A move of a run that does not end everything is entered in every ledger. -/
theorem entered {known : Prop} {R : Desk → Desk → Prop} (L : Ledger strict known R)
    {action : Action}
    (hthread : m.thread.thread = 0) (hcan : m.Can action)
    (hscheduled : strict → ∀ op, action = .call op → ∀ f, m.session.scheduled op = some f →
      (∀ slot, m.world.slot slot ≠ some f) ∧ ⟨some f, false⟩ ∉ m.world.held)
    (hstmt : strict → action = .step → ∀ s ∈ m.thread.nextStmt m.world,
      ∀ worker, s ≠ .scheduleSelf worker)
    (hwake : strict → action = .step → ∀ c, m.thread.returning m.world = some c →
      ∀ b, ((m.thread.ended m.world).frame c).continuation = some b →
        (m.thread.ended m.world).Wakeable b)
    (hrunner : known → ∀ k f outer, .poll k f outer ∈ m.thread.stack →
      (m.world.frame f).runner = some k)
    (hlive : (m.act action).session.aborted = none) :
    R (m.desk asked popped)
      ((m.act action).desk (asked ++ m.asks action) (popped ++ m.pops action)) := by
  have hreceived : ∀ {d d' : Desk} {s : Session} {r : World × Thread × Progress}, R d (d'.after r) →
      R d (r.2.1.desk (s.receive r).world d'.asked d'.done d'.popped) := by
    intro d d' s r h
    obtain ⟨hagrees, hsteady⟩ := receive_agrees s r
    exact L.trans h (L.deeds (.agrees hagrees hsteady.retired) (.still (receive_still s r)))
  cases action with
  | step =>
    have hstep : R (m.desk asked popped) _ := L.step hthread rfl rfl
      (fun h => hstmt h rfl) (fun h => hwake h rfl) hrunner (receive_live hlive)
    have hdone : (m.act .step).returned.map Prod.fst =
        (m.thread.returning m.world).toList ++ m.returned.map Prod.fst := by
      simp [Moment.act, Moment.step, Moment.arrive, Thread.yields, Function.comp_def]
    show R _ ((m.act .step).thread.desk (m.act .step).world _
      ((m.act .step).returned.map Prod.fst) _)
    rw [hdone]
    exact hreceived hstep
  | call op =>
    have hidle : m.thread.stack = [] := hcan.2
    have hopened : R (Edits.idle m.world asked (m.returned.map Prod.fst) popped)
        (Edits.idle m.opened.world asked (m.returned.map Prod.fst) popped) := L.elsewhere rfl
    have hasks : asked ++ m.asks (.call op) = asked := List.append_nil asked
    have hpops : popped ++ m.pops (.call op) = popped := List.append_nil popped
    rw [desk_idle hidle, hasks, hpops]
    refine L.trans hopened ?_
    simp only [Moment.act, Moment.call] at hlive ⊢
    cases hlaunch : m.opened.launch op with
    | some begun =>
      obtain ⟨s, r⟩ := begun
      rw [hlaunch] at hlive
      exact hreceived (L.launch hlaunch (receive_live hlive))
    | none =>
      have hact : R (Edits.idle m.opened.world asked (m.returned.map Prod.fst) popped)
          (Edits.idle (m.opened.act op).1.world asked (m.returned.map Prod.fst) popped) := by
        refine L.act hlaunch fun h f hf => hscheduled h op rfl f ?_
        cases op <;> exact hf
      exact (desk_idle (m := { m with session := (m.opened.act op).1 }) hidle) ▸ hact
  | close =>
    have hidle : m.thread.stack = [] := hcan.2
    have hasks : asked ++ m.asks .close = asked := List.append_nil asked
    have hpops : popped ++ m.pops .close = popped := List.append_nil popped
    have hclosed : (m.act .close).desk asked popped =
        Edits.idle m.session.close.world asked (m.returned.map Prod.fst) popped := desk_idle hidle
    rw [desk_idle hidle, hasks, hpops, hclosed]
    exact L.close

/-- The first moment of a run. -/
theorem neat_start (bodies : Registers (List Stmt)) :
    (({ session := { world := { bodies } } } : Moment).desk []).Neat := by
  have hframe : ∀ f, ({ bodies } : World).frame f = {} := fun f => Table.get_empty f
  have hworker : ∀ k, ({ bodies } : World).worker k = {} := fun k => Table.get_empty k
  refine ⟨⟨Registers.ordered_empty, fun f => ?_, fun f => ?_⟩, fun k => ?_, nofun,
    fun f halive => ?_,
    nofun⟩
  · show ((({ bodies } : World).frame f).tasks.map Prod.fst).Nodup
    rw [hframe]
    exact List.nodup_nil
  · show ∀ wait, (({ bodies } : World).frame f).wait = some wait → _
    rw [hframe]
    exact nofun
  · exact congrArg Worker.retired (hworker k)
  · exact nomatch (hframe f) ▸ halive

end Moment

/-- A run stays on its thread. -/
theorem Reach.thread {allowed : Moment → Action → Prop} {m : Moment} (h : Reach allowed m) :
    m.thread.thread = 0 := by
  induction h with
  | start bodies => rfl
  | @next m action h hcan hallowed ih =>
    cases action with
    | step => exact (Thread.step_thread _ _).trans ih
    | close => exact ih
    | call op =>
      show (m.call op).thread.thread = 0
      unfold Moment.call
      split
      · rename_i hlaunch
        exact (Session.launch_same hlaunch).2
      · exact ih

end Substrate.Coro
