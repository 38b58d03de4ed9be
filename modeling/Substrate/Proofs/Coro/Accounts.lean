import Substrate.Proofs.Coro.CallerInvariants
import Substrate.Proofs.Coro.Tallies

/-!
# Accounts of a run

What the actions of a run do to the lists and counters of workers.  Operations that a caller carries
out at once are made of deeds; the others begin activities, whose steps have been accounted for.

* `Session.act_deeds`, `Session.launch_tallied` and `Session.close_accounts` are about the
  caller's operations.
* `Reach.crewed` says that a run keeps the staff in order.
* `Reach.tallied` and `Reach.taking` say what every action does to the books of the workers.
-/

namespace Substrate.Coro

namespace Session

variable {drops makes free : Prop} {crew : WorkerId → Prop} {s : Session}

/-- The caller has entered no worker. -/
theorem place_within (crew : WorkerId → Prop) : place.Within crew := by
  intro k hk
  cases hk

/-- No frame of the caller's thread can be scheduled on another one. -/
theorem scheduleFrame_foreign_same
    (hhome : ∀ f, (s.world.frame f).alive = true → (s.world.frame f).home = some 0) (k : WorkerId)
    (f : FrameId) : (s.scheduleFrame { thread := 1 } k f).1 = s := by
  unfold scheduleFrame
  split
  · rfl
  · rename_i halive
    split
    · rfl
    · have hforeign : (s.world.frame f).isAtHome 1 = false := by
        rw [Frame.isAtHome, hhome f (by simpa using halive)]
        rfl
      rw [World.schedule, hforeign]
      rfl

/-- What a caller does is made of deeds. -/
theorem errand_deeds {w : World} (hdrained : ∀ k, (w.worker k).retired = []) :
    Errand w makes drops (fun _ => True) (World.Deeds drops makes crew w) where
  toHandling := World.Deeds.handling w (place_within crew)
  shared _ _ _ _ := trivial
  share _ h _ := h.trans (.elsewhere rfl)
  unshare _ h := h.trans (.elsewhere rfl)
  hire name hook h := h.trans (.nameWorker name hook)
  unname name h := h.trans (.one (.rename fun other j hother => .inl (by
    rw [Registers.get?_erase] at hother
    split at hother
    · cases hother
    · exact hother)))
  fire h hk := h.trans (.still (.dropWorker _ place (hk.elim (·.trans (hdrained _)) id)))
  make disposal body arg hmakes h _ := h.trans (.one (.make hmakes _ disposal body arg))
  fresh _ := trivial

/-- An operation that is carried out at once is made of deeds. -/
theorem act_deeds {op : Op} (hlaunch : s.launch op = none)
    (hhome : ∀ f, (s.world.frame f).alive = true → (s.world.frame f).home = some 0)
    (hdrained : ∀ k, (s.world.worker k).retired = []) (hdrops : op.Drops → drops)
    (hmakes : op.Makes → makes) : World.Deeds drops makes crew s.world (s.act op).1.world := by
  refine (errand_deeds hdrained).act (.refl drops makes crew _) hlaunch (fun _ => trivial)
    (fun _ => ?_) hdrops fun h _ => hmakes h
  rw [scheduleFrame_foreign_same hhome]
  exact .refl drops makes crew _

theorem act_accounts {op : Op} (hlaunch : s.launch op = none)
    (hhome : ∀ f, (s.world.frame f).alive = true → (s.world.frame f).home = some 0) :
    World.Accounts (crewOf []) free [] s.world (s.act op).1.world :=
  .of_staffed fun hw => .deeds
    (act_deeds hlaunch hhome hw.drained (fun _ => trivial) fun _ => trivial)

/-- What an operation begins. -/
theorem launch_tallied {s' : Session} {op : Op} {begun : World × Thread × Progress}
    (hw : s.world.Staffed (crewOf [])) (hlaunch : s.launch op = some (s', begun)) :
    Thread.Tallied free s.world [] begun := by
  have hblock : ∀ {w : World} {k : WorkerId} {t : Task} {temporary : Bool},
      World.Deeds True True (crewOf []) s.world w → (w.Staffed (crewOf []) → k < w.workerCount) →
      Thread.Tallied free s.world [] (Thread.beginBlock w {} k t temporary) := by
    intro w k t temporary hdeeds hk
    refine Thread.Tallied.after hw (.deeds hdeeds) fun hw' => ?_
    exact Thread.Crewed.beginBlock (t := {}) ⟨rfl, hw'⟩ (hk hw') t temporary
  have hnamed : ∀ worker,
      World.Deeds True True (crewOf []) s.world (s.world.namedWorker worker).1 :=
    fun worker => .namedWorker worker
  have hknows := World.knows_namedWorker s.world (crewOf [])
  cases op with
  | pump worker =>
    cases hlaunch
    obtain ⟨-, hw', hcounted⟩ := World.Accounts.deeds (hnamed worker) hw
    refine ⟨fun _ => ⟨⟨rfl, rfl⟩, hw'.mono ?_⟩, [], hcounted, fun _ => rfl⟩
    rintro k ⟨a, ha, rfl⟩
    rw [List.mem_singleton.mp ha]
    exact hw'.knows (hknows worker)
  | blockOn worker body arg =>
    cases hlaunch
    exact hblock ((hnamed worker).trans (.newTask trivial place body arg)) fun hw' =>
      hw'.knows (hknows worker)
  | blockOnTask worker task =>
    simp only [launch] at hlaunch
    obtain ⟨t, -, e⟩ := Option.map_eq_some_iff.mp hlaunch
    cases e
    exact hblock ((hnamed worker).trans (.elsewhere rfl)) fun hw' => hw'.knows (hknows worker)
  | blockOnFree body arg =>
    cases hlaunch
    exact hblock (World.Deeds.trans (.newWorker .unlock) (.newTask trivial place body arg)) fun _ =>
      Nat.lt_succ_self _
  | _ => cases hlaunch

theorem close_accounts (s : Session) :
    World.Accounts (crewOf []) free [] s.world s.close.world := by
  have hunnamed : World.Deeds True True (crewOf []) s.world
      { s.world with workerNames := .empty } :=
    .one (.rename fun name k hk => by cases hk)
  have hcleared : World.Deeds True True (crewOf []) s.world
      { s.world with log := #[], tasks := .empty, workerNames := .empty } :=
      hunnamed.trans (.elsewhere rfl)
  have hdropped : World.Accounts (crewOf []) free [] s.world (World.dropTasks
      { s.world with log := #[], tasks := .empty, workerNames := .empty } place
        s.world.tasks.values) :=
    .deeds (hcleared.trans (.dropTasks trivial (place_within _) _))
  have hworkers : ∀ (ks : List WorkerId) {w : World},
      World.Accounts (crewOf []) free [] w (ks.foldl (fun w k => w.dropWorker place k) w) := by
    intro ks
    induction ks with
    | nil => exact .refl _
    | cons k rest ih => exact World.Accounts.trans (.dropWorker place k) ih
  exact hdropped.trans (hworkers s.world.workerNames.values)

end Session

/-! ## Runs -/

theorem Thread.Crewed.still {w w' : World} {t : Thread} (h : t.Crewed w) (hstill : w.Still w') :
    t.Crewed w' := ⟨h.entered, h.staffed.still hstill⟩

theorem World.Counted.still {free : Prop} {ended : List WorkerId} {w w' w'' : World}
    (h : w.Counted free ended w') (hstill : w'.Still w'') : w.Counted free ended w'' := by
  refine ⟨h.ran.trans (.of_still hstill), fun k => ?_⟩
  obtain ⟨c, hended, hdeferred, hfree, hc⟩ := h.tally k
  exact ⟨c, hended, hdeferred, hfree, hc.trans (.of_still hstill k)⟩

namespace Moment

/-- The first moment of a run with given bodies. -/
def fresh (bodies : Registers (List Stmt)) : Moment := { session := { world := { bodies } } }

variable {m : Moment} {action : Action}

/-- What an action that takes no frame does to the books of the workers. -/
structure Tallied (m : Moment) (action : Action) : Prop where
  crewed : (m.act action).session.aborted = none → (m.act action).thread.Crewed (m.act action).world
  counted : ∃ ended, m.world.Counted (m.Apart action) ended (m.act action).world ∧
    ((m.act action).session.aborted = none →
      pollers m.thread.stack = ended ++ pollers (m.act action).thread.stack)

/-- What an action does in which worker `k` takes frame `f`. -/
structure Taking (m : Moment) (action : Action) (k : WorkerId) (f : FrameId) : Prop where
  live : (m.act action).session.aborted = none
  crewed : (m.act action).thread.Crewed (m.act action).world
  takes : m.world.Takes (m.act action).world k
  pollers : pollers (m.act action).thread.stack =
    if (m.world.frame f).alive && !(m.world.frame f).isComplete then k :: pollers m.thread.stack
    else pollers m.thread.stack
  frameCount : (m.act action).world.frameCount = m.world.frameCount
  frame : ∀ g, ({ m.world.frame g with runner :=
    if g = f ∧ ((m.world.frame f).alive && !(m.world.frame f).isComplete) then some k
    else (m.world.frame g).runner } : Frame).Kept ((m.act action).world.frame g)

theorem Taking.books {k : WorkerId} {f : FrameId} (h : m.Taking action k f) (j : WorkerId) :
    ((m.act action).world.worker j).books = (m.world.worker j).books := by
  by_cases hj : j = k
  · exact hj ▸ h.takes.books
  · exact (h.takes.sole.others j hj).1

theorem pops_cases (m : Moment) (action : Action) :
    m.pops action = [] ∨ ∃ k f, action = .step ∧ m.pops action = [(k, f)] := by
  cases action with
  | call op => exact .inl rfl
  | close => exact .inl rfl
  | step =>
    show m.thread.pops m.world = [] ∨ ∃ k f, Action.step = .step ∧ m.thread.pops m.world = [(k, f)]
    unfold Thread.pops
    split
    · rename_i k _ _ _ _
      cases m.world.nextFrame k with
      | none => exact .inl rfl
      | some next => exact .inr ⟨k, next.1, rfl, rfl⟩
    · exact .inl rfl

/-- A thread has done something, and its result is received. -/
theorem receive_tallied {free : Prop} {w : World} {polled : List WorkerId}
    {r : World × Thread × Progress} (h : Thread.Tallied free w polled r) (s : Session) :
    ((s.receive r).aborted = none → r.2.1.Crewed (s.receive r).world) ∧
      ∃ ended, w.Counted free ended (s.receive r).world ∧
        ((s.receive r).aborted = none → polled = ended ++ pollers r.2.1.stack) := by
  obtain ⟨hcrewed, ended, hcounted, hpolled⟩ := h
  have hstill := receive_still s r
  exact ⟨fun hlive => (hcrewed (receive_live hlive)).still hstill, ended, hcounted.still hstill,
    fun hlive => hpolled (receive_live hlive)⟩

theorem tallied (h : m.thread.Crewed m.world)
    (hhome : ∀ f, (m.world.frame f).alive = true → (m.world.frame f).home = some 0)
    (hcan : m.Can action) (hpops : m.pops action = []) : m.Tallied action := by
  cases action with
  | step =>
    have hstep : Thread.Tallied (m.Apart .step) m.world (pollers m.thread.stack)
        (m.thread.step m.world) :=
      h.step hpops fun hapart f hf => (hapart f hf).2
    obtain ⟨hcrewed, hcounted⟩ := receive_tallied hstep m.session
    exact ⟨hcrewed, hcounted⟩
  | close =>
    have hstack : m.thread.stack = [] := hcan.2
    have hw : m.world.Staffed (crewOf []) := hstack ▸ h.staffed
    obtain ⟨-, hw', hcounted⟩ := Session.close_accounts m.session hw
    refine ⟨fun _ => ⟨h.entered, ?_⟩, [], hcounted, fun _ => rfl⟩
    show World.Staffed _ (crewOf m.thread.stack)
    rw [hstack]
    exact hw'
  | call op =>
    have hstack : m.thread.stack = [] := hcan.2
    have hopened : m.world.Still m.opened.world := .elsewhere rfl
    have hw : m.opened.world.Staffed (crewOf []) :=
      (hstack ▸ h.staffed : m.world.Staffed (crewOf [])).still hopened
    -- the log is emptied first, and the log has nothing to do with the books
    have hbefore : ∀ {w : World} {ended : List WorkerId},
        m.opened.world.Counted (m.Apart (.call op)) ended w →
        m.world.Counted (m.Apart (.call op)) ended w := by
      intro w ended hcounted
      refine ⟨⟨hcounted.ran.frameCount, hcounted.ran.made, hcounted.ran.fresh⟩, fun k => ?_⟩
      obtain ⟨c, hended, hdeferred, hfree, hc⟩ := hcounted.tally k
      exact ⟨c, hended, hdeferred, hfree, hc.ready, hc.deferred, hc.enqueued, hc.peak,
        hc.yielded, hc.resumed,
        hc.retired, hc.destroyed⟩
    cases hlaunch : m.opened.launch op with
    | some begun =>
      obtain ⟨s, r⟩ := begun
      have hact : m.act (.call op) = m.arrive s r := by
        show m.call op = _
        rw [Moment.call, hlaunch]
      obtain ⟨hcrewed, ended, hcounted, hpolled⟩ :=
        receive_tallied (Session.launch_tallied hw hlaunch) s
      refine ⟨?_, ended, ?_, ?_⟩
      · rw [hact]
        exact hcrewed
      · rw [hact]
        exact hbefore hcounted
      · rw [hact, hstack]
        exact hpolled
    | none =>
      have hact : m.act (.call op) =
          { m with session := (m.opened.act op).1, taken := m.opened.takenAfter m.taken op } := by
        show m.call op = _
        rw [Moment.call, hlaunch]
      obtain ⟨-, hw', hcounted⟩ := Session.act_accounts hlaunch hhome hw
      refine ⟨fun _ => ?_, [], ?_, fun _ => ?_⟩
      · rw [hact]
        refine ⟨h.entered, ?_⟩
        show World.Staffed _ (crewOf m.thread.stack)
        rw [hstack]
        exact hw'
      · rw [hact]
        exact hbefore hcounted
      · rw [hact]
        rfl

theorem taking (h : m.thread.Crewed m.world) (hlists : m.world.runLists.Sound) (hcan : m.Can .step)
    {k : WorkerId} {f : FrameId} (hpops : m.pops .step = [(k, f)]) : m.Taking .step k f := by
  obtain ⟨htakes, hcrewed, hrunning, hpollers, hcount, hframe⟩ := h.take hlists hpops
  have hstill := receive_still m.session (m.thread.step m.world)
  refine ⟨?_, hcrewed.still hstill, htakes.still (.of_still hstill k) (hstill.books k)
    hstill.runLists,
    hpollers, hstill.frameCount.trans hcount, fun g => (hframe g).trans (hstill.frame g)⟩
  refine (receive_aborted ?_).trans hcan.1
  rw [hrunning]
  rfl

end Moment

namespace Reach

variable {allowed : Moment → Action → Prop} {m : Moment} {action : Action}

theorem fresh (allowed : Moment → Action → Prop) (bodies : Registers (List Stmt)) :
    Reach allowed (.fresh bodies) := .start bodies

/-- What is known of the lists and of the frames that are alive. -/
theorem tidy (h : Reach allowed m) (hlive : m.session.aborted = none) : m.world.runLists.Sound ∧
    ∀ f, (m.world.frame f).alive = true → (m.world.frame f).home = some 0 := by
  obtain ⟨asked, hasked⟩ := h.asked
  obtain ⟨hneat, hheard⟩ := hasked.heard hlive
  exact ⟨hheard.lists, fun f halive => (hneat.born f halive).2⟩

/-- In every run the staff is in order. -/
theorem crewed (h : Reach allowed m) (hlive : m.session.aborted = none) :
    m.thread.Crewed m.world := by
  induction h with
  | start bodies =>
    have hworker : ∀ k, ({ bodies } : World).worker k = {} := fun k => Table.get_empty k
    refine ⟨rfl, ?_, ?_, fun k _ => ⟨?_, ?_, ?_⟩, fun k => ?_⟩
    · rintro k ⟨a, ha, -⟩
      cases ha
    · intro name k hk
      cases hk
    · exact congrArg Worker.books (hworker k)
    · exact congrArg RunList.length (Table.get_empty (readyList k))
    · exact congrArg RunList.length (Table.get_empty (deferredList k))
    · exact congrArg Worker.retired (hworker k)
  | @next m action h hcan _ ih =>
    obtain ⟨hlists, hhome⟩ := h.tidy hcan.live
    rcases m.pops_cases action with hpops | ⟨k, f, rfl, hpops⟩
    · exact (Moment.tallied (ih hcan.live) hhome hcan hpops).crewed hlive
    · exact (Moment.taking (ih hcan.live) hlists hcan hpops).crewed

/-- What every action of a run that takes no frame does to the books of the workers. -/
theorem tallied (h : Reach allowed m) (hcan : m.Can action) (hpops : m.pops action = []) :
    m.Tallied action :=
  Moment.tallied (h.crewed hcan.live) (h.tidy hcan.live).2 hcan hpops

/-- What every step of a run does in which a worker takes a frame. -/
theorem taking (h : Reach allowed m) (hcan : m.Can .step) {k : WorkerId} {f : FrameId}
    (hpops : m.pops .step = [(k, f)]) : m.Taking .step k f :=
  Moment.taking (h.crewed hcan.live) (h.tidy hcan.live).1 hcan hpops

end Reach

end Substrate.Coro
