import Mathlib.Logic.Relation
import Substrate.Proofs.Coro.Chains
import Substrate.Proofs.Coro.Stations

/-!
# What is left when a pump returns

A pump returns when its worker has nothing to run.  What is in flight then waits for frames that
wait for others, and since frames await frames made later, every such chain ends: at a frame in a
slot or taken out of one, or on a list of another worker.

* `Moment.Halted` is where a chain can end, and `Moment.Sheltered.chain` that every one does.
* `Moment.Solitary` says that there is no other worker to run anything.
* `Moment.Sound.pending_of_stalled` is about a task that is run to its end and stalls.
-/

namespace Substrate.Coro

namespace Moment

variable {m : Moment} {spot : FrameId → Spot} {poller : FrameId → FrameId} {k : WorkerId}

/-- Frame `f` is suspended until frame `c`, which has not returned, does so. -/
def Awaits (m : Moment) (f c : FrameId) : Prop :=
  m.At f (.awaiting c) ∧ (m.world.frame c).alive = true ∧ (m.world.frame c).isComplete = false

/-- Frame `f` was started and has not returned. -/
def InFlight (m : Moment) (f : FrameId) : Prop :=
  (m.world.frame f).alive = true ∧ (m.world.frame f).isComplete = false ∧ ¬ m.At f .unstarted

/-- Frame `f` is in a slot, or was taken out of one and not scheduled. -/
def Withheld (m : Moment) (f : FrameId) : Prop := (∃ slot, m.At f (.parked slot)) ∨ m.At f .taken

/-- Worker `k` is not going to run frame `f` by itself: the frame is withheld, or it is on a list of
another worker, one that exists and that frames were started, scheduled or woken on. -/
def Halted (m : Moment) (k : WorkerId) (f : FrameId) : Prop :=
  m.Withheld f ∨ ∃ j, j ≠ k ∧ m.world.Engaged j ∧ m.Waits f j

/-- All frames were started, scheduled and woken on worker `k`: no other worker that exists has ever
been given one. -/
def Solitary (m : Moment) (k : WorkerId) : Prop :=
  ∀ j < m.world.workerCount, j ≠ k → (m.world.worker j).stats.enqueued = 0

instance (m : Moment) (k : WorkerId) : Decidable (m.Solitary k) :=
  inferInstanceAs
    (Decidable (∀ j < m.world.workerCount, j ≠ k → (m.world.worker j).stats.enqueued = 0))

/-- If there is one worker, what it is not going to run is withheld. -/
theorem Solitary.withheld (h : m.Solitary k) {f : FrameId} (hf : m.Halted k f) : m.Withheld f := by
  rcases hf with hf | ⟨j, hj, ⟨hmade, hgiven⟩, -⟩
  · exact hf
  · rw [h j hmade hj] at hgiven
    cases hgiven

/-- The handles that no frame holds. -/
def outside (m : Moment) : List Task := m.world.tasks.values ++ blocked m.thread.stack

/-- The next step of the thread ends a pump of worker `k` that is not part of another one. -/
def EndsPump (m : Moment) (k : WorkerId) : Prop :=
  ∃ outer count below, m.thread.stack = .pump k outer count :: below ∧
    (∀ activity ∈ below, activity.isPump = false) ∧ m.step.thread.stack = below

theorem Sound.isComplete_of_pending (h : m.Sound spot) {f : FrameId} (hf : (spot f).IsPending) :
    (m.world.frame f).alive = true ∧ (m.world.frame f).isComplete = false := by
  have hpresent : spot f ≠ .absent := by
    intro e
    rw [e] at hf
    exact hf
  refine ⟨(h.alive_iff f).mpr hpresent, ?_⟩
  rw [Bool.eq_false_iff]
  intro hcomplete
  rw [(h.layout.isComplete_iff rfl hpresent).mp hcomplete] at hf
  exact hf

theorem Sound.pending_of_inFlight (h : m.Sound spot) {f : FrameId} (hf : m.InFlight f) :
    (spot f).IsPending := by
  obtain ⟨halive, hincomplete, hstarted⟩ := hf
  have hpresent := (h.alive_iff f).mp halive
  have hcomplete : spot f ≠ .complete := by
    intro e
    rw [(h.layout.isComplete_iff rfl hpresent).mpr e] at hincomplete
    cases hincomplete
  have hunstarted : spot f ≠ .unstarted := fun e => hstarted ((h.at_iff f .unstarted).mpr e)
  cases hspot : spot f <;> simp_all [Spot.IsPending]

/-- A frame that awaits another one was made before it. -/
theorem Sheltered.lt_of_awaits (h : m.Sheltered poller spot) {f c : FrameId}
    (hf : (m.world.frame c).continuation = some f) : f < c := by
  obtain ⟨b, hb⟩ := h.holds c f hf
  exact h.descends f _ hb c rfl

/-- Between pumps of a worker that has nothing to run, what is in flight leads to a frame that
the worker is not going to run. -/
theorem Sheltered.chain (h : m.Sheltered poller spot)
    (hengaged : ∀ {g j}, m.Waits g j → m.world.Engaged j) (hpolls : polls m.thread.stack = [])
    (hnext : m.world.nextFrame k = none) {f : FrameId} (hf : (spot f).IsPending) :
    ∃ d, Relation.ReflTransGen m.Awaits f d ∧ m.Halted k d := by
  -- frames await frames made later, of which there are fewer and fewer
  induction hn : m.world.frameCount - f using Nat.strongRecOn generalizing f with
  | ind n ih =>
    have hpresent : spot f ≠ .absent := by
      intro e
      rw [e] at hf
      exact hf
    obtain ⟨station, hs⟩ := Spot.exists_station hpresent (h.toSound.not_isHand f) (h.anchored f)
    have hat : m.At f station := (h.toSound.at_iff f station).mpr hs
    obtain ⟨hready, hdeferred⟩ := h.layout.drained hnext f
    cases station with
    | unstarted =>
      rw [hs] at hf
      exact hf.elim
    | complete =>
      rw [hs] at hf
      exact hf.elim
    | polled =>
      replace hat : f ∈ polls m.thread.stack := hat
      rw [hpolls] at hat
      cases hat
    | ready j =>
      have hwaits : m.Waits f j := .inl hat
      exact ⟨f, .refl, .inr ⟨j, fun e => hready (e ▸ hs), hengaged hwaits, hwaits⟩⟩
    | deferred j =>
      have hwaits : m.Waits f j := .inr hat
      exact ⟨f, .refl, .inr ⟨j, fun e => hdeferred (e ▸ hs), hengaged hwaits, hwaits⟩⟩
    | parked slot => exact ⟨f, .refl, .inl (.inl ⟨slot, hat⟩)⟩
    | taken => exact ⟨f, .refl, .inl (.inr hat)⟩
    | awaiting c =>
      have hchild : (spot c).IsPending := h.layout.child c f (by rw [hs]; rfl)
      have hlt : f < c := h.lt_of_awaits hat
      have hmade : c < m.world.frameCount := h.layout.lt_of_pending hchild
      have hfewer : m.world.frameCount - c < n := by
        rw [← hn]
        exact Nat.sub_lt_sub_left (Nat.lt_trans hlt hmade) hlt
      obtain ⟨d, hd, hhalted⟩ := ih _ hfewer hchild rfl
      exact ⟨d, .head ⟨hat, h.toSound.isComplete_of_pending hchild⟩ hd, hhalted⟩

/-- If nothing is in flight and no handle is outside the frames, no frame is left. -/
theorem Sound.none_alive (h : m.Sound spot) (hpending : ∀ f, ¬ (spot f).IsPending)
    (houtside : ∀ t ∈ m.outside, t.frame = none) (f : FrameId) :
    (m.world.frame f).alive = false := by
  rw [Bool.eq_false_iff]
  intro halive
  have hpresent := (h.alive_iff f).mp halive
  have hfits := h.layout.frames f
  -- what is there and not in flight has a handle
  have howed : ∃ b, 0 < (spot f).owed (m.world.frame f).disposal b := by
    have hf := hpending f
    have hawaited := hfits.awaited
    cases hspot : spot f <;> simp_all [Spot.IsPending, Spot.owed]
  obtain ⟨b, hb⟩ := howed
  have hcount : m.handles.count ⟨some f, b⟩ = (spot f).owed (m.world.frame f).disposal b + 0 :=
    h.layout.handles f b
  have hmem : ⟨some f, b⟩ ∈ m.handles := by
    rw [← List.count_pos_iff, hcount]
    exact hb
  rcases List.mem_append.mp hmem with hmem | hmem
  · rcases List.mem_append.mp hmem with hmem | hmem
    · cases houtside _ (List.mem_append_left _ hmem)
    · -- the frame that holds it is in flight
      obtain ⟨g, -, hg⟩ := List.mem_flatMap.mp hmem
      have hidle := (h.layout.frames g).idle
      have hg' := hpending g
      have hhand := h.not_isHand g
      have hnone : (m.world.frame g).heldTasks = [] := by
        refine hidle ?_
        cases hspot : spot g <;> simp_all [Spot.IsPending]
      rw [hnone] at hg
      cases hg
  · cases houtside _ (List.mem_append_right _ hmem)

/-- While no body runs, a step is reserved. -/
theorem reserved_of_polling (h : m.thread.polling = none) : m.Reserved poller .step := by
  refine ⟨⟨fun s hs => ?_, fun f hf => ?_⟩, fun name hname => ?_⟩
  · rw [Thread.nextStmt, h] at hs
    cases hs
  · rw [h] at hf
    cases hf
  · rw [Thread.mentions, h] at hname
    cases hname

/-- A pump ends when its worker has nothing left to run. -/
theorem EndsPump.ends (h : m.EndsPump k) :
    m.thread.polling = none ∧ m.step.world.nextFrame k = none ∧ m.step.fault = m.fault := by
  obtain ⟨outer, count, below, hstack, -, hbelow⟩ := h
  refine ⟨by rw [Thread.polling, hstack], ?_⟩
  replace hbelow : (m.thread.step m.world).2.1.stack = below := hbelow
  cases hnext : m.world.nextFrame k with
  | some r =>
    -- the pump would still be there
    obtain ⟨f, w'⟩ := r
    unfold Thread.step at hbelow
    rw [hstack] at hbelow
    simp only [hnext] at hbelow
    split at hbelow
    · have hlength := congrArg List.length hbelow
      simp only [Thread.beginPoll, List.length_cons] at hlength
      omega
    · have hlength := congrArg List.length hbelow
      simp only [hstack, List.length_cons] at hlength
      omega
  | none =>
    have hstep : m.thread.step m.world =
        Thread.giveResult m.world { m.thread with worker := outer, stack := below }
        (.count count) := by
      unfold Thread.step
      rw [hstack]
      simp only [hnext]
    refine ⟨World.nextFrame_none ?_ hnext, ?_⟩
    · show (m.session.receive (m.thread.step m.world)).world.runLists = _
      rw [(receive_agrees m.session (m.thread.step m.world)).1.runLists, hstep,
        (Thread.giveResult_same _ _ _).2]
    · show m.fault.or (m.thread.step m.world).2.2.fault = m.fault
      rw [hstep, Thread.giveResult_fault, Option.or_none]

/-- Running a task to its end stalls only if the frame of the task is in flight. -/
theorem Sound.pending_of_stalled (h : m.Sound spot) (htiered : m.world.Tiered m.thread.stack)
    (hfault : m.fault = none) {task : Task} {outer : Option WorkerId} {temporary : Bool} {n : Nat}
    (hstack : m.thread.stack = [.block k task outer temporary])
    (hstalled : m.step.fault = some (.stalled n)) :
    ∃ root, task.frame = some root ∧ n = frameNumber root ∧ (spot root).IsPending := by
  obtain ⟨hstarted, hsome⟩ : task.started = true ∧ task.frame.isSome = true := by
    have hrests := htiered.stacked
    rw [hstack] at hrests
    exact hrests.1
  obtain ⟨root, hroot⟩ := Option.isSome_iff_exists.mp hsome
  have hmem : ⟨some root, true⟩ ∈ m.world.held ++ blocked m.thread.stack := by
    refine List.mem_append_right _ ?_
    rw [hstack, ← hroot, ← hstarted]
    exact List.mem_cons_self
  obtain ⟨hpresent, -, hunstarted⟩ := h.layout.of_handle rfl hmem
  replace hstalled : m.fault.or (m.thread.step m.world).2.2.fault = some (.stalled n) := hstalled
  rw [hfault, Option.none_or] at hstalled
  unfold Thread.step at hstalled
  rw [hstack] at hstalled
  simp only [World.takeOutput, hroot] at hstalled
  have hfits := h.layout.frames root
  cases hcomplete : (m.world.frame root).isComplete with
  | true =>
    -- a complete frame has its result
    have hspot := (h.layout.isComplete_iff rfl hpresent).mp hcomplete
    have houtput := hfits.output (by rw [hspot]; exact id)
    rw [if_pos hspot] at houtput
    rw [if_pos hcomplete] at hstalled
    simp only [houtput, Thread.giveResult_fault] at hstalled
    cases hstalled
  | false =>
    rw [hcomplete] at hstalled
    simp only [Bool.false_eq_true, if_false, hroot] at hstalled
    replace hstalled : some (Fault.stalled (frameNumber root)) = some (.stalled n) := hstalled
    cases hstalled
    refine ⟨root, hroot, rfl,
      h.pending_of_inFlight ⟨(h.alive_iff root).mpr hpresent, hcomplete, ?_⟩⟩
    intro hunstarted'
    cases hunstarted ((h.at_iff root .unstarted).mp hunstarted')

end Moment

/-- A body that awaits one that parks. -/
def stalling : Moment :=
  { session := { world := { bodies :=
    (Registers.empty.set "main" [.await "c" 0]).set "c" [.park "s" 0] } } }

/-- The body is run to its end, and the worker runs until both frames wait. -/
def stallingActions : List Action :=
  [.call (.blockOn "w" "main" 0), .step, .step, .step, .step, .step, .step]

/-- A body that parks once. -/
def straying : Moment :=
  { session := { world := { bodies := Registers.empty.set "f" [.park "a" 0, .add 7] } } }

/-- Its task is started on one worker and parks there, is scheduled on another worker, and is then
to be run to its end on the first one. -/
def strayingActions : List Action :=
  [.call (.new "t" "f" 0), .call (.start "t" "w"), .call (.pump "w"), .step, .step, .step, .step,
    .call (.unpark "a" "v"), .call (.blockOnTask "w" "t")]

end Substrate.Coro
