import Substrate.Proofs.Coro.Owners

/-!
# What the books of workers balance to

A worker counts the frames that are put on its lists and the polls that end.  Every frame that was
put there is still waiting, or it was taken and polled, or it was taken and passed over because it
had completed or was destroyed in the meantime.  And what a worker has destroyed it has polled
before.

* `Moment.Running` says that frames know the worker that polls them, and `Reach.running` that they
  do throughout a run in which no frame is scheduled while it is polled.
* `Asked.owned` and `Reach.polled` bound the frames that a worker has destroyed, by way of those
  that it polled last.
* `Reach.balance` is about one action, `Reach.balances` about a run.
-/

namespace Substrate.Coro

/-! ## Polls that are going on -/

namespace Thread

/-- A poll goes on after a step of a body only if it went on before. -/
theorem runBody_polls {w : World} {t : Thread} {k j : WorkerId} {f g : FrameId}
    {outer inner : Option FrameId} (h : .poll j g inner ∈ (runBody w t k f outer).2.1.stack) :
    .poll j g inner ∈ Activity.poll k f outer :: t.stack := by
  have hbelow : .poll j g inner ∈ t.stack → .poll j g inner ∈ Activity.poll k f outer :: t.stack :=
    List.mem_cons_of_mem _
  rw [runBody_eq] at h
  generalize advance w t.toPlace f = r at h
  obtain ⟨after, move⟩ := r
  cases move with
  | next => exact h
  | stuck => exact h
  | raise message => cases h
  | pump k' =>
    cases h with
    | tail _ h => exact h
  | block k' task temporary =>
    rcases beginBlock_stack after { t with stack := .poll k f outer :: t.stack } k'
      task temporary with
      e | ⟨task', entered, entered', -, -, e⟩ <;> rw [follow, e] at h
    · cases h
    · cases h with
      | tail _ h =>
        cases h with
        | tail _ h => exact h
  | suspend =>
    rcases suspend_stack after t k f outer with e | e | ⟨token, e⟩ <;> rw [follow, e] at h
    · cases h
    · exact hbelow h
    · cases h with
      | tail _ h => exact hbelow h
  | finish =>
    rcases dispose_stack (finish after t.toPlace k f outer) t k f with e | e <;> rw [follow, e] at h
    · cases h
    · exact hbelow h

/-- A poll goes on after a step if it went on before, or a worker took the frame to poll it. -/
theorem step_polls {w : World} {t : Thread} {k : WorkerId} {f : FrameId} {outer : Option FrameId}
    (h : .poll k f outer ∈ (t.step w).2.1.stack) : .poll k f outer ∈ t.stack ∨
      (k, f) ∈ t.pops w ∧ ((w.frame f).alive && !(w.frame f).isComplete) = true := by
  obtain ⟨p, stack⟩ := t
  cases stack with
  | nil => cases h
  | cons activity below =>
    cases activity with
    | pump j entered count =>
      simp only [step] at h
      cases hnext : w.nextFrame j with
      | none =>
        rw [hnext] at h
        rw [(giveResult_same _ _ _).1] at h
        exact .inl (List.mem_cons_of_mem _ h)
      | some next =>
        obtain ⟨g, w'⟩ := next
        rw [hnext] at h
        simp only at h
        have hframe : w'.frame g = w.frame g := by
          rw [World.nextFrame_same hnext]
          rfl
        split at h
        · rename_i hresumes
          cases h with
          | head =>
            refine .inr ⟨?_, hframe ▸ hresumes⟩
            simp only [pops, hnext]
            exact List.mem_cons_self
          | tail _ h =>
            cases h with
            | tail _ h => exact .inl (List.mem_cons_of_mem _ h)
        · exact .inl h
    | poll j g inner => exact .inl (runBody_polls (t := ⟨p, below⟩) h)
    | release j token => exact .inl (List.mem_cons_of_mem _ h)
    | block j task entered temporary =>
      simp only [step] at h
      split at h
      · rw [(giveResult_same _ _ _).1] at h
        exact .inl (List.mem_cons_of_mem _ h)
      · rw [unwind_stack] at h
        cases h

end Thread

theorem mem_polls {stack : List Activity} {k : WorkerId} {f : FrameId} {outer : Option FrameId}
    (h : .poll k f outer ∈ stack) : f ∈ polls stack :=
  List.mem_filterMap.mpr ⟨_, h, rfl⟩

namespace Moment

/-- Every frame that is polled knows the worker that polls it. -/
def Running (m : Moment) : Prop :=
  ∀ k f outer, .poll k f outer ∈ m.thread.stack → (m.world.frame f).runner = some k

end Moment

/-! ## Runs -/

namespace Reach

variable {m : Moment} {action : Action}

/-- A poll goes on after an action of a run if it went on before, or a worker took the frame to
poll it. -/
theorem polling {allowed : Moment → Action → Prop} (h : Reach allowed m) (hcan : m.Can action)
    (hlive : (m.act action).session.aborted = none) {k : WorkerId} {f : FrameId}
    {outer : Option FrameId} (hmem : .poll k f outer ∈ (m.act action).thread.stack) :
    .poll k f outer ∈ m.thread.stack ∨
      (k, f) ∈ m.pops action ∧
      ((m.world.frame f).alive && !(m.world.frame f).isComplete) = true := by
  have hnone : m.thread.stack = [] → m.pops action = [] → .poll k f outer ∈ m.thread.stack := by
    intro hidle hpops
    obtain ⟨ended, -, hpollers⟩ := (h.tallied hcan hpops).counted
    replace hpollers := hpollers hlive
    rw [hidle] at hpollers
    have hpoller : k ∈ pollers (m.act action).thread.stack := List.mem_filterMap.mpr ⟨_, hmem, rfl⟩
    rw [(List.append_eq_nil_iff.mp hpollers.symm).2] at hpoller
    cases hpoller
  cases action with
  | step => exact Thread.step_polls hmem
  | call op => exact .inl (hnone hcan.2 rfl)
  | close => exact .inl (hnone hcan.2 rfl)

/-- A frame that a worker takes was on a list. -/
theorem queued_of_pops {allowed : Moment → Action → Prop} (h : Reach allowed m) (hcan : m.Can .step)
    {k : WorkerId} {f : FrameId} (hpops : m.pops .step = [(k, f)]) :
    m.world.runLists.queued f = true := by
  have hlists := (h.tidy hcan.live).1
  obtain ⟨outer, count, below, w, -, hnext⟩ := Moment.pops_eq hpops
  refine hlists.queued_of_turns (k := k) ?_
  rw [(World.nextFrame_turns hlists hnext).1]
  exact List.mem_cons_self

/-- If no frame is scheduled while it is polled, then frames know the workers that poll them. -/
theorem running (h : Reach allowed m) (hapart : ∀ m action, allowed m action → m.Apart action)
    (hlive : m.session.aborted = none) : m.Running := by
  induction h with
  | start bodies => exact fun _ _ _ hmem => nomatch hmem
  | @next m action h hcan hallowed ih =>
    intro k f outer hmem
    rcases m.pops_cases action with hpops | ⟨j, g, rfl, hpops⟩
    · have hold : .poll k f outer ∈ m.thread.stack := by
        rcases h.polling hcan hlive hmem with hold | ⟨htaken, -⟩
        · exact hold
        · rw [hpops] at htaken
          cases htaken
      obtain ⟨asked, hasked⟩ := h.asked
      have hmade : f < m.world.frameCount := (hasked.heard hcan.live).1.polled f (mem_polls hold)
      obtain ⟨ended, hcounted, -⟩ := (h.tallied hcan hpops).counted
      exact (hcounted.ran.made f hmade).trans (ih hcan.live k f outer hold)
    · refine ((h.taking hcan hpops).frame f).runner.trans ?_
      rcases h.polling hcan hlive hmem with hold | ⟨htaken, hpolled⟩
      · -- a frame that is polled is on no list, so it is not the one that was taken
        have hother : f ≠ g := by
          rintro rfl
          have hlisted := (hapart m .step hallowed f (mem_polls hold)).1
          rw [h.queued_of_pops hcan hpops] at hlisted
          cases hlisted
        rw [if_neg fun hself => hother hself.1]
        exact ih hcan.live k f outer hold
      · rw [hpops] at htaken
        cases List.mem_singleton.mp htaken
        exact if_pos ⟨rfl, hpolled⟩

end Reach

/-- In a run in which no frame is scheduled while it is polled, frames have one owner at most, and
workers have buried what they have destroyed. -/
theorem Asked.owned {allowed : Moment → Action → Prop} {m : Moment}
    {asked : List (FrameId × FrameId)} (h : Asked allowed m asked)
    (hapart : ∀ m action, allowed m action → m.Apart action) (hlive : m.session.aborted = none) :
    (m.desk asked).Owned none ∧ ∀ k, (m.world.worker k).stats.destroyed ≤ m.world.buried k := by
  induction h with
  | start bodies =>
    have hframe : ∀ f, ({ bodies } : World).frame f = {} := fun f => Table.get_empty f
    refine ⟨⟨fun c _ => ?_, nofun⟩, fun k => Nat.le_of_eq ?_⟩
    · show 0 + (({ bodies } : World).frame c).orphaned.toNat ≤ _
      rw [hframe]
      exact Nat.zero_le _
    · exact congrArg (fun worker : Worker => worker.stats.destroyed) (Table.get_empty k)
  | @next m asked action h hcan hallowed ih =>
    obtain ⟨howned, hburied⟩ := ih hcan.live
    have hdisposes : Disposes none (m.desk asked) _ :=
      Moment.entered Disposes.ledger h.reach.thread hcan False.elim False.elim False.elim
        (fun _ => h.reach.running hapart hcan.live) hlive
    obtain ⟨howned', hsettles⟩ := hdisposes.2 (h.heard hcan.live).1 howned
    refine ⟨howned'.of_frames (fun _ => rfl) fun _ => Nat.le_refl _, fun k => ?_⟩
    have hsettled : ((m.act action).world.worker k).stats.destroyed + m.world.buried k ≤
        (m.world.worker k).stats.destroyed + (m.act action).world.buried k := hsettles k
    have := hburied k
    omega

/-! ## Balances -/

theorem pollers_eq_nil {stack : List Activity} (h : polls stack = []) : pollers stack = [] := by
  rw [pollers, List.filterMap_eq_nil_iff]
  intro activity hmem
  cases activity with
  | poll k f outer =>
    have hpolled := mem_polls hmem
    rw [h] at hpolled
    cases hpolled
  | _ => rfl

/-- A worker is made for the statement, and given up after it. -/
def Stmt.hires : Stmt → Bool
  | .blockOn _ _ => true
  | _ => false

namespace Moment

/-- No poll is in progress.  A run that was aborted was cut off in the middle of one. -/
def BetweenPolls (m : Moment) : Prop := m.session.aborted = none ∧ polls m.thread.stack = []

instance (m : Moment) : Decidable m.BetweenPolls := inferInstanceAs (Decidable (_ ∧ _))

/-- No worker takes a frame from its lists that was destroyed while it was there. -/
def TakesLive (m : Moment) (action : Action) : Prop :=
  ∀ taken ∈ m.pops action, (m.world.frame taken.2).alive = true

/-- No worker is given up, and none takes the place of another one: a frame knows the worker that
ran it last by where it is kept, and another worker may be kept there later. -/
def KeepsWorkers (m : Moment) : Action → Prop
  | .call (.worker name _) => m.world.workerNames.get? name = none
  | .call (.dropWorker _) | .call (.blockOnFree _ _) | .close => False
  | .call _ => True
  | .step => (m.thread.nextStmt m.world).any Stmt.hires = false

instance (m : Moment) (action : Action) : Decidable (m.KeepsWorkers action) := by
  unfold KeepsWorkers
  split <;> infer_instance

/-- The runs whose counters balance. -/
def Steady (m : Moment) (action : Action) : Prop :=
  m.Apart action ∧ m.TakesLive action ∧ m.KeepsWorkers action

instance (m : Moment) (action : Action) : Decidable (m.Steady action) :=
  inferInstanceAs (Decidable (_ ∧ (∀ taken ∈ m.pops action, _) ∧ _))

/-- How many frames worker `k` takes from its lists in an action and passes over, since they have
completed. -/
def passes (m : Moment) (k : WorkerId) (action : Action) : Nat :=
  (m.pops action).countP fun (j, f) => j == k && (m.world.frame f).isComplete

/-- How many frames worker `k` passes over in the course of some actions. -/
def passed (k : WorkerId) (m : Moment) : List Action → Nat
  | [] => 0
  | action :: rest => m.passes k action + (m.act action).passed k rest

/-- The frames that worker `k` has put on its lists. -/
def pushed (m : Moment) (k : WorkerId) : Nat :=
  (m.world.worker k).stats.enqueued + (m.world.worker k).stats.yielded

/-- The frames that worker `k` has polled or polls, and those that wait for it. -/
def handled (m : Moment) (k : WorkerId) : Nat :=
  (m.world.worker k).stats.resumed + (pollers m.thread.stack).count k + m.world.pending k

end Moment

namespace Reach

variable {allowed : Moment → Action → Prop} {m : Moment} {action : Action}

/-- What an action of a run adds to the frames that were pushed, it adds to those that are handled,
but for what is passed over. -/
theorem balance (h : Reach allowed m) (hcan : m.Can action) (hsteady : m.Steady action)
    (hlive : (m.act action).session.aborted = none) (k : WorkerId) :
    (m.act action).handled k + m.passes k action + m.pushed k =
      m.handled k + (m.act action).pushed k := by
  obtain ⟨hapart, hspared, -⟩ := hsteady
  unfold Moment.handled Moment.pushed
  rcases m.pops_cases action with hpops | ⟨j, f, rfl, hpops⟩
  · obtain ⟨ended, hcounted, hpollers⟩ := (h.tallied hcan hpops).counted
    obtain ⟨c, hended, -, hfree, hc⟩ := hcounted.tally k
    have hdeferred := hfree hapart
    have hpasses : m.passes k action = 0 := by rw [Moment.passes, hpops]; rfl
    have hpending : (m.act action).world.pending k = m.world.pending k + c.joined + c.deferred := by
      rw [World.pending, World.pending, hc.ready, hc.deferred]
      omega
    rw [hpollers hlive, List.count_append, hc.enqueued, hc.yielded, hc.resumed, hended, hpasses,
      hpending]
    omega
  · have htaking := h.taking hcan hpops
    have hstats : ∀ read : Stats → Nat,
        read { ((m.act .step).world.worker k).stats with parked := 0 } =
          read { (m.world.worker k).stats with parked := 0 } :=
      fun read => congrArg (fun books => read books.2) (htaking.books k)
    have halive : (m.world.frame f).alive = true :=
      hspared (j, f) (by rw [hpops]; exact List.mem_singleton_self _)
    have hpasses : m.passes k .step =
        if (j == k && (m.world.frame f).isComplete) = true then 1 else 0 := by
      rw [Moment.passes, hpops, List.countP_cons, List.countP_nil, Nat.zero_add]
    have hpending : (m.act .step).world.pending k + (if j = k then 1 else 0) =
        m.world.pending k := by
      by_cases hj : j = k
      · rw [if_pos hj, ← hj]
        exact htaking.takes.pending
      · obtain ⟨-, hready, hdeferred⟩ := htaking.takes.sole.others k (Ne.symm hj)
        rw [if_neg hj, World.pending, World.pending, hready, hdeferred]
        rfl
    have hpollers : (pollers (m.act .step).thread.stack).count k =
        (pollers m.thread.stack).count k +
          if j = k ∧ (!(m.world.frame f).isComplete) = true then 1 else 0 := by
      rw [htaking.pollers, halive, Bool.true_and]
      split
      · rename_i hpolled
        simp [List.count_cons, hpolled]
      · rename_i hpolled
        rw [if_neg fun hself => hpolled hself.2]
        rfl
    have hresumed := hstats Stats.resumed
    have henqueued := hstats Stats.enqueued
    have hyielded := hstats Stats.yielded
    simp only at hresumed henqueued hyielded
    rw [hresumed, henqueued, hyielded, hpasses, hpollers]
    cases hcomplete : (m.world.frame f).isComplete <;>
      by_cases hj : j = k <;> simp [hj] at hpending ⊢ <;> omega

/-- What a run adds to the frames that were pushed, it adds to those that are handled, but for what
is passed over. -/
theorem balances (k : WorkerId) (actions : List Action) : ∀ {m : Moment}, Reach Moment.Steady m →
    m.Admits Moment.Steady actions → (m.after actions).session.aborted = none →
      (m.after actions).handled k + m.passed k actions + m.pushed k =
        m.handled k + (m.after actions).pushed k := by
  induction actions with
  | nil => exact fun _ _ _ => rfl
  | cons action rest ih =>
    intro m h hadmits hlive
    obtain ⟨hcan, hsteady, hrest⟩ := hadmits
    have hnext : (m.act action).session.aborted = none := by
      cases rest with
      | nil => exact hlive
      | cons action' rest' => exact hrest.1.live
    have hfirst := h.balance hcan hsteady hnext k
    have hlater := ih (h.next hcan hsteady) hrest hlive
    simp only [Moment.after, Moment.passed]
    omega

/-- A worker was the last one to poll no more frames than it has polled or polls. -/
theorem polled (h : Reach allowed m) (hlive : m.session.aborted = none) (k : WorkerId) :
    m.world.having (fun fr => fr.runner == some k) ≤
      (m.world.worker k).stats.resumed + (pollers m.thread.stack).count k := by
  induction h with
  | start bodies => exact Nat.zero_le _
  | @next m action h hcan hallowed ih =>
    have hbound := ih hcan.live
    rcases m.pops_cases action with hpops | ⟨j, f, rfl, hpops⟩
    · obtain ⟨ended, hcounted, hpollers⟩ := (h.tallied hcan hpops).counted
      obtain ⟨c, hended, -, -, hc⟩ := hcounted.tally k
      have hsame : (m.act action).world.having (fun fr => fr.runner == some k) =
          m.world.having fun fr => fr.runner == some k := by
        refine World.having_grown hcounted.ran.frameCount (fun f hf => ?_) fun f hf hf' => ?_
        · rw [hcounted.ran.made f hf]
        · rw [hcounted.ran.fresh f hf hf']
          rfl
      rw [hpollers hlive, List.count_append] at hbound
      rw [hsame, hc.resumed, hended]
      omega
    · have htaking := h.taking hcan hpops
      have hresumed : ((m.act .step).world.worker k).stats.resumed =
          (m.world.worker k).stats.resumed :=
        congrArg (fun books => books.2.resumed) (htaking.books k)
      rw [hresumed, htaking.pollers]
      split
      · rename_i hpolled
        have halive : (m.world.frame f).alive = true := (Bool.and_eq_true_iff.mp hpolled).1
        obtain ⟨asked, hasked⟩ := h.asked
        have hmade : f < m.world.frameCount := ((hasked.heard hcan.live).1.born f halive).1
        have hother : ∀ g, g ≠ f →
            ((m.act .step).world.frame g).runner = (m.world.frame g).runner :=
          fun g hg => (htaking.frame g).runner.trans (if_neg fun hself => hg hself.1)
        have hupdate :=
          World.having_update (q := fun fr => fr.runner == some k) hmade htaking.frameCount
          fun g hg => by rw [hother g hg]
        rw [(htaking.frame f).runner.trans (if_pos ⟨rfl, hpolled⟩)] at hupdate
        rw [Option.some_beq_some] at hupdate
        rw [List.count_cons]
        cases hj : j == k <;> simp [hj] at hupdate ⊢ <;> omega
      · rename_i hpassed
        have hsame : (m.act .step).world.having (fun fr => fr.runner == some k) =
            m.world.having fun fr => fr.runner == some k := by
          refine World.having_grown (Nat.le_of_eq htaking.frameCount.symm) (fun g _ => ?_)
            fun g hg hg' => absurd hg (Nat.not_le_of_lt (htaking.frameCount ▸ hg'))
          rw [(htaking.frame g).runner.trans (if_neg fun hself => hpassed hself.2)]
        rw [hsame]
        exact hbound

/-- What a worker has retired it has destroyed. -/
theorem retired (h : Reach allowed m) (k : WorkerId) :
    (m.world.worker k).stats.retired ≤ (m.world.worker k).stats.destroyed := by
  induction h with
  | start bodies =>
    have hnone : (({ bodies } : World).worker k).stats.retired = 0 :=
      congrArg (fun worker : Worker => worker.stats.retired) (Table.get_empty k)
    exact Nat.le_trans (Nat.le_of_eq hnone) (Nat.zero_le _)
  | @next m action h hcan hallowed ih =>
    rcases m.pops_cases action with hpops | ⟨j, f, rfl, hpops⟩
    · obtain ⟨ended, hcounted, -⟩ := (h.tallied hcan hpops).counted
      obtain ⟨c, -, -, -, hc⟩ := hcounted.tally k
      have := hc.destroyed
      rw [hc.retired]
      omega
    · have hbooks := (h.taking hcan hpops).books k
      rw [show ((m.act .step).world.worker k).stats.retired = (m.world.worker k).stats.retired from
          congrArg (fun books => books.2.retired) hbooks,
        show ((m.act .step).world.worker k).stats.destroyed =
          (m.world.worker k).stats.destroyed from
          congrArg (fun books => books.2.destroyed) hbooks]
      exact ih

end Reach

/-- One frame asks for the result of another one and completes; the other one parks first. -/
def lateWake : Registers (List Stmt) :=
  (Registers.empty.set "a" [.pollOnce (.task "@t")]).set "c" [.park "p" 0]

/-- The frame that was asked for goes on when the one that asked has completed, and wakes it. -/
def lateWakeActions (spawned : List Action) (steps : Nat) : List Action :=
  [.call (.new "@t" "c" 0), .call (.new "x" "a" 0), .call (.start "x" "w")] ++ spawned ++
    [.call (.pump "w")] ++ List.replicate steps .step ++
    [.call (.unpark "p" "w"), .call (.pump "w")] ++ List.replicate 5 .step

/-- No frame is destroyed while it is on a list, and none that was destroyed is put on one. -/
def Moment.Spares (m : Moment) (action : Action) : Prop :=
  ∀ f < (m.act action).world.frameCount,
    (m.world.runLists.queued f || (m.act action).world.runLists.queued f) = true →
      ((m.act action).world.frame f).alive = true

instance (m : Moment) (action : Action) : Decidable (m.Spares action) :=
  inferInstanceAs (Decidable (∀ f < _, _ → _))

end Substrate.Coro
