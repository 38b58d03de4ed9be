import Substrate.Proofs.Coro.Accounts

/-!
# Stations and the workers they belong to

A run list belongs to a worker.  Frames are only on lists of workers that were made and that frames
were started, scheduled or woken on (`Reach.engaged_of_listed`), and a frame that awaits another one
goes to the worker that the other one returns on.  With what is known about stations this says where
every live frame of a disciplined run is.
-/

namespace Substrate.Coro

/-- Worker `k` was made, and frames were started, scheduled or woken on it. -/
def World.Engaged (w : World) (k : WorkerId) : Prop :=
  k < w.workerCount ∧ 0 < (w.worker k).stats.enqueued

/-- Frame `f` is on a list of worker `k`. -/
def Moment.Waits (m : Moment) (f : FrameId) (k : WorkerId) : Prop :=
  m.At f (.ready k) ∨ m.At f (.deferred k)

namespace Reach

variable {allowed : Moment → Action → Prop} {m : Moment} {k : WorkerId}

/-- A worker that was never given a frame has none on its lists and polls none. -/
theorem unused (h : Reach allowed m) (hlive : m.session.aborted = none)
    (hk : (m.world.worker k).stats.enqueued = 0) :
    m.world.runLists.length (readyList k) = 0 ∧ m.world.runLists.length (deferredList k) = 0 ∧
      k ∉ pollers m.thread.stack := by
  induction h with
  | start bodies =>
    refine ⟨?_, ?_, List.not_mem_nil⟩
    · exact congrArg RunList.length (Table.get_empty (readyList k))
    · exact congrArg RunList.length (Table.get_empty (deferredList k))
  | @next m action h hcan _ ih =>
    rcases m.pops_cases action with hpops | ⟨j, f, rfl, hpops⟩
    · obtain ⟨ended, hcounted, hpollers⟩ := (h.tallied hcan hpops).counted
      obtain ⟨c, hended, hfew, -, hc⟩ := hcounted.tally k
      have henqueued := hc.enqueued
      obtain ⟨hready, hdeferred, hidle⟩ := ih hcan.live (by omega)
      rw [hpollers hlive, List.mem_append, not_or] at hidle
      -- no poll of the worker has ended, so it has deferred nothing
      rw [List.count_eq_zero_of_not_mem hidle.1] at hended
      refine ⟨?_, ?_, hidle.2⟩
      · rw [hc.ready]
        omega
      · rw [hc.deferred]
        omega
    · have htaking := h.taking hcan hpops
      have hsame : ((m.act .step).world.worker k).stats.enqueued =
          (m.world.worker k).stats.enqueued :=
        congrArg (fun books => books.2.enqueued) (htaking.books k)
      obtain ⟨hready, hdeferred, hidle⟩ := ih hcan.live (hsame ▸ hk)
      have hj : k ≠ j := by
        -- there is nothing to take from an empty list
        rintro rfl
        have htaken := htaking.takes.pending
        have hnone : m.world.pending k = 0 := by rw [World.pending, hready, hdeferred]
        omega
      obtain ⟨-, hready', hdeferred'⟩ := htaking.takes.sole.others k hj
      refine ⟨hready'.trans hready, hdeferred'.trans hdeferred, ?_⟩
      rw [htaking.pollers]
      split
      · exact List.not_mem_cons_of_ne_of_not_mem hj hidle
      · exact hidle

/-- A list that a frame is on is not empty. -/
theorem length_ne_zero {f q : Nat} (hf : f ∈ m.world.runLists.toList q) :
    m.world.runLists.length q ≠ 0 := by
  intro hq
  rw [RunLists.toList, hq] at hf
  cases hhead : (m.world.runLists.lists.get q).head <;> rw [hhead] at hf <;> cases hf

theorem not_listed {f : FrameId} (hready : m.world.runLists.length (readyList k) = 0)
    (hdeferred : m.world.runLists.length (deferredList k) = 0) : ¬ m.Waits f k := by
  rintro (hf | hf)
  · exact length_ne_zero hf hready
  · exact length_ne_zero hf hdeferred

/-- Every frame on a list is on one of a worker that was made and given frames. -/
theorem engaged_of_listed (h : Reach allowed m) (hlive : m.session.aborted = none) {f : FrameId}
    (hf : m.Waits f k) : m.world.Engaged k := by
  constructor
  · rw [← Nat.not_le]
    intro hk
    obtain ⟨-, hready, hdeferred⟩ := (h.crewed hlive).staffed.blank k hk
    exact not_listed hready hdeferred hf
  · rw [Nat.pos_iff_ne_zero]
    intro hk
    obtain ⟨hready, hdeferred, -⟩ := h.unused hlive hk
    exact not_listed hready hdeferred hf

/-- A worker that polls was made. -/
theorem hired_of_pollingFor (h : Reach allowed m) (hlive : m.session.aborted = none)
    (hk : m.thread.pollingFor = some k) : k < m.world.workerCount := by
  refine (h.crewed hlive).staffed.hired k ?_
  unfold Thread.pollingFor at hk
  split at hk
  · rename_i j f outer below hstack
    cases hk
    rw [hstack]
    exact crewOf_mem List.mem_cons_self
  · cases hk

end Reach

/-- Between any two steps of a disciplined run, each live frame is at exactly one station, those on
run lists at one of a worker that exists.  A frame that awaits another one stays there until that
one returns, and is then ready on the worker that the other one has returned on. -/
theorem live_frames_at_one_station {poller : FrameId → FrameId} {m : Moment}
    (h : Reach (Moment.Disciplined poller) m) (hfault : m.fault = none) :
    (∀ f, (m.world.frame f).alive = true → ∃ s, m.At f s ∧ ∀ s', m.At f s' → s' = s) ∧
    (∀ f s, m.At f s → (m.world.frame f).alive = true) ∧
    (∀ f k, m.At f (.ready k) ∨ m.At f (.deferred k) → k < m.world.workerCount) ∧
    (∀ q, (m.world.runLists.toList q).Nodup) ∧ m.taken.Nodup ∧ (polls m.thread.stack).Nodup ∧
    (∀ c f, m.At f (.awaiting c) →
      (m.world.frame c).alive = true ∧ (m.world.frame c).isComplete = false) ∧
    (∀ f o, (f, o) ∈ m.returned → ¬ m.At f .polled) ∧
    ∀ action, m.Can action → m.Disciplined poller action → (m.act action).fault = none →
      ∀ c f, m.At f (.awaiting c) →
        if m.thread.returning m.world = some c then
          ∃ k, m.thread.pollingFor = some k ∧ k < m.world.workerCount ∧
          (m.act action).At f (.ready k)
        else (m.act action).At f (.awaiting c) := by
  have hreach := h
  obtain ⟨spot, h⟩ := h.placed hfault
  have hat := h.toSound.at_iff
  refine ⟨fun f hf => ?_, fun f s hf => ?_, fun f k hf => (hreach.engaged_of_listed h.live hf).1,
    fun q => ?_, h.layout.taken_nodup, h.layout.polled_nodup, fun c f hf => ?_,
    fun f o hf hpolled => ?_, fun action hcan hdisciplined hfault c f hf => ?_⟩
  · obtain ⟨s, hs⟩ := Spot.exists_station ((h.toSound.alive_iff f).mp hf) (h.toSound.not_isHand f)
      (h.anchored f)
    exact ⟨s, h.toSound.at_only s hs⟩
  · rw [h.toSound.alive_iff, (hat f s).mp hf]
    cases s <;> nofun
  · exact RunLists.Refines.nodup h.layout.lists q
  · have hpending : (spot c).IsPending :=
      h.layout.child c f (by rw [(hat f (.awaiting c)).mp hf]; rfl)
    have hpresent : spot c ≠ .absent := fun e => by rw [e] at hpending; exact hpending
    refine ⟨(h.toSound.alive_iff c).mpr hpresent, ?_⟩
    rw [Bool.eq_false_iff]
    intro hcomplete
    rw [(h.layout.isComplete_iff rfl hpresent).mp hcomplete] at hpending
    exact hpending
  · have hpending := h.toSound.not_pending_of_returned hf
    rw [(hat f .polled).mp hpolled] at hpending
    exact hpending trivial
  · have hwoken := h.woken hcan hdisciplined hfault hf
    split at hwoken
    · rename_i hc
      obtain ⟨k, hk, hready⟩ := hwoken
      rw [if_pos hc]
      exact ⟨k, hk, hreach.hired_of_pollingFor h.live hk, hready⟩
    · rename_i hc
      rw [if_neg hc]
      exact hwoken

theorem live_frames_at_one_station_rejoining :
    Reach (Moment.Disciplined fun _ => 1) (joining.after rejoiningActions) ∧
      (joining.after rejoiningActions).fault = none ∧
      (∃ s, (joining.after rejoiningActions).At 1 s ∧
        ∀ s', (joining.after rejoiningActions).At 1 s' → s' = s) ∧
      (joining.after rejoiningActions).At 1 (.awaiting 0) ∧
      ((joining.after rejoiningActions).act .step).At 1 (.ready 0) := by
  have hreach : Reach (Moment.Disciplined fun _ => 1) (joining.after rejoiningActions) :=
    (Reach.start _).after (by decide +kernel)
  have hfault : (joining.after rejoiningActions).fault = none := by decide +kernel
  have hawaiting : (joining.after rejoiningActions).At 1 (.awaiting 0) := by
    show ((joining.after rejoiningActions).world.frame 0).continuation = some 1
    decide +kernel
  obtain ⟨hone, -, -, -, -, -, -, -, hwoken⟩ := live_frames_at_one_station hreach hfault
  have hready :=
    hwoken .step (by decide +kernel) (by decide +kernel) (by decide +kernel) 0 1 hawaiting
  rw [if_pos (by decide +kernel)] at hready
  obtain ⟨k, hpolling, -, hready⟩ := hready
  have hworker : (joining.after rejoiningActions).thread.pollingFor = some 0 := by decide +kernel
  rw [hworker] at hpolling
  cases hpolling
  exact ⟨hreach, hfault, hone 1 (by decide +kernel), hawaiting, hready⟩

/-- The handle is dropped while both frames wait. -/
def severed : Moment := joining.after (joiningActions ++ [.call (.drop "@t")])

/-- A frame that awaits a task is nowhere once the handle of that task was dropped. -/
theorem awaiting_frame_lost_with_handle :
    Reach (Moment.Tidy fun _ => 1) severed ∧ severed.fault = none ∧
      (severed.world.frame 1).alive = true ∧ ∀ s, ¬ severed.At 1 s := by
  have hreach : Reach (Moment.Tidy fun _ => 1) severed := (Reach.start _).after (by decide +kernel)
  refine ⟨hreach, by decide +kernel, by decide +kernel, fun s hs => ?_⟩
  obtain ⟨spot, h⟩ := hreach.sound (fun _ _ h => h.careful) (by decide +kernel)
  have hqueued : severed.world.runLists.queued 1 ≠ true := by decide +kernel
  have hlisted : ∀ q, 1 ∉ severed.world.runLists.toList q :=
    fun q hq => hqueued ((h.layout.lists.queued_iff 1).mpr ⟨q, hq⟩)
  cases s with
  | unstarted =>
    have hnot : ⟨some 1, false⟩ ∉ severed.handles := by decide +kernel
    exact hnot hs
  | ready k => exact hlisted _ hs
  | deferred k => exact hlisted _ hs
  | parked slot =>
    have hslots : severed.world.slots.entries = [("s", some 0)] := by decide +kernel
    replace hs : (List.lookup slot severed.world.slots.entries).getD none = some 1 := hs
    rw [hslots, List.lookup_cons] at hs
    cases hslot : slot == "s" <;> simp [hslot] at hs
  | taken =>
    have hnot : 1 ∉ severed.taken := by decide +kernel
    exact hnot hs
  | awaiting c =>
    have hchild : (spot c).IsPending := h.layout.child c 1 ((h.layout.awaiting c 1).mp hs)
    have hnone : ∀ c < severed.world.frameCount, (severed.world.frame c).continuation ≠ some 1 := by
      decide +kernel
    exact hnone c (h.layout.lt_of_pending hchild) hs
  | polled =>
    have hnot : 1 ∉ polls severed.thread.stack := by decide +kernel
    exact hnot hs
  | complete =>
    have hnot : (severed.world.frame 1).isComplete ≠ true := by decide +kernel
    exact hnot hs.2

end Substrate.Coro
