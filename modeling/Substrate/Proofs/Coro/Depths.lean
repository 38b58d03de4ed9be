import Substrate.Proofs.Coro.Accounts

/-!
# How deep ready lists get

A worker keeps the greatest depth of its ready list that it saw when a frame was put on it.  Frames
also come back to the ready list all at once, when the worker finds it empty and turns the deferred
list around; at that point nobody looks at the depth.

* `Moment.deepest` is the greatest number of frames that the ready list of a worker held in a run.
* `Moment.crest` leaves out what came back from the deferred list, `Moment.widest` is what came
  back.
* `Reach.depths` compares the three with the peak that the worker has counted.
-/

namespace Substrate.Coro

namespace Moment

/-- How many frames are ready for worker `k`. -/
def readyCount (m : Moment) (k : WorkerId) : Nat := m.world.runLists.length (readyList k)

/-- The peak that worker `k` has counted. -/
def peak (m : Moment) (k : WorkerId) : Nat := (m.world.worker k).stats.peak

/-- How many frames worker `k` has counted as put on its ready list. -/
def enqueued (m : Moment) (k : WorkerId) : Nat := (m.world.worker k).stats.enqueued

/-- How many frames come back to the ready list of worker `k` in an action: all that are deferred,
if the worker is pumped and finds the ready list empty. -/
def refill (m : Moment) (k : WorkerId) : Action → Nat
  | .step =>
    match m.thread.stack with
    | .pump j _ _ :: _ =>
      if j = k ∧ m.readyCount k = 0 then m.world.runLists.length (deferredList k) else 0
    | _ => 0
  | _ => 0

/-- The greatest number of frames that the ready list of worker `k` has held, at some moment or
between a refill and what is taken right after it. -/
def deepest (k : WorkerId) (m : Moment) : List Action → Nat
  | [] => m.readyCount k
  | action :: rest => max (max (m.readyCount k) (m.refill k action)) ((m.act action).deepest k rest)

/-- The greatest number of frames that have come back to the ready list of worker `k` at once. -/
def widest (k : WorkerId) (m : Moment) : List Action → Nat
  | [] => 0
  | action :: rest => max (m.refill k action) ((m.act action).widest k rest)

/-- The greatest number of frames on the ready list of worker `k` after an action that has put some
there. -/
def crest (k : WorkerId) (m : Moment) : List Action → Nat
  | [] => 0
  | action :: rest =>
    max (if (m.act action).enqueued k = m.enqueued k then 0 else (m.act action).readyCount k)
      ((m.act action).crest k rest)

theorem readyCount_le_deepest (k : WorkerId) (m : Moment) (actions : List Action) :
    m.readyCount k ≤ m.deepest k actions := by
  cases actions with
  | nil => exact Nat.le_refl _
  | cons action rest => exact Nat.le_trans (Nat.le_max_left _ _) (Nat.le_max_left _ _)

/-- What an action does to the ready list of a worker and to the peak it has counted. -/
structure Deepens (m : Moment) (action : Action) (k : WorkerId) : Prop where
  peak : (m.act action).peak k = if (m.act action).enqueued k = m.enqueued k then m.peak k
    else max (m.peak k) ((m.act action).readyCount k)
  ready : (m.act action).enqueued k = m.enqueued k →
    (m.act action).readyCount k ≤ max (m.readyCount k) (m.refill k action)

theorem Deepens.of_tallies {m : Moment} {action : Action} {k : WorkerId} {c : Tally}
    (h : m.world.Tallies (m.act action).world k c) : m.Deepens action k := by
  have henqueued : (m.act action).enqueued k = m.enqueued k + c.joined := h.enqueued
  refine ⟨?_, fun hsame => ?_⟩
  · rw [show (m.act action).peak k = _ from h.peak]
    by_cases hjoined : c.joined = 0
    · rw [if_pos hjoined, if_pos (by omega)]
      rfl
    · rw [if_neg hjoined, if_neg (by omega)]
      rfl
  · have hready : (m.act action).readyCount k = m.readyCount k + c.joined := h.ready
    omega

theorem Deepens.of_takes {m : Moment} {k : WorkerId} {f : FrameId} (h : m.Taking .step k f)
    (hpops : m.pops .step = [(k, f)]) : m.Deepens .step k := by
  obtain ⟨outer, count, below, -, hstack, -⟩ := pops_eq hpops
  have hstats : ∀ {α : Type} (read : Stats → α),
      read { ((m.act .step).world.worker k).stats with parked := 0 } =
        read { (m.world.worker k).stats with parked := 0 } :=
    fun read => congrArg (fun books => read books.2) h.takes.books
  have henqueued : (m.act .step).enqueued k = m.enqueued k := hstats Stats.enqueued
  refine ⟨?_, fun _ => ?_⟩
  · rw [if_pos henqueued]
    exact hstats Stats.peak
  · have hrefill : m.refill k .step =
        if m.readyCount k = 0 then m.world.runLists.length (deferredList k) else 0 := by
      simp only [refill, hstack, true_and]
    have hready : (m.act .step).readyCount k + 1 =
        if m.readyCount k = 0 then m.world.runLists.length (deferredList k) else m.readyCount k :=
      h.takes.ready
    rw [hrefill]
    split at hready
    · rename_i hempty
      rw [if_pos hempty]
      omega
    · omega

end Moment

theorem Reach.deepens {allowed : Moment → Action → Prop} {m : Moment} {action : Action}
    (h : Reach allowed m) (hcan : m.Can action) (k : WorkerId) : m.Deepens action k := by
  rcases m.pops_cases action with hpops | ⟨j, f, rfl, hpops⟩
  · obtain ⟨ended, hcounted, -⟩ := (h.tallied hcan hpops).counted
    obtain ⟨c, -, -, -, hc⟩ := hcounted.tally k
    exact .of_tallies hc
  · have htaking := h.taking hcan hpops
    by_cases hj : k = j
    · subst hj
      exact .of_takes htaking hpops
    · obtain ⟨hbooks, hready, hdeferred⟩ := htaking.takes.sole.others k hj
      exact .of_tallies (.of_books hbooks hready hdeferred)

/-- What was ready before an action, and what it has added to the peak, is absorbed by what is known
to bound it. -/
theorem max_refilled {peak peak' wide ready refill deep : Nat} (hready : ready ≤ max peak wide)
    (hpeak : peak ≤ peak') (hpeak' : peak' ≤ max peak deep) :
    max peak (max wide (max (max ready refill) deep)) = max peak' (max (max wide refill) deep) := by
  apply Nat.le_antisymm <;> simp only [Nat.max_le]
  · refine ⟨?_, ?_, ⟨?_, ?_⟩, ?_⟩ <;> omega
  · refine ⟨?_, ⟨?_, ?_⟩, ?_⟩ <;> omega

/-- What a worker has counted, and what its ready list held, from any moment of a run on.  Before
that moment the list was never deeper than the peak, but for `wide` frames that came back at once.
-/
theorem Reach.depths {allowed : Moment → Action → Prop} {m : Moment} (h : Reach allowed m)
    (k : WorkerId) (actions : List Action) (hadmits : m.Admits allowed actions) {wide : Nat}
    (hready : m.readyCount k ≤ max (m.peak k) wide) :
    (m.after actions).peak k = max (m.peak k) (m.crest k actions) ∧
      max (m.peak k) (max wide (m.deepest k actions)) =
        max ((m.after actions).peak k) (max wide (m.widest k actions)) := by
  induction actions generalizing m wide with
  | nil =>
    refine ⟨(Nat.max_zero _).symm, ?_⟩
    show max _ (max wide (m.readyCount k)) = max (m.peak k) (max wide 0)
    omega
  | cons action rest ih =>
    obtain ⟨hcan, hallowed, hrest⟩ := hadmits
    obtain ⟨hpeak, hgrown⟩ := h.deepens hcan k
    have hle := (m.act action).readyCount_le_deepest k rest
    have hbound : (m.act action).readyCount k ≤
        max ((m.act action).peak k) (max wide (m.refill k action)) := by
      by_cases hsame : (m.act action).enqueued k = m.enqueued k
      · have := hgrown hsame
        rw [if_pos hsame] at hpeak
        omega
      · rw [if_neg hsame] at hpeak
        omega
    have hrises : m.peak k ≤ (m.act action).peak k ∧
        (m.act action).peak k ≤ max (m.peak k) ((m.act action).deepest k rest) := by
      rw [hpeak]
      split <;> omega
    obtain ⟨hpeak', hdeep⟩ := ih (h.next hcan hallowed) hrest hbound
    simp only [Moment.after, Moment.crest, Moment.deepest, Moment.widest]
    constructor
    · rw [hpeak', hpeak, ← Nat.max_assoc]
      split
      · rw [Nat.max_zero]
      · rfl
    · rw [max_refilled hready hrises.1 hrises.2, hdeep, Nat.max_assoc wide]

/-- The peak that a worker has counted is the greatest depth of its ready list after frames were put
on it from elsewhere than the deferred list; the greatest depth altogether is the peak or the
greatest number of frames that came back from the deferred list at once, whichever is greater. -/
theorem peak_is_depth_apart_from_refills {bodies : Registers (List Stmt)} {actions : List Action}
    (h : (Moment.fresh bodies).Admits (fun _ _ => True) actions) (k : WorkerId) :
    ((Moment.fresh bodies).after actions).peak k = (Moment.fresh bodies).crest k actions ∧
      (Moment.fresh bodies).deepest k actions =
        max (((Moment.fresh bodies).after actions).peak k)
        ((Moment.fresh bodies).widest k actions) := by
  have hpeak : (Moment.fresh bodies).peak k = 0 :=
    congrArg (fun worker : Worker => worker.stats.peak) (Table.get_empty k)
  have hready : (Moment.fresh bodies).readyCount k = 0 :=
    congrArg RunList.length (Table.get_empty (readyList k))
  have hbound : (Moment.fresh bodies).readyCount k ≤ max ((Moment.fresh bodies).peak k) 0 := by
    omega
  obtain ⟨hcrest, hdeepest⟩ := (Reach.fresh _ bodies).depths k actions h hbound
  rw [hpeak, Nat.zero_max] at hcrest hdeepest
  rw [Nat.zero_max, Nat.zero_max] at hdeepest
  exact ⟨hcrest, hdeepest⟩

/-- Two frames yield, one after the other. -/
def yieldingPair : Registers (List Stmt) :=
  (Registers.empty.set "a" [.spawn "b" 0, .yield]).set "b" [.yield]

/-- The first frame makes the second one and yields; the second one yields, and both come back. -/
def yieldingPairActions : List Action :=
  [.call (.spawn "w" "a" 0), .call (.pump "w")] ++ List.replicate 8 .step

theorem peak_is_depth_apart_from_refills_yielding :
    (Moment.fresh yieldingPair).Admits (fun _ _ => True) yieldingPairActions ∧
      ((Moment.fresh yieldingPair).after yieldingPairActions).peak 0 =
        (Moment.fresh yieldingPair).crest 0 yieldingPairActions ∧
      (Moment.fresh yieldingPair).deepest 0 yieldingPairActions =
        max (((Moment.fresh yieldingPair).after yieldingPairActions).peak 0)
          ((Moment.fresh yieldingPair).widest 0 yieldingPairActions) := by
  have h : (Moment.fresh yieldingPair).Admits (fun _ _ => True) yieldingPairActions := by
    decide +kernel
  exact ⟨h, peak_is_depth_apart_from_refills h 0⟩

/-- The ready list of the worker has held two frames, and the worker has counted one. -/
theorem peak_below_depth_after_refill :
    (Moment.fresh yieldingPair).Admits (fun _ _ => True) yieldingPairActions ∧
      ((Moment.fresh yieldingPair).after yieldingPairActions).peak 0 = 1 ∧
      (Moment.fresh yieldingPair).deepest 0 yieldingPairActions = 2 := by
  refine ⟨?_, ?_, ?_⟩ <;> decide +kernel

end Substrate.Coro
