import Substrate.Proofs.Coro.WorkerChanges
import Substrate.Proofs.Coro.Turns

/-!
# Tallies

What workers count, step by step.  A step either takes a frame off the lists of a worker, or it
makes frames ready and may end a poll; what becomes of the counters is read off a `Tally`.

* `World.Tallies w w' k c` says what the lists and counters of worker `k` have come to, given the
  frames that joined its lists and the polls that ended.
* `World.Deeds.tallies` is about the deeds of code.
* `Thread.Crewed.step` is about every step of a thread that takes no frame, and
  `Thread.Crewed.take` about those that do.
* `Reach.crewed` and `Reach.tallied` are about every action of a run.
-/

namespace Substrate.Coro

theorem RunLists.length_push {r r' : RunLists} {q f : Nat} (h : r.push q f = some r') (q' : Nat) :
    r'.length q' = if q' = q then r.length q + 1 else r.length q' := by
  unfold RunLists.push at h
  split at h
  · cases h
  · cases h
    show ((r.lists.set q _).get q').length = _
    rw [Table.get_set]
    split <;> rfl

/-- What happened to the books of a worker. -/
structure Tally where
  /-- Frames that became ready. -/
  joined : Nat := 0
  /-- Frames put on the deferred list. -/
  deferred : Nat := 0
  /-- Polls that ended in a yield. -/
  yielded : Nat := 0
  /-- Polls that ended. -/
  ended : Nat := 0
  /-- Frames retired and destroyed. -/
  retired : Nat := 0

/-- One thing after another. -/
def Tally.add (c c' : Tally) : Tally :=
  ⟨c.joined + c'.joined, c.deferred + c'.deferred, c.yielded + c'.yielded, c.ended + c'.ended,
    c.retired + c'.retired⟩

namespace World

/-- The lists and the counters of worker `k` have changed as a tally says, and destroyed frames may
have been counted besides. -/
structure Tallies (w w' : World) (k : WorkerId) (c : Tally) : Prop where
  ready : w'.runLists.length (readyList k) = w.runLists.length (readyList k) + c.joined
  deferred : w'.runLists.length (deferredList k) = w.runLists.length (deferredList k) + c.deferred
  enqueued : (w'.worker k).stats.enqueued = (w.worker k).stats.enqueued + c.joined
  peak : (w'.worker k).stats.peak = if c.joined = 0 then (w.worker k).stats.peak
    else max (w.worker k).stats.peak (w'.runLists.length (readyList k))
  yielded : (w'.worker k).stats.yielded = (w.worker k).stats.yielded + c.yielded
  resumed : (w'.worker k).stats.resumed = (w.worker k).stats.resumed + c.ended
  retired : (w'.worker k).stats.retired = (w.worker k).stats.retired + c.retired
  destroyed : (w.worker k).stats.destroyed + c.retired ≤ (w'.worker k).stats.destroyed

namespace Tallies

variable {w w' w'' : World} {k : WorkerId} {c c' : Tally}

theorem trans (h : w.Tallies w' k c) (h' : w'.Tallies w'' k c') : w.Tallies w'' k (c.add c') := by
  obtain ⟨hready, hdeferred, henqueued, hpeak, hyielded, hresumed, hretired, hdestroyed⟩ := h
  obtain ⟨hready', hdeferred', henqueued', hpeak', hyielded', hresumed', hretired', hdestroyed'⟩ :=
    h'
  refine ⟨?_, ?_, ?_, ?_, ?_, ?_, ?_, ?_⟩
  case refine_4 =>
    show _ = if c.joined + c'.joined = 0 then _ else _
    rcases Nat.eq_zero_or_pos c'.joined with hnone | hsome
    · rw [hpeak', if_pos hnone, hpeak, hready', hnone]
      rfl
    · have hsum : c.joined + c'.joined ≠ 0 := by omega
      rw [hpeak', if_neg (Nat.ne_of_gt hsome), hpeak, if_neg hsum]
      rcases Nat.eq_zero_or_pos c.joined with hnone | hsome'
      · rw [if_pos hnone]
      · have hgrown : w'.runLists.length (readyList k) ≤ w''.runLists.length (readyList k) := by
          omega
        rw [if_neg (Nat.ne_of_gt hsome'), Nat.max_assoc, Nat.max_eq_right hgrown]
  all_goals
    simp only [Tally.add]
    omega

/-- The books of the worker are as before. -/
theorem of_books (hbooks : (w'.worker k).books = (w.worker k).books)
    (hready : w'.runLists.length (readyList k) = w.runLists.length (readyList k))
    (hdeferred : w'.runLists.length (deferredList k) = w.runLists.length (deferredList k)) :
    w.Tallies w' k {} := by
  have hstats : ∀ {α : Type} (count : Stats → α),
      count { (w'.worker k).stats with parked := 0 } =
      count { (w.worker k).stats with parked := 0 } :=
    fun count => congrArg (fun books => count books.2) hbooks
  refine ⟨hready, hdeferred, hstats Stats.enqueued, hstats Stats.peak, hstats Stats.yielded,
    hstats Stats.resumed, hstats Stats.retired, ?_⟩
  exact Nat.le_of_eq (hstats Stats.destroyed).symm

theorem refl (w : World) (k : WorkerId) : w.Tallies w k {} := of_books rfl rfl rfl

theorem of_still (h : w.Still w') (k : WorkerId) : w.Tallies w' k {} :=
  of_books (h.books k) (by rw [h.runLists]) (by rw [h.runLists])

end Tallies

/-! ## The staff -/

/-- Only workers that were hired are entered, have names, frames on their lists and books, and no
frame is left to dispose of. -/
structure Staffed (w : World) (crew : WorkerId → Prop) : Prop where
  hired : ∀ k, crew k → k < w.workerCount
  named : ∀ name k, w.workerNames.get? name = some k → k < w.workerCount
  blank : ∀ k, w.workerCount ≤ k → (w.worker k).books = ([], {}) ∧
    w.runLists.length (readyList k) = 0 ∧ w.runLists.length (deferredList k) = 0
  drained : ∀ k, (w.worker k).retired = []

/-- Only the books of worker `k` have changed, and it has the same frames to dispose of. -/
structure Sole (w w' : World) (k : WorkerId) : Prop where
  others : ∀ j, j ≠ k → (w'.worker j).books = (w.worker j).books ∧
    w'.runLists.length (readyList j) = w.runLists.length (readyList j) ∧
    w'.runLists.length (deferredList j) = w.runLists.length (deferredList j)
  retired : (w'.worker k).retired = (w.worker k).retired
  workerCount : w'.workerCount = w.workerCount
  workerNames : w'.workerNames = w.workerNames

namespace Sole

variable {w w' : World} {k : WorkerId} {c : Tally}

theorem modifyWorker (w : World) (k : WorkerId) {change : Worker → Worker}
    (hretired : (change (w.worker k)).retired = (w.worker k).retired) :
    w.Sole (w.modifyWorker k change) k := by
  refine ⟨fun j hj => ?_, ?_, rfl, rfl⟩
  · rw [World.worker_modifyWorker, if_neg hj]
    exact ⟨rfl, rfl, rfl⟩
  · rw [World.worker_modifyWorker, if_pos rfl]
    exact hretired

theorem trans {w'' : World} (h : w.Sole w' k) (h' : w'.Sole w'' k) : w.Sole w'' k := by
  refine ⟨fun j hj => ?_, h'.retired.trans h.retired, h'.workerCount.trans h.workerCount,
    h'.workerNames.trans h.workerNames⟩
  obtain ⟨hbooks, hready, hdeferred⟩ := h.others j hj
  obtain ⟨hbooks', hready', hdeferred'⟩ := h'.others j hj
  exact ⟨hbooks'.trans hbooks, hready'.trans hready, hdeferred'.trans hdeferred⟩

theorem of_still (h : w.Still w') (k : WorkerId) : w.Sole w' k := by
  refine ⟨fun j _ => ⟨h.books j, ?_, ?_⟩, congrArg Prod.fst (h.books k), h.workerCount,
    h.workerNames⟩ <;>
    rw [h.runLists]

theorem enqueue (w : World) (k : WorkerId) (f : FrameId) : w.Sole (w.enqueue k f) k := by
  have hsteady := w.steady_enqueue k f
  refine ⟨fun j hj => ?_, hsteady.retired k, hsteady.workerCount, hsteady.workerNames⟩
  unfold World.enqueue
  cases hpush : w.runLists.push (readyList k) f with
  | none => exact ⟨rfl, rfl, rfl⟩
  | some r =>
    have hlength := RunLists.length_push hpush
    refine ⟨congrArg Worker.books ((World.worker_modifyWorker _ _ _ _).trans (if_neg hj)), ?_, ?_⟩
    · exact (hlength _).trans (if_neg fun e => hj (readyList_inj.mp e))
    · exact (hlength _).trans (if_neg (readyList_ne_deferredList k j).symm)

/-- The other workers have nothing to count. -/
theorem tallies (h : w.Sole w' k) (hk : w.Tallies w' k c) (j : WorkerId) :
    w.Tallies w' j (if j = k then c else {}) := by
  split
  · rename_i hj
    exact hj ▸ hk
  · rename_i hj
    obtain ⟨hbooks, hready, hdeferred⟩ := h.others j hj
    exact .of_books hbooks hready hdeferred

end Sole

namespace Staffed

variable {w w' : World} {crew crew' : WorkerId → Prop} {k : WorkerId}

theorem mono (h : w.Staffed crew) (hcrew : ∀ k, crew' k → k < w.workerCount) : w.Staffed crew' :=
  ⟨hcrew, h.named, h.blank, h.drained⟩

theorem knows (h : w.Staffed crew) (hk : w.Knows crew k) : k < w.workerCount := by
  rcases hk with hk | ⟨name, hk⟩
  · exact h.hired k hk
  · exact h.named name k hk

theorem still (h : w.Staffed crew) (hstill : w.Still w') : w'.Staffed crew := by
  refine ⟨?_, ?_, fun k hk => ?_, fun k => ?_⟩
  · rw [hstill.workerCount]
    exact h.hired
  · rw [hstill.workerNames, hstill.workerCount]
    exact h.named
  · rw [hstill.books, hstill.runLists]
    exact h.blank k (hstill.workerCount ▸ hk)
  · exact (congrArg Prod.fst (hstill.books k)).trans (h.drained k)

theorem sole (h : w.Staffed crew) (hk : k < w.workerCount) (hsole : w.Sole w' k) :
    w'.Staffed crew := by
  refine ⟨?_, ?_, fun j hj => ?_, fun j => ?_⟩
  · rw [hsole.workerCount]
    exact h.hired
  · rw [hsole.workerNames, hsole.workerCount]
    exact h.named
  · rw [hsole.workerCount] at hj
    obtain ⟨hbooks, hready, hdeferred⟩ := hsole.others j (Nat.ne_of_gt (Nat.lt_of_lt_of_le hk hj))
    rw [hbooks, hready, hdeferred]
    exact h.blank j hj
  · by_cases hj : j = k
    · rw [hj, hsole.retired]
      exact h.drained k
    · exact (congrArg Prod.fst (hsole.others j hj).1).trans (h.drained j)

/-- Hiring a worker changes nobody's books. -/
theorem books_newWorker (h : w.Staffed crew) (hook : ReleaseHook) (k : WorkerId) :
    ((w.newWorker hook).1.worker k).books = (w.worker k).books := by
  have hworker : (w.newWorker hook).1.worker k =
      if k = w.workerCount then { hook } else w.worker k := Table.get_set _ _ _ _
  rw [hworker]
  split
  · rename_i hk
    rw [hk, (h.blank w.workerCount (Nat.le_refl _)).1]
    rfl
  · rfl

end Staffed

/-! ## Deeds -/

/-- A frame becomes ready, or it is on a list already. -/
theorem Tallies.enqueue (w : World) (k : WorkerId) (f : FrameId) :
    ∃ n, w.Tallies (w.enqueue k f) k { joined := n } := by
  unfold World.enqueue
  cases hpush : w.runLists.push (readyList k) f with
  | none => exact ⟨0, refl w k⟩
  | some r =>
    have hlength := RunLists.length_push hpush
    have hworker : (({ w with runLists := r } : World).count k fun s =>
        { s with enqueued := s.enqueued + 1, peak := max s.peak (r.length (readyList k)) }).worker
          k = { w.worker k with stats := { (w.worker k).stats with
          enqueued := (w.worker k).stats.enqueued + 1
          peak := max (w.worker k).stats.peak (r.length (readyList k)) } } :=
      (World.worker_modifyWorker _ _ _ _).trans (if_pos rfl)
    refine ⟨1, (hlength _).trans (if_pos rfl),
      (hlength _).trans (if_neg (readyList_ne_deferredList k k).symm), ?_, ?_, ?_, ?_, ?_,
      Nat.le_of_eq ?_⟩ <;> rw [hworker] <;> rfl

/-- A deed keeps the staff in order, and all it does to the books is to count. -/
theorem Deed.tallies {drops makes : Prop} {crew : WorkerId → Prop} {w w' : World}
    (h : Deed drops makes crew w w') (hw : w.Staffed crew) :
    w.workerCount ≤ w'.workerCount ∧ w'.Staffed crew ∧ ∀ k, ∃ n,
    w.Tallies w' k { joined := n } := by
  have hstill : ∀ {w' : World}, w.Still w' → w.workerCount ≤ w'.workerCount ∧ w'.Staffed crew ∧
      ∀ k, ∃ n, w.Tallies w' k { joined := n } :=
    fun h => ⟨Nat.le_of_eq h.workerCount.symm, hw.still h, fun k => ⟨0, .of_still h k⟩⟩
  -- a worker that code knows of has its books changed, and nobody else
  have hsole : ∀ {w' : World} {k : WorkerId} {n : Nat}, k < w.workerCount → w.Sole w' k →
      w.Tallies w' k { joined := n } → w.workerCount ≤ w'.workerCount ∧ w'.Staffed crew ∧
        ∀ k, ∃ n, w.Tallies w' k { joined := n } := by
    intro w' k n hk h hn
    refine ⟨Nat.le_of_eq h.workerCount.symm, hw.sole hk h, fun j => ?_⟩
    have htallies := h.tallies hn j
    split at htallies
    · exact ⟨n, htallies⟩
    · exact ⟨0, htallies⟩
  cases h with
  | still h => exact hstill h
  | @enqueue k f hk =>
    obtain ⟨n, hn⟩ := Tallies.enqueue w k f
    exact hsole (hw.knows hk) (.enqueue w k f) hn
  | hire hook =>
    have hbooks := hw.books_newWorker hook
    refine ⟨Nat.le_succ _, ⟨fun k hk => Nat.lt_succ_of_lt (hw.hired k hk), fun name k hk =>
      Nat.lt_succ_of_lt (hw.named name k hk), fun k hk => ?_, fun k => ?_⟩, fun k => ?_⟩
    · rw [hbooks]
      exact hw.blank k (Nat.le_of_succ_le hk)
    · exact (congrArg Prod.fst (hbooks k)).trans (hw.drained k)
    · exact ⟨0, .of_books (hbooks k) rfl rfl⟩
  | @rename names h =>
    refine ⟨Nat.le_refl _, ⟨hw.hired, fun name k hk => ?_, hw.blank, hw.drained⟩,
      fun k => ⟨0, .of_books rfl rfl rfl⟩⟩
    rcases h name k hk with hk | hk
    · exact hw.named name k hk
    · exact Nat.lt_of_succ_le (Nat.le_of_eq hk)
  | make hmakes home disposal body arg =>
    exact ⟨Nat.le_refl _, ⟨hw.hired, hw.named, hw.blank, hw.drained⟩,
      fun k => ⟨0, .of_books rfl rfl rfl⟩⟩
  | finish hdrops p f ending =>
    obtain ⟨log, heq⟩ := Layout.endFrame_eq w p f ending
    rw [heq]
    exact ⟨Nat.le_refl _, ⟨hw.hired, hw.named, hw.blank, hw.drained⟩,
      fun k => ⟨0, .of_books rfl rfl rfl⟩⟩
  | @note hdrops k hk =>
    refine hsole (n := 0) (hw.hired k hk) (.modifyWorker w k rfl)
      ⟨rfl, rfl, ?_, ?_, ?_, ?_, ?_, ?_⟩ <;>
      rw [World.count, World.worker_modifyWorker, if_pos rfl] <;> first | rfl | exact Nat.le_succ _
  | detach hdrops f =>
    exact ⟨Nat.le_refl _, ⟨hw.hired, hw.named, hw.blank, hw.drained⟩,
      fun k => ⟨0, .of_books rfl rfl rfl⟩⟩

/-- Deeds keep the staff in order, and all they do to the books is to count. -/
theorem Deeds.tallies {drops makes : Prop} {crew : WorkerId → Prop} {w w' : World}
    (h : Deeds drops makes crew w w') (hw : w.Staffed crew) :
    w.workerCount ≤ w'.workerCount ∧ w'.Staffed crew ∧ ∀ k, ∃ n,
    w.Tallies w' k { joined := n } := by
  induction h with
  | refl => exact ⟨Nat.le_refl _, hw, fun k => ⟨0, .refl w k⟩⟩
  | tail _ h ih =>
    obtain ⟨hcount, hw', htallies⟩ := ih
    obtain ⟨hcount', hw'', htallies'⟩ := h.tallies hw'
    refine ⟨Nat.le_trans hcount hcount', hw'', fun k => ?_⟩
    obtain ⟨n, hn⟩ := htallies k
    obtain ⟨n', hn'⟩ := htallies' k
    exact ⟨n + n', hn.trans hn'⟩

/-- The length of a list once a frame has yielded. -/
theorem length_defer (w : World) (k : WorkerId) (f : FrameId) (q : Nat) :
    (w.defer k f).runLists.length q = w.runLists.length q +
      if q = deferredList k ∧ w.runLists.queued f = false then 1 else 0 := by
  unfold World.defer
  cases hpush : w.runLists.push (deferredList k) f with
  | none =>
    have hqueued : w.runLists.queued f = true := by
      unfold RunLists.push at hpush
      split at hpush
      · assumption
      · cases hpush
    rw [if_neg (by simp [hqueued])]
    rfl
  | some r =>
    have hqueued : w.runLists.queued f = false := by
      unfold RunLists.push at hpush
      split at hpush
      · cases hpush
      · rename_i hnot
        exact Bool.eq_false_iff.mpr hnot
    show r.length q = _
    rw [RunLists.length_push hpush, hqueued]
    simp only [and_true]
    split
    · rename_i hq
      rw [hq]
    · rfl

/-! ## Accounts -/

/-- Every worker has a tally, in which the polls of `ended` have ended, and no more frames were
deferred than that; if the frames that yield are `free`, all of them are put on a list. -/
structure Counted (free : Prop) (ended : List WorkerId) (w w' : World) : Prop where
  ran : w.Ran w'
  tally : ∀ k, ∃ c : Tally, c.ended = ended.count k ∧ c.deferred ≤ c.ended ∧
    (free → c.deferred = c.yielded) ∧ w.Tallies w' k c

theorem Counted.trans {free : Prop} {ended ended' : List WorkerId} {w w' w'' : World}
    (h : w.Counted free ended w') (h' : w'.Counted free ended' w'') :
    w.Counted free (ended ++ ended') w'' := by
  refine ⟨h.ran.trans h'.ran, fun k => ?_⟩
  obtain ⟨c, hended, hdeferred, hfree, hc⟩ := h.tally k
  obtain ⟨c', hended', hdeferred', hfree', hc'⟩ := h'.tally k
  refine ⟨c.add c', ?_, Nat.add_le_add hdeferred hdeferred', fun h => ?_, hc.trans hc'⟩
  · rw [List.count_append, ← hended, ← hended']
    rfl
  · show c.deferred + c'.deferred = c.yielded + c'.yielded
    rw [hfree h, hfree' h]

theorem worker_cleared (w : World) (k : WorkerId) (f : FrameId) (j : WorkerId) :
    (cleared w k f).worker j = if j = k then { w.worker j with
      retired := []
      stats := { (w.worker j).stats with retired := (w.worker j).stats.retired + 1 } }
    else w.worker j := by
  show (((retiring w k f).modifyWorker k fun worker => { worker with retired := [] }).worker j) = _
  rw [World.worker_modifyWorker, retiring, World.count, World.worker_modifyWorker,
    World.worker_modifyWorker]
  split <;> rfl

/-- A poll ends. -/
theorem Tallies.endPoll (w : World) (k : WorkerId) (outer : Option FrameId) :
    w.Tallies (Thread.endPoll w k outer) k { ended := 1 } := by
  refine ⟨rfl, rfl, ?_, ?_, ?_, ?_, ?_, Nat.le_of_eq ?_⟩ <;>
    rw [Thread.endPoll, World.worker_modifyWorker, if_pos rfl] <;> rfl

/-- What a worker does besides when a poll ends concerns no books. -/
theorem endPoll_still (w : World) (k : WorkerId) (f : FrameId) (outer : Option FrameId) :
    (Thread.endPoll w k outer).Still (released w k f outer) := by
  have hstaged : (Thread.endPoll w k outer).Still
      ((Thread.endPoll w k outer).modifyFrame f fun frame =>
      { frame with stage := .suspended }) := .modifyFrame _ ⟨rfl, rfl, rfl, rfl⟩
  exact hstaged.trans (.modifyWorker _ rfl)

/-- A frame that yields goes on the deferred list, unless it is on a list already. -/
theorem Tallies.yield (w : World) (k : WorkerId) (f : FrameId) :
    w.Sole ((w.defer k f).count k fun s => { s with yielded := s.yielded + 1 }) k ∧
      w.Tallies ((w.defer k f).count k fun s => { s with yielded := s.yielded + 1 }) k
        { yielded := 1, deferred := if w.runLists.queued f = false then 1 else 0 } := by
  have hworker : ∀ j,
      ((w.defer k f).count k fun s => { s with yielded := s.yielded + 1 }).worker j =
      if j = k then { w.worker j with stats := { (w.worker j).stats with
        yielded := (w.worker j).stats.yielded + 1 } } else w.worker j :=
    fun j => World.worker_modifyWorker _ _ _ _
  have hready : ∀ j, (w.defer k f).runLists.length (readyList j) =
      w.runLists.length (readyList j) := by
    intro j
    rw [length_defer, if_neg fun h => readyList_ne_deferredList j k h.1]
    rfl
  refine ⟨⟨fun j hj => ⟨?_, hready j, ?_⟩, ?_, rfl, rfl⟩, hready k, ?_, ?_, ?_, ?_, ?_, ?_,
    Nat.le_of_eq ?_⟩
  · rw [hworker, if_neg hj]
  · show (w.defer k f).runLists.length _ = _
    rw [length_defer, if_neg fun h => hj (deferredList_inj.mp h.1)]
    rfl
  · rw [hworker, if_pos rfl]
  · refine (w.length_defer k f _).trans ?_
    simp only [true_and]
  all_goals rw [hworker, if_pos rfl] <;> rfl

/-- The staff stays in order, and everything is counted. -/
def Accounts (crew : WorkerId → Prop) (free : Prop) (ended : List WorkerId) (w w' : World) : Prop :=
  w.Staffed crew → w.workerCount ≤ w'.workerCount ∧ w'.Staffed crew ∧ w.Counted free ended w'

namespace Accounts

variable {crew : WorkerId → Prop} {free : Prop} {ended ended' : List WorkerId} {w w' w'' : World}

theorem trans (h : Accounts crew free ended w w') (h' : Accounts crew free ended' w' w'') :
    Accounts crew free (ended ++ ended') w w'' := by
  intro hw
  obtain ⟨hcount, hw', hcounted⟩ := h hw
  obtain ⟨hcount', hw'', hcounted'⟩ := h' hw'
  exact ⟨Nat.le_trans hcount hcount', hw'', hcounted.trans hcounted'⟩

theorem of_staffed (h : w.Staffed crew → Accounts crew free ended w w') :
    Accounts crew free ended w w' := fun hw => h hw hw

theorem deeds (h : Deeds True True crew w w') : Accounts crew free [] w w' := by
  intro hw
  obtain ⟨hcount, hw', htallies⟩ := h.tallies hw
  refine ⟨hcount, hw', h.ran, fun k => ?_⟩
  obtain ⟨n, hn⟩ := htallies k
  exact ⟨_, rfl, Nat.le_refl 0, fun _ => rfl, hn⟩

theorem still (h : w.Still w') : Accounts crew free [] w w' := deeds (.still h)

theorem refl (w : World) : Accounts crew free [] w w := still (.elsewhere rfl)

/-- The books of one worker change. -/
theorem sole {k : WorkerId} {c : Tally} (hk : crew k) (hran : w.Ran w') (h : w.Sole w' k)
    (hc : w.Tallies w' k c) (hended : ended = List.replicate c.ended k)
    (hdeferred : c.deferred ≤ c.ended)
    (hfree : free → c.deferred = c.yielded) : Accounts crew free ended w w' := by
  intro hw
  refine ⟨Nat.le_of_eq h.workerCount.symm, hw.sole (hw.hired k hk) h, hran,
    fun j => ⟨_, ?_, ?_, ?_, h.tallies hc j⟩⟩
  · rw [hended, List.count_replicate]
    by_cases hj : j = k
    · rw [if_pos hj, if_pos (beq_iff_eq.mpr hj.symm)]
    · rw [if_neg hj, if_neg fun e => hj (beq_iff_eq.mp e).symm]
  · split
    · exact hdeferred
    · exact Nat.le_refl 0
  · intro h
    split
    · exact hfree h
    · rfl

/-- A worker with nothing to dispose of goes on. -/
theorem drain (p : Place) (k : WorkerId) : Accounts crew free [] w (w.drainRetired p k) :=
  of_staffed fun hw => still (.drainRetired w p (hw.drained k))

theorem dropWorker (p : Place) (k : WorkerId) : Accounts crew free [] w (w.dropWorker p k) :=
  of_staffed fun hw => still (.dropWorker w p (hw.drained k))

theorem dropTemporary (p : Place) (k : WorkerId) (temporary : Bool) :
    Accounts crew free [] w (if temporary then w.dropWorker p k else w) := by
  split
  · exact dropWorker p k
  · exact refl w

theorem endPoll {k : WorkerId} (hk : crew k) (outer : Option FrameId) :
    Accounts crew free [k] w (Thread.endPoll w k outer) :=
  sole hk (.of_frames (fun _ => rfl) rfl) (.modifyWorker w k rfl) (.endPoll w k outer) rfl
    (Nat.zero_le 1) fun _ => rfl

theorem released {k : WorkerId} (hk : crew k) (f : FrameId) (outer : Option FrameId) :
    Accounts crew free [k] w (released w k f outer) :=
  (endPoll hk outer).trans (still (endPoll_still w k f outer))

/-- A poll that ends in a yield: the frame goes on the deferred list, unless it is on a list
already. -/
theorem yielded {k : WorkerId} (hk : crew k) {f : FrameId} (outer : Option FrameId)
    (hf : free → w.runLists.queued f = false) :
    Accounts crew free [k] w (((Coro.released w k f outer).defer k f).count k fun s =>
      { s with yielded := s.yielded + 1 }) := by
  have hstill := endPoll_still w k f outer
  obtain ⟨hsole, hyield⟩ := Tallies.yield (Coro.released w k f outer) k f
  have hc : w.Tallies (((Coro.released w k f outer).defer k f).count k fun s =>
      { s with yielded := s.yielded + 1 }) k
      { ended := 1, yielded := 1, deferred := if w.runLists.queued f = false then 1 else 0 } := by
    have hboth := ((Tallies.endPoll w k outer).trans (.of_still hstill k)).trans hyield
    simp only [Tally.add, Nat.zero_add, Nat.add_zero] at hboth
    exact hboth
  refine sole hk ?_ (((Sole.modifyWorker w k rfl).trans (.of_still hstill k)).trans hsole) hc rfl ?_
    fun h => if_pos (hf h)
  · exact .of_frames (fun g => (hstill.frame g).runner) hstill.frameCount
  · dsimp only
    split
    · exact Nat.le_refl 1
    · exact Nat.zero_le 1

/-- A frame that retires is destroyed at once, and its worker counts both. -/
theorem retire {k : WorkerId} (hk : crew k) {p : Place} (hp : p.Within crew) (f : FrameId) :
    Accounts crew free [] w ((retiring w k f).drainRetired p k) := by
  refine of_staffed fun hw => ?_
  rw [w.drainRetired_retiring p (hw.drained k)]
  have hcleared := worker_cleared w k f
  have hsole : w.Sole (cleared w k f) k := by
    refine ⟨fun j hj => ⟨?_, rfl, rfl⟩, ?_, rfl, rfl⟩
    · rw [hcleared, if_neg hj]
    · rw [hcleared, if_pos rfl]
      exact (hw.drained k).symm
  have hmade := hw.hired k hk
  have hdestroyed : Deeds True True crew (cleared w k f) ((cleared w k f).destroy p f .retired) :=
    .destroy trivial hp f .retired
  have hran := hdestroyed.ran
  obtain ⟨hcount, hw', htallies⟩ := hdestroyed.tallies (hw.sole hmade hsole)
  generalize (cleared w k f).destroy p f .retired = w₁ at hran hcount hw' htallies
  have hcounted : w₁.Sole (w₁.count k fun s => { s with destroyed := s.destroyed + 1 }) k :=
    .modifyWorker w₁ k rfl
  intro _
  have hmarked : w.Ran (cleared w k f) := by
    refine .of_frames (fun g => ?_) rfl
    show ((w.modifyFrame f fun frame => { frame with retired := true }).frame g).runner = _
    rw [frame_modifyFrame]
    split <;> rfl
  refine ⟨hcount, hw'.sole (Nat.lt_of_lt_of_le hmade hcount) hcounted, ?_, fun j => ?_⟩
  · exact (hmarked.trans hran).trans (.of_frames (fun _ => rfl) rfl)
  obtain ⟨n, hn⟩ := htallies j
  by_cases hj : j = k
  · subst hj
    refine ⟨{ joined := n, retired := 1 }, rfl, Nat.le_refl 0, fun _ => rfl, ?_⟩
    have hworker : (w₁.count j fun s => { s with destroyed := s.destroyed + 1 }).worker j =
        { w₁.worker j with stats := { (w₁.worker j).stats with
          destroyed := (w₁.worker j).stats.destroyed + 1 } } :=
      (World.worker_modifyWorker _ _ _ _).trans (if_pos rfl)
    obtain ⟨hready, hdeferred, henqueued, hpeak, hyielded, hresumed, hretired, hnoted⟩ := hn
    rw [hcleared, if_pos rfl] at henqueued hpeak hyielded hresumed hretired hnoted
    refine ⟨hready, hdeferred, ?_, ?_, ?_, ?_, ?_, ?_⟩ <;> rw [hworker]
    · exact henqueued
    · exact hpeak
    · exact hyielded
    · exact hresumed
    · exact hretired
    · exact Nat.succ_le_succ hnoted
  · obtain ⟨hbooks, hready, hdeferred⟩ := hsole.others j hj
    obtain ⟨hbooks', hready', hdeferred'⟩ := hcounted.others j hj
    refine ⟨{ joined := n }, ?_, Nat.le_refl 0, fun _ => rfl, ?_⟩
    · rfl
    · have hall := ((Tallies.of_books hbooks hready hdeferred).trans hn).trans
        (.of_books hbooks' hready' hdeferred')
      simpa only [Tally.add, Nat.zero_add, Nat.add_zero] using hall

end Accounts

end World

/-! ## Frames that are taken -/

namespace World

/-- Worker `k` has taken a frame off its ready list, which was filled from the deferred list if it
was empty. -/
structure Takes (w w' : World) (k : WorkerId) : Prop where
  ready : w'.runLists.length (readyList k) + 1 =
    if w.runLists.length (readyList k) = 0 then w.runLists.length (deferredList k)
    else w.runLists.length (readyList k)
  pending : w'.pending k + 1 = w.pending k
  books : (w'.worker k).books = (w.worker k).books
  sole : w.Sole w' k

/-- Nothing happens to the lists and the books afterwards. -/
theorem Takes.still {w w' w'' : World} {k : WorkerId} (h : w.Takes w' k) (hsole : w'.Sole w'' k)
    (hbooks : (w''.worker k).books = (w'.worker k).books) (hlists : w''.runLists = w'.runLists) :
    w.Takes w'' k := by
  refine ⟨?_, ?_, hbooks.trans h.books, h.sole.trans hsole⟩
  · rw [hlists]
    exact h.ready
  · rw [World.pending, hlists]
    exact h.pending

theorem nextFrame_takes {w w' : World} (h : w.runLists.Sound) {k : WorkerId} {f : FrameId}
    (hnext : w.nextFrame k = some (f, w')) : w.Takes w' k := by
  -- the lists after a frame was popped, in terms of those before
  have hpopped : ∀ {r r' : RunLists}, r.Sound → r.pop (readyList k) = some (f, r') →
      ∀ q, r'.length q + (if q = readyList k then 1 else 0) = r.length q := by
    intro r r' hr hpop q
    obtain ⟨below, hq, hr', hlists⟩ := hr.pop_cases hpop
    rw [← hr'.length_toList, ← hr.length_toList, hlists]
    split
    · rename_i e
      rw [e, hq]
      rfl
    · rfl
  have hother : ∀ j, j ≠ k → ¬readyList j = readyList k ∧ ¬deferredList j = readyList k ∧
      ¬deferredList j = deferredList k ∧ ¬readyList j = deferredList k := fun j hj =>
    ⟨fun e => hj (readyList_inj.mp e), (readyList_ne_deferredList k j).symm,
      fun e => hj (deferredList_inj.mp e), readyList_ne_deferredList j k⟩
  have hsplit := (readyList_ne_deferredList k k).symm
  obtain ⟨r, rfl, hpop | ⟨hnone, hpop⟩⟩ := World.nextFrame_some hnext
  · have hlength := hpopped h hpop
    have hready := hlength (readyList k)
    have hdeferred := hlength (deferredList k)
    rw [if_pos rfl] at hready
    rw [if_neg hsplit] at hdeferred
    refine ⟨?_, ?_, rfl, fun j hj => ⟨rfl, ?_, ?_⟩, rfl, rfl, rfl⟩
    · show r.length _ + 1 = _
      rw [if_neg (by omega)]
      exact hready
    · show r.length _ + r.length _ + 1 = w.runLists.length _ + w.runLists.length _
      omega
    · have := hlength (readyList j)
      rwa [if_neg (hother j hj).1] at this
    · have := hlength (deferredList j)
      rwa [if_neg (hother j hj).2.1] at this
  · have hempty := h.toList_eq_nil hnone
    obtain ⟨hpoured, hlists⟩ := h.pour hsplit (w.runLists.length (deferredList k))
    have hlength : ∀ q, r.length q + (if q = readyList k then 1 else 0) =
        if q = deferredList k then 0 else if q = readyList k then w.runLists.length (deferredList k)
        else w.runLists.length q := by
      intro q
      rw [hpopped hpoured hpop, ← hpoured.length_toList, hlists, ← h.length_toList,
        List.take_length,
        List.drop_length, hempty]
      split
      · rfl
      · split
        · simp
        · exact h.length_toList q
    have hzero : w.runLists.length (readyList k) = 0 := by rw [← h.length_toList, hempty]; rfl
    have hready := hlength (readyList k)
    have hdeferred := hlength (deferredList k)
    rw [if_pos rfl, if_neg hsplit.symm, if_pos rfl] at hready
    rw [if_neg hsplit, if_pos rfl] at hdeferred
    refine ⟨?_, ?_, rfl, fun j hj => ⟨rfl, ?_, ?_⟩, rfl, rfl, rfl⟩
    · rw [if_pos hzero]
      exact hready
    · show r.length _ + r.length _ + 1 = w.runLists.length _ + w.runLists.length _
      omega
    · have := hlength (readyList j)
      rwa [if_neg (hother j hj).1, if_neg (hother j hj).2.2.2, if_neg (hother j hj).1] at this
    · have := hlength (deferredList j)
      rwa [if_neg (hother j hj).2.1, if_neg (hother j hj).2.2.1, if_neg (hother j hj).2.1] at this

end World

/-! ## Moves -/

/-- The worker that a body wants to have pumped. -/
def World.Move.worker? : World.Move → Option WorkerId
  | .pump k | .block k _ _ => some k
  | _ => none

namespace World

theorem askWait_worker? (w : World) (p : Place) (f : FrameId) (wait : Wait) :
    (w.askWait p f wait).2.worker? = none := by
  unfold World.askWait
  repeat' split
  all_goals rfl

/-- A statement that wants a worker pumped means one that was hired. -/
theorem exec_worker? {crew : WorkerId → Prop} {w : World} {p : Place} {f : FrameId} {s : Stmt}
    (hw : (w.exec p f s).1.Staffed crew) {k : WorkerId} (h : (w.exec p f s).2.worker? = some k) :
    k < (w.exec p f s).1.workerCount := by
  cases s
  case pump worker =>
    cases h
    exact hw.knows (knows_namedWorker w crew worker)
  case blockOn body delta =>
    cases h
    exact Nat.lt_succ_self _
  case blockOnWith worker body delta =>
    cases h
    exact hw.knows (knows_namedWorker w crew worker)
  case times count block =>
    cases count <;> cases h
  all_goals
    exfalso
    revert h
    simp only [World.exec, World.onTask, World.startNamed, World.takeNamed, World.unpark,
      World.parkHolding, World.spin]
  all_goals repeat' split
  all_goals
    intro h
    cases h

end World

/-! ## Activities -/

/-- The workers that activities belong to. -/
def crewOf (stack : List Activity) (k : WorkerId) : Prop := ∃ a ∈ stack, a.worker = k

theorem crewOf_mem {stack : List Activity} {a : Activity} (ha : a ∈ stack) :
    crewOf stack a.worker :=
  ⟨a, ha, rfl⟩

/-- The worker entered is one that an activity belongs to. -/
theorem Entered.within {p : Place} {stack : List Activity} {crew : WorkerId → Prop}
    (h : Entered p.worker stack) (hcrew : ∀ a ∈ stack, crew a.worker) : p.Within crew := by
  intro k hk
  cases stack with
  | nil =>
    rw [show p.worker = none from h] at hk
    cases hk
  | cons a below =>
    have hfirst : p.worker = some a.worker := by
      cases a <;> exact h.1
    rw [hfirst] at hk
    cases hk
    exact hcrew a List.mem_cons_self

namespace Thread

/-- The activities of a thread belong to workers that were hired. -/
structure Crewed (w : World) (t : Thread) : Prop where
  entered : Entered t.worker t.stack
  staffed : w.Staffed (crewOf t.stack)

/-- A thread has done something while the polls of `polled` were in progress, innermost first, and
everything was counted. -/
structure Tallied (free : Prop) (w : World) (polled : List WorkerId)
    (r : World × Thread × Progress) : Prop where
  crewed : r.2.2.isAborted = false → r.2.1.Crewed r.1
  counted : ∃ ended, w.Counted free ended r.1 ∧
    (r.2.2.isAborted = false → polled = ended ++ pollers r.2.1.stack)

section

variable {crew : WorkerId → Prop} {free : Prop} {w w' : World} {t : Thread}

theorem Tallied.of_accounts {ended polled : List WorkerId} {r : World × Thread × Progress}
    (hw : w.Staffed crew) (h : World.Accounts crew free ended w r.1)
    (hlive : r.2.2.isAborted = false → Entered r.2.1.worker r.2.1.stack ∧
      (∀ a ∈ r.2.1.stack, crew a.worker) ∧ polled = ended ++ pollers r.2.1.stack) :
    Tallied free w polled r := by
  obtain ⟨-, hw', hcounted⟩ := h hw
  refine ⟨fun hr => ⟨(hlive hr).1, hw'.mono ?_⟩, ended, hcounted, fun hr => (hlive hr).2.2⟩
  rintro k ⟨a, ha, rfl⟩
  exact hw'.hired _ ((hlive hr).2.1 a ha)

/-- Something else was done before. -/
theorem Tallied.after {ended polled : List WorkerId} {r : World × Thread × Progress}
    (hw : w.Staffed crew) (h : World.Accounts crew free ended w w')
    (h' : w'.Staffed crew → Tallied free w' polled r) : Tallied free w (ended ++ polled) r := by
  obtain ⟨-, hw', hcounted⟩ := h hw
  obtain ⟨hcrewed, ended', hcounted', hpolled⟩ := h' hw'
  refine ⟨hcrewed, ended ++ ended', hcounted.trans hcounted', fun hr => ?_⟩
  rw [hpolled hr, List.append_assoc]

theorem giveResult_accounts (t : Thread) (result : Result) :
    World.Accounts crew free [] w (giveResult w t result).1 := by
  unfold giveResult
  split
  · exact .refl w
  · exact .still (.elsewhere rfl)
  · exact .deeds (.useOutput t.toPlace _ _)
  · exact .refl w

theorem unwind_accounts (e : Fault) (stack : List Activity) :
    ∀ {w : World} {t : Thread}, Entered t.worker stack → (∀ a ∈ stack, crew a.worker) →
      World.Accounts crew free [] w (unwind w t e stack).1 := by
  induction stack with
  | nil => exact fun _ _ => .refl _
  | cons activity below ih =>
    intro w t hentered hcrew
    have hbelow : ∀ a ∈ below, crew a.worker := fun a ha => hcrew a (List.mem_cons_of_mem _ ha)
    cases activity with
    | pump k outer count => exact ih (t := { t with worker := outer }) hentered.2 hbelow
    | release k token => exact ih (t := t) (hentered.1 ▸ hentered.2) hbelow
    | poll k f outer => exact .deeds (.dropTasks trivial (hentered.within hcrew) _)
    | block k task outer temporary =>
      have hplace : ({ t with worker := outer } : Thread).toPlace.Within crew :=
        hentered.2.within hbelow
      have hdropped : World.Accounts crew free [] w
          (w.dropTask ({ t with worker := outer } : Thread).toPlace task) :=
        .deeds (.dropTask trivial hplace task)
      exact (hdropped.trans (.dropTemporary _ k temporary)).trans
        (ih (t := { t with worker := outer }) hentered.2 hbelow)

/-- A fault leaves activities. -/
theorem Tallied.unwind (e : Fault) (stack : List Activity) (hw : w.Staffed crew)
    (hentered : Entered t.worker stack) (hcrew : ∀ a ∈ stack, crew a.worker) :
    Tallied free w (pollers stack) (unwind w t e stack) := by
  refine .of_accounts hw (unwind_accounts e stack hentered hcrew) fun hlive => ?_
  rcases unwind_requests e stack w t hentered with haborted | ⟨hpollers, -, hstack, hworker⟩
  · rw [hlive] at haborted
    cases haborted
  · rw [hpollers, hstack, hworker]
    exact ⟨rfl, fun a ha => (List.not_mem_nil ha).elim, rfl⟩

theorem Crewed.beginBlock (h : t.Crewed w) {k : WorkerId} (hk : k < w.workerCount) (task : Task)
    (temporary : Bool) : Tallied free w (pollers t.stack) (beginBlock w t k task temporary) := by
  have hw : w.Staffed fun j => j = k ∨ crewOf t.stack j := by
    refine h.staffed.mono fun j hj => ?_
    rcases hj with rfl | hj
    · exact hk
    · exact h.staffed.hired j hj
  have hcrew : ∀ a ∈ t.stack, a.worker = k ∨ crewOf t.stack a.worker :=
    fun a ha => .inr (crewOf_mem ha)
  unfold Thread.beginBlock
  simp only
  generalize hstart : w.startTask _ k task = r
  obtain ⟨task', result⟩ := r
  cases result with
  | ok w' =>
    have hknown : w.Knows (fun j => j = k ∨ crewOf t.stack j) k := .inl (.inl rfl)
    have hstarted : World.Deeds True True _ w w' := .startTask hknown hstart
    refine .of_accounts hw (.deeds hstarted) fun _ => ⟨⟨rfl, rfl, h.entered⟩, fun a ha => ?_, rfl⟩
    rcases List.mem_cons.mp ha with rfl | ha
    · exact .inl rfl
    · rcases List.mem_cons.mp ha with rfl | ha
      · exact .inl rfl
      · exact hcrew a ha
  | error e =>
    refine Tallied.unwind e (.block k task' t.worker temporary :: t.stack) hw ⟨rfl, h.entered⟩ ?_
    intro a ha
    rcases List.mem_cons.mp ha with rfl | ha
    · exact .inl rfl
    · exact hcrew a ha

/-- A body that waits gives back the poll. -/
theorem Tallied.suspend {k : WorkerId} {f : FrameId} (hw : w.Staffed crew)
    (hworker : t.worker = some k)
    (hentered : Entered (some k) t.stack) (hk : crew k) (hcrew : ∀ a ∈ t.stack, crew a.worker)
    (hfree : free → w.runLists.queued f = false) (outer : Option FrameId) :
    Tallied free w (k :: pollers t.stack) (suspend w t k f outer) := by
  have hreleased : World.Accounts crew free [k] w (released w k f outer) := .released hk f outer
  have hentered' : Entered t.worker t.stack := hworker ▸ hentered
  rw [suspend_eq]
  split
  · exact .of_accounts hw (hreleased.trans (.drain t.toPlace k)) fun _ => ⟨hentered', hcrew, rfl⟩
  · have hyielded := World.Accounts.yielded hk (f := f) outer hfree
    exact .of_accounts hw (hyielded.trans (.drain t.toPlace k)) fun _ => ⟨hentered', hcrew, rfl⟩
  · rename_i slot token _
    have hcounted : (released w k f outer).Still ((released w k f outer).count k fun s =>
        { s with parked := s.parked + 1 }) := .modifyWorker _ rfl
    have hemitted : (released w k f outer).Still (((released w k f outer).count k fun s =>
        { s with parked := s.parked + 1 }).emit (.park f token)) := hcounted.trans (.elsewhere rfl)
    have hparked := hreleased.trans (.still hemitted)
    simp only
    split
    · exact .after hw hparked fun hw' => .unwind _ t.stack hw' hentered' hcrew
    · rename_i w' hpublished
      have hstill : (released w k f outer).Still w' := by
        obtain ⟨-, rfl⟩ := World.publish_ok hpublished
        exact hemitted.trans (.elsewhere rfl)
      have hslotted := hreleased.trans (.still hstill)
      split
      · exact .of_accounts hw (hslotted.trans (.drain t.toPlace k)) fun _ => ⟨hentered', hcrew, rfl⟩
      · refine .of_accounts hw hslotted fun _ => ⟨⟨hworker, hentered⟩, fun a ha => ?_, rfl⟩
        rcases List.mem_cons.mp ha with rfl | ha
        · exact hk
        · exact hcrew a ha

/-- A body that returns lets go of its tasks and gives back the poll. -/
theorem finish_accounts {p : Place} {k : WorkerId} (hp : p.Within crew) (hk : crew k) (f : FrameId)
    (outer : Option FrameId) : World.Accounts crew free [k] w (finish w p k f outer) := by
  obtain ⟨log, inFlight, heq⟩ := finish_eq w p k f outer
  have hlogged : World.Accounts crew free [] w { bereft w p f with log, inFlight } :=
    (World.Accounts.deeds (.bereft trivial hp f)).trans (.still (.elsewhere rfl))
  have hended := hlogged.trans (.endPoll hk outer)
  rw [heq]
  exact (hended.trans (.still (.modifyFrame _ ⟨rfl, rfl, rfl, rfl⟩))).trans
    (.still (.modifyWorker _ rfl))

theorem Tallied.dispose {k : WorkerId} (hw : w.Staffed crew) (hentered : Entered t.worker t.stack)
    (hk : crew k) (hcrew : ∀ a ∈ t.stack, crew a.worker) (f : FrameId) :
    Tallied free w (pollers t.stack) (dispose w t k f) := by
  cases hdisposal : (w.frame f).disposal with
  | awaited =>
    have hwoken : World.Deeds True True crew w (woken w k f) := by
      have hsevered : World.Deeds True True crew w
          (w.modifyFrame f fun frame => { frame with continuation := none }) :=
        .touch ⟨rfl, rfl, rfl, rfl⟩
      unfold woken
      split
      · exact hsevered.trans (.enqueue (.inl hk) _)
      · exact hsevered
    rw [dispose_awaited w t k hdisposal]
    exact .of_accounts hw ((World.Accounts.deeds hwoken).trans (.drain t.toPlace k))
      fun _ => ⟨hentered, hcrew, rfl⟩
  | detached =>
    unfold Thread.dispose
    simp only [hdisposal]
    cases hretired : (w.frame f).retired with
    | true =>
      rw [w.retire_refused k hretired]
      exact .unwind _ t.stack hw hentered hcrew
    | false =>
      rw [retire_eq w k hretired]
      exact .of_accounts hw (.retire hk (hentered.within hcrew) f) fun _ => ⟨hentered, hcrew, rfl⟩

theorem advance_deeds {p : Place} (hp : p.Within crew) (f : FrameId) :
    World.Deeds True True crew w (advance w p f).1 := by
  unfold advance
  split
  · exact .askWait (fun _ => trivial) hp f
  · rename_i s code _ _
    have hmoved : World.Deeds True True crew w (w.modifyFrame f fun frame => { frame with code }) :=
      .touch ⟨rfl, rfl, rfl, rfl⟩
    exact hmoved.trans (.exec (fun _ => trivial) (fun _ => trivial) hp f)
  · exact .refl True True crew w

theorem advance_worker? {p : Place} {f : FrameId}
    (hw : (advance w p f).1.Staffed crew) {k : WorkerId}
    (h : (advance w p f).2.worker? = some k) : k < (advance w p f).1.workerCount := by
  unfold advance at hw h ⊢
  cases hwait : (w.frame f).wait with
  | some wait =>
    simp only [hwait] at h
    rw [World.askWait_worker?] at h
    cases h
  | none =>
    cases hcode : (w.frame f).code with
    | nil =>
      simp only [hwait, hcode] at h
      cases h
    | cons s code =>
      simp only [hwait, hcode] at hw h ⊢
      exact World.exec_worker? hw h

/-- What becomes of the poll after a move of the body. -/
theorem Crewed.follow {k : WorkerId} {f : FrameId} {outer : Option FrameId} {after : World}
    (h : ({ t with stack := .poll k f outer :: t.stack } : Thread).Crewed w) {move : World.Move}
    (hafter : World.Deeds True True (crewOf (.poll k f outer :: t.stack)) w after)
    (hmove : ∀ crew, after.Staffed crew → ∀ k', move.worker? = some k' → k' < after.workerCount)
    (hfree : free → after.runLists.queued f = false) :
    Tallied free w (k :: pollers t.stack) (follow w t k f outer after move) := by
  obtain ⟨hworker, hentered⟩ := h.entered
  have hw := h.staffed
  have hself : ∀ a ∈ Activity.poll k f outer :: t.stack,
      crewOf (.poll k f outer :: t.stack) a.worker :=
    fun a ha => crewOf_mem ha
  have hk : crewOf (.poll k f outer :: t.stack) k := hself _ List.mem_cons_self
  have hcrew : ∀ a ∈ t.stack, crewOf (.poll k f outer :: t.stack) a.worker :=
    fun a ha => hself a (List.mem_cons_of_mem _ ha)
  have hplace : t.toPlace.Within (crewOf (.poll k f outer :: t.stack)) :=
    Entered.within (p := t.toPlace) h.entered hself
  have hacted : World.Accounts (crewOf (.poll k f outer :: t.stack)) free [] w after :=
    .deeds hafter
  cases move with
  | next => exact .of_accounts hw hacted fun _ => ⟨⟨hworker, hentered⟩, hself, rfl⟩
  | pump k' =>
    obtain ⟨-, hw', hcounted⟩ := hacted hw
    refine ⟨fun _ => ⟨⟨rfl, hworker, hentered⟩, hw'.mono ?_⟩, [], hcounted, fun _ => rfl⟩
    rintro j ⟨a, ha, rfl⟩
    rcases List.mem_cons.mp ha with rfl | ha
    · exact hmove _ hw' k' rfl
    · exact hw'.hired _ (crewOf_mem ha)
  | block k' task temporary =>
    refine Tallied.after hw hacted fun hw' => ?_
    exact Crewed.beginBlock (t := { t with stack := .poll k f outer :: t.stack })
      ⟨⟨hworker, hentered⟩, hw'⟩ (hmove _ hw' k' rfl) task temporary
  | raise message =>
    have hdropped := hacted.trans (.deeds (.dropTasks trivial hplace (after.frame f).heldTasks))
    exact .of_accounts hw hdropped fun hlive => absurd hlive Bool.noConfusion
  | stuck => exact .of_accounts hw (.refl w) fun _ => ⟨⟨hworker, hentered⟩, hself, rfl⟩
  | suspend =>
    refine Tallied.after hw hacted fun hw' => ?_
    exact Tallied.suspend (t := t) hw' hworker hentered hk hcrew hfree outer
  | finish =>
    have hfinished := hacted.trans (finish_accounts hplace hk f outer)
    refine Tallied.after hw hfinished fun hw' => .dispose (t := t) hw' ?_ hk hcrew f
    exact (show t.worker = some k from hworker) ▸ hentered

end

variable {w : World} {t : Thread}

/-- A step of a thread that takes no frame from a list. -/
theorem Crewed.step (h : t.Crewed w) (hpops : t.pops w = []) {free : Prop}
    (hfree : free → ∀ f ∈ polls t.stack, (t.acted w).runLists.queued f = false) :
    Tallied free w (pollers t.stack) (t.step w) := by
  obtain ⟨p, stack⟩ := t
  have hw : w.Staffed (crewOf stack) := h.staffed
  have hself : ∀ a ∈ stack, crewOf stack a.worker := fun a ha => crewOf_mem ha
  have hplace : p.Within (crewOf stack) := Entered.within (p := p) h.entered hself
  cases stack with
  | nil => exact .of_accounts hw (.refl w) fun _ => ⟨h.entered, hself, rfl⟩
  | cons activity below =>
    have hbelow : ∀ a ∈ below, crewOf (activity :: below) a.worker :=
      fun a ha => hself a (List.mem_cons_of_mem _ ha)
    cases activity with
    | pump k outer count =>
      obtain ⟨hworker, hentered⟩ := h.entered
      cases hnext : w.nextFrame k with
      | some next =>
        simp only [pops, hnext] at hpops
        cases hpops
      | none =>
        have hthread := (giveResult_requests w ⟨{ p with worker := outer }, below⟩ (.count count)).2
        simp only [Thread.step, hnext]
        refine .of_accounts hw (giveResult_accounts _ _) fun _ => ?_
        rw [hthread]
        exact ⟨hentered, hbelow, rfl⟩
    | poll k f outer =>
      simp only [Thread.step]
      rw [runBody_eq]
      exact Crewed.follow (t := ⟨p, below⟩) h (advance_deeds hplace f)
        (fun _ hw k => advance_worker? hw)
        fun h => hfree h f List.mem_cons_self
    | release k token =>
      obtain ⟨hworker, hentered⟩ := h.entered
      have hreleased : w.Still (w.release p (w.worker k).hook token) := by
        unfold World.release
        split <;> exact .elsewhere rfl
      exact .of_accounts hw (World.Accounts.trans (.still hreleased) (.drain p k)) fun _ =>
        ⟨(show Entered p.worker below from hworker ▸ hentered), hbelow, rfl⟩
    | block k task outer temporary =>
      obtain ⟨hworker, hentered⟩ := h.entered
      have htaken : World.Accounts (crewOf (.block k task outer temporary :: below)) free [] w
          (w.takeOutput p task).1 := .deeds (.takeOutput trivial hplace task)
      simp only [Thread.step]
      generalize w.takeOutput p task = r at htaken
      obtain ⟨w', task', output⟩ := r
      cases output with
      | some o =>
        have hgone := htaken.trans (.dropTemporary { p with worker := outer } k temporary)
        have hthread :=
          (giveResult_requests (if temporary then w'.dropWorker { p with worker := outer } k
          else w') ⟨{ p with worker := outer }, below⟩ (.output o)).2
        refine .of_accounts hw (hgone.trans (giveResult_accounts _ _)) fun _ => ?_
        simp only
        rw [hthread]
        exact ⟨hentered, hbelow, rfl⟩
      | none =>
        refine Tallied.after hw htaken fun hw' => ?_
        refine Tallied.unwind _ (.block k task' outer temporary :: below) hw'
          ⟨hworker, hentered⟩ fun a ha => ?_
        rcases List.mem_cons.mp ha with rfl | ha
        · exact hself (.block k task outer temporary) List.mem_cons_self
        · exact hbelow a ha

theorem pops_eq {k : WorkerId} {f : FrameId} (h : t.pops w = [(k, f)]) :
    ∃ outer count below w', t.stack = .pump k outer count :: below ∧ w.nextFrame k = some (f, w') :=
  Moment.pops_eq (m := { session := { world := w }, thread := t }) h

/-- A step in which a worker takes a frame: it polls the frame, or passes over one that is complete
or was destroyed. -/
theorem Crewed.take (h : t.Crewed w) (hlists : w.runLists.Sound) {k : WorkerId} {f : FrameId}
    (hpops : t.pops w = [(k, f)]) :
    w.Takes (t.step w).1 k ∧ (t.step w).2.1.Crewed (t.step w).1 ∧ (t.step w).2.2 = .running ∧
      (pollers (t.step w).2.1.stack =
        if (w.frame f).alive && !(w.frame f).isComplete then k :: pollers t.stack
        else pollers t.stack) ∧
      (t.step w).1.frameCount = w.frameCount ∧
      ∀ g, ({ w.frame g with runner :=
        if g = f ∧ ((w.frame f).alive && !(w.frame f).isComplete) then some k
        else (w.frame g).runner } : Frame).Kept ((t.step w).1.frame g) := by
  obtain ⟨outer, count, below, w₁, hstack, hnext⟩ := pops_eq hpops
  obtain ⟨p, stack⟩ := t
  cases hstack
  obtain ⟨hworker, hentered⟩ := h.entered
  have hk : k < w.workerCount :=
    h.staffed.hired k (crewOf_mem (a := .pump k outer count) List.mem_cons_self)
  have htakes := World.nextFrame_takes hlists hnext
  have hsole := htakes.sole
  have hframes : ∀ g, w₁.frame g = w.frame g := by
    rw [World.nextFrame_same hnext]
    exact fun _ => rfl
  have hcount : w₁.frameCount = w.frameCount := by
    rw [World.nextFrame_same hnext]
  have hframe := hframes f
  by_cases hruns : ((w.frame f).alive && !(w.frame f).isComplete) = true
  · have hstep : Thread.step w ⟨p, .pump k outer count :: below⟩ =
        ((beginPoll w₁ ⟨p, .pump k outer (count + 1) :: below⟩ k f).1,
          (beginPoll w₁ ⟨p, .pump k outer (count + 1) :: below⟩ k f).2, .running) := by
      simp only [Thread.step, hnext, hframe]
      rw [if_pos hruns]
    have hworker' : ∀ j, (beginPoll w₁ ⟨p, .pump k outer (count + 1) :: below⟩ k f).1.worker j =
        if j = k then { w₁.worker j with current := some f } else w₁.worker j :=
      fun j => World.worker_modifyWorker _ _ _ _
    have hbegun : w₁.Sole (beginPoll w₁ ⟨p, .pump k outer (count + 1) :: below⟩ k f).1 k := by
      refine ⟨fun j hj => ⟨?_, rfl, rfl⟩, ?_, rfl, rfl⟩
      · rw [hworker', if_neg hj]
      · rw [hworker', if_pos rfl]
    rw [hstep, if_pos hruns]
    refine ⟨htakes.still hbegun ?_ rfl, ⟨⟨hworker, hworker ▸ h.entered⟩, ?_⟩, rfl, rfl,
      hcount, fun g => ?_⟩
    · rw [hworker', if_pos rfl]
      rfl
    · refine (h.staffed.sole hk (hsole.trans hbegun)).mono ?_
      rintro j ⟨a, ha, rfl⟩
      rw [(hsole.trans hbegun).workerCount]
      rcases List.mem_cons.mp ha with rfl | ha
      · exact hk
      · rcases List.mem_cons.mp ha with rfl | ha
        · exact hk
        · exact h.staffed.hired _ (crewOf_mem (List.mem_cons_of_mem _ ha))
    · simp only [hruns, and_true]
      rw [World.frame_beginPoll, hframes]
      split <;> exact ⟨rfl, rfl, rfl, rfl⟩
  · have hstep : Thread.step w ⟨p, .pump k outer count :: below⟩ =
        (w₁.drainRetired p k, ⟨p, .pump k outer count :: below⟩, .running) := by
      simp only [Thread.step, hnext, hframe]
      rw [if_neg hruns]
    have hstill := World.Still.drainRetired w₁ p ((h.staffed.sole hk hsole).drained k)
    rw [hstep, if_neg hruns]
    refine ⟨htakes.still (.of_still hstill k) (hstill.books k) hstill.runLists, ?_, rfl, rfl,
      hstill.frameCount.trans hcount, fun g => ?_⟩
    · exact ⟨h.entered, h.staffed.sole hk (hsole.trans (.of_still hstill k))⟩
    · rw [if_neg fun h => hruns h.2, ← hframes]
      exact hstill.frame g

end Thread

end Substrate.Coro
