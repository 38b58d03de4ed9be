import Substrate.Proofs.Coro.Dropping

/-!
# Who is woken

A frame that polls a pending task leaves its name with the frame of the task, unless
there is a name already.  A body that returns therefore wakes the first frame that
polled its task, whichever frame polled it last.

* `Asked` is a run together with the polls of pending tasks it has made.
* `Desk.Heard` is what every edit keeps about these polls, `Asked.heard` what a run
  keeps.
* `Thread.step_wakes` says whom the return of a body puts on a list.
* `Asked.first_poller_woken` puts both together, for every run.
-/

namespace Substrate.Coro

/-- The record of a frame whose body does not return, and which goes on naming the frame it wakes
unless its task is dropped. -/
structure Frame.Linked (fr fr' : Frame) : Prop where
  stage : fr'.stage = .complete → fr.stage = .complete
  link : fr'.disposal = .awaited → fr.disposal = .awaited ∧ fr'.continuation = fr.continuation

namespace Frame.Linked

theorem refl (fr : Frame) : fr.Linked fr := ⟨id, fun h => ⟨h, rfl⟩⟩

theorem trans {fr fr' fr'' : Frame} (h : fr.Linked fr') (h' : fr'.Linked fr'') :
    fr.Linked fr'' := by
  refine ⟨fun hstage => h.stage (h'.stage hstage), fun hawaited => ?_⟩
  obtain ⟨hawaited', hsame'⟩ := h'.link hawaited
  obtain ⟨hawaited, hsame⟩ := h.link hawaited'
  exact ⟨hawaited, hsame'.trans hsame⟩

theorem of_alike {fr fr' : Frame} (h : fr.Alike fr') : fr.Linked fr' :=
  ⟨fun hstage => h.stage ▸ hstage, fun hawaited => ⟨h.disposal ▸ hawaited, h.continuation⟩⟩

end Frame.Linked

/-! ## Edits -/

/-- The frame of a task names the first of the frames that polled it while it was pending. -/
structure Desk.Heard (d : Desk) : Prop where
  lists : d.world.runLists.Sound
  /-- Only frames that were made are polled. -/
  made : ∀ poll ∈ d.asked, poll.1 < d.world.frameCount
  /-- Only a frame whose body has returned is complete. -/
  returned : ∀ c, (d.world.frame c).stage = .complete → c ∈ d.done
  first : ∀ c, c ∉ d.done → (d.world.frame c).disposal = .awaited →
    (d.world.frame c).continuation = d.asked.lookup c

namespace Desk.Heard

variable {d d' : Desk}

/-- Nothing is asked, and no frame that has yet to return comes to wake another one. -/
theorem same (h : d.Heard) (hlists : d'.world.runLists.Sound)
    (hcount : d.world.frameCount ≤ d'.world.frameCount) (hasked : d'.asked = d.asked)
    (hdone : ∀ c ∈ d.done, c ∈ d'.done)
    (hframe : ∀ c, c ∉ d'.done → (d.world.frame c).Linked (d'.world.frame c)) : d'.Heard := by
  refine ⟨hlists, fun poll hpoll => ?_, fun c hc => ?_, fun c hc hawaited => ?_⟩
  · rw [hasked] at hpoll
    exact Nat.lt_of_lt_of_le (h.made poll hpoll) hcount
  · refine Decidable.byContradiction fun hnot => ?_
    exact hnot (hdone c (h.returned c ((hframe c hnot).stage hc)))
  · obtain ⟨hbefore, hsame⟩ := (hframe c hc).link hawaited
    rw [hsame, hasked]
    exact h.first c (fun hmem => hc (hdone c hmem)) hbefore

/-- A frame is put on a list. -/
theorem enqueue (h : d.Heard) (k : WorkerId) (f : FrameId) :
    ({ d with world := d.world.enqueue k f } : Desk).Heard := by
  have hcount := World.enqueue_frameCount d.world k f
  refine h.same (World.enqueue_listed h.lists k f).1 (Nat.le_of_eq hcount.symm) rfl (fun _ => id)
    fun c _ => ?_
  rw [World.frame_enqueue]
  exact .refl _

/-- A task is made, which nobody has polled. -/
theorem make (h : d.Heard) (body : String) (arg : Int) {hand : List Task} :
    ({ d with world := (d.world.newFrame (some 0) .awaited body arg).1, hand } : Desk).Heard := by
  have hframe := d.world.frame_newFrame (some 0) .awaited body arg
  refine ⟨h.lists, fun poll hpoll => Nat.lt_succ_of_lt (h.made poll hpoll), fun c hc => ?_,
    fun c hc hawaited => ?_⟩
  · rw [hframe] at hc
    split at hc
    · cases hc
    · exact h.returned c hc
  · rw [hframe] at hawaited ⊢
    split
    · rename_i hnew
      refine (List.lookup_eq_none_iff.mpr fun poll hpoll => ?_).symm
      have hmade := h.made poll hpoll
      exact bne_iff_ne.mpr (hnew ▸ Nat.ne_of_gt hmade)
    · rename_i hnew
      rw [if_neg hnew] at hawaited
      exact h.first c hc hawaited

/-- Frame `b` polls a task whose frame `c` is pending. -/
theorem ask (h : d.Heard) {c : FrameId} (b : FrameId) (hmade : c < d.world.frameCount) :
    ({ d with world := d.world.subscribe c b, asked := d.asked ++ [(c, b)] } : Desk).Heard := by
  have hframe : ∀ g, (d.world.subscribe c b).frame g = if g = c then
      { d.world.frame g with continuation := (d.world.frame g).continuation.or (some b) }
      else d.world.frame g := fun g => World.frame_modifyFrame d.world c g _
  refine ⟨h.lists, fun poll hpoll => ?_, fun g hg => h.returned g ?_, fun g hg hawaited => ?_⟩
  · rcases List.mem_append.mp hpoll with hpoll | hpoll
    · exact h.made poll hpoll
    · rw [List.mem_singleton.mp hpoll]
      exact hmade
  · rw [hframe] at hg
    split at hg <;> exact hg
  · rw [hframe] at hawaited ⊢
    rw [List.lookup_append]
    split
    · rename_i e
      rw [if_pos e] at hawaited
      rw [h.first g hg hawaited, e]
      simp
    · rename_i e
      rw [if_neg e] at hawaited
      rw [h.first g hg hawaited]
      simp [e]

end Desk.Heard

theorem World.linked_modifyFrame (w : World) {f : FrameId} {change : Frame → Frame}
    (h : (w.frame f).Linked (change (w.frame f))) (c : FrameId) :
    (w.frame c).Linked ((w.modifyFrame f change).frame c) := by
  rw [World.frame_modifyFrame]
  split
  · rename_i hc
    exact hc ▸ h
  · exact .refl _

theorem World.linked_endFrame (w : World) (p : Place) (f : FrameId)
    (ending : Ending) (c : FrameId) :
    (w.frame c).Linked ((w.endFrame p f ending).1.frame c) := by
  rw [World.frame_endFrame]
  split <;> exact ⟨id, fun h => ⟨h, rfl⟩⟩

/-- Every edit keeps the names that were left with the frames of tasks. -/
theorem Edit.heard {strict : Prop} {d d' : Desk} (h : Edit strict d d') (hheard : d.Heard) :
    d'.Heard := by
  have hlists := hheard.lists
  have hreleased : ∀ (k : WorkerId) (f : FrameId) (outer : Option FrameId) (c : FrameId),
      (d.world.frame c).Linked ((released d.world k f outer).frame c) := by
    intro k f outer c
    rw [frame_released]
    split
    · exact ⟨nofun, fun h => ⟨h, rfl⟩⟩
    · exact .refl _
  have hsame : ∀ c ∈ d.done, c ∈ d.done := fun _ => id
  have hended : ∀ (p : Place) (f : FrameId) (ending : Ending) (hand : List Task),
      ({ d with world := (d.world.endFrame p f ending).1, hand } : Desk).Heard := by
    intro p f ending hand
    have hagrees := Layout.endFrame_agrees d.world p f ending
    exact hheard.same (hagrees.runLists.symm ▸ hlists) (Nat.le_of_eq hagrees.frameCount.symm) rfl
      hsame fun c _ => d.world.linked_endFrame p f ending c
  cases h with
  | move halike hw hfewer =>
    exact hheard.same (halike.runLists ▸ hlists) (Nat.le_of_eq halike.frameCount.symm) rfl hsame
      fun c _ => .of_alike (halike.frame c)
  | recruit hook => exact hheard.same hlists (Nat.le_refl _) rfl hsame fun c _ => .refl _
  | make body arg => exact hheard.make body arg
  | spawn k body arg =>
    refine Desk.Heard.enqueue
      (d := { d with world := (d.world.newFrame (some 0) .detached body arg).1 })
      (hheard.same hlists (Nat.le_succ _) rfl hsame fun c _ => ?_) k _
    rw [World.frame_newFrame]
    split
    · exact ⟨nofun, nofun⟩
    · exact .refl _
  | @start f w hand k halike hw hfewer hstarted hstage =>
    have hmoved : ({ d with world := w, hand } : Desk).Heard :=
      hheard.same (halike.runLists ▸ hlists) (Nat.le_of_eq halike.frameCount.symm) rfl hsame
        fun c _ => .of_alike (halike.frame c)
    exact hmoved.enqueue k f
  | ask b hmade hstage => exact hheard.ask b hmade
  | detach hstage =>
    refine hheard.same hlists (Nat.le_refl _) rfl hsame fun c _ => d.world.linked_modifyFrame ?_ c
    exact ⟨id, nofun⟩
  | discard p ending halive hhand => exact hended p _ ending _
  | destroy p ending hmade hstage => exact hended p _ ending _
  | @resume k f w t hnext hmade halive hstage =>
    have hw := World.nextFrame_same hnext
    have hcount : d.world.frameCount = w.frameCount := by rw [hw]
    refine hheard.same (World.nextFrame_listed hlists hnext).1 (Nat.le_of_eq hcount) rfl hsame
      fun c _ => ?_
    rw [World.frame_beginPoll, show w.frame c = d.world.frame c by rw [hw]; rfl]
    split
    · exact ⟨nofun, fun h => ⟨h, rfl⟩⟩
    · exact .refl _
  | @skip k f w hnext =>
    have hw := World.nextFrame_same hnext
    have hcount : d.world.frameCount = w.frameCount := by rw [hw]
    refine hheard.same (World.nextFrame_listed hlists hnext).1 (Nat.le_of_eq hcount) rfl hsame
      fun c _ => ?_
    rw [hw]
    exact .refl _
  | rest k outer hpolled =>
    exact hheard.same hlists (Nat.le_refl _) rfl hsame fun c _ => hreleased k _ outer c
  | @yield f polled k outer hpolled =>
    have hlisted := World.defer_listed (w := released d.world k f outer) hlists k f
    exact hheard.same hlisted.1 (Nat.le_refl _) rfl hsame fun c _ => hreleased k f outer c
  | park k outer hpolled hvacant =>
    exact hheard.same hlists (Nat.le_refl _) rfl hsame fun c _ => hreleased k _ outer c
  | @complete f polled k outer output hpolled =>
    refine hheard.same hlists (Nat.le_refl _) rfl (fun c hc => List.mem_cons_of_mem _ hc)
      fun c hc => ?_
    rw [frame_completed, if_neg (List.ne_of_not_mem_cons hc)]
    exact .refl _
  | @wake c b k hstage hcontinuation hstrict =>
    refine Desk.Heard.enqueue (d := { d with world := d.world.modifyFrame c _ })
      (hheard.same hlists (Nat.le_refl _) rfl hsame fun g hg => ?_) k b
    -- the frame that wakes has returned, so whom it names does not matter any more
    have hne : g ≠ c := fun e => hg (e ▸ hheard.returned c hstage)
    rw [World.frame_modifyFrame, if_neg hne]
    exact .refl _
  | vacate slot => exact hheard.same hlists (Nat.le_refl _) rfl hsame fun c _ => .refl _
  | @unpark f slot k hslot =>
    exact Desk.Heard.enqueue (d := { d with world := d.world.setSlot slot none })
      (hheard.same hlists (Nat.le_refl _) rfl hsame fun c _ => .refl _) k f
  | @schedule f k hstage hstrict => exact hheard.enqueue k f

/-! ## Returns -/

theorem World.runLists_enqueue (w : World) (k : WorkerId) (f : FrameId) :
    (w.enqueue k f).runLists = (w.runLists.push (readyList k) f).getD w.runLists := by
  unfold World.enqueue
  cases w.runLists.push (readyList k) f <;> rfl

/-- Dropping handles puts nothing on a list, and no frame comes to wake another one. -/
theorem World.dropTasks_linked (w : World) (p : Place) (ts : List Task) :
    (w.dropTasks p ts).runLists = w.runLists ∧
      ∀ c, (w.frame c).Linked ((w.dropTasks p ts).frame c) := by
  have hletGo : ∀ (w' : World) (t : Task), (w'.letGo p t).1.runLists = w'.runLists ∧
      ∀ c, (w'.frame c).Linked ((w'.letGo p t).1.frame c) := by
    intro w' t
    unfold World.letGo
    split
    · exact ⟨rfl, fun c => .refl _⟩
    · rename_i f hframe
      simp only
      split
      · split
        · have hnoted :=
            World.noteDestroyed_agrees (w'.endFrame p f .dropped).1 p (w'.frame f).runner
          refine ⟨hnoted.runLists.trans (Layout.endFrame_agrees w' p f .dropped).runLists,
            fun c => ?_⟩
          rw [hnoted.frame]
          exact w'.linked_endFrame p f .dropped c
        · exact ⟨rfl, fun c => .refl _⟩
      · refine ⟨rfl, fun c => (w'.emit (.detach f)).linked_modifyFrame ?_ c⟩
        exact ⟨id, nofun⟩
  exact World.dropTasks_keeps
    (P := fun w' => w'.runLists = w.runLists ∧ ∀ c, (w.frame c).Linked (w'.frame c)) p
    (fun w' t h => ⟨(hletGo w' t).1.trans h.1, fun c => (h.2 c).trans ((hletGo w' t).2 c)⟩) ts
    ⟨rfl, fun c => .refl _⟩

/-- A body that returns goes on naming the frame it wakes, unless its task is dropped. -/
theorem finish_link (w : World) (p : Place) (k : WorkerId) (f : FrameId) (outer : Option FrameId) :
    (Thread.finish w p k f outer).runLists = w.runLists ∧
      (((Thread.finish w p k f outer).frame f).disposal = .awaited →
      (w.frame f).disposal = .awaited ∧
        ((Thread.finish w p k f outer).frame f).continuation = (w.frame f).continuation) := by
  obtain ⟨log, inFlight, heq⟩ := finish_eq w p k f outer
  obtain ⟨hlists, hlinked⟩ := World.dropTasks_linked
    (w.modifyFrame f fun frame => { frame with tasks := [] }) p ((w.frame f).tasks.map Prod.snd)
  have hbereft : (w.frame f).Linked ((bereft w p f).frame f) :=
    (w.linked_modifyFrame ⟨id, fun h => ⟨h, rfl⟩⟩ f).trans (hlinked f)
  have hself : ∃ output, (Thread.finish w p k f outer).frame f =
      { (bereft w p f).frame f with stage := .complete, output } := by
    rw [heq]
    exact ⟨_, (World.frame_modifyFrame _ f f _).trans (if_pos rfl)⟩
  obtain ⟨output, hself⟩ := hself
  rw [hself]
  exact ⟨by rw [heq]; exact hlists, hbereft.link⟩

namespace Thread

variable {w : World} {t : Thread} {k : WorkerId} {c : FrameId} {outer : Option FrameId}
  {below : List Activity}

theorem step_returning (hstack : t.stack = .poll k c outer :: below)
    (hreturning : t.returning w = some c) :
    t.step w = dispose (t.ended w) { t with stack := below } k c := by
  obtain ⟨p, stack⟩ := t
  cases hstack
  rw [returning_poll w ⟨p, below⟩] at hreturning
  show runBody w ⟨p, below⟩ k c outer = dispose (finish w p k c outer) ⟨p, below⟩ k c
  rw [runBody_eq]
  have hfinish := advance_finish (w := w) (p := p) (f := c)
  generalize advance w p c = r at hreturning hfinish
  obtain ⟨after, move⟩ := r
  cases move with
  | finish =>
    obtain ⟨-, -, rfl⟩ := hfinish rfl
    rfl
  | _ => cases hreturning

/-- The return of a body puts the frame that its own frame names on a list, and no other one. -/
theorem step_wakes (hstack : t.stack = .poll k c outer :: below)
    (hreturning : t.returning w = some c)
    (hkept : ((t.ended w).frame c).disposal = .awaited)
    (hdrained : ∀ k, ((t.ended w).worker k).retired = []) :
    (t.step w).1.runLists = match (w.frame c).continuation with
      | some b => (w.runLists.push (readyList k) b).getD w.runLists
      | none => w.runLists := by
  have hended : t.ended w = finish w t.toPlace k c outer := by rw [Thread.ended, hstack]
  obtain ⟨hlists, hlink⟩ := finish_link w t.toPlace k c outer
  rw [← hended] at hlists hlink
  have hwoken : ((woken (t.ended w) k c).worker k).retired = [] := by
    unfold woken
    split
    · rw [(World.steady_enqueue _ _ _).retired]
      exact hdrained k
    · exact hdrained k
  rw [step_returning hstack hreturning, dispose_awaited _ _ _ hkept,
    (World.drainRetired_agrees _ _ hwoken).runLists, woken, (hlink hkept).2]
  cases (w.frame c).continuation with
  | none => exact hlists
  | some b =>
    rw [← hlists]
    exact World.runLists_enqueue _ k b

end Thread

/-! ## Runs -/

/-- The moments of the runs in which everything is allowed, with the polls of pending tasks that
were made before: the frame of the task, and the frame that asked. -/
inductive Asked (allowed : Moment → Action → Prop) : Moment → List (FrameId × FrameId) → Prop
  | start (bodies : Registers (List Stmt)) : Asked allowed { session := { world := { bodies } } } []
  | next {m : Moment} {asked : List (FrameId × FrameId)} {action : Action}
      (h : Asked allowed m asked)
    (hcan : m.Can action) (hallowed : allowed m action) :
    Asked allowed (m.act action) (asked ++ m.asks action)

namespace Moment

/-- The polls of pending tasks in some actions. -/
def asksAfter (m : Moment) : List Action → List (FrameId × FrameId)
  | [] => []
  | action :: rest => m.asks action ++ (m.act action).asksAfter rest

/-- The body of frame `c` is about to return to worker `k` for the first time, and the handle of its
task will still be there. -/
structure Completes (m : Moment) (k : WorkerId) (c : FrameId) : Prop where
  polled : ∃ outer below, m.thread.stack = .poll k c outer :: below
  returning : m.thread.returning m.world = some c
  kept : ((m.thread.ended m.world).frame c).disposal = .awaited
  fresh : ∀ o, (c, o) ∉ m.returned

theorem not_mem_done {m : Moment} {asked : List (FrameId × FrameId)} {c : FrameId}
    (h : ∀ o, (c, o) ∉ m.returned) : c ∉ (m.desk asked).done := by
  intro hdone
  obtain ⟨⟨c', o⟩, hmem, rfl⟩ := List.mem_map.mp hdone
  exact h o hmem

/-- The first moment of a run. -/
theorem heard_start (bodies : Registers (List Stmt)) :
    (({ session := { world := { bodies } } } : Moment).desk []).Heard := by
  have hframe : ∀ f, ({ bodies } : World).frame f = {} := fun f => Table.get_empty f
  refine ⟨RunLists.sound_empty, nofun, fun c hc => ?_, fun c _ _ => ?_⟩
  · exact nomatch (hframe c) ▸ hc
  · exact congrArg Frame.continuation (hframe c)

end Moment

namespace Asked

variable {allowed : Moment → Action → Prop} {m : Moment} {asked : List (FrameId × FrameId)}

theorem reach (h : Asked allowed m asked) : Reach allowed m := by
  induction h with
  | start bodies => exact .start bodies
  | next _ hcan hallowed ih => exact ih.next hcan hallowed

theorem after (h : Asked allowed m asked) (actions : List Action)
    (hadmits : m.Admits allowed actions) :
    Asked allowed (m.after actions) (asked ++ m.asksAfter actions) := by
  induction actions generalizing m asked with
  | nil => exact (List.append_nil asked).symm ▸ h
  | cons action rest ih =>
    have hrest := ih (h.next hadmits.1 hadmits.2.1) hadmits.2.2
    rw [List.append_assoc] at hrest
    exact hrest

/-- At every moment of a run, the frames of tasks name the first frames that polled them. -/
theorem heard (h : Asked allowed m asked) (hlive : m.session.aborted = none) :
    (m.desk asked).Neat ∧ (m.desk asked).Heard := by
  induction h with
  | start bodies => exact ⟨Moment.neat_start bodies, Moment.heard_start bodies⟩
  | @next m asked action h hcan hallowed ih =>
    obtain ⟨hneat, hheard⟩ := ih hcan.live
    have hedits : Edits False (m.desk asked)
        ((m.act action).desk (asked ++ m.asks action) (m.pops action)) :=
      Moment.entered Edits.ledger h.reach.thread hcan nofun nofun nofun nofun hlive
    obtain ⟨hneat', hheard'⟩ := hedits.induct (fun h _ => h.heard) hneat hheard
    exact ⟨hneat'.unrecorded, hheard'.lists, hheard'.made, hheard'.returned, hheard'.first⟩

/-- When a body returns, what happens to the lists depends on the first frame that polled its task.
-/
theorem runLists_step (h : Asked allowed m asked) (hlive : m.session.aborted = none) {k : WorkerId}
    {c : FrameId} (hcompletes : m.Completes k c) :
    m.step.world.runLists = match asked.lookup c with
      | some b => (m.world.runLists.push (readyList k) b).getD m.world.runLists
      | none => m.world.runLists := by
  obtain ⟨hneat, hheard⟩ := h.heard hlive
  obtain ⟨⟨outer, below, hstack⟩, hreturning, hkept, hfresh⟩ := hcompletes
  have hended : m.thread.ended m.world = Thread.finish m.world m.thread.toPlace k c outer := by
    rw [Thread.ended, hstack]
  have hpolled : (m.desk asked).polled = c :: polls below := by
    show polls m.thread.stack = _
    rw [hstack]
    rfl
  have hfinish : Edits False (m.desk asked) { m.desk asked with
      world := Thread.finish m.world m.thread.toPlace k c outer
      polled := polls below
      done := c :: (m.desk asked).done } :=
    Edits.ledger.finish (t := { m.thread with stack := below }) m.thread.toPlace k outer hpolled
  have hdrained : ∀ k, ((m.thread.ended m.world).worker k).retired = [] := by
    rw [hended]
    exact (hfinish.neat hneat).drained
  have hawaited : (m.world.frame c).disposal = .awaited := by
    rw [hended] at hkept
    exact ((finish_link m.world m.thread.toPlace k c outer).2 hkept).1
  have hfirst : (m.world.frame c).continuation = asked.lookup c :=
    hheard.first c (Moment.not_mem_done hfresh) hawaited
  have hreceived := (Moment.receive_agrees m.session (m.thread.step m.world)).1.runLists
  rw [← hfirst, ← Thread.step_wakes hstack hreturning hkept hdrained]
  exact hreceived

/-- At every moment of a run, the frame of a task that has yet to return names the first frame that
polled it while it was pending.  When it returns, this frame is put on the ready list of its worker
unless it is on a list already, and no other frame is.  The frame that is named is alive, provided
bodies wait for one thing at a time and only frames taken out of slots are scheduled. -/
theorem first_poller_woken (h : Asked allowed m asked) (hlive : m.session.aborted = none) :
    (∀ c, (∀ o, (c, o) ∉ m.returned) → (m.world.frame c).disposal = .awaited →
      (m.world.frame c).continuation = asked.lookup c) ∧
    (∀ k c, m.Completes k c →
      (∀ b, asked.lookup c = some b → ¬m.world.Listed b → ∀ q, m.step.world.runLists.toList q =
        if q = readyList k then b :: m.world.runLists.toList q else m.world.runLists.toList q) ∧
      ((∀ b, asked.lookup c = some b → m.world.Listed b) →
        m.step.world.runLists = m.world.runLists)) ∧
    ((∀ m action, allowed m action → m.Careful action) →
      ∀ c b, (m.world.frame c).continuation = some b → (m.world.frame b).alive = true) := by
  obtain ⟨hneat, hheard⟩ := h.heard hlive
  refine ⟨fun c hfresh => hheard.first c (Moment.not_mem_done hfresh),
    fun k c hcompletes => ⟨fun b hb hlisted q => ?_, fun hall => ?_⟩, fun hcareful c b hb => ?_⟩
  · have hoff : ∀ q, b ∉ m.world.runLists.toList q := fun q hq => hlisted ⟨q, hq⟩
    obtain ⟨lists, hpush, -, hlists⟩ := hheard.lists.push hoff (readyList k)
    have hstep := h.runLists_step hlive hcompletes
    simp only [hb, show m.world.runLists.push (readyList k) b = some lists from hpush,
      Option.getD_some] at hstep
    rw [hstep, hlists]
    split
    · rename_i hq
      rw [hq]
      rfl
    · rfl
  · have hstep := h.runLists_step hlive hcompletes
    cases hfirst : asked.lookup c with
    | none => simpa only [hfirst] using hstep
    | some b =>
      obtain ⟨q, hq⟩ := hall b hfirst
      have hrefused : m.world.runLists.push (readyList k) b = none := hheard.lists.push_eq_none hq _
      simpa only [hfirst, hrefused, Option.getD_none] using hstep
  · obtain ⟨a, spot, hlayout, -⟩ := h.reach.laidOut hcareful
    have hchild := (hlayout.awaiting c b).mp hb
    refine (hlayout.frames b).alive.mpr fun habsent => ?_
    rw [habsent] at hchild
    cases hchild

/-- A body that awaits a task, which is about to return. -/
theorem first_poller_woken_rejoining :
    Asked Moment.Careful (joining.after rejoiningActions) [(0, 1)] ∧
      (joining.after rejoiningActions).session.aborted = none ∧
      (joining.after rejoiningActions).Completes 0 0 ∧
      ((joining.after rejoiningActions).world.frame 0).continuation = some 1 ∧
      ((joining.after rejoiningActions).world.frame 1).alive = true ∧
      (joining.after rejoiningActions).step.world.runLists.toList (readyList 0) =
        1 :: (joining.after rejoiningActions).world.runLists.toList (readyList 0) := by
  have hstart : Asked Moment.Careful joining [] := .start _
  have h := hstart.after rejoiningActions (by decide +kernel)
  rw [show [] ++ joining.asksAfter rejoiningActions = [(0, 1)] by decide +kernel] at h
  have hlive : (joining.after rejoiningActions).session.aborted = none := by decide +kernel
  have hcompletes : (joining.after rejoiningActions).Completes 0 0 := by
    refine ⟨⟨none, [.pump 0 none 1], by decide +kernel⟩, by decide +kernel, by decide +kernel, ?_⟩
    rw [show (joining.after rejoiningActions).returned = [] by decide +kernel]
    exact nofun
  have hlisted : ¬(joining.after rejoiningActions).world.Listed 1 := by
    rintro ⟨q, hq⟩
    have hqueued : (joining.after rejoiningActions).world.runLists.queued 1 ≠ true := by
      decide +kernel
    exact hqueued (((h.heard hlive).2.lists.queued_iff 1).mpr ⟨q, hq⟩)
  obtain ⟨hfirst, hwoken, hnamed⟩ := first_poller_woken h hlive
  have hcontinuation := hfirst 0 hcompletes.fresh (by decide +kernel)
  refine ⟨h, hlive, hcompletes, hcontinuation, hnamed (fun _ _ => id) 0 1 hcontinuation, ?_⟩
  have hready := (hwoken 0 0 hcompletes).1 1 rfl hlisted (readyList 0)
  rwa [if_pos rfl] at hready

end Asked

/-- One body polls a task and goes on to something else, another one awaits the task, and now the
task returns. -/
def movedActions : List Action :=
  [.call (.new "@t" "c" 0), .call (.spawn "w" "a" 0), .call (.pump "w")] ++
    List.replicate 11 .step ++
    [.call (.spawn "w" "b" 0), .call (.pump "w")] ++ List.replicate 4 .step ++
    [.call (.unpark "p" "w"), .call (.pump "w"), .step, .step]

def moved : Moment :=
  { session := { world := { bodies :=
    (((Registers.empty.set "a" [.pollOnce (.task "@t"), .await "d" 0]).set "b"
      [.join "@t", .log "woken"]).set "c" [.park "p" 0]).set "d" [.park "q" 0] } } }

/-- The frame that polled a task last awaits it, and is not woken when the task returns. -/
theorem last_poller_not_woken :
    Asked (fun _ _ => True) (moved.after movedActions) [(0, 1), (2, 1), (0, 3)] ∧
      (moved.after movedActions).fault = none ∧ (moved.after movedActions).Completes 0 0 ∧
      ((moved.after movedActions).world.frame 3).alive = true ∧
      ((moved.after movedActions).world.frame 3).stage = .suspended ∧
      ((moved.after movedActions).world.frame 3).wait = some (.one (.task "@t")) ∧
      (moved.after movedActions).step.world.runLists.toList (readyList 0) = [1] ∧
      ¬(moved.after movedActions).step.world.Listed 3 := by
  have hstart : Asked (fun _ _ => True) moved [] := .start _
  have h := hstart.after movedActions (by decide +kernel)
  rw [show [] ++ moved.asksAfter movedActions = [(0, 1), (2, 1), (0, 3)] by decide +kernel] at h
  have hstepped : Asked (fun _ _ => True) ((moved.after movedActions).act .step) _ :=
    h.next (by decide +kernel) trivial
  refine ⟨h, by decide +kernel, ⟨⟨none, [.pump 0 none 1], by decide +kernel⟩, by decide +kernel,
    by decide +kernel, ?_⟩, by decide +kernel, by decide +kernel, rfl, by decide +kernel, ?_⟩
  · rw [show (moved.after movedActions).returned = [] by decide +kernel]
    exact nofun
  · rintro ⟨q, hq⟩
    have hqueued : (moved.after movedActions).step.world.runLists.queued 3 ≠ true := by
      decide +kernel
    exact hqueued (((hstepped.heard (by decide +kernel)).2.lists.queued_iff 3).mpr ⟨q, hq⟩)

/-- A body polls a task once and returns. -/
def departed : Moment :=
  ({ session := { world := { bodies :=
    (Registers.empty.set "main" [.pollOnce (.task "@t")]).set "c" [.park "p" 0] } } } :
      Moment).after
    ([.call (.new "@t" "c" 0), .call (.spawn "w" "main" 0), .call (.pump "w")] ++
      List.replicate 7 .step)

/-- The frame of a task names a frame that was destroyed. -/
theorem destroyed_frame_named :
    Reach (fun _ _ => True) departed ∧ departed.fault = none ∧
      (departed.world.frame 0).alive = true ∧ (departed.world.frame 0).continuation = some 1 ∧
      (departed.world.frame 1).alive = false :=
  ⟨(Reach.start _).after
    (by decide +kernel), by decide +kernel, by decide +kernel, by decide +kernel,
    by decide +kernel⟩

end Substrate.Coro
