import Substrate.Proofs.Coro.Continuations

/-!
# Turns

A worker takes frames from the top of its ready list; when that is empty, the deferred list is
turned around and becomes the ready list.  Read from its end, the deferred list therefore goes on
where the ready list stops: `RunLists.turns` is the order in which the worker takes the frames that
are there.  What becomes ready joins this order at the front, what yields joins it at the back, and
turning the deferred list around does not change it.

* `Edit.turns` says what one edit does to the turns of the workers.
* `Desk.InTurn` follows a frame that waits: whatever was ahead of it at first is taken before it.
  `Desk.Waits` says that nobody polls it in the meantime.
* `Moment.popsAfter` are the frames that the workers take in the course of some actions, and
  `Moment.follows` carries what every edit keeps through them.
* `Reach.yielding_frames_take_turns` is about every run in which no frame is scheduled while it is
  polled (`Moment.Apart`).
-/

namespace Substrate.Coro

/-! ## The order of turns -/

namespace RunLists

variable {r r' : RunLists} {k : WorkerId} {f : FrameId}

/-- The frames on the lists of a worker, in the order in which the worker takes them. -/
def turns (r : RunLists) (k : WorkerId) : List FrameId :=
  r.toList (readyList k) ++ (r.toList (deferredList k)).reverse

theorem mem_turns : f ∈ r.turns k ↔ f ∈ r.toList (readyList k) ∨ f ∈ r.toList (deferredList k) := by
  rw [turns, List.mem_append, List.mem_reverse]

theorem Sound.nodup_turns (h : r.Sound) (k : WorkerId) : (r.turns k).Nodup := by
  have hdeferred := (Refines.nodup h (deferredList k)).perm (List.reverse_perm _).symm
  refine List.nodup_append.mpr ⟨Refines.nodup h (readyList k), hdeferred, ?_⟩
  rintro f hf _ hf' rfl
  exact Coro.readyList_ne_deferredList k k (Refines.disjoint h _ _ f hf (List.mem_reverse.mp hf'))

/-- A frame is on the lists of one worker only. -/
theorem Sound.turns_disjoint (h : r.Sound) {k' : WorkerId} (hk : f ∈ r.turns k)
    (hk' : f ∈ r.turns k') :
    k = k' := by
  rw [mem_turns] at hk hk'
  rcases hk with hk | hk <;> rcases hk' with hk' | hk' <;> have hsame :=
    Refines.disjoint h _ _ f hk hk'
  · exact Coro.readyList_inj.mp hsame
  · exact absurd hsame (Coro.readyList_ne_deferredList k k')
  · exact absurd hsame.symm (Coro.readyList_ne_deferredList k' k)
  · exact Coro.deferredList_inj.mp hsame

theorem Sound.queued_of_turns (h : r.Sound) (hf : f ∈ r.turns k) : r.queued f = true := by
  refine (h.queued_iff f).mpr ?_
  rcases mem_turns.mp hf with hf | hf
  · exact ⟨_, hf⟩
  · exact ⟨_, hf⟩

theorem Sound.push_cases (h : r.Sound) {q : Nat} (hpush : r.push q f = some r') :
    r'.Sound ∧ ∀ q', r'.toList q' = if q' = q then f :: r.toList q else r.toList q' := by
  have hoff : ∀ q', f ∉ r.toList q' := by
    intro q' hmem
    rw [h.push_eq_none hmem] at hpush
    cases hpush
  obtain ⟨r'', hpush', hsound, hlists⟩ := h.push hoff q
  rw [hpush] at hpush'
  cases hpush'
  exact ⟨hsound, hlists⟩

/-- A frame that becomes ready goes before all others. -/
theorem Sound.turns_ready (h : r.Sound) (hpush : r.push (readyList k) f = some r') (k' : WorkerId) :
    r'.turns k' = if k' = k then f :: r.turns k else r.turns k' := by
  obtain ⟨-, hlists⟩ := h.push_cases hpush
  rw [turns, hlists, hlists, if_neg (Coro.readyList_ne_deferredList k k').symm]
  simp only [Coro.readyList_inj]
  split
  · rename_i hk
    rw [hk]
    rfl
  · rfl

/-- A frame that yields goes after all others. -/
theorem Sound.turns_deferred (h : r.Sound) (hpush : r.push (deferredList k) f = some r')
    (k' : WorkerId) : r'.turns k' = if k' = k then r.turns k ++ [f] else r.turns k' := by
  obtain ⟨-, hlists⟩ := h.push_cases hpush
  rw [turns, hlists, hlists, if_neg (Coro.readyList_ne_deferredList k' k)]
  simp only [Coro.deferredList_inj]
  split
  · rename_i hk
    rw [hk, List.reverse_cons, ← List.append_assoc]
    rfl
  · rfl

/-- The frame that is popped from a ready list is the next one. -/
theorem Sound.turns_pop (h : r.Sound) (hpop : r.pop (readyList k) = some (f, r')) :
    r.turns k = f :: r'.turns k ∧ ∀ k', k' ≠ k → r'.turns k' = r.turns k' := by
  obtain ⟨below, hready, -, hlists⟩ := h.pop_cases hpop
  constructor
  · rw [turns, turns, hlists, hlists, if_pos rfl, if_neg (Coro.readyList_ne_deferredList k k).symm,
      hready]
    rfl
  · intro k' hk
    rw [turns, turns, hlists, hlists, if_neg fun e => hk (Coro.readyList_inj.mp e),
      if_neg (Coro.readyList_ne_deferredList k k').symm]

/-- Turning the deferred list around changes nobody's turn. -/
theorem Sound.turns_pour (h : r.Sound) (hready : r.toList (readyList k) = []) (k' : WorkerId) :
    (r.pour (deferredList k) (readyList k) (r.length (deferredList k))).turns k' = r.turns k' := by
  obtain ⟨-, hlists⟩ := h.pour (Coro.readyList_ne_deferredList k k).symm (r.length (deferredList k))
  rw [turns, turns, hlists, hlists, if_neg (Coro.readyList_ne_deferredList k' k),
    if_neg (Coro.readyList_ne_deferredList k k').symm]
  by_cases hk : k' = k
  · subst hk
    rw [if_pos rfl, if_pos rfl, hready, ← h.length_toList, List.take_length, List.drop_length]
    simp
  · rw [if_neg fun e => hk (Coro.readyList_inj.mp e), if_neg fun e =>
      hk (Coro.deferredList_inj.mp e)]

/-- Frames joined the turns of the workers, and none has left. -/
def Grows (r r' : RunLists) : Prop := ∀ k, ∃ front back, r'.turns k = front ++ r.turns k ++ back

theorem Grows.refl (r : RunLists) : r.Grows r := fun k => ⟨[], [], by simp⟩

end RunLists

namespace World

variable {w w' : World}

theorem enqueue_grows (h : w.runLists.Sound) (k : WorkerId) (f : FrameId) :
    w.runLists.Grows (w.enqueue k f).runLists := by
  unfold World.enqueue
  cases hpush : w.runLists.push (readyList k) f with
  | none => exact .refl _
  | some r =>
    intro k'
    show ∃ front back, r.turns k' = _
    rw [h.turns_ready hpush]
    split
    · rename_i hk
      exact ⟨[f], [], by simp [hk]⟩
    · exact ⟨[], [], by simp⟩

theorem defer_grows (h : w.runLists.Sound) (k : WorkerId) (f : FrameId) :
    w.runLists.Grows (w.defer k f).runLists := by
  unfold World.defer
  cases hpush : w.runLists.push (deferredList k) f with
  | none => exact .refl _
  | some r =>
    intro k'
    show ∃ front back, r.turns k' = _
    rw [h.turns_deferred hpush]
    split
    · rename_i hk
      exact ⟨[], [f], by simp [hk]⟩
    · exact ⟨[], [], by simp⟩

/-- A worker takes the frame whose turn it is. -/
theorem nextFrame_turns (h : w.runLists.Sound) {k : WorkerId} {f : FrameId}
    (hnext : w.nextFrame k = some (f, w')) :
    w.runLists.turns k = f :: w'.runLists.turns k ∧
      ∀ k', k' ≠ k → w'.runLists.turns k' = w.runLists.turns k' := by
  obtain ⟨r, rfl, hpop | ⟨hnone, hpop⟩⟩ := World.nextFrame_some hnext
  · exact h.turns_pop hpop
  · have hready := h.toList_eq_nil hnone
    have hpoured :=
      (h.pour (readyList_ne_deferredList k k).symm (w.runLists.length (deferredList k))).1
    obtain ⟨hfirst, hrest⟩ := hpoured.turns_pop hpop
    rw [h.turns_pour hready] at hfirst
    refine ⟨hfirst, fun k' hk => ?_⟩
    rw [← h.turns_pour hready k']
    exact hrest k' hk

end World

/-! ## Edits -/

/-- What happened to the turns of the workers: one of them took the frame whose turn it was, or
frames have joined. -/
inductive Desk.Turned (d d' : Desk) : Prop
  | joined (hpopped : d'.popped = d.popped) (hgrows : d.world.runLists.Grows d'.world.runLists)
  | took {k : WorkerId} {f : FrameId} (hpopped : d'.popped = d.popped ++ [(k, f)])
    (hfirst : d.world.runLists.turns k = f :: d'.world.runLists.turns k)
    (hrest : ∀ k', k' ≠ k → d'.world.runLists.turns k' = d.world.runLists.turns k')

theorem Desk.Turned.popped {d d' : Desk} (h : d.Turned d') {p : WorkerId × FrameId}
    (hp : p ∈ d.popped) : p ∈ d'.popped := by
  cases h with
  | joined hpopped => exact hpopped ▸ hp
  | took hpopped =>
    rw [hpopped]
    exact List.mem_append_left _ hp

theorem Edit.turns {strict : Prop} {d d' : Desk} (h : Edit strict d d')
    (hlists : d.world.runLists.Sound) : d.Turned d' := by
  have hsame : d.world.runLists.Grows d.world.runLists := .refl _
  cases h with
  | move halike hw hfewer => exact .joined rfl (halike.runLists ▸ hsame)
  | spawn k body arg =>
    exact .joined rfl
      (World.enqueue_grows (w := (d.world.newFrame (some 0) .detached body arg).1) hlists k _)
  | @start f w hand k halike hw hfewer hstarted hstage =>
    have hgrows := World.enqueue_grows (w := w) (halike.runLists ▸ hlists) k f
    rw [halike.runLists] at hgrows
    exact .joined rfl hgrows
  | @discard f hand p ending halive hhand =>
    exact .joined rfl ((Layout.endFrame_agrees d.world p f ending).runLists ▸ hsame)
  | @destroy f p ending hmade hstage =>
    exact .joined rfl ((Layout.endFrame_agrees d.world p f ending).runLists ▸ hsame)
  | resume t hnext hmade halive hstage =>
    obtain ⟨hfirst, hrest⟩ := World.nextFrame_turns hlists hnext
    exact .took rfl hfirst hrest
  | skip hnext =>
    obtain ⟨hfirst, hrest⟩ := World.nextFrame_turns hlists hnext
    exact .took rfl hfirst hrest
  | @yield f polled k outer hpolled =>
    exact .joined rfl (World.defer_grows (w := released d.world k f outer) hlists k f)
  | @wake c b k hstage hcontinuation hstrict =>
    exact .joined rfl (World.enqueue_grows (w := d.world.modifyFrame c _) hlists k b)
  | @unpark f slot k hslot =>
    exact .joined rfl (World.enqueue_grows (w := d.world.setSlot slot none) hlists k f)
  | schedule k hstage hstrict => exact .joined rfl (World.enqueue_grows hlists k _)
  | recruit | make | ask | detach | rest | park | complete | vacate => exact .joined rfl hsame

/-- Frame `f` waits for its turn with worker `k` behind those of the frames `ahead` that have not
been taken since, or it was taken after all of them. -/
inductive Desk.InTurn (k : WorkerId) (f : FrameId) (ahead : List FrameId) (d : Desk) : Prop
  | waiting {before after : List FrameId}
    (hturns : d.world.runLists.turns k = before ++ f :: after)
    (hahead : ∀ g ∈ ahead, (k, g) ∈ d.popped ∨ g ∈ before) (huntaken : ∀ p ∈ d.popped, p.2 ≠ f)
  | taken (htaken : ∃ p ∈ d.popped, p.2 = f)
    (hahead : ∀ g ∈ ahead, (k, g) ∈ d.popped.takeWhile fun p => p.2 != f)

/-- What is taken later does not matter once the frame was taken. -/
theorem takeWhile_append_of_taken {popped more : List (WorkerId × FrameId)} {f : FrameId}
    (h : ∃ p ∈ popped, p.2 = f) : (popped ++ more).takeWhile (fun p => p.2 != f) =
      popped.takeWhile fun p => p.2 != f := by
  rw [List.takeWhile_append, if_neg]
  intro hall
  obtain ⟨p, hp, hf⟩ := h
  have hsame := (List.takeWhile_sublist (fun p : WorkerId × FrameId => p.2 != f)).eq_of_length hall
  have hne := List.all_eq_true.mp (hsame ▸ List.all_takeWhile) p hp
  simp [hf] at hne

theorem Desk.InTurn.turned {k : WorkerId} {f : FrameId} {ahead : List FrameId} {d d' : Desk}
    (h : d.InTurn k f ahead) (hlists : d.world.runLists.Sound) (hturned : d.Turned d') :
    d'.InTurn k f ahead := by
  cases h with
  | taken htaken hahead =>
    obtain ⟨more, hmore⟩ : ∃ more, d'.popped = d.popped ++ more := by
      cases hturned with
      | joined hpopped => exact ⟨[], by simp [hpopped]⟩
      | took hpopped => exact ⟨_, hpopped⟩
    refine .taken ?_ fun g hg => ?_
    · obtain ⟨p, hp, hf⟩ := htaken
      exact ⟨p, hmore ▸ List.mem_append_left _ hp, hf⟩
    · rw [hmore, takeWhile_append_of_taken htaken]
      exact hahead g hg
  | @waiting before after hturns hahead huntaken =>
    cases hturned with
    | joined hpopped hgrows =>
      obtain ⟨front, back, hgrown⟩ := hgrows k
      rw [hturns] at hgrown
      have hturns' : d'.world.runLists.turns k = (front ++ before) ++ f :: (after ++ back) := by
        rw [hgrown]
        simp
      refine .waiting hturns' (fun g hg => ?_) ?_
      · rw [hpopped]
        exact (hahead g hg).imp_right (List.mem_append_right _)
      · rw [hpopped]
        exact huntaken
    | @took k' x hpopped hfirst hrest =>
      have hmem : f ∈ d.world.runLists.turns k := by
        rw [hturns]
        simp
      by_cases hk : k' = k
      · subst hk
        rw [hturns] at hfirst
        cases before with
        | nil =>
          -- it is the turn of the frame, and all that was ahead of it has been taken
          obtain ⟨rfl, -⟩ := List.cons.inj hfirst
          have hkept : d'.popped.takeWhile (fun p => p.2 != f) = d.popped := by
            rw [hpopped, List.takeWhile_append_of_pos (by simpa using huntaken)]
            simp
          refine .taken ⟨(k', f), by simp [hpopped], rfl⟩ fun g hg => ?_
          rw [hkept]
          exact (hahead g hg).resolve_right (by simp)
        | cons y before =>
          obtain ⟨rfl, hrest'⟩ := List.cons.inj hfirst
          have hne : y ≠ f := by
            have hnodup := hlists.nodup_turns k'
            rw [hturns, List.cons_append, List.nodup_cons] at hnodup
            rintro rfl
            exact hnodup.1 (by simp)
          refine .waiting hrest'.symm (fun g hg => ?_) fun p hp => ?_
          · rw [hpopped, List.mem_append]
            rcases hahead g hg with htaken | hbefore
            · exact .inl (.inl htaken)
            · rcases List.mem_cons.mp hbefore with rfl | hbefore
              · exact .inl (.inr (by simp))
              · exact .inr hbefore
          · rw [hpopped, List.mem_append, List.mem_singleton] at hp
            rcases hp with hp | rfl
            · exact huntaken p hp
            · exact hne
      · have hne : x ≠ f := by
          rintro rfl
          have hmem' : x ∈ d.world.runLists.turns k' := by
            rw [hfirst]
            simp
          exact hk (hlists.turns_disjoint hmem' hmem)
        refine .waiting ((hrest k fun e => hk e.symm).trans hturns) (fun g hg => ?_) fun p hp => ?_
        · rw [hpopped]
          exact (hahead g hg).imp_left (List.mem_append_left _)
        · rw [hpopped, List.mem_append, List.mem_singleton] at hp
          rcases hp with hp | rfl
          · exact huntaken p hp
          · exact hne

/-- Frame `f` has not been taken from a list, and nobody polls it. -/
structure Desk.Waits (f : FrameId) (d : Desk) : Prop where
  made : f < d.world.frameCount
  suspended : (d.world.frame f).stage = .suspended
  unpolled : f ∉ d.polled

/-- Nobody polls a frame that was not taken from a list. -/
theorem Edit.waits {strict : Prop} {d d' : Desk} {f : FrameId} (h : Edit strict d d')
    (hwaits : d.Waits f) : d'.Waits f ∨ ∃ k, (k, f) ∈ d'.popped := by
  obtain ⟨hmade, hsuspended, hunpolled⟩ := hwaits
  have hnew : ∀ (disposal : Disposal) (body : String) (arg : Int),
      (d.world.newFrame (some 0) disposal body arg).1.frame f = d.world.frame f := by
    intro disposal body arg
    rw [World.frame_newFrame, if_neg (Nat.ne_of_lt hmade)]
  have hreleased : ∀ {g : FrameId} {polled : List FrameId} (k : WorkerId) (outer : Option FrameId),
      d.polled = g :: polled → ((released d.world k g outer).frame f).stage = .suspended ∧
        f ∉ polled := by
    intro g polled k outer hpolled
    rw [hpolled, List.mem_cons, not_or] at hunpolled
    rw [frame_released, if_neg hunpolled.1]
    exact ⟨hsuspended, hunpolled.2⟩
  cases h with
  | move halike hw hfewer =>
    exact .inl ⟨halike.frameCount ▸ hmade, (halike.frame f).stage.trans hsuspended, hunpolled⟩
  | recruit hook => exact .inl ⟨hmade, hsuspended, hunpolled⟩
  | make body arg =>
    refine .inl ⟨Nat.lt_succ_of_lt hmade, ?_, hunpolled⟩
    rw [hnew]
    exact hsuspended
  | spawn k body arg =>
    refine .inl ⟨?_, ?_, hunpolled⟩
    · rw [World.enqueue_frameCount]
      exact Nat.lt_succ_of_lt hmade
    · rw [World.frame_enqueue, hnew]
      exact hsuspended
  | @start g w hand k halike hw hfewer hstarted hstage =>
    refine .inl ⟨?_, ?_, hunpolled⟩
    · rw [World.enqueue_frameCount, halike.frameCount]
      exact hmade
    · rw [World.frame_enqueue, (halike.frame f).stage]
      exact hsuspended
  | @ask c b hmade' hstage =>
    refine .inl ⟨hmade, ?_, hunpolled⟩
    rw [World.subscribe, World.frame_modifyFrame]
    split <;> exact hsuspended
  | detach hstage =>
    refine .inl ⟨hmade, ?_, hunpolled⟩
    rw [World.frame_modifyFrame]
    split <;> exact hsuspended
  | @discard g hand p ending halive hhand =>
    refine .inl ⟨(Layout.endFrame_agrees d.world p g ending).frameCount ▸ hmade, ?_, hunpolled⟩
    rw [World.frame_endFrame]
    split <;> exact hsuspended
  | @destroy g p ending hmade' hstage =>
    refine .inl ⟨(Layout.endFrame_agrees d.world p g ending).frameCount ▸ hmade, ?_, hunpolled⟩
    rw [World.frame_endFrame]
    split <;> exact hsuspended
  | @resume k g w t hnext hmade' halive hstage =>
    by_cases hg : f = g
    · subst hg
      exact .inr ⟨k, by simp⟩
    · have hw := World.nextFrame_same hnext
      refine .inl ⟨?_, ?_, ?_⟩
      · rw [hw]
        exact hmade
      · rw [World.frame_beginPoll, if_neg hg, hw]
        exact hsuspended
      · exact fun hmem => (List.mem_cons.mp hmem).elim hg hunpolled
  | @skip k g w hnext =>
    have hw := World.nextFrame_same hnext
    refine .inl ⟨?_, ?_, hunpolled⟩
    · rw [hw]
      exact hmade
    · rw [hw]
      exact hsuspended
  | rest k outer hpolled =>
    exact .inl ⟨hmade, (hreleased k outer hpolled).1, (hreleased k outer hpolled).2⟩
  | yield k outer hpolled =>
    exact .inl ⟨hmade, (hreleased k outer hpolled).1, (hreleased k outer hpolled).2⟩
  | park k outer hpolled hvacant =>
    exact .inl ⟨hmade, (hreleased k outer hpolled).1, (hreleased k outer hpolled).2⟩
  | @complete g polled k outer output hpolled =>
    rw [hpolled, List.mem_cons, not_or] at hunpolled
    refine .inl ⟨hmade, ?_, hunpolled.2⟩
    rw [frame_completed, if_neg hunpolled.1]
    exact hsuspended
  | @wake c b k hstage hcontinuation hstrict =>
    refine .inl ⟨?_, ?_, hunpolled⟩
    · rw [World.enqueue_frameCount]
      exact hmade
    · rw [World.frame_enqueue, World.frame_modifyFrame]
      split <;> exact hsuspended
  | vacate slot => exact .inl ⟨hmade, hsuspended, hunpolled⟩
  | @unpark g slot k hslot =>
    refine .inl ⟨?_, ?_, hunpolled⟩
    · rw [World.enqueue_frameCount]
      exact hmade
    · rw [World.frame_enqueue]
      exact hsuspended
  | schedule k hstage hstrict =>
    refine .inl ⟨?_, ?_, hunpolled⟩
    · rw [World.enqueue_frameCount]
      exact hmade
    · rw [World.frame_enqueue]
      exact hsuspended

/-! ## Runs -/

/-- The world once the body that a thread polls has done what it does next, before its frame goes
anywhere. -/
def Thread.acted (t : Thread) (w : World) : World :=
  match t.stack with
  | .poll _ f _ :: _ => (Thread.advance w t.toPlace f).1
  | _ => w

/-- A frame that yields goes on the deferred list of its worker, unless it is on a list already. -/
theorem Thread.suspend_turn {w : World} {k : WorkerId} {f : FrameId} (t : Thread)
    (outer : Option FrameId)
    (hturn : (w.worker k).suspension = some .turn) (hlists : w.runLists.Sound)
    (hoff : w.runLists.queued f = false) (hdrained : (w.worker k).retired = []) :
    ∃ w', Thread.suspend w t k f outer = (w', t, .running) ∧
      (∀ q, w'.runLists.toList q =
        if q = deferredList k then f :: w.runLists.toList q else w.runLists.toList q) ∧
      w'.frameCount = w.frameCount ∧ (w'.frame f).stage = .suspended := by
  have hfree : ∀ q, f ∉ w.runLists.toList q := by
    intro q hq
    rw [(hlists.queued_iff f).mpr ⟨q, hq⟩] at hoff
    cases hoff
  obtain ⟨r, hpush, -, hpushed⟩ := hlists.push hfree (deferredList k)
  have hdefer : (released w k f outer).defer k f = { released w k f outer with runLists := r } := by
    rw [World.defer, show (released w k f outer).runLists = w.runLists from rfl, hpush]
    rfl
  rw [suspend_eq, hturn]
  simp only [hdefer]
  refine ⟨_, rfl, ?_⟩
  have hagrees : ({ released w k f outer with runLists := r } : World).Agrees
      (World.drainRetired _ t.toPlace k) :=
    (World.count_agrees _ k fun s => { s with yielded := s.yielded + 1 }).1.trans
      (World.drainRetired_agrees _ t.toPlace ?_)
  · refine ⟨fun q => ?_, hagrees.frameCount, ?_⟩
    · rw [hagrees.runLists, hpushed q]
      split
      · rename_i hq
        rw [hq]
      · rfl
    · rw [hagrees.frame]
      show ((released w k f outer).frame f).stage = _
      rw [frame_released, if_pos rfl]
  · rw [(World.steady_count _ _ _).retired]
    exact (Edit.retired_released w k f outer k).trans hdrained

namespace Moment

/-- No frame is scheduled while it is polled: none of those that are polled is on a list, also once
the body has done what it does next. -/
def Apart (m : Moment) : Action → Prop
  | .step => ∀ f ∈ polls m.thread.stack, m.world.runLists.queued f = false ∧
      (m.thread.acted m.world).runLists.queued f = false
  | _ => True

instance (m : Moment) (action : Action) : Decidable (m.Apart action) :=
  match action with
  | .step => inferInstanceAs (Decidable (∀ f ∈ _, _))
  | .call _ | .close => inferInstanceAs (Decidable True)

/-- The body of frame `f` is about to yield its turn with worker `k`. -/
structure Yields (m : Moment) (k : WorkerId) (f : FrameId) : Prop where
  polled : ∃ outer below, m.thread.stack = .poll k f outer :: below
  suspends : (Thread.advance m.world m.thread.toPlace f).2 = .suspend
  turn : ((m.thread.acted m.world).worker k).suspension = some .turn

/-- The frames that workers take in the course of some actions, oldest first. -/
def popsAfter (m : Moment) : List Action → List (WorkerId × FrameId)
  | [] => []
  | action :: rest => m.pops action ++ (m.act action).popsAfter rest

theorem after_append (m : Moment) (actions more : List Action) :
    m.after (actions ++ more) = (m.after actions).after more := by
  induction actions generalizing m with
  | nil => rfl
  | cons action rest ih => exact ih (m.act action)

theorem popsAfter_append (m : Moment) (actions more : List Action) :
    m.popsAfter (actions ++ more) = m.popsAfter actions ++ (m.after actions).popsAfter more := by
  induction actions generalizing m with
  | nil => rfl
  | cons action rest ih =>
    show m.pops action ++ (m.act action).popsAfter (rest ++ more) =
      m.pops action ++ (m.act action).popsAfter rest ++ _
    rw [ih, List.append_assoc]
    rfl

theorem Admits.append {allowed : Moment → Action → Prop} {actions more : List Action} :
    ∀ {m : Moment}, m.Admits allowed actions → (m.after actions).Admits allowed more →
      m.Admits allowed (actions ++ more) := by
  induction actions with
  | nil => exact fun _ hmore => hmore
  | cons action rest ih => exact fun h hmore => ⟨h.1, h.2.1, ih h.2.2 hmore⟩

/-- The step of a worker that takes a frame does not end everything. -/
theorem pops_of_aborted {m : Moment} {action : Action} (hcan : m.Can action)
    (h : (m.act action).session.aborted ≠ none) : m.pops action = [] := by
  cases action with
  | call op => rfl
  | close => rfl
  | step =>
    show m.thread.pops m.world = []
    have hprogress : (m.thread.step m.world).2.2 ≠ .running := by
      intro hrunning
      refine h (receive_aborted ?_ |>.trans hcan.1)
      rw [hrunning]
      rfl
    unfold Thread.pops
    split
    · rename_i k outer count below hstack
      cases hnext : m.world.nextFrame k with
      | none => rfl
      | some next =>
        refine absurd ?_ hprogress
        simp only [Thread.step, hstack, hnext]
        split <;> rfl
    · rfl

theorem pops_eq {m : Moment} {k : WorkerId} {f : FrameId} (h : m.pops .step = [(k, f)]) :
    ∃ outer count below w, m.thread.stack = .pump k outer count :: below ∧
      m.world.nextFrame k = some (f, w) := by
  simp only [pops, Thread.pops] at h
  split at h
  · rename_i k' outer count below hstack
    obtain ⟨⟨g, w⟩, hnext, e⟩ : ∃ next, m.world.nextFrame k' = some next ∧
        (k', next.1) = (k, f) := by
      cases hnext : m.world.nextFrame k' with
      | none =>
        rw [hnext] at h
        cases h
      | some next =>
        rw [hnext] at h
        exact ⟨next, rfl, List.singleton_inj.mp h⟩
    cases e
    exact ⟨outer, count, below, w, hstack, hnext⟩
  · cases h

/-- What every edit keeps is kept through some actions, together with the record of what the workers
take.  Nothing more is known once a body has raised. -/
theorem follows {allowed : Moment → Action → Prop} {P : Desk → Prop}
    (hedit : ∀ {d d' : Desk}, Edit False d d' → d.Heard → P d → P d') (actions : List Action) :
    ∀ {m : Moment} {asked : List (FrameId × FrameId)} {popped : List (WorkerId × FrameId)},
      Reach allowed m → m.Admits allowed actions → (m.desk asked popped).Neat →
      (m.desk asked popped).Heard → P (m.desk asked popped) →
        ∃ d, P d ∧ d.popped = popped ++ m.popsAfter actions ∧
          ((m.after actions).session.aborted = none →
            d.world = (m.after actions).world ∧
              d.polled = polls (m.after actions).thread.stack) := by
  induction actions with
  | nil =>
    intro m asked popped _ _ _ _ hd
    exact ⟨_, hd, (List.append_nil popped).symm, fun _ => ⟨rfl, rfl⟩⟩
  | cons action rest ih =>
    intro m asked popped h hadmits hneat hheard hd
    obtain ⟨hcan, hallowed, hrest⟩ := hadmits
    by_cases hlive : (m.act action).session.aborted = none
    · have hedits : Edits False (m.desk asked popped)
          ((m.act action).desk (asked ++ m.asks action) (popped ++ m.pops action)) :=
        Moment.entered Edits.ledger h.thread hcan nofun nofun nofun nofun hlive
      obtain ⟨hneat', hheard', hd'⟩ := hedits.induct (P := fun d => d.Heard ∧ P d)
        (fun hstep _ hkept => ⟨hstep.heard hkept.1, hedit hstep hkept.1 hkept.2⟩) hneat ⟨hheard, hd⟩
      obtain ⟨d, hP, hpopped, hworld⟩ := ih (h.next hcan hallowed) hrest hneat' hheard' hd'
      exact ⟨d, hP, by rw [hpopped, List.append_assoc]; rfl, hworld⟩
    · cases rest with
      | nil =>
        refine ⟨_, hd, ?_, fun hnone => absurd hnone hlive⟩
        rw [popsAfter, pops_of_aborted hcan hlive]
        exact (List.append_nil popped).symm
      | cons next rest => exact absurd hrest.1.live hlive

/-- What a frame that yields leaves behind. -/
structure Yielded (m : Moment) (k : WorkerId) (f : FrameId) : Prop where
  live : m.step.session.aborted = none
  lists : ∀ q, m.step.world.runLists.toList q =
    if q = deferredList k then f :: (m.thread.acted m.world).runLists.toList q
    else (m.thread.acted m.world).runLists.toList q
  made : f < m.step.world.frameCount
  suspended : (m.step.world.frame f).stage = .suspended

theorem Yields.yielded {m : Moment} {asked : List (FrameId × FrameId)} {k : WorkerId} {f : FrameId}
    (h : m.Yields k f) (hcan : m.Can .step) (hapart : m.Apart .step) (hthread : m.thread.thread = 0)
    (hneat : (m.desk asked).Neat) (hheard : (m.desk asked).Heard) : m.Yielded k f := by
  obtain ⟨⟨outer, below, hstack⟩, hsuspends, hturn⟩ := h
  have hpolled : f ∈ polls m.thread.stack := by
    rw [hstack]
    exact List.mem_cons_self
  have hacted : m.thread.acted m.world = (Thread.advance m.world m.thread.toPlace f).1 := by
    rw [Thread.acted, hstack]
  have hedits : Edits False (m.desk asked) { m.desk asked with
      world := (Thread.advance m.world m.thread.toPlace f).1
      hand := (Thread.advance m.world m.thread.toPlace f).2.hand ++ blocked m.thread.stack
      asked := asked ++ ({ m.thread with stack := .poll k f outer :: below } : Thread).asks
        m.world } :=
    Edits.ledger.advance (t := { m.thread with stack := below }) hthread hpolled nofun
      fun message e => by cases hsuspends.symm.trans e
  obtain ⟨hneat', hheard'⟩ := hedits.induct (fun hedit _ => hedit.heard) hneat hheard
  have hlists : (m.thread.acted m.world).runLists.Sound := hacted ▸ hheard'.lists
  have hdrained : ((m.thread.acted m.world).worker k).retired = [] := hacted ▸ hneat'.drained k
  have hmade : f < (m.thread.acted m.world).frameCount := hacted ▸ hneat'.polled f hpolled
  have hstep : m.thread.step m.world =
      Thread.suspend (m.thread.acted m.world) { m.thread with stack := below } k f outer := by
    rw [hacted, Thread.step, hstack]
    show Thread.runBody _ _ _ _ _ = _
    rw [Thread.runBody_eq, hsuspends]
    rfl
  obtain ⟨w, hsuspend, hlists', hcount, hstage⟩ :=
    Thread.suspend_turn { m.thread with stack := below }
    outer hturn hlists (hapart f hpolled).2 hdrained
  rw [hsuspend] at hstep
  have hworld : m.step.world = w := congrArg (fun r => (m.session.receive r).world) hstep
  refine ⟨?_, hworld ▸ hlists', ?_, hworld ▸ hstage⟩
  · refine (receive_aborted ?_).trans hcan.1
    rw [hstep]
    rfl
  · rw [hworld, hcount]
    exact hmade

/-- A frame that yields has the last turn. -/
theorem Yielded.turns {m : Moment} {k : WorkerId} {f : FrameId} (h : m.Yielded k f) :
    m.step.world.runLists.turns k = (m.thread.acted m.world).runLists.turns k ++ [f] := by
  rw [RunLists.turns, RunLists.turns, h.lists, h.lists, if_pos rfl,
    if_neg (readyList_ne_deferredList k k), List.reverse_cons, List.append_assoc]

/-- A frame on a list is not polled, provided no frame is scheduled while it is polled and something
happens next. -/
theorem Admits.unpolled {allowed : Moment → Action → Prop} {m : Moment} {action : Action}
    {rest : List Action} (h : m.Admits allowed (action :: rest))
    (hapart : ∀ m action, allowed m action → m.Apart action) {f : FrameId}
    (hf : m.world.runLists.queued f = true) : f ∉ polls m.thread.stack := by
  obtain ⟨hcan, hallowed, -⟩ := h
  have hidle : m.thread.stack = [] → f ∉ polls m.thread.stack := by
    intro e
    rw [e]
    exact List.not_mem_nil
  cases action with
  | step =>
    intro hmem
    have hoff := (hapart m .step hallowed f hmem).1
    rw [hf] at hoff
    cases hoff
  | call op => exact hidle hcan.2
  | close => exact hidle hcan.2

end Moment

namespace Reach

variable {allowed : Moment → Action → Prop} {m : Moment} {k : WorkerId} {f : FrameId}

theorem asked (h : Reach allowed m) : ∃ asked, Asked allowed m asked := by
  induction h with
  | start bodies => exact ⟨_, .start bodies⟩
  | next _ hcan hallowed ih =>
    obtain ⟨asked, hasked⟩ := ih
    exact ⟨_, hasked.next hcan hallowed⟩

theorem yielded (h : Reach allowed m) (hapart : ∀ m action, allowed m action → m.Apart action)
    (hyields : m.Yields k f) (hcan : m.Can .step) (hallowed : allowed m .step) : m.Yielded k f := by
  obtain ⟨asked, hasked⟩ := h.asked
  obtain ⟨hneat, hheard⟩ := hasked.heard hcan.live
  exact hyields.yielded hcan (hapart m .step hallowed) h.thread hneat hheard

/-- After a frame has yielded, it waits behind all others until it is taken, and nobody polls it
unless somebody did at first. -/
theorem inTurn (h : Reach allowed m) (hapart : ∀ m action, allowed m action → m.Apart action)
    (hyields : m.Yields k f) {actions : List Action}
    (hadmits : m.Admits allowed (.step :: actions)) :
    ∃ d : Desk, d.InTurn k f ((m.thread.acted m.world).runLists.turns k) ∧
      (f ∉ polls m.step.thread.stack → d.Waits f ∨ ∃ k', (k', f) ∈ d.popped) ∧
      d.popped = m.step.popsAfter actions ∧
      ((m.step.after actions).session.aborted = none →
        d.world = (m.step.after actions).world ∧
          d.polled = polls (m.step.after actions).thread.stack) := by
  obtain ⟨hcan, hallowed, hrest⟩ := hadmits
  have hyielded := h.yielded hapart hyields hcan hallowed
  have hstep : Reach allowed m.step := h.next hcan hallowed
  obtain ⟨asked, hasked⟩ := hstep.asked
  obtain ⟨hneat, hheard⟩ := hasked.heard hyielded.live
  have hkeeps : ∀ {d d' : Desk} {ahead : List FrameId}, Edit False d d' → d.Heard →
      d.InTurn k f ahead ∧
        (f ∉ polls m.step.thread.stack → d.Waits f ∨ ∃ k', (k', f) ∈ d.popped) →
      d'.InTurn k f ahead ∧
        (f ∉ polls m.step.thread.stack → d'.Waits f ∨ ∃ k', (k', f) ∈ d'.popped) := by
    intro d d' ahead hedit hheard hkept
    have hturned := hedit.turns hheard.lists
    refine ⟨hkept.1.turned hheard.lists hturned, fun hunpolled => ?_⟩
    rcases hkept.2 hunpolled with hwaits | ⟨k', htaken⟩
    · exact hedit.waits hwaits
    · exact .inr ⟨k', hturned.popped htaken⟩
  obtain ⟨d, ⟨hturn, hwaits⟩, hpopped, hworld⟩ :=
    Moment.follows hkeeps actions hstep hrest hneat hheard
    ⟨.waiting hyielded.turns (fun g hg => .inr hg) nofun,
      fun hunpolled => .inl ⟨hyielded.made, hyielded.suspended, hunpolled⟩⟩
  exact ⟨d, hturn, hwaits, hpopped, hworld⟩

variable {actions : List Action}

/-- A frame that has yielded is on the lists of its worker until it is taken. -/
theorem listed (h : Reach allowed m) (hapart : ∀ m action, allowed m action → m.Apart action)
    (hyields : m.Yields k f) (hadmits : m.Admits allowed (.step :: actions))
    (huntaken : ∀ p ∈ m.step.popsAfter actions, p.2 ≠ f)
    (hlive : (m.step.after actions).session.aborted = none) :
    f ∈ (m.step.after actions).world.runLists.turns k := by
  obtain ⟨d, hturn, -, hpopped, hworld⟩ := h.inTurn hapart hyields hadmits
  rw [← hpopped] at huntaken
  rw [← (hworld hlive).1]
  cases hturn with
  | waiting hturns => simp [hturns]
  | taken htaken =>
    obtain ⟨p, hp, hf⟩ := htaken
    exact absurd hf (huntaken p hp)

/-- Nobody polls a frame that has yielded until it is taken. -/
theorem unpolled (h : Reach allowed m) (hapart : ∀ m action, allowed m action → m.Apart action)
    (hyields : m.Yields k f) (hadmits : m.Admits allowed (.step :: actions))
    (huntaken : ∀ p ∈ m.step.popsAfter actions, p.2 ≠ f) {action : Action} {later : List Action}
    (hlater : (m.step.after actions).Admits allowed (action :: later)) :
    f ∉ polls (m.step.after actions).thread.stack ∧
      ((m.step.after actions).world.frame f).stage = .suspended := by
  have hqueued : m.step.world.runLists.queued f = true := by
    obtain ⟨asked, hasked⟩ := (h.next hadmits.1 hadmits.2.1).asked
    have hyielded := h.yielded hapart hyields hadmits.1 hadmits.2.1
    refine (hasked.heard hyielded.live).2.lists.queued_of_turns (k := k) ?_
    show f ∈ m.step.world.runLists.turns k
    simp [hyielded.turns]
  have hfirst : f ∉ polls m.step.thread.stack := by
    cases actions with
    | nil => exact hlater.unpolled hapart hqueued
    | cons next rest => exact hadmits.2.2.unpolled hapart hqueued
  obtain ⟨d, -, hwaits, hpopped, hworld⟩ := h.inTurn hapart hyields hadmits
  obtain ⟨hworld, hpolled⟩ := hworld hlater.1.live
  rw [← hpopped] at huntaken
  rcases hwaits hfirst with hwaits | ⟨k', htaken⟩
  · exact ⟨hpolled ▸ hwaits.unpolled, hworld ▸ hwaits.suspended⟩
  · exact absurd rfl (huntaken _ htaken)

/-- What had its turn before a frame that yields is taken before it. -/
theorem ahead_taken (h : Reach allowed m) (hapart : ∀ m action, allowed m action → m.Apart action)
    (hyields : m.Yields k f) (hadmits : m.Admits allowed (.step :: actions))
    (htaken : f ∈ (m.step.popsAfter actions).map Prod.snd) {g : FrameId}
    (hg : g ∈ (m.thread.acted m.world).runLists.turns k) :
    (k, g) ∈ (m.step.popsAfter actions).takeWhile fun p => p.2 != f := by
  obtain ⟨d, hturn, -, hpopped, -⟩ := h.inTurn hapart hyields hadmits
  rw [← hpopped] at htaken ⊢
  cases hturn with
  | waiting hturns hahead huntaken =>
    obtain ⟨p, hp, hf⟩ := List.mem_map.mp htaken
    exact absurd hf (huntaken p hp)
  | taken _ hahead => exact hahead g hg

/-- A frame that yields while another one waits has its turn after that one. -/
theorem ahead_of_later (h : Reach allowed m)
    (hapart : ∀ m action, allowed m action → m.Apart action)
    (hyields : m.Yields k f) (hadmits : m.Admits allowed (.step :: actions))
    (huntaken : ∀ p ∈ m.step.popsAfter actions, p.2 ≠ f) {later : List Action}
    (hlater : (m.step.after actions).Admits allowed (.step :: later)) {g : FrameId}
    (hyields' : (m.step.after actions).Yields k g) :
    f ∈ ((m.step.after actions).thread.acted (m.step.after actions).world).runLists.turns k := by
  obtain ⟨outer, below, hstack⟩ := hyields'.polled
  have hreach : Reach allowed (m.step.after actions) :=
    (h.next hadmits.1 hadmits.2.1).after hadmits.2.2
  have hyielded := hreach.yielded hapart hyields' hlater.1 hlater.2.1
  have hne : f ≠ g := by
    rintro rfl
    refine (h.unpolled hapart hyields hadmits huntaken hlater).1 ?_
    rw [hstack]
    exact List.mem_cons_self
  have hnone : (m.step.after actions).pops .step = [] := by
    show Thread.pops _ _ = []
    rw [Thread.pops, hstack]
  -- nothing is taken in the step that yields, so the first frame is still there after it
  have hadmits' : m.Admits allowed (.step :: (actions ++ [.step])) :=
    ⟨hadmits.1, hadmits.2.1, hadmits.2.2.append ⟨hlater.1, hlater.2.1, trivial⟩⟩
  have hafter : m.step.after (actions ++ [.step]) = (m.step.after actions).step :=
    Moment.after_append m.step actions [.step]
  have huntaken' : ∀ p ∈ m.step.popsAfter (actions ++ [.step]), p.2 ≠ f := by
    rw [Moment.popsAfter_append, Moment.popsAfter, hnone, Moment.popsAfter, List.append_nil,
      List.append_nil]
    exact huntaken
  have hlisted := h.listed hapart hyields hadmits' huntaken' (hafter ▸ hyielded.live)
  rw [hafter, hyielded.turns, List.mem_append, List.mem_singleton] at hlisted
  exact hlisted.resolve_right hne

/-- The step in which a frame that waits is taken. -/
theorem taken_resumes (h : Reach allowed m) (hapart : ∀ m action, allowed m action → m.Apart action)
    (hyields : m.Yields k f) (hadmits : m.Admits allowed (.step :: actions))
    (huntaken : ∀ p ∈ m.step.popsAfter actions, p.2 ≠ f) {later : List Action}
    (hlater : (m.step.after actions).Admits allowed (.step :: later)) {k' : WorkerId}
    (hpops : (m.step.after actions).pops .step = [(k', f)]) : k' = k ∧
      (((m.step.after actions).world.frame f).alive = true →
        (m.step.after actions).step.thread.polling = some f) := by
  obtain ⟨-, hsuspended⟩ := h.unpolled hapart hyields hadmits huntaken hlater
  have hlisted := h.listed hapart hyields hadmits huntaken hlater.1.live
  have hreach : Reach allowed (m.step.after actions) :=
    (h.next hadmits.1 hadmits.2.1).after hadmits.2.2
  obtain ⟨asked, hasked⟩ := hreach.asked
  have hlists : (m.step.after actions).world.runLists.Sound := (hasked.heard hlater.1.live).2.lists
  obtain ⟨outer, count, below, w, hstack, hnext⟩ := Moment.pops_eq hpops
  have hfirst := (World.nextFrame_turns hlists hnext).1
  refine ⟨hlists.turns_disjoint (by rw [hfirst]; exact List.mem_cons_self) hlisted,
    fun halive => ?_⟩
  have hframe : w.frame f = (m.step.after actions).world.frame f := by
    rw [World.nextFrame_same hnext]
    rfl
  show ((m.step.after actions).thread.step (m.step.after actions).world).2.1.polling = _
  simp only [Thread.step, hstack, hnext, hframe, halive, Frame.isComplete, hsuspended]
  rfl

/-- When a frame yields, it goes on top of the deferred list of its worker.  Before a worker takes
it again, the first one takes every other frame that was on its lists; and a frame that yields
later, while the first one waits, is taken later.  Whoever takes the frame is its worker, which
resumes it unless it was destroyed in the meantime.  All this holds whatever else happens, provided
no frame is scheduled while it is polled. -/
theorem yielding_frames_take_turns (h : Reach allowed m)
    (hapart : ∀ m action, allowed m action → m.Apart action) (hyields : m.Yields k f)
    (hadmits : m.Admits allowed (.step :: actions)) :
    m.step.world.runLists.toList (deferredList k) =
      f :: (m.thread.acted m.world).runLists.toList (deferredList k) ∧
    (f ∈ (m.step.popsAfter actions).map Prod.snd → ∀ g, g ≠ f →
      (g ∈ m.step.world.runLists.toList (readyList k) ∨
        g ∈ m.step.world.runLists.toList (deferredList k)) →
      (k, g) ∈ (m.step.popsAfter actions).takeWhile fun p => p.2 != f) ∧
    (f ∉ (m.step.popsAfter actions).map Prod.snd → ∀ later,
      (m.step.after actions).Admits allowed (.step :: later) →
      (∀ g, (m.step.after actions).Yields k g →
        g ∈ ((m.step.after actions).step.popsAfter later).map Prod.snd →
        (k, f) ∈ ((m.step.after actions).step.popsAfter later).takeWhile fun p => p.2 != g) ∧
      ∀ k', (m.step.after actions).pops .step = [(k', f)] → k' = k ∧
        (((m.step.after actions).world.frame f).alive = true →
          (m.step.after actions).step.thread.polling = some f)) := by
  have hyielded := h.yielded hapart hyields hadmits.1 hadmits.2.1
  refine ⟨(hyielded.lists _).trans (if_pos rfl), fun htaken g hne hg => ?_,
    fun hnot later hlater => ?_⟩
  · refine h.ahead_taken hapart hyields hadmits htaken ?_
    rw [← RunLists.mem_turns, hyielded.turns, List.mem_append, List.mem_singleton] at hg
    exact hg.resolve_right hne
  · have huntaken : ∀ p ∈ m.step.popsAfter actions, p.2 ≠ f := by
      intro p hp hf
      exact hnot (List.mem_map.mpr ⟨p, hp, hf⟩)
    refine ⟨fun g hyields' htaken => ?_, fun k' => h.taken_resumes hapart hyields hadmits
      huntaken hlater⟩
    have hreach : Reach allowed (m.step.after actions) :=
      (h.next hadmits.1 hadmits.2.1).after hadmits.2.2
    exact hreach.ahead_taken hapart hyields' hlater htaken
      (h.ahead_of_later hapart hyields hadmits huntaken hlater hyields')

end Reach

/-- Of three frames, the first has returned and the second is about to yield. -/
def queueing : Moment :=
  ({ session := { world := { bodies := ((Registers.empty.set "a" [.yield, .log "a"]).set "b"
    [.yield, .spawn "c" 0, .yield]).set "c" [.log "c"] } } } : Moment).after
    ([.call (.spawn "w" "b" 0), .call (.spawn "w" "a" 0), .call (.spawn "w" "c" 0),
      .call (.pump "w")] ++
      List.replicate 5 .step)

/-- The second frame yields, then the third one; they are resumed in this order. -/
theorem yielding_frames_take_turns_queueing :
    Reach Moment.Apart queueing ∧ queueing.Yields 0 1 ∧
      queueing.Admits Moment.Apart (.step :: List.replicate 4 .step) ∧
      (0, 0) ∈ (queueing.step.popsAfter (List.replicate 4 .step)).takeWhile (fun p => p.2 != 1) ∧
      (queueing.step.after [.step, .step]).Yields 0 0 ∧
      (0, 1) ∈ ((queueing.step.after [.step, .step]).step.popsAfter
        (List.replicate 5 .step)).takeWhile (fun p => p.2 != 0) ∧
      (queueing.step.after (List.replicate 3 .step)).step.thread.polling = some 1 := by
  have h : Reach Moment.Apart queueing := (Reach.start _).after (by decide +kernel)
  have hyields : queueing.Yields 0 1 :=
    ⟨⟨none, [.pump 0 none 2], by decide +kernel⟩, rfl, by decide +kernel⟩
  have hyields' : (queueing.step.after [.step, .step]).Yields 0 0 :=
    ⟨⟨none, [.pump 0 none 3], by decide +kernel⟩, rfl, by decide +kernel⟩
  have hadmits : queueing.Admits Moment.Apart (.step :: List.replicate 4 .step) := by decide +kernel
  obtain ⟨-, hahead, -⟩ := h.yielding_frames_take_turns (fun _ _ => id) hyields hadmits
  obtain ⟨-, -, hlater⟩ := h.yielding_frames_take_turns (fun _ _ => id) hyields
    (show queueing.Admits Moment.Apart [.step, .step, .step] by decide +kernel)
  obtain ⟨-, -, hresumes⟩ := h.yielding_frames_take_turns (fun _ _ => id) hyields
    (show queueing.Admits Moment.Apart (.step :: List.replicate 3 .step) by decide +kernel)
  refine ⟨h, hyields, hadmits, hahead (by decide +kernel) 0 (by decide) (.inl (by decide +kernel)),
    hyields', ?_, ?_⟩
  · exact (hlater (by decide +kernel) (List.replicate 5 .step) (by decide +kernel)).1 0 hyields'
      (by decide +kernel)
  · exact ((hresumes (by decide +kernel) [] (by decide +kernel)).2 0 (by decide +kernel)).2
      (by decide +kernel)

end Substrate.Coro
