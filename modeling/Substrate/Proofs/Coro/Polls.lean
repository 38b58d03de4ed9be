import Substrate.Proofs.Coro.Threads

/-!
# The end of a poll

A poll ends when the body waits or when it returns.  `Outcome` is how things
stand after a step of a thread: the frames and workers are settled again, and
each frame went where it could (`Turn`), or a body has raised and everything
ended.

* `suspend_outcome`: a frame that waits goes where it has asked to go.
* `dispose_outcome`: the frame that awaits a body that returned is woken, or the
  frame of that body is destroyed.
-/

namespace Substrate.Coro

/-- The frame whose body a thread runs next. -/
def Thread.polling (t : Thread) : Option FrameId :=
  match t.stack with
  | .poll _ f _ :: _ => some f
  | _ => none

/-- The worker that a thread runs a body for. -/
def Thread.pollingFor (t : Thread) : Option WorkerId :=
  match t.stack with
  | .poll k _ _ :: _ => some k
  | _ => none

/-- The frame whose body returns in the next step of a thread. -/
def Thread.returning (t : Thread) (w : World) : Option FrameId :=
  t.polling.filter fun f => (w.frame f).wait.isNone && (w.frame f).code.isEmpty

/-- The result with which a body returns in the next step of a thread. -/
def Thread.yields (t : Thread) (w : World) : List (FrameId × Output) :=
  (t.returning w).toList.map fun f => (f, ⟨(w.frame f).acc, (w.frame f).guard⟩)

/-- Between two steps, every frame is in its place and every worker as the thread says. -/
structure Settled (w : World) (t : Thread) (taken : List FrameId)
    (returned : List (FrameId × Output)) (spot : FrameId → Spot) : Prop where
  layout : Layout w (t.around taken returned) spot
  orderly : Orderly w t.worker t.stack

/-- Where frame `g` goes in a step. -/
inductive Turn (w : World) (t : Thread) (w' : World) (progress : Progress) (g : FrameId)
    (s s' : Spot) : Prop
  /-- The step is not about it. -/
  | goes (h : Goes w w' s s')
  /-- Its body waits for a frame that is going to wake it. -/
  | waits {c : FrameId} (htop : t.polling = some g) (hwanted : w.wanted g = some c)
    (hfree : (w.frame c).continuation = none) (hs' : s' = .awaiting c)
  /-- Its body waits for a frame that is going to wake another one. -/
  | refused {c other : FrameId} (htop : t.polling = some g) (hwanted : w.wanted g = some c)
    (htaken : (w.frame c).continuation = some other) (hs' : s' = .adrift)
  /-- It asked for a slot that is occupied. -/
  | failed {e : Fault} (hprogress : progress = .failed e) (hs' : s' = .adrift)
  /-- The frame it waits for returns, and the worker of that frame has it ready. -/
  | woken {c : FrameId} {k : WorkerId} (hreturning : t.returning w = some c) (hs : s = .awaiting c)
    (hs' : s' = .listed (readyList k)) (hworker : t.pollingFor = some k)
  /-- Its body returns. -/
  | returns (hreturning : t.returning w = some g) (hs' : s' = .complete ∨ s' = .absent)

/-- A body has raised. -/
def Progress.isAborted : Progress → Bool
  | .aborted _ => true
  | _ => false

/-- How things stand after a step. -/
inductive Outcome (w : World) (t : Thread) (taken : List FrameId)
    (returned : List (FrameId × Output)) (spot : FrameId → Spot) :
    World × Thread × Progress → Prop
  | settled {w' : World} {t' : Thread} {progress : Progress} {spot' : FrameId → Spot}
    (hprogress : progress.isAborted = false)
    (h : Settled w' t' taken (t.yields w ++ returned) spot')
    (hturn : ∀ g, Turn w t w' progress g (spot g) (spot' g)) :
    Outcome w t taken returned spot (w', t', progress)
  | aborted {w' : World} {t' : Thread} {e : Fault} (hyields : t.yields w = [])
    (h : Abandoned spot returned w') : Outcome w t taken returned spot (w', t', .aborted e)

/-! ## Waiting -/

theorem Fits.suspend {fr : Frame} {s : Spot} (h : Fits fr .polled) (hs : s.IsPending)
    (hstage : s.Allows .suspended) : Fits { fr with stage := .suspended } s := by
  have hlive : s ≠ .absent ∧ s ≠ .unstarted ∧ s ≠ .complete := by
    refine ⟨?_, ?_, ?_⟩ <;> (rintro rfl; exact hs)
  refine ⟨⟨fun _ => hlive.1, fun _ => h.alive.mpr (by rintro ⟨⟩)⟩, hstage, ?_, ?_, h.keeps, ?_, ?_,
    h.solitary, h.names⟩
  · rintro (e | e | e)
    · exact absurd e hlive.1
    · exact absurd e hlive.2.1
    · exact absurd e hlive.2.2
  · rintro (e | e)
    · exact absurd e hlive.2.1
    · exact absurd e hlive.2.2
  · intro _
    rw [if_neg hlive.2.2]
    exact h.output id
  · intro _ _
    exact h.retired (by rintro ⟨⟩) id

/-- A frame that is in hand gets another stage. -/
theorem Layout.setStage {w : World} {a : Around} {spot : FrameId → Spot} (h : Layout w a spot)
    {f : FrameId} (hf : (spot f).IsHand) (hrunning : (w.frame f).stage = .running) :
    Layout (w.modifyFrame f fun frame => { frame with stage := .suspended }) a spot := by
  have hfits := h.frames f
  have hne : spot f ≠ .absent := fun e => by rw [e] at hf; exact hf
  have hallows : (spot f).Allows .suspended := by
    cases hspot : spot f <;> simp_all [Spot.IsHand, Spot.Allows]
  refine h.modifyFrame hne rfl rfl rfl ?_ { hfits with stage := hallows } fun c b => rfl
  intro g o
  split
  · rename_i hg
    subst hg
    rw [h.returned, hrunning]
    simp
  · rfl

section Suspend

variable {w₀ w : World} {t : Thread} {k : WorkerId} {f : FrameId} {outer : Option FrameId}
  {taken : List FrameId} {returned : List (FrameId × Output)} {spot₀ spot : FrameId → Spot}

/-- The worker takes back the poll and the request that was left with it. -/
def released (w : World) (k : WorkerId) (f : FrameId) (outer : Option FrameId) : World :=
  ((Thread.endPoll w k outer).modifyFrame f fun frame =>
    { frame with stage := .suspended }).modifyWorker k fun worker =>
      { worker with suspension := none }

theorem released_orderly (horderly : Orderly w₀ (some k) (.poll k f outer :: t.stack))
    (hasking : Asking w₀ spot₀ k f (w₀.wanted f) w spot) :
    Orderly (released w k f outer) (some k) t.stack := by
  have hworker : ∀ k', ∃ stats, (released w k f outer).worker k' =
      if k' = k then { w.worker k' with current := outer, suspension := none, stats }
      else w.worker k' := by
    intro k'
    refine ⟨{ (w.worker k').stats with resumed := (w.worker k').stats.resumed + 1 }, ?_⟩
    rw [released, World.worker_modifyWorker]
    show (if k' = k then { (Thread.endPoll w k outer).worker k' with suspension := none }
      else (Thread.endPoll w k outer).worker k') = _
    rw [Thread.endPoll, World.worker_modifyWorker]
    split <;> rfl
  refine horderly.endPoll (fun k' => ?_) (fun k' => ?_) (fun k' => ?_) hasking.workerCount
    hasking.workerNames
  all_goals
    obtain ⟨stats, e⟩ := hworker k'
    rw [e]
  · split
    · rfl
    · exact hasking.current k'
  · split
    · rfl
    · rename_i hk
      rw [hasking.suspension k' hk, horderly.idle]
  · split <;> exact (hasking.retired k').trans (horderly.retired k')

theorem released_layout (outer : Option FrameId)
    (hlayout : Layout w { t.around taken returned with hand := [f] } spot)
    (hasking : Asking w₀ spot₀ k f (w₀.wanted f) w spot) :
    Layout (released w k f outer) { t.around taken returned with hand := [f] } spot := by
  have hpoll : Layout (Thread.endPoll w k outer) { t.around taken returned with hand := [f] }
      spot :=
    hlayout.of_agrees ⟨fun _ => rfl, rfl, rfl, rfl, rfl, rfl⟩
  have hrunning : (w.frame f).stage = .running := hasking.fits.stage
  have hstage := hpoll.setStage ((hlayout.hand f).mp List.mem_cons_self) hrunning
  exact hstage.of_agrees ⟨fun _ => rfl, rfl, rfl, rfl, rfl, rfl⟩

theorem frame_released (w : World) (k : WorkerId) (f : FrameId) (outer : Option FrameId)
    (g : FrameId) : (released w k f outer).frame g =
      if g = f then { w.frame g with stage := .suspended } else w.frame g :=
  World.frame_modifyFrame w f g _

/-- What becomes of the other frames while frame `f` waits. -/
theorem Asking.turn (hasking : Asking w₀ spot₀ k f (w₀.wanted f) w spot) {w' : World}
    (hdisposal : ∀ g, (w'.frame g).disposal = (w.frame g).disposal) {t₀ : Thread}
    {progress : Progress} {s : Spot} (hself : Turn w₀ t₀ w' progress f (spot₀ f) s) (g : FrameId) :
    Turn w₀ t₀ w' progress g (spot₀ g) (put spot f s g) := by
  by_cases hg : g = f
  · rw [hg, put_self]
    exact hself
  · rw [put_of_ne _ _ hg]
    exact .goes ((hasking.goes g hg).of_disposal hdisposal)

/-- The worker disposes of nothing and goes on. -/
theorem Settled.drain {w₁ : World} {spot₁ : FrameId → Spot}
    (h : Settled w₁ t taken returned spot₁) (p : Place) (k : WorkerId) :
    Settled (w₁.drainRetired p k) t taken returned spot₁ :=
  ⟨h.layout.of_agrees (w₁.drainRetired_agrees p (h.orderly.retired k)),
    h.orderly.of_steady (w₁.steady_drainRetired p (h.orderly.retired k))⟩

/-- A frame that waits goes where its request says. -/
theorem suspend_eq (w : World) (t : Thread) (k : WorkerId) (f : FrameId) (outer : Option FrameId) :
    Thread.suspend w t k f outer =
      match (w.worker k).suspension with
      | none => ((released w k f outer).drainRetired t.toPlace k, t, .running)
      | some .turn =>
        ((((released w k f outer).defer k f).count k fun s =>
          { s with yielded := s.yielded + 1 }).drainRetired t.toPlace k, t, .running)
      | some (.park slot token) =>
        let w := ((released w k f outer).count k fun s => { s with parked := s.parked + 1 }).emit
          (.park f token)
        match w.publish slot f with
        | .error e => Thread.unwind w t e t.stack
        | .ok w =>
          if token.isNone then (w.drainRetired t.toPlace k, t, .running)
          else (w, { t with stack := .release k token :: t.stack }, .running) := by
  have hasked : ((((Thread.endPoll w k outer).modifyFrame f fun frame =>
      { frame with stage := .suspended })).worker k).suspension = (w.worker k).suspension := by
    show ((Thread.endPoll w k outer).worker k).suspension = _
    rw [Thread.endPoll, World.worker_modifyWorker, if_pos rfl]
  unfold Thread.suspend
  simp only [hasked]
  rfl

/-- Frame `f` has gone to place `s`, and its worker goes on. -/
theorem Asking.outcome (hasking : Asking w₀ spot₀ k f (w₀.wanted f) w spot) {t₀ : Thread}
    {w₁ : World} {s : Spot}
    (hyields : t₀.yields w₀ = []) (hlayout : Layout w₁ (t.around taken returned) (put spot f s))
    (horderly : Orderly w₁ t.worker t.stack)
    (hdisposal : ∀ g, (w₁.frame g).disposal = (w.frame g).disposal)
    (hself : ∀ w', Turn w₀ t₀ w' .running f (spot₀ f) s) :
    Outcome w₀ t₀ taken returned spot₀ (w₁.drainRetired t.toPlace k, t, .running) := by
  have hsettled : Settled w₁ t taken (t₀.yields w₀ ++ returned) (put spot f s) := by
    rw [hyields]
    exact ⟨hlayout, horderly⟩
  refine .settled rfl (hsettled.drain t.toPlace k) (hasking.turn (fun g => ?_) (hself _))
  rw [(w₁.drainRetired_agrees _ (horderly.retired k)).frame, hdisposal]

/-- A frame that waits goes where it has asked to go. -/
theorem suspend_outcome (hworker : t.worker = some k)
    (horderly : Orderly w₀ (some k) (.poll k f outer :: t.stack))
    (hlayout : Layout w { t.around taken returned with hand := [f] } spot)
    (hasking : Asking w₀ spot₀ k f (w₀.wanted f) w spot) (hpolled : spot₀ f = .polled)
    (hyields : ({ t with stack := .poll k f outer :: t.stack } : Thread).yields w₀ = []) :
    Outcome w₀ { t with stack := .poll k f outer :: t.stack } taken returned spot₀
      (Thread.suspend w t k f outer) := by
  have hlayout₁ := released_layout outer hlayout hasking
  have horderly₁ := released_orderly (t := t) horderly hasking
  have hframe := frame_released w k f outer
  have hfits : ∀ {s : Spot}, s.IsPending → s.Allows .suspended →
      Fits ((released w k f outer).frame f) s := by
    intro s hs hstage
    rw [hframe, if_pos rfl]
    exact hasking.fits.suspend hs hstage
  have hdisposal : ∀ g, ((released w k f outer).frame g).disposal = (w.frame g).disposal := by
    intro g
    rw [hframe]
    split <;> rfl
  have hmade : k < (released w k f outer).workerCount := by
    show k < w.workerCount
    rw [hasking.workerCount]
    exact horderly.made _ List.mem_cons_self
  -- a frame that goes on a list or into a slot is active before and after
  have hactive : ∀ {s : Spot} (w' : World), s.IsPending → s.child = none → s ≠ .adrift →
      Turn w₀ { t with stack := .poll k f outer :: t.stack } w' .running f (spot₀ f) s :=
    fun _ hs hchild hne => .goes (.of_active _ _ (by rw [hpolled]; exact id) hs hchild hne)
  rw [suspend_eq]
  have hrequest := hasking.request
  generalize hspot : spot f = s at hrequest
  generalize (w.worker k).suspension = asked at hrequest ⊢
  generalize released w k f outer = w₁ at *
  have hentered : Orderly w₁ t.worker t.stack := hworker ▸ horderly₁
  cases hrequest with
  | frame htarget hfree =>
    rename_i c
    refine hasking.outcome hyields ?_ hentered hdisposal fun _ => .waits rfl htarget hfree rfl
    exact hlayout₁.settle (a := t.around taken returned) (.inr ⟨c, rfl⟩) (by rw [hspot]; rfl)
      (hfits trivial rfl)
  | refused htarget htaken =>
    refine hasking.outcome hyields ?_ hentered hdisposal fun _ => .refused rfl htarget htaken rfl
    exact hlayout₁.settle (a := t.around taken returned) (.inl rfl) (by rw [hspot]; rfl)
      (hfits trivial rfl)
  | worker request =>
    cases request with
    | turn =>
      have hdeferred : Layout (w₁.defer k f) (t.around taken returned)
          (put spot f (.listed (deferredList k))) := hlayout₁.defer hspot (hfits trivial (.inr rfl))
      have hsteady : w₁.Steady (w₁.defer k f) := .of_workers rfl rfl rfl
      exact hasking.outcome hyields (hdeferred.of_agrees ⟨fun _ => rfl, rfl, rfl, rfl, rfl, rfl⟩)
        (hentered.of_steady (hsteady.trans (World.steady_count _ k _))) hdisposal
        fun w' => hactive w' trivial rfl nofun
    | park slot token =>
      have hagrees : w₁.Agrees ((w₁.count k fun s => { s with parked := s.parked + 1 }).emit
          (.park f token)) := ⟨fun _ => rfl, rfl, rfl, rfl, rfl, rfl⟩
      have hsteady : w₁.Steady ((w₁.count k fun s => { s with parked := s.parked + 1 }).emit
          (.park f token)) := by
        have hemit : (w₁.count k fun s => { s with parked := s.parked + 1 }).Steady
            ((w₁.count k fun s => { s with parked := s.parked + 1 }).emit (.park f token)) :=
          .of_workers rfl rfl rfl
        exact (w₁.steady_count k _).trans hemit
      simp only
      generalize (w₁.count k fun s => { s with parked := s.parked + 1 }).emit (.park f token) = w₂
        at hagrees hsteady ⊢
      have hlayout₂ := hlayout₁.of_agrees hagrees
      rw [← hagrees.frame] at hfits
      have hdisposal₂ : ∀ g, (w₂.frame g).disposal = (w.frame g).disposal := by
        intro g
        rw [hagrees.frame, hdisposal]
      have hentered₂ := hentered.of_steady hsteady
      cases hslot : w₂.slot slot with
      | none =>
        rw [World.publish, hslot]
        simp only
        have hpublished : Layout (w₂.setSlot slot (some f)) (t.around taken returned)
            (put spot f (.slotted slot)) := hlayout₂.publish hspot hslot (hfits trivial rfl)
        have hentered₃ : Orderly (w₂.setSlot slot (some f)) t.worker t.stack :=
          hentered₂.of_steady (.of_workers rfl rfl rfl)
        split
        · exact hasking.outcome hyields hpublished hentered₃ hdisposal₂ fun w' =>
            hactive w' trivial rfl nofun
        · have hk : k < (w₂.setSlot slot (some f)).workerCount := by
            show k < w₂.workerCount
            rw [hsteady.workerCount]
            exact hmade
          rw [hworker] at hentered₃
          refine .settled rfl ⟨by rw [hyields]; exact hpublished, ?_⟩
            (hasking.turn ?_ (hactive (s := .slotted slot) _ trivial rfl nofun))
          · show Orderly _ t.worker _
            rw [hworker]
            exact hentered₃.release hk token
          · exact hdisposal₂
      | some occupant =>
        rw [World.publish, hslot]
        simp only
        have hlost : Layout w₂ (t.around taken returned) (put spot f .adrift) :=
          hlayout₂.settle (a := t.around taken returned) (.inl rfl) (by rw [hspot]; rfl)
            (hfits trivial rfl)
        rcases unwind_cases (a := t.around taken returned) rfl rfl
          (.invalidParkSlot (frameNumber occupant)) t.stack hlost hentered₂.retired hentered₂.nested
          with ⟨w', spot', hunwind, hlayout', hmoves, hsteady', hcurrent⟩ |
            ⟨w', t', e', hunwind, a', spot', hlayout', hpending, hreturned⟩
        · rw [hunwind]
          have hsettled : Settled w' ⟨⟨t.thread, none⟩, []⟩ taken
              (Thread.yields { t with stack := .poll k f outer :: t.stack } w₀ ++ returned)
              spot' := by
            rw [hyields]
            exact ⟨hlayout', hentered₂.unwound hsteady' hcurrent⟩
          refine .settled rfl hsettled fun g => ?_
          by_cases hg : g = f
          · subst hg
            have hself' := hmoves.goes g
            rw [put_self] at hself'
            by_cases hadrift : spot' g = .adrift
            · exact .failed rfl hadrift
            · refine .goes
                (.of_active _ _ (by rw [hpolled]; exact id) (hself'.pending trivial) ?_ hadrift)
              cases hchild : (spot' g).child with
              | none => rfl
              | some c => exact absurd (hself'.child c hchild).symm hadrift
          · have hother := hmoves.goes g
            rw [put_of_ne _ _ hg] at hother
            refine .goes (((hasking.goes g hg).of_disposal hdisposal₂).trans (fun c => ?_) hother)
            rw [hdisposal₂, hasking.disposal]
        · rw [hunwind]
          refine .aborted hyields ⟨a', spot', hlayout', fun g hg => hpending g ?_, hreturned⟩
          by_cases hg' : g = f
          · rw [hg', put_self]
            trivial
          · rw [put_of_ne _ _ hg']
            exact (hasking.goes g hg').pending hg

end Suspend

/-! ## Returning -/

section Dispose

variable {w : World} {a : Around} {t : Thread} {k : WorkerId} {f : FrameId} {outer : Option FrameId}
  {taken : List FrameId} {returned : List (FrameId × Output)} {spot : FrameId → Spot}

/-- The world after a body let go of its own tasks. -/
def bereft (w : World) (p : Place) (f : FrameId) : World :=
  (w.modifyFrame f fun frame => { frame with tasks := [] }).dropTasks p
    ((w.frame f).tasks.map Prod.snd)

/-- A body that returns lets go of its tasks, and then its worker takes back the poll. -/
theorem finish_eq (w : World) (p : Place) (k : WorkerId) (f : FrameId) (outer : Option FrameId) :
    ∃ log inFlight, Thread.finish w p k f outer =
      ((Thread.endPoll { bereft w p f with log, inFlight } k outer).modifyFrame f fun frame =>
        { frame with
          stage := .complete
          output := if frame.keepsOutput then some ⟨(w.frame f).acc, (w.frame f).guard⟩
                       else none }).modifyWorker k fun worker =>
                       { worker with suspension := none } := by
  obtain ⟨log, hlog⟩ : ∃ log, (if (w.frame f).keepsOutput then bereft w p f
      else (bereft w p f).dropOutput p ⟨(w.frame f).acc, (w.frame f).guard⟩) =
      { bereft w p f with log } := by
    split
    · exact ⟨_, rfl⟩
    · exact Layout.dropOutput_eq _ _ _
  unfold Thread.finish
  simp only
  rw [show (w.modifyFrame f fun frame => { frame with tasks := [] }).dropTasks p
    ((w.frame f).tasks.map Prod.snd) = bereft w p f from rfl, hlog]
  split <;> exact ⟨_, _, rfl⟩

/-- A body that has returned has no tasks, and its frame is in the hands of the worker. -/
theorem finish_layout (k : WorkerId) (outer : Option FrameId) (p : Place)
    (hlayout : Layout w { a with polled := f :: a.polled } spot)
    (hspent : a.spent = []) (hhand : a.hand = []) (hwait : (w.frame f).wait = none) :
    ∃ spot' continuation disposal,
      Layout (Thread.finish w p k f outer)
        { a with hand := [f], returned := (f, ⟨(w.frame f).acc, (w.frame f).guard⟩) :: a.returned }
        (put spot' f (.hand none)) ∧
      spot' f = .polled ∧ Moves w spot (Thread.finish w p k f outer) spot' ∧
      w.Steady (bereft w p f) ∧
      (Thread.finish w p k f outer).frame f =
        { w.frame f with
          tasks := [], continuation, disposal, stage := .complete
          output := if (w.frame f).keepsOutput then
                           some ⟨(w.frame f).acc, (w.frame f).guard⟩ else none } := by
  obtain ⟨hself, hrunning⟩ := hlayout.running_of_polled List.mem_cons_self
  have hpending : (spot f).IsPending := by rw [hself]; trivial
  have hheld : (w.frame f).heldTasks = (w.frame f).tasks.map Prod.snd := by
    rw [Frame.heldTasks, hwait]
    rfl
  -- the tasks leave the body and are dropped
  have hloose : Layout (w.modifyFrame f fun frame => { frame with tasks := [] })
      { a with polled := f :: a.polled
               handles := (w.frame f).tasks.map Prod.snd ++ a.handles } spot := by
    refine hlayout.modifyBody hpending (by rw [hrunning]; rintro ⟨⟩)
      ⟨rfl, rfl, rfl, rfl, rfl, rfl, rfl, rfl⟩ (hlayout.frames f).solitary List.nodup_nil ?_
    intro c b
    have hnone : ({ w.frame f with tasks := [] } : Frame).heldTasks = [] := by
      rw [Frame.heldTasks, hwait]
      rfl
    rw [hheld, hnone]
    simp only [List.count_append, List.count_nil]
    omega
  obtain ⟨spot', hdropped, hdrops, -⟩ :=
    Layout.dropTasks (a := { a with polled := f :: a.polled }) p hloose (.inl hspent) hhand
  have hself' : spot' f = .polled := (hdropped.polled f).mp List.mem_cons_self
  obtain ⟨continuation, disposal, hframe⟩ := hdrops.record f (by rw [hself']; rintro ⟨⟩)
  rw [World.frame_modifyFrame, if_pos rfl] at hframe
  obtain ⟨log, inFlight, heq⟩ := finish_eq w p k f outer
  have hagrees : (bereft w p f).Agrees
      (Thread.endPoll { bereft w p f with log, inFlight } k outer) :=
    ⟨fun _ => rfl, rfl, rfl, rfl, rfl, rfl⟩
  have hfits := hdropped.frames f
  rw [hself'] at hfits
  have hleft := hdropped.unpoll.of_agrees hagrees
  rw [hhand] at hleft
  have hmoves : Moves w spot (bereft w p f) spot' :=
    Moves.trans hlayout (.of_frames (fun g => .refl _ _ _) fun g _ => by
      rw [World.frame_modifyFrame]; split <;> rfl) hdrops.toMoves
  rw [heq]
  generalize hw₁ : Thread.endPoll { bereft w p f with log, inFlight } k outer =
    w₁ at hagrees hleft ⊢
  have hframe₁ : w₁.frame f = { w.frame f with tasks := [], continuation, disposal } :=
    (hagrees.frame f).trans hframe
  have hfits₁ : Fits (w₁.frame f) .polled := by
    rw [hagrees.frame]
    exact hfits
  have hdone : Layout (w₁.modifyFrame f fun frame =>
      { frame with
        stage := .complete
        output := if frame.keepsOutput then some ⟨(w.frame f).acc, (w.frame f).guard⟩
                     else none })
      { a with hand := [f], returned := (f, ⟨(w.frame f).acc, (w.frame f).guard⟩) :: a.returned }
      (put spot' f (.hand none)) := by
    refine hleft.modifyFrame (by rw [put_self]; rintro ⟨⟩) rfl rfl rfl (fun g o => ?_) ?_ fun c b =>
      rfl
    · rw [hframe₁]
      split
      · rename_i hg
        subst hg
        have hfresh : (g, o) ∉ a.returned := fun hmem => by
          have := ((hlayout.returned g o).mp hmem).2.1
          rw [hrunning] at this
          cases this
        simp [hfresh]
      · rename_i hg
        simp [hg]
    · rw [put_self]
      exact ⟨hfits₁.alive.trans ⟨fun _ => by rintro ⟨⟩, fun _ => by rintro ⟨⟩⟩,
        trivial, by simp, by simp,
        hfits₁.keeps, fun hn => absurd trivial hn, fun _ hn => absurd trivial hn,
        hfits₁.solitary, hfits₁.names⟩
  refine ⟨spot', continuation, disposal,
    hdone.of_agrees ⟨fun _ => rfl, rfl, rfl, rfl, rfl, rfl⟩, hself', ?_, ?_, ?_⟩
  · refine hmoves.of_disposal fun g => ?_
    show ((w₁.modifyFrame f _).frame g).disposal = _
    rw [World.frame_modifyFrame, ← hagrees.frame]
    split <;> rfl
  · have hcleared : w.Steady (w.modifyFrame f fun frame => { frame with tasks := [] }) :=
      .of_workers rfl rfl rfl
    exact hcleared.trans hdrops.steady
  · show (w₁.modifyFrame f _).frame f = _
    rw [World.frame_modifyFrame, if_pos rfl, hframe₁]

theorem finish_orderly (p : Place) {stack : List Activity}
    (horderly : Orderly w (some k) (.poll k f outer :: stack)) (hsteady : w.Steady (bereft w p f)) :
    Orderly (Thread.finish w p k f outer) (some k) stack := by
  obtain ⟨log, inFlight, heq⟩ := finish_eq w p k f outer
  have hworker : ∀ k', ∃ stats, (Thread.finish w p k f outer).worker k' =
      if k' = k then { (bereft w p f).worker k' with current := outer, suspension := none, stats }
      else (bereft w p f).worker k' := by
    intro k'
    refine ⟨{ ((bereft w p f).worker k').stats with
      resumed := ((bereft w p f).worker k').stats.resumed + 1 }, ?_⟩
    rw [heq, World.worker_modifyWorker]
    show (if k' = k then { (Thread.endPoll _ k outer).worker k' with suspension := none }
      else (Thread.endPoll _ k outer).worker k') = _
    rw [Thread.endPoll, World.worker_modifyWorker]
    split <;> rfl
  refine horderly.endPoll (fun k' => ?_) (fun k' => ?_) (fun k' => ?_) ?_ ?_
  · obtain ⟨stats, e⟩ := hworker k'
    rw [e]
    split
    · rfl
    · exact hsteady.current k'
  · obtain ⟨stats, e⟩ := hworker k'
    rw [e]
    split
    · rfl
    · exact (hsteady.suspension k').trans (horderly.idle k')
  · obtain ⟨stats, e⟩ := hworker k'
    rw [e]
    split <;> exact (hsteady.retired k').trans (horderly.retired k')
  · rw [heq]
    exact hsteady.workerCount
  · rw [heq]
    exact hsteady.workerNames

/-- The world after the frame that waits for frame `f` went on the ready list of worker `k`. -/
def woken (w : World) (k : WorkerId) (f : FrameId) : World :=
  match (w.frame f).continuation with
  | some parent =>
    (w.modifyFrame f fun frame => { frame with continuation := none }).enqueue k parent
  | none => w.modifyFrame f fun frame => { frame with continuation := none }

theorem frame_woken (w : World) (k : WorkerId) (f g : FrameId) :
    (woken w k f).frame g =
      if g = f then { w.frame g with continuation := none } else w.frame g := by
  unfold woken
  split
  · rw [World.frame_enqueue, World.frame_modifyFrame]
  · rw [World.frame_modifyFrame]

theorem steady_woken (w : World) (k : WorkerId) (f : FrameId) : w.Steady (woken w k f) := by
  have hsteady : w.Steady (w.modifyFrame f fun frame => { frame with continuation := none }) :=
    .of_workers rfl rfl rfl
  unfold woken
  split
  · exact hsteady.trans (World.steady_enqueue _ _ _)
  · exact hsteady

theorem layout_woken (h : Layout w { a with hand := [f] } spot) (hf : spot f = .hand none)
    (k : WorkerId) :
    ∃ spot', Layout (woken w k f) { a with hand := [f] } spot' ∧
      ∀ g, spot' g = spot g ∨ spot g = .awaiting f ∧ spot' g = .listed (readyList k) := by
  unfold woken
  cases hcont : (w.frame f).continuation with
  | none =>
    refine ⟨spot, h.of_agrees ⟨fun g => ?_, rfl, rfl, rfl, rfl, rfl⟩, fun g => .inl rfl⟩
    rw [World.frame_modifyFrame]
    split
    · rename_i hg
      rw [hg, ← hcont]
    · rfl
  | some g =>
    have hchild := (h.awaiting f g).mp hcont
    have hgf : g ≠ f := by
      rintro rfl
      rw [hf] at hchild
      cases hchild
    have hg : spot g = .awaiting f := by
      cases hspot : spot g with
      | awaiting c =>
        rw [hspot] at hchild
        exact congrArg Spot.awaiting (Option.some.inj hchild)
      | hand child =>
        have := (h.hand g).mpr (by rw [hspot]; trivial)
        exact absurd (List.mem_singleton.mp this) hgf
      | _ =>
        rw [hspot] at hchild
        cases hchild
    have hfits := h.frames g
    rw [hg] at hfits
    have hstage : (w.frame g).stage = .suspended := hfits.stage
    have hwoken := (h.wake hcont hg).enqueue (a := { a with hand := [f] }) (k := k)
      (put_self _ _ _) ?_
    · refine ⟨_, hwoken, fun g' => ?_⟩
      by_cases hg' : g' = g
      · rw [hg', put_self]
        exact .inr ⟨hg, rfl⟩
      · rw [put_of_ne _ _ hg', put_of_ne _ _ hg']
        exact .inl rfl
    · rw [World.frame_modifyFrame, if_neg hgf]
      exact hfits.move (.inr trivial) id trivial (.inr hstage)

/-- A frame that is in hand is marked as retired. -/
theorem Layout.setRetired (h : Layout w a spot) (hf : spot f = .hand none) :
    Layout (w.modifyFrame f fun frame => { frame with retired := true }) a spot := by
  have hfits := h.frames f
  rw [hf] at hfits
  refine h.modifyFrame (by rw [hf]; nofun) rfl rfl rfl (fun g o => ?_) ?_ fun c b => rfl
  · split
    · rename_i hg
      rw [hg, h.returned]
      exact ⟨fun hr => hr.2, fun hr => ⟨h.lt_of_pending (by rw [hf]; trivial), hr⟩⟩
    · rfl
  · rw [hf]
    exact { hfits with retired := fun _ hn => absurd trivial hn }

/-- A detached frame that has returned and is in hand is destroyed. -/
theorem Layout.endRetired (h : Layout w { a with hand := [f] } spot) (p : Place)
    (hf : spot f = .hand none) (hheld : (w.frame f).heldTasks = [])
    (hdetached : (w.frame f).disposal = .detached) (hstage : (w.frame f).stage = .complete) :
    Layout ((w.modifyFrame f fun frame => { frame with retired := true }).endFrame p f .retired).1
      { a with hand := [] } (put spot f .absent) := by
  have hcont : (w.frame f).continuation = none := by
    cases hcont : (w.frame f).continuation with
    | none => rfl
    | some g =>
      rw [h.owned f g hcont] at hdetached
      cases hdetached
  have hframe : (w.modifyFrame f fun frame => { frame with retired := true }).frame f =
      { w.frame f with retired := true } := by
    rw [World.frame_modifyFrame, if_pos rfl]
  have hgone : Layout ((w.modifyFrame f fun frame =>
      { frame with retired := true }).endFrame p f .retired).1
      { a with hand := [f].erase f, handles := a.handles, spent := a.spent }
      (put spot f .absent) := by
    refine (h.setRetired hf).endFrame p (.inr (.inr hf)) ?_ ?_ ?_ fun c b => ?_
    · rw [hframe]
      exact hheld
    · rw [hframe]
      exact hcont
    · rw [hframe]
      exact ⟨hdetached, hstage⟩
    · rw [hframe, hf, hdetached]
      simp [Spot.owed]
  rw [List.erase_cons_head] at hgone
  exact hgone

/-- The world after frame `f` was put on the retire list of worker `k`. -/
def retiring (w : World) (k : WorkerId) (f : FrameId) : World :=
  (((w.emit (.retire f)).modifyFrame f fun frame => { frame with retired := true }).modifyWorker k
    fun worker => { worker with retired := f :: worker.retired }).count k
      fun s => { s with retired := s.retired + 1 }

theorem retire_eq (w : World) (k : WorkerId) {f : FrameId} (hfresh : (w.frame f).retired = false) :
    w.retire k f = .ok (retiring w k f) := by
  unfold World.retire
  simp only
  rw [show ((w.emit (.retire f)).frame f).retired = false from hfresh]
  rfl

theorem worker_retiring (w : World) (k : WorkerId) (f : FrameId) (k' : WorkerId) :
    ∃ stats, (retiring w k f).worker k' = if k' = k then
      { w.worker k' with retired := f :: (w.worker k').retired, stats } else w.worker k' := by
  rw [retiring, World.count, World.worker_modifyWorker, World.worker_modifyWorker]
  split
  · exact ⟨_, rfl⟩
  · exact ⟨(w.worker k').stats, rfl⟩

/-- A worker disposes of the one frame on its retire list. -/
theorem drainRetired_single (w : World) (p : Place) {k : WorkerId} {f : FrameId}
    (hretired : (w.worker k).retired = [f]) (hheld : (w.frame f).heldTasks = []) :
    w.drainRetired p k = ((((w.modifyWorker k fun worker => { worker with retired := [] }).emit
      (.destroyRetired f)).endFrame p f .retired).1.count k
        fun s => { s with destroyed := s.destroyed + 1 }) := by
  unfold World.drainRetired
  simp only [hretired, List.foldl_cons, List.foldl_nil, List.length_singleton]
  have hdestroy := World.destroy_eq ((w.modifyWorker k fun worker =>
    { worker with retired := [] }).emit (.destroyRetired f)) p .retired hheld
  rw [hdestroy]

/-- A frame that retires is destroyed at once. -/
theorem retire_drain (w : World) (p : Place) {k : WorkerId} {f : FrameId}
    (hretired : (w.worker k).retired = []) (hheld : (w.frame f).heldTasks = []) :
    ((w.modifyFrame f fun frame => { frame with retired := true }).endFrame p f .retired).1.Agrees
        ((retiring w k f).drainRetired p k) ∧
      w.Steady ((retiring w k f).drainRetired p k) := by
  have hframe : ∀ g, (retiring w k f).frame g =
      (w.modifyFrame f fun frame => { frame with retired := true }).frame g := fun g => rfl
  have hheld' : ((retiring w k f).frame f).heldTasks = [] := by
    rw [hframe, World.frame_modifyFrame, if_pos rfl]
    exact hheld
  have hlist : ((retiring w k f).worker k).retired = [f] := by
    obtain ⟨stats, e⟩ := worker_retiring w k f k
    rw [e, if_pos rfl]
    show f :: (w.worker k).retired = [f]
    rw [hretired]
  rw [drainRetired_single _ p hlist hheld']
  constructor
  · have hagrees : (w.modifyFrame f fun frame => { frame with retired := true }).Agrees
        (((retiring w k f).modifyWorker k fun worker => { worker with retired := [] }).emit
          (.destroyRetired f)) := ⟨fun _ => rfl, rfl, rfl, rfl, rfl, rfl⟩
    have hended := Layout.endFrame_congr hagrees p f .retired
    exact ⟨hended.frame, hended.frameCount, hended.ends, hended.runLists,
      hended.tasks, hended.slots⟩
  · have hcleared : w.Steady ((retiring w k f).modifyWorker k fun worker =>
        { worker with retired := [] }) := by
      refine ⟨fun k' => ?_, fun k' => ?_, fun k' => ?_, rfl, rfl⟩ <;>
        (obtain ⟨stats, e⟩ := worker_retiring w k f k'; rw [World.worker_modifyWorker, e])
      · split <;> rfl
      · split <;> rfl
      · split
        · rename_i hk
          rw [hk, hretired]
        · rfl
    have htraced :
        ((retiring w k f).modifyWorker k fun worker => { worker with retired := [] }).Steady
        (((retiring w k f).modifyWorker k fun worker => { worker with retired := [] }).emit
          (.destroyRetired f)) := .of_workers rfl rfl rfl
    exact ((hcleared.trans htraced).trans (Layout.steady_endFrame _ p f .retired)).trans
      (World.steady_count _ _ _)

/-- The frame that awaits a body that returned is woken, or the frame of that body is destroyed. -/
theorem dispose_outcome (hworker : t.worker = some k)
    (horderly : Orderly w (some k) (.poll k f outer :: t.stack))
    (hlayout : Layout w { t.around taken returned with polled := f :: polls t.stack } spot)
    (hwait : (w.frame f).wait = none) (hcode : (w.frame f).code = []) :
    Outcome w { t with stack := .poll k f outer :: t.stack } taken returned spot
      (Thread.dispose (Thread.finish w t.toPlace k f outer) t k f) := by
  have hreturning : ({ t with stack := .poll k f outer :: t.stack } : Thread).returning w =
      some f := by
    simp [Thread.returning, Thread.polling, hwait, hcode]
  have hyields : ({ t with stack := .poll k f outer :: t.stack } : Thread).yields w =
      [(f, ⟨(w.frame f).acc, (w.frame f).guard⟩)] := by
    rw [Thread.yields, hreturning]
    rfl
  have hfits := hlayout.frames f
  rw [(hlayout.polled f).mp List.mem_cons_self] at hfits
  obtain ⟨spot', continuation, disposal, hlayout', hself', hmoves, hsteady, hframe⟩ :=
    finish_layout (a := t.around taken returned) k outer t.toPlace hlayout rfl rfl hwait
  have horderly' : Orderly _ t.worker t.stack := hworker ▸ finish_orderly t.toPlace horderly hsteady
  generalize Thread.finish w t.toPlace k f outer = w₁ at hlayout' hmoves hframe horderly' ⊢
  have hheld : (w₁.frame f).heldTasks = [] := by
    rw [hframe, Frame.heldTasks, hwait]
    rfl
  unfold Thread.dispose
  cases hdisposal : (w₁.frame f).disposal with
  | awaited =>
    show Outcome _ _ _ _ _ ((woken w₁ k f).drainRetired t.toPlace k, t, .running)
    obtain ⟨spot₂, hwoken, hspots⟩ := layout_woken
      (a :=
      t.around taken
        (({ t with stack := .poll k f outer :: t.stack } : Thread).yields w ++ returned))
      (by rw [hyields]; exact hlayout') (put_self _ _ _) k
    have hframe₂ := frame_woken w₁ k f
    have hself₂ : spot₂ f = .hand none := by
      rcases hspots f with e | ⟨e, -⟩
      · rw [e, put_self]
      · rw [put_self] at e
        cases e
    have hcomplete := hwoken.complete hself₂ (by rw [hframe₂, if_pos rfl]) ?_
    · have hsettled : Settled (woken w₁ k f) t taken _ _ :=
        ⟨hcomplete, horderly'.of_steady (steady_woken w₁ k f)⟩
      refine .settled rfl (hsettled.drain t.toPlace k) fun g => ?_
      have hsame : ∀ g, (((woken w₁ k f).drainRetired t.toPlace k).frame g).disposal =
          (w₁.frame g).disposal := by
        intro g
        rw [(World.drainRetired_agrees _ _ (hsettled.orderly.retired k)).frame, hframe₂]
        split <;> rfl
      by_cases hg : g = f
      · rw [hg, put_self]
        exact .returns hreturning (.inl rfl)
      · rw [put_of_ne _ _ hg]
        rcases hspots g with e | ⟨e, e'⟩
        · rw [e, put_of_ne _ _ hg]
          exact .goes ((hmoves.goes g).of_disposal hsame)
        · rw [put_of_ne _ _ hg] at e
          have hold := (hmoves.goes g).child f (by rw [e]; rfl)
          exact .woken hreturning (hold.trans e) e' rfl
    · have hkeeps := (hlayout'.frames f).keeps hdisposal
      rw [hframe₂, if_pos rfl, hframe] 
      rw [hframe] at hkeeps hdisposal
      refine ⟨hfits.alive.trans ⟨fun _ => by rintro ⟨⟩, fun _ => by rintro ⟨⟩⟩, rfl, fun _ => ?_,
        fun _ => hdisposal, fun _ => hkeeps,
        fun _ => ?_, fun _ _ => hfits.retired (by rintro ⟨⟩) id, hfits.solitary, List.nodup_nil⟩
      · rw [Frame.heldTasks, hwait]
        rfl
      · exact if_pos hkeeps
  | detached =>
    have hfresh : (w₁.frame f).retired = false := by
      rw [hframe]
      exact hfits.retired (by rintro ⟨⟩) id
    simp only [retire_eq w₁ k hfresh]
    obtain ⟨hagrees, hsteady'⟩ := retire_drain w₁ t.toPlace (horderly'.retired k) hheld
    have hstage : (w₁.frame f).stage = .complete := by rw [hframe]
    have hgone := Layout.endRetired (a := t.around taken
      ((f, ⟨(w.frame f).acc, (w.frame f).guard⟩) :: returned)) hlayout' t.toPlace
      (put_self _ _ _) hheld
      hdisposal hstage
    rw [put_put] at hgone
    have hsettled : Settled ((retiring w₁ k f).drainRetired t.toPlace k) t taken
        (({ t with stack := .poll k f outer :: t.stack } : Thread).yields w ++ returned)
        (put spot' f .absent) := by
      rw [hyields]
      exact ⟨hgone.of_agrees hagrees, horderly'.of_steady hsteady'⟩
    refine .settled rfl hsettled fun g => ?_
    by_cases hg : g = f
    · rw [hg, put_self]
      exact .returns hreturning (.inr rfl)
    · rw [put_of_ne _ _ hg]
      refine .goes ((hmoves.goes g).of_disposal fun c => ?_)
      rw [hagrees.frame, (Layout.endFrame_agrees _ _ _ _).frame, World.frame_modifyFrame]
      show (if c = f then Layout.gone ((w₁.modifyFrame f _).frame c)
        else (w₁.modifyFrame f _).frame c).disposal = _
      rw [World.frame_modifyFrame]
      split <;> rfl

end Dispose

end Substrate.Coro
