import Substrate.Proofs.Coro.Names

/-!
# Waiting

What asking for something does to a layout.  The frame that asks is being polled;
if what it asks for is there, it goes on being polled, and if not, it is in the
hands of the worker, which then puts it where it has asked to go.

* `Layout.pollTask_ready` and `Layout.pollTask_pending` poll a task.
* `Asking` is how things stand when a body has asked for something that is
  not there; `Layout.ask` and `Layout.askWait` lead there or let the body go on.
* `Asking.suspend` is the end of the poll.
-/

namespace Substrate.Coro

/-- The world after frame `f` asked to be woken by frame `c`, unless another has done so. -/
def World.subscribe (w : World) (c f : FrameId) : World :=
  w.modifyFrame c fun frame => { frame with continuation := frame.continuation.or (some f) }

theorem World.frame_subscribe (w : World) (c f g : FrameId) :
    ∃ continuation, (w.subscribe c f).frame g = { w.frame g with continuation } := by
  rw [World.subscribe, World.frame_modifyFrame]
  split <;> exact ⟨_, rfl⟩

theorem World.frame_enqueue (w : World) (k : WorkerId) (f g : FrameId) :
    (w.enqueue k f).frame g = w.frame g := by
  rw [World.frame, World.frame, (Layout.enqueue_same w k f).1]

theorem World.enqueue_frameCount (w : World) (k : WorkerId) (f : FrameId) :
    (w.enqueue k f).frameCount = w.frameCount := by
  unfold World.enqueue
  split <;> rfl

namespace Layout

variable {w : World} {a : Around} {spot : FrameId → Spot} {p : Place} {k : WorkerId} {f : FrameId}

/-- Polling a task whose frame has returned takes its result. -/
theorem pollTask_ready (h : Layout w a spot) (p : Place) {c : FrameId} {b : Bool}
    (hc : spot c = .complete) (hmem : ⟨some c, b⟩ ∈ w.held ++ a.handles) (hspent : a.spent = [])
    (hhand : a.hand = []) :
    ∃ w' o, w.pollTask p ⟨some c, b⟩ = (w', ⟨none, b⟩, .ready o) ∧
      Layout w' { a with spent := [⟨some c, b⟩] } (put spot c .absent) ∧
      Drops w spot w' (put spot c .absent) ∧ w'.tasks = w.tasks := by
  obtain ⟨w', htake, hlayout, hdrops, htasks, -⟩ := h.takeOutput p hc hmem hspent hhand
  have hcomplete := (h.isComplete_iff hhand (by rw [hc]; nofun)).mpr hc
  have hpoll : w.pollTask p ⟨some c, b⟩ =
      (w', ⟨none, b⟩, .ready ⟨(w.frame c).acc, (w.frame c).guard⟩) := by
    unfold World.pollTask
    simp only [hcomplete, if_true, htake]
  exact ⟨w', _, hpoll, hlayout, hdrops, htasks⟩

/-- What polling a task does whose frame has not returned. -/
theorem pollTask_eq {c : FrameId} {b : Bool} (hnot : (w.frame c).isComplete = false)
    (hk : p.worker = some k) (hcurrent : (w.worker k).current = some f) :
    w.pollTask p ⟨some c, b⟩ =
      (if b then w.subscribe c f else (w.subscribe c f).enqueue k c, ⟨some c, true⟩, .pending) := by
  unfold World.pollTask World.subscribe
  simp only [hnot, hk, Option.bind_some, hcurrent, Option.map_some]
  cases b <;> rfl

/-- Frame `f`, which is about to leave its poll, registers with frame `c`, unless another has
done so. -/
private theorem subscribe (h : Layout w a spot) (hf : spot f = .hand none) {c : FrameId}
    (hc : (spot c).IsPending) (hawaited : (w.frame c).disposal = .awaited) :
    ∃ child, Layout (w.subscribe c f) a (put spot f (.hand child)) ∧
      (child = some c ∧ (w.frame c).continuation = none ∨
        child = none ∧ ∃ g, (w.frame c).continuation = some g) := by
  cases hcont : (w.frame c).continuation with
  | none =>
    refine ⟨some c,
      (h.register hf hc hcont hawaited).of_agrees ⟨fun g => ?_, rfl, rfl, rfl, rfl, rfl⟩,
      .inl ⟨rfl, rfl⟩⟩
    simp only [World.subscribe, World.frame_modifyFrame]
    split
    · rename_i hg
      rw [hg, hcont]
      rfl
    · rfl
  | some g =>
    have hsame : put spot f (.hand none) = spot := by
      funext g
      unfold put
      split
      · rename_i hg
        rw [hg, hf]
      · rfl
    refine ⟨none, ?_, .inr ⟨rfl, g, rfl⟩⟩
    rw [hsame]
    refine h.of_agrees ⟨fun g => ?_, rfl, rfl, rfl, rfl, rfl⟩
    simp only [World.subscribe, World.frame_modifyFrame]
    split
    · rename_i hg
      have hor : (w.frame c).continuation.or (some f) = (w.frame c).continuation := by
        rw [hcont]
        rfl
      rw [hg, hor]
    · rfl

/-- Polling a task whose frame has not returned takes the frame that polls out of its poll, to
be woken by that frame if no other is. -/
theorem pollTask_pending (h : Layout w { a with polled := f :: a.polled } spot)
    (hhand : a.hand = []) (hspent : a.spent = []) (hk : p.worker = some k)
    (hcurrent : (w.worker k).current = some f) {c : FrameId} {b : Bool}
    (hmem : ⟨some c, b⟩ ∈ w.held ++ a.handles) (hc : spot c ≠ .complete) :
    ∃ w' spot' child, w.pollTask p ⟨some c, b⟩ = (w', ⟨some c, true⟩, .pending) ∧
      Layout w' { a with
        hand := [f], handles := ⟨some c, true⟩ :: a.handles
        spent := [⟨some c, b⟩] } spot' ∧
      spot' f = .hand child ∧
      (child = some c ∧ (w.frame c).continuation = none ∨
        child = none ∧ ∃ g, (w.frame c).continuation = some g) ∧
      (∀ g, g ≠ f → Goes w w' (spot g) (spot' g)) ∧
      (∀ g, ∃ continuation, w'.frame g = { w.frame g with continuation }) ∧
      w'.tasks = w.tasks ∧ w.Steady w' := by
  have hself : spot f = .polled := (h.polled f).mp List.mem_cons_self
  have hleft := h.unpoll
  rw [hhand] at hleft
  have hnot : (w.frame c).isComplete = false := by
    rw [Bool.eq_false_iff]
    exact fun hcomp => hc ((h.isComplete_iff hhand (h.ne_absent_of_mem hmem hspent)).mp hcomp)
  cases b with
  | true =>
    obtain ⟨hpending | hcomplete, hawaited⟩ := h.started_of_lt (lt_of_mem hmem hspent)
    · have hpending' : (put spot f (.hand none) c).IsPending := by
        by_cases hcf : c = f
        · rw [hcf, put_self]
          trivial
        · rw [put_of_ne _ _ hcf]
          exact hpending
      obtain ⟨child, hlayout, hchild⟩ := hleft.subscribe (put_self _ _ _) hpending' hawaited
      refine ⟨w.subscribe c f, _, child, pollTask_eq hnot hk hcurrent,
        hlayout.rehandle (⟨some c, true⟩ :: a.handles) [⟨some c, true⟩] ?_, put_self _ _ _, hchild,
        ?_, w.frame_subscribe c f, rfl, .of_workers rfl rfl rfl⟩
      · intro g b
        simp only [hspent, List.count_cons]
        omega
      · intro g hg
        rw [put_of_ne _ _ hg, put_of_ne _ _ hg]
        exact .refl _ _ _
    · exact absurd hcomplete hc
  | false =>
    have hc' : spot c = .unstarted := h.unstarted_of_lt (lt_of_mem hmem hspent)
    have hcf : c ≠ f := by
      rintro rfl
      rw [hself] at hc'
      cases hc'
    have hfits := h.frames c
    rw [hc'] at hfits
    have hcreated : (w.frame c).stage = .created := hfits.stage
    -- the frame is started before anything is registered with it
    have hstart := hleft.start (by rw [put_of_ne _ _ hcf]; exact hc')
    obtain ⟨child, hlayout, hchild⟩ := hstart.subscribe (f := f) (c := c)
      (by rw [put_of_ne _ _ hcf.symm, put_self]) (by rw [put_self]; trivial)
      (hfits.awaited (.inl rfl))
    have hready : Fits ((w.subscribe c f).frame c) (.listed (readyList k)) := by
      obtain ⟨cont, hframe⟩ := w.frame_subscribe c f c
      rw [hframe]
      refine Fits.continuation ?_ cont
      exact hfits.move (.inl rfl) id trivial (.inl hcreated)
    have hqueued := Layout.enqueue
      (a := { a with
        hand := [f], handles := ⟨some c, true⟩ :: a.handles
        spent := ⟨some c, false⟩ :: a.spent })
      hlayout (by rw [put_of_ne _ _ hcf, put_self]) hready
    rw [hspent] at hqueued
    refine ⟨(w.subscribe c f).enqueue k c, _, child, pollTask_eq hnot hk hcurrent, hqueued, ?_,
      hchild, ?_, ?_, ?_, ?_⟩
    · rw [put_of_ne _ _ hcf.symm, put_self]
    · intro g hg
      by_cases hgc : g = c
      · rw [hgc, put_self, hc']
        exact .of_idle _ _ id rfl nofun
      · rw [put_of_ne _ _ hgc, put_of_ne _ _ hg, put_of_ne _ _ hgc, put_of_ne _ _ hg]
        exact .refl _ _ _
    · intro g
      rw [World.frame_enqueue]
      exact w.frame_subscribe c f g
    · exact (enqueue_same _ k c).2
    · have hsteady : w.Steady (w.subscribe c f) := .of_workers rfl rfl rfl
      exact hsteady.trans (World.steady_enqueue _ k c)

end Layout

/-! ## Asking -/

/-- The handle that a future holds itself. -/
def Future.held (future : Future) : List Task := Frame.waitTasks (some (.one future))

/-- The frame whose result a future of frame `f` is. -/
def Future.target (w : World) (f : FrameId) : Future → Option FrameId
  | .task name => (w.findTask f name).bind Task.frame
  | .child t => t.frame
  | _ => none

/-- What is asked for is there: frame `f` goes on being polled. -/
structure Answered (w : World) (spot : FrameId → Spot) (a : Around) (f : FrameId)
    (future : Future) (w' : World) (spot' : FrameId → Spot) : Prop where
  layout : Layout w' { a with polled := f :: a.polled, spent := future.held } spot'
  moves : Moves w spot w' spot'
  steady : w.Steady w'
  wait : (w'.frame f).wait = (w.frame f).wait

/-- A worker is asked to put a frame somewhere, or another frame is asked to wake it. -/
inductive Request (w : World) (f : FrameId) (target : Option FrameId) :
    Option Suspension → Spot → Prop
  | worker (s : Suspension) : Request w f target (some s) (.hand none)
  | frame {c : FrameId} (htarget : target = some c) (hfree : (w.frame c).continuation = none) :
    Request w f target none (.hand (some c))
  | refused {c g : FrameId} (htarget : target = some c)
    (htaken : (w.frame c).continuation = some g) : Request w f target none (.hand none)

/-- What is asked for is not there: frame `f` is in the hands of worker `k`, which polled it. -/
structure Asking (w : World) (spot : FrameId → Spot) (k : WorkerId) (f : FrameId)
    (target : Option FrameId) (w' : World) (spot' : FrameId → Spot) : Prop where
  fits : Fits (w'.frame f) .polled
  goes : ∀ g, g ≠ f → Goes w w' (spot g) (spot' g)
  disposal : ∀ g, (w'.frame g).disposal = (w.frame g).disposal
  request : Request w f target (w'.worker k).suspension (spot' f)
  current : ∀ k', (w'.worker k').current = (w.worker k').current
  suspension : ∀ k', k' ≠ k → (w'.worker k').suspension = (w.worker k').suspension
  retired : ∀ k', (w'.worker k').retired = (w.worker k').retired
  workerCount : w'.workerCount = w.workerCount
  workerNames : w'.workerNames = w.workerNames

/-- What asking for a future comes to. -/
inductive Asks (w : World) (spot : FrameId → Spot) (a : Around) (k : WorkerId) (f : FrameId)
    (future : Future) : World × World.Asked → Prop
  | ready {w' : World} {spot' : FrameId → Spot} (h : Answered w spot a f future w' spot') :
    Asks w spot a k f future (w', .ready)
  | pending {w' : World} {spot' : FrameId → Spot} {future' : Future}
    (hlayout : Layout w' { a with
      hand := [f], handles := future'.held ++ a.handles
      spent := future.held } spot')
    (h : Asking w spot k f (future.target w f) w' spot')
    (hwait : (w'.frame f).wait = (w.frame f).wait) (hheld : future.held = [] → future'.held = []) :
    Asks w spot a k f future (w', .pending future')
  | fault {w' : World} {e : Fault} (hlayout : Layout w' { a with polled := f :: a.polled } spot) :
    Asks w spot a k f future (w', .fault e)

theorem World.frame_gain (w : World) (f : FrameId) (n : Int) (g : FrameId) :
    ∃ acc, (w.gain f n).frame g = { w.frame g with acc } := by
  rw [World.gain, World.frame_modifyFrame]
  split <;> exact ⟨_, rfl⟩

theorem World.frame_useOutput (w : World) (p : Place) (f : FrameId) (o : Output) (g : FrameId) :
    ∃ acc, (w.useOutput p f o).frame g = { w.frame g with acc } := by
  obtain ⟨log, heq⟩ := Layout.dropOutput_eq (w.gain f o.value) p o
  rw [World.useOutput, heq]
  exact w.frame_gain f o.value g

theorem World.steady_useOutput (w : World) (p : Place) (f : FrameId) (o : Output) :
    w.Steady (w.useOutput p f o) := by
  obtain ⟨log, heq⟩ := Layout.dropOutput_eq (w.gain f o.value) p o
  rw [World.useOutput, heq]
  exact .of_workers rfl rfl rfl

namespace Layout

variable {w : World} {a : Around} {spot : FrameId → Spot} {p : Place} {k : WorkerId} {f : FrameId}

theorem useOutput (h : Layout w a spot) (p : Place) (o : Output) (hf : (spot f).IsPending)
    (hstage : (w.frame f).stage ≠ .complete) : Layout (w.useOutput p f o) a spot := by
  obtain ⟨log, heq⟩ := dropOutput_eq (w.gain f o.value) p o
  rw [World.useOutput, heq]
  have hgain : Layout (w.gain f o.value) a spot :=
    h.modifyCode hf hstage ⟨rfl, rfl, rfl, rfl, rfl, rfl, rfl, rfl⟩ rfl rfl
  exact hgain.of_agrees ⟨fun _ => rfl, rfl, rfl, rfl, rfl, rfl⟩

/-- A frame being polled is running. -/
theorem running_of_polled (h : Layout w a spot) (hf : f ∈ a.polled) :
    spot f = .polled ∧ (w.frame f).stage = .running := by
  have hspot := (h.polled f).mp hf
  have hstage := (h.frames f).stage
  rw [hspot] at hstage
  exact ⟨hspot, hstage⟩

theorem pending_of_polled (h : Layout w a spot) (hf : f ∈ a.polled) :
    (spot f).IsPending ∧ (w.frame f).stage ≠ .complete := by
  obtain ⟨hself, hrunning⟩ := h.running_of_polled hf
  rw [hself, hrunning]
  exact ⟨trivial, nofun⟩

/-- The handle of a frame whose result was taken is left under its name without a frame. -/
theorem forget (hspent : a.spent = []) {name : String} {c : FrameId} {b : Bool}
    (hfind : w.findTask f name = some ⟨some c, b⟩) {w' : World}
    (hlayout : Layout w' { a with polled := f :: a.polled, spent := [⟨some c, b⟩] }
      (put spot c .absent))
    (hdrops : Drops w spot w' (put spot c .absent)) (htasks : w'.tasks = w.tasks) :
    Layout (w'.updateTask f name ⟨none, b⟩) { a with polled := f :: a.polled }
    (put spot c .absent) ∧
      Moves w spot (w'.updateTask f name ⟨none, b⟩) (put spot c .absent) ∧
      w.Steady (w'.updateTask f name ⟨none, b⟩) ∧
      ((w'.updateTask f name ⟨none, b⟩).frame f).wait = (w.frame f).wait := by
  obtain ⟨hself', hrunning'⟩ := hlayout.running_of_polled List.mem_cons_self
  obtain ⟨cont, disp, hframe⟩ := hdrops.record f (by rw [hself']; nofun)
  have hfind' : w'.findTask f name = some ⟨some c, b⟩ := by
    rw [← hfind, World.findTask, World.findTask, htasks, Frame.task?, Frame.task?, hframe]
  have hnone : Layout w' { a with
      polled := f :: a.polled, handles := ⟨none, b⟩ :: a.handles
      spent := [⟨some c, b⟩] } (put spot c .absent) := by
    refine hlayout.rehandle _ _ fun c' b' => ?_
    simp [List.count_cons]
  have hupdated := Layout.updateTask (a := { a with polled := f :: a.polled, spent := [] })
    hnone (by rw [hself']; trivial) (by rw [hrunning']; nofun) hfind'
  rw [← hspent] at hupdated
  refine ⟨hupdated, hdrops.toMoves.of_disposal fun g => ?_,
    hdrops.steady.trans (w'.steady_updateTask _ _ _), ?_⟩
  · obtain ⟨tasks, e, -⟩ := w'.frame_updateTask f name ⟨none, b⟩ g
    rw [e]
  · obtain ⟨tasks, e, -⟩ := w'.frame_updateTask f name ⟨none, b⟩ f
    rw [e, hframe]

/-- A result is added to the accumulator of a body. -/
theorem moves_useOutput {w₀ : World} {spot₀ : FrameId → Spot} (hmoves : Moves w₀ spot₀ w spot)
    (p : Place) (f : FrameId) (o : Output) : Moves w₀ spot₀ (w.useOutput p f o) spot :=
  hmoves.of_disposal fun g => by
    obtain ⟨acc, e⟩ := w.frame_useOutput p f o g
    rw [e]

/-- Asking for the result of the task under a name. -/
private theorem ask_task (h : Layout w { a with polled := f :: a.polled } spot)
    (hhand : a.hand = []) (hspent : a.spent = []) (hk : p.worker = some k)
    (hcurrent : (w.worker k).current = some f) (hidle : (w.worker k).suspension = none)
    (name : String) : Asks w spot a k f (.task name) (w.ask p f (.task name)) := by
  obtain ⟨hself, hrunning⟩ := h.running_of_polled List.mem_cons_self
  have hpending : (spot f).IsPending := by rw [hself]; trivial
  have hstage : (w.frame f).stage ≠ .complete := by rw [hrunning]; nofun
  have hheld : (Future.task name).held = [] := rfl
  cases hfind : w.findTask f name with
  | none =>
    simp only [World.ask, hfind]
    refine .ready ⟨?_, .of_frames (fun g => .refl _ _ _) fun _ _ => rfl,
      .of_workers rfl rfl rfl, rfl⟩
    have hsaid : Layout (w.say p ("none:" ++ name)) { a with polled := f :: a.polled } spot :=
      h.of_agrees ⟨fun _ => rfl, rfl, rfl, rfl, rfl, rfl⟩
    rw [hspent] at hsaid
    exact hsaid
  | some t =>
    have hmem : t ∈ w.held ++ a.handles :=
      List.mem_append_left _ (mem_held_of_findTask (h.lt_of_pending hpending) hfind)
    obtain ⟨frame, b⟩ := t
    cases frame with
    | none =>
      have hpoll : w.pollTask p ⟨none, b⟩ = (w, ⟨none, b⟩, .fault (.doubleAwait 0)) := rfl
      simp only [World.ask, hfind, hpoll]
      exact .fault (h.updateTask_same hpending hstage hfind)
    | some c =>
      by_cases hc : spot c = .complete
      · obtain ⟨w', o, hpoll, hlayout, hdrops, htasks⟩ := h.pollTask_ready p hc hmem hspent hhand
        simp only [World.ask, hfind, hpoll]
        obtain ⟨hupdated, hmoves, hsteady, hwait⟩ := forget hspent hfind hlayout hdrops htasks
        obtain ⟨hpending', hstage'⟩ := hupdated.pending_of_polled List.mem_cons_self
        have hused := hupdated.useOutput p o hpending' hstage'
        rw [hspent] at hused
        refine .ready ⟨hused, moves_useOutput hmoves p f o,
          hsteady.trans (World.steady_useOutput _ _ _ _), ?_⟩
        obtain ⟨acc, e⟩ := World.frame_useOutput (w'.updateTask f name ⟨none, b⟩) p f o f
        rw [e, hwait]
      · obtain ⟨w', spot', child, hpoll, hlayout, hf', hchild, hgoes, hframes, htasks, hsteady⟩ :=
          h.pollTask_pending hhand hspent hk hcurrent hmem hc
        simp only [World.ask, hfind, hpoll]
        obtain ⟨cont, hframe⟩ := hframes f
        have hfind' : w'.findTask f name = some ⟨some c, b⟩ := by
          rw [← hfind, World.findTask, World.findTask, htasks, Frame.task?, Frame.task?, hframe]
        have hpending' : (spot' f).IsPending := by rw [hf']; trivial
        have hstage' : (w'.frame f).stage ≠ .complete := by rw [hframe]; exact hstage
        have hupdated := Layout.updateTask (a := { a with hand := [f], spent := [] })
          hlayout hpending' hstage' hfind'
        obtain ⟨tasks, hframe', hnames⟩ := w'.frame_updateTask f name ⟨some c, true⟩ f
        have hsteady' := hsteady.trans (w'.steady_updateTask f name ⟨some c, true⟩)
        have hdisposal : ∀ g, ((w'.updateTask f name ⟨some c, true⟩).frame g).disposal =
            (w'.frame g).disposal := by
          intro g
          obtain ⟨tasks, e, -⟩ := w'.frame_updateTask f name ⟨some c, true⟩ g
          rw [e]
        refine .pending hupdated ⟨?_, ?_, ?_, ?_, hsteady'.current,
          fun k' _ => hsteady'.suspension k', hsteady'.retired, hsteady'.workerCount,
          hsteady'.workerNames⟩ ?_ id
        · have hfits := h.frames f
          rw [hself] at hfits
          rw [hframe', hframe]
          refine Fits.body (Fits.continuation hfits cont) trivial
            ⟨rfl, rfl, rfl, rfl, rfl, rfl, rfl, rfl⟩ hfits.solitary ?_
          rw [hnames, hframe]
          exact hfits.names
        · exact fun g hg => (hgoes g hg).of_disposal hdisposal
        · intro g
          obtain ⟨cont, e⟩ := hframes g
          rw [hdisposal, e]
        · have htarget : (Future.task name).target w f = some c := by
            rw [Future.target, hfind]
            rfl
          rw [hsteady'.suspension, hidle, hf']
          rcases hchild with ⟨rfl, hfree⟩ | ⟨rfl, g, htaken⟩
          · exact .frame htarget hfree
          · exact .refused htarget htaken
        · rw [hframe', hframe]

/-- Asking for the result of a task that only the wait of a frame refers to. -/
private theorem ask_child (h : Layout w { a with polled := f :: a.polled } spot)
    (hhand : a.hand = []) (hspent : a.spent = []) (hk : p.worker = some k)
    (hcurrent : (w.worker k).current = some f) (hidle : (w.worker k).suspension = none) {t : Task}
    (hwait : (w.frame f).wait = some (.one (.child t))) :
    Asks w spot a k f (.child t) (w.ask p f (.child t)) := by
  obtain ⟨hself, hrunning⟩ := h.running_of_polled List.mem_cons_self
  have hpending : (spot f).IsPending := by rw [hself]; trivial
  have hstage : (w.frame f).stage ≠ .complete := by rw [hrunning]; rintro ⟨⟩
  have hmem : t ∈ w.held ++ a.handles := by
    refine List.mem_append_left _ (List.mem_append_right _ (List.mem_flatMap.mpr ⟨f, ?_, ?_⟩))
    · exact List.mem_range.mpr (h.lt_of_pending hpending)
    · rw [Frame.heldTasks, hwait]
      exact List.mem_append_left _ List.mem_cons_self
  obtain ⟨frame, b⟩ := t
  cases frame with
  | none => exact .fault h
  | some c =>
    by_cases hc : spot c = .complete
    · obtain ⟨w', o, hpoll, hlayout, hdrops, -⟩ := h.pollTask_ready p hc hmem hspent hhand
      simp only [World.ask, hpoll]
      have hcf : f ≠ c := by
        rintro rfl
        rw [hself] at hc
        cases hc
      have hspot' : put spot c .absent f = .polled := by rw [put_of_ne _ _ hcf, hself]
      obtain ⟨cont, disp, hframe⟩ := hdrops.record f (by rw [hspot']; rintro ⟨⟩)
      refine .ready ⟨hlayout.useOutput p o (by rw [hspot']; trivial) (by rw [hframe]; exact hstage),
        ?_, hdrops.steady.trans (World.steady_useOutput _ _ _ _), ?_⟩
      · exact moves_useOutput hdrops.toMoves p f o
      · obtain ⟨acc, e⟩ := w'.frame_useOutput p f o f
        rw [e, hframe]
    · obtain ⟨w', spot', child, hpoll, hlayout, hf', hchild, hgoes, hframes, -, hsteady⟩ :=
        h.pollTask_pending hhand hspent hk hcurrent hmem hc
      simp only [World.ask, hpoll]
      obtain ⟨cont, hframe⟩ := hframes f
      refine .pending hlayout ⟨?_, hgoes, ?_, ?_, hsteady.current,
        fun k' _ => hsteady.suspension k',
        hsteady.retired, hsteady.workerCount, hsteady.workerNames⟩ (by rw [hframe]) (by rintro ⟨⟩)
      · have hfits := h.frames f
        rw [hself] at hfits
        rw [hframe]
        exact Fits.continuation hfits cont
      · intro g
        obtain ⟨cont, e⟩ := hframes g
        rw [e]
      · have htarget : (Future.child ⟨some c, b⟩).target w f = some c := rfl
        rw [hsteady.suspension, hidle, hf']
        rcases hchild with ⟨rfl, hfree⟩ | ⟨rfl, g, htaken⟩
        · exact .frame htarget hfree
        · exact .refused htarget htaken

/-- A request is left with the worker. -/
private theorem ask_worker (h : Layout w { a with polled := f :: a.polled } spot)
    (hhand : a.hand = []) (hspent : a.spent = []) {future future' : Future} {s : Suspension}
    (hheld : future.held = []) (hheld' : future'.held = []) :
    Asks w spot a k f future
      (w.modifyWorker k fun worker => { worker with suspension := some s }, .pending future') := by
  obtain ⟨hself, -⟩ := h.running_of_polled List.mem_cons_self
  have hleft := h.unpoll
  rw [hhand] at hleft
  have hfits := h.frames f
  rw [hself] at hfits
  have hasked : Layout (w.modifyWorker k fun worker => { worker with suspension := some s })
      { a with hand := [f], handles := future'.held ++ a.handles, spent := future.held }
      (put spot f (.hand none)) := by
    rw [hheld, hheld']
    rw [hspent] at hleft
    exact hleft.of_agrees ⟨fun _ => rfl, rfl, rfl, rfl, rfl, rfl⟩
  refine .pending hasked ⟨hfits, ?_, fun _ => rfl, ?_, ?_, ?_, ?_, rfl, rfl⟩ rfl fun _ => hheld'
  · intro g hg
    rw [put_of_ne _ _ hg]
    exact .refl _ _ _
  · rw [World.worker_modifyWorker, if_pos rfl, put_self]
    exact .worker s
  · intro k'
    rw [World.worker_modifyWorker]
    split <;> rfl
  · intro k' hk'
    rw [World.worker_modifyWorker, if_neg hk']
  · intro k'
    rw [World.worker_modifyWorker]
    split <;> rfl

/-- What is asked for is there already. -/
private theorem ask_there (h : Layout w { a with polled := f :: a.polled } spot)
    (hspent : a.spent = []) {future : Future} (hheld : future.held = []) {w' : World}
    (hagrees : w.Agrees w') (hsteady : w.Steady w') : Asks w spot a k f future (w', .ready) := by
  refine .ready ⟨?_, .of_frames (fun g => .refl _ _ _) fun g _ => by rw [hagrees.frame], hsteady,
    by rw [hagrees.frame]⟩
  rw [hheld, ← hspent]
  exact h.of_agrees hagrees

/-- Asking for a future. -/
theorem ask (h : Layout w { a with polled := f :: a.polled } spot) (hhand : a.hand = [])
    (hspent : a.spent = []) (hk : p.worker = some k) (hcurrent : (w.worker k).current = some f)
    (hidle : (w.worker k).suspension = none) (future : Future)
    (hwait : ∀ t, future = .child t → (w.frame f).wait = some (.one (.child t))) :
    Asks w spot a k f future (w.ask p f future) := by
  have hrequest : ∀ s, w.request p s =
      .ok (w.modifyWorker k fun worker => { worker with suspension := some s }) := by
    intro s
    rw [World.request, hk]
  have hagrees : ∀ text, w.Agrees (w.say p text) :=
    fun _ => ⟨fun _ => rfl, rfl, rfl, rfl, rfl, rfl⟩
  have hsteady : ∀ text, w.Steady (w.say p text) := fun _ => .of_workers rfl rfl rfl
  have hsame : w.Agrees w := ⟨fun _ => rfl, rfl, rfl, rfl, rfl, rfl⟩
  cases future with
  | turn asked =>
    cases asked with
    | true => exact h.ask_there hspent rfl hsame (.refl w)
    | false =>
      simp only [World.ask, hrequest]
      exact h.ask_worker hhand hspent rfl rfl
  | task name => exact h.ask_task hhand hspent hk hcurrent hidle name
  | child t => exact h.ask_child hhand hspent hk hcurrent hidle (hwait t rfl)
  | park slot token asked =>
    cases asked with
    | true => exact h.ask_there hspent rfl hsame (.refl w)
    | false =>
      simp only [World.ask, hrequest]
      exact h.ask_worker hhand hspent rfl rfl
  | checkpoint name token asked =>
    cases asked with
    | true => exact h.ask_there hspent rfl (hagrees _) (hsteady _)
    | false =>
      simp only [World.ask, hrequest]
      split
      · exact h.ask_there hspent rfl (hagrees _) (hsteady _)
      · exact h.ask_worker hhand hspent rfl rfl
  | unknown => exact h.ask_there hspent rfl hsame (.refl w)

end Layout

/-! ## Waits -/

/-- The frame whose result frame `f` waits for with a wait for one thing. -/
def Wait.target (w : World) (f : FrameId) : Wait → Option FrameId
  | .one future | .all [future] | .any [future] => future.target w f
  | _ => none

/-- The frame whose result frame `f` waits for. -/
def World.wanted (w : World) (f : FrameId) : Option FrameId :=
  (w.frame f).wait.bind (Wait.target w f)

/-- What asking for what a frame waits for comes to. -/
inductive AsksWait (w : World) (spot : FrameId → Spot) (a : Around) (k : WorkerId) (f : FrameId) :
    World × World.Move → Prop
  | next {w' : World} {spot' : FrameId → Spot}
    (hlayout : Layout w' { a with polled := f :: a.polled } spot') (hmoves : Moves w spot w' spot')
    (hsteady : w.Steady w') : AsksWait w spot a k f (w', .next)
  | suspend {w' : World} {spot' : FrameId → Spot} (hlayout : Layout w' { a with hand := [f] } spot')
    (h : Asking w spot k f (w.wanted f) w' spot') : AsksWait w spot a k f (w', .suspend)
  | raise {w' : World} {message : String}
    (hlayout : Layout w' { a with polled := f :: a.polled } spot) :
    AsksWait w spot a k f (w', .raise message)

theorem Future.ne_child_of_held {future : Future} (h : future.held = []) (t : Task) :
    future ≠ .child t := by
  rintro rfl
  cases h

theorem Future.held_of_ne_child {future : Future} (h : ∀ t, future ≠ .child t) :
    future.held = [] := by
  cases future with
  | child t => exact absurd rfl (h t)
  | _ => rfl

theorem Asking.setWait {w w' : World} {spot spot' : FrameId → Spot} {k : WorkerId} {f : FrameId}
    {target : Option FrameId} (h : Asking w spot k f target w' spot') {wait : Wait}
    (hsolitary : wait.Solitary) :
    Asking w spot k f target (w'.setWait f (some wait)) spot' := by
  have hframe : ∀ g, ∃ wait', (w'.setWait f (some wait)).frame g =
      { w'.frame g with wait := wait' } := by
    intro g
    rw [World.setWait, World.frame_modifyFrame]
    split <;> exact ⟨_, rfl⟩
  have hdisposal : ∀ g, ((w'.setWait f (some wait)).frame g).disposal = (w'.frame g).disposal := by
    intro g
    obtain ⟨wait', e⟩ := hframe g
    rw [e]
  refine ⟨?_, fun g hg => (h.goes g hg).of_disposal hdisposal,
    fun g => (hdisposal g).trans (h.disposal g), h.request, h.current, h.suspension, h.retired,
    h.workerCount, h.workerNames⟩
  rw [World.setWait, World.frame_modifyFrame, if_pos rfl]
  refine h.fits.body trivial ⟨rfl, rfl, rfl, rfl, rfl, rfl, rfl, rfl⟩ ?_ h.fits.names
  intro wait' e
  cases e
  exact hsolitary

theorem World.frame_setWait (w : World) (f : FrameId) (wait : Option Wait) (g : FrameId) :
    ∃ wait', (w.setWait f wait).frame g = { w.frame g with wait := wait' } := by
  rw [World.setWait, World.frame_modifyFrame]
  split <;> exact ⟨_, rfl⟩

section Outcomes

variable {w w' : World} {spot spot' : FrameId → Spot} {a : Around} {k : WorkerId} {f : FrameId}
  {future future' : Future} {wait wait' : Wait}

/-- The wait for something that is there is over. -/
theorem Answered.next (h : Answered w spot a f future w' spot')
    (hlayout : Layout w { a with polled := f :: a.polled } spot) (hspent : a.spent = [])
    (hwait : (w.frame f).wait = some wait) (hheld : Frame.waitTasks (some wait) = future.held) :
    AsksWait w spot a k f (w'.setWait f none, .next) := by
  obtain ⟨hpending, hstage⟩ := h.layout.pending_of_polled List.mem_cons_self
  have hset : Layout (w'.setWait f none) { a with polled := f :: a.polled } spot' := by
    have := h.layout.setWait none a.handles [] hpending hstage
      nofun fun c b => ?_
    · rw [hspent]
      exact this
    · rw [h.wait, hwait, hheld]
      show 0 + a.handles.count _ + future.held.count _ =
        future.held.count _ + a.handles.count _ + 0
      omega
  refine .next hset (h.moves.trans hlayout (.of_frames (fun g => .refl _ _ _) fun g _ => ?_))
    (h.steady.trans (.of_workers rfl rfl rfl))
  obtain ⟨_, e⟩ := w'.frame_setWait f none g
  rw [e]

/-- The frame waits on for something that is not there. -/
theorem Asking.suspend (h : Asking w spot k f (future.target w f) w' spot')
    (hlayout : Layout w' { a with
      hand := [f], handles := future'.held ++ a.handles
      spent := future.held } spot')
    (hspent : a.spent = []) (hwait : (w.frame f).wait = some wait)
    (hsame : (w'.frame f).wait = (w.frame f).wait)
    (hheld : Frame.waitTasks (some wait) = future.held)
    (hheld' : Frame.waitTasks (some wait') = future'.held)
    (htarget : wait.target w f = future.target w f) (hsolitary : wait'.Solitary) :
    AsksWait w spot a k f (w'.setWait f (some wait'), .suspend) := by
  have hhand : (spot' f).IsHand := (hlayout.hand f).mp List.mem_cons_self
  have hpending : (spot' f).IsPending := by
    cases hspot : spot' f <;> simp_all [Spot.IsHand, Spot.IsPending]
  have hrunning : (w'.frame f).stage = .running := h.fits.stage
  have hset : Layout (w'.setWait f (some wait')) { a with hand := [f] } spot' := by
    have := hlayout.setWait (some wait') a.handles [] hpending (by rw [hrunning]; rintro ⟨⟩)
      (fun wait'' e => by cases e; exact hsolitary) fun c b => ?_
    · rw [hspent]
      exact this
    · rw [hsame, hwait, hheld, hheld']
      show future'.held.count _ + a.handles.count _ + future.held.count _ =
        future.held.count _ + (future'.held ++ a.handles).count _ + 0
      rw [List.count_append]
      omega
  refine .suspend hset ?_
  have hwanted : w.wanted f = future.target w f := by
    rw [World.wanted, hwait]
    exact htarget
  rw [hwanted]
  exact h.setWait hsolitary

theorem Answered.say (h : Answered w spot a f future w' spot') (p : Place) (text : String) :
    Answered w spot a f future (w'.say p text) spot' := by
  refine ⟨h.layout.of_agrees ⟨fun _ => rfl, rfl, rfl, rfl, rfl, rfl⟩,
    ⟨fun g => ?_, h.moves.detached⟩,
    h.steady.trans (.of_workers rfl rfl rfl), h.wait⟩
  exact (h.moves.goes g).of_disposal fun _ => rfl

theorem solitary_one (h : future.held = []) : (Wait.all [future]).Solitary :=
  ⟨Nat.le_refl 1, fun t ht => Future.ne_child_of_held h t (List.mem_singleton.mp ht).symm⟩

end Outcomes

namespace Layout

variable {w : World} {a : Around} {spot : FrameId → Spot} {p : Place} {k : WorkerId} {f : FrameId}

/-- Asking for what a frame waits for, one thing at a time. -/
theorem askWait (h : Layout w { a with polled := f :: a.polled } spot) (hhand : a.hand = [])
    (hspent : a.spent = []) (hk : p.worker = some k) (hcurrent : (w.worker k).current = some f)
    (hidle : (w.worker k).suspension = none) {wait : Wait} (hwait : (w.frame f).wait = some wait) :
    AsksWait w spot a k f (w.askWait p f wait) := by
  have hsolitary := (h.frames f).solitary wait hwait
  obtain ⟨hpending, hstage⟩ := h.pending_of_polled List.mem_cons_self
  have hask : ∀ future, (∀ t, future = .child t → wait = .one (.child t)) →
      Asks w spot a k f future (w.ask p f future) := by
    intro future hchild
    exact h.ask hhand hspent hk hcurrent hidle future fun t ht => by rw [hwait, hchild t ht]
  -- a wait that holds no handle is over
  have hover : ∀ w', w.Agrees w' → w.Steady w' → Frame.waitTasks (some wait) = [] →
      AsksWait w spot a k f (w'.setWait f none, .next) := by
    intro w' hagrees hsteady hheld
    have hanswered : Answered w spot a f .unknown w' spot := by
      refine ⟨?_, .of_frames (fun g => .refl _ _ _) fun g _ => by rw [hagrees.frame], hsteady,
        by rw [hagrees.frame]⟩
      have := h.of_agrees hagrees
      rw [hspent] at this
      exact this
    exact hanswered.next h hspent hwait hheld
  have hsame : w.Agrees w := ⟨fun _ => rfl, rfl, rfl, rfl, rfl, rfl⟩
  cases wait with
  | one future =>
    have := hask future fun t ht => by rw [ht]
    simp only [World.askWait]
    generalize w.ask p f future = r at this ⊢
    cases this with
    | ready hready => exact hready.next h hspent hwait rfl
    | pending hlayout hasking hsame' hheld =>
      exact hasking.suspend hlayout hspent hwait hsame' rfl rfl rfl trivial
    | fault hlayout => exact .raise hlayout
  | all futures =>
    match futures, hsolitary with
    | [], _ => exact hover w hsame (.refl w) rfl
    | [future], hsolitary =>
      have hne : ∀ t, future ≠ .child t :=
        fun t e => hsolitary.2 t (by rw [e]; exact List.mem_cons_self)
      have hheld := Future.held_of_ne_child hne
      have := hask future fun t ht => absurd ht (hne t)
      simp only [World.askWait, World.askAll]
      generalize w.ask p f future = r at this ⊢
      cases this with
      | ready hready => exact hready.next h hspent hwait hheld.symm
      | pending hlayout hasking hsame' hheld' =>
        exact hasking.suspend hlayout hspent hwait hsame' hheld.symm (hheld' hheld).symm rfl
          (solitary_one (hheld' hheld))
      | fault hlayout => exact .raise hlayout
  | any futures =>
    match futures, hsolitary with
    | [], _ =>
      exact hover (w.say p "won=-1") ⟨fun _ => rfl, rfl, rfl, rfl, rfl, rfl⟩
        (.of_workers rfl rfl rfl) rfl
    | [future], hsolitary =>
      have hne : ∀ t, future ≠ .child t :=
        fun t e => hsolitary.2 t (by rw [e]; exact List.mem_cons_self)
      have hheld := Future.held_of_ne_child hne
      have := hask future fun t ht => absurd ht (hne t)
      simp only [World.askWait, World.askAny]
      generalize w.ask p f future = r at this ⊢
      cases this with
      | ready hready => exact (hready.say p _).next h hspent hwait hheld.symm
      | pending hlayout hasking hsame' hheld' =>
        exact hasking.suspend hlayout hspent hwait hsame' hheld.symm (hheld' hheld).symm rfl
          (solitary_one (hheld' hheld))
      | fault hlayout => exact .raise hlayout
  | spin token asked spins most block =>
    simp only [World.askWait]
    split
    · exact hover (w.say p _) ⟨fun _ => rfl, rfl, rfl, rfl, rfl, rfl⟩ (.of_workers rfl rfl rfl) rfl
    · split
      · have hanswered : Answered w spot a f .unknown
            (w.prepend f (block ++ [.spinAgain token (spins + 1) most block])) spot := by
          refine ⟨?_, .of_frames (fun g => .refl _ _ _) fun g _ => ?_, .of_workers rfl rfl rfl, ?_⟩
          · have : Layout (w.prepend f (block ++ [.spinAgain token (spins + 1) most block])) _
                spot :=
              h.modifyCode hpending hstage ⟨rfl, rfl, rfl, rfl, rfl, rfl, rfl, rfl⟩ rfl rfl
            rw [hspent] at this
            exact this
          · rw [World.prepend, World.frame_modifyFrame]
            split <;> rfl
          · rw [World.prepend, World.frame_modifyFrame, if_pos rfl]
        exact hanswered.next h hspent hwait rfl
      · have hrequest : w.request p .turn =
            .ok (w.modifyWorker k fun worker => { worker with suspension := some .turn }) := by
          rw [World.request, hk]
        rw [hrequest]
        have hasks : Asks w spot a k f .unknown
            (w.modifyWorker k fun worker => { worker with suspension := some .turn },
              .pending .unknown) := h.ask_worker hhand hspent rfl rfl
        cases hasks with
        | pending hlayout hasking hsame' _ =>
          exact hasking.suspend hlayout hspent hwait hsame' rfl rfl rfl trivial

end Layout

end Substrate.Coro
