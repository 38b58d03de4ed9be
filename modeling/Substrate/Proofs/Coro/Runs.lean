import Substrate.Proofs.Coro.Calls

/-!
# Runs

A run of one thread, seen between primitive steps.  A `Moment` is a session
together with what its thread is in the middle of; the caller carries out an
operation when the thread is idle, and otherwise the thread takes a step.  Two
parts of a moment only record what has happened: the frames that were taken out
of slots and not scheduled yet, and the results with which bodies have returned.

* `Moment.session_steps`: what an operation leaves is what the steps of the thread
  lead to.
* `Reach allowed`: the moments of the runs in which everything is allowed.
* `Moment.Sound.leads`: what one move leads to, provided bodies wait for one thing at a
  time and only frames taken out of slots are scheduled (`Moment.Careful`).
* `Reach.sound` and `Reach.laidOut`: every moment of such a run has a layout.
-/

namespace Substrate.Coro

/-- The fault that a step ended with. -/
def Progress.fault : Progress → Option Fault
  | .failed e | .aborted e => some e
  | _ => none

/-- The session after a step of its thread; the result of the outermost activity is dropped. -/
def Session.receive (s : Session) : World × Thread × Progress → Session
  | (w, t, .finished (.output o)) => { s with world := w.dropOutput t.toPlace o }
  | (w, _, .aborted e) => { s with world := w, aborted := some e }
  | (w, _, _) => { s with world := w }

/-- A session and what its thread is in the middle of. -/
structure Moment where
  session : Session := {}
  thread : Thread := {}
  /-- The frames taken out of slots and not scheduled since. -/
  taken : List FrameId := []
  /-- The bodies that have returned, and their results. -/
  returned : List (FrameId × Output) := []
  /-- The first fault that left the activities of the thread. -/
  fault : Option Fault := none

/-- What happens next. -/
inductive Action where
  /-- The caller carries out an operation. -/
  | call (op : Op)
  /-- The thread takes a step. -/
  | step
  /-- The caller lets go of all tasks and workers. -/
  | close

namespace Moment

/-- Frames, workers and what they share. -/
def world (m : Moment) : World := m.session.world

/-- The moment after a step of the thread, or after activities have begun. -/
def arrive (m : Moment) (s : Session) (r : World × Thread × Progress) : Moment :=
  { m with session := s.receive r, thread := r.2.1, fault := m.fault.or r.2.2.fault }

/-- The moment after a step of the thread. -/
def step (m : Moment) : Moment :=
  { m with returned := m.thread.yields m.world ++ m.returned }.arrive m.session
    (m.thread.step m.world)

/-- The session with a log of its own for the next operation. -/
def opened (m : Moment) : Session := { m.session with world := { m.world with log := #[] } }

/-- The moment after an operation was carried out or has begun. -/
def call (m : Moment) (op : Op) : Moment :=
  match m.opened.launch op with
  | some (s, begun) => m.arrive s begun
  | none => { m with session := (m.opened.act op).1, taken := m.opened.takenAfter m.taken op }

/-- The moment an action leads to. -/
def act (m : Moment) : Action → Moment
  | .call op => m.call op
  | .step => m.step
  | .close => { m with session := m.session.close }

/-- What can happen at a moment: the caller waits for the thread, and once a body has raised
nothing happens any more. -/
def Can (m : Moment) : Action → Prop
  | .step => m.session.aborted = none ∧ m.thread.stack ≠ []
  | _ => m.session.aborted = none ∧ m.thread.stack = []

theorem Can.live {m : Moment} {action : Action} (h : m.Can action) : m.session.aborted = none := by
  cases action <;> exact h.1

instance (m : Moment) (action : Action) : Decidable (m.Can action) :=
  match action with
  | .call _ | .step | .close => inferInstanceAs (Decidable (_ ∧ _))

/-- The moment after some actions. -/
def after (m : Moment) : List Action → Moment
  | [] => m
  | action :: rest => (m.act action).after rest

/-- Actions can happen one after another and are all allowed. -/
def Admits (allowed : Moment → Action → Prop) (m : Moment) : List Action → Prop
  | [] => True
  | action :: rest => m.Can action ∧ allowed m action ∧ (m.act action).Admits allowed rest

instance decidableAdmits {allowed : Moment → Action → Prop}
    [∀ m action, Decidable (allowed m action)] (m : Moment) :
    ∀ actions, Decidable (m.Admits allowed actions)
  | [] => inferInstanceAs (Decidable True)
  | action :: rest =>
    have : Decidable ((m.act action).Admits allowed rest) := decidableAdmits (m.act action) rest
    inferInstanceAs
    (Decidable (m.Can action ∧ allowed m action ∧ (m.act action).Admits allowed rest))

end Moment

/-- The moments of the runs that start with given bodies and in which everything that happens
is allowed. -/
inductive Reach (allowed : Moment → Action → Prop) : Moment → Prop
  | start (bodies : Registers (List Stmt)) : Reach allowed { session := { world := { bodies } } }
  | next {m : Moment} {action : Action} (h : Reach allowed m) (hcan : m.Can action)
    (hallowed : allowed m action) : Reach allowed (m.act action)

theorem Reach.after {allowed : Moment → Action → Prop} {m : Moment} (h : Reach allowed m)
    {actions : List Action} (hadmits : m.Admits allowed actions) : Reach allowed
    (m.after actions) := by
  induction actions generalizing m with
  | nil => exact h
  | cons action rest ih => exact ih (h.next hadmits.1 hadmits.2.1) hadmits.2.2

/-! ## Operations and steps -/

namespace Moment

/-- The moment after some steps of the thread. -/
def steps : Nat → Moment → Moment
  | 0, m => m
  | n + 1, m => m.step.steps n

theorem receive_withWorld (s : Session) (world : World) (r : World × Thread × Progress) :
    { s with world }.receive r = s.receive r := by
  obtain ⟨w, t, progress⟩ := r
  cases progress with
  | finished result => cases result <;> rfl
  | _ => rfl

/-- A thread that runs takes steps. -/
theorem steps_run {s : Session} (fuel : Nat) :
    ∀ {m : Moment}, m.session = { s with world := m.world } →
      ∃ n, (m.steps n).session = s.receive (m.thread.run fuel m.world) := by
  induction fuel with
  | zero => exact fun {m} hm => ⟨0, hm⟩
  | succ fuel ih =>
    intro m hm
    have hstep : m.step.session = s.receive (m.thread.step m.world) := by
      show m.session.receive _ = _
      rw [hm, receive_withWorld]
    unfold Thread.run
    generalize hr : m.thread.step m.world = r at hstep
    split
    · have hworld : m.step.world = _ := congrArg Session.world hstep
      have hthread : m.step.thread = _ := congrArg (fun r => r.2.1) hr
      obtain ⟨n, hn⟩ := ih (m := m.step) (by rw [hworld]; exact hstep)
      rw [hworld, hthread] at hn
      exact ⟨n + 1, hn⟩
    · exact ⟨1, hstep⟩

theorem runThread_running (s : Session) (w : World) (t : Thread) :
    (s.runThread (w, t, .running)).1 = s.receive (t.run Session.fuel w) := by
  unfold Session.runThread
  simp only
  generalize t.run Session.fuel w = r
  obtain ⟨w, t, progress⟩ := r
  cases progress with
  | finished result => cases result <;> rfl
  | _ => rfl

theorem runThread_ended (s : Session) (w : World) (t : Thread) {progress : Progress}
    (h : progress ≠ .running) : (s.runThread (w, t, progress)).1 = s.receive (w, t, progress) := by
  cases progress with
  | running => exact absurd rfl h
  | finished result => cases result <;> rfl
  | _ => rfl

/-- What an operation leaves is what the steps of the thread lead to. -/
theorem session_steps (m : Moment) (op : Op) :
    ∃ n, ((m.call op).steps n).session = (m.session.apply op).1 := by
  unfold call
  split
  · rename_i s begun hlaunch
    have hact : (m.session.apply op).1 = (s.runThread begun).1 :=
      congrArg Prod.fst (Session.act_eq_runThread hlaunch)
    obtain ⟨w, t, progress⟩ := begun
    rw [hact]
    by_cases hrunning : progress = .running
    · rw [hrunning, runThread_running]
      exact steps_run (m := m.arrive s (w, t, .running)) Session.fuel rfl
    · rw [runThread_ended s w t hrunning]
      exact ⟨0, rfl⟩
  · exact ⟨0, rfl⟩

end Moment

/-! ## The thread of a run -/

namespace Thread

theorem abort_thread (w : World) (t : Thread) (f : FrameId) (message : String) :
    (abort w t f message).2.1.thread = t.thread := rfl

theorem unwind_thread (e : Fault) (stack : List Activity) :
    ∀ (w : World) (t : Thread), (unwind w t e stack).2.1.thread = t.thread := by
  induction stack with
  | nil => exact fun w t => rfl
  | cons activity below ih =>
    intro w t
    cases activity with
    | pump k outer count => exact ih _ _
    | release k token => exact ih _ _
    | block k task outer temporary => exact ih _ _
    | poll k f outer => exact abort_thread _ _ _ _

theorem beginBlock_thread (w : World) (t : Thread) (k : WorkerId) (task : Task) (temporary : Bool) :
    (beginBlock w t k task temporary).2.1.thread = t.thread := by
  unfold beginBlock
  simp only
  split
  · rfl
  · exact unwind_thread _ _ _ _

theorem giveResult_thread (w : World) (t : Thread) (r : Result) :
    (giveResult w t r).2.1.thread = t.thread := by
  unfold giveResult
  split <;> rfl

theorem suspend_thread (w : World) (t : Thread) (k : WorkerId) (f : FrameId)
    (outer : Option FrameId) :
    (suspend w t k f outer).2.1.thread = t.thread := by
  rw [suspend_eq]
  split
  · rfl
  · rfl
  · simp only
    split
    · exact unwind_thread _ _ _ _
    · split <;> rfl

theorem dispose_thread (w : World) (t : Thread) (k : WorkerId) (f : FrameId) :
    (dispose w t k f).2.1.thread = t.thread := by
  unfold dispose
  split
  · rfl
  · split
    · exact unwind_thread _ _ _ _
    · rfl

theorem runBody_thread (w : World) (t : Thread) (k : WorkerId) (f : FrameId)
    (outer : Option FrameId) :
    (runBody w t k f outer).2.1.thread = t.thread := by
  unfold runBody
  simp only
  split
  · rfl
  · rfl
  · exact beginBlock_thread _ _ _ _ _
  · exact abort_thread _ _ _ _
  · rfl
  · exact suspend_thread _ _ _ _ _
  · exact dispose_thread _ _ _ _

/-- A step does not take a thread elsewhere. -/
theorem step_thread (w : World) (t : Thread) : (step w t).2.1.thread = t.thread := by
  obtain ⟨p, stack⟩ := t
  cases stack with
  | nil => rfl
  | cons activity below =>
    cases activity with
    | pump k outer count =>
      simp only [step]
      split
      · exact giveResult_thread _ _ _
      · split <;> rfl
    | poll k f outer => exact runBody_thread _ _ _ _ _
    | release k token => rfl
    | block k task outer temporary =>
      simp only [step]
      split
      · exact giveResult_thread _ _ _
      · exact unwind_thread _ _ _ _

end Thread

/-! ## Moves -/

theorem Session.launch_same {s s' : Session} {op : Op} {begun : World × Thread × Progress}
    (h : s.launch op = some (s', begun)) : s'.aborted = s.aborted ∧ begun.2.1.thread = 0 := by
  cases op with
  | pump worker => cases h; exact ⟨rfl, rfl⟩
  | blockOn worker body arg => cases h; exact ⟨rfl, Thread.beginBlock_thread _ _ _ _ _⟩
  | blockOnFree body arg => cases h; exact ⟨rfl, Thread.beginBlock_thread _ _ _ _ _⟩
  | blockOnTask worker task =>
    simp only [Session.launch] at h
    obtain ⟨t, -, e⟩ := Option.map_eq_some_iff.mp h
    cases e
    exact ⟨rfl, Thread.beginBlock_thread _ _ _ _ _⟩
  | _ => cases h

theorem Session.attempt_aborted (s : Session) (r : Except Fault World) :
    (s.attempt r).1.aborted = s.aborted := by
  cases r <;> rfl

theorem Session.scheduleFrame_aborted (s : Session) (p : Place) (k : WorkerId) (f : FrameId) :
    (s.scheduleFrame p k f).1.aborted = s.aborted := by
  unfold Session.scheduleFrame
  split
  · rfl
  · split
    · rfl
    · exact attempt_aborted _ _

/-- An operation that is carried out at once does not end everything. -/
theorem Session.act_aborted {s : Session} {op : Op} (h : s.launch op = none) :
    (s.act op).1.aborted = s.aborted := by
  cases op
  case pump | blockOn | blockOnFree => cases h
  case blockOnTask worker task =>
    have hnone : (s.worker worker).1.world.tasks.get? task = none := by
      simp only [Session.launch] at h
      exact Option.map_eq_none_iff.mp h
    simp only [Session.act, Session.onTask, hnone]
    rfl
  case schedule | unpark | scheduleTask | foreign =>
    simp only [Session.act, Session.onTask]
    repeat' split
    all_goals first | rfl | exact scheduleFrame_aborted _ _ _ _
  all_goals
    simp only [Session.act, Session.onTask, Session.startTask]
    repeat' split
    all_goals rfl

theorem Turn.of_disposal {w w' w'' : World} {t : Thread} {progress : Progress} {g : FrameId}
    {s s' : Spot} (h : Turn w t w' progress g s s')
    (hdisposal : ∀ c, (w''.frame c).disposal = (w'.frame c).disposal) :
    Turn w t w'' progress g s s' := by
  cases h with
  | goes h => exact .goes (h.of_disposal hdisposal)
  | waits htop hwanted hfree hs' => exact .waits htop hwanted hfree hs'
  | refused htop hwanted htaken hs' => exact .refused htop hwanted htaken hs'
  | failed hprogress hs' => exact .failed hprogress hs'
  | woken hreturning hs hs' hworker => exact .woken hreturning hs hs' hworker
  | returns hreturning hs' => exact .returns hreturning hs'

/-- While a thread is idle, only the records of the frames matter. -/
theorem Turn.of_idle {w w₀ w' : World} {t : Thread} {progress : Progress} {g : FrameId}
    {s s' : Spot} (h : Turn w t w' progress g s s') (hidle : t.stack = [])
    (hframe : ∀ c, w.frame c = w₀.frame c) : Turn w₀ t w' progress g s s' := by
  have hpolling : t.polling = none := by rw [Thread.polling, hidle]
  have hreturning : t.returning w = none := by rw [Thread.returning, hpolling]; rfl
  cases h with
  | goes h =>
    refine .goes ⟨h.pending, ?_, h.child, h.waits⟩
    simpa only [hframe] using h.strand
  | waits htop => rw [hpolling] at htop; cases htop
  | refused htop => rw [hpolling] at htop; cases htop
  | failed hprogress hs' => exact .failed hprogress hs'
  | woken h => rw [hreturning] at h; cases h
  | returns h => rw [hreturning] at h; cases h

namespace Moment

/-- Bodies wait for one thing at a time, and only frames taken out of slots are scheduled. -/
def Careful (m : Moment) : Action → Prop
  | .call op => ∀ f ∈ m.session.scheduled op, f ∈ m.taken
  | .step => ∀ s ∈ m.thread.nextStmt m.world, s.waitsAlone = true ∧ s.schedulesSelf = false
  | .close => True

instance (m : Moment) (action : Action) : Decidable (m.Careful action) :=
  match action with
  | .call _ => inferInstanceAs (Decidable (∀ f ∈ _, _))
  | .step => inferInstanceAs (Decidable (∀ s ∈ _, _))
  | .close => inferInstanceAs (Decidable True)

/-- Every frame is in its place, and every worker as the thread says. -/
structure Sound (m : Moment) (spot : FrameId → Spot) : Prop extends
    Settled m.world m.thread m.taken m.returned spot where
  live : m.session.aborted = none
  thread : m.thread.thread = 0

/-- What a move can lead to. -/
inductive Leads (m : Moment) (spot : FrameId → Spot) (m' : Moment) : Prop
  | sound {spot' : FrameId → Spot} {progress : Progress} (h : m'.Sound spot')
    (hturn : ∀ g, Turn m.world m.thread m'.world progress g (spot g) (spot' g))
    (hfault : m'.fault = m.fault.or progress.fault)
  | aborted (haborted : m'.session.aborted ≠ none) (hfault : m'.fault ≠ none)
    (h : Abandoned spot m'.returned m'.world)

theorem receive_aborted {s : Session} {r : World × Thread × Progress}
    (h : r.2.2.isAborted = false) : (s.receive r).aborted = s.aborted := by
  obtain ⟨w, t, progress⟩ := r
  cases progress with
  | finished result => cases result <;> rfl
  | aborted e => cases h
  | _ => rfl

/-- Dropping the result of the outermost activity moves no frame. -/
theorem receive_agrees (s : Session) (r : World × Thread × Progress) :
    r.1.Agrees (s.receive r).world ∧ r.1.Steady (s.receive r).world := by
  obtain ⟨w, t, progress⟩ := r
  have hsame : w.Agrees w ∧ w.Steady w := ⟨⟨fun _ => rfl, rfl, rfl, rfl, rfl, rfl⟩, .refl w⟩
  cases progress with
  | finished result =>
    cases result with
    | output o =>
      obtain ⟨log, heq⟩ := Layout.dropOutput_eq w t.toPlace o
      show w.Agrees (w.dropOutput t.toPlace o) ∧ w.Steady (w.dropOutput t.toPlace o)
      rw [heq]
      exact ⟨⟨fun _ => rfl, rfl, rfl, rfl, rfl, rfl⟩, .of_workers rfl rfl rfl⟩
    | _ => exact hsame
  | _ => exact hsame

/-- A step leads to what it comes to. -/
theorem arrive_leads {m : Moment} {spot : FrameId → Spot} {s : Session}
    {r : World × Thread × Progress} (h : Outcome m.world m.thread m.taken m.returned spot r)
    (hlive : s.aborted = none) (hthread : r.2.1.thread = 0) :
    Leads m spot ({ m with returned := m.thread.yields m.world ++ m.returned }.arrive s r) := by
  cases h with
  | @settled w' t' progress spot' hprogress hsettled hturn =>
    obtain ⟨hagrees, hsteady⟩ := receive_agrees s (w', t', progress)
    refine .sound ⟨⟨hsettled.layout.of_agrees hagrees, hsettled.orderly.of_steady hsteady⟩, ?_,
      hthread⟩
      (fun g => (hturn g).of_disposal fun c => ?_) rfl
    · exact (receive_aborted hprogress).trans hlive
    · exact congrArg Frame.disposal (hagrees.frame c)
  | aborted hyields h =>
    refine .aborted nofun ?_ ?_
    · simp [arrive, Progress.fault]
    · show Abandoned spot (m.thread.yields m.world ++ m.returned) _
      rw [hyields]
      exact h

variable {m m' : Moment} {action : Action} {spot : FrameId → Spot}

/-- An idle thread is as it was at first. -/
theorem Sound.thread_eq (h : m.Sound spot) (hidle : m.thread.stack = []) : m.thread = {} := by
  have hentered := h.orderly.nested
  rw [hidle] at hentered
  have hthread := h.thread
  generalize m.thread = t at hidle hthread hentered
  obtain ⟨⟨thread, worker⟩, stack⟩ := t
  simp only at hidle hthread hentered
  subst hidle hthread
  rw [show worker = none from hentered]

theorem Sound.opened (h : m.Sound spot) (hidle : m.thread.stack = []) :
    Settled m.opened.world {} m.taken m.returned spot := by
  rw [← h.thread_eq hidle]
  exact ⟨h.layout.of_agrees ⟨fun _ => rfl, rfl, rfl, rfl, rfl, rfl⟩,
    h.orderly.of_steady (.of_workers rfl rfl rfl)⟩

theorem Leads.of_opened (h : Leads { m with session := m.opened } spot m')
    (hidle : m.thread.stack = []) : Leads m spot m' := by
  cases h with
  | sound h hturn hfault => exact .sound h (fun g => (hturn g).of_idle hidle fun c => rfl) hfault
  | aborted haborted hfault h => exact .aborted haborted hfault h

/-- What the caller does at once leads to what it leaves. -/
theorem Sound.called (h : m.Sound spot) (hidle : m.thread.stack = []) {s : Session}
    {taken : List FrameId} (hlive : s.aborted = none)
    (hcalled : Called m.opened.world spot taken m.returned s.world) :
    Leads m spot { m with session := s, taken } := by
  obtain ⟨spot', hsettled, hmoves⟩ := hcalled
  have hturn : ∀ g, Turn m.opened.world m.thread s.world .running g (spot g) (spot' g) :=
    fun g => .goes (hmoves.goes g)
  refine .of_opened (.sound ⟨?_, hlive, h.thread⟩ hturn Option.or_none.symm) hidle
  rw [show m.thread = {} from h.thread_eq hidle]
  exact hsettled

/-- What the caller has begun leads to the activities of the thread. -/
theorem Sound.launched (h : m.Sound spot) (hidle : m.thread.stack = []) {s : Session} {op : Op}
    {begun : World × Thread × Progress} (hlaunch : m.opened.launch op = some (s, begun)) :
    Leads m spot (m.arrive s begun) := by
  obtain ⟨hlive, hthread⟩ := Session.launch_same hlaunch
  have houtcome := Session.launch_outcome (h.opened hidle) hlaunch
  rw [← h.thread_eq hidle] at houtcome
  have hleads : Leads { m with session := m.opened } spot
      ({ m with returned := m.thread.yields m.opened.world ++ m.returned }.arrive s begun) :=
    arrive_leads (m := { m with session := m.opened }) houtcome (hlive.trans h.live) hthread
  have hyields : m.thread.yields m.opened.world = [] := by
    rw [h.thread_eq hidle]
    rfl
  rw [hyields] at hleads
  exact hleads.of_opened hidle

/-- What one move of a careful run leads to. -/
theorem Sound.leads (h : m.Sound spot) (hcan : m.Can action) (hcareful : m.Careful action) :
    Leads m spot (m.act action) := by
  cases action with
  | step =>
    exact arrive_leads (step_outcome h.toSettled hcareful) h.live
      ((Thread.step_thread _ _).trans h.thread)
  | close => exact h.called hcan.2 h.live (Session.close_called (s := m.opened) (h.opened hcan.2))
  | call op =>
    show Leads m spot (m.call op)
    unfold call
    split
    · rename_i s begun hlaunch
      exact h.launched hcan.2 hlaunch
    · rename_i hlaunch
      refine h.called hcan.2 ((Session.act_aborted hlaunch).trans h.live)
        (Session.act_called (h.opened hcan.2) hlaunch fun f hf => hcareful f ?_)
      cases op <;> exact hf

end Moment

/-! ## Every moment of a run -/

/-- The start of a run: there is nothing. -/
theorem sound_start (bodies : Registers (List Stmt)) :
    ({ session := { world := { bodies } } } : Moment).Sound fun _ => .absent := by
  have hframe : ∀ f, ({ bodies } : World).frame f = {} := fun f => Table.get_empty f
  have hworker : ∀ k, ({ bodies } : World).worker k = {} := fun k => Table.get_empty k
  have hlist : ∀ q, ({ bodies } : World).runLists.toList q = [] := RunLists.toList_empty
  refine ⟨⟨⟨⟨RunLists.sound_empty, fun q f => ?_, fun s f => ⟨nofun, nofun⟩,
    fun f => ⟨nofun, nofun⟩,
    List.nodup_nil, fun f => ⟨nofun, nofun⟩, List.nodup_nil, fun f => ⟨nofun, nofun⟩,
    List.nodup_nil⟩,
    fun c f => ?_, nofun, fun c f hc => ?_, fun f => ?_, nofun,
    fun f => ⟨nofun, nofun⟩, List.nodup_nil,
    nofun, fun c b => rfl, Registers.ordered_empty, nofun, fun f o => ⟨nofun, nofun⟩⟩,
    ⟨rfl, fun k => congrArg Worker.current (hworker k),
    fun k => congrArg Worker.suspension (hworker k),
      fun k => congrArg Worker.retired (hworker k), nofun, nofun⟩⟩, rfl, rfl⟩
  · show f ∈ ({ bodies } : World).runLists.toList q ↔ _
    rw [hlist]
    exact ⟨nofun, nofun⟩
  · show (({ bodies } : World).frame c).continuation = some f ↔ _
    rw [hframe]
    exact ⟨nofun, nofun⟩
  · exact nomatch (hframe c) ▸ hc
  · show Fits (({ bodies } : World).frame f) _
    rw [hframe]
    exact ⟨⟨nofun, fun h => absurd rfl h⟩, trivial, fun _ => rfl, nofun, fun _ => rfl, fun _ => rfl,
      fun h => absurd rfl h, nofun, List.nodup_nil⟩

namespace Reach

variable {allowed : Moment → Action → Prop} {m : Moment}

/-- Until a body raises, every frame is in its place. -/
theorem sound (h : Reach allowed m) (hcareful : ∀ m action, allowed m action → m.Careful action)
    (hlive : m.session.aborted = none) : ∃ spot, m.Sound spot := by
  induction h with
  | start bodies => exact ⟨_, sound_start bodies⟩
  | @next m action h hcan hallowed ih =>
    obtain ⟨spot, hsound⟩ := ih hcan.live
    cases hsound.leads hcan (hcareful _ _ hallowed) with
    | sound h => exact ⟨_, h⟩
    | aborted haborted => exact absurd hlive haborted

/-- There is a layout even after a body has raised. -/
theorem laidOut (h : Reach allowed m) (hcareful : ∀ m action, allowed m action → m.Careful action) :
    ∃ a spot, Layout m.world a spot ∧ a.returned = m.returned := by
  cases h with
  | start bodies => exact ⟨_, _, (sound_start bodies).layout, rfl⟩
  | @next m action h hcan hallowed =>
    obtain ⟨spot, hsound⟩ := h.sound hcareful hcan.live
    cases hsound.leads hcan (hcareful _ _ hallowed) with
    | sound h => exact ⟨_, _, h.layout, rfl⟩
    | aborted _ _ h =>
      obtain ⟨a, spot', hlayout, -, hreturned⟩ := h
      exact ⟨a, spot', hlayout, hreturned⟩

end Reach

end Substrate.Coro
