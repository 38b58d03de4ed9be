import Substrate.Proofs.Coro.HeldTasks
import Substrate.Proofs.Coro.Whereabouts

/-!
# What keeps frames from running

A frame that awaits a task of its own holds the handle, and was made before the
frame of that task.  So frames await one another in chains that end.

* `Moment.Reserved` is what a run has to keep to, `Moment.Sheltered.leads` what a
  move of it preserves.
* `Stacked` says which activities begin on top of which; `Reach.tiered` holds of
  every run.
-/

namespace Substrate.Coro

/-! ## Handles on what is awaited -/

/-- A frame holds a handle on frame `c`. -/
def Frame.Holds (fr : Frame) (c : FrameId) : Prop := ∃ b, ⟨some c, b⟩ ∈ fr.heldTasks

namespace World

variable {w w' : World} {p : Place} {g c : FrameId}

theorem pollTask_pending {t t' : Task} (h : w.pollTask p t = (w', t', .pending)) :
    t'.frame = t.frame ∧ ∀ g, (w'.frame g).tasks = (w.frame g).tasks := by
  unfold pollTask at h
  split at h
  · cases h
  · rename_i f hf
    split at h
    · split at h <;> cases h
    · split at h
      · cases h
      · rename_i k parent _
        have hsame : ∀ g, ((w.subscribe f parent).frame g).tasks = (w.frame g).tasks := by
          intro g
          rw [subscribe, frame_modifyFrame]
          split <;> rfl
        simp only at h
        split at h
        · cases h
          exact ⟨rfl, hsame⟩
        · cases h
          refine ⟨rfl, fun g => ?_⟩
          rw [frame_enqueue]
          exact hsame g

/-- A body that asks for the result of a task of its own in vain keeps the handle. -/
theorem ask_pending {future left : Future} (hask : w.ask p g future = (w', .pending left))
    (hnames : ∀ name ∈ future.names, isShared name = false) (htarget : future.target w g = some c) :
    (∃ b, ⟨some c, b⟩ ∈ (w'.frame g).tasks.map Prod.snd) ∨
      ∃ t b, future = .child t ∧ left = .child ⟨some c, b⟩ := by
  cases future with
  | task name =>
    simp only [Future.target] at htarget
    simp only [ask] at hask
    cases hfind : w.findTask g name with
    | none =>
      rw [hfind] at htarget
      cases htarget
    | some t =>
      rw [hfind] at htarget
      simp only [hfind] at hask
      generalize hpoll : w.pollTask p t = r at hask
      obtain ⟨w₁, t', polled⟩ := r
      cases polled with
      | pending =>
        cases hask
        obtain ⟨hframe, htasks⟩ := pollTask_pending hpoll
        unfold findTask at hfind
        rw [hnames name List.mem_cons_self] at hfind
        have hmem : (name, t) ∈ (w₁.frame g).tasks := by
          rw [htasks]
          exact mem_of_lookup hfind
        have hupdated : (name, t') ∈ ((w₁.updateTask g name t').frame g).tasks := by
          unfold updateTask
          rw [hnames name List.mem_cons_self]
          simp only [Bool.false_eq_true, if_false, frame_modifyFrame, if_true]
          exact List.mem_map.mpr ⟨_, hmem, by rw [if_pos (beq_self_eq_true name)]⟩
        have ht' : t' = ⟨some c, t'.started⟩ := by
          rw [← (hframe.trans htarget : t'.frame = some c)]
        exact .inl ⟨t'.started, ht' ▸ List.mem_map_of_mem hupdated⟩
      | ready o => cases hask
      | fault e => cases hask
  | child t =>
    simp only [ask] at hask
    generalize hpoll : w.pollTask p t = r at hask
    obtain ⟨w₁, t', polled⟩ := r
    cases polled with
    | pending =>
      cases hask
      obtain ⟨hframe, -⟩ := pollTask_pending hpoll
      refine .inr ⟨t, t'.started, rfl, ?_⟩
      rw [← (hframe.trans htarget : t'.frame = some c)]
    | ready o => cases hask
    | fault e => cases hask
  | turn asked => cases htarget
  | park slot token asked => cases htarget
  | checkpoint name token asked => cases htarget
  | unknown => cases htarget

/-- A body that waits for a task of its own holds the handle. -/
theorem askWait_suspend {wait : Wait} (hasked : w.askWait p g wait = (w', .suspend))
    (hsolitary : wait.Solitary) (hnames : ∀ name ∈ wait.names, isShared name = false)
    (htarget : wait.target w g = some c) : (w'.frame g).Holds c := by
  have hkept : ∀ {w₁ : World} {wait' : Wait}, (∃ b, ⟨some c, b⟩ ∈ (w₁.frame g).tasks.map Prod.snd) →
      ((w₁.setWait g (some wait')).frame g).Holds c := by
    rintro w₁ wait' ⟨b, hb⟩
    refine ⟨b, List.mem_append_right _ ?_⟩
    rw [setWait, frame_modifyFrame, if_pos rfl]
    exact hb
  have halone : ∀ {future left : Future} {w₁ : World}, w.ask p g future = (w₁, .pending left) →
      (∀ name ∈ [future].flatMap Future.names, isShared name = false) →
      future.target w g = some c → (∀ t, .child t ∉ [future]) →
      ∃ b, ⟨some c, b⟩ ∈ (w₁.frame g).tasks.map Prod.snd := by
    intro future left w₁ hask hnames htarget hchild
    rcases ask_pending hask
      (fun name hname => hnames name (List.mem_append_left _ hname)) htarget with
      hheld | ⟨t, b, rfl, -⟩
    · exact hheld
    · exact absurd List.mem_cons_self (hchild t)
  cases wait with
  | one future =>
    simp only [askWait] at hasked
    generalize hask : w.ask p g future = r at hasked
    obtain ⟨w₁, asked⟩ := r
    cases asked with
    | pending left =>
      cases hasked
      rcases ask_pending hask hnames htarget with hheld | ⟨t, b, -, rfl⟩
      · exact hkept hheld
      · refine ⟨b, List.mem_append_left _ ?_⟩
        rw [setWait, frame_modifyFrame, if_pos rfl]
        exact List.mem_cons_self
    | ready => cases hasked
    | fault e => cases hasked
  | all futures =>
    cases futures with
    | nil => cases htarget
    | cons future rest =>
      cases rest with
      | cons next rest => cases htarget
      | nil =>
        simp only [askWait, askAll] at hasked
        generalize hask : w.ask p g future = r at hasked
        obtain ⟨w₁, asked⟩ := r
        cases asked with
        | pending left =>
          cases hasked
          exact hkept (halone hask hnames htarget hsolitary.2)
        | ready => cases hasked
        | fault e => cases hasked
  | any futures =>
    cases futures with
    | nil => cases htarget
    | cons future rest =>
      cases rest with
      | cons next rest => cases htarget
      | nil =>
        simp only [askWait, askAny] at hasked
        generalize hask : w.ask p g future = r at hasked
        obtain ⟨w₁, asked⟩ := r
        cases asked with
        | pending left =>
          cases hasked
          exact hkept (halone hask hnames htarget hsolitary.2)
        | ready => cases hasked
        | fault e => cases hasked
  | spin token asked spins most block => cases htarget

/-- A body that asks for what it waits for goes on, waits or raises. -/
theorem askWait_move (w : World) (p : Place) (g : FrameId) (wait : Wait) :
    (w.askWait p g wait).2 = .next ∨ (w.askWait p g wait).2 = .suspend ∨
      ∃ message, (w.askWait p g wait).2 = .raise message := by
  unfold askWait
  split
  · split
    · exact .inl rfl
    · exact .inr (.inl rfl)
    · exact .inr (.inr ⟨_, rfl⟩)
  · split
    · exact .inl rfl
    · exact .inr (.inl rfl)
    · exact .inr (.inr ⟨_, rfl⟩)
  · exact .inl rfl
  · split
    · exact .inl rfl
    · exact .inr (.inl rfl)
    · exact .inr (.inr ⟨_, rfl⟩)
  · split
    · exact .inl rfl
    · split
      · exact .inl rfl
      · split
        · exact .inr (.inl rfl)
        · exact .inr (.inr ⟨_, rfl⟩)

theorem mem_held {t : Task} (hg : g < w.frameCount) (ht : t ∈ (w.frame g).heldTasks) : t ∈ w.held :=
  List.mem_append_right _ (List.mem_flatMap.mpr ⟨g, List.mem_range.mpr hg, ht⟩)

end World

/-- A handle is on a frame that is there and belongs to a task. -/
theorem Layout.of_handle {w : World} {a : Around} {spot : FrameId → Spot} (h : Layout w a spot)
    (hspent : a.spent = []) {c : FrameId} {b : Bool} (ht : ⟨some c, b⟩ ∈ w.held ++ a.handles) :
    spot c ≠ .absent ∧ (w.frame c).disposal = .awaited ∧ (spot c = .unstarted → b = false) := by
  have hcount := h.handles c b
  rw [hspent, List.count_nil, Nat.add_zero] at hcount
  have hpos : 0 < (spot c).owed (w.frame c).disposal b := hcount ▸ List.count_pos_iff.mpr ht
  have hawaited := (h.frames c).awaited
  cases hspot : spot c <;> cases hdisposal : (w.frame c).disposal <;> cases b <;>
    simp_all [Spot.owed]

/-! ## Moves -/

namespace Moment

variable {m : Moment} {action : Action} {spot : FrameId → Spot} {poller : FrameId → FrameId}

/-- A tidy run in which bodies also keep to the tasks they made themselves. -/
structure Reserved (poller : FrameId → FrameId) (m : Moment) (action : Action) : Prop extends
    m.Tidy poller action where
  homely : m.Homely action

instance (poller : FrameId → FrameId) (m : Moment) (action : Action) :
    Decidable (m.Reserved poller action) :=
  decidable_of_iff (m.Tidy poller action ∧ m.Homely action)
    ⟨fun h => ⟨h.1, h.2⟩, fun h => ⟨h.toTidy, h.homely⟩⟩

/-- Every frame is in its place, and holds a handle on the frame it awaits, which was made
after it. -/
structure Sheltered (poller : FrameId → FrameId) (m : Moment) (spot : FrameId → Spot) : Prop extends
    m.Placed poller spot where
  descends : m.Descends
  holds : ∀ c g, (m.world.frame c).continuation = some g → (m.world.frame g).Holds c

theorem Sound.made_polling (h : m.Sound spot) : ∀ g ∈ m.thread.polling, g < m.world.frameCount := by
  intro g hg
  refine h.layout.lt_of_pending ?_
  rw [h.polling hg]
  trivial

/-- What is in flight stays alive, if its own code does not run and nothing fails. -/
theorem pending_of_turn {w w' : World} {t : Thread} {progress : Progress}
    {g : FrameId} {s s' : Spot}
    (hturn : Turn w t w' progress g s s') (hprogress : progress.fault = none)
    (htop : t.polling ≠ some g) (hs : s.IsPending) : s'.IsPending := by
  cases hturn with
  | goes hgoes => exact hgoes.pending hs
  | waits hg => exact absurd hg htop
  | refused hg => exact absurd hg htop
  | failed hfailed =>
    rw [hfailed] at hprogress
    cases hprogress
  | woken _ _ hs' =>
    rw [hs']
    trivial
  | returns hreturning => exact absurd (Option.filter_eq_some_iff.mp hreturning).1 htop

/-- A frame that awaits another one is not being polled. -/
theorem Placed.not_polling (h : m.Placed poller spot) {c g : FrameId}
    (hg : (m.world.frame c).continuation = some g) : m.thread.polling ≠ some g := by
  intro htop
  have hawaiting := (h.awaiting_iff c g).mp hg
  rw [h.toSound.polling htop] at hawaiting
  cases hawaiting

theorem Placed.waiting (h : m.Placed poller spot) {c g : FrameId}
    (hg : (m.world.frame c).continuation = some g) : (spot g).IsPending := by
  rw [(h.awaiting_iff c g).mp hg]
  trivial

/-- A frame that awaits another one keeps what it holds. -/
theorem Sheltered.keeps (h : m.Sheltered poller spot) (hcan : m.Can action)
    (hhomely : m.Homely action) {spot' : FrameId → Spot} (h' : (m.act action).Sound spot')
    {progress : Progress} (hprogress : progress.fault = none) {c g : FrameId}
    (hturn : Turn m.world m.thread (m.act action).world progress g (spot g) (spot' g))
    (hg : (m.world.frame c).continuation = some g) :
    ((m.act action).world.frame g).heldTasks = (m.world.frame g).heldTasks ∧
      g < (m.act action).world.frameCount := by
  have htop := h.toPlaced.not_polling hg
  have hpending := h.toPlaced.waiting hg
  have hpending' := pending_of_turn hturn hprogress htop hpending
  have hretains := hhomely.retains hcan h.descends h.toSound.made_polling
  refine ⟨hretains.kept htop (h.layout.lt_of_pending hpending) ?_,
    h'.layout.lt_of_pending hpending'⟩
  rw [h'.alive_iff]
  intro habsent
  rw [habsent] at hpending'
  exact hpending'

/-- Nobody drops a handle on which a frame waits. -/
theorem Sheltered.disciplined (h : m.Sheltered poller spot) (hcan : m.Can action)
    (hreserved : m.Reserved poller action) (hfault : (m.act action).fault = none) :
    m.Disciplined poller action := by
  refine ⟨hreserved.toTidy, fun c hc hcont => ?_⟩
  obtain ⟨g, hg⟩ := Option.ne_none_iff_exists'.mp hcont
  obtain ⟨b, hb⟩ := h.holds c g hg
  cases h.toSound.leads hcan hreserved.careful with
  | aborted _ hfault' => exact absurd hfault hfault'
  | @sound spot' progress h' hturn hprogress =>
    rw [hfault] at hprogress
    obtain ⟨hheld, hmade⟩ := h.keeps hcan hreserved.homely h'
      (Option.or_eq_none_iff.mp hprogress.symm).2 (hturn g) hg
    have hmem := World.mem_held hmade (hheld ▸ hb)
    exact (h'.layout.of_handle rfl (List.mem_append_left _ hmem)).2.1

/-- The step in which a body comes to wait for a task of its own. -/
theorem Sheltered.holds_waits (h : m.Sheltered poller spot) (hhomely : m.Homely .step)
    (hfault : m.step.fault = none) {spot' : FrameId → Spot} (h' : m.step.Sound spot')
    {c g : FrameId} (htop : m.thread.polling = some g) (hwanted : m.world.wanted g = some c)
    (hawaiting : spot' g = .awaiting c) : (m.step.world.frame g).Holds c := by
  obtain ⟨k, outer, below, hstack⟩ : ∃ k outer below, m.thread.stack =
      .poll k g outer :: below := by
    unfold Thread.polling at htop
    split at htop
    · rename_i k f outer below hstack
      cases htop
      exact ⟨k, outer, below, hstack⟩
    · cases htop
  obtain ⟨wait, hwait, htarget⟩ := Option.bind_eq_some_iff.mp hwanted
  have hstep : m.thread.step m.world =
      Thread.follow m.world { m.thread with stack := below } k g outer
      (m.world.askWait m.thread.toPlace g wait).1 (m.world.askWait m.thread.toPlace g wait).2 := by
    unfold Thread.step
    rw [hstack]
    simp only
    rw [Thread.runBody_eq]
    unfold Thread.advance
    rw [hwait]
  have hnames : ∀ name ∈ wait.names, World.isShared name = false := by
    intro name hname
    refine hhomely name ?_
    rw [Thread.mentions, htop]
    simp only [hwait]
    exact hname
  generalize hasked : m.world.askWait m.thread.toPlace g wait = r at hstep
  obtain ⟨after, move⟩ := r
  have hmove := World.askWait_move m.world m.thread.toPlace g wait
  rw [hasked] at hmove
  rcases hmove with rfl | rfl | ⟨message, rfl⟩
  · -- the body goes on, so its frame is still being polled
    have hpolled : spot' g = .polled := by
      refine (h'.layout.polled g).mp ?_
      show g ∈ polls (m.thread.step m.world).2.1.stack
      rw [hstep]
      exact List.mem_cons_self
    rw [hawaiting] at hpolled
    cases hpolled
  · have hholds :=
      World.askWait_suspend hasked ((h.layout.frames g).solitary wait hwait) hnames htarget
    obtain ⟨b, hb⟩ := hholds
    have hworld : m.step.world.frame g =
        (Thread.suspend after { m.thread with stack := below } k g outer).1.frame g := by
      have hagrees := (receive_agrees m.session (m.thread.step m.world)).1.frame g
      rw [hstep] at hagrees
      show ((m.session.receive (m.thread.step m.world)).world).frame g = _
      rw [hstep]
      exact hagrees
    have halive : (m.step.world.frame g).alive = true := by
      rw [h'.alive_iff, hawaiting]
      rintro ⟨⟩
    rw [hworld] at halive ⊢
    have hsuspended := (World.Owned.course none after).suspend after.owned_none.refl
      { m.thread with stack := below } k g outer
    rcases hsuspended.held g (by rintro ⟨⟩) with hsame | ⟨-, hdead | hnew⟩
    · exact ⟨b, hsame ▸ hb⟩
    · rw [halive] at hdead
      cases hdead
    · -- the frame was there before
      have hretains := Thread.advance_retains (w := m.world) (fun g' _ => h.descends g')
        (h.toSound.made_polling g htop) m.thread htop hhomely m.thread.toPlace
      have hafter : (Thread.advance m.world m.thread.toPlace g).1 = after := by
        unfold Thread.advance
        rw [hwait]
        exact congrArg Prod.fst hasked
      rw [hafter] at hretains
      exact absurd (Nat.lt_of_lt_of_le (h.toSound.made_polling g htop) hretains.count)
        (Nat.not_lt.mpr hnew)
  · -- a body that raises ends everything
    have hraised : m.step.fault = m.fault.or (m.thread.step m.world).2.2.fault := rfl
    rw [hstep, hfault] at hraised
    have := (Option.or_eq_none_iff.mp hraised.symm).2
    cases this

/-- What a reserved move preserves. -/
theorem Sheltered.leads (h : m.Sheltered poller spot) (hcan : m.Can action)
    (hreserved : m.Reserved poller action) (hfault : (m.act action).fault = none) :
    ∃ spot', (m.act action).Sheltered poller spot' := by
  obtain ⟨spot', progress, h', hturn, hprogress⟩ :=
    h.toPlaced.leads hcan (h.disciplined hcan hreserved hfault) hfault
  have hhomely := hreserved.homely
  refine ⟨spot', h', hhomely.descends hcan h.descends h.toSound.made_polling, fun c g hg => ?_⟩
  by_cases hold : (m.world.frame c).continuation = some g
  · obtain ⟨b, hb⟩ := h.holds c g hold
    exact ⟨b, (h.keeps hcan hhomely h'.toSound hprogress (hturn g) hold).1 ▸ hb⟩
  · have hawaiting := (h'.awaiting_iff c g).mp hg
    have hcame := hturn g
    rw [hawaiting] at hcame
    cases hcame with
    | goes hgoes => exact absurd ((h.awaiting_iff c g).mpr (hgoes.child c rfl)) hold
    | waits htop hwanted _ hs =>
      cases hs
      cases action with
      | step => exact h.holds_waits hhomely hfault h'.toSound htop hwanted hawaiting
      | call op =>
        rw [Thread.polling, hcan.2] at htop
        cases htop
      | close =>
        rw [Thread.polling, hcan.2] at htop
        cases htop
    | refused _ _ _ hs => cases hs
    | failed _ hs => cases hs
    | woken _ _ hs => cases hs
    | returns _ hs => rcases hs with hs | hs <;> cases hs

end Moment

/-- Every moment of a reserved run without a fault. -/
theorem Reach.sheltered {poller : FrameId → FrameId} {m : Moment}
    (h : Reach (Moment.Reserved poller) m) (hfault : m.fault = none) :
    ∃ spot, m.Sheltered poller spot := by
  induction h with
  | start bodies =>
    have hframe : ∀ g, ({ bodies } : World).frame g = {} := fun g => Table.get_empty g
    have hnone : ∀ c f, (({ bodies } : World).frame c).continuation ≠ some f := by
      intro c f hc
      rw [hframe] at hc
      cases hc
    refine ⟨_, ⟨sound_start bodies, fun f => by rintro ⟨⟩, fun c f hc => absurd hc (hnone c f)⟩,
      fun g t ht => ?_, fun c g hg => absurd hg (hnone c g)⟩
    replace ht : t ∈ (({ bodies } : World).frame g).heldTasks := ht
    rw [hframe] at ht
    cases ht
  | next _ hcan hreserved ih =>
    obtain ⟨spot, h⟩ := ih (Moment.fault_of_act hfault)
    exact h.leads hcan hreserved hfault

/-! ## Activities on top of one another -/

/-- What an activity begins on top of: a worker that is pumped polls frames and releases their
tokens, the body of a frame pumps workers and runs tasks to their end, and for that the
worker of the task is pumped. -/
def Activity.RestsOn : Activity → List Activity → Prop
  | .poll k _ _, .pump k' _ _ :: _ | .release k _, .pump k' _ _ :: _ => k' = k
  | .pump k _ _, .block k' _ _ _ :: _ => k' = k
  | .pump _ _ _, [] | .pump _ _ _, .poll _ _ _ :: _ => True
  | .block _ task _ _, [] | .block _ task _ _, .poll _ _ _ :: _ =>
    task.started = true ∧ task.frame.isSome = true
  | _, _ => False

def Stacked : List Activity → Prop
  | [] => True
  | activity :: below => activity.RestsOn below ∧ Stacked below

/-- An activity that pumps a worker. -/
def Activity.isPump : Activity → Bool
  | .pump _ _ _ => true
  | _ => false

/-- How many frames a pump has resumed does not matter. -/
theorem Stacked.recount {k : WorkerId} {outer : Option WorkerId} {count : Nat}
    {below : List Activity}
    (h : Stacked (.pump k outer count :: below)) (count' : Nat) :
    Stacked (.pump k outer count' :: below) := by
  refine ⟨?_, h.2⟩
  have hrests := h.1
  cases below with
  | nil => trivial
  | cons next rest => cases next <;> exact hrests

/-- Without a pump there is no poll. -/
theorem Stacked.polls_eq_nil {stack : List Activity} (h : Stacked stack)
    (hpump : ∀ activity ∈ stack, activity.isPump = false) : polls stack = [] := by
  induction stack with
  | nil => rfl
  | cons activity below ih =>
    have hbelow := ih h.2 fun activity hmem => hpump activity (List.mem_cons_of_mem _ hmem)
    cases activity with
    | poll k f outer =>
      cases below with
      | nil => exact h.1.elim
      | cons next rest =>
        cases next with
        | pump k' outer' count => cases hpump _ (List.mem_cons_of_mem _ List.mem_cons_self)
        | _ => exact h.1.elim
    | _ => exact hbelow

theorem World.nextFrame_none {w w' : World} (hlists : w'.runLists = w.runLists) {k : WorkerId}
    (h : w.nextFrame k = none) : w'.nextFrame k = none := by
  unfold World.nextFrame at h ⊢
  rw [hlists]
  cases hpop : w.runLists.pop (readyList k) with
  | some r =>
    rw [hpop] at h
    cases h
  | none =>
    rw [hpop] at h
    simp only [Option.map_eq_none_iff] at h ⊢
    exact h

namespace Thread

variable {w : World} {t : Thread}

theorem unwind_stack (e : Fault) (stack : List Activity) :
    ∀ (w : World) (t : Thread), (unwind w t e stack).2.1.stack = [] := by
  induction stack with
  | nil => exact fun w t => rfl
  | cons activity below ih =>
    intro w t
    cases activity with
    | poll k f outer => rfl
    | _ => exact ih _ _

theorem giveResult_same (w : World) (t : Thread) (r : Result) :
    (giveResult w t r).2.1 = t ∧ (giveResult w t r).1.runLists = w.runLists := by
  unfold giveResult
  split
  · exact ⟨rfl, rfl⟩
  · exact ⟨rfl, rfl⟩
  · rename_i k f outer below o _
    refine ⟨rfl, ?_⟩
    obtain ⟨log, heq⟩ := Layout.dropOutput_eq (w.gain f o.value) t.toPlace o
    simp only [World.useOutput, heq]
    rfl
  · exact ⟨rfl, rfl⟩

theorem giveResult_fault (w : World) (t : Thread) (r : Result) :
    (giveResult w t r).2.2.fault = none := by
  unfold giveResult
  split <;> rfl

theorem beginBlock_stack (w : World) (t : Thread) (k : WorkerId) (task : Task) (temporary : Bool) :
    (beginBlock w t k task temporary).2.1.stack = [] ∨
      ∃ task' outer outer', task'.started = true ∧ task'.frame.isSome = true ∧
        (beginBlock w t k task temporary).2.1.stack =
          .pump k outer' 0 :: .block k task' outer temporary :: t.stack := by
  unfold beginBlock
  simp only
  generalize hstart : w.startTask _ k task = r
  obtain ⟨task', result⟩ := r
  cases result with
  | error e => exact .inl (unwind_stack _ _ _ _)
  | ok w' =>
    obtain ⟨g, -, rfl, -⟩ := World.startTask_ok hstart
    exact .inr ⟨_, _, _, rfl, rfl, rfl⟩

theorem suspend_stack (w : World) (t : Thread) (k : WorkerId) (f : FrameId)
    (outer : Option FrameId) :
    (suspend w t k f outer).2.1.stack = [] ∨ (suspend w t k f outer).2.1.stack = t.stack ∨
      ∃ token, (suspend w t k f outer).2.1.stack = .release k token :: t.stack := by
  rw [suspend_eq]
  split
  · exact .inr (.inl rfl)
  · exact .inr (.inl rfl)
  · simp only
    split
    · exact .inl (unwind_stack _ _ _ _)
    · split
      · exact .inr (.inl rfl)
      · exact .inr (.inr ⟨_, rfl⟩)

theorem dispose_stack (w : World) (t : Thread) (k : WorkerId) (f : FrameId) :
    (dispose w t k f).2.1.stack = [] ∨ (dispose w t k f).2.1.stack = t.stack := by
  unfold dispose
  split
  · exact .inr rfl
  · split
    · exact .inl (unwind_stack _ _ _ _)
    · exact .inr rfl

end Thread

/-- Activities are stacked, and the one on top is not the running of a task to its end, unless
its worker has nothing left to run. -/
structure World.Tiered (w : World) (stack : List Activity) : Prop where
  stacked : Stacked stack
  drained : ∀ k task outer temporary below, stack = .block k task outer temporary :: below →
    w.nextFrame k = none

namespace World.Tiered

variable {w w' : World} {t : Thread}

theorem nil (w : World) : w.Tiered [] := ⟨trivial, fun _ _ _ _ _ e => by cases e⟩

theorem of_runLists {stack : List Activity} (h : w.Tiered stack)
    (hlists : w'.runLists = w.runLists) :
    w'.Tiered stack :=
  ⟨h.stacked, fun k task outer temporary below e =>
    nextFrame_none hlists (h.drained k task outer temporary below e)⟩

theorem beginBlock {w₀ : World} (h : Stacked t.stack)
    (hrests : t.stack = [] ∨ ∃ k f outer below, t.stack = .poll k f outer :: below) (k : WorkerId)
    (task : Task) (temporary : Bool) :
    w.Tiered (Thread.beginBlock w₀ t k task temporary).2.1.stack := by
  rcases Thread.beginBlock_stack w₀ t k task temporary with e |
    ⟨task', outer, outer', hstarted, hframe, e⟩
  · rw [e]
    exact .nil w
  · rw [e]
    refine ⟨⟨rfl, ?_, h⟩, fun _ _ _ _ _ e => by cases e⟩
    rcases hrests with e | ⟨k', f, outer'', below, e⟩
    · rw [e]
      exact ⟨hstarted, hframe⟩
    · rw [e]
      exact ⟨hstarted, hframe⟩

/-- A body goes on, waits or returns. -/
theorem follow {k : WorkerId} {f : FrameId} {outer : Option FrameId}
    (h : Stacked (.poll k f outer :: t.stack)) (after : World) (move : World.Move) :
    w'.Tiered (Thread.follow w t k f outer after move).2.1.stack := by
  have hself : w'.Tiered (.poll k f outer :: t.stack) := ⟨h, fun _ _ _ _ _ e => by cases e⟩
  obtain ⟨k', outer', count, below, hbelow⟩ : ∃ k' outer' count below,
      t.stack = .pump k' outer' count :: below := by
    have hrests := h.1
    cases hstack : t.stack with
    | nil =>
      rw [hstack] at hrests
      exact hrests.elim
    | cons next below =>
      rw [hstack] at hrests
      cases next with
      | pump k' outer' count => exact ⟨k', outer', count, below, rfl⟩
      | _ => exact hrests.elim
  have hleft : w'.Tiered t.stack := ⟨h.2, fun _ _ _ _ _ e => by rw [hbelow] at e; cases e⟩
  cases move with
  | next => exact hself
  | stuck => exact hself
  | raise message => exact .nil w'
  | pump k'' => exact ⟨⟨trivial, h⟩, fun _ _ _ _ _ e => by cases e⟩
  | block k'' task temporary =>
    exact beginBlock (t := { t with stack := .poll k f outer :: t.stack }) h
      (.inr ⟨_, _, _, _, rfl⟩) k'' task temporary
  | suspend =>
    show w'.Tiered (Thread.suspend after t k f outer).2.1.stack
    rcases Thread.suspend_stack after t k f outer with e | e | ⟨token, e⟩ <;> rw [e]
    · exact .nil w'
    · exact hleft
    · refine ⟨⟨?_, h.2⟩, fun _ _ _ _ _ e => by cases e⟩
      have hrests := h.1
      rw [hbelow] at hrests ⊢
      exact hrests
  | finish =>
    show w'.Tiered (Thread.dispose (Thread.finish after t.toPlace k f outer) t k f).2.1.stack
    rcases Thread.dispose_stack (Thread.finish after t.toPlace k f outer) t k f with e |
      e <;> rw [e]
    · exact .nil w'
    · exact hleft

/-- What a step of a thread preserves. -/
theorem step (h : w.Tiered t.stack) : (t.step w).1.Tiered (t.step w).2.1.stack := by
  obtain ⟨p, stack⟩ := t
  have hstacked := h.stacked
  cases stack with
  | nil => exact .nil w
  | cons activity below =>
    cases activity with
    | pump k outer count =>
      simp only [Thread.step]
      split
      · rename_i hnone
        obtain ⟨hthread, hlists⟩ :=
          Thread.giveResult_same w ⟨{ p with worker := outer }, below⟩ (.count count)
        have hbelow : w.Tiered below := by
          refine ⟨hstacked.2, fun k' task outer' temporary rest e => ?_⟩
          have hrests := hstacked.1
          replace e : below = .block k' task outer' temporary :: rest := e
          rw [e] at hrests
          rw [show k' = k from hrests]
          exact hnone
        have hleft := hbelow.of_runLists hlists
        rw [hthread]
        exact hleft
      · split
        · exact ⟨⟨rfl, hstacked.recount (count + 1)⟩, fun _ _ _ _ _ e => by cases e⟩
        · exact ⟨hstacked, fun _ _ _ _ _ e => by cases e⟩
    | poll k f outer =>
      simp only [Thread.step]
      rw [Thread.runBody_eq]
      exact follow (t := ⟨p, below⟩) hstacked _ _
    | release k token =>
      refine ⟨hstacked.2, fun k' task outer temporary rest e => ?_⟩
      have hrests := hstacked.1
      replace e : below = .block k' task outer temporary :: rest := e
      rw [e] at hrests
      exact hrests.elim
    | block k task outer temporary =>
      simp only [Thread.step]
      split
      · rw [(Thread.giveResult_same _ _ _).1]
        refine ⟨hstacked.2, fun k' task' outer' temporary' rest e => ?_⟩
        have hrests := hstacked.1
        replace e : below = .block k' task' outer' temporary' :: rest := e
        rw [e] at hrests
        exact hrests.elim
      · rw [Thread.unwind_stack]
        exact .nil _

end World.Tiered

theorem Session.launch_tiered {s s' : Session} {op : Op} {begun : World × Thread × Progress}
    (h : s.launch op = some (s', begun)) (w : World) : w.Tiered begun.2.1.stack := by
  cases op with
  | pump worker =>
    cases h
    exact ⟨⟨trivial, trivial⟩, fun _ _ _ _ _ e => by cases e⟩
  | blockOn worker body arg =>
    cases h
    exact .beginBlock (t := {}) trivial (.inl rfl) _ _ _
  | blockOnFree body arg =>
    cases h
    exact .beginBlock (t := {}) trivial (.inl rfl) _ _ _
  | blockOnTask worker task =>
    simp only [Session.launch] at h
    obtain ⟨t, -, e⟩ := Option.map_eq_some_iff.mp h
    cases e
    exact .beginBlock (t := {}) trivial (.inl rfl) _ _ _
  | _ => cases h

theorem Reach.tiered {allowed : Moment → Action → Prop} {m : Moment} (h : Reach allowed m) :
    m.world.Tiered m.thread.stack := by
  induction h with
  | start bodies => exact .nil _
  | @next m action _ hcan _ ih =>
    have hreceived : ∀ (s : Session) (r : World × Thread × Progress), r.1.Tiered r.2.1.stack →
        (s.receive r).world.Tiered r.2.1.stack :=
      fun s r hr => hr.of_runLists (Moment.receive_agrees s r).1.runLists
    cases action with
    | step => exact hreceived _ _ ih.step
    | close =>
      show World.Tiered _ m.thread.stack
      rw [hcan.2]
      exact .nil _
    | call op =>
      simp only [Moment.act, Moment.call]
      split
      · rename_i s begun hlaunch
        exact hreceived _ _ (Session.launch_tiered hlaunch _)
      · show World.Tiered _ m.thread.stack
        rw [hcan.2]
        exact .nil _

/-! ## Chains -/

/-- A worker that finds no next frame has none on its lists. -/
theorem Layout.drained {w : World} {a : Around} {spot : FrameId → Spot} (h : Layout w a spot)
    {k : WorkerId} (hnext : w.nextFrame k = none) (f : FrameId) :
    spot f ≠ .listed (readyList k) ∧ spot f ≠ .listed (deferredList k) := by
  have hlists := h.lists
  unfold World.nextFrame at hnext
  split at hnext
  · cases hnext
  rename_i hnone
  have hready := hlists.toList_eq_nil hnone
  simp only [Option.map_eq_none_iff] at hnext
  refine ⟨fun hf => ?_, fun hf => ?_⟩
  · have hmem := (h.listed _ f).mpr hf
    rw [hready] at hmem
    cases hmem
  · have hmem := (h.listed _ f).mpr hf
    -- the ready list is refilled with all that is deferred
    obtain ⟨hpoured, hfilled⟩ := RunLists.Sound.pour (readyList_ne_deferredList k k).symm
      (w.runLists.length (deferredList k)) hlists
    have hall : (w.runLists.toList (deferredList k)).take (w.runLists.length (deferredList k)) =
        w.runLists.toList (deferredList k) := by
      rw [← hlists.length_toList, List.take_length]
    have hfull := hfilled (readyList k)
    rw [if_neg (readyList_ne_deferredList k k), if_pos rfl, hready, hall, List.append_nil] at hfull
    cases hq : (w.runLists.toList (deferredList k)).reverse with
    | nil =>
      rw [List.reverse_eq_nil_iff.mp hq] at hmem
      cases hmem
    | cons g below =>
      obtain ⟨r, hpop, -⟩ := hpoured.pop (hfull.trans hq)
      rw [hnext] at hpop
      cases hpop

end Substrate.Coro
