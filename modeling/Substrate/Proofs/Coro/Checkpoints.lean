import Substrate.Proofs.Coro.UntouchedFrames
import Substrate.Proofs.Coro.Requests

/-!
# Checkpoints

A checkpoint looks at its cancel token, gives way, and looks again when its frame is resumed.

* `Moment.asks_cancelled`, `Moment.asks_again` and `Moment.Asks.givesWay`: what a body does that is
  polled at a checkpoint.
* `Moment.loops_after`: a body that only loops on checkpoints goes through the loop until it leaves,
  and from the moment its token is cancelled it is resumed once more at most.
-/

namespace Substrate.Coro

/-! ## Resumptions -/

/-- The frame that the next step of a thread resumes. -/
def Thread.resumes (t : Thread) (w : World) : Option FrameId :=
  match t.stack with
  | .pump k _ _ :: _ => (w.nextFrame k).bind fun next =>
    if (next.2.frame next.1).alive && !(next.2.frame next.1).isComplete then some next.1 else none
  | _ => none

theorem Thread.polling_step {t : Thread} {w : World} {f : FrameId} (h : t.resumes w = some f) :
    (t.step w).2.1.polling = some f := by
  obtain ⟨p, stack⟩ := t
  unfold resumes at h
  split at h
  · rename_i k outer count below hstack
    obtain ⟨⟨g, w'⟩, hnext, hresumed⟩ := Option.bind_eq_some_iff.mp h
    simp only at hstack
    subst hstack
    split at hresumed
    · rename_i hcond
      cases hresumed
      simp only [step, hnext]
      rw [if_pos hcond]
      rfl
    · cases hresumed
  · cases h

theorem Thread.resumes_polling {t : Thread} {f : FrameId} (h : t.polling = some f) (w : World) :
    t.resumes w = none := by
  unfold polling at h
  unfold resumes
  split at h
  · rename_i hstack
    rw [hstack]
  · cases h

namespace Moment

/-- The frame that an action resumes. -/
def resumes (m : Moment) : Action → Option FrameId
  | .step => m.thread.resumes m.world
  | _ => none

/-- How often frame `f` is resumed in the course of some actions. -/
def resumptions (m : Moment) (f : FrameId) : List Action → Nat
  | [] => 0
  | action :: rest =>
    (if m.resumes action = some f then 1 else 0) + (m.act action).resumptions f rest

/-! ## Cancelled tokens -/

variable {m : Moment} {f : FrameId} {token : CancelToken}

/-- A token that is cancelled stays so. -/
theorem cancelled_act (action : Action) (h : token.isCancelled m.world.flags = true) :
    token.isCancelled (m.act action).world.flags = true := by
  obtain ⟨i, hi, hraised⟩ := List.any_eq_true.mp h
  exact List.any_eq_true.mpr ⟨i, hi, (m.act_abides action).raised i hraised⟩

theorem cancelled_after (actions : List Action) :
    ∀ {m : Moment}, token.isCancelled m.world.flags = true →
      token.isCancelled (m.after actions).world.flags = true := by
  induction actions with
  | nil => exact fun h => h
  | cons action rest ih => exact fun h => ih (cancelled_act action h)

/-- A frame that is there was there before. -/
theorem alive_of_after (actions : List Action) : ∀ {m : Moment}, f < m.world.frameCount →
    ((m.after actions).world.frame f).alive = true → (m.world.frame f).alive = true := by
  induction actions with
  | nil => exact fun _ h => h
  | cons action rest ih =>
    intro m hf h
    have habides := m.act_abides action
    exact (habides.frame f hf (ih (Nat.lt_of_lt_of_le hf habides.made) h)).1

/-! ## Polled bodies -/

/-- In the next step the body of frame `f`, which is polled, says a line and goes on with the
statements `rest`.  It gives no way and leaves no request to do so. -/
structure GoesOn (m : Moment) (f : FrameId) (rest : List Stmt) (line : String) : Prop where
  thread : m.step.thread = m.thread
  wait : (m.step.world.frame f).wait = none
  code : (m.step.world.frame f).code = rest
  workers : m.step.world.workers = m.world.workers
  log : m.step.world.log = m.world.log.push (m.thread.toPlace.thread, line)

/-- In the next step the poll of frame `f` ends, and the frame waits unless it is destroyed. -/
structure GivesWay (m : Moment) (f : FrameId) (wait : Wait) : Prop where
  stack : m.step.thread.stack = m.thread.stack.tail
  wait : (m.step.world.frame f).alive = true → (m.step.world.frame f).wait = some wait

/-- In the next step the body of frame `f`, which is polled, asks for what it waits for. -/
structure Asks (m : Moment) (f : FrameId) (wait : Wait) : Prop where
  live : m.session.aborted = none
  polled : m.thread.polling = some f
  made : f < m.world.frameCount
  waits : (m.world.frame f).wait = some wait

end Moment

namespace Thread

variable {t : Thread} {w : World} {f : FrameId}

theorem step_polling (h : t.polling = some f) : ∃ k outer below,
    t.stack = .poll k f outer :: below ∧ t.step w = follow w { t with stack := below } k f outer
      (advance w t.toPlace f).1 (advance w t.toPlace f).2 := by
  obtain ⟨p, stack⟩ := t
  unfold polling at h
  split at h
  · rename_i k g outer below hstack
    cases h
    simp only at hstack
    subst hstack
    exact ⟨k, outer, below, rfl, runBody_eq w ⟨p, below⟩ k f outer⟩
  · cases h

theorem advance_waits (p : Place) {wait : Wait} (h : (w.frame f).wait = some wait) :
    advance w p f = w.askWait p f wait := by
  unfold advance
  rw [h]

theorem advance_runs (p : Place) {s : Stmt} {code : List Stmt} (hwait : (w.frame f).wait = none)
    (hcode : (w.frame f).code = s :: code) :
    advance w p f = (w.modifyFrame f fun frame => { frame with code }).exec p f s := by
  unfold advance
  rw [hwait, hcode]

end Thread

namespace Moment

variable {m : Moment} {f : FrameId} {token : CancelToken} {rest : List Stmt}

/-- A polled body goes on. -/
theorem step_next {w : World} (hpolling : m.thread.polling = some f)
    (hadvance : Thread.advance m.world m.thread.toPlace f = (w, .next)) :
    m.step.thread = m.thread ∧ m.step.world = w := by
  obtain ⟨k, outer, below, hstack, hstep⟩ := Thread.step_polling (w := m.world) hpolling
  have hr : m.thread.step m.world = (w, m.thread, .running) := by
    rw [hstep, hadvance, Thread.follow, ← hstack]
  constructor
  · show (m.thread.step m.world).2.1 = _
    rw [hr]
  · show (m.session.receive (m.thread.step m.world)).world = _
    rw [hr]
    rfl

theorem GoesOn.of_said {line : String} (hpolling : m.thread.polling = some f)
    (hadvance : Thread.advance m.world m.thread.toPlace f =
      ((m.world.say m.thread.toPlace line).setWait f none, .next)) :
    m.GoesOn f (m.world.frame f).code line := by
  obtain ⟨hthread, hworld⟩ := step_next hpolling hadvance
  refine ⟨hthread, ?_, ?_, ?_, ?_⟩ <;> rw [hworld]
  · rw [World.setWait, World.frame_modifyFrame, if_pos rfl]
  · rw [World.setWait, World.frame_modifyFrame, if_pos rfl]
    rfl
  · rfl
  · rfl

/-- A poll that ends leaves the frame what it waits for. -/
theorem GivesWay.of_suspends {w : World} {wait : Wait} (hpolling : m.thread.polling = some f)
    (hadvance : Thread.advance m.world m.thread.toPlace f = (w, .suspend))
    (hmade : f < w.frameCount) (hturn : ∀ k, m.thread.worker = some k →
      (w.worker k).suspension = some .turn)
    (hentered : Entered m.thread.worker m.thread.stack) (hwait : (w.frame f).wait = some wait) :
    m.GivesWay f wait := by
  obtain ⟨k, outer, below, hstack, hstep⟩ := Thread.step_polling (w := m.world) hpolling
  rw [hstack] at hentered
  rw [hadvance, Thread.follow] at hstep
  have hthread : (m.thread.step m.world).2.1.stack = below := by
    rw [hstep, suspend_eq, hturn k hentered.1]
  refine ⟨?_, fun halive => ?_⟩
  · rw [hstack]
    exact hthread
  · have hcourse := World.Abides.course none w
    have habides : w.Abides none m.step.world := by
      refine hcourse.receive m.session ?_
      rw [hstep]
      exact hcourse.suspend (.refl none w) _ k f outer
    obtain ⟨-, hkept⟩ := habides.frame f hmade halive
    exact (hkept fun e => by cases e).1.trans hwait

/-! ## Checkpoints -/

theorem cancelledMessage_ne_ok (name : String) : cancelledMessage ++ ":" ++ name ≠
    "ok" ++ ":" ++ name := by
  intro e
  have hlength := congrArg String.length e
  have hcancelled : cancelledMessage.length = 19 := by decide
  have hok : "ok".length = 2 := by decide
  simp only [String.length_append, hcancelled, hok] at hlength
  omega

/-- Asking for a checkpoint of a cancelled token ends it. -/
theorem ask_cancelled {w : World} (p : Place) (f : FrameId) (name : String) (asked : Bool)
    (hcancelled : token.isCancelled w.flags = true) : w.ask p f (.checkpoint name token asked) =
      (w.say p (cancelledMessage ++ ":" ++ name), .ready) := by
  cases asked <;> simp [World.ask, World.checkpointText, hcancelled]

/-- Asking for a checkpoint gives no error only if the token is not cancelled and it was asked for
before. -/
theorem ask_ok_iff (w : World) (p : Place) (f : FrameId) (name : String) (asked : Bool) :
    w.ask p f (.checkpoint name token asked) = (w.say p ("ok" ++ ":" ++ name), .ready) ↔
      asked = true ∧ token.isCancelled w.flags = false := by
  cases hcancelled : token.isCancelled w.flags with
  | true =>
    refine ⟨fun hok => ?_, fun h => by cases h.2⟩
    rw [ask_cancelled p f name asked hcancelled] at hok
    have hlog : w.log.push (p.thread, cancelledMessage ++ ":" ++ name) =
        w.log.push (p.thread, "ok" ++ ":" ++ name) := congrArg (fun r => r.1.log) hok
    exact absurd (congrArg Prod.snd (Array.push_eq_push.mp hlog).1) (cancelledMessage_ne_ok name)
  | false =>
    cases asked with
    | true => simp [World.ask, World.checkpointText, hcancelled]
    | false =>
      refine ⟨fun hok => ?_, fun h => by cases h.1⟩
      simp only [World.ask, hcancelled, Bool.false_eq_true, if_false] at hok
      split at hok <;> cases congrArg Prod.snd hok

/-- A body that is polled at a checkpoint of a cancelled token gets the error, whether it has given
way before or not. -/
theorem asks_cancelled {name : String} {asked : Bool}
    (h : m.Asks f (.one (.checkpoint name token asked)))
    (hcancelled : token.isCancelled m.world.flags = true) :
    m.GoesOn f (m.world.frame f).code (cancelledMessage ++ ":" ++ name) := by
  refine .of_said h.polled ((Thread.advance_waits _ h.waits).trans ?_)
  simp only [World.askWait, ask_cancelled m.thread.toPlace f name asked hcancelled]

/-- One that has given way passes if the token is not cancelled. -/
theorem asks_again {name : String} (h : m.Asks f (.one (.checkpoint name token true)))
    (hfree : token.isCancelled m.world.flags = false) :
    m.GoesOn f (m.world.frame f).code ("ok" ++ ":" ++ name) := by
  refine .of_said h.polled ((Thread.advance_waits _ h.waits).trans ?_)
  simp only [World.askWait, (ask_ok_iff m.world m.thread.toPlace f name true).mpr ⟨rfl, hfree⟩]

/-- One that has not gives way. -/
theorem Asks.givesWay {name : String} (h : m.Asks f (.one (.checkpoint name token false)))
    (hfree : token.isCancelled m.world.flags = false)
    (hentered : Entered m.thread.worker m.thread.stack) :
    m.GivesWay f (.one (.checkpoint name token true)) := by
  obtain ⟨k, outer, below, hstack, -⟩ := Thread.step_polling (w := m.world) h.polled
  have hworker : m.thread.worker = some k := by
    rw [hstack] at hentered
    exact hentered.1
  have hadvance := Thread.advance_waits m.thread.toPlace h.waits
  simp only [World.askWait, World.ask, hfree, World.request, hworker, Bool.false_eq_true,
    if_false] at hadvance
  refine .of_suspends h.polled hadvance h.made (fun k' hk' => ?_) hentered ?_
  · cases hworker.symm.trans hk'
    show (World.worker (World.modifyWorker _ k _) k).suspension = _
    rw [World.worker_modifyWorker, if_pos rfl]
  · rw [World.setWait, World.frame_modifyFrame, if_pos rfl]

/-- A polled body passes a checkpoint only if the token is not cancelled and it has given way. -/
theorem Asks.goesOn_ok_iff {name : String} {asked : Bool}
    (h : m.Asks f (.one (.checkpoint name token asked)))
    (hentered : Entered m.thread.worker m.thread.stack) :
    m.GoesOn f (m.world.frame f).code ("ok" ++ ":" ++ name) ↔
      asked = true ∧ token.isCancelled m.world.flags = false := by
  constructor
  · intro hok
    cases hcancelled : token.isCancelled m.world.flags with
    | true =>
      have hlog := (asks_cancelled h hcancelled).log.symm.trans hok.log
      exact absurd (congrArg Prod.snd (Array.push_eq_push.mp hlog).1) (cancelledMessage_ne_ok name)
    | false =>
      cases asked with
      | true => exact ⟨rfl, rfl⟩
      | false =>
        obtain ⟨k, outer, below, hstack, -⟩ := Thread.step_polling (w := m.world) h.polled
        have htail := (h.givesWay hcancelled hentered).stack
        rw [hok.thread, hstack] at htail
        exact absurd htail (List.cons_ne_self _ _)
  · rintro ⟨rfl, hfree⟩
    exact asks_again h hfree

end Moment

/-! ## Loops -/

/-- A body is in a loop on checkpoints of `token`, with nothing else in it: it waits at a
checkpoint, or comes to the next one.  The statements `rest` follow. -/
inductive Frame.Loops (token : CancelToken) (rest : List Stmt) (fr : Frame) : Prop
  | waits {asked : Bool} {spins most : Nat}
      (hwait : fr.wait = some (.spin token asked spins most []))
    (hcode : fr.code = rest)
  | again {spins most : Nat} (hwait : fr.wait = none)
    (hcode : fr.code = .spinAgain token spins most [] :: rest)

theorem Frame.Loops.congr {token : CancelToken} {rest : List Stmt} {fr fr' : Frame}
    (h : fr.Loops token rest) (hwait : fr'.wait = fr.wait) (hcode : fr'.code = fr.code) :
    fr'.Loops token rest := by
  cases h with
  | waits hwaits hrest => exact .waits (hwait.trans hwaits) (hcode.trans hrest)
  | again hnone hnext => exact .again (hwait.trans hnone) (hcode.trans hnext)

namespace Moment

variable {m : Moment} {f : FrameId} {token : CancelToken} {rest : List Stmt}

theorem spin_cancelled {asked : Bool} {spins most : Nat} {block : List Stmt}
    (hpolling : m.thread.polling = some f)
    (hwait : (m.world.frame f).wait = some (.spin token asked spins most block))
    (hcancelled : token.isCancelled m.world.flags = true) :
    m.GoesOn f (m.world.frame f).code (World.spinsText spins) := by
  refine .of_said hpolling ((Thread.advance_waits _ hwait).trans ?_)
  simp only [World.askWait, hcancelled, if_true]

/-- A body that comes to the next checkpoint starts it, or has been through the loop often enough.
-/
theorem spinAgain_polled {spins most : Nat} (hpolling : m.thread.polling = some f)
    (hwait : (m.world.frame f).wait = none)
    (hcode : (m.world.frame f).code = .spinAgain token spins most [] :: rest) :
    m.GoesOn f rest (World.spinsText spins) ∨
      m.step.thread = m.thread ∧ m.step.world.flags = m.world.flags ∧
        (m.step.world.frame f).wait = some (.spin token false spins most []) ∧
        (m.step.world.frame f).code = rest := by
  have hadvance := Thread.advance_runs m.thread.toPlace hwait hcode
  simp only [World.exec, World.spin] at hadvance
  split at hadvance
  · obtain ⟨hthread, hworld⟩ := step_next hpolling hadvance
    refine .inr ⟨hthread, ?_, ?_, ?_⟩ <;> rw [hworld]
    · rfl
    · rw [World.setWait, World.frame_modifyFrame, if_pos rfl]
    · rw [World.setWait, World.frame_modifyFrame, if_pos rfl, World.frame_modifyFrame, if_pos rfl]
  · obtain ⟨hthread, hworld⟩ := step_next hpolling hadvance
    have hframe : m.step.world.frame f = { m.world.frame f with code := rest } := by
      rw [hworld]
      exact (World.frame_modifyFrame _ _ _ _).trans (if_pos rfl)
    refine .inl ⟨hthread, ?_, ?_, ?_, ?_⟩
    · rw [hframe]
      exact hwait
    · rw [hframe]
    · rw [hworld]
      rfl
    · rw [hworld]
      rfl

/-- A body at a checkpoint of the loop whose token is not cancelled gives way, or comes to the next
one. -/
theorem spin_free {asked : Bool} {spins most : Nat} (hpolling : m.thread.polling = some f)
    (hmade : f < m.world.frameCount)
    (hwait : (m.world.frame f).wait = some (.spin token asked spins most []))
    (hcode : (m.world.frame f).code = rest) (hfree : token.isCancelled m.world.flags = false)
    (halive : (m.step.world.frame f).alive = true) : (m.step.world.frame f).Loops token rest := by
  have hadvance := Thread.advance_waits m.thread.toPlace hwait
  cases asked with
  | true =>
    simp only [World.askWait, hfree, Bool.false_eq_true, if_false, if_true] at hadvance
    obtain ⟨-, hworld⟩ := step_next hpolling hadvance
    have hframe : m.step.world.frame f = { m.world.frame f with
        wait := none, code := .spinAgain token (spins + 1) most [] :: rest } := by
      rw [hworld, World.setWait, World.frame_modifyFrame, if_pos rfl, World.prepend,
        World.frame_modifyFrame, if_pos rfl, ← hcode]
      rfl
    rw [hframe]
    exact .again rfl rfl
  | false =>
    obtain ⟨k, outer, below, hstack, hstep⟩ := Thread.step_polling (w := m.world) hpolling
    have hreceived : ∀ {w : World}, (w.frame f).Loops token rest → f < w.frameCount →
        w.Abides none (m.thread.step m.world).1 → (m.step.world.frame f).Loops token rest := by
      intro w hloops hf habides
      obtain ⟨-, hkept⟩ :=
        ((World.Abides.course none w).receive m.session habides).frame f hf halive
      obtain ⟨hwait', hcode'⟩ := hkept fun e => by cases e
      exact hloops.congr hwait' hcode'
    simp only [World.askWait, hfree, World.request, Bool.false_eq_true, if_false] at hadvance
    cases hworker : m.thread.worker with
    | none =>
      simp only [hworker] at hadvance
      rw [hadvance] at hstep
      refine hreceived (.waits hwait hcode) hmade ?_
      rw [hstep]
      exact (World.Abides.handling m.world _).dropTasks trivial (.refl none _) fun _ _ _ _ =>
        trivial
    | some k' =>
      simp only [hworker] at hadvance
      generalize hasked : World.setWait _ f _ = w at hadvance
      have hframe : w.frame f =
          { m.world.frame f with wait := some (.spin token true spins most []) } := by
        rw [← hasked, World.setWait, World.frame_modifyFrame, if_pos rfl]
        rfl
      rw [hadvance] at hstep
      refine hreceived (w := w) ?_ (hasked ▸ hmade) ?_
      · rw [hframe]
        exact .waits rfl hcode
      · rw [hstep]
        exact (World.Abides.course none w).suspend (.refl none w) _ k f outer

/-- A body in a loop that is polled leaves it, stays polled in it, or gives way because its token is
not cancelled. -/
theorem loops_polled (hpolling : m.thread.polling = some f) (hmade : f < m.world.frameCount)
    (hloops : (m.world.frame f).Loops token rest) (halive : (m.step.world.frame f).alive = true) :
    (∃ spins, m.GoesOn f rest (World.spinsText spins)) ∨
      (m.step.world.frame f).Loops token rest ∧
        (m.step.thread = m.thread ∨ token.isCancelled m.world.flags = false) := by
  cases hloops with
  | @waits asked spins most hwait hcode =>
    cases hcancelled : token.isCancelled m.world.flags with
    | true => exact .inl ⟨spins, hcode ▸ spin_cancelled hpolling hwait hcancelled⟩
    | false => exact .inr ⟨spin_free hpolling hmade hwait hcode hcancelled halive, .inr rfl⟩
  | @again spins most hwait hcode =>
    rcases spinAgain_polled hpolling hwait hcode with hleft | ⟨hthread, -, hwait', hcode'⟩
    · exact .inl ⟨spins, hleft⟩
    · exact .inr ⟨.waits hwait' hcode', .inl hthread⟩

/-- With its token cancelled, it leaves in two steps at most. -/
theorem loops_cancelled (hpolling : m.thread.polling = some f)
    (hloops : (m.world.frame f).Loops token rest)
    (hcancelled : token.isCancelled m.world.flags = true) :
    ∃ spins, m.GoesOn f rest (World.spinsText spins) ∨
    m.step.GoesOn f rest (World.spinsText spins) := by
  cases hloops with
  | @waits asked spins most hwait hcode =>
    exact ⟨spins, .inl (hcode ▸ spin_cancelled hpolling hwait hcancelled)⟩
  | @again spins most hwait hcode =>
    refine ⟨spins, (spinAgain_polled hpolling hwait hcode).imp id ?_⟩
    rintro ⟨hthread, hflags, hwait', hcode'⟩
    have hpolling' : m.step.thread.polling = some f := hthread ▸ hpolling
    exact hcode' ▸ spin_cancelled hpolling' hwait' (hflags ▸ hcancelled)

/-- How often a frame in a loop may still be resumed: not while it is polled. -/
def spare (m : Moment) (f : FrameId) : Nat := if m.thread.polling = some f then 0 else 1

/-- Frame `f` leaves a loop in the course of some actions, resumed `n` times before at most. -/
def Leaves (m : Moment) (f : FrameId) (rest : List Stmt) (actions : List Action) (n : Nat) : Prop :=
  ∃ before later spins, actions = before ++ .step :: later ∧
    (m.after before).thread.polling = some f ∧
    (m.after before).GoesOn f rest (World.spinsText spins) ∧ m.resumptions f before ≤ n

/-- Frame `f` is still in a loop after some actions or has left it, resumed `n` times before at
most. -/
def Spins (m : Moment) (f : FrameId) (token : CancelToken) (rest : List Stmt)
    (actions : List Action)
    (n : Nat) : Prop :=
  ((m.after actions).world.frame f).Loops token rest ∧ m.resumptions f actions ≤ n ∨
    m.Leaves f rest actions n

theorem Spins.cons {action : Action} {actions : List Action} {n : Nat}
    (h : (m.act action).Spins f token rest actions n) :
    m.Spins f token rest (action :: actions)
    ((if m.resumes action = some f then 1 else 0) + n) := by
  rcases h with ⟨hloops, hresumed⟩ | ⟨before, later, spins, hactions, hpolling, hgoes, hresumed⟩
  · exact .inl ⟨hloops, Nat.add_le_add_left hresumed _⟩
  · exact .inr ⟨action :: before, later, spins, by rw [hactions]; rfl, hpolling, hgoes,
      Nat.add_le_add_left hresumed _⟩

theorem Spins.mono {actions : List Action} {n n' : Nat} (h : m.Spins f token rest actions n)
    (hn : n ≤ n') : m.Spins f token rest actions n' := by
  rcases h with ⟨hloops, hresumed⟩ | ⟨before, later, spins, hactions, hpolling, hgoes, hresumed⟩
  · exact .inl ⟨hloops, Nat.le_trans hresumed hn⟩
  · exact .inr ⟨before, later, spins, hactions, hpolling, hgoes, Nat.le_trans hresumed hn⟩

/-- A body in a loop goes on with it until it leaves it or its frame is destroyed.  Once its token
is cancelled it is resumed once more at most, and not at all while it is polled. -/
theorem loops_after {allowed : Moment → Action → Prop} (actions : List Action) : ∀ {m : Moment},
    m.Admits allowed actions → f < m.world.frameCount → (m.world.frame f).Loops token rest →
    ((m.after actions).world.frame f).alive = true →
    ∃ n, m.Spins f token rest actions n ∧
    (token.isCancelled m.world.flags = true → n ≤ m.spare f) := by
  induction actions with
  | nil => exact fun _ _ hloops _ => ⟨0, .inl ⟨hloops, Nat.le_refl _⟩, fun _ => Nat.zero_le _⟩
  | cons action later ih =>
    intro m hadmits hmade hloops halive
    obtain ⟨hcan, -, hlater⟩ := hadmits
    have habides := m.act_abides action
    have hmade' := Nat.lt_of_lt_of_le hmade habides.made
    have halive' := alive_of_after later hmade' halive
    -- what the rest of the actions does, from the next moment on
    have hnext : ((m.act action).world.frame f).Loops token rest →
        (∀ n, token.isCancelled m.world.flags = true → n ≤ (m.act action).spare f →
          (if m.resumes action = some f then 1 else 0) + n ≤ m.spare f) →
        ∃ n, m.Spins f token rest (action :: later) n ∧
          (token.isCancelled m.world.flags = true → n ≤ m.spare f) := by
      intro hloops' hspare
      obtain ⟨n, hspins, hn⟩ := ih hlater hmade' hloops' halive
      exact ⟨_, hspins.cons, fun hcancelled =>
        hspare n hcancelled (hn (cancelled_act action hcancelled))⟩
    by_cases hpolling : m.thread.polling = some f
    · -- its body runs
      have hstep : action = .step := by
        have hstack : m.thread.stack ≠ [] :=
          fun e => by rw [Thread.polling, e] at hpolling; cases hpolling
        cases action with
        | step => rfl
        | _ => exact absurd hcan.2 hstack
      subst hstep
      have hquiet : m.resumes .step ≠ some f := fun e => by
        rw [resumes, Thread.resumes_polling hpolling] at e
        cases e
      rcases loops_polled hpolling hmade hloops halive' with ⟨spins, hleft⟩ | ⟨hloops', hstays⟩
      · exact ⟨0, .inr ⟨[], later, spins, rfl, hpolling, hleft, Nat.le_refl _⟩,
          fun _ => Nat.zero_le _⟩
      · refine hnext hloops' fun n hcancelled hn => ?_
        rw [if_neg hquiet, Nat.zero_add]
        rcases hstays with hthread | hfree
        · have hspare : (m.act .step).spare f = m.spare f := congrArg (fun t : Thread =>
            if t.polling = some f then 0 else 1) hthread
          exact hspare ▸ hn
        · rw [hfree] at hcancelled
          cases hcancelled
    · -- others run
      have hruns : f ∉ m.runs action := by
        cases action with
        | step => exact hpolling
        | _ => exact fun e => by cases e
      obtain ⟨-, hkept⟩ := habides.frame f hmade halive'
      obtain ⟨hwait, hcode⟩ := hkept hruns
      refine hnext (hloops.congr hwait hcode) fun n _ hn => ?_
      rw [spare, if_neg hpolling]
      split
      · rename_i hresumes
        have hpolled : (m.act action).thread.polling = some f := by
          cases action with
          | step => exact Thread.polling_step hresumes
          | _ => cases hresumes
        rw [spare, if_pos hpolled] at hn
        omega
      · unfold spare at hn
        split at hn <;> omega

end Moment

namespace Reach

variable {allowed : Moment → Action → Prop} {m : Moment} {actions : List Action}

/-- Take any moment of a run and any later one.  A token that is cancelled at the first is cancelled
at the later one.  Asking for a checkpoint, alone or among other things, gives the error and nothing
else happens if the token is cancelled; it gives no error if and only if the token is not cancelled
and the checkpoint was asked for before.  So a body that is polled at a checkpoint gets the error
and goes on in the same poll; or it passes, having given way before; or it gives way.  A body that
does nothing but loop on checkpoints goes on with it until it leaves, unless its frame is destroyed.
From a moment at which the token is cancelled it is resumed once more at most before it leaves,
whatever else happens, and when it is polled it leaves in two steps. -/
theorem checkpoints_heed_cancels (h : Reach allowed m) (hadmits : m.Admits allowed actions)
    (token : CancelToken) :
    (token.isCancelled m.world.flags = true →
      token.isCancelled (m.after actions).world.flags = true) ∧
    (∀ (w : World) (p : Place) (f : FrameId) (name : String) (asked : Bool),
      (token.isCancelled w.flags = true → w.ask p f (.checkpoint name token asked) =
        (w.say p (cancelledMessage ++ ":" ++ name), .ready)) ∧
      (w.ask p f (.checkpoint name token asked) = (w.say p ("ok" ++ ":" ++ name), .ready) ↔
        asked = true ∧ token.isCancelled w.flags = false)) ∧
    (∀ (f : FrameId) (name : String) (asked : Bool),
      (m.after actions).Asks f (.one (.checkpoint name token asked)) →
      (token.isCancelled (m.after actions).world.flags = true →
        (m.after actions).GoesOn f ((m.after actions).world.frame f).code
          (cancelledMessage ++ ":" ++ name)) ∧
      ((m.after actions).GoesOn f ((m.after actions).world.frame f).code ("ok" ++ ":" ++ name) ↔
        asked = true ∧ token.isCancelled (m.after actions).world.flags = false) ∧
      (asked = false → token.isCancelled (m.after actions).world.flags = false →
        (m.after actions).GivesWay f (.one (.checkpoint name token true)))) ∧
    ∀ (f : FrameId) (rest : List Stmt), f < m.world.frameCount →
      (m.world.frame f).Loops token rest →
      (((m.after actions).world.frame f).alive = true → (∃ n, m.Spins f token rest actions n) ∧
        (token.isCancelled m.world.flags = true → m.Spins f token rest actions 1)) ∧
      (token.isCancelled m.world.flags = true → m.thread.polling = some f →
        ∃ spins, m.GoesOn f rest (World.spinsText spins) ∨
          m.step.GoesOn f rest (World.spinsText spins)) := by
  refine ⟨Moment.cancelled_after actions, fun w p f name asked =>
    ⟨Moment.ask_cancelled p f name asked, Moment.ask_ok_iff w p f name asked⟩, ?_, ?_⟩
  · intro f name asked hasks
    have hentered := ((h.after hadmits).unasked hasks.live).entered
    refine ⟨Moment.asks_cancelled hasks, hasks.goesOn_ok_iff hentered, ?_⟩
    rintro rfl hfree
    exact hasks.givesWay hfree hentered
  · intro f rest hmade hloops
    refine ⟨fun halive => ?_, fun hcancelled hpolling => Moment.loops_cancelled hpolling
      hloops hcancelled⟩
    obtain ⟨n, hspins, hn⟩ := Moment.loops_after actions hadmits hmade hloops halive
    refine ⟨⟨n, hspins⟩, fun hcancelled => hspins.mono (Nat.le_trans (hn hcancelled) ?_)⟩
    unfold Moment.spare
    split <;> omega

end Reach

/-- While a body loops on checkpoints of a token, and another one waits at a checkpoint of it, a
third one has cancelled the token. -/
def interrupted : Moment :=
  ({ session :=
    { world := { bodies := ((Registers.empty.set "loop" [.spin "t" 9 [], .log "out"]).set
    "check" [.checkpoint "t"]).set "cancel" [.yield, .cancel "t"] } } } : Moment).after
    ([.call (.spawn "w" "loop" 0), .call (.spawn "w" "check" 0), .call (.spawn "w" "cancel" 0),
      .call (.pump "w")] ++ List.replicate 12 .step)

/-- The checkpoint gives the error, and the loop is left when its frame is resumed. -/
theorem checkpoints_heed_cancels_interrupted :
    CancelToken.isCancelled interrupted.world.flags ⟨0, []⟩ = true ∧
      (interrupted.after [.step, .step]).GoesOn 1 [] (cancelledMessage ++ ":" ++ "t") ∧
      interrupted.Spins 0 ⟨0, []⟩ [.log "out"] (List.replicate 6 .step) 1 := by
  have h : Reach (fun _ _ => True) interrupted := (Reach.start _).after (by decide +kernel)
  have hcancelled : CancelToken.isCancelled interrupted.world.flags ⟨0, []⟩ = true := by
    decide +kernel
  have hadmits : interrupted.Admits (fun _ _ => True) [.step, .step] := by decide +kernel
  have hadmits' : interrupted.Admits (fun _ _ => True) (List.replicate 6 .step) := by decide +kernel
  obtain ⟨-, -, hchecks, -⟩ := h.checkpoints_heed_cancels hadmits ⟨0, []⟩
  obtain ⟨-, -, -, hloops⟩ := h.checkpoints_heed_cancels hadmits' ⟨0, []⟩
  refine ⟨hcancelled, ?_, ?_⟩
  · exact (hchecks 1 "t" true ⟨by decide +kernel, by decide +kernel, by decide +kernel, rfl⟩).1
      (by decide +kernel)
  · exact ((hloops 0 [.log "out"] (by decide +kernel) (.waits rfl rfl)).1 (by decide +kernel)).2
      hcancelled

end Substrate.Coro
