import Substrate.Proofs.Coro.Edits.Ledger

/-!
# Bodies by edits

What a body asks for and what its statements do is made of edits, and so it is entered in every
ledger.  The polls that find a task pending are told apart, since they leave a wake-up with its
frame.

* `World.asks` and the like list these polls: the frame of the task, and the frame
  that asks.
* `Ledger.askWait` is about asking for what a body waits for, `Ledger.exec` about a
  statement.
-/

namespace Substrate.Coro

/-! ## Polls of pending tasks -/

namespace World

/-- The poll of a task, if it finds the task pending. -/
def pends (w : World) (p : Place) (t : Task) : List (FrameId × FrameId) :=
  match t.frame with
  | none => []
  | some c =>
    if (w.frame c).isComplete then []
    else (p.worker.bind fun k => (w.worker k).current).toList.map (c, ·)

/-- The polls that asking for a future makes of pending tasks. -/
def asks (w : World) (p : Place) (f : FrameId) : Future → List (FrameId × FrameId)
  | .task name => ((w.findTask f name).map (w.pends p)).getD []
  | .child t => w.pends p t
  | _ => []

/-- The polls that asking for each of a list makes of pending tasks. -/
def asksAll (w : World) (p : Place) (f : FrameId) : List Future → List (FrameId × FrameId)
  | [] => []
  | future :: rest =>
    w.asks p f future ++
      match w.ask p f future with
      | (_, .fault _) => []
      | (w, _) => w.asksAll p f rest

/-- The polls that asking until one of a list is ready makes of pending tasks. -/
def asksAny (w : World) (p : Place) (f : FrameId) : List Future → List (FrameId × FrameId)
  | [] => []
  | future :: rest =>
    w.asks p f future ++
      match w.ask p f future with
      | (w, .pending _) => w.asksAny p f rest
      | _ => []

/-- The polls that asking for what a body waits for makes of pending tasks. -/
def asksWait (w : World) (p : Place) (f : FrameId) : Wait → List (FrameId × FrameId)
  | .one future => w.asks p f future
  | .all futures => w.asksAll p f futures
  | .any futures => w.asksAny p f futures
  | .spin .. => []

/-- The polls that a statement makes of pending tasks. -/
def asksStmt (w : World) (p : Place) (f : FrameId) : Stmt → List (FrameId × FrameId)
  | .pollOnce wanted => (w.begin wanted).1.asks p f (w.begin wanted).2
  | _ => []

theorem findTask_congr {w w' : World} {f : FrameId} (htasks : w'.tasks = w.tasks)
    (hframe : (w'.frame f).tasks = (w.frame f).tasks) (name : String) :
    w'.findTask f name = w.findTask f name := by
  rw [findTask, findTask, htasks, Frame.task?, Frame.task?, hframe]

theorem enqueue_setWait (w : World) (k : WorkerId) (c f : FrameId) (wait : Option Wait) :
    (w.enqueue k c).setWait f wait = (w.setWait f wait).enqueue k c := by
  unfold World.enqueue
  rw [show (w.setWait f wait).runLists = w.runLists from rfl]
  cases w.runLists.push (readyList k) c <;> rfl

end World

/-- What polling a task comes to, and the poll if it finds the task pending. -/
inductive Polls (w : World) (p : Place) (t : Task) :
    List (FrameId × FrameId) → World × Task × World.Polled → Prop
  /-- It cannot be polled. -/
  | failed (e : Fault) : Polls w p t [] (w, t, .fault e)
  /-- Its result is taken. -/
  | taken {c : FrameId} {polled : World.Polled} (hframe : t.frame = some c)
    (hstage : (w.frame c).stage = .complete) (hpolled : polled ≠ .pending) :
    Polls w p t [] ((w.takeOutput p t).1, { t with frame := none }, polled)
  /-- It is pending, and starts if it has not. -/
  | pending {c : FrameId} (k : WorkerId) (b : FrameId) (hframe : t.frame = some c)
    (hstage : (w.frame c).stage ≠ .complete) :
    Polls w p t [(c, b)] (if t.started then w.subscribe c b else (w.subscribe c b).enqueue k c,
      ⟨some c, true⟩, .pending)

theorem World.pollTask_polls (w : World) (p : Place) (t : Task) :
    Polls w p t (w.pends p t) (w.pollTask p t) := by
  obtain ⟨frame, started⟩ := t
  cases frame with
  | none => exact .failed _
  | some c =>
    cases hcomplete : (w.frame c).isComplete with
    | true =>
      have hstage : (w.frame c).stage = .complete := by simpa [Frame.isComplete] using hcomplete
      have hpends : w.pends p ⟨some c, started⟩ = [] := by
        simp only [World.pends, hcomplete, if_true]
      have htaken : w.takeOutput p ⟨some c, started⟩ = ((w.takeOutput p ⟨some c, started⟩).1,
          ⟨none, started⟩, (w.frame c).output) := by
        simp only [World.takeOutput, hcomplete, if_true]
      rw [hpends]
      unfold World.pollTask
      simp only [hcomplete, if_true]
      rw [htaken]
      cases (w.frame c).output <;> exact .taken rfl hstage (by simp)
    | false =>
      have hstage : (w.frame c).stage ≠ .complete := by simpa [Frame.isComplete] using hcomplete
      unfold World.pollTask World.pends
      simp only [hcomplete]
      cases hk : p.worker with
      | none => exact .failed _
      | some k =>
        simp only [Option.bind_some]
        cases hb : (w.worker k).current with
        | none => exact .failed _
        | some b => cases started <;> exact .pending (t := ⟨some c, _⟩) k b rfl hstage

namespace Ledger

variable {strict known : Prop} {R : Desk → Desk → Prop} {d : Desk} {f : FrameId}

/-- Nothing was asked for. -/
theorem silent {w : World} {hand : List Task} {asked : List (FrameId × FrameId)}
    (h : R d { d with world := w, hand }) (hasked : asked = []) :
    R d { d with world := w, hand, asked := d.asked ++ asked } := by
  rw [hasked, List.append_nil]
  exact h

variable (L : Ledger strict known R)
include L

/-- Nothing happens, and nothing was asked for. -/
theorem quiet (d : Desk) : R d { d with asked := d.asked ++ [] } := silent (L.refl d) rfl

/-- Another wait, with the handle that was in the old one and the one in the new one. -/
theorem setWait (hf : f ∈ d.polled) {wait : Option Wait} {hand : List Task}
    (hchildless : ∀ wait', wait = some wait' → wait'.Childless)
    (hfewer : Fewer (Frame.waitTasks (d.world.frame f).wait ++ d.hand)
      (Frame.waitTasks wait ++ hand)) :
    R d { d with world := d.world.setWait f wait, hand } := by
  refine L.deeds (.shift hf ⟨rfl, rfl, rfl, rfl, rfl⟩ id
    (fun wait' hwait => .inr (hchildless wait' hwait)) fun c => ?_) (.setWait f wait)
  have := hfewer c
  simp only [Frame.heldTasks, List.count_append] at *
  omega

/-- A frame asks for a task that is pending. -/
theorem subscribe (b : FrameId) {c : FrameId} (hmade : d.Neat → c < d.world.frameCount)
    (hstage : (d.world.frame c).stage ≠ .complete) :
    R d { d with world := d.world.subscribe c b, asked := d.asked ++ [(c, b)] } :=
  L.deeds (.one fun hneat => .ask b (hmade hneat) hstage) (.touch ⟨rfl, rfl, rfl, rfl⟩)

/-- Asking for the task that a body means by a name. -/
theorem askNamed (hf : f ∈ d.polled) (p : Place) {name : String} {t : Task}
    (hfind : d.world.findTask f name = some t) :
    R d { d with
      world := (match d.world.pollTask p t with
        | (w, t, .pending) => (w.updateTask f name t, .pending (.task name))
        | (w, t, .ready o) => ((w.updateTask f name t).useOutput p f o, .ready)
        | (w, t, .fault e) => (w.updateTask f name t, .fault e) : World × World.Asked).1
      asked := d.asked ++ d.world.pends p t } := by
  have hpolls := d.world.pollTask_polls p t
  generalize d.world.pollTask p t = r at hpolls
  generalize d.world.pends p t = asked at hpolls
  cases hpolls with
  | failed e => exact silent (L.updateTask hf hfind (.refl _)) rfl
  | @taken c polled hframe hstage hpolled =>
    have hspent := L.spendNamed hf p hfind hframe hstage
    cases polled with
    | pending => exact absurd rfl hpolled
    | ready o => exact silent (L.trans hspent (L.useOutput p o)) rfl
    | fault e => exact silent hspent rfl
  | @pending c k b hframe hstage =>
    obtain ⟨frame, started⟩ := t
    cases hframe
    have hasked : R d _ := L.subscribe b (fun hneat => hneat.made _ (List.mem_append_left _
      (Layout.mem_held_of_findTask (hneat.polled f hf) hfind)) c rfl) hstage
    have hsame : ∀ g, ((d.world.subscribe c b).frame g).tasks = (d.world.frame g).tasks ∧
        ((d.world.subscribe c b).frame g).stage = (d.world.frame g).stage := by
      intro g
      obtain ⟨continuation, e⟩ := d.world.frame_subscribe c b g
      rw [e]
      exact ⟨rfl, rfl⟩
    have hfind' : (d.world.subscribe c b).findTask f name = some ⟨some c, started⟩ := by
      have htasks : (d.world.subscribe c b).tasks = d.world.tasks := rfl
      exact (World.findTask_congr htasks (hsame f).1 name).trans hfind
    let asking : Desk :=
      { d with world := d.world.subscribe c b, asked := d.asked ++ [(c, b)] }
    cases started with
    | true => exact L.trans hasked (L.updateTask (d := asking) hf hfind' (.refl _))
    | false =>
      refine L.trans hasked (L.startTask (d := asking) hf hfind' k ?_)
      exact (hsame c).2 ▸ hstage

/-- Asking for something other than a task without a name. -/
theorem ask (hf : f ∈ d.polled) (p : Place) {future : Future} (hchild : ∀ t, future ≠ .child t) :
    R d { d with
      world := (d.world.ask p f future).1
      asked := d.asked ++ d.world.asks p f future } := by
  have hquiet : R d { d with asked := d.asked ++ [] } := L.quiet d
  have hsay : ∀ text, R d { d with world := d.world.say p text, asked := d.asked ++ [] } :=
    fun text => silent (L.say p text) rfl
  cases future with
  | turn asked =>
    cases asked with
    | true => exact hquiet
    | false =>
      simp only [World.ask]
      cases hrequest : d.world.request p .turn with
      | ok w => exact silent (L.request hrequest) rfl
      | error e => exact hquiet
  | task name =>
    simp only [World.ask, World.asks]
    cases hfind : d.world.findTask f name with
    | none => exact hsay _
    | some t => exact L.askNamed hf p hfind
  | child t => exact absurd rfl (hchild t)
  | park slot token asked =>
    cases asked with
    | true => exact hquiet
    | false =>
      simp only [World.ask]
      cases hrequest : d.world.request p (.park slot token) with
      | ok w => exact silent (L.request hrequest) rfl
      | error e => exact hquiet
  | checkpoint name token asked =>
    cases asked with
    | true => exact hsay _
    | false =>
      simp only [World.ask]
      split
      · exact hsay _
      · cases hrequest : d.world.request p .turn with
        | ok w => exact silent (L.request hrequest) rfl
        | error e => exact hquiet
  | unknown => exact hquiet

end Ledger

/-! ## Waits -/

namespace World

variable {w w' : World} {p : Place} {f : FrameId}

/-- What is left to ask for is a task without a name only if it was asked for. -/
theorem ask_left {future left : Future} (hchild : ∀ t, future ≠ .child t)
    (hask : w.ask p f future = (w', .pending left)) : ∀ t, left ≠ .child t :=
  ask_leaves (Q := fun _ => False) (fun _ _ => id) hchild (by rw [hask])

theorem askAll_left {futures : List Future} (left : List Future) (hchild : ∀ t, .child t ∉ futures)
    (hask : (w.askAll p f futures).2 = .ok left) : ∀ t, .child t ∉ left :=
  askAll_leaves (Q := fun _ => False) (fun _ _ => id) hchild hask

theorem askAny_left {futures : List Future} {i : Nat} (left : List Future)
    (hchild : ∀ t, .child t ∉ futures) (hask : (w.askAny p f i futures).2 = .ok (.inr left)) :
    ∀ t, .child t ∉ left :=
  askAny_leaves (Q := fun _ => False) (fun _ _ => id) hchild hask

end World

namespace Ledger

variable {strict known : Prop} {R : Desk → Desk → Prop} (L : Ledger strict known R) {f : FrameId}
include L

theorem askAll (p : Place) (futures : List Future) : ∀ {d : Desk}, f ∈ d.polled →
    (∀ t, .child t ∉ futures) →
      R d { d with
        world := (d.world.askAll p f futures).1
        asked := d.asked ++ d.world.asksAll p f futures } := by
  induction futures with
  | nil => exact fun _ _ => L.quiet _
  | cons first rest ih =>
    intro d hf hchild
    have hasked : R d _ := L.ask hf p fun t e => hchild t (e ▸ List.mem_cons_self)
    have hrest : ∀ t, .child t ∉ rest := fun t ht => hchild t (List.mem_cons_of_mem _ ht)
    simp only [World.askAll, World.asksAll, ← List.append_assoc]
    generalize d.world.ask p f first = r at hasked
    obtain ⟨w, asked⟩ := r
    cases asked with
    | ready => exact L.trans hasked (ih hf hrest)
    | pending future => exact L.trans hasked (ih hf hrest)
    | fault e => exact L.trans hasked (L.quiet _)

theorem askAny (p : Place) (futures : List Future) : ∀ (i : Nat) {d : Desk}, f ∈ d.polled →
    (∀ t, .child t ∉ futures) →
      R d { d with
        world := (d.world.askAny p f i futures).1
        asked := d.asked ++ d.world.asksAny p f futures } := by
  induction futures with
  | nil => exact fun _ _ _ _ => L.quiet _
  | cons first rest ih =>
    intro i d hf hchild
    have hasked : R d _ := L.ask hf p fun t e => hchild t (e ▸ List.mem_cons_self)
    have hrest : ∀ t, .child t ∉ rest := fun t ht => hchild t (List.mem_cons_of_mem _ ht)
    simp only [World.askAny, World.asksAny, ← List.append_assoc]
    generalize d.world.ask p f first = r at hasked
    obtain ⟨w, asked⟩ := r
    cases asked with
    | ready => exact L.trans hasked (L.quiet _)
    | pending future => exact L.trans hasked (ih (i + 1) hf hrest)
    | fault e => exact L.trans hasked (L.quiet _)

/-- The body comes to wait for something else than a task without a name. -/
theorem thenWait {d d' : Desk} (h : R d d') (hf : f ∈ d'.polled) {wait : Wait}
    (hchildless : wait.Childless) (hnone : Frame.waitTasks (some wait) = []) :
    R d { d' with world := d'.world.setWait f (some wait) } := by
  refine L.trans h (L.setWait hf (fun wait' e => ?_) ?_)
  · cases e
    exact hchildless
  · rw [hnone]
    exact .suffix _ d'.hand

/-- The body comes to wait for nothing. -/
theorem thenGo {d d' : Desk} (h : R d d') (hf : f ∈ d'.polled) :
    R d { d' with world := d'.world.setWait f none } :=
  L.trans h (L.setWait hf nofun (.suffix _ d'.hand))

/-- The body starts the task without a name that it waits for. -/
theorem startWait {d : Desk} (hf : f ∈ d.polled) {c : FrameId}
    (hwait : (d.world.frame f).wait = some (.one (.child ⟨some c, false⟩))) (k : WorkerId)
    (hstage : (d.world.frame c).stage ≠ .complete) :
    R d { d with
      world := (d.world.enqueue k c).setWait f (some (.one (.child ⟨some c, true⟩))) } := by
  have hheld : (d.world.frame f).heldTasks =
      ⟨some c, false⟩ :: (d.world.frame f).tasks.map Prod.snd := by
    rw [Frame.heldTasks, hwait]
    rfl
  refine L.deeds ?_ ((World.Deeds.enqueue (.inl trivial) c).trans (.setWait f _))
  rw [World.enqueue_setWait]
  refine .start k (.modifyFrame _ ⟨rfl, rfl, rfl, rfl, rfl⟩)
    (fun hneat => hneat.modifyFrame (hneat.names f) fun _ e => ?_) (fun hneat x => ?_) hstage
  · cases e
    trivial
  · have hmodified := d.world.count_held_modifyFrame (hneat.polled f hf)
      (fun frame => { frame with wait := some (.one (.child ⟨some c, true⟩)) }) x
    rw [hheld] at hmodified
    simp only [World.setWait, Frame.heldTasks, Frame.waitTasks, List.count_append, List.count_cons,
      List.count_nil] at *
    omega

/-- The body asks for the task without a name that it waits for.  If that fails, the handle is still
there, but then nothing goes on. -/
theorem askChild {d : Desk} (hf : f ∈ d.polled) (p : Place) {t : Task}
    (hwait : (d.world.frame f).wait = some (.one (.child t)))
    (hlive : ∀ message, (d.world.askWait p f (.one (.child t))).2 ≠ .raise message) :
    R d { d with
      world := (d.world.askWait p f (.one (.child t))).1
      asked := d.asked ++ d.world.pends p t } := by
  have hheld : d.Neat → t ∈ d.handles := by
    intro hneat
    refine List.mem_append_left _ (List.mem_append_right _ ?_)
    refine List.mem_flatMap.mpr ⟨f, List.mem_range.mpr (hneat.polled f hf), ?_⟩
    rw [Frame.heldTasks, hwait]
    exact List.mem_cons_self
  have hpolls := d.world.pollTask_polls p t
  simp only [World.askWait, World.ask] at hlive ⊢
  generalize d.world.pollTask p t = r at hlive hpolls ⊢
  generalize d.world.pends p t = asked at hpolls ⊢
  cases hpolls with
  | failed e => exact absurd rfl (hlive _)
  | @taken c polled hframe hstage hpolled =>
    cases polled with
    | pending => exact absurd rfl hpolled
    | fault e => exact absurd rfl (hlive _)
    | ready o =>
      have hused : Edits strict { d with world := (d.world.takeOutput p t).1 } { d with
          world := ((d.world.takeOutput p t).1.useOutput p f o).setWait f none } :=
        Edits.ledger.thenGo (Edits.ledger.useOutput p o) hf
      refine L.of_neat fun hneat =>
        silent (L.spend p (hheld hneat) hframe hstage hused ?_ fun _ => ?_) rfl
      · exact World.Deeds.calm ((World.Deeds.useOutput p f o).trans (.setWait f none))
      · have hle := (((World.Shrinks.takeOutput d.world p t).trans
          (.useOutput _ p f o)).setWait f).handlesOn_le c
        have hlost := d.world.handlesOn_setWait (hneat.polled f hf) hwait hframe
        simp only [Desk.handles, handlesOn_append]
        omega
  | @pending c k b hframe hstage =>
    obtain ⟨frame, started⟩ := t
    cases hframe
    have hasked : R d _ := L.subscribe b (fun hneat => hneat.made _ (hheld hneat) c rfl) hstage
    have hsame : ∀ g, ((d.world.subscribe c b).frame g).wait = (d.world.frame g).wait ∧
        ((d.world.subscribe c b).frame g).stage = (d.world.frame g).stage := by
      intro g
      obtain ⟨continuation, e⟩ := d.world.frame_subscribe c b g
      rw [e]
      exact ⟨rfl, rfl⟩
    let asking : Desk :=
      { d with world := d.world.subscribe c b, asked := d.asked ++ [(c, b)] }
    have hwait' : (asking.world.frame f).wait = some (.one (.child ⟨some c, started⟩)) :=
      (hsame f).1.trans hwait
    cases started with
    | true =>
      refine L.trans hasked (L.setWait (d := asking) hf (fun _ e => ?_) ?_)
      · cases e
        trivial
      · rw [hwait']
        exact .refl _
    | false => exact L.trans hasked (L.startWait (d := asking) hf hwait' k ((hsame c).2 ▸ hstage))

/-- The body asks for what it waits for. -/
theorem askWait {d : Desk} (hf : f ∈ d.polled) (p : Place) {wait : Wait}
    (hwait : (d.world.frame f).wait = some wait)
    (hlive : ∀ message, (d.world.askWait p f wait).2 ≠ .raise message) :
    R d { d with
      world := (d.world.askWait p f wait).1
      asked := d.asked ++ d.world.asksWait p f wait } := by
  refine L.of_neat fun hneat => ?_
  have hchildless := hneat.world.childless f wait hwait
  cases wait with
  | one future =>
    by_cases hchild : ∃ t, future = .child t
    · obtain ⟨t, rfl⟩ := hchild
      exact L.askChild hf p hwait hlive
    · have hchild : ∀ t, future ≠ .child t := not_exists.mp hchild
      have hasked : R d _ := L.ask hf p hchild
      simp only [World.askWait, World.asksWait]
      cases hask : d.world.ask p f future with
      | mk w asked =>
        rw [hask] at hasked
        cases asked with
        | ready => exact L.thenGo hasked hf
        | pending left =>
          exact L.thenWait hasked hf trivial (Future.held_of_ne_child (World.ask_left hchild hask))
        | fault e => exact hasked
  | all futures =>
    have hasked : R d _ := L.askAll p futures hf hchildless
    have hleft := fun left => World.askAll_left (w := d.world) (p := p) (f := f) left hchildless
    simp only [World.askWait, World.asksWait]
    generalize d.world.askAll p f futures = r at hasked hleft
    obtain ⟨w, result⟩ := r
    cases result with
    | error e => exact hasked
    | ok left =>
      have hleft := hleft left rfl
      cases left with
      | nil => exact L.thenGo hasked hf
      | cons first rest => exact L.thenWait hasked hf hleft rfl
  | any futures =>
    cases futures with
    | nil => exact silent (L.thenGo (L.say p _) hf) rfl
    | cons first rest =>
      have hasked : R d _ := L.askAny p (first :: rest) 0 hf hchildless
      have hleft := fun left => World.askAny_left (w := d.world) (p := p) (f := f) (i := 0) left
        hchildless
      simp only [World.askWait, World.asksWait]
      generalize d.world.askAny p f 0 (first :: rest) = r at hasked hleft
      obtain ⟨w, result⟩ := r
      cases result with
      | error e => exact hasked
      | ok result =>
        cases result with
        | inl i => exact L.thenGo (L.trans hasked (L.say p _)) hf
        | inr left => exact L.thenWait hasked hf (hleft left rfl) rfl
  | spin token asked spins most block =>
    simp only [World.askWait]
    split
    · exact silent (L.thenGo (L.say p _) hf) rfl
    · split
      · have hprepended : R d { d with
            world := d.world.prepend f (block ++ [.spinAgain token (spins + 1) most block]) } :=
          L.compute ⟨_, _, _, rfl⟩
        exact silent (L.thenGo hprepended hf) rfl
      · split
        · rename_i hrequest
          exact silent (L.thenWait (L.request hrequest) hf trivial rfl) rfl
        · exact L.quiet d

end Ledger

/-! ## Statements -/

/-- The handle that a move takes out of the world. -/
def World.Move.hand : World.Move → List Task
  | .block _ t _ => [t]
  | _ => []

namespace Ledger

variable {strict known : Prop} {R : Desk → Desk → Prop} {d : Desk} {f : FrameId}

variable (L : Ledger strict known R)
include L

omit L in
/-- A statement after which the body goes on or raises leaves no handle outside the world. -/
theorem simply {w : World} {move : World.Move} (h : R d { d with world := w })
    (hmove : move.Simple) : R d { d with world := w, hand := move.hand ++ d.hand } := by
  cases move with
  | next | raise => exact h
  | _ => cases hmove

theorem startNamed (hf : f ∈ d.polled) (p : Place) {name : String} (k : WorkerId) {t : Task}
    (hfind : d.world.findTask f name = some t) :
    R d { d with
      world := (d.world.startNamed p f name k t).1
      hand := (d.world.startNamed p f name k t).2.hand ++ d.hand } := by
  obtain ⟨frame, started⟩ := t
  unfold World.startNamed World.startTask
  cases frame with
  | none => exact L.updateTask hf hfind (.refl _)
  | some c =>
    cases started with
    | true => exact L.updateTask hf hfind (.refl _)
    | false =>
      simp only [Bool.false_eq_true, if_false]
      cases hschedule : d.world.schedule p k c with
      | ok w =>
        obtain ⟨rfl, hstage⟩ := World.schedule_ok hschedule
        exact L.startTask hf hfind k hstage
      | error e => exact L.updateTask hf hfind (.started c d.hand)

theorem takeNamed (hf : f ∈ d.polled) (p : Place) {name : String} {t : Task}
    (hfind : d.world.findTask f name = some t) :
    R d { d with
      world := (d.world.takeNamed p f name t).1
      hand := (d.world.takeNamed p f name t).2.hand ++ d.hand } := by
  obtain ⟨frame, started⟩ := t
  have hkept : R d { d with
      world := (d.world.updateTask f name ⟨frame, started⟩).say p ("pending:" ++ name) } :=
    L.trans (L.updateTask hf hfind (.refl _)) (L.say p _)
  unfold World.takeNamed
  cases frame with
  | none => exact hkept
  | some c =>
    cases hcomplete : (d.world.frame c).isComplete with
    | false =>
      simp only [World.takeOutput, hcomplete, Bool.false_eq_true, if_false]
      exact hkept
    | true =>
      have hstage : (d.world.frame c).stage = .complete := by
        simpa [Frame.isComplete] using hcomplete
      have hspent := L.spendNamed hf p hfind rfl hstage
      have hresult : (d.world.takeOutput p ⟨some c, started⟩).2 =
          (⟨none, started⟩, (d.world.frame c).output) := by
        simp only [World.takeOutput, hcomplete, if_true]
      generalize d.world.takeOutput p ⟨some c, started⟩ = r at hspent hresult
      obtain ⟨w, t, output⟩ := r
      cases hresult
      cases (d.world.frame c).output with
      | none => exact L.trans hspent (L.say p _)
      | some o => exact L.trans (L.trans hspent (L.say p _)) (L.useOutput p o)

/-- A slot is emptied. -/
theorem vacate (slot : String) : R d { d with world := d.world.setSlot slot none } :=
  L.deeds (.one fun _ => .vacate slot) (.elsewhere rfl)

/-- A frame is taken out of a slot and scheduled. -/
theorem unslot {slot : String} (k : WorkerId) (hslot : d.world.slot slot = some f) :
    R d { d with world := (d.world.setSlot slot none).enqueue k f } :=
  L.deeds (.one fun _ => .unpark k hslot)
    (World.Deeds.trans (.elsewhere rfl) (.enqueue (.inl trivial) f))

theorem unpark (p : Place) (slot : String) (k : WorkerId) :
    R d { d with
      world := (d.world.unpark p slot k).1
      hand := (d.world.unpark p slot k).2.hand ++ d.hand } := by
  have hvacated : R d { d with world := d.world.setSlot slot none } := L.vacate slot
  unfold World.unpark World.takeSlot
  cases hslot : d.world.slot slot with
  | none => exact L.trans hvacated (L.say p _)
  | some g =>
    simp only
    split
    · exact L.trans hvacated (L.say p _)
    · split
      · exact L.trans hvacated (L.say p _)
      · split
        · rename_i hschedule
          obtain ⟨rfl, -⟩ := World.schedule_ok hschedule
          exact L.unslot k hslot
        · exact hvacated

/-- A new task is made for the body to run to its end. -/
theorem block (p : Place) (hp : p.thread = 0) (k : WorkerId) (body : String) (arg : Int)
    (temporary : Bool) :
    R d { d with
      world := (d.world.newTask p body arg).1
      hand := (World.Move.block k (d.world.newTask p body arg).2 temporary).hand ++ d.hand } :=
  L.newTask p body arg hp

theorem parkHolding (hf : f ∈ d.polled) (p : Place) (lock slot : String) (l : ParkLock) :
    R d { d with world := (d.world.parkHolding p f lock slot l).1 } := by
  have hlocked : R d { d with
      world := (d.world.setLock lock l).say p s!"parking:{l.value}" } := L.elsewhere rfl
  exact L.thenWait hlocked hf trivial rfl

/-- A body runs a statement that asks for nothing. -/
theorem does (hf : f ∈ d.polled) {p : Place} (hp : p.thread = 0) {s : Stmt}
    {r : World × World.Move} (hdoes : d.world.Does p f s r)
    (hstrict : strict → ∀ worker, s ≠ .scheduleSelf worker) :
    R d { d with world := r.1, hand := r.2.hand ++ d.hand } := by
  have hnamed : ∀ worker, R d { d with world := (d.world.namedWorker worker).1 } := L.namedWorker
  cases hdoes with
  | beside hbeside hmove => exact simply (L.beside hbeside) hmove
  | stuck => exact L.refl d
  | compute hchange => exact L.compute hchange
  | wait hbeside hheld hfutures =>
    exact L.thenWait (L.beside hbeside) hf (.of_futures hfutures) hheld
  | park lock slot n l =>
    have hprepended : R d { d with world := d.world.prepend f [.logUnparked lock] } :=
      L.compute ⟨_, _, _, rfl⟩
    exact L.trans hprepended (L.parkHolding (by exact hf) p lock slot l)
  | await body delta =>
    have hmade : R d _ := L.newTask p body (World.bump delta (d.world.frame f).arg) hp
    refine L.trans hmade (L.setWait ?_ (fun _ e => ?_) (.suffix _ _))
    · exact hf
    · cases e
      trivial
  | spawn hpicks hmakes body arg =>
    cases hpicks with
    | entered hk => exact L.spawnDetached p _ body arg hp
    | named worker => exact L.trans (hnamed worker) (L.spawnDetached p _ body arg hp)
  | new task body delta =>
    have hmade : R d _ := L.newTask p body (World.bump delta (d.world.frame f).arg) hp
    exact L.trans hmade (L.addTask p (by exact hf) rfl)
  | start hpicks htask hfind =>
    cases hpicks with
    | entered hk => exact L.startNamed hf p _ hfind
    | named worker => exact L.trans (hnamed worker) (L.startNamed (by exact hf) p _ hfind)
  | take hfind => exact L.takeNamed hf p hfind
  | drop hfind => exact L.trans (L.removeTask hf hfind) (L.dropTask p _ rfl)
  | give name hfind =>
    exact L.trans (L.removeTask hf hfind) (L.addTask p (by exact hf) rfl)
  | mention worker hbeside hmove =>
    exact simply (L.trans (hnamed worker) (L.beside hbeside)) hmove
  | unpark slot worker => exact L.trans (hnamed worker) (L.unpark p slot _)
  | block body delta => exact L.trans (L.newWorker .unlock) (L.block p hp _ body _ true)
  | blockWith worker body arg => exact L.trans (hnamed worker) (L.block p hp _ body arg false)
  | pump worker => exact hnamed worker
  | schedule hcurrent hschedule =>
    obtain ⟨rfl, hstage⟩ := World.schedule_ok hschedule
    exact L.trans (hnamed _) (L.deeds (.one fun _ => .schedule _ hstage fun h =>
      absurd rfl (hstrict h _)) (.enqueue (.inl trivial) _))

/-- A body runs one statement. -/
theorem exec (hf : f ∈ d.polled) {p : Place} (hp : p.thread = 0) {s : Stmt}
    (hstrict : strict → ∀ worker, s ≠ .scheduleSelf worker) :
    R d { d with
      world := (d.world.exec p f s).1
      hand := (d.world.exec p f s).2.hand ++ d.hand
      asked := d.asked ++ d.world.asksStmt p f s } := by
  cases s with
  | pollOnce wanted =>
    have hasked := L.trans (L.beside (.begin d.world wanted))
      (L.ask (by exact hf) p (Future.ne_child_of_held (d.world.begin_held wanted)))
    simp only [World.exec, World.asksStmt]
    generalize (d.world.begin wanted).1.ask p f (d.world.begin wanted).2 = r at hasked
    obtain ⟨w, asked⟩ := r
    cases asked with
    | ready => exact L.trans hasked (L.say p _)
    | pending left => exact L.trans hasked (L.say p _)
    | fault e => exact hasked
  | _ => exact silent (L.does hf hp (World.exec_does p f fun _ e => by cases e) hstrict) rfl

end Ledger

end Substrate.Coro
