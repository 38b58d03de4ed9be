import Substrate.Proofs.Coro.StatementEffects
import Substrate.Proofs.Coro.Threads

/-!
# Running statements

What one statement of a body does to a layout.  `Executes` tells what running it
comes to; `Continues` is the part that is common to all of them: the frame goes
on being polled, the other frames go where they can, and the workers are as the
activities of the thread say.

* The lemmas `exec_…` are about one family of statements each.
* `Layout.exec` puts them together.
-/

namespace Substrate.Coro

/-- Frame `f` goes on being polled. -/
structure Continues (w : World) (spot : FrameId → Spot) (a : Around) (f : FrameId)
    (entered : Option WorkerId) (stack : List Activity) (w' : World) (spot' : FrameId → Spot) :
    Prop where
  layout : Layout w' { a with polled := f :: a.polled } spot'
  moves : Moves w spot w' spot'
  orderly : Orderly w' entered stack

/-- What running a statement of frame `f` comes to. -/
inductive Executes (w : World) (spot : FrameId → Spot) (a : Around) (f : FrameId)
    (entered : Option WorkerId) (stack : List Activity) : World × World.Move → Prop
  | next {w' : World} {spot' : FrameId → Spot} (h : Continues w spot a f entered stack w' spot') :
    Executes w spot a f entered stack (w', .next)
  | raise {w' : World} {spot' : FrameId → Spot} {message : String}
    (h : Continues w spot a f entered stack w' spot') :
    Executes w spot a f entered stack (w', .raise message)
  | pump {w' : World} {spot' : FrameId → Spot} {k : WorkerId}
    (h : Continues w spot a f entered stack w' spot') (hk : k < w'.workerCount) :
    Executes w spot a f entered stack (w', .pump k)
  | block {w' : World} {spot' : FrameId → Spot} {k : WorkerId} {t : Task} {temporary : Bool}
    (h : Continues w spot { a with handles := t :: a.handles } f entered stack w' spot')
    (hk : k < w'.workerCount) : Executes w spot a f entered stack (w', .block k t temporary)
  | stuck {w' : World} : Executes w spot a f entered stack (w', .stuck)

section Statements

variable {w w' : World} {a : Around} {spot spot' : FrameId → Spot} {p : Place} {k : WorkerId}
  {f : FrameId} {entered : Option WorkerId} {stack : List Activity} {r : World × World.Move}

/-- Before a statement runs, something else happens. -/
theorem Executes.after {w₁ : World} {spot₁ : FrameId → Spot}
    (hlayout : Layout w { a with polled := f :: a.polled } spot) (hmoves : Moves w spot w₁ spot₁)
    (h : Executes w₁ spot₁ a f entered stack r) : Executes w spot a f entered stack r := by
  cases h with
  | next h => exact .next ⟨h.layout, hmoves.trans hlayout h.moves, h.orderly⟩
  | raise h => exact .raise ⟨h.layout, hmoves.trans hlayout h.moves, h.orderly⟩
  | pump h hk => exact .pump ⟨h.layout, hmoves.trans hlayout h.moves, h.orderly⟩ hk
  | block h hk => exact .block ⟨h.layout, hmoves.trans hlayout h.moves, h.orderly⟩ hk
  | stuck => exact .stuck

theorem Moves.of_same (hagrees : w.Agrees w') : Moves w spot w' spot :=
  .of_frames (fun _ => .refl _ _ _) fun g _ => by rw [hagrees.frame]

/-- Neither frames nor workers change. -/
theorem exec_beside (h : Layout w { a with polled := f :: a.polled } spot)
    (horderly : Orderly w entered stack) (hbeside : w.Beside w') {move : World.Move}
    (hmove : move.Simple) : Executes w spot a f entered stack (w', move) := by
  have hcontinues : Continues w spot a f entered stack w' spot :=
    ⟨h.of_agrees hbeside.agrees, .of_same hbeside.agrees, horderly.of_steady hbeside.steady⟩
  cases move with
  | next => exact .next hcontinues
  | raise message => exact .raise hcontinues
  | _ => cases hmove

theorem exec_say (h : Layout w { a with polled := f :: a.polled } spot)
    (horderly : Orderly w entered stack) (p : Place) (text : String) :
    Executes w spot a f entered stack (w.say p text, .next) :=
  exec_beside h horderly (.say w p text) trivial

/-- The code or the numbers of the body change. -/
theorem exec_body (h : Layout w { a with polled := f :: a.polled } spot)
    (horderly : Orderly w entered stack) {change : Frame → Frame}
    (hchange : ∃ acc guard code, change (w.frame f) = { w.frame f with acc, guard, code }) :
    Executes w spot a f entered stack (w.modifyFrame f change, .next) := by
  obtain ⟨acc, guard, code, e⟩ := hchange
  have hlife : (w.frame f).SameLife (change (w.frame f)) :=
    e ▸ ⟨rfl, rfl, rfl, rfl, rfl, rfl, rfl, rfl⟩
  obtain ⟨hpending, hstage⟩ := h.pending_of_polled List.mem_cons_self
  refine .next ⟨h.modifyCode hpending hstage hlife (by rw [e]) (by rw [e]),
    .of_frames (fun _ => .refl _ _ _) fun g _ => ?_, horderly.of_steady (.of_workers rfl rfl rfl)⟩
  rw [World.frame_modifyFrame]
  split
  · rename_i hg
    rw [hg, hlife.disposal]
  · rfl

/-- The body is about to wait for something, and takes the handle in it along. -/
theorem exec_wait {wait : Wait}
    (h : Layout w { a with
      polled := f :: a.polled
      handles := Frame.waitTasks (some wait) ++ a.handles } spot)
    (horderly : Orderly w entered stack) (hnone : (w.frame f).wait = none)
    (hsolitary : wait.Solitary) :
    Executes w spot a f entered stack (w.setWait f (some wait), .next) := by
  obtain ⟨hpending, hstage⟩ := h.pending_of_polled List.mem_cons_self
  have hset := h.setWait (some wait) a.handles a.spent hpending
    hstage (fun wait' e => by cases e; exact hsolitary) fun c b => ?_
  · refine .next ⟨hset, .of_frames (fun _ => .refl _ _ _) fun g _ => ?_,
      horderly.of_steady (.of_workers rfl rfl rfl)⟩
    obtain ⟨_, e⟩ := w.frame_setWait f (some wait) g
    rw [e]
  · rw [hnone, List.count_append]
    show _ + a.handles.count _ + a.spent.count _ = 0 + (_ + a.handles.count _) + a.spent.count _
    omega

/-! ## Tasks -/

theorem steady_spawnDetached (w : World) (p : Place) (k : WorkerId) (body : String) (arg : Int) :
    w.Steady (w.spawnDetached p k body arg) := by
  have hmade : w.Steady ((w.newFrame (some p.thread) .detached body arg).1.emit
      (.spawn w.frameCount)) := .of_workers rfl rfl rfl
  exact hmade.trans (World.steady_enqueue _ k w.frameCount)

theorem moves_spawnDetached (h : Layout w a spot) (p : Place) (k : WorkerId) (body : String)
    (arg : Int) :
    Moves w spot (w.spawnDetached p k body arg)
      (put spot w.frameCount (.listed (readyList k))) := by
  have hfresh : spot w.frameCount = .absent := h.absent_frameCount
  refine .put ?_ fun g hg => ?_
  · rw [hfresh]
    exact .of_idle _ _ id rfl nofun
  · have hne : g ≠ w.frameCount := fun e => hg (e ▸ hfresh)
    unfold World.spawnDetached
    rw [World.frame_enqueue]
    show ((w.newFrame (some p.thread) .detached body arg).1.frame g).disposal = _
    rw [Layout.newFrame_frame, if_neg hne]

/-- A detached frame is started. -/
theorem exec_spawn (h : Layout w { a with polled := f :: a.polled } spot)
    (horderly : Orderly w entered stack) (hp : p.thread = a.thread) (k : WorkerId) (body : String)
    (arg : Int) :
    Executes w spot a f entered stack (w.spawnDetached p k body arg, .next) :=
  .next ⟨h.spawnDetached hp k body arg, moves_spawnDetached h p k body arg,
    horderly.of_steady (steady_spawnDetached w p k body arg)⟩

theorem moves_newTask (h : Layout w a spot) (p : Place) (body : String) (arg : Int) :
    Moves w spot (w.newTask p body arg).1 (put spot w.frameCount .unstarted) := by
  have hfresh : spot w.frameCount = .absent := h.absent_frameCount
  refine .put ?_ fun g hg => ?_
  · rw [hfresh]
    exact .of_idle _ _ id rfl nofun
  · have hne : g ≠ w.frameCount := fun e => hg (e ▸ hfresh)
    show ((w.newFrame (some p.thread) .awaited body arg).1.frame g).disposal = _
    rw [Layout.newFrame_frame, if_neg hne]

/-- A task of the body is started. -/
theorem exec_start (h : Layout w { a with polled := f :: a.polled } spot)
    (horderly : Orderly w entered stack) (hspent : a.spent = []) (hp : p.thread = a.thread)
    {name : String} {t : Task} (hfind : w.findTask f name = some t) (k : WorkerId) :
    Executes w spot a f entered stack (w.startNamed p f name k t) := by
  obtain ⟨hpending, hstage⟩ := h.pending_of_polled List.mem_cons_self
  have hmem : t ∈ w.held ++ a.handles :=
    List.mem_append_left _ (Layout.mem_held_of_findTask (h.lt_of_pending hpending) hfind)
  have hdisposal : ∀ (w₁ : World) t' g, ((w₁.updateTask f name t').frame g).disposal =
      (w₁.frame g).disposal := by
    intro w₁ t' g
    obtain ⟨tasks, e, -⟩ := w₁.frame_updateTask f name t' g
    rw [e]
  unfold World.startNamed
  rcases h.startTask hp k hmem hspent with ⟨-, hstart⟩ |
    ⟨w₁, t', spot₁, hstart, hlayout₁, hmoves, hsteady, hframes, htasks⟩
  · rw [hstart]
    exact .raise ⟨h.updateTask_same hpending hstage hfind,
      .of_frames (fun _ => .refl _ _ _) fun g _ => hdisposal w t g,
      horderly.of_steady (w.steady_updateTask f name t)⟩
  · rw [hstart]
    have hframe : ∀ g, w₁.frame g = w.frame g := fun g => by rw [World.frame, World.frame, hframes]
    have hfind₁ : w₁.findTask f name = some t := by
      rw [← hfind, World.findTask, World.findTask, htasks, hframe]
    have hself₁ : spot₁ f = .polled := (hlayout₁.polled f).mp List.mem_cons_self
    have hupdated :=
      Layout.updateTask (a := { a with polled := f :: a.polled, spent := [] }) hlayout₁
      (by rw [hself₁]; trivial) (by rw [hframe]; exact hstage) hfind₁
    rw [← hspent] at hupdated
    exact .next ⟨hupdated, hmoves.of_disposal (hdisposal w₁ t'),
      horderly.of_steady (hsteady.trans (w₁.steady_updateTask f name t'))⟩

/-- The result of a task of the body is taken, if it is there. -/
theorem exec_take (h : Layout w { a with polled := f :: a.polled } spot)
    (horderly : Orderly w entered stack) (hspent : a.spent = []) (hhand : a.hand = [])
    {name : String} {t : Task} (hfind : w.findTask f name = some t) :
    Executes w spot a f entered stack (w.takeNamed p f name t) := by
  obtain ⟨hpending, hstage⟩ := h.pending_of_polled List.mem_cons_self
  have hmem : t ∈ w.held ++ a.handles :=
    List.mem_append_left _ (Layout.mem_held_of_findTask (h.lt_of_pending hpending) hfind)
  -- a handle whose frame is not complete stays as it is
  have hnothing : (∀ c, t.frame = some c → (w.frame c).isComplete = false) →
      Executes w spot a f entered stack (w.takeNamed p f name t) := by
    intro ht
    have hupdated := h.updateTask_same hpending hstage hfind
    have horderly' := horderly.of_steady (w.steady_updateTask f name t)
    unfold World.takeNamed
    rw [Layout.takeOutput_none ht]
    refine .after h (.of_frames (fun _ => .refl _ _ _) fun g _ => ?_)
      (exec_say hupdated horderly' p ("pending:" ++ name))
    obtain ⟨tasks, e, -⟩ := w.frame_updateTask f name t g
    rw [e]
  obtain ⟨frame, b⟩ := t
  cases frame with
  | none => exact hnothing nofun
  | some c =>
    by_cases hc : spot c = .complete
    · obtain ⟨w₁, htake, hlayout, hdrops, htasks, -⟩ := h.takeOutput p hc hmem hspent hhand
      obtain ⟨hupdated, hmoves, hsteady, -⟩ := Layout.forget hspent hfind hlayout hdrops htasks
      unfold World.takeNamed
      rw [htake]
      simp only
      have horderly' := horderly.of_steady hsteady
      generalize w₁.updateTask f name ⟨none, b⟩ = w₂ at hupdated hmoves horderly' ⊢
      generalize hsay : s!"took:{name}={(w.frame c).acc}" = text
      have hsaid : Layout (w₂.say p text) { a with polled := f :: a.polled } (put spot c .absent) :=
        hupdated.of_agrees ⟨fun _ => rfl, rfl, rfl, rfl, rfl, rfl⟩
      obtain ⟨hpending₂, hstage₂⟩ := hsaid.pending_of_polled List.mem_cons_self
      have hused := hsaid.useOutput p ⟨(w.frame c).acc, (w.frame c).guard⟩ hpending₂
        hstage₂
      have hmoves₂ : Moves w spot (w₂.say p text) (put spot c .absent) :=
        hmoves.of_disposal fun _ => rfl
      have hsteady₂ : w₂.Steady (w₂.say p text) := .of_workers rfl rfl rfl
      exact .next ⟨hused, Layout.moves_useOutput hmoves₂ p f _,
        horderly'.of_steady (hsteady₂.trans (World.steady_useOutput _ _ _ _))⟩
    · refine hnothing fun c' hc' => ?_
      cases hc'
      rw [Bool.eq_false_iff]
      exact fun hcomplete =>
        hc ((h.isComplete_iff hhand (h.ne_absent_of_mem hmem hspent)).mp hcomplete)

theorem World.frame_removeTask (w : World) (f : FrameId) (name : String) (g : FrameId) :
    ∃ tasks, (w.removeTask f name).frame g = { w.frame g with tasks } := by
  unfold World.removeTask
  split
  · exact ⟨_, rfl⟩
  · rw [World.frame_modifyFrame]
    split <;> exact ⟨_, rfl⟩

theorem World.steady_removeTask (w : World) (f : FrameId) (name : String) :
    w.Steady (w.removeTask f name) := by
  unfold World.removeTask
  split <;> exact .of_workers rfl rfl rfl

theorem moves_removeTask (w : World) (spot : FrameId → Spot) (f : FrameId) (name : String) :
    Moves w spot (w.removeTask f name) spot := by
  refine .of_frames (fun _ => .refl _ _ _) fun g _ => ?_
  obtain ⟨tasks, e⟩ := w.frame_removeTask f name g
  rw [e]

/-- A task of the body is dropped. -/
theorem exec_drop (h : Layout w { a with polled := f :: a.polled } spot)
    (horderly : Orderly w entered stack) (hspent : a.spent = []) (hhand : a.hand = [])
    {name : String} {t : Task} (hfind : w.findTask f name = some t) :
    Executes w spot a f entered stack ((w.removeTask f name).dropTask p t, .next) := by
  obtain ⟨hpending, hstage⟩ := h.pending_of_polled List.mem_cons_self
  have hremoved := h.removeTask hpending hstage hfind
  obtain ⟨spot', hlayout, hdrops, -⟩ :=
    Layout.dropTask (a := { a with polled := f :: a.polled }) p hremoved hspent hhand
  exact .next ⟨hlayout, (moves_removeTask w spot f name).trans h hdrops.toMoves,
    horderly.of_steady ((w.steady_removeTask f name).trans hdrops.steady)⟩

/-- A task outside any name is put under one. -/
theorem exec_add {t : Task}
    (h : Layout w { a with polled := f :: a.polled, handles := t :: a.handles } spot)
    (horderly : Orderly w entered stack) (hspent : a.spent = []) (hhand : a.hand = [])
    (name : String) : Executes w spot a f entered stack (w.addTask p f name t, .next) := by
  obtain ⟨hpending, hstage⟩ := h.pending_of_polled List.mem_cons_self
  obtain ⟨spot', hlayout, hmoves, hsteady⟩ :=
    Layout.addTask (a := { a with polled := f :: a.polled }) p name h
      hpending hstage hspent hhand
  exact .next ⟨hlayout, hmoves, horderly.of_steady hsteady⟩

/-! ## Slots -/

/-- A frame that is in hand and suspended is scheduled. -/
theorem Layout.schedule {g : FrameId} {s : Spot}
    (h : Layout w { a with hand := g :: a.hand } (put spot g (.hand none)))
    (hp : p.thread = a.thread) (hfits : Fits (w.frame g) s) (hs : s.IsPending) (hhand : ¬ s.IsHand)
    (hstage : (w.frame g).stage = .suspended) (k : WorkerId) :
    w.schedule p k g = .ok (w.enqueue k g) ∧
      Layout (w.enqueue k g) a (put spot g (.listed (readyList k))) := by
  have hhome : (w.frame g).isAtHome p.thread = true :=
    hp ▸ h.isAtHome (by rw [put_self]; nofun)
  have hnot : (w.frame g).isComplete = false := by rw [Frame.isComplete, hstage]; rfl
  constructor
  · rw [World.schedule, hhome, hnot]
    rfl
  · have hqueued := h.enqueue (k := k) (put_self _ _ _)
      (hfits.move (.inr hs) hhand trivial (.inr hstage))
    rwa [put_put] at hqueued

/-- The frame in a slot can be scheduled. -/
theorem Layout.unpark (h : Layout w a spot) (hp : p.thread = a.thread) {slot : String}
    {g : FrameId} (hslot : w.slot slot = some g) (k : WorkerId) :
    (w.frame g).alive = true ∧ (w.frame g).stage = .suspended ∧
      (w.setSlot slot none).schedule p k g = .ok ((w.setSlot slot none).enqueue k g) ∧
      Layout ((w.setSlot slot none).enqueue k g) a (put spot g (.listed (readyList k))) ∧
      Moves w spot ((w.setSlot slot none).enqueue k g) (put spot g (.listed (readyList k))) ∧
      w.Steady ((w.setSlot slot none).enqueue k g) := by
  have hspot : spot g = .slotted slot := (h.slotted slot g).mp hslot
  have hfits := h.frames g
  rw [hspot] at hfits
  obtain ⟨hscheduled, hlayout⟩ := (h.takeSlot hslot).schedule hp hfits trivial id hfits.stage k
  refine ⟨hfits.alive.mpr nofun, hfits.stage, hscheduled, hlayout, .put ?_ fun g _ => ?_, ?_⟩
  · rw [hspot]
    exact .of_active _ _ id trivial rfl nofun
  · rw [World.frame_enqueue]
    rfl
  · have hemptied : w.Steady (w.setSlot slot none) := .of_workers rfl rfl rfl
    exact hemptied.trans (World.steady_enqueue _ _ _)

/-- The frame in a slot is scheduled by a body. -/
theorem exec_unpark (h : Layout w { a with polled := f :: a.polled } spot)
    (horderly : Orderly w entered stack) (hp : p.thread = a.thread) (slot : String) (k : WorkerId) :
    Executes w spot a f entered stack (w.unpark p slot k) := by
  unfold World.unpark World.takeSlot
  cases hslot : w.slot slot with
  | none =>
    have hmoves : Moves w spot (w.setSlot slot none) spot :=
      .of_frames (fun _ => .refl _ _ _) fun _ _ => rfl
    exact .after h hmoves
      (exec_say (h.vacate hslot) (horderly.of_steady (.of_workers rfl rfl rfl)) p
      ("vacant:" ++ slot))
  | some g =>
    obtain ⟨halive, hstage, hscheduled, hlayout, hmoves, hsteady⟩ := h.unpark hp hslot k
    simp only
    rw [show (w.setSlot slot none).frame g = w.frame g from rfl, halive, hstage, hscheduled]
    exact .next ⟨hlayout, hmoves, horderly.of_steady hsteady⟩

/-- A worker is named first. -/
theorem exec_named (h : Layout w { a with polled := f :: a.polled } spot) (worker : String)
    (h' : Executes (w.namedWorker worker).1 spot a f entered stack r) :
    Executes w spot a f entered stack r :=
  .after h (.of_same (w.namedWorker_agrees worker)) h'

/-- A task is made first. -/
theorem exec_made (h : Layout w { a with polled := f :: a.polled } spot)
    (horderly : Orderly w entered stack) (hp : p.thread = a.thread) (body : String) (arg : Int)
    (h' : Layout (w.newTask p body arg).1 { a with polled := f :: a.polled
                                                   handles :=
                                                   ⟨some w.frameCount, false⟩ :: a.handles }
        (put spot w.frameCount .unstarted) →
      Orderly (w.newTask p body arg).1 entered stack →
      Executes (w.newTask p body arg).1 (put spot w.frameCount .unstarted) a f entered stack r) :
    Executes w spot a f entered stack r :=
  .after h (moves_newTask h p body arg)
    (h' (h.newTask hp body arg) (horderly.of_steady (.of_workers rfl rfl rfl)))

/-- The body runs a new task to its end. -/
theorem exec_block (h : Layout w { a with polled := f :: a.polled } spot)
    (horderly : Orderly w entered stack) (hp : p.thread = a.thread) (hk : k < w.workerCount)
    (body : String) (arg : Int) (temporary : Bool) :
    Executes w spot a f entered stack
      ((w.newTask p body arg).1, .block k (w.newTask p body arg).2 temporary) := by
  refine exec_made h horderly hp body arg fun hmade horderly' =>
    .block ⟨hmade, .refl _ _, horderly'⟩ hk

/-- The body waits for something that has no handle in it. -/
theorem exec_waitFor {wait : Wait} (h : Layout w { a with polled := f :: a.polled } spot)
    (horderly : Orderly w entered stack) (hnone : (w.frame f).wait = none) (hagrees : w.Agrees w')
    (hsteady : w.Steady w') (hsolitary : wait.Solitary) (hheld : Frame.waitTasks (some wait) = []) :
    Executes w spot a f entered stack (w'.setWait f (some wait), .next) := by
  refine .after h (.of_same hagrees) (exec_wait ?_ (horderly.of_steady hsteady) ?_ hsolitary)
  · rw [hheld]
    exact h.of_agrees hagrees
  · rw [hagrees.frame]
    exact hnone

/-- The body is about to park with a lock. -/
theorem exec_park (h : Layout w { a with polled := f :: a.polled } spot)
    (horderly : Orderly w entered stack) (hnone : (w.frame f).wait = none) (p : Place)
    (lock slot : String) (l : ParkLock) :
    Executes w spot a f entered stack (w.parkHolding p f lock slot l) :=
  exec_waitFor h horderly hnone ⟨fun _ => rfl, rfl, rfl, rfl, rfl, rfl⟩ (.of_workers rfl rfl rfl)
    trivial rfl

/-- Running a statement of a body that waits for one thing at a time. -/
theorem Layout.exec (h : Layout w { a with polled := f :: a.polled } spot)
    (horderly : Orderly w entered stack) (hspent : a.spent = []) (hhand : a.hand = [])
    (hp : p.thread = a.thread) (hnone : (w.frame f).wait = none)
    (s : Stmt) (halone : s.waitsAlone = true) (hself : s.schedulesSelf = false) :
    Executes w spot a f entered stack (w.exec p f s) := by
  have hnamed := w.namedWorker_agrees
  have hdoes : w.Does p f s (w.exec p f s) := World.exec_does p f fun wanted e => by
    rw [e] at halone
    cases halone
  generalize w.exec p f s = r at hdoes ⊢
  cases hdoes with
  | beside hbeside hmove => exact exec_beside h horderly hbeside hmove
  | stuck => exact .stuck
  | compute hchange => exact exec_body h horderly hchange
  | wait hbeside hheld hfutures hsolitary =>
    exact exec_waitFor h horderly hnone hbeside.agrees hbeside.steady (hsolitary halone) hheld
  | park lock slot n l =>
    have hlonger : Executes w spot a f entered stack (w.prepend f [.logUnparked lock], .next) :=
      exec_body h horderly ⟨_, _, _, rfl⟩
    cases hlonger with
    | next h' =>
      refine .after h h'.moves (exec_park h'.layout h'.orderly ?_ ..)
      rw [World.prepend, World.frame_modifyFrame, if_pos rfl]
      exact hnone
  | await body delta =>
    refine exec_made h horderly hp body (World.bump delta (w.frame f).arg) fun hmade horderly' =>
      exec_wait hmade horderly' ?_ trivial
    show ((w.newFrame _ _ _ _).1.frame f).wait = none
    rw [Layout.newFrame_frame]
    split
    · rfl
    · exact hnone
  | spawn hpicks hmakes body arg =>
    cases hpicks with
    | entered hk => exact exec_spawn h horderly hp _ body arg
    | named worker =>
      exact exec_named h worker (exec_spawn (h.of_agrees (hnamed worker))
        (horderly.namedWorker worker).1 hp _ body arg)
  | new task body delta =>
    exact exec_made h horderly hp body (World.bump delta (w.frame f).arg) fun hmade horderly' =>
      exec_add hmade horderly' hspent hhand task
  | start hpicks htask hfind =>
    cases hpicks with
    | entered hk => exact exec_start h horderly hspent hp hfind _
    | named worker =>
      exact exec_named h worker (exec_start (h.of_agrees (hnamed worker))
        (horderly.namedWorker worker).1 hspent hp hfind _)
  | take hfind => exact exec_take h horderly hspent hhand hfind
  | drop hfind => exact exec_drop h horderly hspent hhand hfind
  | @give task t name hfind =>
    obtain ⟨hpending, hstage⟩ := h.pending_of_polled List.mem_cons_self
    have hremoved := h.removeTask hpending hstage hfind
    exact .after h (moves_removeTask w spot f task) (exec_add hremoved
      (horderly.of_steady (w.steady_removeTask f task)) hspent hhand name)
  | mention worker hbeside hmove =>
    exact exec_named h worker (exec_beside (h.of_agrees (hnamed worker))
      (horderly.namedWorker worker).1 hbeside hmove)
  | unpark slot worker =>
    exact exec_named h worker (exec_unpark (h.of_agrees (hnamed worker))
      (horderly.namedWorker worker).1 hp slot _)
  | block body delta =>
    obtain ⟨horderly', hk'⟩ := horderly.newWorker .unlock
    have hagrees := w.newWorker_agrees .unlock
    exact .after h (.of_same hagrees)
      (exec_block (h.of_agrees hagrees) horderly' hp hk' body _ true)
  | blockWith worker body arg hmakes =>
    obtain ⟨horderly', hk'⟩ := horderly.namedWorker worker
    exact exec_named h worker
      (exec_block (h.of_agrees (hnamed worker)) horderly' hp hk' body arg false)
  | pump worker =>
    obtain ⟨horderly', hk'⟩ := horderly.namedWorker worker
    exact .pump ⟨h.of_agrees (hnamed worker), .of_same (hnamed worker), horderly'⟩ hk'
  | schedule => cases hself

end Statements

end Substrate.Coro
