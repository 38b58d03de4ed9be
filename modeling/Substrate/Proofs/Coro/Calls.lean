import Substrate.Proofs.Coro.Operations
import Substrate.Proofs.Coro.Steps

/-!
# What a caller does

Between two runs of its thread, a caller makes workers and tasks, starts, takes
and drops them, and moves frames between slots and workers.  Each of these
operations leaves the frames settled, provided it schedules only frames that were
taken out of slots.

* `act_called` is about the operations that are carried out at once, and
  `launch_outcome` about those that run the thread.
-/

namespace Substrate.Coro

/-- An operation leaves things settled, and frames went where they can. -/
def Called (w : World) (spot : FrameId → Spot) (taken : List FrameId)
    (returned : List (FrameId × Output)) (w' : World) : Prop :=
  ∃ spot', Settled w' {} taken returned spot' ∧ Moves w spot w' spot'

section Calls

variable {w w' : World} {spot : FrameId → Spot} {taken : List FrameId}
  {returned : List (FrameId × Output)}

/-- Nothing happens that places depend on. -/
theorem Settled.quiet (h : Settled w {} taken returned spot) (hagrees : w.Agrees w')
    (horderly : Orderly w' none []) : Called w spot taken returned w' :=
  ⟨spot, ⟨h.layout.of_agrees hagrees, horderly⟩, .of_same hagrees⟩

theorem Settled.same (h : Settled w {} taken returned spot) : Called w spot taken returned w :=
  ⟨spot, h, .refl w spot⟩

/-- Something else happens first. -/
theorem Called.after {taken' : List FrameId} {spot₁ : FrameId → Spot} {w₁ : World}
    (h : Settled w {} taken returned spot) (hmoves : Moves w spot w₁ spot₁)
    (h' : Called w₁ spot₁ taken' returned w') : Called w spot taken' returned w' := by
  obtain ⟨spot', hsettled, hmoves'⟩ := h'
  exact ⟨spot', hsettled, hmoves.trans h.layout hmoves'⟩

/-- The worker of a name is mentioned first. -/
theorem Settled.named (h : Settled w {} taken returned spot) (worker : String) :
    Settled (w.namedWorker worker).1 {} taken returned spot ∧
      Moves w spot (w.namedWorker worker).1 spot :=
  ⟨⟨h.layout.of_agrees (w.namedWorker_agrees worker), (h.orderly.namedWorker worker).1⟩,
    .of_same (w.namedWorker_agrees worker)⟩

/-! ## Workers -/

/-- A worker is given up. -/
theorem Settled.dropWorker (h : Settled w {} taken returned spot) (p : Place) (k : WorkerId) :
    Called w spot taken returned (w.dropWorker p k) :=
  h.quiet (w.dropWorker_agrees p (h.orderly.retired k))
    (h.orderly.of_steady (w.steady_dropWorker p (h.orderly.retired k)))

theorem Settled.dropWorkers (p : Place) (ks : List WorkerId) :
    ∀ {w : World}, Settled w {} taken returned spot →
      Called w spot taken returned (ks.foldl (fun w k => w.dropWorker p k) w) := by
  induction ks with
  | nil => exact fun h => h.same
  | cons k ks ih =>
    intro w h
    have hagrees := w.dropWorker_agrees p (h.orderly.retired k)
    refine .after h (.of_same hagrees) (ih ⟨h.layout.of_agrees hagrees, ?_⟩)
    exact h.orderly.of_steady (w.steady_dropWorker p (h.orderly.retired k))

/-- A fresh worker gets a name, and the one that had it is given up. -/
theorem Settled.newWorker (h : Settled w {} taken returned spot) (name : String)
    (hook : ReleaseHook) : Called w spot taken returned (Session.hired w name hook) := by
  obtain ⟨horderly, hk⟩ := h.orderly.newWorker hook
  have hagrees : w.Agrees { (w.newWorker hook).1 with
      workerNames := w.workerNames.set name w.workerCount } :=
      ⟨fun _ => rfl, rfl, rfl, rfl, rfl, rfl⟩
  have hsettled : Settled { (w.newWorker hook).1 with
      workerNames := w.workerNames.set name w.workerCount } {} taken returned spot :=
    ⟨h.layout.of_agrees hagrees, horderly.nameWorker hk name⟩
  unfold Session.hired
  split
  · exact .after h (.of_same hagrees) (hsettled.dropWorker Session.place _)
  · exact ⟨spot, hsettled, .of_same hagrees⟩

/-! ## Tasks -/

theorem Settled.spawn (h : Settled w {} taken returned spot) (k : WorkerId) (body : String)
    (arg : Int) : Called w spot taken returned (w.spawnDetached Session.place k body arg) :=
  ⟨_, ⟨h.layout.spawnDetached rfl k body arg,
    h.orderly.of_steady (steady_spawnDetached w Session.place k body arg)⟩,
    moves_spawnDetached h.layout Session.place k body arg⟩

/-- A handle is dropped. -/
theorem called_dropTask {t : Task}
    (hlayout : Layout w { ({} : Thread).around taken returned with handles := [t] } spot)
    (horderly : Orderly w none []) (p : Place) : Called w spot taken returned (w.dropTask p t) := by
  obtain ⟨spot', hdropped, hdrops, -⟩ :=
    Layout.dropTask (a := ({} : Thread).around taken returned) p hlayout rfl rfl
  exact ⟨spot', ⟨hdropped, horderly.of_steady hdrops.steady⟩, hdrops.toMoves⟩

/-- A handle goes under a name, and the one that was there is dropped. -/
theorem called_share {t : Task}
    (hlayout : Layout w { ({} : Thread).around taken returned with handles := [t] } spot)
    (horderly : Orderly w none []) (name : String) :
    Called w spot taken returned (Session.shared w name t) := by
  have hshared := Layout.shareTask (a := ({} : Thread).around taken returned) hlayout name
  have horderly' : Orderly (Session.setTask w name t) none [] :=
    horderly.of_steady (.of_workers rfl rfl rfl)
  have hmoves : Moves w spot (Session.setTask w name t) spot :=
    .of_frames (fun _ => .refl _ _ _) fun _ _ => rfl
  unfold Session.shared
  cases hget : w.tasks.get? name with
  | none =>
    rw [hget] at hshared
    exact ⟨spot, ⟨hshared, horderly'⟩, hmoves⟩
  | some old =>
    rw [hget] at hshared
    obtain ⟨spot', hsettled, hmoves'⟩ := called_dropTask hshared horderly' Session.place
    exact ⟨spot', hsettled, hmoves.trans hlayout hmoves'⟩

/-- A task is made. -/
theorem Settled.newTask (h : Settled w {} taken returned spot) (body : String) (arg : Int) :
    Layout (w.newTask Session.place body arg).1
        { ({} : Thread).around taken returned with
          handles := [(w.newTask Session.place body arg).2] }
        (put spot w.frameCount .unstarted) ∧
      Orderly (w.newTask Session.place body arg).1 none [] ∧
      Moves w spot (w.newTask Session.place body arg).1 (put spot w.frameCount .unstarted) :=
  ⟨h.layout.newTask rfl body arg, h.orderly.of_steady (.of_workers rfl rfl rfl),
    moves_newTask h.layout Session.place body arg⟩

theorem mem_held_of_get? {name : String} {t : Task} (hget : w.tasks.get? name = some t) :
    t ∈ w.held :=
  List.mem_append_left _ (Registers.mem_values_of_get? hget)

/-- A handle is recorded as it is. -/
theorem Settled.setTask_same (h : Settled w {} taken returned spot) {name : String} {t : Task}
    (hget : w.tasks.get? name = some t) :
    Called w spot taken returned (Session.setTask w name t) := by
  have hsame : Layout w { ({} : Thread).around taken returned with handles := [t], spent := [t] }
      spot := h.layout.rehandle [t] [t] fun c b => Nat.add_comm _ _
  exact ⟨spot, ⟨Layout.reshareTask (a := ({} : Thread).around taken returned) hsame hget,
    h.orderly.of_steady (.of_workers rfl rfl rfl)⟩,
    .of_frames (fun _ => .refl _ _ _) fun _ _ => rfl⟩

/-- A task is started. -/
theorem Settled.startTask (h : Settled w {} taken returned spot) {name : String} {t : Task}
    (hget : w.tasks.get? name = some t) (k : WorkerId) :
    Called w spot taken returned (Session.started w name k t) := by
  unfold Session.started
  have hmem : t ∈ w.held ++ [] := List.mem_append_left _ (mem_held_of_get? hget)
  rcases h.layout.startTask (p := Session.place) rfl k hmem rfl with ⟨-, hstart⟩ |
    ⟨w₁, t', spot₁, hstart, hlayout₁, hmoves, hsteady, -, htasks⟩
  · rw [hstart]
    exact h.setTask_same hget
  · rw [hstart]
    have hget₁ : w₁.tasks.get? name = some t := by rw [htasks]; exact hget
    exact ⟨spot₁, ⟨Layout.reshareTask (a := ({} : Thread).around taken returned) hlayout₁ hget₁,
      (h.orderly.of_steady hsteady).of_steady (.of_workers rfl rfl rfl)⟩,
      hmoves.of_disposal fun _ => rfl⟩

/-- The result of a task was taken. -/
theorem called_taken (h : Settled w {} taken returned spot) {name : String} {c : FrameId} {b : Bool}
    (hget : w.tasks.get? name = some ⟨some c, b⟩)
    (hlayout : Layout w' { ({} : Thread).around taken returned with spent := [⟨some c, b⟩] }
      (put spot c .absent))
    (hdrops : Drops w spot w' (put spot c .absent)) (htasks : w'.tasks = w.tasks) (p : Place)
    (o : Output) :
    Called w spot taken returned ((Session.setTask w' name ⟨none, b⟩).dropOutput p o) := by
  have hnone : Layout w' { ({} : Thread).around taken returned with
      handles := [⟨none, b⟩], spent := [⟨some c, b⟩] } (put spot c .absent) := by
    refine hlayout.rehandle _ _ fun c' b' => ?_
    show [(⟨none, b⟩ : Task)].count _ + _ = 0 + _
    simp
  have hget' : w'.tasks.get? name = some ⟨some c, b⟩ := by rw [htasks]; exact hget
  have hset := Layout.reshareTask (a := ({} : Thread).around taken returned) hnone hget'
  obtain ⟨log, heq⟩ := Layout.dropOutput_eq (Session.setTask w' name ⟨none, b⟩) p o
  rw [heq]
  exact ⟨_, ⟨hset.of_agrees ⟨fun _ => rfl, rfl, rfl, rfl, rfl, rfl⟩,
    (h.orderly.of_steady hdrops.steady).of_steady (.of_workers rfl rfl rfl)⟩,
    hdrops.toMoves.of_disposal fun _ => rfl⟩

theorem Settled.takeOutput (h : Settled w {} taken returned spot) {name : String} {t : Task}
    (hget : w.tasks.get? name = some t) :
    Called w spot taken returned (Session.emptied w name t) := by
  have hmem : t ∈ w.held ++ [] := List.mem_append_left _ (mem_held_of_get? hget)
  have hnothing : (∀ c, t.frame = some c → (w.frame c).isComplete = false) →
      Called w spot taken returned (Session.emptied w name t) := by
    intro ht
    rw [Session.emptied, Layout.takeOutput_none ht]
    exact h.setTask_same hget
  obtain ⟨frame, b⟩ := t
  cases frame with
  | none => exact hnothing fun _ hc => by cases hc
  | some c =>
    by_cases hc : spot c = .complete
    · obtain ⟨w₁, htake, hlayout, hdrops, htasks, -⟩ :=
        h.layout.takeOutput Session.place hc hmem rfl rfl
      rw [Session.emptied, htake]
      exact called_taken h hget hlayout hdrops htasks _ _
    · refine hnothing fun c' hc' => ?_
      cases hc'
      rw [Bool.eq_false_iff]
      exact fun hcomplete =>
        hc ((h.layout.isComplete_iff rfl (h.layout.ne_absent_of_mem hmem rfl)).mp hcomplete)

/-- A task is polled outside any worker. -/
theorem Settled.pollTask (h : Settled w {} taken returned spot) {name : String} {t : Task}
    (hget : w.tasks.get? name = some t) :
    Called w spot taken returned (Session.polled w name t) := by
  have hmem : t ∈ w.held ++ [] := List.mem_append_left _ (mem_held_of_get? hget)
  obtain ⟨frame, b⟩ := t
  cases frame with
  | none => exact h.setTask_same hget
  | some c =>
    by_cases hc : spot c = .complete
    · obtain ⟨w₁, o, hpoll, hlayout, hdrops, htasks⟩ :=
        h.layout.pollTask_ready Session.place hc hmem rfl rfl
      rw [Session.polled, hpoll]
      exact called_taken h hget hlayout hdrops htasks _ _
    · have hnot : (w.frame c).isComplete = false := by
        rw [Bool.eq_false_iff]
        exact fun hcomplete =>
          hc ((h.layout.isComplete_iff rfl (h.layout.ne_absent_of_mem hmem rfl)).mp hcomplete)
      have hpoll : w.pollTask Session.place ⟨some c, b⟩ =
          (w, ⟨some c, b⟩, .fault .noActiveWorker) := by
        simp only [World.pollTask, hnot]
        rfl
      rw [Session.polled, hpoll]
      exact h.setTask_same hget

/-! ## Slots and schedules -/

/-- A frame that was taken out of a slot is scheduled. -/
theorem Settled.schedule (h : Settled w {} taken returned spot) {f : FrameId} (hf : f ∈ taken)
    (k : WorkerId) :
    (w.frame f).alive = true ∧ (w.frame f).stage = .suspended ∧
      w.schedule Session.place k f = .ok (w.enqueue k f) ∧
      Called w spot (taken.erase f) returned (w.enqueue k f) := by
  have hspot : spot f = .taken := (h.layout.taken f).mp hf
  have hfits := h.layout.frames f
  rw [hspot] at hfits
  obtain ⟨hscheduled, hlayout⟩ := Layout.schedule
    (a := ({} : Thread).around (taken.erase f) returned) (p := Session.place)
    (h.layout.unkeep hf) rfl
    hfits trivial id hfits.stage k
  refine ⟨hfits.alive.mpr nofun, hfits.stage, hscheduled, _,
    ⟨hlayout, h.orderly.of_steady (w.steady_enqueue k f)⟩, .put ?_ fun g _ => ?_⟩
  · rw [hspot]
    exact .of_active _ _ id trivial rfl nofun
  · rw [World.frame_enqueue]

/-- A frame is taken out of its slot. -/
theorem Settled.takeSlot (h : Settled w {} taken returned spot) (slot : String) :
    Called w spot ((w.slot slot).toList ++ taken) returned (w.setSlot slot none) := by
  cases hslot : w.slot slot with
  | none =>
    exact ⟨spot, ⟨h.layout.vacate hslot, h.orderly.of_steady (.of_workers rfl rfl rfl)⟩,
      .of_frames (fun _ => .refl _ _ _) fun _ _ => rfl⟩
  | some f =>
    have hspot : spot f = .slotted slot := (h.layout.slotted slot f).mp hslot
    have hfits := h.layout.frames f
    rw [hspot] at hfits
    have hkept := Layout.keep (a := ({} : Thread).around taken returned) (h.layout.takeSlot hslot)
      (put_self _ _ _) (hfits.move (.inr trivial) id trivial hfits.stage)
    rw [put_put] at hkept
    refine ⟨_, ⟨hkept, h.orderly.of_steady (.of_workers rfl rfl rfl)⟩, .put ?_ fun g _ => rfl⟩
    rw [hspot]
    exact .of_active _ _ id trivial rfl nofun

/-- A frame that a worker of another thread is asked to schedule stays where it is. -/
theorem Settled.foreign (h : Settled w {} taken returned spot) {f : FrameId}
    (halive : (w.frame f).alive = true) {thread : ThreadId} (hthread : thread ≠ 0) (k : WorkerId)
    (worker : Option WorkerId) :
    w.schedule ⟨thread, worker⟩ k f = .error (.foreignFrame (frameNumber f)) := by
  have hhome : (w.frame f).home = some 0 :=
    h.layout.home f ((h.layout.frames f).alive.mp halive)
  have haway : (w.frame f).isAtHome thread = false := by
    rw [Frame.isAtHome, hhome]
    exact beq_eq_false_iff_ne.mpr hthread.symm
  rw [World.schedule, haway]
  rfl

end Calls

/-- Scheduling a frame that is alive and suspended comes down to asking the worker. -/
theorem Session.scheduleFrame_eq {s : Session} {f : FrameId}
    (halive : (s.world.frame f).alive = true) (hstage : (s.world.frame f).stage = .suspended)
    (p : Place) (k : WorkerId) : s.scheduleFrame p k f = s.attempt (s.world.schedule p k f) := by
  simp [Session.scheduleFrame, halive, hstage]

/-- Asking a worker of another thread to schedule a frame changes nothing. -/
theorem Session.scheduleFrame_foreign {s : Session} {spot : FrameId → Spot} {taken : List FrameId}
    {returned : List (FrameId × Output)} (h : Settled s.world {} taken returned spot)
    {thread : ThreadId} (hthread : thread ≠ 0) (worker : Option WorkerId) (k : WorkerId)
    (f : FrameId) : (s.scheduleFrame ⟨thread, worker⟩ k f).1 = s := by
  unfold Session.scheduleFrame
  split
  · rfl
  · rename_i halive
    split
    · rfl
    · rw [h.foreign (by simpa using halive) hthread]
      rfl

/-- An operation that is carried out at once leaves things settled. -/
theorem Session.act_called {s : Session} {op : Op} {spot : FrameId → Spot} {taken : List FrameId}
    {returned : List (FrameId × Output)} (h : Settled s.world {} taken returned spot)
    (hlaunch : s.launch op = none) (hscheduled : ∀ f, s.scheduled op = some f → f ∈ taken) :
    Called s.world spot (s.takenAfter taken op) returned (s.act op).1.world := by
  have hquiet : ∀ {w' : World}, s.world.Beside w' → Called s.world spot taken returned w' :=
    fun hbeside => h.quiet hbeside.agrees (h.orderly.of_steady hbeside.steady)
  have heffect := s.act_effect hlaunch
  generalize (s.act op).1.world = w' at heffect ⊢
  cases heffect with
  | none hnone hslot => exact Session.takenAfter_of_none hnone hslot ▸ h.same
  | mention worker hnone hslot =>
    rw [Session.takenAfter_of_none hnone hslot]
    exact ⟨spot, (h.named worker).1, (h.named worker).2⟩
  | hire name hook => exact h.newWorker name hook
  | @fire name k hk =>
    have hunnamed : Settled { s.world with workerNames := s.world.workerNames.erase name } {} taken
        returned spot :=
      ⟨h.layout.of_agrees ⟨fun _ => rfl, rfl, rfl, rfl, rfl, rfl⟩, h.orderly.unnameWorker name⟩
    refine .after h ?_ (hunnamed.dropWorker Session.place k)
    exact .of_same ⟨fun _ => rfl, rfl, rfl, rfl, rfl, rfl⟩
  | spawn worker body arg =>
    exact .after h (h.named worker).2 ((h.named worker).1.spawn _ body arg)
  | say body arg => exact hquiet (.say s.world _ _)
  | new task body arg =>
    obtain ⟨hlayout, horderly, hmoves⟩ := h.newTask body arg
    exact .after h hmoves (called_share hlayout horderly task)
  | start worker hget =>
    rw [← (s.world.namedWorker_agrees worker).tasks] at hget
    exact .after h (h.named worker).2 ((h.named worker).1.startTask hget _)
  | take hget => exact h.takeOutput hget
  | poll hget => exact h.pollTask hget
  | @drop task t hget =>
    have hmoves : Moves s.world spot { s.world with tasks := s.world.tasks.erase task } spot :=
      .of_frames (fun _ => .refl _ _ _) fun _ _ => rfl
    exact .after h hmoves (called_dropTask (h.layout.unshareTask hget)
      (h.orderly.of_steady (.of_workers rfl rfl rfl)) Session.place)
  | vacate slot handle => exact h.takeSlot slot
  | @schedule _ f worker hf =>
    obtain ⟨halive, hstage, hscheduled', hcalled⟩ :=
      (h.named worker).1.schedule (hscheduled f hf) (s.world.namedWorker worker).2
    rw [Session.takenAfter_of_scheduled hf]
    simp only [Session.worker]
    rw [Session.scheduleFrame_eq halive hstage, hscheduled']
    exact .after h (h.named worker).2 hcalled
  | unpark slot worker =>
    obtain ⟨hnamed, hmoves⟩ := h.named worker
    simp only [Session.unparked, Session.worker, World.takeSlot]
    generalize (s.world.namedWorker worker).2 = k
    generalize (s.world.namedWorker worker).1 = w₁ at hnamed hmoves ⊢
    refine .after h hmoves ?_
    cases hslot : w₁.slot slot with
    | none =>
      have hvacant := hnamed.takeSlot slot
      rw [hslot] at hvacant
      exact hvacant
    | some f =>
      obtain ⟨halive, hstage, hscheduled', hlayout, hmoves', hsteady⟩ :=
        hnamed.layout.unpark (p := Session.place) rfl hslot k
      simp only
      rw [Session.scheduleFrame_eq (s := { s with world := w₁.setSlot slot none }) halive hstage,
        hscheduled']
      exact ⟨_, ⟨hlayout, hnamed.orderly.of_steady hsteady⟩, hmoves'⟩
  | foreign hget =>
    rw [Session.scheduleFrame_foreign h (by decide)]
    exact h.same
  | cancel token => exact hquiet (.cancel s.world token)
  | child token parent => exact hquiet (s.world.addChildToken_beside token parent)

/-- What an operation begins that runs the thread. -/
theorem Session.launch_outcome {s s' : Session} {op : Op} {begun : World × Thread × Progress}
    {spot : FrameId → Spot} {taken : List FrameId} {returned : List (FrameId × Output)}
    (h : Settled s.world {} taken returned spot) (hlaunch : s.launch op = some (s', begun)) :
    Outcome s.world {} taken returned spot begun := by
  cases op with
  | pump worker =>
    cases hlaunch
    obtain ⟨hnamed, hmoves⟩ := h.named worker
    have hpumping : Settled (s.world.namedWorker worker).1
        (({} : Thread).beginPump (s.world.namedWorker worker).2) taken returned spot :=
      ⟨hnamed.layout, Orderly.beginPump (t := {}) hnamed.orderly (h.orderly.namedWorker worker).2⟩
    refine .of_moves rfl ?_ hmoves hpumping
    rfl
  | blockOn worker body arg =>
    cases hlaunch
    obtain ⟨hnamed, hmoves⟩ := h.named worker
    obtain ⟨hlayout, horderly, hmoves'⟩ := hnamed.newTask body arg
    exact beginBlock_outcome (t := {}) h.layout rfl (hmoves.trans h.layout hmoves') hlayout horderly
      (h.orderly.namedWorker worker).2 false
  | blockOnTask worker task =>
    simp only [Session.launch] at hlaunch
    obtain ⟨t, hget, e⟩ := Option.map_eq_some_iff.mp hlaunch
    cases e
    obtain ⟨hnamed, hmoves⟩ := h.named worker
    have hmoves' : Moves s.world spot { (s.world.namedWorker worker).1 with
        tasks := (s.world.namedWorker worker).1.tasks.erase task } spot :=
      hmoves.of_disposal fun _ => rfl
    exact beginBlock_outcome (t := {}) h.layout rfl hmoves' (hnamed.layout.unshareTask hget)
      (hnamed.orderly.of_steady (.of_workers rfl rfl rfl)) (h.orderly.namedWorker worker).2 false
  | blockOnFree body arg =>
    cases hlaunch
    obtain ⟨horderly₁, hk⟩ := h.orderly.newWorker .unlock
    have hagrees := s.world.newWorker_agrees .unlock
    have hmade : Settled (s.world.newWorker .unlock).1 {} taken returned spot :=
      ⟨h.layout.of_agrees hagrees, horderly₁⟩
    obtain ⟨hlayout, horderly, hmoves⟩ := hmade.newTask body arg
    exact beginBlock_outcome (t := {}) h.layout rfl ((Moves.of_same hagrees).trans h.layout hmoves)
      hlayout horderly hk true
  | _ => cases hlaunch

/-- A session that ends lets go of all its tasks and workers. -/
theorem Session.close_called {s : Session} {spot : FrameId → Spot} {taken : List FrameId}
    {returned : List (FrameId × Output)} (h : Settled s.world {} taken returned spot) :
    Called s.world spot taken returned s.close.world := by
  have hset : Layout { s.world with tasks := .empty }
      { ({} : Thread).around taken returned with handles := s.world.tasks.values ++ [] } spot := by
    refine h.layout.setTasks Registers.ordered_empty fun c b => ?_
    rw [List.append_nil]
    show 0 + _ + 0 = _ + 0 + 0
    omega
  have hopened : Layout { s.world with log := #[], tasks := .empty, workerNames := .empty }
      { ({} : Thread).around taken returned with handles := s.world.tasks.values ++ [] } spot :=
    hset.of_agrees ⟨fun _ => rfl, rfl, rfl, rfl, rfl, rfl⟩
  have hunnamed : Orderly { s.world with log := #[], tasks := .empty, workerNames := .empty }
      none [] :=
    { h.orderly with named := fun name k hk => by cases hk }
  obtain ⟨spot', hdropped, hdrops, -⟩ := Layout.dropTasks
    (a := ({} : Thread).around taken returned) Session.place hopened (.inl rfl) rfl
  have hmoves : Moves s.world spot
      { s.world with log := #[], tasks := .empty, workerNames := .empty } spot :=
    .of_frames (fun _ => .refl _ _ _) fun _ _ => rfl
  have hsettled : Settled _ {} taken returned spot' := ⟨hdropped, hunnamed.of_steady hdrops.steady⟩
  exact .after h (hmoves.trans h.layout hdrops.toMoves)
    (Settled.dropWorkers Session.place _ hsettled)

end Substrate.Coro
