import Substrate.Coro.Session

/-!
# What an operation does

An operation either runs the caller's thread or is carried out at once.  What the
latter do to the world is described once, and whatever holds of all of them is
proved by cases on that description.

* `Session.launch` tells the two kinds apart, and `act_eq_runThread` says that an
  operation of the first kind is the run of what it begins.
* `Session.Effect` lists what an operation of the second kind does, and
  `act_effect` says that the list is complete.
-/

namespace Substrate.Coro

/-- The caller takes a frame out of a slot and keeps it. -/
def Op.takesSlot : Op → Bool
  | .takeSlot _ _ => true
  | _ => false

namespace Session

/-- The activities an operation begins, if it runs the thread. -/
def launch (s : Session) : Op → Option (Session × World × Thread × Progress)
  | .pump worker =>
    let (s, k) := s.worker worker
    some (s, s.world, ({} : Thread).beginPump k, .running)
  | .blockOn worker body arg =>
    let (s, k) := s.worker worker
    let (world, t) := s.world.newTask place body arg
    some (s, Thread.beginBlock world {} k t false)
  | .blockOnTask worker task =>
    let (s, k) := s.worker worker
    (s.world.tasks.get? task).map fun t =>
      (s, Thread.beginBlock { s.world with tasks := s.world.tasks.erase task } {} k t false)
  | .blockOnFree body arg =>
    let (world, k) := s.world.newWorker .unlock
    let (world, t) := world.newTask place body arg
    some (s, Thread.beginBlock world {} k t true)
  | _ => none

/-- An operation that runs the thread is the run of what it begins. -/
theorem act_eq_runThread {s s' : Session} {op : Op} {begun : World × Thread × Progress}
    (h : s.launch op = some (s', begun)) : s.act op = s'.runThread begun := by
  cases op with
  | pump worker => cases h; rfl
  | blockOn worker body arg => cases h; rfl
  | blockOnFree body arg => cases h; rfl
  | blockOnTask worker task =>
    simp only [launch] at h
    obtain ⟨t, ht, e⟩ := Option.map_eq_some_iff.mp h
    cases e
    simp only [act, onTask, ht]
  | _ => cases h

/-- The frame that an operation asks a worker of the caller's thread to schedule. -/
def scheduled (s : Session) : Op → Option FrameId
  | .schedule _ handle => s.handles.get? handle
  | .scheduleTask _ task => (s.world.tasks.get? task).bind Task.frame
  | _ => none

/-- The frames taken out of slots and not scheduled after an operation. -/
def takenAfter (s : Session) (taken : List FrameId) (op : Op) : List FrameId :=
  match op with
  | .takeSlot slot _ => (s.world.slot slot).toList ++ taken
  | op =>
    match s.scheduled op with
    | some f => taken.erase f
    | none => taken

section Worlds

variable (w : World) (name : String)

/-- A worker goes under a name, and the one that was there is given up. -/
def hired (hook : ReleaseHook) : World :=
  match w.workerNames.get? name with
  | some old => World.dropWorker { (w.newWorker hook).1 with
      workerNames := w.workerNames.set name w.workerCount } place old
  | none => { (w.newWorker hook).1 with workerNames := w.workerNames.set name w.workerCount }

/-- A handle goes under a name, and the one that was there is dropped. -/
def shared (t : Task) : World :=
  match w.tasks.get? name with
  | some old => (setTask w name t).dropTask place old
  | none => setTask w name t

/-- A task is started, and its handle recorded. -/
def started (k : WorkerId) (t : Task) : World :=
  match w.startTask place k t with
  | (t, .ok world) => setTask world name t
  | (t, .error _) => setTask w name t

/-- The result of a task is taken and dropped, and its handle recorded. -/
def emptied (t : Task) : World :=
  match w.takeOutput place t with
  | (world, t, some o) => (setTask world name t).dropOutput place o
  | (world, t, none) => setTask world name t

/-- A task is polled and its result dropped, and its handle recorded. -/
def polled (t : Task) : World :=
  match w.pollTask place t with
  | (world, t, .ready o) => (setTask world name t).dropOutput place o
  | (world, t, .pending) => setTask world name t
  | (world, t, .fault _) => setTask world name t

end Worlds

/-- A frame is taken out of a slot and scheduled. -/
def unparked (s : Session) (slot : String) (k : WorkerId) : World :=
  match s.world.takeSlot slot with
  | (world, none) => world
  | (world, some f) => ({ s with world }.scheduleFrame place k f).1.world

/-- What an operation that is carried out at once does to the world. -/
inductive Effect (s : Session) : Op → World → Prop
  /-- Nothing happens. -/
  | none {op : Op} (hscheduled : s.scheduled op = none)
    (hslot : op.takesSlot = false) : Effect s op s.world
  /-- A name is mentioned as a worker. -/
  | mention {op : Op} (worker : String) (hscheduled : s.scheduled op = Option.none)
    (hslot : op.takesSlot = false) :
    Effect s op (s.world.namedWorker worker).1
  | hire (name : String) (hook : ReleaseHook) :
    Effect s (.worker name hook) (hired s.world name hook)
  | fire {name : String} {k : WorkerId} (hk : s.world.workerNames.get? name = some k) :
    Effect s (.dropWorker name) (World.dropWorker { s.world with
      workerNames := s.world.workerNames.erase name } place k)
  | spawn (worker body : String) (arg : Int) :
    Effect s (.spawn worker body arg) ((s.world.namedWorker worker).1.spawnDetached place
      (s.world.namedWorker worker).2 body arg)
  | say (body : String) (arg : Int) :
    Effect s (.spawnFree body arg) (s.world.say place ("~" ++ body))
  | new (task body : String) (arg : Int) :
    Effect s (.new task body arg) (shared (s.world.newTask place body arg).1 task
      (s.world.newTask place body arg).2)
  | start {task : String} {t : Task} (worker : String) (hget : s.world.tasks.get? task = some t) :
    Effect s (.start task worker) (started (s.world.namedWorker worker).1 task
      (s.world.namedWorker worker).2 t)
  | take {task : String} {t : Task} (hget : s.world.tasks.get? task = some t) :
    Effect s (.take task) (emptied s.world task t)
  | poll {task : String} {t : Task} (hget : s.world.tasks.get? task = some t) :
    Effect s (.poll task) (polled s.world task t)
  | drop {task : String} {t : Task} (hget : s.world.tasks.get? task = some t) :
    Effect s (.drop task)
    (World.dropTask { s.world with tasks := s.world.tasks.erase task } place t)
  | vacate (slot handle : String) : Effect s (.takeSlot slot handle) (s.world.setSlot slot .none)
  /-- A frame that the caller has hold of is scheduled. -/
  | schedule {op : Op} {f : FrameId} (worker : String) (hscheduled : s.scheduled op = some f) :
    Effect s op ((s.worker worker).1.scheduleFrame place (s.worker worker).2 f).1.world
  | unpark (slot worker : String) :
    Effect s (.unpark slot worker) ((s.worker worker).1.unparked slot (s.worker worker).2)
  | foreign {handle : String} {f : FrameId} (hget : s.handles.get? handle = some f) :
    Effect s (.foreign handle) (s.scheduleFrame { thread := 1 } s.world.workerCount f).1.world
  | cancel (token : String) : Effect s (.cancel token) (s.world.cancel token)
  | child (token parent : String) :
    Effect s (.child token parent) (s.world.addChildToken token parent)

variable {s : Session} {op : Op} {taken : List FrameId} {f : FrameId}

theorem takenAfter_of_none (hscheduled : s.scheduled op = none)
    (hslot : op.takesSlot = false) : s.takenAfter taken op = taken := by
  unfold takenAfter
  split
  · cases hslot
  · rw [hscheduled]

theorem takenAfter_of_scheduled (h : s.scheduled op = some f) :
    s.takenAfter taken op = taken.erase f := by
  unfold takenAfter
  split
  · cases h
  · rw [h]

/-- The caller has hold of what it asks to schedule. -/
theorem scheduled_cases (h : s.scheduled op = some f) :
    (∃ handle, s.handles.get? handle = some f) ∨
      ∃ task t, s.world.tasks.get? task = some t ∧ t.frame = some f := by
  cases op with
  | schedule worker handle => exact .inl ⟨handle, h⟩
  | scheduleTask worker task =>
    obtain ⟨t, hget, hframe⟩ := Option.bind_eq_some_iff.mp h
    exact .inr ⟨task, t, hget, hframe⟩
  | _ => cases h

/-- An operation that does not run the thread has one of the effects listed. -/
theorem act_effect (hlaunch : s.launch op = none) : s.Effect op (s.act op).1.world := by
  cases op with
  | worker name hook => exact .hire name hook
  | dropWorker name =>
    simp only [act]
    split
    · exact .none rfl rfl
    · rename_i k hk
      exact .fire hk
  | spawn worker body arg => exact .spawn worker body arg
  | spawnFree body arg => exact .say body arg
  | new task body arg => exact .new task body arg
  | start task worker =>
    simp only [act, onTask]
    split
    · rename_i t hget
      have heffect := Effect.start worker hget
      simp only [started] at heffect
      simp only [Session.worker, startTask]
      split <;> rename_i hstart <;> rw [hstart] at heffect <;> exact heffect
    · exact .none rfl rfl
  | startFree | info | debug =>
    simp only [act, onTask]
    split <;> exact .none rfl rfl
  | take task =>
    simp only [act, onTask]
    split
    · rename_i t hget
      have heffect := Effect.take hget
      simp only [emptied] at heffect
      split <;> rename_i htake <;> rw [htake] at heffect <;> exact heffect
    · exact .none rfl rfl
  | poll task =>
    simp only [act, onTask]
    split
    · rename_i t hget
      have heffect := Effect.poll hget
      simp only [polled] at heffect
      split <;> rename_i hpoll <;> rw [hpoll] at heffect <;> exact heffect
    · exact .none rfl rfl
  | drop task =>
    simp only [act]
    split
    · exact .none rfl rfl
    · rename_i t hget
      exact .drop hget
  | pump | blockOn | blockOnFree => cases hlaunch
  | blockOnTask worker task =>
    have hnone : (s.worker worker).1.world.tasks.get? task = none := by
      simp only [launch] at hlaunch
      exact Option.map_eq_none_iff.mp hlaunch
    simp only [act, onTask, hnone]
    exact .mention worker rfl rfl
  | stats | pending | workerDebug => exact .mention _ rfl rfl
  | current worker =>
    simp only [act]
    split <;> exact .mention worker rfl rfl
  | takeSlot slot handle =>
    have heffect := Effect.vacate (s := s) slot handle
    simp only [act, World.takeSlot]
    cases s.world.slot slot with
    | none => exact heffect
    | some f =>
      simp only
      split <;> exact heffect
  | schedule worker handle =>
    simp only [act]
    split
    · rename_i hnone
      exact .none hnone rfl
    · rename_i f hget
      exact .schedule worker hget
  | unpark slot worker =>
    have heffect := Effect.unpark (s := s) slot worker
    simp only [unparked] at heffect
    simp only [act]
    split <;> rename_i hslot <;> rw [hslot] at heffect <;> exact heffect
  | scheduleTask worker task =>
    simp only [act, onTask]
    split
    · rename_i t hget
      split
      · rename_i hnone
        exact .none (by simp [scheduled, hget, hnone]) rfl
      · rename_i f hframe
        exact .schedule worker (by simp [scheduled, hget, hframe])
    · rename_i hnone
      exact .none (by simp [scheduled, hnone]) rfl
  | foreign handle =>
    simp only [act]
    split
    · exact .none rfl rfl
    · rename_i f hget
      exact .foreign hget
  | cancel token => exact .cancel token
  | child token parent => exact .child token parent
  | slotOccupied | slotDebug | lockState | pollYield | pollPark => exact .none rfl rfl

end Session

end Substrate.Coro
