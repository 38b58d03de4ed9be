import Substrate.Proofs.Coro.Waits

/-!
# What a statement does

Most statements log something, use locks and cancel tokens, compute, or come to wait.
What a statement does is described once, and whatever holds of all statements is
proved by cases on that description.

* `World.Beside` tells worlds that differ in logs, locks and cancel tokens only.
* `World.Does` lists what a statement does other than asking for something, and
  `World.exec_does` says that the list is complete.
-/

namespace Substrate.Coro

/-! ## What code mentions -/

/-- The tasks something wanted mentions by name. -/
def Wanted.names : Wanted → List String
  | .task name => [name]
  | _ => []

def Future.names : Future → List String
  | .task name => [name]
  | _ => []

def Wait.names : Wait → List String
  | .one future => future.names
  | .all futures | .any futures => futures.flatMap Future.names
  | .spin .. => []

/-- The tasks a statement mentions by name. -/
def Stmt.names : Stmt → List String
  | .new task _ _ | .start task | .startOn task _ | .join task | .take task | .drop task
  | .info task => [task]
  | .give task name => [task, name]
  | .all wanted | .any wanted => wanted.flatMap Wanted.names
  | .pollOnce wanted => wanted.names
  | _ => []

/-- What a wait asks for. -/
def Wait.futures : Wait → List Future
  | .one future => [future]
  | .all futures | .any futures => futures
  | .spin .. => []

/-- Dropping a handle or asking for a task may end a frame. -/
def Future.Drops : Future → Prop
  | .task _ | .child _ => True
  | _ => False

def Wait.Drops : Wait → Prop
  | .one future => future.Drops
  | .all _ | .any _ => True
  | .spin .. => False

def Stmt.Drops : Stmt → Prop
  | .new .. | .take .. | .drop .. | .give .. | .pollOnce .. => True
  | _ => False

/-- Some statements make frames. -/
def Stmt.Makes : Stmt → Prop
  | .await .. | .spawn .. | .spawnOn .. | .new .. | .blockOn .. | .blockOnWith .. => True
  | _ => False

/-- The body waits for one thing at a time. -/
def Stmt.waitsAlone : Stmt → Bool
  | .all wanted | .any wanted => wanted.length ≤ 1
  | .pollOnce _ => false
  | _ => true

/-- The body has a worker schedule a frame that was not taken out of a slot. -/
def Stmt.schedulesSelf : Stmt → Bool
  | .scheduleSelf _ => true
  | _ => false

namespace World

/-! ## Beside frames and workers -/

/-- Only logs, traces, locks, cancel tokens and the number of frames in flight differ, and no cancel
flag is lowered. -/
structure Beside (w w' : World) : Prop where
  same : w' = { w with
    locks := w'.locks, flags := w'.flags, tokens := w'.tokens, log := w'.log
    trace := w'.trace, inFlight := w'.inFlight }
  raised : ∀ i, w.flags.raised.get i = true → w'.flags.raised.get i = true

theorem beside_cancel (w : World) (t : CancelToken) :
    w.Beside { w with flags := w.flags.cancel t } := by
  refine ⟨rfl, fun i hi => ?_⟩
  show (w.flags.raised.set t.own true).get i = true
  rw [Table.get_set]
  split
  · rfl
  · exact hi

namespace Beside

variable {w w' w'' : World}

theorem refl (w : World) : w.Beside w := ⟨rfl, fun _ hi => hi⟩

theorem trans (h : w.Beside w') (h' : w'.Beside w'') : w.Beside w'' :=
  ⟨h'.same.trans (by rw [h.same]), fun i hi => h'.raised i (h.raised i hi)⟩

theorem agrees (h : w.Beside w') : w.Agrees w' := by
  rw [h.same]
  exact ⟨fun _ => rfl, rfl, rfl, rfl, rfl, rfl⟩

theorem steady (h : w.Beside w') : w.Steady w' := by
  rw [h.same]
  exact .of_workers rfl rfl rfl

theorem say (w : World) (p : Place) (text : String) : w.Beside (w.say p text) :=
  ⟨rfl, fun _ hi => hi⟩

theorem namedToken (w : World) (name : String) : w.Beside (w.namedToken name).1 := by
  unfold World.namedToken
  split
  · exact .refl w
  · exact ⟨rfl, fun _ hi => hi⟩

theorem cancel (w : World) (name : String) : w.Beside (w.cancel name) :=
  (namedToken w name).trans (beside_cancel _ _)

theorem begin (w : World) (wanted : Wanted) : w.Beside (w.begin wanted).1 := by
  cases wanted with
  | checkpoint name => exact .namedToken w name
  | _ => exact .refl w

theorem beginAll (wanted : List Wanted) : ∀ w : World, w.Beside (w.beginAll wanted).1 := by
  induction wanted with
  | nil => exact .refl
  | cons first rest ih => exact fun w => (begin w first).trans (ih _)

end Beside

theorem addChildToken_beside (w : World) (token parent : String) :
    w.Beside (w.addChildToken token parent) :=
  (Beside.namedToken w parent).trans ⟨rfl, fun _ hi => hi⟩

theorem begin_held (w : World) (wanted : Wanted) : (w.begin wanted).2.held = [] := by
  cases wanted <;> rfl

theorem beginAll_childless (wanted : List Wanted) :
    ∀ w : World, ∀ t, .child t ∉ (w.beginAll wanted).2 := by
  induction wanted with
  | nil => exact fun w t => List.not_mem_nil
  | cons first rest ih =>
    intro w t ht
    rcases List.mem_cons.mp ht with e | ht
    · cases first <;> cases e
    · exact ih _ t ht

theorem length_beginAll (wanted : List Wanted) :
    ∀ w : World, (w.beginAll wanted).2.length = wanted.length := by
  induction wanted with
  | nil => exact fun _ => rfl
  | cons first rest ih => exact fun w => congrArg (· + 1) (ih _)

/-! ## Statements -/

/-- A statement after which the body goes on or raises. -/
def Move.Simple : Move → Prop
  | .next | .raise _ => True
  | _ => False

/-- The worker that a statement is about: the one entered, or one that it mentions. -/
inductive Picks (w : World) (p : Place) : World → WorkerId → Prop
  | entered {k : WorkerId} (hk : p.worker = some k) : Picks w p w k
  | named (worker : String) : Picks w p (w.namedWorker worker).1 (w.namedWorker worker).2

/-- What a statement of frame `f` does, if it does not ask for anything. -/
inductive Does (w : World) (p : Place) (f : FrameId) : Stmt → World × Move → Prop
  /-- Neither frames nor workers change. -/
  | beside {s : Stmt} {w' : World} {move : Move} (hbeside : w.Beside w') (hmove : move.Simple) :
    Does w p f s (w', move)
  /-- A lock is held. -/
  | stuck {s : Stmt} : Does w p f s (w, .stuck)
  /-- The code or the numbers of the body change. -/
  | compute {s : Stmt} {change : Frame → Frame} (hchange : ∃ acc guard code,
      change (w.frame f) = { w.frame f with acc, guard, code }) :
    Does w p f s (w.modifyFrame f change, .next)
  /-- The body comes to wait for something without a handle in it. -/
  | wait {s : Stmt} {w' : World} {wait : Wait} (hbeside : w.Beside w')
    (hheld : Frame.waitTasks (some wait) = []) (hfutures : ∀ t, .child t ∉ wait.futures)
    (hsolitary : s.waitsAlone = true → wait.Solitary) :
    Does w p f s (w'.setWait f (some wait), .next)
  | park (lock slot : String) (n : Int) (l : ParkLock) : Does w p f (.tryLockPark lock n slot)
      ((w.prepend f [.logUnparked lock]).parkHolding p f lock slot l)
  | await (body : String) (delta : Int) : Does w p f (.await body delta)
      ((w.newTask p body (bump delta (w.frame f).arg)).1.setWait f
        (some (.one (.child (w.newTask p body (bump delta (w.frame f).arg)).2))), .next)
  | spawn {s : Stmt} {w' : World} {k : WorkerId} (hpicks : w.Picks p w' k) (hmakes : s.Makes)
    (body : String) (arg : Int) : Does w p f s (w'.spawnDetached p k body arg, .next)
  | new (task body : String) (delta : Int) : Does w p f (.new task body delta)
      ((w.newTask p body (bump delta (w.frame f).arg)).1.addTask p f task
        (w.newTask p body (bump delta (w.frame f).arg)).2, .next)
  | start {s : Stmt} {w' : World} {k : WorkerId} {task : String} {t : Task}
    (hpicks : w.Picks p w' k) (htask : task ∈ s.names) (hfind : w'.findTask f task = some t) :
    Does w p f s (w'.startNamed p f task k t)
  | take {task : String} {t : Task} (hfind : w.findTask f task = some t) :
    Does w p f (.take task) (w.takeNamed p f task t)
  | drop {task : String} {t : Task} (hfind : w.findTask f task = some t) :
    Does w p f (.drop task) ((w.removeTask f task).dropTask p t, .next)
  | give {task : String} {t : Task} (name : String) (hfind : w.findTask f task = some t) :
    Does w p f (.give task name) ((w.removeTask f task).addTask p f name t, .next)
  /-- A name is mentioned as a worker, and nothing else changes. -/
  | mention {s : Stmt} {w' : World} {move : Move} (worker : String)
    (hbeside : (w.namedWorker worker).1.Beside w') (hmove : move.Simple) :
    Does w p f s (w', move)
  | unpark (slot worker : String) : Does w p f (.unpark slot worker)
      ((w.namedWorker worker).1.unpark p slot (w.namedWorker worker).2)
  | block (body : String) (delta : Int) : Does w p f (.blockOn body delta)
      (((w.newWorker .unlock).1.newTask p body (bump delta (w.frame f).arg)).1,
        .block (w.newWorker .unlock).2
          ((w.newWorker .unlock).1.newTask p body (bump delta (w.frame f).arg)).2 true)
  | blockWith {s : Stmt} (worker body : String) (arg : Int) (hmakes : s.Makes) : Does w p f s
      (((w.namedWorker worker).1.newTask p body arg).1, .block (w.namedWorker worker).2
        ((w.namedWorker worker).1.newTask p body arg).2 false)
  | pump {s : Stmt} (worker : String) :
    Does w p f s ((w.namedWorker worker).1, .pump (w.namedWorker worker).2)
  | schedule {worker : String} {current : FrameId} {w' : World}
    (hcurrent : ((w.namedWorker worker).1.worker (w.namedWorker worker).2).current = some current)
    (hschedule : (w.namedWorker worker).1.schedule p (w.namedWorker worker).2 current = .ok w') :
    Does w p f (.scheduleSelf worker) (w', .next)

variable {w : World} {p : Place} {f : FrameId} {s : Stmt}

/-- The body spins on a cancel token, or has done so often enough. -/
theorem spin_does {w' : World} (hbeside : w.Beside w') (token : CancelToken) (spins most : Nat)
    (block : List Stmt) : w.Does p f s (w'.spin p f token spins most block) := by
  unfold spin
  split
  · exact .wait hbeside rfl (fun _ => List.not_mem_nil) fun _ => trivial
  · exact .beside (hbeside.trans (.say w' p _)) trivial

/-- The body comes to wait for one thing other than a task without a name. -/
theorem waitOne_does {w' : World} {future : Future} (hbeside : w.Beside w')
    (hheld : future.held = []) : w.Does p f s (w'.setWait f (some (.one future)), .next) :=
  .wait hbeside hheld
    (fun t ht => Future.ne_child_of_held hheld t (List.mem_singleton.mp ht).symm) fun _ => trivial

/-- A statement that asks for nothing does one of the things listed. -/
theorem exec_does (p : Place) (f : FrameId) (hasks : ∀ wanted, s ≠ .pollOnce wanted) :
    w.Does p f s (w.exec p f s) := by
  have hsay : ∀ text, w.Does p f s (w.say p text, .next) :=
    fun text => .beside (.say w p text) trivial
  have hsame : ∀ {move : Move}, move.Simple → w.Does p f s (w, move) :=
    fun hmove => .beside (.refl w) hmove
  have hbegun : ∀ wanted, (w.beginAll wanted).2.length = wanted.length ∧
      ∀ t, .child t ∉ (w.beginAll wanted).2 :=
    fun wanted => ⟨w.length_beginAll wanted, w.beginAll_childless wanted⟩
  cases s with
  | pollOnce wanted => exact absurd rfl (hasks wanted)
  | log | logAcc | logArg | logUnparked | check | unknown => exact hsay _
  | info task =>
    simp only [exec, onTask]
    split <;> exact hsay _
  | raise payload => exact hsame trivial
  | cancel token => exact .beside (.cancel w token) trivial
  | tryLockAdd lock n =>
    simp only [exec]
    split
    · exact .beside ⟨rfl, fun _ hi => hi⟩ trivial
    · exact hsay _
  | lockAdd lock n =>
    simp only [exec]
    split
    · exact .beside ⟨rfl, fun _ hi => hi⟩ trivial
    · exact .stuck
  | add | addArg | ret | guard | ifZero => exact .compute ⟨_, _, _, rfl⟩
  | times count block =>
    cases count with
    | zero => exact hsame trivial
    | succ count => exact .compute ⟨_, _, _, rfl⟩
  | yield | join | park => exact waitOne_does (.refl w) rfl
  | checkpoint name => exact waitOne_does (.namedToken w name) rfl
  | spin name most block => exact spin_does (.namedToken w name) _ 0 most block
  | spinAgain token spins most block => exact spin_does (.refl w) token spins most block
  | all wanted | any wanted =>
    obtain ⟨hlength, hchildless⟩ := hbegun wanted
    exact .wait (.beginAll wanted w) rfl hchildless fun halone =>
      ⟨hlength ▸ of_decide_eq_true halone, hchildless⟩
  | lockPark lock n slot =>
    simp only [exec]
    split
    · exact waitOne_does ⟨rfl, fun _ hi => hi⟩ rfl
    · exact .stuck
  | tryLockPark lock n slot =>
    simp only [exec]
    split
    · exact .park lock slot n _
    · exact hsay _
  | await body delta => exact .await body delta
  | spawn body delta =>
    simp only [exec]
    split
    · exact .spawn (s := .spawn body delta) (.entered ‹_›) trivial body _
    · exact hsame trivial
  | spawnOn worker body delta =>
    exact .spawn (s := .spawnOn worker body delta) (.named worker) trivial body _
  | new task body delta => exact .new task body delta
  | start task =>
    simp only [exec, onTask]
    split
    · split
      · exact .start (.entered ‹_›) List.mem_cons_self ‹_›
      · exact hsame trivial
    · exact hsay _
  | startOn task worker =>
    simp only [exec, onTask]
    split
    · exact .start (.named worker) List.mem_cons_self ‹_›
    · exact .mention worker (.say _ p _) trivial
  | take task =>
    simp only [exec, onTask]
    split
    · exact .take ‹_›
    · exact hsay _
  | drop task =>
    simp only [exec, onTask]
    split
    · exact .drop ‹_›
    · exact hsay _
  | give task name =>
    simp only [exec]
    split
    · exact .give name ‹_›
    · exact hsame trivial
  | unpark slot worker => exact .unpark slot worker
  | blockOn body delta => exact .block body delta
  | blockOnWith worker body delta => exact .blockWith worker body _ trivial
  | pump worker => exact .pump worker
  | frame worker => exact .mention worker (.say _ p _) trivial
  | scheduleSelf worker =>
    simp only [exec]
    split
    · exact .mention worker (.refl _) trivial
    · split
      · exact .schedule ‹_› ‹_›
      · exact .mention worker (.refl _) trivial

end World

end Substrate.Coro
