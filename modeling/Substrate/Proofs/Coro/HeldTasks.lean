import Substrate.Proofs.Coro.ThreadInvariants

/-!
# What frames hold

A body that mentions no task of everyone's only gets hold of handles on frames
that it made itself, and nobody else reaches into what it holds.

* `World.Owned w f`: the handles of frame `f` stand for frames made after it.
* `Retains f w w'` is what code of frame `f`, or of no frame, does to what frames
  hold: a frame other than `f` keeps its handles for as long as it lives.
* `World.Owned.course` is about what threads do, `Moment.Homely.retains` about a move.
-/

namespace Substrate.Coro

/-! ## Names of tasks -/

/-- The tasks the next step of a thread mentions by name. -/
def Thread.mentions (t : Thread) (w : World) : List String :=
  match t.polling with
  | none => []
  | some f =>
    match (w.frame f).wait, (w.frame f).code with
    | some wait, _ => wait.names
    | none, s :: _ => s.names
    | none, [] => []

/-! ## Handles and the frames that hold them -/

/-- Frame `g` was made before the frames its handles stand for. -/
def Frame.Precedes (fr : Frame) (g : FrameId) : Prop :=
  ∀ t ∈ fr.heldTasks, ∀ c, t.frame = some c → g < c

/-- The frame `f`, if any, was made before the frames its handles stand for. -/
def World.Owned (w : World) (f : Option FrameId) : Prop := ∀ g ∈ f, (w.frame g).Precedes g

/-- Code of frame `f`, or of no frame, leaves to the other frames what they hold. -/
structure Retains (f : Option FrameId) (w w' : World) : Prop where
  count : w.frameCount ≤ w'.frameCount
  dead : ∀ g < w.frameCount, (w.frame g).alive = false → (w'.frame g).alive = false
  held : ∀ g, g ∉ f → (w'.frame g).heldTasks = (w.frame g).heldTasks ∨
    (w'.frame g).heldTasks = [] ∧ ((w'.frame g).alive = false ∨ w.frameCount ≤ g)
  owned : w'.Owned f

namespace Retains

variable {f : Option FrameId} {w w' w'' : World}

/-- One operation after another. -/
theorem next (h : Retains f w w') (h' : w'.Owned f → Retains f w' w'') : Retains f w w'' := by
  have h' := h' h.owned
  refine ⟨Nat.le_trans h.count h'.count, fun g hg hdead => ?_, fun g hg => ?_, h'.owned⟩
  · exact h'.dead g (Nat.lt_of_lt_of_le hg h.count) (h.dead g hg hdead)
  · rcases h'.held g hg with hsame' | ⟨hnone', hgone'⟩
    · rcases h.held g hg with hsame | ⟨hnone, hgone⟩
      · exact .inl (hsame'.trans hsame)
      · refine .inr ⟨hsame'.trans hnone, ?_⟩
        by_cases hnew : w.frameCount ≤ g
        · exact .inr hnew
        · have hold := Nat.lt_of_not_le hnew
          exact .inl (h'.dead g (Nat.lt_of_lt_of_le hold h.count) (hgone.resolve_right hnew))
    · exact .inr ⟨hnone', hgone'.imp id fun hle => Nat.le_trans h.count hle⟩

/-- A frame that lives on and does not run keeps its handles. -/
theorem kept (h : Retains f w w') {g : FrameId} (hg : g ∉ f) (hmade : g < w.frameCount)
    (halive : (w'.frame g).alive = true) : (w'.frame g).heldTasks = (w.frame g).heldTasks := by
  rcases h.held g hg with hsame | ⟨-, hdead | hnew⟩
  · exact hsame
  · rw [halive] at hdead
    cases hdead
  · exact absurd hmade (Nat.not_lt.mpr hnew)

/-- What the other frames hold stands for frames made after them, if it did. -/
theorem precedes (h : Retains f w w') {g : FrameId} (hg : (w.frame g).Precedes g) :
    (w'.frame g).Precedes g := by
  by_cases hf : g ∈ f
  · exact h.owned g hf
  · intro t ht c hc
    rcases h.held g hf with hsame | ⟨hnone, -⟩
    · exact hg t (hsame ▸ ht) c hc
    · rw [hnone] at ht
      cases ht

end Retains

namespace World.Owned

variable {f : Option FrameId} {w w' : World}

/-! ## Parts of the world -/

theorem same (h : w.Owned f) (hframe : ∀ g, w'.frame g = w.frame g)
    (hcount : w'.frameCount = w.frameCount) : Retains f w w' := by
  refine ⟨Nat.le_of_eq hcount.symm, fun g _ hdead => ?_, fun g _ => .inl ?_, fun g hg => ?_⟩
  · rw [hframe]
    exact hdead
  · rw [hframe]
  · rw [hframe]
    exact h g hg

theorem refl (h : w.Owned f) : Retains f w w := h.same (fun _ => rfl) rfl

theorem agrees (h : w.Owned f) (hagrees : w.Agrees w') : Retains f w w' :=
  h.same hagrees.frame hagrees.frameCount

/-- A part of a record changes that does not hold handles. -/
theorem touch (h : w.Owned f) {g : FrameId} {change : Frame → Frame}
    (hheld : (change (w.frame g)).heldTasks = (w.frame g).heldTasks)
    (halive : (change (w.frame g)).alive = (w.frame g).alive) :
    Retains f w (w.modifyFrame g change) := by
  have hsame : ∀ g', ((w.modifyFrame g change).frame g').heldTasks = (w.frame g').heldTasks ∧
      ((w.modifyFrame g change).frame g').alive = (w.frame g').alive := by
    intro g'
    rw [World.frame_modifyFrame]
    split
    · rename_i hg
      rw [hg]
      exact ⟨hheld, halive⟩
    · exact ⟨rfl, rfl⟩
  refine ⟨Nat.le_refl _, fun g' _ hdead => ?_, fun g' _ => .inl (hsame g').1, fun g' hg' => ?_⟩
  · rw [(hsame g').2]
    exact hdead
  · intro t ht
    exact h g' hg' t ((hsame g').1 ▸ ht)

/-- The frame whose code runs comes to hold other handles. -/
theorem self {g : FrameId} (h : w.Owned (some g)) {change : Frame → Frame}
    (halive : (change (w.frame g)).alive = (w.frame g).alive)
    (hown : (change (w.frame g)).Precedes g) : Retains (some g) w (w.modifyFrame g change) := by
  refine ⟨Nat.le_refl _, fun g' _ hdead => ?_, fun g' hg' => .inl ?_, fun g' hg' => ?_⟩
  · rw [World.frame_modifyFrame]
    split
    · rename_i e
      rw [e, halive, ← e]
      exact hdead
    · exact hdead
  · rw [World.frame_modifyFrame, if_neg]
    rintro rfl
    exact hg' rfl
  · cases hg'
    rw [World.frame_modifyFrame, if_pos rfl]
    exact hown

theorem newFrame (h : w.Owned f) (home : Option ThreadId) (disposal : Disposal) (body : String)
    (arg : Int) : Retains f w (w.newFrame home disposal body arg).1 := by
  have hframe := Layout.newFrame_frame w home disposal body arg
  refine ⟨Nat.le_succ _, fun g hg hdead => ?_, fun g _ => ?_, fun g hg t ht c hc => ?_⟩
  · rw [hframe, if_neg (Nat.ne_of_lt hg)]
    exact hdead
  · rw [hframe]
    split
    · rename_i hnew
      exact .inr ⟨rfl, .inr (Nat.le_of_eq hnew.symm)⟩
    · exact .inl rfl
  · rw [hframe] at ht
    split at ht
    · cases ht
    · exact h g hg t ht c hc

theorem enqueue (h : w.Owned f) (k : WorkerId) (g : FrameId) : Retains f w (w.enqueue k g) :=
  h.same (w.frame_enqueue k g) (w.enqueue_frameCount k g)

/-! ## Handles that are dropped -/

theorem endFrame (h : w.Owned f) (p : Place) (g : FrameId) (ending : Ending) :
    Retains f w (w.endFrame p g ending).1 := by
  obtain ⟨log, heq⟩ := Layout.endFrame_eq w p g ending
  rw [heq]
  have hframe : ∀ g', (World.modifyFrame { w with log, ends := (g, ending) :: w.ends } g
      Layout.gone).frame g' = if g' = g then Layout.gone (w.frame g') else w.frame g' :=
    fun g' => World.frame_modifyFrame _ _ _ _
  refine ⟨Nat.le_refl _, fun g' _ hdead => ?_, fun g' _ => ?_, fun g' hg' t ht => ?_⟩
  · rw [hframe]
    split
    · rfl
    · exact hdead
  · rw [hframe]
    split
    · exact .inr ⟨rfl, .inl rfl⟩
    · exact .inl rfl
  · rw [hframe] at ht
    split at ht
    · cases ht
    · exact h g' hg' t ht

theorem namedWorker (h : w.Owned f) (name : String) : Retains f w (w.namedWorker name).1 :=
  h.agrees (w.namedWorker_agrees name)

theorem newWorker (h : w.Owned f) (hook : ReleaseHook) : Retains f w (w.newWorker hook).1 :=
  h.agrees (w.newWorker_agrees hook)

/-- What is done with handles leaves to the frames what they hold. -/
theorem handling (w : World) (p : Place) : Handling p True (fun _ => True) (Retains f w) where
  beside h hbeside := h.next fun h => by
    rw [hbeside.same]
    exact h.same (fun _ => rfl) rfl
  named name h := h.next fun h => h.namedWorker name
  enqueue h _ _ := h.next fun h => h.enqueue _ _
  subscribe h _ _ := h.next fun h => h.touch rfl rfl
  current _ _ := trivial
  slotted _ _ := trivial
  vacate _ h := h.next fun h => h.same (fun _ => rfl) rfl
  finish ending _ h _ := h.next fun h => h.endFrame p _ ending
  held _ _ _ _ _ _ _ := trivial
  note runner _ h := h.next fun h => h.agrees (World.noteDestroyed_agrees _ p runner)
  detach _ h _ := h.next fun h => h.touch rfl rfl
  empty _ h _ := h.next fun h => h.touch rfl rfl

/-- What a thread does besides running bodies leaves to the frames what they hold. -/
theorem course (f : Option FrameId) (w : World) : Course (Retains f w) where
  handling p := handling w p
  worker _ h := h.next fun h => h.same (fun _ => rfl) rfl
  lists _ h := h.next fun h => h.same (fun _ => rfl) rfl
  occupy _ _ h := h.next fun h => h.same (fun _ => rfl) rfl
  mark h hchange := h.next fun h => by
    obtain ⟨acc, stage, continuation, runner, retired, output, e⟩ := hchange
    exact h.touch (by rw [e]; rfl) (by rw [e])

/-! ## Handles under names -/

section Self

variable {g : FrameId}

theorem precedes (h : w.Owned (some g)) : (w.frame g).Precedes g := h g rfl

/-- What a body finds under a name of its own, it holds. -/
theorem findTask (h : w.Owned (some g)) {name : String} (hname : World.isShared name = false)
    {t : Task} (hfind : w.findTask g name = some t) : ∀ c, t.frame = some c → g < c := by
  unfold World.findTask at hfind
  rw [hname] at hfind
  have hmem : t ∈ (w.frame g).tasks.map Prod.snd := List.mem_map_of_mem (mem_of_lookup hfind)
  exact h.precedes t (List.mem_append_right _ hmem)

theorem updateTask (h : w.Owned (some g)) {name : String} (hname : World.isShared name = false)
    {t : Task} (ht : ∀ c, t.frame = some c → g < c) :
    Retains (some g) w (w.updateTask g name t) := by
  unfold World.updateTask
  rw [hname]
  refine h.self rfl fun t' ht' => ?_
  rcases List.mem_append.mp ht' with ht' | ht'
  · exact h.precedes t' (List.mem_append_left _ ht')
  · obtain ⟨e, he, rfl⟩ := List.mem_map.mp ht'
    obtain ⟨e', he', rfl⟩ := List.mem_map.mp he
    split
    · exact ht
    · exact h.precedes _ (List.mem_append_right _ (List.mem_map_of_mem he'))

theorem removeTask (h : w.Owned (some g)) {name : String} (hname : World.isShared name = false) :
    Retains (some g) w (w.removeTask g name) := by
  unfold World.removeTask
  rw [hname]
  refine h.self rfl fun t ht => ?_
  rcases List.mem_append.mp ht with ht | ht
  · exact h.precedes t (List.mem_append_left _ ht)
  · obtain ⟨e, he, rfl⟩ := List.mem_map.mp ht
    exact h.precedes _ (List.mem_append_right _ (List.mem_map_of_mem (List.mem_filter.mp he).1))

theorem storeTask (h : w.Owned (some g)) {name : String} (hname : World.isShared name = false)
    {t : Task} (ht : ∀ c, t.frame = some c → g < c) :
    Retains (some g) w (if World.isShared name then { w with tasks := w.tasks.set name t }
      else w.modifyFrame g (·.addTask name t)) := by
  rw [hname]
  refine h.self rfl fun t' ht' => ?_
  rcases List.mem_append.mp ht' with ht' | ht'
  · exact h.precedes t' (List.mem_append_left _ ht')
  · obtain ⟨e, he, rfl⟩ := List.mem_map.mp ht'
    rcases List.mem_append.mp he with he | he
    · exact h.precedes _ (List.mem_append_right _ (List.mem_map_of_mem (List.mem_filter.mp he).1))
    · rw [List.mem_singleton.mp he]
      exact ht

/-- A body comes to wait for something else. -/
theorem setWait (h : w.Owned (some g)) {wait : Option Wait}
    (hwait : ∀ t ∈ Frame.waitTasks wait, ∀ c, t.frame = some c → g < c) :
    Retains (some g) w (w.setWait g wait) := by
  refine h.self rfl fun t ht => ?_
  rcases List.mem_append.mp ht with ht | ht
  · exact hwait t ht
  · exact h.precedes t (List.mem_append_right _ ht)

/-- The tasks of the frame whose code runs are taken from it. -/
theorem strips (g : FrameId) (w : World) : Strips (Retains (some g) w) g :=
  fun h => h.next fun h => by
  refine h.self rfl fun t ht => ?_
  rcases List.mem_append.mp ht with ht | ht
  · exact h.precedes t (List.mem_append_left _ ht)
  · cases ht

/-- A body that mentions no task of everyone's keeps handles on later frames only. -/
theorem walk (w : World) (p : Place) {n : Nat} (hg : g < n) :
    Walk p g (World.isShared · = false) True True n (fun _ => True) (g < ·)
    (Retains (some g) w) where
  toHandling := handling w p
  sub _ := trivial
  compute h hchange := h.next fun h => by
    obtain ⟨acc, guard, code, e⟩ := hchange
    exact h.touch (by rw [e]; rfl) (by rw [e])
  setWait h hwait _ := h.next fun h => h.setWait hwait
  find h hname hfind := h.owned.findTask hname hfind
  update h hname ht := h.next fun h => h.updateTask hname ht
  remove h hname := h.next fun h => h.removeTask hname
  store h hname ht := h.next fun h => h.storeTask hname ht
  request _ h _ := h.next fun h => h.same (fun _ => rfl) rfl
  hire h := h.next fun h => h.newWorker .unlock
  make disposal body arg _ h _ := h.next fun h => h.newFrame _ disposal body arg
  fresh _ := hg

theorem askWait (h : w.Owned (some g)) (p : Place) {wait : Wait}
    (hwait : (w.frame g).wait = some wait)
    (hnames : ∀ name ∈ wait.names, World.isShared name = false) :
    Retains (some g) w (w.askWait p g wait).1 := by
  refine (walk w p (Nat.lt_succ_self g)).askWait (fun _ => trivial) h.refl hnames (fun t ht => ?_)
    fun _ _ _ _ => trivial
  exact h.precedes t (List.mem_append_left _ (hwait ▸ ht))

/-- A statement that mentions no task of everyone's. -/
theorem exec (h : w.Owned (some g)) (hg : g < w.frameCount) (p : Place) (s : Stmt)
    (hnames : ∀ name ∈ s.names, World.isShared name = false) :
    Retains (some g) w (w.exec p g s).1 :=
  (walk w p hg).exec hnames (fun _ => trivial) (fun _ _ => trivial) rfl h.refl

end Self

end World.Owned

/-! ## Steps -/

namespace Thread

variable {w : World}

theorem advance_retains {g : FrameId} (h : w.Owned (some g)) (hg : g < w.frameCount) (t : Thread)
    (hpolling : t.polling = some g)
    (hnames : ∀ name ∈ t.mentions w, World.isShared name = false) (p : Place) :
    Retains (some g) w (advance w p g).1 := by
  rw [mentions, hpolling] at hnames
  unfold advance
  cases hwait : (w.frame g).wait with
  | some wait =>
    simp only [hwait] at hnames
    exact h.askWait p hwait hnames
  | none =>
    cases hcode : (w.frame g).code with
    | nil => exact h.refl
    | cons s code =>
      simp only [hwait, hcode] at hnames
      have hpast : Retains (some g) w (w.modifyFrame g fun frame => { frame with code }) :=
        h.touch rfl rfl
      exact hpast.next fun h => h.exec hg p s hnames

/-- A step leaves to the frames whose code does not run what they hold. -/
theorem step_retains {t : Thread} (h : w.Owned t.polling) (hmade : ∀ g ∈ t.polling,
    g < w.frameCount)
    (hnames : ∀ name ∈ t.mentions w, World.isShared name = false) :
    Retains t.polling w (t.step w).1 := by
  refine (World.Owned.course t.polling w).step h.refl fun g hpolling => ?_
  rw [hpolling] at h ⊢
  exact ⟨World.Owned.strips g w, advance_retains h (hmade g hpolling) t hpolling hnames t.toPlace⟩

end Thread

/-! ## Operations of the caller -/

theorem World.owned_none (w : World) : w.Owned none := fun g hg => by cases hg

namespace Session

variable {s : Session}

theorem errand_retains (w : World) : Errand w True True (fun _ => True) (Retains none w) where
  toHandling := World.Owned.handling w place
  shared _ _ _ _ := trivial
  share _ h _ := h.next fun h => h.same (fun _ => rfl) rfl
  unshare _ h := h.next fun h => h.same (fun _ => rfl) rfl
  hire _ _ h := h.next fun h => h.same (fun _ => rfl) rfl
  unname _ h := h.next fun h => h.same (fun _ => rfl) rfl
  fire h _ := (World.Owned.course none w).dropWorker h place _
  make disposal body arg _ h _ := h.next fun h => h.newFrame _ disposal body arg
  fresh _ := trivial

end Session

/-! ## Moves -/

namespace Moment

variable {m : Moment} {action : Action}

/-- The body that runs next keeps to its own tasks. -/
def Homely (m : Moment) : Action → Prop
  | .step => ∀ name ∈ m.thread.mentions m.world, World.isShared name = false
  | _ => True

instance (m : Moment) (action : Action) : Decidable (m.Homely action) :=
  match action with
  | .step => inferInstanceAs (Decidable (∀ name ∈ _, _))
  | .call _ | .close => inferInstanceAs (Decidable True)

/-- Every frame was made before the frames its handles stand for. -/
def Descends (m : Moment) : Prop := ∀ g, (m.world.frame g).Precedes g

/-- A move leaves to the frames whose code does not run what they hold. -/
theorem Homely.retains (h : m.Homely action) (hcan : m.Can action) (hdescends : m.Descends)
    (hmade : ∀ g ∈ m.thread.polling, g < m.world.frameCount) :
    Retains m.thread.polling m.world (m.act action).world := by
  have hidle : m.thread.stack = [] → m.thread.polling = none := by
    intro hstack
    rw [Thread.polling, hstack]
  cases action with
  | step =>
    exact (World.Owned.course _ _).receive m.session
      (Thread.step_retains (fun g _ => hdescends g) hmade h)
  | close =>
    rw [hidle hcan.2]
    exact (World.Owned.course none m.world).close (m.world.owned_none.same (fun _ => rfl) rfl)
  | call op =>
    rw [hidle hcan.2]
    have hopened : Retains none m.opened.world m.world :=
      m.opened.world.owned_none.same (fun _ => rfl) rfl
    have hcalled : Retains none m.opened.world (m.call op).world :=
      (World.Owned.course none m.opened.world).call (Session.errand_retains m.opened.world)
        (fun h => h.next fun h => h.newWorker .unlock) hopened
    exact (m.world.owned_none.same (fun _ => rfl) rfl : Retains none m.world m.opened.world).next
      fun _ => hcalled

theorem Homely.descends (h : m.Homely action) (hcan : m.Can action) (hdescends : m.Descends)
    (hmade : ∀ g ∈ m.thread.polling, g < m.world.frameCount) : (m.act action).Descends :=
  fun g => (h.retains hcan hdescends hmade).precedes (hdescends g)

end Moment

end Substrate.Coro
