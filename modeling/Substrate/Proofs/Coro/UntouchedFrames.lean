import Substrate.Proofs.Coro.ThreadInvariants

/-!
# Untouched frames

Whatever happens, a frame that is not the one whose body runs waits for what it waited for, with the
statements it had, until it is destroyed; and a cancel flag that is raised stays raised.

* `World.Abides` says so of two worlds; `World.Abides.course` is about what threads do.
* `Moment.act_abides` is about everything that can happen at a moment.
-/

namespace Substrate.Coro

/-- Cancel flags stay raised, and frames other than `f` abide.  No frame comes back to life. -/
structure World.Abides (f : Option FrameId) (w w' : World) : Prop where
  raised : ∀ i, w.flags.raised.get i = true → w'.flags.raised.get i = true
  made : w.frameCount ≤ w'.frameCount
  frame : ∀ g, g < w.frameCount → (w'.frame g).alive = true → (w.frame g).alive = true ∧
    (g ∉ f → (w'.frame g).wait = (w.frame g).wait ∧ (w'.frame g).code = (w.frame g).code)

namespace World.Abides

variable {f : Option FrameId} {w w' w'' : World}

theorem trans (h : w.Abides f w') (h' : w'.Abides f w'') : w.Abides f w'' := by
  refine ⟨fun i hi => h'.raised i (h.raised i hi), Nat.le_trans h.made h'.made,
    fun g hg halive => ?_⟩
  obtain ⟨halive', hkept'⟩ := h'.frame g (Nat.lt_of_lt_of_le hg h.made) halive
  obtain ⟨halive, hkept⟩ := h.frame g hg halive'
  refine ⟨halive, fun hne => ?_⟩
  obtain ⟨hwait', hcode'⟩ := hkept' hne
  obtain ⟨hwait, hcode⟩ := hkept hne
  exact ⟨hwait'.trans hwait, hcode'.trans hcode⟩

/-- No frame changes. -/
theorem same (hframe : ∀ g, w'.frame g = w.frame g) (hcount : w'.frameCount = w.frameCount)
    (hflags : w'.flags = w.flags) : w.Abides f w' := by
  refine ⟨fun i hi => hflags ▸ hi, Nat.le_of_eq hcount.symm, fun g _ halive => ?_⟩
  rw [hframe] at halive ⊢
  exact ⟨halive, fun _ => ⟨rfl, rfl⟩⟩

theorem refl (f : Option FrameId) (w : World) : w.Abides f w := same (fun _ => rfl) rfl rfl

/-- One frame changes: it may end, and if it is `f` its body may go on. -/
theorem modifyFrame {g : FrameId} {change : Frame → Frame}
    (h : (change (w.frame g)).alive = true → (w.frame g).alive = true ∧
      (g ∉ f → (change (w.frame g)).wait = (w.frame g).wait ∧
        (change (w.frame g)).code = (w.frame g).code)) : w.Abides f (w.modifyFrame g change) := by
  refine ⟨fun _ hi => hi, Nat.le_refl _, fun g' _ halive => ?_⟩
  rw [World.frame_modifyFrame] at halive ⊢
  split at halive
  · rename_i hg
    subst hg
    rw [if_pos rfl]
    exact h halive
  · rename_i hg
    rw [if_neg hg]
    exact ⟨halive, fun _ => ⟨rfl, rfl⟩⟩

/-- A part of a record changes that bodies do not see. -/
theorem touch {g : FrameId} {change : Frame → Frame}
    (halive : (change (w.frame g)).alive = (w.frame g).alive)
    (hwait : (change (w.frame g)).wait = (w.frame g).wait)
    (hcode : (change (w.frame g)).code = (w.frame g).code) : w.Abides f (w.modifyFrame g change) :=
  modifyFrame fun h => ⟨halive ▸ h, fun _ => ⟨hwait, hcode⟩⟩

/-- The body that runs goes on. -/
theorem self {g : FrameId} {change : Frame → Frame}
    (halive : (change (w.frame g)).alive = (w.frame g).alive) :
    w.Abides (some g) (w.modifyFrame g change) :=
  modifyFrame fun h => ⟨halive ▸ h, fun hne => absurd rfl hne⟩

theorem newFrame (home : Option ThreadId) (disposal : Disposal) (body : String) (arg : Int) :
    w.Abides f (w.newFrame home disposal body arg).1 := by
  refine ⟨fun _ hi => hi, Nat.le_succ _, fun g hg halive => ?_⟩
  rw [Layout.newFrame_frame, if_neg (Nat.ne_of_lt hg)] at halive ⊢
  exact ⟨halive, fun _ => ⟨rfl, rfl⟩⟩

theorem endFrame (p : Place) (g : FrameId) (ending : Ending) :
    w.Abides f (w.endFrame p g ending).1 := by
  obtain ⟨log, heq⟩ := Layout.endFrame_eq w p g ending
  rw [heq]
  have hnoted : w.Abides f { w with log, ends := (g, ending) :: w.ends } :=
    same (fun _ => rfl) rfl rfl
  exact hnoted.trans (modifyFrame fun h => by cases h)

theorem enqueue (k : WorkerId) (g : FrameId) : w.Abides f (w.enqueue k g) := by
  unfold World.enqueue
  split
  · exact refl f w
  · exact same (fun _ => rfl) rfl rfl

theorem nameWorker (name : String) (hook : ReleaseHook) : w.Abides f
    { (w.newWorker hook).1 with workerNames := w.workerNames.set name (w.newWorker hook).2 } :=
  same (fun _ => rfl) rfl rfl

theorem namedWorker (name : String) : w.Abides f (w.namedWorker name).1 := by
  unfold World.namedWorker
  split
  · exact refl f w
  · exact nameWorker name .unlock

theorem handling (w : World) (p : Place) : Handling p True (fun _ => True) (w.Abides f) where
  beside h hbeside := by
    have hcount := congrArg World.frameCount hbeside.same
    have hframe : ∀ g, World.frame _ g = World.frame _ g :=
      fun g => congrArg (World.frame · g) hbeside.same
    refine h.trans ⟨hbeside.raised, Nat.le_of_eq hcount.symm, fun g _ halive => ?_⟩
    rw [hframe] at halive ⊢
    exact ⟨halive, fun _ => ⟨rfl, rfl⟩⟩
  named name h := h.trans (namedWorker name)
  enqueue h _ _ := h.trans (enqueue _ _)
  subscribe h _ _ := h.trans (touch rfl rfl rfl)
  current _ _ := trivial
  slotted _ _ := trivial
  vacate _ h := h.trans (same (fun _ => rfl) rfl rfl)
  finish ending _ h _ := h.trans (endFrame p _ ending)
  held _ _ _ _ _ _ _ := trivial
  note runner _ h := by
    refine h.trans ?_
    rcases World.noteDestroyed_cases _ p runner with e | ⟨k, e⟩ <;> rw [e]
    · exact refl f _
    · exact same (fun _ => rfl) rfl rfl
  detach _ h _ := h.trans (touch rfl rfl rfl)
  empty _ h _ := h.trans (touch rfl rfl rfl)

theorem walk (w : World) (p : Place) (g : FrameId) (n : Nat) :
    Walk p g (fun _ => True) True True n (fun _ => True) (fun _ => True) (w.Abides (some g)) where
  toHandling := handling w p
  sub _ := trivial
  compute h hchange := by
    obtain ⟨acc, guard, code, e⟩ := hchange
    exact h.trans (self (by rw [e]))
  setWait h _ _ := h.trans (self rfl)
  find _ _ _ _ _ := trivial
  update h _ _ := by
    unfold World.updateTask
    split
    · split
      · exact h.trans (same (fun _ => rfl) rfl rfl)
      · exact h
    · exact h.trans (self rfl)
  remove h _ := by
    unfold World.removeTask
    split
    · exact h.trans (same (fun _ => rfl) rfl rfl)
    · exact h.trans (self rfl)
  store h _ _ := by
    split
    · exact h.trans (same (fun _ => rfl) rfl rfl)
    · exact h.trans (self rfl)
  request _ h _ := h.trans (same (fun _ => rfl) rfl rfl)
  hire h := h.trans (same (fun _ => rfl) rfl rfl)
  make disposal body arg _ h _ := h.trans (newFrame _ disposal body arg)
  fresh _ := trivial

/-- What a thread does besides running bodies. -/
theorem course (f : Option FrameId) (w : World) : Course (w.Abides f) where
  handling p := handling w p
  worker _ h := h.trans (same (fun _ => rfl) rfl rfl)
  lists _ h := h.trans (same (fun _ => rfl) rfl rfl)
  occupy _ _ h := h.trans (same (fun _ => rfl) rfl rfl)
  mark h hchange := by
    obtain ⟨acc, stage, continuation, runner, retired, output, e⟩ := hchange
    exact h.trans (touch (by rw [e]) (by rw [e]) (by rw [e]))

theorem errand (w : World) : Errand w True True (fun _ => True) (w.Abides none) where
  toHandling := handling w Session.place
  shared _ _ _ _ := trivial
  share _ h _ := h.trans (same (fun _ => rfl) rfl rfl)
  unshare _ h := h.trans (same (fun _ => rfl) rfl rfl)
  hire name hook h := h.trans (nameWorker name hook)
  unname _ h := h.trans (same (fun _ => rfl) rfl rfl)
  fire h _ := (course none w).dropWorker h Session.place _
  make disposal body arg _ h _ := h.trans (newFrame _ disposal body arg)
  fresh _ := trivial

/-- A body that runs does not change what other frames wait for. -/
theorem advance (w : World) (p : Place) (g : FrameId) :
    w.Abides (some g) (Thread.advance w p g).1 := by
  unfold Thread.advance
  split
  · exact (walk w p g 0).askWait (fun _ => trivial) (refl _ w) (fun _ _ => trivial)
      (fun _ _ _ _ => trivial) fun _ _ _ _ => trivial
  · rename_i s code _ _
    have hpast : w.Abides (some g) (w.modifyFrame g fun frame => { frame with code }) := self rfl
    exact (walk w p g _).exec (fun _ _ => trivial) (fun _ => trivial) (fun _ _ => trivial) rfl hpast
  · exact refl _ w

end World.Abides

/-! ## Moves -/

/-- The frame whose body runs in an action. -/
def Moment.runs (m : Moment) : Action → Option FrameId
  | .step => m.thread.polling
  | _ => none

/-- Whatever happens is about no frame but the one whose body runs. -/
theorem Moment.act_abides (m : Moment) (action : Action) :
    m.world.Abides (m.runs action) (m.act action).world := by
  have hcourse := World.Abides.course (m.runs action) m.world
  have hstart : m.world.Abides (m.runs action) m.world := .refl _ _
  cases action with
  | step =>
    refine hcourse.receive m.session
      (hcourse.step hstart fun g hg => ⟨fun h => h.trans (.touch rfl rfl rfl), ?_⟩)
    rw [runs, hg]
    exact .advance m.world m.thread.toPlace g
  | close => exact hcourse.close (.same (fun _ => rfl) rfl rfl)
  | call op =>
    have hopened : m.world.Abides none m.opened.world := .same (fun _ => rfl) rfl rfl
    refine hopened.trans ?_
    exact (World.Abides.course none m.opened.world).call (World.Abides.errand m.opened.world)
      (fun h => h.trans (.same (fun _ => rfl) rfl rfl)) (.same (fun _ => rfl) rfl rfl)

end Substrate.Coro
