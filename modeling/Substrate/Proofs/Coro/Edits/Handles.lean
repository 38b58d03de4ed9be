import Substrate.Proofs.Coro.Edits.WorldEdits

/-!
# Handles by edits

What is done with handles is made of edits: they are dropped, they move in and out
of names, and the results of complete frames are taken through them.

* `Edits.dropTasks` and `Edits.takeOutput`: letting go of handles and taking results.
* `Edits.updateTask`, `Edits.removeTask` and `Edits.storeTask`: handles under names.
-/

namespace Substrate.Coro

theorem World.Agrees.enqueue {w w' : World} (h : w.Agrees w') (k : WorkerId) (f : FrameId) :
    (w.enqueue k f).Agrees (w'.enqueue k f) := by
  unfold World.enqueue
  rw [h.runLists]
  split
  · exact h
  · exact ⟨h.frame, h.frameCount, h.ends, rfl, h.tasks, h.slots⟩

/-! ## Handles that move -/

namespace Edits

variable {strict : Prop} {d : Desk}

/-- Nothing changes that places frames. -/
theorem agrees {w : World} (h : d.world.Agrees w)
    (hretired : ∀ k, (w.worker k).retired = (d.world.worker k).retired) :
    Edits strict d { d with world := w } := by
  refine .one fun hneat => .move (.of_agrees h hretired) (hneat.world.of_agrees h) ?_
  rw [h.held]
  exact .refl _

/-- Handles outside the world go. -/
theorem forget {hand : List Task} (hhand : Fewer d.hand hand) : Edits strict d { d with hand } := by
  refine .one fun hneat => .move (w := d.world) (.of_agrees (.refl _) fun _ => rfl) hneat.world ?_
  intro c
  have := hhand c
  simp only [Desk.handles, List.count_append]
  omega

theorem forget_head {t : Task} {hand : List Task} (hhand : d.hand = t :: hand) :
    Edits strict d { d with hand } :=
  forget (hhand ▸ .suffix [t] hand)

/-- A body changes, and handles move between it and the outside. -/
theorem shift {f : FrameId} (hf : f ∈ d.polled) {change : Frame → Frame}
    {hand : List Task} (hlife : (d.world.frame f).Alike (change (d.world.frame f)))
    (hnames : ((d.world.frame f).tasks.map Prod.fst).Nodup →
      ((change (d.world.frame f)).tasks.map Prod.fst).Nodup)
    (hchildless : ∀ wait, (change (d.world.frame f)).wait = some wait →
      (d.world.frame f).wait = some wait ∨ wait.Childless)
    (hfewer : Fewer ((d.world.frame f).heldTasks ++ d.hand)
      ((change (d.world.frame f)).heldTasks ++ hand)) :
    Edits strict d { d with world := d.world.modifyFrame f change, hand } := by
  refine .one fun hneat => .move (.modifyFrame _ hlife)
    (hneat.world.modifyFrame (hnames (hneat.world.names f)) fun wait hwait => ?_) fun c => ?_
  · exact (hchildless wait hwait).elim (hneat.world.childless f wait) id
  · have hcount := d.world.count_held_modifyFrame (hneat.polled f hf) change
    have := hcount ⟨some c, false⟩
    have := hcount ⟨some c, true⟩
    have := hfewer c
    simp only [Desk.handles, List.count_append] at *
    omega

/-- A body changes, but not what it holds and waits for. -/
theorem touch {f : FrameId} {change : Frame → Frame}
    (hlife : (d.world.frame f).Alike (change (d.world.frame f)))
    (htasks : (change (d.world.frame f)).tasks = (d.world.frame f).tasks)
    (hwait : (change (d.world.frame f)).wait = (d.world.frame f).wait) :
    Edits strict d { d with world := d.world.modifyFrame f change } := by
  refine .one fun hneat => .move (.modifyFrame _ hlife) (hneat.world.modifyFrame ?_ ?_) ?_
  · rw [htasks]
    exact hneat.world.names f
  · rw [hwait]
    exact hneat.world.childless f
  · rw [World.held_modifyFrame _ (by rw [Frame.heldTasks, Frame.heldTasks, htasks, hwait])]
    exact .refl _

/-- The tasks known to everyone change, and handles move between them and the outside. -/
theorem setTasks {tasks : Registers Task} {hand : List Task}
    (hordered : d.world.tasks.Ordered → tasks.Ordered)
    (hfewer : d.world.tasks.Ordered →
      Fewer (d.world.tasks.values ++ d.hand) (tasks.values ++ hand)) :
    Edits strict d { d with world := { d.world with tasks }, hand } := by
  refine .one fun hneat => .move ⟨fun _ => .refl _, rfl, rfl, rfl, rfl, fun _ => rfl⟩
    ⟨hordered hneat.world.ordered, hneat.world.names, hneat.world.childless⟩ fun c => ?_
  have hnew := World.count_held { d.world with tasks }
  have hold := World.count_held d.world
  have hframes : ∀ x,
      ((List.range ({ d.world with tasks } : World).frameCount).flatMap fun f : Nat =>
      (({ d.world with tasks } : World).frame f).heldTasks).count x =
      ((List.range d.world.frameCount).flatMap fun f : Nat => (d.world.frame f).heldTasks).count
      x :=
    fun _ => rfl
  have := hfewer hneat.world.ordered c
  simp only [Desk.handles, List.count_append, hnew, hold, hframes] at *
  omega

/-! ## Letting go -/

/-- A handle is dropped; what its frame held is outside the world if the frame is destroyed. -/
theorem letGo (p : Place) {t : Task} {hand : List Task} (hhand : d.hand = t :: hand) :
    Edits strict d { d with
      world := (d.world.letGo p t).1
      hand := (d.world.letGo p t).2.getD [] ++ hand } := by
  obtain ⟨frame, started⟩ := t
  cases frame with
  | none => exact forget_head hhand
  | some f =>
    unfold World.letGo
    simp only
    split
    · rename_i hends
      split
      · rename_i halive
        have hended : Edits strict d { d with
            world := (d.world.endFrame p f .dropped).1
            hand := (d.world.frame f).heldTasks ++ hand } := by
          by_cases hcomplete : (d.world.frame f).stage = .complete
          · exact (forget_head hhand).trans
              (.one fun hneat => .destroy p .dropped (hneat.born f halive).1 hcomplete)
          · have hstarted : started = false := by
              simpa [Frame.isComplete, hcomplete] using hends
            subst hstarted
            exact .one fun _ => .discard p .dropped halive hhand
        exact hended.trans (agrees (World.noteDestroyed_agrees _ p _)
          (World.steady_noteDestroyed _ p _).retired)
      · exact forget_head hhand
    · rename_i hends
      have hstage : (d.world.frame f).stage ≠ .complete := by
        intro hcomplete
        simp [Frame.isComplete, hcomplete] at hends
      have htraced : Edits strict d { d with world := d.world.emit (.detach f) } :=
        agrees ⟨fun _ => rfl, rfl, rfl, rfl, rfl, rfl⟩ fun _ => rfl
      exact (htraced.trans (.one fun _ => .detach hstage)).trans (forget_head hhand)

/-- Handles outside the world are dropped. -/
theorem dropTasks (p : Place) (ts : List Task) {hand : List Task} (hhand : d.hand = ts ++ hand) :
    Edits strict d { d with world := d.world.dropTasks p ts, hand } := by
  have hstep : ∀ (w : World) (t : Task) (rest : List Task),
      Edits strict d { d with world := w, hand := t :: rest ++ hand } → Edits strict d { d with
        world := (w.letGo p t).1, hand := (w.letGo p t).2.getD [] ++ rest ++ hand } := by
    intro w t rest h
    rw [List.append_assoc]
    exact h.trans (letGo p rfl)
  obtain ⟨rest, hdropped⟩ := World.dropTasks_induct
    (P := fun w ts => Edits strict d { d with world := w, hand := ts ++ hand }) p hstep ts
    (forget (hhand ▸ .refl _))
  exact hdropped.trans (forget (.suffix rest hand))

/-- A complete frame is destroyed, and what it held is dropped. -/
theorem destroy (p : Place) {f : FrameId} (ending : Ending) (hmade : f < d.world.frameCount)
    (hstage : (d.world.frame f).stage = .complete) :
    Edits strict d { d with world := d.world.destroy p f ending } := by
  have hended : Edits strict d { d with
      world := (d.world.endFrame p f ending).1
      hand := (d.world.frame f).heldTasks ++ d.hand } :=
    .one fun _ => .destroy p ending hmade hstage
  exact hended.trans (dropTasks p _ rfl)

/-- The result of a complete frame is taken, and the frame is destroyed. -/
theorem takeOutput (p : Place) {t : Task} (hmade : ∀ f, t.frame = some f → f < d.world.frameCount) :
    Edits strict d { d with world := (d.world.takeOutput p t).1 } := by
  obtain ⟨frame, started⟩ := t
  cases frame with
  | none => exact .refl strict d
  | some f =>
    unfold World.takeOutput
    simp only
    split
    · rename_i hcomplete
      have hstage : (d.world.frame f).stage = .complete := by
        simpa [Frame.isComplete] using hcomplete
      have hemptied : Edits strict d { d with world := d.world.modifyFrame f fun frame =>
          { frame with output := none } } :=
        touch ⟨rfl, rfl, rfl, rfl, rfl⟩ rfl rfl
      have hended := hemptied.trans (destroy p (.taken (d.world.frame f).output) (hmade f rfl)
        (by rw [World.frame_modifyFrame, if_pos rfl]; exact hstage))
      exact hended.trans (agrees (World.noteDestroyed_agrees _ p _)
        (World.steady_noteDestroyed _ p _).retired)
    · exact .refl strict d

/-! ## Making frames -/

theorem newTask (p : Place) (hp : p.thread = 0) (body : String) (arg : Int) :
    Edits strict d { d with
      world := (d.world.newTask p body arg).1
      hand := (d.world.newTask p body arg).2 :: d.hand } := by
  unfold World.newTask
  rw [hp]
  exact .one fun _ => .make body arg

theorem spawnDetached (p : Place) (hp : p.thread = 0) (k : WorkerId) (body : String) (arg : Int) :
    Edits strict d { d with world := d.world.spawnDetached p k body arg } := by
  have hspawned : Edits strict d { d with world :=
      (d.world.newFrame (some 0) .detached body arg).1.enqueue k d.world.frameCount } :=
    .one fun _ => .spawn k body arg
  have htraced : (d.world.newFrame (some 0) .detached body arg).1.Agrees
      ((d.world.newFrame (some 0) .detached body arg).1.emit (.spawn d.world.frameCount)) :=
    ⟨fun _ => rfl, rfl, rfl, rfl, rfl, rfl⟩
  unfold World.spawnDetached
  rw [hp]
  refine hspawned.trans (agrees (htraced.enqueue k _) fun k' => ?_)
  rw [(World.steady_enqueue _ _ _).retired, (World.steady_enqueue _ _ _).retired]
  rfl

theorem newWorker (hook : ReleaseHook) :
    Edits strict d { d with world := (d.world.newWorker hook).1 } :=
  .one fun _ => .recruit hook

theorem namedWorker (name : String) :
    Edits strict d { d with world := (d.world.namedWorker name).1 } := by
  unfold World.namedWorker
  split
  · exact .refl strict d
  · exact (newWorker .unlock).trans (agrees ⟨fun _ => rfl, rfl, rfl, rfl, rfl, rfl⟩ fun _ => rfl)

end Edits

/-! ## Handles under names -/

namespace World

variable {w : World} {f : FrameId} {name : String} {t : Task}

theorem count_setTasks (w : World) (tasks : Registers Task) (x : Task) :
    ({ w with tasks } : World).held.count x + w.tasks.values.count x =
      w.held.count x + tasks.values.count x := by
  have hnew := World.count_held { w with tasks } x
  have hold := World.count_held w x
  change _ = tasks.values.count x +
    ((List.range w.frameCount).flatMap fun f : Nat => (w.frame f).heldTasks).count x at hnew
  omega

theorem alike_updateTask (w : World) (f : FrameId) (name : String) (t : Task) :
    w.Alike (w.updateTask f name t) := by
  unfold updateTask
  split
  · split <;> exact ⟨fun _ => .refl _, rfl, rfl, rfl, rfl, fun _ => rfl⟩
  · exact .modifyFrame w ⟨rfl, rfl, rfl, rfl, rfl⟩

theorem Neat.updateTask (h : w.Neat) (f : FrameId) (name : String) (t : Task) :
    (w.updateTask f name t).Neat := by
  unfold World.updateTask
  split
  · split
    · exact ⟨h.ordered.set name t, h.names, h.childless⟩
    · exact h
  · refine h.modifyFrame ?_ (h.childless f)
    show (((w.frame f).tasks.map _).map Prod.fst).Nodup
    rw [names_update]
    exact h.names f

/-- Another state of the handle that a body means by a name. -/
theorem Neat.count_updateTask (h : w.Neat) (hf : f < w.frameCount)
    (hfind : w.findTask f name = some t) (t' x : Task) :
    (w.updateTask f name t').held.count x + [t].count x = w.held.count x + [t'].count x := by
  unfold findTask at hfind
  unfold World.updateTask
  split at hfind
  · rename_i hshared
    have hcontains : w.tasks.contains name = true := by
      rw [Registers.contains, hfind]
      rfl
    rw [if_pos hshared, if_pos hcontains]
    have hset := (Registers.values_set_perm h.ordered t' hfind).count_eq x
    have := w.count_setTasks (w.tasks.set name t') x
    simp only [List.count_cons, List.count_nil] at hset ⊢
    omega
  · rename_i hshared
    rw [if_neg hshared]
    have := w.count_held_modifyFrame hf (·.setTask name t') x
    have := count_update_of_lookup (t := t') x (h.names f) hfind
    simp only [Frame.heldTasks, Frame.setTask, List.count_append] at *
    omega

/-- Nothing is recorded under a name that means nothing. -/
theorem agrees_updateTask (hfind : w.findTask f name = none) (t : Task) :
    w.Agrees (w.updateTask f name t) := by
  unfold findTask at hfind
  unfold updateTask
  split at hfind
  · rename_i hshared
    have hcontains : w.tasks.contains name = false := by
      rw [Registers.contains, hfind]
      rfl
    rw [if_pos hshared, if_neg (by simp [hcontains])]
    exact .refl w
  · rename_i hshared
    rw [if_neg hshared]
    refine ⟨fun g => ?_, rfl, rfl, rfl, rfl, rfl⟩
    rw [frame_modifyFrame]
    split
    · rename_i hg
      have hsame : ((w.frame f).tasks.map fun e => if e.1 == name then (name, t) else e) =
          (w.frame f).tasks := by
        refine (List.map_congr_left fun e he => ?_).trans (List.map_id _)
        have hne : ¬ name = e.1 := by simpa using List.lookup_eq_none_iff.mp hfind e he
        rw [if_neg (by simpa using Ne.symm hne)]
        rfl
      rw [hg, Frame.setTask, hsame]
    · rfl

/-- A frame is put on a list before or after the state of a handle is recorded. -/
theorem enqueue_updateTask (w : World) (k : WorkerId) (c f : FrameId) (name : String) (t : Task) :
    (w.enqueue k c).updateTask f name t = (w.updateTask f name t).enqueue k c := by
  have hlists : (w.updateTask f name t).runLists = w.runLists :=
    (w.alike_updateTask f name t).runLists
  unfold World.enqueue
  rw [hlists]
  cases w.runLists.push (readyList k) c with
  | none => rfl
  | some runLists =>
    unfold updateTask
    simp only
    split
    · show (if w.tasks.contains name then _ else _) = _
      split <;> rfl
    · rfl

end World

namespace Edits

variable {strict : Prop} {d : Desk} {f : FrameId} {name : String} {t : Task}

/-- The handle that a body means by a name changes places with one outside the world. -/
theorem updateTask (hf : f ∈ d.polled) (hfind : d.world.findTask f name = some t)
    {t' : Task} {hand : List Task} (hfewer : Fewer (t :: d.hand) (t' :: hand)) :
    Edits strict d { d with world := d.world.updateTask f name t', hand } := by
  refine .one fun hneat => .move (d.world.alike_updateTask f name t')
    (hneat.world.updateTask f name t')
    fun c => ?_
  have hcount := hneat.world.count_updateTask (hneat.polled f hf) hfind t'
  have := hcount ⟨some c, false⟩
  have := hcount ⟨some c, true⟩
  have := hfewer c
  simp only [Desk.handles, List.count_append, List.count_cons, List.count_nil] at *
  omega

/-- A handle that has lost its frame is recorded under a name. -/
theorem spendTask (hf : f ∈ d.polled) (hlost : t.frame = none) :
    Edits strict d { d with world := d.world.updateTask f name t } := by
  cases hfind : d.world.findTask f name with
  | none =>
    exact agrees (World.agrees_updateTask hfind t) (d.world.alike_updateTask f name t).retired
  | some old =>
    exact updateTask hf hfind ((Fewer.suffix [old] d.hand).trans (.lost _ hlost))

/-- A handle in the world starts its frame, where it is. -/
theorem start {w : World} {c : FrameId} (k : WorkerId) (halike : d.world.Alike w)
    (hneat : d.world.Neat → w.Neat)
    (hcount : d.Neat → ∀ x, w.held.count x + [(⟨some c, false⟩ : Task)].count x =
      d.world.held.count x + [(⟨some c, true⟩ : Task)].count x)
    (hstage : (d.world.frame c).stage ≠ .complete) :
    Edits strict d { d with world := w.enqueue k c } := by
  refine .of_neat fun hdesk => .one fun _ => .start k halike (hneat hdesk.world)
    (fun g => ?_) ?_ hstage
  · have := hcount hdesk ⟨some g, false⟩
    have := hcount hdesk ⟨some g, true⟩
    by_cases hg : c = g
    · simp [Desk.handles, hg] at *
      omega
    · simp [Desk.handles, hg] at *
      omega
  · have := hcount hdesk ⟨some c, false⟩
    simp [Desk.handles] at *
    omega

/-- The handle that a body means by a name starts its frame. -/
theorem startTask (hf : f ∈ d.polled) {c : FrameId}
    (hfind : d.world.findTask f name = some ⟨some c, false⟩) (k : WorkerId)
    (hstage : (d.world.frame c).stage ≠ .complete) :
    Edits strict d { d with world := (d.world.enqueue k c).updateTask f name ⟨some c, true⟩ } := by
  rw [World.enqueue_updateTask]
  exact start k (d.world.alike_updateTask f name _) (·.updateTask f name _)
    (fun hneat => hneat.world.count_updateTask (hneat.polled f hf) hfind _) hstage

/-- A handle is taken out of a name known to everyone. -/
theorem unshareTask (hget : d.world.tasks.get? name = some t) :
    Edits strict d { d with world := { d.world with tasks := d.world.tasks.erase name }
                            hand := t :: d.hand } := by
  refine setTasks (·.erase name) fun hordered c => ?_
  have := (Registers.values_erase_perm hordered hget).count_eq ⟨some c, false⟩
  have := (Registers.values_erase_perm hordered hget).count_eq ⟨some c, true⟩
  simp only [List.count_append, List.count_cons] at *
  omega

/-- A handle is taken out of the name by which a body means it. -/
theorem removeTask (hf : f ∈ d.polled) (hfind : d.world.findTask f name = some t) :
    Edits strict d { d with world := d.world.removeTask f name, hand := t :: d.hand } := by
  unfold World.findTask at hfind
  unfold World.removeTask
  split at hfind
  · rename_i hshared
    rw [if_pos hshared]
    exact unshareTask hfind
  · rename_i hshared
    rw [if_neg hshared]
    refine .of_neat fun hneat => shift hf ⟨rfl, rfl, rfl, rfl, rfl⟩ nodup_filter_names
      (fun wait hwait => .inl hwait) fun c => ?_
    have hcount := fun x => count_filter_of_lookup x (hneat.world.names f) hfind
    have := hcount ⟨some c, false⟩
    have := hcount ⟨some c, true⟩
    simp only [Frame.heldTasks, Frame.eraseTask, List.count_append, List.count_cons,
      List.count_nil] at *
    omega

/-- A handle goes under a name known to everyone, and what was there comes out. -/
theorem shareTask {hand : List Task} (hhand : d.hand = t :: hand) (name : String) :
    Edits strict d { d with world := { d.world with tasks := d.world.tasks.set name t },
                            hand := (d.world.tasks.get? name).toList ++ hand } := by
  refine setTasks (·.set name t) fun hordered c => ?_
  rw [hhand]
  cases hget : d.world.tasks.get? name with
  | none =>
    have hperm := Registers.values_set_perm_of_none t hget
    have := hperm.count_eq ⟨some c, false⟩
    have := hperm.count_eq ⟨some c, true⟩
    simp only [List.count_append, List.count_cons, Option.toList_none, List.count_nil] at *
    omega
  | some old =>
    have hperm := Registers.values_set_perm hordered t hget
    have := hperm.count_eq ⟨some c, false⟩
    have := hperm.count_eq ⟨some c, true⟩
    simp only [List.count_append, List.count_cons, Option.toList_some, List.count_nil] at *
    omega

/-- A handle goes under the name by which a body means it, and what was there comes out. -/
theorem storeTask (hf : f ∈ d.polled) {hand : List Task} (hhand : d.hand = t :: hand)
    (name : String) :
    Edits strict d { d with
      world := if World.isShared name then { d.world with tasks := d.world.tasks.set name t }
        else d.world.modifyFrame f (·.addTask name t)
      hand := (d.world.findTask f name).toList ++ hand } := by
  unfold World.findTask
  split
  · exact shareTask hhand name
  · refine .of_neat fun hneat => shift hf ⟨rfl, rfl, rfl, rfl, rfl⟩ nodup_names_append
      (fun wait hwait => .inl hwait) fun c => ?_
    rw [hhand]
    have hfilter : ∀ x,
        (((d.world.frame f).tasks.filter fun e => e.1 != name).map Prod.snd).count x +
        ((d.world.frame f).task? name).toList.count x =
        ((d.world.frame f).tasks.map Prod.snd).count x := by
      intro x
      cases hlookup : (d.world.frame f).task? name with
      | none => rw [filter_eq_self_of_lookup hlookup]; rfl
      | some old => exact count_filter_of_lookup x (hneat.world.names f) hlookup
    have := hfilter ⟨some c, false⟩
    have := hfilter ⟨some c, true⟩
    simp only [Frame.heldTasks, Frame.addTask, Frame.eraseTask, List.map_append, List.count_append,
      List.map_cons, List.map_nil, List.count_cons, List.count_nil] at *
    omega

end Edits

end Substrate.Coro
