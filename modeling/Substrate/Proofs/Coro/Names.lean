import Substrate.Proofs.Coro.Tasks

/-!
# Handles under names

A handle is known to everyone or to one body by a name.  The first part is about
the tasks of one body, which are a list of names and handles; the second is about
layouts.  `Layout.updateTask` records the last state of a handle under its name,
`Layout.removeTask` takes a handle out of its name and `Layout.addTask` puts one
there and drops what was there.
-/

namespace Substrate.Coro

/-! ## The tasks of a body -/

section OwnTasks

variable {l : List (String × Task)} {name : String} {old t : Task} (x : Task)

theorem mem_of_lookup (h : l.lookup name = some old) : (name, old) ∈ l := by
  obtain ⟨before, after, rfl, -⟩ := List.lookup_eq_some_iff.mp h
  exact List.mem_append_right before List.mem_cons_self

theorem filter_eq_self_of_lookup (h : l.lookup name = none) :
    l.filter (fun e => e.1 != name) = l := by
  rw [List.filter_eq_self]
  intro e he
  have hne : ¬ name = e.1 := by simpa using List.lookup_eq_none_iff.mp h e he
  simpa using Ne.symm hne

/-- A name that stands once is one entry, and the others have other names. -/
theorem perm_of_lookup (hn : (l.map Prod.fst).Nodup) (h : l.lookup name = some old) :
    l.Perm ((name, old) :: l.filter fun e => e.1 != name) := by
  obtain ⟨before, after, rfl, -⟩ := List.lookup_eq_some_iff.mp h
  rw [List.map_append, List.map_cons, List.perm_middle.nodup_iff, List.nodup_cons,
    ← List.map_append] at hn
  have hothers : (before ++ after).filter (fun e => e.1 != name) = before ++ after := by
    refine List.filter_eq_self.mpr fun e he => bne_iff_ne.mpr fun heq => hn.1 ?_
    exact List.mem_map.mpr ⟨e, he, heq⟩
  rw [List.filter_append, List.filter_cons_of_neg (by simp), ← List.filter_append, hothers]
  exact List.perm_middle

/-- Erasing a name takes its handle away. -/
theorem count_filter_of_lookup (hn : (l.map Prod.fst).Nodup) (h : l.lookup name = some old) :
    ((l.filter fun e => e.1 != name).map Prod.snd).count x + [old].count x =
      (l.map Prod.snd).count x := by
  rw [((perm_of_lookup hn h).map Prod.snd).count_eq x]
  simp only [List.map_cons, List.count_cons, List.count_nil]
  omega

/-- Another state of the handle under a name. -/
theorem count_update_of_lookup (hn : (l.map Prod.fst).Nodup) (h : l.lookup name = some old) :
    ((l.map fun e => if e.1 == name then (name, t) else e).map Prod.snd).count x +
      [old].count x = (l.map Prod.snd).count x + [t].count x := by
  have hothers : (l.filter fun e => e.1 != name).map
      (fun e => if e.1 == name then (name, t) else e) = l.filter fun e => e.1 != name := by
    refine (List.map_congr_left fun e he => if_neg ?_).trans (List.map_id _)
    simpa using (List.mem_filter.mp he).2
  have hperm := (perm_of_lookup hn h).map fun e => if e.1 == name then (name, t) else e
  rw [List.map_cons, hothers, if_pos BEq.rfl] at hperm
  rw [(hperm.map Prod.snd).count_eq x, ← count_filter_of_lookup x hn h]
  simp only [List.map_cons, List.count_cons, List.count_nil]
  omega

theorem names_update : (l.map fun e => if e.1 == name then (name, t) else e).map Prod.fst =
    l.map Prod.fst := by
  rw [List.map_map]
  refine List.map_congr_left fun e _ => ?_
  simp only [Function.comp_apply]
  split
  · rename_i heq
    exact (eq_of_beq heq).symm
  · rfl

theorem nodup_filter_names (hn : (l.map Prod.fst).Nodup) :
    ((l.filter fun e => e.1 != name).map Prod.fst).Nodup :=
  hn.sublist (List.filter_sublist.map Prod.fst)

theorem nodup_names_append (hn : (l.map Prod.fst).Nodup) :
    ((l.filter (fun e => e.1 != name) ++ [(name, t)]).map Prod.fst).Nodup := by
  rw [List.map_append, List.nodup_append]
  refine ⟨nodup_filter_names hn, by simp, ?_⟩
  intro a ha b hb heq
  obtain ⟨e, he, rfl⟩ := List.mem_map.mp ha
  have : e.1 ≠ name := by simpa using (List.mem_filter.mp he).2
  simp only [List.map_cons, List.map_nil, List.mem_singleton] at hb
  exact this (heq.trans hb)

end OwnTasks

/-- Everything about a frame but the tasks of its body. -/
theorem World.frame_updateTask (w : World) (f : FrameId) (name : String) (t : Task) (g : FrameId) :
    ∃ tasks, (w.updateTask f name t).frame g = { w.frame g with tasks } ∧
      tasks.map Prod.fst = (w.frame g).tasks.map Prod.fst := by
  unfold World.updateTask
  split
  · split <;> exact ⟨_, rfl, rfl⟩
  · rw [World.frame_modifyFrame]
    split
    · exact ⟨_, rfl, names_update⟩
    · exact ⟨_, rfl, rfl⟩

theorem World.steady_updateTask (w : World) (f : FrameId) (name : String) (t : Task) :
    w.Steady (w.updateTask f name t) := by
  unfold World.updateTask
  split
  · split <;> exact .of_workers rfl rfl rfl
  · exact .of_workers rfl rfl rfl

namespace Layout

variable {w : World} {a : Around} {spot : FrameId → Spot}

/-- The tasks known to everyone change, and handles may move in or out of them. -/
theorem setTasks (h : Layout w a spot) {tasks : Registers Task} (hordered : tasks.Ordered)
    {handles spent : List Task}
    (hcount : ∀ c b, tasks.values.count ⟨some c, b⟩ + handles.count ⟨some c, b⟩ +
        a.spent.count ⟨some c, b⟩ =
      w.tasks.values.count ⟨some c, b⟩ + a.handles.count ⟨some c, b⟩ +
        spent.count ⟨some c, b⟩) :
    Layout { w with tasks } { a with handles, spent } spot := by
  refine { h with handles := ?_, ordered := hordered }
  intro c b
  have hold := h.handles c b
  have hmoved := hcount c b
  have hheld : ∀ ts : Registers Task, ({ w with tasks := ts } : World).held.count ⟨some c, b⟩ =
      ts.values.count ⟨some c, b⟩ +
        ((List.range w.frameCount).flatMap fun f : Nat => (w.frame f).heldTasks).count
        ⟨some c, b⟩ :=
    fun ts => World.count_held _ _
  have hnew := hheld tasks
  have hold' := hheld w.tasks
  change w.held.count _ = _ at hold'
  rw [List.count_append] at hold ⊢
  show _ + handles.count _ = (spot c).owed (w.frame c).disposal b + spent.count _
  omega

/-- A handle goes under a name known to everyone, and what was there comes out. -/
theorem shareTask {t : Task} (h : Layout w { a with handles := t :: a.handles } spot)
    (name : String) :
    Layout { w with tasks := w.tasks.set name t }
      { a with handles := (w.tasks.get? name).toList ++ a.handles } spot := by
  refine h.setTasks (h.ordered.set name t) fun c b => ?_
  cases hget : w.tasks.get? name with
  | none =>
    have := (Registers.values_set_perm_of_none t hget).count_eq ⟨some c, b⟩
    simp only [List.count_cons, Option.toList_none, List.nil_append] at this ⊢
    omega
  | some old =>
    have := (Registers.values_set_perm h.ordered t hget).count_eq ⟨some c, b⟩
    simp only [List.count_cons, Option.toList_some, List.cons_append, List.nil_append] at this ⊢
    omega

/-- The last state of a handle is recorded under a name known to everyone. -/
theorem reshareTask {name : String} {t t' : Task}
    (h : Layout w { a with handles := t' :: a.handles, spent := t :: a.spent } spot)
    (hget : w.tasks.get? name = some t) :
    Layout { w with tasks := w.tasks.set name t' } a spot := by
  refine h.setTasks (h.ordered.set name t') fun c b => ?_
  have := (Registers.values_set_perm h.ordered t' hget).count_eq ⟨some c, b⟩
  simp only [List.count_cons] at this ⊢
  omega

/-- A handle comes out of a name known to everyone. -/
theorem unshareTask (h : Layout w a spot) {name : String} {t : Task}
    (hget : w.tasks.get? name = some t) :
    Layout { w with tasks := w.tasks.erase name } { a with handles := t :: a.handles } spot := by
  refine h.setTasks (h.ordered.erase name) fun c b => ?_
  have := (Registers.values_erase_perm h.ordered hget).count_eq ⟨some c, b⟩
  simp only [List.count_cons] at this ⊢
  omega

/-- The handle that a body means by a name is in the world. -/
theorem mem_held_of_findTask {f : FrameId} (hf : f < w.frameCount) {name : String} {t : Task}
    (hfind : w.findTask f name = some t) : t ∈ w.held := by
  unfold World.findTask at hfind
  refine List.mem_append.mpr ?_
  split at hfind
  · exact .inl (Registers.mem_values_of_get? hfind)
  · refine .inr (List.mem_flatMap.mpr ⟨f, List.mem_range.mpr hf, ?_⟩)
    exact List.mem_append_right _ (List.mem_map.mpr ⟨_, mem_of_lookup hfind, rfl⟩)

/-- The last state of a handle is recorded under its name. -/
theorem updateTask {f : FrameId} {name : String} {t t' : Task}
    (h : Layout w { a with handles := t' :: a.handles, spent := t :: a.spent } spot)
    (hf : (spot f).IsPending) (hstage : (w.frame f).stage ≠ .complete)
    (hfind : w.findTask f name = some t) : Layout (w.updateTask f name t') a spot := by
  unfold World.findTask at hfind
  unfold World.updateTask
  split at hfind
  · rename_i hshared
    have hcontains : w.tasks.contains name = true := by rw [Registers.contains, hfind]; rfl
    rw [if_pos hshared, if_pos hcontains]
    exact h.reshareTask hfind
  · rename_i hshared
    rw [if_neg hshared]
    refine h.modifyBody hf hstage ⟨rfl, rfl, rfl, rfl, rfl, rfl, rfl, rfl⟩ (h.frames f).solitary
      ?_ ?_
    · show ((w.frame f).tasks.map _ |>.map Prod.fst).Nodup
      rw [names_update]
      exact (h.frames f).names
    · intro c b
      have := count_update_of_lookup (t := t') ⟨some c, b⟩ (h.frames f).names hfind
      simp only [Frame.heldTasks, Frame.setTask, List.count_append, List.count_cons,
        List.count_nil] at this ⊢
      omega

/-- Recording a handle as it is changes nothing. -/
theorem updateTask_same (h : Layout w a spot) {f : FrameId} {name : String} {t : Task}
    (hf : (spot f).IsPending) (hstage : (w.frame f).stage ≠ .complete)
    (hfind : w.findTask f name = some t) : Layout (w.updateTask f name t) a spot := by
  refine Layout.updateTask (t := t) (h.rehandle (t :: a.handles) (t :: a.spent) fun c b => ?_) hf
    hstage hfind
  simp only [List.count_cons]
  omega

/-- A handle is taken out of its name. -/
theorem removeTask (h : Layout w a spot) {f : FrameId} {name : String} {t : Task}
    (hf : (spot f).IsPending) (hstage : (w.frame f).stage ≠ .complete)
    (hfind : w.findTask f name = some t) :
    Layout (w.removeTask f name) { a with handles := t :: a.handles } spot := by
  unfold World.findTask at hfind
  unfold World.removeTask
  split at hfind
  · rename_i hshared
    rw [if_pos hshared]
    exact h.unshareTask hfind
  · rename_i hshared
    rw [if_neg hshared]
    refine h.modifyBody hf hstage ⟨rfl, rfl, rfl, rfl, rfl, rfl, rfl, rfl⟩ (h.frames f).solitary
      (nodup_filter_names (h.frames f).names) ?_
    intro c b
    have := count_filter_of_lookup ⟨some c, b⟩ (h.frames f).names hfind
    simp only [Frame.heldTasks, Frame.eraseTask, List.count_append, List.count_cons,
      List.count_nil] at this ⊢
    omega

/-- A handle goes under a name, and what was there comes out. -/
private theorem storeTask (name : String) {f : FrameId} {t : Task}
    (h : Layout w { a with handles := t :: a.handles } spot) (hf : (spot f).IsPending)
    (hstage : (w.frame f).stage ≠ .complete) :
    Layout (if World.isShared name then { w with tasks := w.tasks.set name t }
        else w.modifyFrame f (·.addTask name t))
      { a with handles := (w.findTask f name).toList ++ a.handles } spot := by
  unfold World.findTask
  split
  · exact h.shareTask name
  · refine h.modifyBody hf hstage ⟨rfl, rfl, rfl, rfl, rfl, rfl, rfl, rfl⟩ (h.frames f).solitary
      (nodup_names_append (h.frames f).names) ?_
    intro c b
    simp only [Frame.heldTasks, Frame.addTask, Frame.eraseTask, List.map_append, List.count_append,
      List.map_cons, List.map_nil, List.count_cons, List.count_nil]
    cases hlookup : (w.frame f).task? name with
    | none =>
      rw [filter_eq_self_of_lookup hlookup]
      simp only [Option.toList_none, List.count_nil]
      omega
    | some old =>
      have := count_filter_of_lookup ⟨some c, b⟩ (h.frames f).names hlookup
      simp only [Option.toList_some, List.count_cons, List.count_nil] at this ⊢
      omega

/-- A handle goes under a name, and what was there is dropped. -/
theorem addTask (p : Place) (name : String) {f : FrameId} {t : Task}
    (h : Layout w { a with handles := t :: a.handles } spot) (hf : (spot f).IsPending)
    (hstage : (w.frame f).stage ≠ .complete) (hspent : a.spent = []) (hhand : a.hand = []) :
    ∃ spot', Layout (w.addTask p f name t) a spot' ∧ Moves w spot (w.addTask p f name t) spot' ∧
      w.Steady (w.addTask p f name t) := by
  have hstored := h.storeTask name hf hstage
  have hsteady : w.Steady (if World.isShared name then { w with tasks := w.tasks.set name t }
      else w.modifyFrame f (·.addTask name t)) := by
    split <;> exact .of_workers rfl rfl rfl
  have hmoves : Moves w spot (if World.isShared name then { w with tasks := w.tasks.set name t }
      else w.modifyFrame f (·.addTask name t)) spot := by
    refine .of_frames (fun g => .refl _ _ _) fun g _ => ?_
    split
    · rfl
    · rw [World.frame_modifyFrame]
      split <;> rfl
  unfold World.addTask
  simp only
  cases hfind : w.findTask f name with
  | none =>
    rw [hfind] at hstored
    exact ⟨spot, hstored, hmoves, hsteady⟩
  | some old =>
    rw [hfind] at hstored
    obtain ⟨spot', hlayout, hdrops, -⟩ := hstored.dropTask p hspent hhand
    exact ⟨spot', hlayout, hmoves.trans h hdrops.toMoves, hsteady.trans hdrops.steady⟩

end Layout

end Substrate.Coro
