import Substrate.Proofs.Coro.Waits

/-!
# Threads and what they are in the middle of

The activities of a thread nest: the worker entered and the current frames of the
workers are what the stack of activities says.  `Orderly w t` states this, and
that no worker has a request or a frame to dispose of left over between two
steps.

* `Thread.around` is what a thread contributes to a layout: the frames it polls
  and the handles it runs to their end.
* `unwind_cases` is what a fault does on its way out of the activities.
-/

namespace Substrate.Coro

/-- The worker an activity belongs to. -/
def Activity.worker : Activity → WorkerId
  | .pump k _ _ | .poll k _ _ | .release k _ | .block k _ _ _ => k

/-- The frames that activities poll. -/
def polls (stack : List Activity) : List FrameId :=
  stack.filterMap fun
    | .poll _ f _ => some f
    | _ => none

/-- The handles that activities run to their end. -/
def blocked (stack : List Activity) : List Task :=
  stack.filterMap fun
    | .block _ task _ _ => some task
    | _ => none

/-- The frame a worker polls according to activities. -/
def currentOf (k : WorkerId) : List Activity → Option FrameId
  | [] => none
  | .poll k' f _ :: below => if k' = k then some f else currentOf k below
  | _ :: below => currentOf k below

/-- Activities nest under the worker that is entered. -/
def Nested : Option WorkerId → List Activity → Prop
  | entered, [] => entered = none
  | entered, .pump k outer _ :: below => entered = some k ∧ Nested outer below
  | entered, .block k _ outer _ :: below => entered = some k ∧ Nested outer below
  | entered, .release k _ :: below => entered = some k ∧ Nested (some k) below
  | entered, .poll k _ outer :: below =>
    entered = some k ∧ outer = currentOf k below ∧ Nested (some k) below

/-- The workers are as the activities of a thread say, and nothing is left over in them. -/
structure Orderly (w : World) (entered : Option WorkerId) (stack : List Activity) : Prop where
  nested : Nested entered stack
  current : ∀ k, (w.worker k).current = currentOf k stack
  idle : ∀ k, (w.worker k).suspension = none
  retired : ∀ k, (w.worker k).retired = []
  made : ∀ activity ∈ stack, activity.worker < w.workerCount
  named : ∀ name k, w.workerNames.get? name = some k → k < w.workerCount

/-- What a thread contributes to a layout. -/
def Thread.around (t : Thread) (taken : List FrameId) (returned : List (FrameId × Output)) :
    Around :=
  { thread := t.thread, polled := polls t.stack, handles := blocked t.stack, taken, returned }

theorem currentOf_eq_none {k : WorkerId} {stack : List Activity}
    (h : ∀ activity ∈ stack, activity.worker ≠ k) : currentOf k stack = none := by
  induction stack with
  | nil => rfl
  | cons activity below ih =>
    have hbelow := ih fun activity hmem => h activity (List.mem_cons_of_mem _ hmem)
    cases activity with
    | poll k' f outer =>
      have hne : k' ≠ k := h _ List.mem_cons_self
      rw [currentOf, if_neg hne]
      exact hbelow
    | _ => exact hbelow

namespace Orderly

variable {w w' : World} {entered : Option WorkerId} {stack : List Activity}

theorem of_steady (h : Orderly w entered stack) (hw : w.Steady w') : Orderly w' entered stack := by
  refine ⟨h.nested, fun k => ?_, fun k => ?_, fun k => ?_, ?_, ?_⟩
  · rw [hw.current]; exact h.current k
  · rw [hw.suspension]; exact h.idle k
  · rw [hw.retired]; exact h.retired k
  · rw [hw.workerCount]; exact h.made
  · rw [hw.workerNames, hw.workerCount]; exact h.named

/-- All activities have ended without a poll among them. -/
theorem unwound (h : Orderly w entered stack) (hw : w.Steady w')
    (hcurrent : ∀ k, currentOf k stack = none) : Orderly w' none [] := by
  have hsteady := h.of_steady hw
  refine ⟨rfl, fun k => ?_, hsteady.idle, hsteady.retired, nofun, hsteady.named⟩
  rw [hsteady.current, hcurrent]
  rfl

/-- The innermost poll has ended. -/
theorem endPoll {k : WorkerId} {f : FrameId} {outer : Option FrameId}
    (h : Orderly w (some k) (.poll k f outer :: stack))
    (hcurrent : ∀ k', (w'.worker k').current = if k' = k then outer else (w.worker k').current)
    (hidle : ∀ k', (w'.worker k').suspension = none) (hretired : ∀ k', (w'.worker k').retired = [])
    (hcount : w'.workerCount = w.workerCount) (hnames : w'.workerNames = w.workerNames) :
    Orderly w' (some k) stack := by
  obtain ⟨-, houter, hnested⟩ := h.nested
  refine ⟨hnested, fun k' => ?_, hidle, hretired, fun activity hmem => ?_, ?_⟩
  · rw [hcurrent]
    split
    · rename_i hk
      rw [hk]
      exact houter
    · rename_i hk
      rw [h.current, currentOf, if_neg (Ne.symm hk)]
  · rw [hcount]
    exact h.made activity (List.mem_cons_of_mem _ hmem)
  · rw [hnames, hcount]
    exact h.named

/-- A worker is about to release a token. -/
theorem release {k : WorkerId} (h : Orderly w (some k) stack) (hk : k < w.workerCount)
    (token : LockToken) : Orderly w (some k) (.release k token :: stack) := by
  refine ⟨⟨rfl, h.nested⟩, h.current, h.idle, h.retired, fun activity hmem => ?_, h.named⟩
  rcases List.mem_cons.mp hmem with rfl | hmem
  · exact hk
  · exact h.made activity hmem

/-- A fresh worker is idle. -/
theorem newWorker (h : Orderly w entered stack) (hook : ReleaseHook) :
    Orderly (w.newWorker hook).1 entered stack ∧
      (w.newWorker hook).2 < (w.newWorker hook).1.workerCount := by
  have hworker : ∀ k, (w.newWorker hook).1.worker k =
      if k = w.workerCount then { hook } else w.worker k := fun k => Table.get_set _ _ _ _
  have hlt : ∀ {k}, k < w.workerCount → k < w.workerCount + 1 := Nat.lt_succ_of_lt
  refine ⟨⟨h.nested, fun k => ?_, fun k => ?_, fun k => ?_, fun activity hmem => ?_,
    fun name k hk => ?_⟩, Nat.lt_succ_self _⟩
  · rw [hworker]
    split
    · rename_i hk
      rw [currentOf_eq_none]
      exact fun activity hmem => hk ▸ Nat.ne_of_lt (h.made activity hmem)
    · exact h.current k
  · rw [hworker]
    split
    · rfl
    · exact h.idle k
  · rw [hworker]
    split
    · rfl
    · exact h.retired k
  · exact hlt (h.made activity hmem)
  · exact hlt (h.named name k hk)

/-- A worker gets a name. -/
theorem nameWorker {k : WorkerId} (h : Orderly w entered stack) (hk : k < w.workerCount)
    (name : String) :
    Orderly { w with workerNames := w.workerNames.set name k } entered stack := by
  refine { h with named := fun name' k' hk' => ?_ }
  have hget := Registers.get?_set w.workerNames name name' k
  rw [show ({ w with workerNames := w.workerNames.set name k } : World).workerNames.get? name' = _
    from hget] at hk'
  split at hk'
  · cases hk'
    exact hk
  · exact h.named name' k' hk'

/-- A worker loses its name. -/
theorem unnameWorker (h : Orderly w entered stack) (name : String) :
    Orderly { w with workerNames := w.workerNames.erase name } entered stack := by
  refine { h with named := fun name' k' hk' => ?_ }
  have hget := Registers.get?_erase w.workerNames name name'
  rw [show ({ w with workerNames := w.workerNames.erase name } : World).workerNames.get? name' = _
    from hget] at hk'
  split at hk'
  · cases hk'
  · exact h.named name' k' hk'

/-- The worker of a name is one that was made. -/
theorem namedWorker (h : Orderly w entered stack) (name : String) :
    Orderly (w.namedWorker name).1 entered stack ∧
      (w.namedWorker name).2 < (w.namedWorker name).1.workerCount := by
  unfold World.namedWorker
  cases hget : w.workerNames.get? name with
  | some k => exact ⟨h, h.named name k hget⟩
  | none =>
    obtain ⟨hmade, hlt⟩ := h.newWorker .unlock
    exact ⟨hmade.nameWorker hlt name, hlt⟩

end Orderly

theorem World.newWorker_agrees (w : World) (hook : ReleaseHook) : w.Agrees (w.newWorker hook).1 :=
  ⟨fun _ => rfl, rfl, rfl, rfl, rfl, rfl⟩

theorem World.namedWorker_agrees (w : World) (name : String) : w.Agrees (w.namedWorker name).1 := by
  unfold World.namedWorker
  split <;> exact ⟨fun _ => rfl, rfl, rfl, rfl, rfl, rfl⟩

/-! ## Retired frames -/

/-- A worker with nothing to dispose of only counts. -/
theorem World.drainRetired_eq (w : World) (p : Place) {k : WorkerId}
    (hretired : (w.worker k).retired = []) :
    w.drainRetired p k = (w.modifyWorker k fun worker => { worker with retired := [] }).count k
      fun s => { s with destroyed := s.destroyed + 0 } := by
  unfold World.drainRetired
  simp only [hretired, List.foldl_nil, List.length_nil]

theorem World.drainRetired_agrees (w : World) (p : Place) {k : WorkerId}
    (hretired : (w.worker k).retired = []) : w.Agrees (w.drainRetired p k) := by
  rw [w.drainRetired_eq p hretired]
  exact ⟨fun _ => rfl, rfl, rfl, rfl, rfl, rfl⟩

theorem World.steady_drainRetired (w : World) (p : Place) {k : WorkerId}
    (hretired : (w.worker k).retired = []) : w.Steady (w.drainRetired p k) := by
  rw [w.drainRetired_eq p hretired]
  have hcleared : w.Steady (w.modifyWorker k fun worker => { worker with retired := [] }) := by
    refine ⟨fun k' => ?_, fun k' => ?_, fun k' => ?_, rfl, rfl⟩ <;> rw [World.worker_modifyWorker]
    · split <;> rfl
    · split <;> rfl
    · split
      · rename_i hk
        rw [hk, hretired]
      · rfl
  exact hcleared.trans (World.steady_count _ _ _)

theorem World.dropWorker_agrees (w : World) (p : Place) {k : WorkerId}
    (hretired : (w.worker k).retired = []) : w.Agrees (w.dropWorker p k) := by
  unfold World.dropWorker
  simp only
  have := w.drainRetired_agrees p hretired
  split
  · exact this
  · exact ⟨this.frame, this.frameCount, this.ends, this.runLists, this.tasks, this.slots⟩

theorem World.steady_dropWorker (w : World) (p : Place) {k : WorkerId}
    (hretired : (w.worker k).retired = []) : w.Steady (w.dropWorker p k) := by
  unfold World.dropWorker
  simp only
  have := w.steady_drainRetired p hretired
  split
  · exact this
  · exact this.trans (.of_workers rfl rfl rfl)

/-- A worker made for one task goes without a trace. -/
theorem World.dropTemporary (w : World) (p : Place) {k : WorkerId}
    (hretired : (w.worker k).retired = []) (temporary : Bool) :
    w.Agrees (if temporary then w.dropWorker p k else w) ∧
      w.Steady (if temporary then w.dropWorker p k else w) := by
  split
  · exact ⟨w.dropWorker_agrees p hretired, w.steady_dropWorker p hretired⟩
  · exact ⟨⟨fun _ => rfl, rfl, rfl, rfl, rfl, rfl⟩, .refl w⟩

/-! ## Faults -/

section Faults

variable {w : World} {a : Around} {spot : FrameId → Spot}

/-- How things stand when a body has raised and everything ends: what was in flight still is. -/
def Abandoned (spot : FrameId → Spot) (returned : List (FrameId × Output)) (w : World) : Prop :=
  ∃ a spot', Layout w a spot' ∧ (∀ g, (spot g).IsPending → (spot' g).IsPending) ∧
    a.returned = returned

/-- A body that raises lets go of what it holds. -/
theorem Layout.abandon (h : Layout w a spot) (p : Place) {f : FrameId} (hf : f ∈ a.polled)
    (hspent : a.spent = []) (hhand : a.hand = []) :
    Abandoned spot a.returned (w.dropTasks p (w.frame f).heldTasks) := by
  have hloose : Layout w { a with
      handles := (w.frame f).heldTasks ++ a.handles
      spent := (w.frame f).heldTasks } spot := by
    refine h.rehandle _ _ fun c b => ?_
    rw [hspent, List.count_append, List.count_nil]
    omega
  obtain ⟨spot', hlayout, hdrops, -⟩ :=
    Layout.dropTasks (a := { a with spent := (w.frame f).heldTasks }) p hloose
      (.inr ⟨f, hf, rfl⟩) hhand
  exact ⟨_, spot', hlayout, fun g => (hdrops.goes g).pending, rfl⟩

/-- A fault that leaves activities ends them all, or everything if a body is among them. -/
theorem unwind_cases (hspent : a.spent = []) (hhand : a.hand = []) (e : Fault) :
    ∀ (stack : List Activity) {w : World} {spot : FrameId → Spot} {t : Thread},
      Layout w { a with polled := polls stack, handles := blocked stack } spot →
      (∀ k, (w.worker k).retired = []) → Nested t.worker stack →
      (∃ w' spot', Thread.unwind w t e stack = (w', ⟨⟨t.thread, none⟩, []⟩, .failed e) ∧
        Layout w' { a with polled := [], handles := [] } spot' ∧ Moves w spot w' spot' ∧
        w.Steady w' ∧ ∀ k, currentOf k stack = none) ∨
      ∃ w' t' e', Thread.unwind w t e stack = (w', t', .aborted e') ∧
        Abandoned spot a.returned w' := by
  intro stack
  induction stack with
  | nil =>
    intro w spot t h _ hnested
    refine .inl ⟨w, spot, ?_, h, .refl w spot, .refl w, fun _ => rfl⟩
    have hworker : t.worker = none := hnested
    rw [Thread.unwind, ← hworker]
  | cons activity below ih =>
    intro w spot t h hretired hnested
    cases activity with
    | pump k outer count =>
      rw [Thread.unwind]
      exact ih (t := { t with worker := outer }) h hretired hnested.2
    | release k token =>
      rw [Thread.unwind]
      exact ih h hretired (hnested.1 ▸ hnested.2)
    | poll k f outer =>
      exact .inr ⟨_, _, _, rfl, h.abandon t.toPlace (f := f) List.mem_cons_self hspent hhand⟩
    | block k task outer temporary =>
      rw [Thread.unwind]
      simp only
      obtain ⟨spot₁, hlayout₁, hdrops, -⟩ := Layout.dropTask
        (a := { a with polled := polls below, handles := blocked below })
        ({ t with worker := outer } : Thread).toPlace h hspent hhand
      have hretired₁ : ∀ k, ((w.dropTask ({ t with worker := outer } : Thread).toPlace
          task).worker k).retired = [] := by
        intro k
        rw [hdrops.steady.retired]
        exact hretired k
      generalize w.dropTask ({ t with worker := outer } : Thread).toPlace task = w₁
        at hlayout₁ hdrops hretired₁ ⊢
      obtain ⟨hagrees, hsteady⟩ := w₁.dropTemporary
        ({ t with worker := outer } : Thread).toPlace (hretired₁ k) temporary
      generalize (if temporary then
        w₁.dropWorker ({ t with worker := outer } : Thread).toPlace k else w₁) =
        w₂ at hagrees hsteady ⊢
      have hmoves := hdrops.toMoves.of_agrees hagrees
      have hsteady₂ := hdrops.steady.trans hsteady
      rcases ih (t := { t with worker := outer }) (hlayout₁.of_agrees hagrees)
        (fun k => by rw [hsteady.retired]; exact hretired₁ k) hnested.2 with
        ⟨w', spot', hunwind, hlayout, hmoves', hsteady', hcurrent⟩ |
        ⟨w', t', e', hunwind, a', spot', hlayout, hpending, hreturned⟩
      · exact .inl ⟨w', spot', hunwind, hlayout, hmoves.trans h hmoves', hsteady₂.trans hsteady',
          hcurrent⟩
      · exact .inr ⟨w', t', e', hunwind, a', spot', hlayout,
          fun g hg => hpending g ((hmoves.goes g).pending hg), hreturned⟩

end Faults

end Substrate.Coro
