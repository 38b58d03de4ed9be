import Substrate.Proofs.Coro.Polls
import Substrate.Proofs.Coro.Statements

/-!
# Steps of a thread

One step of a thread leaves things settled again, or ends everything.

* `beginBlock_outcome`, `runBody_outcome` and the like are about one kind of
  activity each.
* `step_outcome` is about every step of a thread whose bodies wait for one thing
  at a time and schedule only what was taken out of a slot.
-/

namespace Substrate.Coro

/-- The statement a thread runs next. -/
def Thread.nextStmt (t : Thread) (w : World) : Option Stmt :=
  t.polling.bind fun f => if (w.frame f).wait.isNone then (w.frame f).code.head? else none

namespace Thread

/-- What the body of frame `f` does next. -/
def advance (w : World) (p : Place) (f : FrameId) : World × World.Move :=
  match (w.frame f).wait, (w.frame f).code with
  | some wait, _ => w.askWait p f wait
  | none, s :: code => (w.modifyFrame f fun frame => { frame with code }).exec p f s
  | none, [] => (w, .finish)

/-- What becomes of the frame of a body after a move, in a world where the move was made. -/
def follow (w : World) (t : Thread) (k : WorkerId) (f : FrameId) (outer : Option FrameId)
    (after : World) : World.Move → World × Thread × Progress
  | .next => (after, { t with stack := .poll k f outer :: t.stack }, .running)
  | .pump k' => (after, { t with stack := .poll k f outer :: t.stack }.beginPump k', .running)
  | .block k' task temporary =>
    beginBlock after { t with stack := .poll k f outer :: t.stack } k' task temporary
  | .raise message => abort after { t with stack := .poll k f outer :: t.stack } f message
  | .stuck => (w, { t with stack := .poll k f outer :: t.stack }, .stuck)
  | .suspend => suspend after t k f outer
  | .finish => dispose (finish after t.toPlace k f outer) t k f

theorem runBody_eq (w : World) (t : Thread) (k : WorkerId) (f : FrameId) (outer : Option FrameId) :
    runBody w t k f outer =
      follow w t k f outer (advance w t.toPlace f).1 (advance w t.toPlace f).2 := by
  cases hwait : (w.frame f).wait with
  | some wait =>
    simp only [runBody, advance, hwait]
    generalize w.askWait t.toPlace f wait = r
    obtain ⟨after, move⟩ := r
    cases move <;> rfl
  | none =>
    cases hcode : (w.frame f).code with
    | nil =>
      simp only [runBody, advance, hwait, hcode]
      rfl
    | cons s code =>
      simp only [runBody, advance, hwait, hcode]
      generalize World.exec _ _ _ _ = r
      obtain ⟨after, move⟩ := r
      cases move <;> rfl

end Thread

variable {w₀ w : World} {t₀ t : Thread} {taken : List FrameId} {returned : List (FrameId × Output)}
  {spot₀ spot : FrameId → Spot} {k : WorkerId} {f : FrameId}

/-- A step that is not about a return and in which frames go where they can. -/
theorem Outcome.of_moves {progress : Progress} (hprogress : progress.isAborted = false)
    (hyields : t₀.yields w₀ = []) (hmoves : Moves w₀ spot₀ w spot)
    (h : Settled w t taken returned spot) :
    Outcome w₀ t₀ taken returned spot₀ (w, t, progress) := by
  refine .settled hprogress ?_ fun g => .goes (hmoves.goes g)
  rw [hyields]
  exact h

/-- A fault leaves the activities of a thread. -/
theorem unwind_outcome {a : Around} (hlayout₀ : Layout w₀ a spot₀) (hyields : t₀.yields w₀ = [])
    (hmoves : Moves w₀ spot₀ w spot) (e : Fault) {stack : List Activity}
    (hlayout : Layout w { t.around taken returned with
      polled := polls stack
      handles := blocked stack } spot)
    (horderly : Orderly w t.worker stack) :
    Outcome w₀ t₀ taken returned spot₀ (Thread.unwind w t e stack) := by
  rcases unwind_cases (a := t.around taken returned) rfl rfl e stack hlayout horderly.retired
    horderly.nested with ⟨w', spot', hunwind, hlayout', hmoves', hsteady, hcurrent⟩ |
      ⟨w', t', e', hunwind, a', spot', hlayout', hpending, hreturned⟩
  · rw [hunwind]
    exact .of_moves rfl hyields (hmoves.trans hlayout₀ hmoves')
      ⟨hlayout', horderly.unwound hsteady hcurrent⟩
  · rw [hunwind]
    exact .aborted hyields
      ⟨a', spot', hlayout', fun g hg => hpending g ((hmoves.goes g).pending hg),
      hreturned⟩

/-- A body raises. -/
theorem abort_outcome (hyields : t₀.yields w₀ = [])
    (hpending : ∀ g, (spot₀ g).IsPending → (spot g).IsPending)
    (hlayout : Layout w (t.around taken returned) spot) (hf : f ∈ polls t.stack)
    (message : String) :
    Outcome w₀ t₀ taken returned spot₀ (Thread.abort w t f message) := by
  obtain ⟨a', spot', hlayout', hpending', hreturned⟩ := hlayout.abandon t.toPlace hf rfl rfl
  exact .aborted hyields ⟨a', spot', hlayout', fun g hg => hpending' g (hpending g hg), hreturned⟩

/-! ## Activities that begin -/

theorem Orderly.beginPump (horderly : Orderly w t.worker t.stack) (hk : k < w.workerCount) :
    Orderly w (t.beginPump k).worker (t.beginPump k).stack :=
  ⟨⟨rfl, horderly.nested⟩, horderly.current, horderly.idle, horderly.retired,
    List.forall_mem_cons.mpr ⟨hk, horderly.made⟩, horderly.named⟩

theorem Orderly.beginBlock (horderly : Orderly w t.worker t.stack) (hk : k < w.workerCount)
    (task : Task) (temporary : Bool) :
    Orderly w (some k) (.block k task t.worker temporary :: t.stack) :=
  ⟨⟨rfl, horderly.nested⟩, horderly.current, horderly.idle, horderly.retired,
    List.forall_mem_cons.mpr ⟨hk, horderly.made⟩, horderly.named⟩

/-- A thread starts to run a task to its end. -/
theorem beginBlock_outcome {a : Around} (hlayout₀ : Layout w₀ a spot₀) (hyields : t₀.yields w₀ = [])
    (hmoves : Moves w₀ spot₀ w spot) {task : Task}
    (hlayout : Layout w { t.around taken returned with handles := task :: blocked t.stack } spot)
    (horderly : Orderly w t.worker t.stack) (hk : k < w.workerCount) (temporary : Bool) :
    Outcome w₀ t₀ taken returned spot₀ (Thread.beginBlock w t k task temporary) := by
  unfold Thread.beginBlock
  have hmem : task ∈ w.held ++ task :: blocked t.stack :=
    List.mem_append_right _ List.mem_cons_self
  rcases hlayout.startTask (p := { t.toPlace with worker := some k }) rfl k hmem rfl with
    ⟨-, hstart⟩ | ⟨w₁, task', spot₁, hstart, hlayout₁, hmoves₁, hsteady, -, -⟩
  · simp only [hstart]
    exact unwind_outcome (t := { t with worker := some k }) hlayout₀ hyields hmoves _ hlayout
      (horderly.beginBlock hk task temporary)
  · simp only [hstart]
    have hstarted : Layout w₁ { t.around taken returned with handles := task' :: blocked t.stack }
        spot₁ := by
      refine hlayout₁.rehandle (task' :: blocked t.stack) [] fun c b => ?_
      simp only [List.count_cons, List.count_nil]
      omega
    have horderly₁ :=
      (horderly.of_steady hsteady).beginBlock (by rw [hsteady.workerCount]; exact hk)
      task' temporary
    refine .of_moves rfl hyields (hmoves.trans hlayout₀ hmoves₁) ⟨hstarted, ?_⟩
    exact Orderly.beginPump
      (t := { t with worker := some k, stack := .block k task' t.worker temporary :: t.stack })
      horderly₁ (by rw [hsteady.workerCount]; exact hk)

/-! ## Activities that end -/

/-- The result of an activity goes to the one around it. -/
theorem giveResult_outcome (hyields : t₀.yields w₀ = [])
    (hmoves : Moves w₀ spot₀ w spot) (h : Settled w t taken returned spot) (r : Result) :
    Outcome w₀ t₀ taken returned spot₀ (Thread.giveResult w t r) := by
  unfold Thread.giveResult
  split
  · exact .of_moves rfl hyields hmoves h
  · have hsaid : ∀ text, Settled (w.say t.toPlace text) t taken returned spot := fun text =>
      ⟨h.layout.of_agrees ⟨fun _ => rfl, rfl, rfl, rfl, rfl, rfl⟩,
        h.orderly.of_steady (.of_workers rfl rfl rfl)⟩
    have hmoves' : ∀ text, Moves w₀ spot₀ (w.say t.toPlace text) spot :=
      fun text => hmoves.of_disposal fun _ => rfl
    exact .of_moves rfl hyields (hmoves' _) (hsaid _)
  · rename_i k f outer below o hstack
    have hf : f ∈ polls t.stack := by
      rw [hstack]
      exact List.mem_cons_self
    obtain ⟨hpending, hstage⟩ := h.layout.pending_of_polled hf
    have hused : Settled (w.useOutput t.toPlace f o) t taken returned spot :=
      ⟨h.layout.useOutput t.toPlace o hpending hstage,
        h.orderly.of_steady (w.steady_useOutput t.toPlace f o)⟩
    exact .of_moves rfl hyields (Layout.moves_useOutput hmoves t.toPlace f o) hused
  · exact .of_moves rfl hyields hmoves h

/-- A worker has released a token. -/
theorem release_outcome {below : List Activity} {token : LockToken}
    (h : Settled w { t with stack := .release k token :: below } taken returned spot) :
    Outcome w { t with stack := .release k token :: below } taken returned spot
      ((w.release t.toPlace (w.worker k).hook token).drainRetired t.toPlace k,
        { t with stack := below }, .running) := by
  have hnested := h.orderly.nested
  have horderly : Orderly w t.worker below := by
    refine ⟨hnested.1 ▸ hnested.2, h.orderly.current, h.orderly.idle, h.orderly.retired,
      fun activity hmem => h.orderly.made activity (List.mem_cons_of_mem _ hmem), h.orderly.named⟩
  have hreleased : w.Agrees (w.release t.toPlace (w.worker k).hook token) ∧
      w.Steady (w.release t.toPlace (w.worker k).hook token) := by
    unfold World.release
    split
    · exact ⟨⟨fun _ => rfl, rfl, rfl, rfl, rfl, rfl⟩, .of_workers rfl rfl rfl⟩
    · exact ⟨⟨fun _ => rfl, rfl, rfl, rfl, rfl, rfl⟩, .of_workers rfl rfl rfl⟩
    · exact ⟨⟨fun _ => rfl, rfl, rfl, rfl, rfl, rfl⟩, .refl w⟩
  obtain ⟨hagrees, hsteady⟩ := hreleased
  have hsettled : Settled (w.release t.toPlace (w.worker k).hook token) { t with stack := below }
      taken returned spot := ⟨h.layout.of_agrees hagrees, horderly.of_steady hsteady⟩
  have hdrained := hsettled.drain t.toPlace k
  refine .of_moves rfl rfl (.of_frames (fun _ => .refl _ _ _) fun g _ => ?_) hdrained
  rw [(World.drainRetired_agrees _ _ (hsettled.orderly.retired k)).frame, hagrees.frame]

/-- A task was run to its end, or nothing is left that could bring it there. -/
theorem block_outcome {below : List Activity} {task : Task} {outer : Option WorkerId}
    {temporary : Bool}
    (h : Settled w { t with stack := .block k task outer temporary :: below } taken returned spot) :
    Outcome w { t with stack := .block k task outer temporary :: below } taken returned spot
      (Thread.step w { t with stack := .block k task outer temporary :: below }) := by
  have hlayout : Layout w { ({ t with stack := below } : Thread).around taken returned with
      handles := task :: blocked below } spot := h.layout
  have hmem : task ∈ w.held ++ task :: blocked below :=
    List.mem_append_right _ List.mem_cons_self
  -- a task whose frame has not returned never will
  have hstalled : (∀ c, task.frame = some c → (w.frame c).isComplete = false) →
      Outcome w { t with stack := .block k task outer temporary :: below } taken returned spot
        (Thread.step w { t with stack := .block k task outer temporary :: below }) := by
    intro hnot
    unfold Thread.step
    simp only [Layout.takeOutput_none hnot]
    exact unwind_outcome (t := { t with stack := .block k task outer temporary :: below }) h.layout
      rfl
      (.refl w spot) _ h.layout h.orderly
  obtain ⟨frame, b⟩ := task
  cases frame with
  | none => exact hstalled nofun
  | some c =>
    by_cases hc : spot c = .complete
    · obtain ⟨w₁, htake, hlayout₁, hdrops, -, -⟩ := hlayout.takeOutput t.toPlace hc hmem rfl rfl
      unfold Thread.step
      simp only [htake]
      have hfreed : Layout w₁ (({ t with stack := below } : Thread).around taken returned)
          (put spot c .absent) := by
        refine hlayout₁.rehandle (blocked below) [] fun c' b' => ?_
        simp only [List.count_cons, List.count_nil]
        omega
      have hnested := h.orderly.nested
      have horderly₁ : Orderly w₁ outer below := by
        have := h.orderly.of_steady hdrops.steady
        exact ⟨hnested.2, this.current, this.idle, this.retired,
          fun activity hmem => this.made activity (List.mem_cons_of_mem _ hmem), this.named⟩
      obtain ⟨hagrees, hsteady⟩ := w₁.dropTemporary
        ({ t with worker := outer, stack := below } : Thread).toPlace
        (horderly₁.retired k) temporary
      have hsettled : Settled _ { t with worker := outer, stack := below } taken returned
          (put spot c .absent) := ⟨hfreed.of_agrees hagrees, horderly₁.of_steady hsteady⟩
      refine giveResult_outcome ?_ (hdrops.toMoves.of_agrees hagrees) hsettled _
      rfl
    · refine hstalled fun c' hc' => ?_
      cases hc'
      rw [Bool.eq_false_iff]
      exact fun hcomplete => hc ((hlayout.isComplete_iff rfl (hlayout.ne_absent_of_mem hmem rfl)).mp
        hcomplete)

/-! ## Pumping -/

/-- A worker starts to poll a frame that it took from its lists. -/
theorem Layout.beginPoll {a : Around} (h : Layout w { a with hand := f :: a.hand } spot)
    (hf : spot f = .hand none) {q : Nat} (hfits : Fits (w.frame f) (.listed q)) (k : WorkerId) :
    Layout (w.modifyFrame f fun frame => { frame with stage := .running, runner := some k })
      { a with polled := f :: a.polled } (put spot f .polled) := by
  have hnot : (w.frame f).stage ≠ .complete := by
    rcases hfits.stage with e | e <;> (rw [e]; nofun)
  have hrunning : Fits { w.frame f with stage := .running, runner := some k } .polled :=
    ⟨hfits.alive.trans ⟨nofun, nofun⟩, rfl, nofun, nofun, hfits.keeps, fun _ => hfits.output id,
      fun _ _ => hfits.retired nofun id, hfits.solitary, hfits.names⟩
  have hrecorded : Layout (w.modifyFrame f fun frame =>
      { frame with stage := .running, runner := some k }) { a with hand := f :: a.hand } spot := by
    refine h.modifyFrame (by rw [hf]; nofun) rfl rfl rfl (fun g o => ?_) ?_ fun c b => rfl
    · split
      · rename_i hg
        rw [hg, h.returned]
        exact ⟨fun hr => absurd hr.2.1 hnot, fun hr => (nomatch hr.1)⟩
      · rfl
    · rw [hf]
      exact hrunning.move (.inr trivial) id trivial trivial
  refine hrecorded.poll hf ?_
  rw [World.frame_modifyFrame, if_pos rfl]
  exact hrunning

theorem Orderly.beginPoll {stack : List Activity} (h : Orderly w (some k) stack) (t : Thread)
    (f : FrameId) (hk : k < w.workerCount) :
    Orderly (Thread.beginPoll w t k f).1 (some k) (.poll k f (w.worker k).current :: stack) := by
  have hworker : ∀ k', (Thread.beginPoll w t k f).1.worker k' =
      if k' = k then { w.worker k' with current := some f } else w.worker k' := by
    intro k'
    rw [Thread.beginPoll, World.worker_modifyWorker]
    rfl
  refine ⟨⟨rfl, h.current k, h.nested⟩, fun k' => ?_, fun k' => ?_, fun k' => ?_,
    fun activity hmem => ?_, h.named⟩
  · rw [hworker, currentOf]
    by_cases hk' : k' = k
    · rw [if_pos hk', if_pos hk'.symm]
    · rw [if_neg hk', if_neg (Ne.symm hk')]
      exact h.current k'
  · rw [hworker]
    split <;> exact h.idle k'
  · rw [hworker]
    split <;> exact h.retired k'
  · rcases List.mem_cons.mp hmem with rfl | hmem
    · exact hk
    · exact h.made activity hmem

/-- A worker resumes the next frame of its lists, or it has none left. -/
theorem pump_outcome {below : List Activity} {outer : Option WorkerId} {count : Nat}
    (h : Settled w { t with stack := .pump k outer count :: below } taken returned spot) :
    Outcome w { t with stack := .pump k outer count :: below } taken returned spot
      (Thread.step w { t with stack := .pump k outer count :: below }) := by
  have hnested := h.orderly.nested
  have hmade : k < w.workerCount := h.orderly.made _ List.mem_cons_self
  unfold Thread.step
  cases hnext : w.nextFrame k with
  | none =>
    simp only [hnext]
    have hsettled : Settled w { t with worker := outer, stack := below } taken returned spot := by
      refine ⟨h.layout, hnested.2, h.orderly.current, h.orderly.idle, h.orderly.retired,
        fun activity hmem => h.orderly.made activity (List.mem_cons_of_mem _ hmem), h.orderly.named⟩
    refine giveResult_outcome ?_ (.refl w spot) hsettled _
    rfl
  | some next =>
    obtain ⟨f, w₁⟩ := next
    obtain ⟨spot₁, hlayout₁, ⟨q, hq⟩, ⟨runLists, hw₁⟩, hspots⟩ := h.layout.nextFrame hnext
    have hframe : ∀ g, w₁.frame g = w.frame g := fun g => by rw [hw₁]; rfl
    have hsteady : w.Steady w₁ := by rw [hw₁]; exact .of_workers rfl rfl rfl
    have hfits := h.layout.frames f
    rw [hq] at hfits
    have hcond : ((w₁.frame f).alive && !(w₁.frame f).isComplete) = true := by
      rw [hframe, hfits.alive.mpr (by rintro ⟨⟩), Frame.isComplete]
      rcases hfits.stage with e | e <;> (rw [e]; rfl)
    simp only [hnext, hcond, if_true]
    have hpolled :=
      Layout.beginPoll (a := ({ t with stack := below } : Thread).around taken returned)
      hlayout₁ (put_self _ _ _) (by rw [hframe]; exact hfits) k
    rw [put_put] at hpolled
    have hpumping : Orderly w₁ (some k) (.pump k outer (count + 1) :: below) := by
      have := h.orderly.of_steady hsteady
      refine ⟨⟨rfl, hnested.2⟩, this.current, this.idle, this.retired,
        fun activity hmem => ?_, this.named⟩
      rcases List.mem_cons.mp hmem with rfl | hmem
      · exact hsteady.workerCount ▸ hmade
      · exact this.made activity (List.mem_cons_of_mem _ hmem)
    have hsettled :
        Settled (Thread.beginPoll w₁ { t with stack := .pump k outer (count + 1) :: below }
        k f).1 (Thread.beginPoll w₁ { t with stack := .pump k outer (count + 1) :: below } k f).2
        taken returned (put spot₁ f .polled) := by
      refine ⟨hpolled.of_agrees ⟨fun _ => rfl, rfl, rfl, rfl, rfl, rfl⟩, ?_⟩
      have hentered : t.worker = some k := hnested.1
      show Orderly _ t.worker _
      rw [hentered]
      exact hpumping.beginPoll _ f (hsteady.workerCount ▸ hmade)
    refine .of_moves rfl rfl (.of_frames (fun g => ?_) fun g _ => ?_) hsettled
    · by_cases hg : g = f
      · rw [hg, put_self, hq]
        exact .of_active _ _ id trivial rfl (by rintro ⟨⟩)
      · rw [put_of_ne _ _ hg]
        rcases hspots with rfl | rfl
        · exact .refl _ _ _
        · unfold Layout.refilled
          split
          · rename_i hlisted
            rw [hlisted]
            exact .of_active _ _ id trivial rfl (by rintro ⟨⟩)
          · exact .refl _ _ _
    · show ((World.modifyFrame _ f _).frame g).disposal = _
      rw [World.frame_modifyFrame, ← hframe g]
      split <;> rfl

/-! ## Bodies -/

/-- The body of a frame runs for one step. -/
theorem runBody_outcome {below : List Activity} {outer : Option FrameId}
    (h : Settled w { t with stack := .poll k f outer :: below } taken returned spot)
    (hstmt : ∀ s ∈ ({ t with stack := .poll k f outer :: below } : Thread).nextStmt w,
      s.waitsAlone = true ∧ s.schedulesSelf = false) :
    Outcome w { t with stack := .poll k f outer :: below } taken returned spot
      (Thread.runBody w { t with stack := below } k f outer) := by
  have hlayout : Layout w { ({ t with stack := below } : Thread).around taken returned with
      polled := f :: polls below } spot := h.layout
  have hpolled : spot f = .polled := (hlayout.polled f).mp List.mem_cons_self
  have hentered : t.worker = some k := h.orderly.nested.1
  have horderly : Orderly w (some k) (.poll k f outer :: below) := hentered ▸ h.orderly
  have hf : f ∈ polls (.poll k f outer :: below) := List.mem_cons_self
  cases hwait : (w.frame f).wait with
  | some wait =>
    have hyields : ({ t with stack := .poll k f outer :: below } : Thread).yields w = [] := by
      simp [Thread.yields, Thread.returning, Thread.polling, hwait]
    have hcurrent : (w.worker k).current = some f := by
      rw [horderly.current, currentOf, if_pos rfl]
    have hasks := Layout.askWait (a := ({ t with stack := below } : Thread).around taken returned)
      hlayout rfl rfl hentered hcurrent (horderly.idle k) hwait
    simp only [Thread.runBody, hwait]
    generalize w.askWait t.toPlace f wait = r at hasks ⊢
    cases hasks with
    | next hlayout' hmoves hsteady =>
      exact .of_moves rfl hyields hmoves ⟨hlayout', h.orderly.of_steady hsteady⟩
    | suspend hlayout' hasking =>
      exact suspend_outcome (t := { t with stack := below }) hentered horderly
        hlayout' hasking hpolled
        hyields
    | raise hlayout' =>
      exact abort_outcome (t := { t with stack := .poll k f outer :: below }) hyields (fun _ => id)
        hlayout' hf _
  | none =>
    cases hcode : (w.frame f).code with
    | nil =>
      simp only [Thread.runBody, hwait, hcode]
      exact dispose_outcome (t := { t with stack := below }) hentered horderly hlayout hwait hcode
    | cons s code =>
      have hyields : ({ t with stack := .poll k f outer :: below } : Thread).yields w = [] := by
        simp [Thread.yields, Thread.returning, Thread.polling, hcode]
      obtain ⟨halone, hself⟩ := hstmt s (by simp [Thread.nextStmt, Thread.polling, hwait, hcode])
      have hadvanced : Executes w spot (({ t with stack := below } : Thread).around taken returned)
          f t.worker (.poll k f outer :: below)
          (w.modifyFrame f fun frame => { frame with code }, .next) :=
        exec_body hlayout h.orderly ⟨_, _, _, rfl⟩
      simp only [Thread.runBody, hwait, hcode]
      cases hadvanced with
      | next h₁ =>
        have hexec :=
          Executes.after hlayout h₁.moves (h₁.layout.exec (p := t.toPlace) h₁.orderly rfl rfl
          rfl (by rw [World.frame_modifyFrame, if_pos rfl]; exact hwait) s halone hself)
        generalize World.exec _ t.toPlace f s = r at hexec ⊢
        cases hexec with
        | next h' => exact .of_moves rfl hyields h'.moves ⟨h'.layout, h'.orderly⟩
        | raise h' =>
          exact abort_outcome (t := { t with stack := .poll k f outer :: below }) hyields
            (fun g => (h'.moves.goes g).pending) h'.layout hf _
        | pump h' hk' =>
          exact .of_moves rfl hyields h'.moves ⟨h'.layout,
            Orderly.beginPump (t := { t with stack := .poll k f outer :: below }) h'.orderly hk'⟩
        | block h' hk' =>
          exact beginBlock_outcome (t := { t with stack := .poll k f outer :: below }) hlayout
            hyields h'.moves h'.layout h'.orderly hk' _
        | stuck => exact .of_moves rfl hyields (.refl w spot) h

/-- One step of a thread. -/
theorem step_outcome (h : Settled w t taken returned spot)
    (hstmt : ∀ s ∈ t.nextStmt w, s.waitsAlone = true ∧ s.schedulesSelf = false) :
    Outcome w t taken returned spot (t.step w) := by
  obtain ⟨p, stack⟩ := t
  cases stack with
  | nil => exact .of_moves rfl rfl (.refl w spot) h
  | cons activity below =>
    cases activity with
    | pump k outer count => exact pump_outcome (t := ⟨p, []⟩) h
    | poll k f outer => exact runBody_outcome (t := ⟨p, []⟩) h hstmt
    | release k token => exact release_outcome (t := ⟨p, []⟩) h
    | block k task outer temporary => exact block_outcome (t := ⟨p, []⟩) h

end Substrate.Coro
