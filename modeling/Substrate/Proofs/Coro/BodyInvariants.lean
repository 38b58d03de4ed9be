import Substrate.Proofs.Coro.StatementEffects

/-!
# What bodies keep

Whatever a body does is made of a few kinds of changes to the world.  A property
that all of these keep is kept by every wait and every statement, and that is
proved here once: a property needs one fact for each kind of change.

* `Handling` and `Walk` list the kinds of changes, with what code knows when it makes
  them: under which names it finds handles, on which frames those are, and whether
  it makes or drops any.
* `Walk.askWait` is about asking for what a body waits for, `Walk.exec` about a
  statement.
* `World.ask_leaves` and the lemmas after it tell which handles are left to wait for.
-/

namespace Substrate.Coro

/-- A handle is on a frame of `G`, if it is on any. -/
def Task.On (t : Task) (G : FrameId → Prop) : Prop := ∀ c, t.frame = some c → G c

theorem Task.On.mono {t : Task} {G G' : FrameId → Prop} (h : t.On G) (hsub : ∀ {c}, G c → G' c) :
    t.On G' := fun c hc => hsub (h c hc)

namespace World

variable {w w' : World} {p : Place} {f : FrameId}

theorem schedule_ok {k : WorkerId} (h : w.schedule p k f = .ok w') :
    w' = w.enqueue k f ∧ (w.frame f).stage ≠ .complete := by
  unfold schedule at h
  split at h
  · cases h
  · split at h
    · cases h
    · rename_i hcomplete
      cases h
      exact ⟨rfl, by simpa [Frame.isComplete] using hcomplete⟩

/-- A task that is started stays on its frame. -/
theorem startTask_frame (w : World) (p : Place) (k : WorkerId) (t : Task) :
    (w.startTask p k t).1.frame = t.frame := by
  unfold startTask
  split
  · rfl
  · split <;> rfl

/-- A start that succeeds enqueues the frame, unless the task had been started. -/
theorem startTask_ok {k : WorkerId} {t t' : Task} (h : w.startTask p k t = (t', .ok w')) :
    ∃ g, t.frame = some g ∧ t' = ⟨some g, true⟩ ∧ (w' = w ∨ w' = w.enqueue k g) := by
  unfold startTask at h
  split at h
  · cases h
  · rename_i g hframe
    refine ⟨g, hframe, ?_⟩
    split at h
    · rename_i hstarted
      cases h
      exact ⟨by rw [← hframe, ← hstarted], .inl rfl⟩
    · obtain ⟨rfl, hscheduled⟩ := Prod.mk.inj h
      exact ⟨by rw [hframe], .inr (schedule_ok hscheduled).1⟩

theorem takeOutput_frame (w : World) (p : Place) (t : Task) {c : FrameId}
    (hc : (w.takeOutput p t).2.1.frame = some c) : t.frame = some c := by
  unfold takeOutput at hc
  split at hc
  · exact hc
  · simp only at hc
    split at hc
    · cases hc
    · exact hc

/-- A handle that is polled stays on its frame, or it loses it. -/
theorem pollTask_frame (w : World) (p : Place) (t : Task) {c : FrameId}
    (hc : (w.pollTask p t).2.1.frame = some c) : t.frame = some c := by
  unfold pollTask at hc
  split at hc
  · exact hc
  · split at hc
    · have htaken : ∀ {c}, (w.takeOutput p t).2.1.frame = some c → t.frame = some c :=
        w.takeOutput_frame p t
      generalize w.takeOutput p t = r at hc htaken
      obtain ⟨w₁, t', output⟩ := r
      cases output <;> exact htaken hc
    · split at hc
      · exact hc
      · simp only at hc
        split at hc <;> exact hc

section Pending

variable {Q : Task → Prop} (hQ : ∀ (w : World) t, Q t → Q (w.pollTask p t).2.1)
include hQ

/-- What is left to ask for is a task without a name only if it was asked for. -/
theorem ask_leaves {future : Future} (h : ∀ t, future = .child t → Q t) {left : Future}
    (hleft : (w.ask p f future).2 = .pending left) : ∀ t, left = .child t → Q t := by
  rintro t rfl
  unfold ask at hleft
  split at hleft
  · cases hleft
  · split at hleft <;> cases hleft
  · split at hleft
    · cases hleft
    · split at hleft <;> cases hleft
  · rename_i t'
    have hpolled := hQ w t' (h t' rfl)
    generalize w.pollTask p t' = r at hleft hpolled
    obtain ⟨w₁, t'', polled⟩ := r
    cases polled <;> cases hleft
    exact hpolled
  · cases hleft
  · split at hleft <;> cases hleft
  · cases hleft
  · split at hleft
    · cases hleft
    · split at hleft <;> cases hleft
  · cases hleft

theorem askAll_leaves {futures : List Future} : ∀ {w : World} {left : List Future},
    (∀ t, .child t ∈ futures → Q t) → (w.askAll p f futures).2 = .ok left →
      ∀ t, .child t ∈ left → Q t := by
  induction futures with
  | nil =>
    intro w left _ hask
    cases hask
    exact fun _ ht => absurd ht List.not_mem_nil
  | cons first rest ih =>
    intro w left h hask
    have hrest : ∀ t, .child t ∈ rest → Q t := fun t ht => h t (List.mem_cons_of_mem _ ht)
    have hfirst : ∀ {left}, (w.ask p f first).2 = .pending left → ∀ t, left = .child t → Q t :=
      ask_leaves hQ fun t e => h t (e ▸ List.mem_cons_self)
    simp only [askAll] at hask
    generalize w.ask p f first = r at hask hfirst
    obtain ⟨w₁, asked⟩ := r
    cases asked with
    | ready => exact ih hrest hask
    | pending future =>
      simp only at hask
      cases hresult : (w₁.askAll p f rest).2 with
      | error e =>
        rw [hresult] at hask
        cases hask
      | ok others =>
        rw [hresult] at hask
        cases hask
        intro t ht
        rcases List.mem_cons.mp ht with e | ht
        · exact hfirst rfl t e.symm
        · exact ih hrest hresult t ht
    | fault e => cases hask

theorem askAny_leaves {futures : List Future} : ∀ {w : World} {i : Nat} {left : List Future},
    (∀ t, .child t ∈ futures → Q t) → (w.askAny p f i futures).2 = .ok (.inr left) →
      ∀ t, .child t ∈ left → Q t := by
  induction futures with
  | nil =>
    intro w i left _ hask
    cases hask
    exact fun _ ht => absurd ht List.not_mem_nil
  | cons first rest ih =>
    intro w i left h hask
    have hrest : ∀ t, .child t ∈ rest → Q t := fun t ht => h t (List.mem_cons_of_mem _ ht)
    have hfirst : ∀ {left}, (w.ask p f first).2 = .pending left → ∀ t, left = .child t → Q t :=
      ask_leaves hQ fun t e => h t (e ▸ List.mem_cons_self)
    simp only [askAny] at hask
    generalize w.ask p f first = r at hask hfirst
    obtain ⟨w₁, asked⟩ := r
    cases asked with
    | ready => cases hask
    | pending future =>
      simp only at hask
      cases hresult : (w₁.askAny p f (i + 1) rest).2 with
      | error e =>
        rw [hresult] at hask
        cases hask
      | ok result =>
        rw [hresult] at hask
        cases result with
        | inl j => cases hask
        | inr others =>
          cases hask
          intro t ht
          rcases List.mem_cons.mp ht with e | ht
          · exact hfirst rfl t e.symm
          · exact ih hrest hresult t ht
    | fault e => cases hask

end Pending

/-! ## The number of frames -/

theorem namedWorker_frameCount (w : World) (name : String) :
    (w.namedWorker name).1.frameCount = w.frameCount := by
  unfold namedWorker
  split <;> rfl

theorem letGo_frameCount (w : World) (p : Place) (t : Task) :
    (w.letGo p t).1.frameCount = w.frameCount := by
  unfold letGo
  split
  · rfl
  · rename_i f _
    obtain ⟨log, hended⟩ := Layout.endFrame_eq w p f .dropped
    simp only [hended]
    split
    · split
      · exact (noteDestroyed_agrees _ p _).frameCount
      · rfl
    · rfl

theorem dropTasks_frameCount (w : World) (p : Place) (ts : List Task) :
    (w.dropTasks p ts).frameCount = w.frameCount :=
  dropTasks_keeps (P := fun w' => w'.frameCount = w.frameCount) p
    (fun w' t h => (letGo_frameCount w' p t).trans h) ts rfl

theorem addTask_frameCount (w : World) (p : Place) (f : FrameId) (name : String) (t : Task) :
    (w.addTask p f name t).frameCount = w.frameCount := by
  have hstored : (if isShared name then { w with tasks := w.tasks.set name t }
      else w.modifyFrame f (·.addTask name t)).frameCount = w.frameCount := by
    split <;> rfl
  unfold addTask
  simp only
  split
  · exact (dropTasks_frameCount _ p _).trans hstored
  · exact hstored

theorem spawnDetached_frameCount (w : World) (p : Place) (k : WorkerId)
    (body : String) (arg : Int) :
    (w.spawnDetached p k body arg).frameCount = w.frameCount + 1 :=
  enqueue_frameCount _ k _

/-! ## Changes -/

/-- A worker that code can get hold of: one that it has entered, or one with a name. -/
def Knows (w : World) (crew : WorkerId → Prop) (k : WorkerId) : Prop :=
  crew k ∨ ∃ name, w.workerNames.get? name = some k

theorem knows_namedWorker (w : World) (crew : WorkerId → Prop) (name : String) :
    (w.namedWorker name).1.Knows crew (w.namedWorker name).2 := by
  refine .inr ⟨name, ?_⟩
  unfold namedWorker
  split
  · rename_i k hget
    exact hget
  · exact (Registers.get?_set _ _ _ _).trans (if_pos rfl)

end World

/-- `P` is kept by whatever is done at place `p` with handles on frames of `G`, other than storing
them.  Frames end only if `drops` holds. -/
structure Handling (p : Place) (drops : Prop) (G : FrameId → Prop) (P : World → Prop) : Prop where
  beside {w w' : World} : P w → w.Beside w' → P w'
  named {w : World} (name : String) : P w → P (w.namedWorker name).1
  enqueue {w : World} {k : WorkerId} {g : FrameId} : P w → G g → w.Knows (p.worker = some ·) k →
    P (w.enqueue k g)
  subscribe {w : World} {c b : FrameId} : P w → G c → G b → P (w.subscribe c b)
  current {w : World} {k : WorkerId} {g : FrameId} : P w → (w.worker k).current = some g → G g
  slotted {w : World} {slot : String} {g : FrameId} : P w → w.slot slot = some g → G g
  vacate {w : World} (slot : String) : P w → P (w.setSlot slot none)
  finish {w : World} {g : FrameId} (ending : Ending) : drops → P w → G g →
    P (w.endFrame p g ending).1
  held {w : World} {g : FrameId} : drops → P w → G g → ∀ t ∈ (w.frame g).heldTasks, t.On G
  note {w : World} (runner : Option WorkerId) : drops → P w → P (w.noteDestroyed p runner)
  detach {w : World} {g : FrameId} : drops → P w → G g →
    P (w.modifyFrame g fun frame => { frame with continuation := none, disposal := .detached })
  empty {w : World} {g : FrameId} : drops → P w → G g →
    P (w.modifyFrame g fun frame => { frame with output := none })

/-- `P` is kept by whatever the body of frame `f` does at place `p`.  The body may keep handles on
frames of `S`, which it finds under names of `N`.  It makes a frame, when there are `n`, only if
`makes` holds. -/
structure Walk (p : Place) (f : FrameId) (N : String → Prop) (makes drops : Prop) (n : Nat)
    (G S : FrameId → Prop) (P : World → Prop) : Prop extends Handling p drops G P where
  sub {c : FrameId} : S c → G c
  compute {w : World} {change : Frame → Frame} : P w →
    (∃ acc guard code, change (w.frame f) = { w.frame f with acc, guard, code }) →
      P (w.modifyFrame f change)
  setWait {w : World} {wait : Option Wait} : P w → (∀ t ∈ Frame.waitTasks wait, t.On S) →
    (∀ wait', wait = some wait' → ∀ t, .child t ∈ wait'.futures → t.On G) → P (w.setWait f wait)
  find {w : World} {name : String} {t : Task} : P w → N name → w.findTask f name = some t → t.On S
  update {w : World} {name : String} {t : Task} : P w → N name → t.On S → P (w.updateTask f name t)
  remove {w : World} {name : String} : P w → N name → P (w.removeTask f name)
  store {w : World} {name : String} {t : Task} : P w → N name → t.On S →
    P (if World.isShared name then { w with tasks := w.tasks.set name t }
      else w.modifyFrame f (·.addTask name t))
  request {w : World} {k : WorkerId} (s : Suspension) : P w → p.worker = some k →
    P (w.modifyWorker k fun worker => { worker with suspension := some s })
  hire {w : World} : P w → P (w.newWorker .unlock).1
  make {w : World} (disposal : Disposal) (body : String) (arg : Int) : makes → P w →
    w.frameCount = n → P (w.newFrame (some p.thread) disposal body arg).1
  fresh : makes → S n

namespace Handling

variable {p : Place} {drops : Prop} {G : FrameId → Prop} {P : World → Prop}
  (H : Handling p drops G P) {w w' : World}
include H

theorem say (h : P w) (text : String) : P (w.say p text) := H.beside h ⟨rfl, fun _ hi => hi⟩

theorem dropOutput (h : P w) (o : Output) : P (w.dropOutput p o) := by
  obtain ⟨log, heq⟩ := Layout.dropOutput_eq w p o
  rw [heq]
  exact H.beside h ⟨rfl, fun _ hi => hi⟩

/-! ## Handles -/

theorem letGo (hdrops : drops) (h : P w) {t : Task} (ht : t.On G) :
    P (w.letGo p t).1 ∧ ∀ t' ∈ (w.letGo p t).2.getD [], t'.On G := by
  have hnone : ∀ t' ∈ ([] : List Task), t'.On G := fun _ ht' => absurd ht' List.not_mem_nil
  unfold World.letGo
  split
  · exact ⟨h, hnone⟩
  · rename_i g hframe
    have hg := ht g hframe
    simp only
    split
    · split
      · exact ⟨H.note _ hdrops (H.finish .dropped hdrops h hg), H.held hdrops h hg⟩
      · exact ⟨h, hnone⟩
    · have htraced : P (w.emit (.detach g)) := H.beside h ⟨rfl, fun _ hi => hi⟩
      exact ⟨H.detach hdrops htraced hg, hnone⟩

theorem dropTasks (hdrops : drops) (h : P w) {ts : List Task} (hts : ∀ t ∈ ts, t.On G) :
    P (w.dropTasks p ts) := by
  have hstep : ∀ (w : World) (t : Task) (rest : List Task), (P w ∧ ∀ t' ∈ t :: rest, t'.On G) →
      P (w.letGo p t).1 ∧ ∀ t' ∈ (w.letGo p t).2.getD [] ++ rest, t'.On G := by
    rintro w t rest ⟨h, hts⟩
    obtain ⟨hlet, hheld⟩ := H.letGo hdrops h (hts t List.mem_cons_self)
    refine ⟨hlet, fun t' ht' => ?_⟩
    rcases List.mem_append.mp ht' with ht' | ht'
    · exact hheld t' ht'
    · exact hts t' (List.mem_cons_of_mem _ ht')
  obtain ⟨-, hdropped, -⟩ := World.dropTasks_induct
    (P := fun w ts => P w ∧ ∀ t ∈ ts, t.On G) p hstep ts ⟨h, hts⟩
  exact hdropped

theorem dropTask (hdrops : drops) (h : P w) {t : Task} (ht : t.On G) : P (w.dropTask p t) :=
  H.dropTasks hdrops h fun t' ht' => by rw [List.mem_singleton.mp ht']; exact ht

theorem destroy (hdrops : drops) (h : P w) {g : FrameId} (hg : G g) (ending : Ending) :
    P (w.destroy p g ending) :=
  H.dropTasks hdrops (H.finish ending hdrops h hg) (H.held hdrops h hg)

theorem takeOutput (hdrops : drops) (h : P w) {t : Task} (ht : t.On G) :
    P (w.takeOutput p t).1 := by
  unfold World.takeOutput
  split
  · exact h
  · rename_i g hframe
    have hg := ht g hframe
    simp only
    split
    · exact H.note _ hdrops (H.destroy hdrops (H.empty hdrops h hg) hg _)
    · exact h

theorem pollTask (hdrops : drops) (h : P w) {t : Task} (ht : t.On G) : P (w.pollTask p t).1 := by
  unfold World.pollTask
  split
  · exact h
  · rename_i g hframe
    have hg := ht g hframe
    split
    · have htaken := H.takeOutput hdrops h ht
      generalize w.takeOutput p t = r at htaken
      obtain ⟨w₁, t', output⟩ := r
      cases output <;> exact htaken
    · split
      · exact h
      · rename_i k parent hparent
        obtain ⟨k', hk, hcurrent⟩ := Option.bind_eq_some_iff.mp hparent
        obtain ⟨parent', hcurrent, e⟩ := Option.map_eq_some_iff.mp hcurrent
        cases e
        have hsubscribed : P (w.subscribe g parent) := H.subscribe h hg (H.current h hcurrent)
        simp only
        split
        · exact hsubscribed
        · exact H.enqueue hsubscribed hg (.inl hk)

theorem schedule (h : P w) {k : WorkerId} {g : FrameId} (hg : G g)
    (hk : w.Knows (p.worker = some ·) k) (hscheduled : w.schedule p k g = .ok w') : P w' := by
  obtain ⟨rfl, -⟩ := World.schedule_ok hscheduled
  exact H.enqueue h hg hk

theorem startTask (h : P w) {k : WorkerId} (hk : w.Knows (p.worker = some ·) k) {t t' : Task}
    (ht : t.On G) (hstarted : w.startTask p k t = (t', .ok w')) : P w' := by
  obtain ⟨g, hframe, -, rfl | rfl⟩ := World.startTask_ok hstarted
  · exact h
  · exact H.enqueue h (ht g hframe) hk

theorem unpark (h : P w) (slot : String) {k : WorkerId} (hk : w.Knows (p.worker = some ·) k) :
    P (w.unpark p slot k).1 := by
  have hvacated := H.vacate slot h
  simp only [World.unpark, World.takeSlot]
  cases hslot : w.slot slot with
  | none => exact H.say hvacated _
  | some g =>
    simp only
    split
    · exact H.say hvacated _
    · split
      · exact H.say hvacated _
      · split
        · rename_i hscheduled
          exact H.schedule hvacated (H.slotted h hslot) hk hscheduled
        · exact hvacated

end Handling

namespace Walk

variable {p : Place} {f : FrameId} {N : String → Prop} {makes drops : Prop} {n : Nat}
  {G S : FrameId → Prop} {P : World → Prop} (H : Walk p f N makes drops n G S P) {w : World}
include H

theorem addTask (hdrops : drops) (h : P w) {name : String} (hname : N name) {t : Task}
    (ht : t.On S) : P (w.addTask p f name t) := by
  have hstored := H.store h hname ht
  unfold World.addTask
  simp only
  split
  · rename_i old hold
    exact H.dropTask hdrops hstored ((H.find h hname hold).mono H.sub)
  · exact hstored

theorem spawnDetached (hmakes : makes) (h : P w) (hn : w.frameCount = n) {k : WorkerId}
    (hk : w.Knows (p.worker = some ·) k) (body : String) (arg : Int) :
    P (w.spawnDetached p k body arg) := by
  have hmade := H.make .detached body arg hmakes h hn
  have htraced : P ((w.newFrame (some p.thread) .detached body arg).1.emit (.spawn w.frameCount)) :=
    H.beside hmade ⟨rfl, fun _ hi => hi⟩
  exact H.enqueue htraced (hn ▸ H.sub (H.fresh hmakes)) hk

theorem newTask (hmakes : makes) (h : P w) (hn : w.frameCount = n) (body : String) (arg : Int) :
    P (w.newTask p body arg).1 ∧ (w.newTask p body arg).2.On S := by
  refine ⟨H.make .awaited body arg hmakes h hn, fun c hc => ?_⟩
  cases hc
  exact hn ▸ H.fresh hmakes

/-! ## Waits -/

theorem useOutput (h : P w) (o : Output) : P (w.useOutput p f o) :=
  H.dropOutput (H.compute h ⟨_, _, _, rfl⟩) o

theorem prepend (h : P w) (block : List Stmt) : P (w.prepend f block) := H.compute h ⟨_, _, _, rfl⟩

/-- The body comes to wait for nothing. -/
theorem go (h : P w) : P (w.setWait f none) :=
  H.setWait h (fun _ ht => absurd ht List.not_mem_nil) fun _ e => by cases e

/-- The body comes to wait for something that holds no handle of its own. -/
theorem waitFor (h : P w) {wait : Wait} (hnone : Frame.waitTasks (some wait) = [])
    (hfutures : ∀ t, .child t ∈ wait.futures → t.On G) : P (w.setWait f (some wait)) := by
  refine H.setWait h (fun t ht => ?_) fun wait' e => ?_
  · rw [hnone] at ht
    cases ht
  · cases e
    exact hfutures

/-- The body comes to wait for one thing. -/
theorem waitOne (h : P w) {future : Future} (hfuture : ∀ t, future = .child t → t.On S) :
    P (w.setWait f (some (.one future))) := by
  cases future with
  | child t =>
    refine H.setWait h (fun t' ht' => ?_) fun wait' e t' ht' => ?_
    · rw [List.mem_singleton.mp ht']
      exact hfuture t rfl
    · cases e
      cases List.mem_singleton.mp ht'
      exact (hfuture t rfl).mono H.sub
  | _ =>
    refine H.waitFor h rfl fun t ht => ?_
    cases List.mem_singleton.mp ht

theorem requested {w' : World} (h : P w) {s : Suspension} (hrequest : w.request p s = .ok w') :
    P w' := by
  unfold World.request at hrequest
  split at hrequest
  · cases hrequest
  · rename_i k hk
    cases hrequest
    exact H.request s h hk

/-- A request is left with the worker, or there is none to leave it with. -/
theorem leaveRequest (h : P w) {s : Suspension} {left : Future} {r : World × World.Asked}
    (hr : r = match w.request p s with
      | .ok w => (w, .pending left)
      | .error e => (w, .fault e)) : P r.1 := by
  rw [hr]
  split
  · rename_i hrequest
    exact H.requested h hrequest
  · exact h

theorem ask {future : Future} (hdrops : future.Drops → drops) (h : P w)
    (hnames : ∀ name ∈ future.names, N name) (hfuture : ∀ t, future = .child t → t.On G) :
    P (w.ask p f future).1 := by
  cases future with
  | turn asked =>
    cases asked with
    | true => exact h
    | false => exact H.leaveRequest h rfl
  | task name =>
    have hname := hnames name List.mem_cons_self
    simp only [World.ask]
    cases hfind : w.findTask f name with
    | none => exact H.say h _
    | some t =>
      have ht := H.find h hname hfind
      have hpolled := H.pollTask (hdrops trivial) h (ht.mono H.sub)
      have ht' : (w.pollTask p t).2.1.On S := fun c hc => ht c (w.pollTask_frame p t hc)
      simp only
      generalize w.pollTask p t = r at hpolled ht'
      obtain ⟨w₁, t', polled⟩ := r
      have hupdated := H.update hpolled hname ht'
      cases polled with
      | pending => exact hupdated
      | ready o => exact H.useOutput hupdated o
      | fault e => exact hupdated
  | child t =>
    have hpolled := H.pollTask (hdrops trivial) h (hfuture t rfl)
    simp only [World.ask]
    generalize w.pollTask p t = r at hpolled
    obtain ⟨w₁, t', polled⟩ := r
    cases polled with
    | pending => exact hpolled
    | ready o => exact H.useOutput hpolled o
    | fault e => exact hpolled
  | park slot token asked =>
    cases asked with
    | true => exact h
    | false => exact H.leaveRequest h rfl
  | checkpoint name token asked =>
    cases asked with
    | true => exact H.say h _
    | false =>
      simp only [World.ask]
      split
      · exact H.say h _
      · exact H.leaveRequest h rfl
  | unknown => exact h

section

variable (hdrops : drops)
include hdrops

theorem askAll (futures : List Future) : ∀ {w : World}, P w →
    (∀ name ∈ futures.flatMap Future.names, N name) → (∀ t, .child t ∈ futures → t.On G) →
      P (w.askAll p f futures).1 := by
  induction futures with
  | nil => exact fun h _ _ => h
  | cons first rest ih =>
    intro w h hnames hfutures
    rw [List.flatMap_cons] at hnames
    have hasked := H.ask (fun _ => hdrops) h
      (fun name hname => hnames name (List.mem_append_left _ hname))
      fun t e => hfutures t (e ▸ List.mem_cons_self)
    have hrest : ∀ {w₁ : World}, P w₁ → P (w₁.askAll p f rest).1 := fun h₁ =>
      ih h₁ (fun name hname => hnames name (List.mem_append_right _ hname))
        fun t ht => hfutures t (List.mem_cons_of_mem _ ht)
    simp only [World.askAll]
    generalize w.ask p f first = r at hasked
    obtain ⟨w₁, asked⟩ := r
    cases asked with
    | ready => exact hrest hasked
    | pending future => exact hrest hasked
    | fault e => exact hasked

theorem askAny (futures : List Future) : ∀ (i : Nat) {w : World}, P w →
    (∀ name ∈ futures.flatMap Future.names, N name) → (∀ t, .child t ∈ futures → t.On G) →
      P (w.askAny p f i futures).1 := by
  induction futures with
  | nil => exact fun _ _ h _ _ => h
  | cons first rest ih =>
    intro i w h hnames hfutures
    rw [List.flatMap_cons] at hnames
    have hasked := H.ask (fun _ => hdrops) h
      (fun name hname => hnames name (List.mem_append_left _ hname))
      fun t e => hfutures t (e ▸ List.mem_cons_self)
    simp only [World.askAny]
    generalize w.ask p f first = r at hasked
    obtain ⟨w₁, asked⟩ := r
    cases asked with
    | ready => exact hasked
    | pending future =>
      exact ih (i + 1) hasked (fun name hname => hnames name (List.mem_append_right _ hname))
        fun t ht => hfutures t (List.mem_cons_of_mem _ ht)
    | fault e => exact hasked

end

/-- The body asks for what it waits for. -/
theorem askWait {wait : Wait} (hdrops : wait.Drops → drops) (h : P w)
    (hnames : ∀ name ∈ wait.names, N name) (hheld : ∀ t ∈ Frame.waitTasks (some wait), t.On S)
    (hfutures : ∀ t, .child t ∈ wait.futures → t.On G) : P (w.askWait p f wait).1 := by
  -- a handle that is polled stays on the frame it is on
  have hkept : ∀ {Q : FrameId → Prop} (w : World) (t : Task), t.On Q → (w.pollTask p t).2.1.On Q :=
    fun w t ht c hc => ht c (w.pollTask_frame p t hc)
  cases wait with
  | one future =>
    have hasked := H.ask hdrops h hnames fun t e => hfutures t (e ▸ List.mem_singleton_self _)
    have hleft : ∀ {left}, (w.ask p f future).2 = .pending left → ∀ t, left = .child t → t.On S :=
      World.ask_leaves (Q := (·.On S)) hkept fun t e =>
        hheld t (by rw [e]; exact List.mem_cons_self)
    simp only [World.askWait]
    generalize w.ask p f future = r at hasked hleft
    obtain ⟨w₁, asked⟩ := r
    cases asked with
    | ready => exact H.go hasked
    | pending left => exact H.waitOne hasked (hleft rfl)
    | fault e => exact hasked
  | all futures =>
    have hasked := H.askAll (hdrops trivial) futures h hnames hfutures
    have hleft : ∀ {left}, (w.askAll p f futures).2 = .ok left → ∀ t, .child t ∈ left → t.On G :=
      World.askAll_leaves (Q := (·.On G)) hkept hfutures
    simp only [World.askWait]
    generalize w.askAll p f futures = r at hasked hleft
    obtain ⟨w₁, result⟩ := r
    cases result with
    | error e => exact hasked
    | ok left =>
      cases left with
      | nil => exact H.go hasked
      | cons first rest => exact H.waitFor hasked rfl (hleft rfl)
  | any futures =>
    cases futures with
    | nil => exact H.go (H.say h _)
    | cons first rest =>
      have hasked := H.askAny (hdrops trivial) (first :: rest) 0 h hnames hfutures
      have hleft : ∀ {left}, (w.askAny p f 0 (first :: rest)).2 = .ok (.inr left) →
          ∀ t, .child t ∈ left → t.On G := World.askAny_leaves (Q := (·.On G)) hkept hfutures
      simp only [World.askWait]
      generalize w.askAny p f 0 (first :: rest) = r at hasked hleft
      obtain ⟨w₁, result⟩ := r
      cases result with
      | error e => exact hasked
      | ok result =>
        cases result with
        | inl i => exact H.go (H.say hasked _)
        | inr left => exact H.waitFor hasked rfl (hleft rfl)
  | spin token asked spins most block =>
    simp only [World.askWait]
    split
    · exact H.go (H.say h _)
    · split
      · exact H.go (H.prepend h _)
      · split
        · rename_i hrequest
          exact H.waitFor (H.requested h hrequest) rfl fun _ ht => absurd ht List.not_mem_nil
        · exact h

/-! ## Statements -/

theorem startNamed (h : P w) {name : String} (hname : N name) {k : WorkerId}
    (hk : w.Knows (p.worker = some ·) k) {t : Task} (ht : t.On S) :
    P (w.startNamed p f name k t).1 := by
  have ht' : (w.startTask p k t).1.On S := fun c hc => ht c (w.startTask_frame p k t ▸ hc)
  unfold World.startNamed
  generalize hstarted : w.startTask p k t = r at ht'
  obtain ⟨t', result⟩ := r
  cases result with
  | ok w₁ => exact H.update (H.startTask h hk (ht.mono H.sub) hstarted) hname ht'
  | error e => exact H.update h hname ht'

theorem takeNamed (hdrops : drops) (h : P w) {name : String} (hname : N name) {t : Task}
    (ht : t.On S) : P (w.takeNamed p f name t).1 := by
  have htaken := H.takeOutput hdrops h (ht.mono H.sub)
  have ht' : (w.takeOutput p t).2.1.On S := fun c hc => ht c (w.takeOutput_frame p t hc)
  unfold World.takeNamed
  generalize w.takeOutput p t = r at htaken ht'
  obtain ⟨w₁, t', output⟩ := r
  have hupdated := H.update htaken hname ht'
  cases output with
  | some o => exact H.useOutput (H.say hupdated _) o
  | none => exact H.say hupdated _

theorem parkHolding (h : P w) (lock slot : String) (l : ParkLock) :
    P (w.parkHolding p f lock slot l).1 := by
  have hlocked : P ((w.setLock lock l).say p s!"parking:{l.value}") :=
    H.beside h ⟨rfl, fun _ hi => hi⟩
  exact H.waitOne hlocked fun _ e => by cases e

/-- The body runs a statement that asks for nothing. -/
theorem does {s : Stmt} {r : World × World.Move} (hdoes : w.Does p f s r)
    (hnames : ∀ name ∈ s.names, N name) (hdrops : s.Drops → drops)
    (hmakes : s.Makes → r.1.frameCount = w.frameCount + 1 → makes) (hn : w.frameCount = n)
    (h : P w) : P r.1 := by
  have hnamed : ∀ worker, P (w.namedWorker worker).1 := fun worker => H.named worker h
  have hcount : ∀ worker, (w.namedWorker worker).1.frameCount = n :=
    fun worker => (w.namedWorker_frameCount worker).trans hn
  have hknows := w.knows_namedWorker (p.worker = some ·)
  cases hdoes with
  | beside hbeside => exact H.beside h hbeside
  | stuck => exact h
  | compute hchange => exact H.compute h hchange
  | wait hbeside hheld hfutures =>
    exact H.waitFor (H.beside h hbeside) hheld fun t ht => absurd ht (hfutures t)
  | park lock slot n l => exact H.parkHolding (H.prepend h _) lock slot l
  | await body delta =>
    obtain ⟨hmade, ht⟩ :=
      H.newTask (hmakes trivial rfl) h hn body (World.bump delta (w.frame f).arg)
    refine H.waitOne hmade fun t e => ?_
    cases e
    exact ht
  | spawn hpicks hs body arg =>
    cases hpicks with
    | entered hk =>
      exact H.spawnDetached (hmakes hs (w.spawnDetached_frameCount p _ body arg)) h hn (.inl hk)
        body arg
    | named worker =>
      have hmade := ((w.namedWorker worker).1.spawnDetached_frameCount p
        (w.namedWorker worker).2 body arg).trans
          (congrArg (· + 1) (w.namedWorker_frameCount worker))
      exact H.spawnDetached (hmakes hs hmade) (hnamed worker) (hcount worker) (hknows worker)
        body arg
  | new task body delta =>
    obtain ⟨hmade, ht⟩ :=
      H.newTask (hmakes trivial (World.addTask_frameCount _ p f task _)) h hn body
        (World.bump delta (w.frame f).arg)
    exact H.addTask (hdrops trivial) hmade (hnames task List.mem_cons_self) ht
  | start hpicks htask hfind =>
    have hname := hnames _ htask
    cases hpicks with
    | entered hk => exact H.startNamed h hname (.inl hk) (H.find h hname hfind)
    | named worker =>
      exact H.startNamed (hnamed worker) hname (hknows worker)
        (H.find (hnamed worker) hname hfind)
  | take hfind =>
    have hname := hnames _ List.mem_cons_self
    exact H.takeNamed (hdrops trivial) h hname (H.find h hname hfind)
  | drop hfind =>
    have hname := hnames _ List.mem_cons_self
    exact H.dropTask (hdrops trivial) (H.remove h hname) ((H.find h hname hfind).mono H.sub)
  | give name hfind =>
    have htask := hnames _ List.mem_cons_self
    exact H.addTask (hdrops trivial) (H.remove h htask)
      (hnames name (List.mem_cons_of_mem _ List.mem_cons_self)) (H.find h htask hfind)
  | mention worker hbeside => exact H.beside (hnamed worker) hbeside
  | unpark slot worker => exact H.unpark (hnamed worker) slot (hknows worker)
  | block body delta => exact (H.newTask (hmakes trivial rfl) (H.hire h) hn body _).1
  | blockWith worker body arg hs =>
    have hmade := congrArg (· + 1) (w.namedWorker_frameCount worker)
    exact (H.newTask (hmakes hs hmade) (hnamed worker) (hcount worker) body arg).1
  | pump worker => exact hnamed worker
  | schedule hcurrent hscheduled =>
    exact H.schedule (hnamed _) (H.current (hnamed _) hcurrent) (hknows _) hscheduled

/-- The body runs one statement. -/
theorem exec {s : Stmt} (hnames : ∀ name ∈ s.names, N name) (hdrops : s.Drops → drops)
    (hmakes : s.Makes → (w.exec p f s).1.frameCount = w.frameCount + 1 → makes)
    (hn : w.frameCount = n) (h : P w) : P (w.exec p f s).1 := by
  cases s with
  | pollOnce wanted =>
    have hown : ∀ name ∈ (w.begin wanted).2.names, N name := by cases wanted <;> exact hnames
    have hasked := H.ask (fun _ => hdrops trivial) (H.beside h (.begin w wanted)) hown
      fun t e => absurd e (Future.ne_child_of_held (w.begin_held wanted) t)
    simp only [World.exec]
    generalize (w.begin wanted).1.ask p f (w.begin wanted).2 = r at hasked
    obtain ⟨w₁, asked⟩ := r
    cases asked with
    | ready => exact H.say hasked _
    | pending left => exact H.say hasked _
    | fault e => exact hasked
  | _ => exact H.does (World.exec_does p f fun _ e => by cases e) hnames hdrops hmakes hn h

end Walk

end Substrate.Coro
