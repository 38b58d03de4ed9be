import Substrate.Proofs.Coro.Whereabouts

/-!
# How frames end

A frame ends in one of three ways: its handle takes its result, its handle is
dropped, or the worker it completes on disposes of it.  The owner changes when a
handle is dropped in flight.  In a careful run a frame ends once, out of a place
where nothing is going to find it, and its result goes to one taker.

* `Moment.EndedBy` is what is known of a frame that ended in a given way.
* `Moment.Sound.ends_from` is where a frame can be that a move destroys.
* `Moment.Sound.takeOutput`, `pollTask` and `retire` are about the operations that
  end frames.
-/

namespace Substrate.Coro

namespace Moment

/-- How a frame that ended in a given way was owned, and whether its body had returned. -/
def EndedBy (m : Moment) (f : FrameId) : Ending → Prop
  | .taken o => (m.world.frame f).disposal = .awaited ∧ ∃ v, o = some v ∧ (f, v) ∈ m.returned
  | .dropped => (m.world.frame f).disposal = .awaited ∧
    ((m.world.frame f).stage = .created ∨ ∃ v, (f, v) ∈ m.returned)
  | .retired => (m.world.frame f).disposal = .detached ∧ ∃ v, (f, v) ∈ m.returned

variable {m : Moment} {action : Action} {spot : FrameId → Spot}

/-- A move destroys a frame only if it was not started, if it is complete, or if its body
returns in that move. -/
theorem Sound.ends_from (h : m.Sound spot) (hcan : m.Can action) (hcareful : m.Careful action)
    {f : FrameId} (hf : (m.world.frame f).alive = true)
    (hf' : ((m.act action).world.frame f).alive = false) :
    spot f = .unstarted ∨ spot f = .complete ∨
      spot f = .polled ∧ m.thread.returning m.world = some f := by
  have hpresent := (h.alive_iff f).mp hf
  have hidle : ¬ (spot f).IsPending → spot f = .unstarted ∨ spot f = .complete := by
    cases hspot : spot f <;> simp_all [Spot.IsPending]
  cases h.leads hcan hcareful with
  | @sound spot' progress h' hturn _ =>
    have habsent : spot' f = .absent := by
      cases hspot : spot' f with
      | absent => rfl
      | _ => rw [(h'.alive_iff f).mpr (by rw [hspot]; rintro ⟨⟩)] at hf'; cases hf'
    have hturn := hturn f
    rw [habsent] at hturn
    cases hturn with
    | goes hgoes =>
      rcases hidle hgoes.pending with e | e
      · exact .inl e
      · exact .inr (.inl e)
    | waits _ _ _ hs => cases hs
    | refused _ _ _ hs => cases hs
    | failed _ hs => cases hs
    | woken _ _ hs => cases hs
    | returns hreturning _ =>
      exact .inr (.inr ⟨h.polling (polling_of_returning hreturning), hreturning⟩)
  | aborted _ _ h' =>
    obtain ⟨a, spot', hlayout, hpending, -⟩ := h'
    have hgone : ¬ (spot f).IsPending := by
      intro hp
      have hfits := (hlayout.frames f).alive
      have := hpending f hp
      rw [hf'] at hfits
      cases hspot : spot' f <;> simp_all [Spot.IsPending]
    rcases hidle hgone with e | e
    · exact .inl e
    · exact .inr (.inl e)

/-- Taking a result gives what the body returned and ends the frame. -/
theorem Sound.takeOutput (h : m.Sound spot) {c : FrameId} {b : Bool}
    (hmem : ⟨some c, b⟩ ∈ m.handles) {p : Place} {w' : World} {t' : Task} {o : Output}
    (htake : m.world.takeOutput p ⟨some c, b⟩ = (w', t', some o)) :
    (c, o) ∈ m.returned ∧ t'.frame = none ∧ (c, .taken (some o)) ∈ w'.ends := by
  have hpresent := h.layout.ne_absent_of_mem hmem rfl
  by_cases hc : spot c = .complete
  · obtain ⟨w₁, htake', -, -, -, hends⟩ := h.layout.takeOutput p hc hmem rfl rfl
    rw [htake'] at htake
    cases htake
    have hstage := (h.layout.frames c).stage
    rw [hc] at hstage
    exact ⟨(h.layout.returned c _).mpr ⟨h.layout.made c hpresent, hstage, rfl⟩, rfl, hends⟩
  · have hnot : ∀ c', (⟨some c, b⟩ : Task).frame = some c' →
        (m.world.frame c').isComplete = false := by
      rintro c' e
      cases e
      rw [Bool.eq_false_iff]
      exact fun hcomplete => hc ((h.layout.isComplete_iff rfl hpresent).mp hcomplete)
    rw [Layout.takeOutput_none hnot] at htake
    cases htake

/-- Polling a task whose body has returned gives its result. -/
theorem Sound.pollTask (h : m.Sound spot) {c : FrameId} {b : Bool}
    (hmem : ⟨some c, b⟩ ∈ m.handles) (p : Place) :
    (m.world.pollTask p ⟨some c, b⟩).2.2 ≠ .fault (.doubleAwait (frameNumber c)) := by
  have hpresent := h.layout.ne_absent_of_mem hmem rfl
  by_cases hc : spot c = .complete
  · obtain ⟨w₁, o, hpoll, -⟩ := h.layout.pollTask_ready p hc hmem rfl rfl
    rw [hpoll]
    rintro ⟨⟩
  · have hnot : (m.world.frame c).isComplete = false := by
      rw [Bool.eq_false_iff]
      exact fun hcomplete => hc ((h.layout.isComplete_iff rfl hpresent).mp hcomplete)
    simp only [World.pollTask, hnot, Bool.false_eq_true, if_false]
    split
    · rintro ⟨⟩
    · split <;> rintro ⟨⟩

/-- A body that returns can be retired. -/
theorem Sound.retire (h : m.Sound spot) {k : WorkerId} {f : FrameId} {outer : Option FrameId}
    {below : List Activity} (hstack : m.thread.stack = .poll k f outer :: below)
    (hreturning : m.thread.returning m.world = some f) :
    ∃ w, (Thread.finish m.world m.thread.toPlace k f outer).retire k f = .ok w := by
  have hlayout : Layout m.world
      { ({ m.thread with stack := below } : Thread).around m.taken m.returned with
      polled := f :: polls below } spot := by
    have := h.layout
    rw [Thread.around, hstack] at this
    exact this
  have hwait : (m.world.frame f).wait = none := by
    have := (Option.filter_eq_some_iff.mp hreturning).2
    simp only [Bool.and_eq_true, Option.isNone_iff_eq_none] at this
    exact this.1
  obtain ⟨spot', continuation, disposal, -, -, -, -, hframe⟩ :=
    finish_layout (a := ({ m.thread with stack := below } : Thread).around m.taken m.returned) k
      outer m.thread.toPlace hlayout rfl rfl hwait
  refine ⟨_, retire_eq _ k ?_⟩
  rw [hframe]
  have hfits := hlayout.frames f
  rw [(hlayout.polled f).mp List.mem_cons_self] at hfits
  exact hfits.retired nofun id

/-- What the record of an ended frame tells. -/
theorem endedBy_of_layout {a : Around} (h : Layout m.world a spot)
    (hreturned : a.returned = m.returned)
    {f : FrameId} {ending : Ending} (hf : (f, ending) ∈ m.world.ends) : m.EndedBy f ending := by
  have hended := h.endings _ hf
  have hmade : f < m.world.frameCount := ((h.ended f).mp (List.mem_map_of_mem hf)).1
  have hresult : (m.world.frame f).stage = .complete →
      (f, ⟨(m.world.frame f).acc, (m.world.frame f).guard⟩) ∈ m.returned := by
    intro hstage
    rw [← hreturned]
    exact (h.returned f _).mpr ⟨hmade, hstage, rfl⟩
  cases ending with
  | taken o => exact ⟨hended.1, _, hended.2.2, hresult hended.2.1⟩
  | dropped => exact ⟨hended.1, hended.2.imp_right fun hstage => ⟨_, hresult hstage⟩⟩
  | retired => exact ⟨hended.1, _, hresult hended.2⟩

end Moment

/-- In a careful run each frame ends once, through its handle or its worker, and never while it
is queued, parked, waiting or polled; its result is handed out once and is what its body
returned. -/
theorem frames_end_once {m : Moment} (h : Reach Moment.Careful m) :
    (m.world.ends.map Prod.fst).Nodup ∧
    (∀ f, f ∈ m.world.ends.map Prod.fst ↔
      f < m.world.frameCount ∧ (m.world.frame f).alive = false) ∧
    (∀ f ending, (f, ending) ∈ m.world.ends → m.EndedBy f ending) ∧
    (∀ f v v', (f, v) ∈ m.returned → (f, v') ∈ m.returned → v = v') ∧
    (m.session.aborted = none →
      (∀ f s, m.At f s → (m.world.frame f).alive = true) ∧
      (∀ action, m.Can action → m.Careful action → ∀ f, (m.world.frame f).alive = true →
        ((m.act action).world.frame f).alive = false →
        ∃ s, m.At f s ∧ (∀ s', m.At f s' → s' = s) ∧
          (s = .unstarted ∨ s = .complete ∨
            s = .polled ∧ m.thread.returning m.world = some f)) ∧
      (∀ c b, ⟨some c, b⟩ ∈ m.handles → ∀ p,
        (∀ w' t' o, m.world.takeOutput p ⟨some c, b⟩ = (w', t', some o) →
          (c, o) ∈ m.returned ∧ t'.frame = none ∧ (c, .taken (some o)) ∈ w'.ends) ∧
        (m.world.pollTask p ⟨some c, b⟩).2.2 ≠ .fault (.doubleAwait (frameNumber c))) ∧
      ∀ k f outer below, m.thread.stack = .poll k f outer :: below →
        m.thread.returning m.world = some f →
        ∃ w, (Thread.finish m.world m.thread.toPlace k f outer).retire k f = .ok w) := by
  obtain ⟨a, spot₀, hlayout, hreturned⟩ := h.laidOut fun _ _ h => h
  refine ⟨hlayout.ended_nodup, fun f => ?_, fun f ending hf => ?_, fun f v v' hv hv' => ?_,
    fun hlive => ?_⟩
  · rw [hlayout.ended, Bool.eq_false_iff, ne_eq, (hlayout.frames f).alive, Classical.not_not]
  · exact Moment.endedBy_of_layout hlayout hreturned hf
  · rw [← hreturned] at hv hv'
    rw [((hlayout.returned f v).mp hv).2.2, ((hlayout.returned f v').mp hv').2.2]
  · obtain ⟨spot, hsound⟩ := h.sound (fun _ _ h => h) hlive
    have hat := hsound.at_iff
    refine ⟨fun f s hf => ?_, fun action hcan hcareful f hf hf' => ?_, fun c b hmem p => ?_,
      fun k f outer below hstack hreturning => hsound.retire hstack hreturning⟩
    · rw [hsound.alive_iff, (hat f s).mp hf]
      cases s <;> nofun
    · rcases hsound.ends_from hcan hcareful hf hf' with e | e | ⟨e, hreturning⟩
      · exact ⟨_, (hsound.at_only .unstarted e).1, (hsound.at_only .unstarted e).2, .inl rfl⟩
      · exact ⟨_, (hsound.at_only .complete e).1, (hsound.at_only .complete e).2, .inr (.inl rfl)⟩
      · exact ⟨_, (hsound.at_only .polled e).1, (hsound.at_only .polled e).2,
          .inr (.inr ⟨rfl, hreturning⟩)⟩
    · exact ⟨fun w' t' o htake => hsound.takeOutput hmem htake, hsound.pollTask hmem p⟩

/-- A body awaits a task, drops one that was not started, and drops one in flight. -/
def disposing : Moment :=
  let main : List Stmt :=
    [.await "leaf" 0, .new "x" "leaf" 0, .drop "x", .new "y" "leaf" 0, .start "y", .drop "y"]
  { session := { world := { bodies := (Registers.empty.set "leaf" [.add 7]).set "main" main } } }

/-- A worker runs that body and what it leaves. -/
def disposingActions : List Action :=
  [.call (.spawn "w" "main" 0), .call (.pump "w")] ++ List.replicate 18 .step

theorem frames_end_once_disposing :
    Reach Moment.Careful (disposing.after disposingActions) ∧
      (disposing.after disposingActions).world.ends =
        [(3, .retired), (0, .retired), (2, .dropped), (1, .taken (some ⟨7, none⟩))] ∧
      ((disposing.after disposingActions).world.ends.map Prod.fst).Nodup ∧
      (disposing.after disposingActions).EndedBy 1 (.taken (some ⟨7, none⟩)) ∧
      (disposing.after disposingActions).EndedBy 3 .retired := by
  have hreach : Reach Moment.Careful (disposing.after disposingActions) :=
    (Reach.start _).after (by decide +kernel)
  have hends : (disposing.after disposingActions).world.ends =
      [(3, .retired), (0, .retired), (2, .dropped), (1, .taken (some ⟨7, none⟩))] := by
      decide +kernel
  obtain ⟨hnodup, -, hended, -⟩ := frames_end_once hreach
  exact ⟨hreach, hends, hnodup, hended 1 _ (by rw [hends]; simp), hended 3 _ (by rw [hends]; simp)⟩

/-- Bodies wait for one thing at a time, each task is polled by one frame only, and only frames
that were taken out of slots at some time are scheduled. -/
def Moment.Loose (poller : FrameId → FrameId) (m : Moment) : Action → Prop
  | .call op => ∀ f ∈ m.session.scheduled op, f ∈ m.session.handles.values
  | .step => m.Careful .step ∧ ∀ f ∈ m.thread.polling, ∀ c ∈ m.world.wanted f, poller c = f
  | .close => True

instance (poller : FrameId → FrameId) (m : Moment) (action : Action) :
    Decidable (m.Loose poller action) :=
  match action with
  | .call _ => inferInstanceAs (Decidable (∀ f ∈ _, _))
  | .step => inferInstanceAs (Decidable (_ ∧ ∀ f ∈ _, ∀ c ∈ _, _))
  | .close => inferInstanceAs (Decidable True)

/-- A body that parks twice. -/
def parking : Moment :=
  { session := { world := { bodies := Registers.empty.set "f" [.park "a" 0, .park "b" 0] } } }

/-- The frame that was taken out of the first slot is scheduled once more after it parked again. -/
def reparkingActions : List Action :=
  [.call (.spawn "w" "f" 0), .call (.pump "w"), .step, .step, .step, .step,
    .call (.takeSlot "a" "h"),
    .call (.schedule "w" "h"), .call (.pump "w"), .step, .step, .step, .step, .step,
    .call (.schedule "w" "h"), .call (.pump "w"), .step, .step]

/-- A frame is destroyed while it is parked if it is scheduled twice after it was taken once. -/
theorem parked_frame_destroyed :
    Reach (Moment.Loose id) (parking.after reparkingActions) ∧
      (parking.after reparkingActions).At 0 (.parked "b") ∧
      ((parking.after reparkingActions).world.frame 0).alive = true ∧
      (((parking.after reparkingActions).act .step).world.frame 0).alive = false := by
  refine ⟨(Reach.start _).after (by decide +kernel), ?_, by decide +kernel, by decide +kernel⟩
  show (parking.after reparkingActions).world.slot "b" = some 0
  decide +kernel

end Substrate.Coro
