import Substrate.Proofs.Coro.Runs

/-!
# Where a live frame is

A `Station` is a place that the structures of a running program show: a handle
that was not started, a run list, a slot, a continuation, the polls of the thread.
In a disciplined run every live frame is at exactly one station, between any two
steps.

* `Moment.Sound.at_iff` reads a station off a layout.
* `Moment.Disciplined` is what a run has to keep to.
* `Moment.Placed.leads` is what a disciplined move preserves, and `Reach.placed`
  what a run does.
-/

namespace Substrate.Coro

/-- Where a live frame can be. -/
inductive Station where
  /-- Its task has not started it. -/
  | unstarted
  /-- On the ready list of a worker. -/
  | ready (k : WorkerId)
  /-- On the deferred list of a worker. -/
  | deferred (k : WorkerId)
  /-- Published in a slot. -/
  | parked (slot : String)
  /-- Taken out of a slot and not scheduled yet. -/
  | taken
  /-- Suspended until frame `child` returns. -/
  | awaiting (child : FrameId)
  /-- Being polled. -/
  | polled
  /-- Its body has returned. -/
  | complete

/-- What a layout calls a station. -/
def Station.spot : Station → Spot
  | .unstarted => .unstarted
  | .ready k => .listed (readyList k)
  | .deferred k => .listed (deferredList k)
  | .parked slot => .slotted slot
  | .taken => .taken
  | .awaiting c => .awaiting c
  | .polled => .polled
  | .complete => .complete

theorem Station.spot_injective {s s' : Station} (h : s.spot = s'.spot) : s = s' := by
  cases s <;> cases s' <;> simp_all [Station.spot, readyList_inj, deferredList_inj,
    readyList_ne_deferredList, (readyList_ne_deferredList _ _).symm]

theorem Spot.exists_station {s : Spot} (hpresent : s ≠ .absent) (hhand : ¬ s.IsHand)
    (hanchored : s ≠ .adrift) : ∃ station : Station, s = station.spot := by
  cases s with
  | absent => exact absurd rfl hpresent
  | hand child => exact absurd trivial hhand
  | adrift => exact absurd rfl hanchored
  | listed q =>
    rcases Nat.mod_two_eq_zero_or_one q with hq | hq
    · exact ⟨.ready (q / 2), by simp only [Station.spot, readyList]; congr 1; omega⟩
    · exact ⟨.deferred (q / 2), by simp only [Station.spot, deferredList]; congr 1; omega⟩
  | unstarted => exact ⟨.unstarted, rfl⟩
  | slotted slot => exact ⟨.parked slot, rfl⟩
  | taken => exact ⟨.taken, rfl⟩
  | awaiting c => exact ⟨.awaiting c, rfl⟩
  | polled => exact ⟨.polled, rfl⟩
  | complete => exact ⟨.complete, rfl⟩

namespace Moment

variable {m : Moment} {action : Action} {spot : FrameId → Spot} {poller : FrameId → FrameId}

/-- All handles: those known by name, those that bodies hold, and those the thread runs to
their end. -/
def handles (m : Moment) : List Task := m.world.held ++ blocked m.thread.stack

/-- Frame `f` is at a station. -/
def At (m : Moment) (f : FrameId) : Station → Prop
  | .unstarted => ⟨some f, false⟩ ∈ m.handles
  | .ready k => f ∈ m.world.runLists.toList (readyList k)
  | .deferred k => f ∈ m.world.runLists.toList (deferredList k)
  | .parked slot => m.world.slot slot = some f
  | .taken => f ∈ m.taken
  | .awaiting c => (m.world.frame c).continuation = some f
  | .polled => f ∈ polls m.thread.stack
  | .complete => (m.world.frame f).alive = true ∧ (m.world.frame f).isComplete = true

theorem Sound.not_isHand (h : m.Sound spot) (f : FrameId) : ¬ (spot f).IsHand :=
  fun hf => nomatch (h.layout.hand f).mpr hf

theorem Sound.alive_iff (h : m.Sound spot) (f : FrameId) :
    (m.world.frame f).alive = true ↔ spot f ≠ .absent := (h.layout.frames f).alive

/-- The stations of a frame are what its place in a layout says. -/
theorem Sound.at_iff (h : m.Sound spot) (f : FrameId) (s : Station) :
    m.At f s ↔ spot f = s.spot := by
  cases s with
  | ready k => exact h.layout.listed (readyList k) f
  | deferred k => exact h.layout.listed (deferredList k) f
  | parked slot => exact h.layout.slotted slot f
  | taken => exact h.layout.taken f
  | polled => exact h.layout.polled f
  | unstarted =>
    have hcount : m.handles.count ⟨some f, false⟩ =
        (spot f).owed (m.world.frame f).disposal false + 0 := h.layout.handles f false
    show _ ∈ m.handles ↔ spot f = .unstarted
    rw [← List.count_pos_iff, hcount]
    cases spot f <;> cases (m.world.frame f).disposal <;> simp [Spot.owed]
  | awaiting c =>
    refine (h.layout.awaiting c f).trans ?_
    have hhand := h.not_isHand f
    cases hspot : spot f <;> simp_all [Spot.child, Station.spot, Spot.IsHand]
  | complete =>
    show _ ∧ _ ↔ spot f = .complete
    rw [h.alive_iff]
    constructor
    · rintro ⟨hpresent, hcomplete⟩
      exact (h.layout.isComplete_iff rfl hpresent).mp hcomplete
    · intro hf
      have hpresent : spot f ≠ .absent := by rw [hf]; rintro ⟨⟩
      exact ⟨hpresent, (h.layout.isComplete_iff rfl hpresent).mpr hf⟩

/-- A frame is at no other station than the one its place in a layout says. -/
theorem Sound.at_only (h : m.Sound spot) {f : FrameId} (s : Station) (hs : spot f = s.spot) :
    m.At f s ∧ ∀ s', m.At f s' → s' = s :=
  ⟨(h.at_iff f s).mpr hs,
    fun s' hs' => Station.spot_injective (((h.at_iff f s').mp hs').symm.trans hs)⟩

/-- Bodies wait for one thing at a time, each task is polled by one frame only, and only frames
taken out of slots are scheduled. -/
structure Tidy (poller : FrameId → FrameId) (m : Moment) (action : Action) : Prop where
  careful : m.Careful action
  polled : ∀ f ∈ m.thread.polling, ∀ c ∈ m.world.wanted f, poller c = f

/-- Also, no handle is dropped while a frame waits for what it stands for. -/
structure Disciplined (poller : FrameId → FrameId) (m : Moment) (action : Action) : Prop extends
    m.Tidy poller action where
  kept : ∀ c < m.world.frameCount, (m.world.frame c).continuation ≠ none →
    ((m.act action).world.frame c).disposal = .awaited

instance (poller : FrameId → FrameId) (m : Moment) (action : Action) :
    Decidable (m.Tidy poller action) :=
  decidable_of_iff (m.Careful action ∧ ∀ f ∈ m.thread.polling, ∀ c ∈ m.world.wanted f, poller c = f)
    ⟨fun h => ⟨h.1, h.2⟩, fun h => ⟨h.careful, h.polled⟩⟩

instance (poller : FrameId → FrameId) (m : Moment) (action : Action) :
    Decidable (m.Disciplined poller action) :=
  decidable_of_iff (m.Tidy poller action ∧
      ∀ c < m.world.frameCount, (m.world.frame c).continuation ≠ none →
        ((m.act action).world.frame c).disposal = .awaited)
    ⟨fun h => ⟨h.1, h.2⟩, fun h => ⟨h.toTidy, h.kept⟩⟩

/-- Every frame is in its place, and nothing is lost. -/
structure Placed (poller : FrameId → FrameId) (m : Moment) (spot : FrameId → Spot) : Prop extends
    m.Sound spot where
  anchored : ∀ f, spot f ≠ .adrift
  poller : ∀ c f, (m.world.frame c).continuation = some f → poller c = f

/-- Faults are not forgotten. -/
theorem fault_of_act (h : (m.act action).fault = none) : m.fault = none := by
  cases action with
  | step => exact (Option.or_eq_none_iff.mp h).1
  | close => exact h
  | call op =>
    simp only [act, call] at h
    split at h
    · exact (Option.or_eq_none_iff.mp h).1
    · exact h

theorem Sound.polling (h : m.Sound spot) {f : FrameId} (hf : m.thread.polling = some f) :
    spot f = .polled := by
  refine (h.layout.polled f).mp ?_
  show f ∈ polls m.thread.stack
  unfold Thread.polling at hf
  split at hf
  · rename_i hstack
    cases hf
    rw [hstack]
    exact List.mem_cons_self
  · cases hf

theorem Placed.awaiting_iff (h : m.Placed poller spot) (c f : FrameId) :
    (m.world.frame c).continuation = some f ↔ spot f = .awaiting c :=
  h.toSound.at_iff f (.awaiting c)

/-- A frame is lost only if a handle is dropped while it waits or a fault leaves the thread. -/
theorem Placed.anchored_turn (h : m.Placed poller spot) (hdisciplined : m.Disciplined poller action)
    {progress : Progress} (hprogress : progress.fault = none) {g : FrameId} {s : Spot}
    (hturn : Turn m.world m.thread (m.act action).world progress g (spot g) s) : s ≠ .adrift := by
  rintro rfl
  cases hturn with
  | goes hgoes =>
    rcases hgoes.strand rfl with hold | ⟨c, hc, -, hdetached⟩
    · exact h.anchored g hold
    · have hcont := (h.awaiting_iff c g).mpr hc
      have hmade : c < m.world.frameCount :=
        h.layout.lt_of_pending (h.layout.child c g (by rw [hc]; rfl))
      rw [hdisciplined.kept c hmade (by rw [hcont]; nofun)] at hdetached
      cases hdetached
  | waits _ _ _ hs => cases hs
  | @refused c other htop hwanted htaken _ =>
    -- the frame that waits for `c` already is the one frame that polls it
    have hother : other = g :=
      (h.poller c other htaken).symm.trans (hdisciplined.polled g htop c hwanted)
    have hawaiting := (h.awaiting_iff c other).mp htaken
    rw [hother, h.toSound.polling htop] at hawaiting
    cases hawaiting
  | failed hfailed _ =>
    rw [hfailed] at hprogress
    cases hprogress
  | woken _ _ hs => cases hs
  | returns _ hs => rcases hs with hs | hs <;> cases hs

/-- A frame waits for a task only after it polled it. -/
theorem Placed.poller_turn (h : m.Placed poller spot) (hdisciplined : m.Disciplined poller action)
    {progress : Progress} {c g : FrameId}
    (hturn : Turn m.world m.thread (m.act action).world progress g (spot g) (.awaiting c)) :
    poller c = g := by
  cases hturn with
  | goes hgoes => exact h.poller c g ((h.awaiting_iff c g).mpr (hgoes.child c rfl))
  | waits htop hwanted _ hs =>
    cases hs
    exact hdisciplined.polled g htop c hwanted
  | refused _ _ _ hs => cases hs
  | failed _ hs => cases hs
  | woken _ _ hs => cases hs
  | returns _ hs => rcases hs with hs | hs <;> cases hs

/-- What a disciplined move preserves. -/
theorem Placed.leads (h : m.Placed poller spot) (hcan : m.Can action)
    (hdisciplined : m.Disciplined poller action) (hfault : (m.act action).fault = none) :
    ∃ spot' progress, (m.act action).Placed poller spot' ∧
      (∀ g, Turn m.world m.thread (m.act action).world progress g (spot g) (spot' g)) ∧
      progress.fault = none := by
  cases h.toSound.leads hcan hdisciplined.careful with
  | aborted _ hfault' => exact absurd hfault hfault'
  | @sound spot' progress h' hturn hprogress =>
    rw [hfault] at hprogress
    have hprogress' := (Option.or_eq_none_iff.mp hprogress.symm).2
    refine ⟨spot', progress, ⟨h', fun g => ?_, fun c g hg => ?_⟩, hturn, hprogress'⟩
    · exact h.anchored_turn hdisciplined hprogress' (hturn g)
    · have hawaiting : spot' g = .awaiting c := (h'.at_iff g (.awaiting c)).mp hg
      exact h.poller_turn hdisciplined (hawaiting ▸ hturn g)

/-- A frame whose body has returned is not in flight any more. -/
theorem Sound.not_pending_of_returned (h : m.Sound spot) {f : FrameId} {o : Output}
    (hf : (f, o) ∈ m.returned) : ¬ (spot f).IsPending := by
  have hstage := ((h.layout.returned f o).mp hf).2.1
  have hfits := (h.layout.frames f).stage
  have hhand := h.not_isHand f
  intro hpending
  rw [hstage] at hfits
  cases hspot : spot f <;> simp_all [Spot.Allows, Spot.IsPending, Spot.IsHand]

theorem polling_of_returning {g : FrameId} (h : m.thread.returning m.world = some g) :
    m.thread.polling = some g :=
  (Option.filter_eq_some_iff.mp h).1

/-- The move in which a body returns records its result. -/
theorem Can.returns (hcan : m.Can action) {c : FrameId}
    (hc : m.thread.returning m.world = some c) :
    (c, ⟨(m.world.frame c).acc, (m.world.frame c).guard⟩) ∈ (m.act action).returned := by
  have hbusy : m.thread.stack ≠ [] := by
    intro hidle
    have := polling_of_returning hc
    rw [Thread.polling, hidle] at this
    cases this
  cases action with
  | step =>
    refine List.mem_append_left _ ?_
    rw [Thread.yields, hc]
    exact List.mem_cons_self
  | call op => exact absurd hcan.2 hbusy
  | close => exact absurd hcan.2 hbusy

/-- A frame that waits is woken when the frame it waits for returns, and not before. -/
theorem Placed.woken (h : m.Placed poller spot) (hcan : m.Can action)
    (hdisciplined : m.Disciplined poller action) (hfault : (m.act action).fault = none)
    {c f : FrameId} (hf : m.At f (.awaiting c)) :
    if m.thread.returning m.world = some c then
      ∃ k, m.thread.pollingFor = some k ∧ (m.act action).At f (.ready k)
    else (m.act action).At f (.awaiting c) := by
  obtain ⟨spot', progress, h', hturn, -⟩ := h.leads hcan hdisciplined hfault
  have hspot : spot f = .awaiting c := (h.toSound.at_iff f _).mp hf
  have hself : ∀ {g}, m.thread.polling = some g → g ≠ f := by
    rintro g hg rfl
    rw [h.toSound.polling hg] at hspot
    cases hspot
  cases hturn f with
  | goes hgoes =>
    have hstays : spot' f = .awaiting c := by
      rcases hgoes.waits (by rw [hspot]; trivial) with e | e
      · exact e.trans hspot
      · exact absurd e (h'.anchored f)
    split
    · rename_i hc
      -- no frame waits for one that has returned
      have hchild := h'.layout.child c f (by rw [hstays]; rfl)
      exact absurd hchild (h'.toSound.not_pending_of_returned (hcan.returns hc))
    · exact (h'.toSound.at_iff f _).mpr hstays
  | waits htop => exact absurd rfl (hself htop)
  | refused htop => exact absurd rfl (hself htop)
  | failed _ hs => exact absurd hs (h'.anchored f)
  | @woken c' k hc hs hs' hworker =>
    rw [hspot] at hs
    cases hs
    rw [if_pos hc]
    exact ⟨k, hworker, (h'.toSound.at_iff f _).mpr hs'⟩
  | returns hf _ => exact absurd rfl (hself (polling_of_returning hf))

end Moment

/-- Every moment of a disciplined run without a fault. -/
theorem Reach.placed {poller : FrameId → FrameId} {m : Moment}
    (h : Reach (Moment.Disciplined poller) m) (hfault : m.fault = none) :
    ∃ spot, m.Placed poller spot := by
  induction h with
  | start bodies =>
    have hnone : ∀ c, (({ bodies } : World).frame c).continuation = none :=
      fun c => congrArg Frame.continuation (Table.get_empty c)
    exact ⟨_, sound_start bodies, nofun, fun c f hc => nomatch (hnone c).symm.trans hc⟩
  | next _ hcan hdisciplined ih =>
    obtain ⟨spot, h⟩ := ih (Moment.fault_of_act hfault)
    obtain ⟨spot', _, h', -⟩ := h.leads hcan hdisciplined hfault
    exact ⟨spot', h'⟩

/-- A task whose body parks, and a body that awaits it. -/
def joining : Moment :=
  { session := { world := { bodies :=
    (Registers.empty.set "main" [.join "@t", .log "woken"]).set "c" [.park "s" 0] } } }

/-- The task is made, and the worker runs until both frames wait. -/
def joiningActions : List Action :=
  [.call (.new "@t" "c" 0), .call (.spawn "w" "main" 0), .call (.pump "w"), .step,
    .step, .step, .step,
    .step, .step, .step]

/-- The parked body goes on and is about to return. -/
def rejoiningActions : List Action :=
  joiningActions ++ [.call (.unpark "s" "w"), .call (.pump "w"), .step, .step]

end Substrate.Coro
