import Substrate.Coro.Thread
import Substrate.Proofs.Coro.RunLists
import Substrate.Proofs.Registers

/-!
# Where frames are

The place of a frame is spread over the run lists, the slots, the continuations
of other frames, the polls of a thread and the handles on it.  `Layout w a spot`
says that one function `spot` describes all of these at once, so that each frame
is in one place and each of these structures names a frame only if that is its
place.

* `Spot` is a place; `Fits` is what the record of a frame there looks like.
* `Around` is what lies outside the world: the frames being polled, the handles
  and frames that a step has in its hands.
* `Layout.modifyFrame` changes the record of one frame and may move handles in or
  out of it; the lemmas after it move one frame from one place to another.
* `Layout.retire`, `Layout.make` and the like make and destroy frames.
-/

namespace Substrate.Coro

/-- Where a frame is. -/
inductive Spot where
  /-- It was not made yet, or it was destroyed. -/
  | absent
  /-- Its task has not started it. -/
  | unstarted
  /-- On run list `q`. -/
  | listed (q : Nat)
  /-- Published in a slot. -/
  | slotted (slot : String)
  /-- Taken out of a slot and not scheduled yet. -/
  | taken
  /-- Suspended until frame `child` completes. -/
  | awaiting (child : FrameId)
  /-- Being polled. -/
  | polled
  /-- Its body has returned. -/
  | complete
  /-- Suspended, and nothing is going to wake it. -/
  | adrift
  /-- Between two places, in the middle of a step; `child`, if any, is going to wake it. -/
  | hand (child : Option FrameId)
  deriving DecidableEq

namespace Spot

/-- The frame whose completion wakes a frame. -/
def child : Spot → Option FrameId
  | .awaiting c => some c
  | .hand c => c
  | _ => none

/-- The frame was started and has not returned. -/
def IsPending : Spot → Prop
  | .absent | .unstarted | .complete => False
  | _ => True

/-- The frame is suspended and in no one's hands. -/
def Waits : Spot → Prop
  | .awaiting _ | .adrift => True
  | _ => False

theorem Waits.isPending {s : Spot} (h : s.Waits) : s.IsPending := by
  cases s <;> first | exact h.elim | trivial

/-- The frame is between two places. -/
def IsHand : Spot → Prop
  | .hand _ => True
  | _ => False

/-- How far the life of a frame can have got. -/
def Allows : Spot → Stage → Prop
  | .unstarted, s => s = .created
  | .listed _, s => s = .created ∨ s = .suspended
  | .slotted _, s | .taken, s | .awaiting _, s | .adrift, s => s = .suspended
  | .polled, s => s = .running
  | .complete, s => s = .complete
  | .absent, _ | .hand _, _ => True

/-- How many handles there are on a frame that are started or not. -/
def owed : Spot → Disposal → Bool → Nat
  | .absent, _, _ => 0
  | .unstarted, _, started => if started then 0 else 1
  | _, .awaited, started => if started then 1 else 0
  | _, .detached, _ => 0

end Spot

/-- A wait for one thing at a time; only alone is that thing a task without a name. -/
def Wait.Solitary : Wait → Prop
  | .one _ | .spin .. => True
  | .all l | .any l => l.length ≤ 1 ∧ ∀ t, .child t ∉ l

/-- What the record of a frame in a place looks like. -/
structure Fits (fr : Frame) (s : Spot) : Prop where
  /-- It is alive unless it is absent. -/
  alive : fr.alive = true ↔ s ≠ .absent
  /-- Its life got as far as the place says. -/
  stage : s.Allows fr.stage
  /-- A body that does not run holds no task. -/
  idle : s = .absent ∨ s = .unstarted ∨ s = .complete → fr.heldTasks = []
  /-- A frame that was not started or has returned belongs to a task. -/
  awaited : s = .unstarted ∨ s = .complete → fr.disposal = .awaited
  /-- What belongs to a task keeps its result. -/
  keeps : fr.disposal = .awaited → fr.keepsOutput = true
  /-- There is a result once the body has returned, and it is the body's. -/
  output : ¬ s.IsHand → fr.output = if s = .complete then some ⟨fr.acc, fr.guard⟩ else none
  /-- It is on no retire list. -/
  retired : s ≠ .absent → ¬ s.IsHand → fr.retired = false
  /-- It waits for one thing at a time. -/
  solitary : ∀ wait, fr.wait = some wait → wait.Solitary
  /-- The names of its tasks are distinct. -/
  names : (fr.tasks.map Prod.fst).Nodup

/-- What the record of a destroyed frame tells about its end. -/
def Ended (fr : Frame) : Ending → Prop
  | .taken o =>
    fr.disposal = .awaited ∧ fr.stage = .complete ∧ o = some ⟨fr.acc, fr.guard⟩
  | .dropped => fr.disposal = .awaited ∧ (fr.stage = .created ∨ fr.stage = .complete)
  | .retired => fr.disposal = .detached ∧ fr.stage = .complete

/-- What a thread and its caller know of the frames. -/
structure Around where
  /-- The thread. -/
  thread : ThreadId := 0
  /-- The frames being polled. -/
  polled : List FrameId := []
  /-- The handles outside the world. -/
  handles : List Task := []
  /-- The handles whose last state is not recorded in the world yet. -/
  spent : List Task := []
  /-- The frames taken out of slots. -/
  taken : List FrameId := []
  /-- The frames between two places. -/
  hand : List FrameId := []
  /-- The results of the bodies that have returned. -/
  returned : List (FrameId × Output) := []

/-- The handles in the world: those known by name and those that frames hold. -/
def World.held (w : World) : List Task :=
  w.tasks.values ++ (List.range w.frameCount).flatMap fun f => (w.frame f).heldTasks

/-- The lists, the slots and the surroundings name a frame exactly if that is its place. -/
structure Places (r : RunLists) (slot : String → Option FrameId) (a : Around)
    (spot : FrameId → Spot) : Prop where
  lists : r.Sound
  listed : ∀ q f, f ∈ r.toList q ↔ spot f = .listed q
  slotted : ∀ s f, slot s = some f ↔ spot f = .slotted s
  taken : ∀ f, f ∈ a.taken ↔ spot f = .taken
  taken_nodup : a.taken.Nodup
  polled : ∀ f, f ∈ a.polled ↔ spot f = .polled
  polled_nodup : a.polled.Nodup
  hand : ∀ f, f ∈ a.hand ↔ (spot f).IsHand
  hand_nodup : a.hand.Nodup

/-- Places do not depend on handles. -/
theorem Places.of_around {r : RunLists} {slot : String → Option FrameId} {a a' : Around}
    {spot : FrameId → Spot} (h : Places r slot a spot) (htaken : a'.taken = a.taken)
    (hpolled : a'.polled = a.polled) (hhand : a'.hand = a.hand) : Places r slot a' spot := by
  obtain ⟨thread, polled, handles, spent, taken, hand, returned⟩ := a
  obtain ⟨thread', polled', handles', spent', taken', hand', returned'⟩ := a'
  simp only at htaken hpolled hhand
  subst htaken hpolled hhand
  exact ⟨h.lists, h.listed, h.slotted, h.taken, h.taken_nodup, h.polled, h.polled_nodup, h.hand,
    h.hand_nodup⟩

/-- Each frame is where `spot` says, and nowhere else. -/
structure Layout (w : World) (a : Around) (spot : FrameId → Spot) : Prop extends
    Places w.runLists w.slot a spot where
  /-- The continuation of a frame is the frame that waits for it. -/
  awaiting : ∀ c f, (w.frame c).continuation = some f ↔ (spot f).child = some c
  /-- A frame waits only for one that was started and has not returned. -/
  child : ∀ c f, (spot f).child = some c → (spot c).IsPending
  /-- A frame that wakes another one belongs to a task. -/
  owned : ∀ c f, (w.frame c).continuation = some f → (w.frame c).disposal = .awaited
  /-- The record of each frame fits its place. -/
  frames : ∀ f, Fits (w.frame f) (spot f)
  /-- Only frames that were made are somewhere. -/
  made : ∀ f, spot f ≠ .absent → f < w.frameCount
  /-- The frames that were made and are absent are those that were destroyed. -/
  ended : ∀ f, f ∈ w.ends.map Prod.fst ↔ f < w.frameCount ∧ spot f = .absent
  ended_nodup : (w.ends.map Prod.fst).Nodup
  /-- Each of them ended in keeping with its record. -/
  endings : ∀ e ∈ w.ends, Ended (w.frame e.1) e.2
  /-- A frame has one handle that owns it, or none if it is detached. -/
  handles : ∀ c b, (w.held ++ a.handles).count ⟨some c, b⟩ =
    (spot c).owed (w.frame c).disposal b + a.spent.count ⟨some c, b⟩
  /-- The tasks known by name are in order. -/
  ordered : w.tasks.Ordered
  /-- Every frame is bound to the thread. -/
  home : ∀ f, spot f ≠ .absent → (w.frame f).home = some a.thread
  /-- The record of a frame whose body has returned still tells its result. -/
  returned : ∀ f o, (f, o) ∈ a.returned ↔
    f < w.frameCount ∧ (w.frame f).stage = .complete ∧ o = ⟨(w.frame f).acc, (w.frame f).guard⟩

/-! ## What a layout depends on -/

/-- Two worlds agree on everything that places frames. -/
structure World.Agrees (w w' : World) : Prop where
  frame : ∀ f, w'.frame f = w.frame f
  frameCount : w'.frameCount = w.frameCount
  ends : w'.ends = w.ends
  runLists : w'.runLists = w.runLists
  tasks : w'.tasks = w.tasks
  slots : w'.slots = w.slots

theorem World.Agrees.held {w w' : World} (h : w.Agrees w') : w'.held = w.held := by
  simp only [World.held, h.tasks, h.frameCount, h.frame]

theorem Layout.of_agrees {w w' : World} {a : Around} {spot : FrameId → Spot} (h : Layout w a spot)
    (hw : w.Agrees w') : Layout w' a spot := by
  have hslot : ∀ s, w'.slot s = w.slot s := fun s => by rw [World.slot, World.slot, hw.slots]
  refine ⟨{ h.toPlaces with lists := ?_, listed := ?_, slotted := ?_ }, ?_, h.child, ?_, ?_, ?_, ?_,
    ?_, ?_, ?_, ?_, ?_, ?_⟩
  · rw [hw.runLists]; exact h.lists
  · rw [hw.runLists]; exact h.listed
  · simpa only [hslot] using h.slotted
  · simpa only [hw.frame] using h.awaiting
  · simpa only [hw.frame] using h.owned
  · simpa only [hw.frame] using h.frames
  · rw [hw.frameCount]; exact h.made
  · rw [hw.ends, hw.frameCount]; exact h.ended
  · rw [hw.ends]; exact h.ended_nodup
  · rw [hw.ends]
    simpa only [hw.frame] using h.endings
  · rw [hw.held]
    simpa only [hw.frame] using h.handles
  · rw [hw.tasks]; exact h.ordered
  · simpa only [hw.frame] using h.home
  · simpa only [hw.frame, hw.frameCount] using h.returned

/-! ## Lists and slots -/

theorem readyList_inj {k k' : Nat} : readyList k = readyList k' ↔ k = k' := by
  unfold readyList
  omega

theorem deferredList_inj {k k' : Nat} : deferredList k = deferredList k' ↔ k = k' := by
  unfold deferredList
  omega

theorem readyList_ne_deferredList (k k' : Nat) : readyList k ≠ deferredList k' := by
  unfold readyList deferredList
  omega

/-- The next frame is on top of the ready list, or it is the oldest deferred one. -/
theorem World.nextFrame_some {w w' : World} {k : WorkerId} {f : FrameId}
    (h : w.nextFrame k = some (f, w')) : ∃ r, w' = { w with runLists := r } ∧
      (w.runLists.pop (readyList k) = some (f, r) ∨ w.runLists.pop (readyList k) = none ∧
        (w.runLists.pour (deferredList k) (readyList k) (w.runLists.length (deferredList k))).pop
          (readyList k) = some (f, r)) := by
  unfold nextFrame at h
  split at h
  · rename_i r hpop
    cases h
    exact ⟨r, rfl, .inl hpop⟩
  · rename_i hnone
    obtain ⟨⟨g, r⟩, hpop, e⟩ := Option.map_eq_some_iff.mp h
    cases e
    exact ⟨r, rfl, .inr ⟨hnone, hpop⟩⟩

theorem World.nextFrame_same {w w' : World} {k : WorkerId} {f : FrameId}
    (h : w.nextFrame k = some (f, w')) : w' = { w with runLists := w'.runLists } := by
  obtain ⟨r, rfl, -⟩ := nextFrame_some h
  rfl

theorem World.publish_ok {w w' : World} {slot : String} {f : FrameId}
    (h : w.publish slot f = .ok w') : w.slot slot = none ∧ w' = w.setSlot slot (some f) := by
  unfold publish at h
  split at h
  · cases h
  · rename_i hvacant
    cases h
    exact ⟨hvacant, rfl⟩

/-! ## Changing one frame -/

@[simp] theorem World.frame_modifyFrame (w : World) (f g : FrameId) (change : Frame → Frame) :
    (w.modifyFrame f change).frame g = if g = f then change (w.frame g) else w.frame g :=
  Table.get_modify _ _ _ _

private theorem count_flatMap_range_update {p q : Nat → List Task} {i n : Nat} (hi : i < n)
    (heq : ∀ j, j ≠ i → p j = q j) (t : Task) :
    ((List.range n).flatMap p).count t + (q i).count t =
      ((List.range n).flatMap q).count t + (p i).count t := by
  induction n with
  | zero => omega
  | succ n ih =>
    simp only [List.range_succ, List.flatMap_append, List.flatMap_cons, List.flatMap_nil,
      List.append_nil, List.count_append]
    by_cases hin : i = n
    · subst hin
      have hbelow : (List.range i).flatMap p = (List.range i).flatMap q := by
        rw [List.flatMap_def, List.flatMap_def]
        congr 1
        refine List.map_congr_left fun j hj => heq j ?_
        have := List.mem_range.mp hj
        omega
      rw [hbelow]
      omega
    · have := ih (by omega)
      rw [heq n fun h => hin h.symm]
      omega

theorem World.count_held (w : World) (t : Task) :
    w.held.count t = w.tasks.values.count t +
      ((List.range w.frameCount).flatMap fun f : Nat => (w.frame f).heldTasks).count t :=
  List.count_append

/-- The handles in the world when one frame comes to hold others. -/
theorem World.count_held_modifyFrame (w : World) {f : FrameId} (hf : f < w.frameCount)
    (change : Frame → Frame) (t : Task) :
    (w.modifyFrame f change).held.count t + (w.frame f).heldTasks.count t =
      w.held.count t + (change (w.frame f)).heldTasks.count t := by
  have hframes := count_flatMap_range_update
    (p := fun g => ((w.modifyFrame f change).frame g).heldTasks)
    (q := fun g => (w.frame g).heldTasks) hf (fun g hg => by simp [hg]) t
  have hself : (w.modifyFrame f change).frame f = change (w.frame f) := by simp
  simp only [hself] at hframes
  rw [World.count_held, World.count_held]
  show w.tasks.values.count t + ((List.range w.frameCount).flatMap _).count t + _ = _
  omega

namespace Layout

variable {w : World} {a : Around} {spot : FrameId → Spot}

theorem lt_of_pending (h : Layout w a spot) {f : FrameId} (hf : (spot f).IsPending) :
    f < w.frameCount := by
  refine h.made f fun habs => ?_
  rw [habs] at hf
  exact hf

theorem isAtHome (h : Layout w a spot) {f : FrameId} (hf : spot f ≠ .absent) :
    (w.frame f).isAtHome a.thread = true := by
  rw [Frame.isAtHome, h.home f hf]
  exact beq_self_eq_true a.thread

/-- The record of a frame changes, and handles may move between it and the outside. -/
theorem modifyFrame (h : Layout w a spot) {f : FrameId} (hf : spot f ≠ .absent)
    {change : Frame → Frame} {handles spent : List Task} {returned : List (FrameId × Output)}
    (hcont : (change (w.frame f)).continuation = (w.frame f).continuation)
    (hdisp : (change (w.frame f)).disposal = (w.frame f).disposal)
    (hhome : (change (w.frame f)).home = (w.frame f).home)
    (hreturned : ∀ g o, (g, o) ∈ returned ↔ if g = f then
        (change (w.frame f)).stage = .complete ∧
          o = ⟨(change (w.frame f)).acc, (change (w.frame f)).guard⟩
      else (g, o) ∈ a.returned)
    (hfits : Fits (change (w.frame f)) (spot f))
    (hcount : ∀ c b, (change (w.frame f)).heldTasks.count ⟨some c, b⟩ + handles.count ⟨some c, b⟩ +
        a.spent.count ⟨some c, b⟩ =
      (w.frame f).heldTasks.count ⟨some c, b⟩ + a.handles.count ⟨some c, b⟩ +
        spent.count ⟨some c, b⟩) :
    Layout (w.modifyFrame f change) { a with handles, spent, returned } spot := by
  have hlt := h.made f hf
  refine { h with
    awaiting := ?_, owned := ?_, frames := ?_, endings := ?_, handles := ?_, home := ?_
    returned := ?_ }
  · intro c g
    rw [← h.awaiting c g, World.frame_modifyFrame]
    split
    · rename_i hc
      rw [hc, hcont]
    · rfl
  · intro c g
    rw [World.frame_modifyFrame]
    split
    · rename_i hc
      rw [hc, hcont, hdisp]
      exact h.owned f g
    · exact h.owned c g
  · intro g
    rw [World.frame_modifyFrame]
    split
    · rename_i hg
      rw [hg]
      exact hfits
    · exact h.frames g
  · intro e he
    -- a destroyed frame is absent, so it is not the one that changes
    have hne : e.1 ≠ f := by
      intro heq
      have := (h.ended e.1).mp (List.mem_map_of_mem he)
      exact hf (heq ▸ this.2)
    rw [World.frame_modifyFrame, if_neg hne]
    exact h.endings e he
  · intro c b
    have hworld := w.count_held_modifyFrame hlt change ⟨some c, b⟩
    have hold := h.handles c b
    have hmoved := hcount c b
    have hd : ((w.modifyFrame f change).frame c).disposal = (w.frame c).disposal := by
      rw [World.frame_modifyFrame]
      split
      · rename_i hc
        rw [hc, hdisp]
      · rfl
    rw [hd]
    rw [List.count_append] at hold ⊢
    show _ + handles.count _ = _ + spent.count _
    omega
  · intro g hg
    rw [World.frame_modifyFrame]
    split
    · rename_i hgf
      rw [hgf, hhome]
      exact h.home f hf
    · exact h.home g hg
  · intro g o
    rw [World.frame_modifyFrame]
    refine (hreturned g o).trans ?_
    split
    · rename_i hg
      subst hg
      exact ⟨fun hr => ⟨hlt, hr⟩, fun hr => hr.2⟩
    · exact h.returned g o

end Layout

/-- A frame that was started has one handle, which is started, unless it is detached. -/
theorem Spot.owed_started {s : Spot} (hs : s.IsPending ∨ s = .complete) (d : Disposal) (b : Bool) :
    s.owed d b = if d = .awaited ∧ b = true then 1 else 0 := by
  rcases hs with hs | rfl
  · cases s <;> cases d <;> simp_all [IsPending, owed]
  · cases d <;> simp [owed]

/-- A record fits every place of a frame in flight that its stage allows. -/
theorem Fits.move {fr : Frame} {s s' : Spot} (h : Fits fr s) (hs : s = .unstarted ∨ s.IsPending)
    (hhand : ¬ s.IsHand) (hs' : s'.IsPending) (hstage : s'.Allows fr.stage) : Fits fr s' := by
  have hlive : s ≠ .absent ∧ s ≠ .complete := by
    rcases hs with rfl | hs
    · exact ⟨nofun, nofun⟩
    · exact ⟨fun e => by rw [e] at hs; exact hs, fun e => by rw [e] at hs; exact hs⟩
  have hlive' : s' ≠ .absent ∧ s' ≠ .unstarted ∧ s' ≠ .complete := by
    refine ⟨?_, ?_, ?_⟩ <;> (rintro rfl; exact hs')
  refine { h with
    alive := ?_, stage := hstage, idle := ?_, awaited := ?_, output := ?_, retired := ?_ }
  · rw [h.alive]
    exact ⟨fun _ => hlive'.1, fun _ => hlive.1⟩
  · rintro (e | e | e)
    · exact absurd e hlive'.1
    · exact absurd e hlive'.2.1
    · exact absurd e hlive'.2.2
  · rintro (e | e)
    · exact absurd e hlive'.2.1
    · exact absurd e hlive'.2.2
  · intro _
    rw [if_neg hlive'.2.2, h.output hhand, if_neg hlive.2]
  · intro _ _
    exact h.retired hlive.1 hhand

/-! ## Moving one frame -/

/-- The places after frame `f` went to `s`. -/
def put (spot : FrameId → Spot) (f : FrameId) (s : Spot) : FrameId → Spot :=
  fun g => if g = f then s else spot g

@[simp] theorem put_self (spot : FrameId → Spot) (f : FrameId) (s : Spot) : put spot f s f = s := by
  simp [put]

theorem put_of_ne (spot : FrameId → Spot) {f g : FrameId} (s : Spot) (h : g ≠ f) :
    put spot f s g = spot g := by
  simp [put, h]

theorem put_put (spot : FrameId → Spot) (f : FrameId) (s s' : Spot) :
    put (put spot f s) f s' = put spot f s' := by
  funext g
  unfold put
  split <;> rfl

namespace Layout

variable {w : World} {a : Around} {spot : FrameId → Spot}

/-- Frames go from one place to another, and with them handles may change. -/
theorem relocate (h : Layout w a spot) {w' : World} {a' : Around} {spot' : FrameId → Spot}
    (habsent : ∀ g, spot' g = .absent ↔ spot g = .absent)
    (hchild : ∀ g, (spot' g).child = (spot g).child)
    (hwoken : ∀ c g, (spot g).child = some c → (spot' c).IsPending)
    (hfits : ∀ g, Fits (w.frame g) (spot' g)) (hplaces : Places w'.runLists w'.slot a' spot')
    (hframes : w'.frames = w.frames) (hcount : w'.frameCount = w.frameCount)
    (hends : w'.ends = w.ends) (htasks : w'.tasks = w.tasks) (hthread : a'.thread = a.thread)
    (hreturned : a'.returned = a.returned)
    (howed : ∀ c b, a'.handles.count ⟨some c, b⟩ + (spot c).owed (w.frame c).disposal b +
        a.spent.count ⟨some c, b⟩ =
      a.handles.count ⟨some c, b⟩ + (spot' c).owed (w.frame c).disposal b +
        a'.spent.count ⟨some c, b⟩) :
    Layout w' a' spot' := by
  have hframe : ∀ g, w'.frame g = w.frame g := fun g => by rw [World.frame, World.frame, hframes]
  refine ⟨hplaces, ?_, ?_, ?_, ?_, ?_, ?_, ?_, ?_, ?_, ?_, ?_, ?_⟩
  · intro c g
    rw [hframe, hchild]
    exact h.awaiting c g
  · intro c g hg
    rw [hchild] at hg
    exact hwoken c g hg
  · simpa only [hframe] using h.owned
  · simpa only [hframe] using hfits
  · intro g hg
    rw [hcount]
    exact h.made g fun e => hg ((habsent g).mpr e)
  · intro g
    rw [hends, hcount, habsent]
    exact h.ended g
  · rw [hends]
    exact h.ended_nodup
  · rw [hends]
    simpa only [hframe] using h.endings
  · intro c b
    have hheld : w'.held = w.held := by simp only [World.held, htasks, hcount, hframe]
    have hold := h.handles c b
    have hnew := howed c b
    rw [List.count_append] at hold ⊢
    rw [hheld, hframe]
    omega
  · rw [htasks]
    exact h.ordered
  · intro g hg
    rw [hthread, hframe]
    exact h.home g fun e => hg ((habsent g).mpr e)
  · rw [hreturned, hcount]
    simpa only [hframe] using h.returned

/-- One frame goes from one place to another, and with it handles may change. -/
theorem relocate_one (h : Layout w a spot) {w' : World} {a' : Around} {f : FrameId} {s : Spot}
    (hf : spot f ≠ .absent) (hs : s ≠ .absent) (hchild : s.child = (spot f).child)
    (hwoken : ∀ g, (spot g).child = some f → s.IsPending) (hfits : Fits (w.frame f) s)
    (hplaces : Places w'.runLists w'.slot a' (put spot f s)) (hframes : w'.frames = w.frames)
    (hcount : w'.frameCount = w.frameCount) (hends : w'.ends = w.ends)
    (htasks : w'.tasks = w.tasks) (hthread : a'.thread = a.thread)
    (hreturned : a'.returned = a.returned)
    (howed : ∀ c b, a'.handles.count ⟨some c, b⟩ + (spot c).owed (w.frame c).disposal b +
        a.spent.count ⟨some c, b⟩ =
      a.handles.count ⟨some c, b⟩ + (put spot f s c).owed (w.frame c).disposal b +
        a'.spent.count ⟨some c, b⟩) :
    Layout w' a' (put spot f s) := by
  refine h.relocate ?_ ?_ ?_ ?_ hplaces hframes hcount hends htasks hthread hreturned
    howed
  · intro g
    by_cases hg : g = f
    · rw [hg, put_self]
      exact ⟨fun e => absurd e hs, fun e => absurd e hf⟩
    · rw [put_of_ne spot s hg]
  · intro g
    by_cases hg : g = f
    · rw [hg, put_self, hchild]
    · rw [put_of_ne spot s hg]
  · intro c g hg
    by_cases hc : c = f
    · subst hc
      rw [put_self]
      exact hwoken g hg
    · rw [put_of_ne spot s hc]
      exact h.child c g hg
  · intro g
    by_cases hg : g = f
    · subst hg
      rw [put_self]
      exact hfits
    · rw [put_of_ne spot s hg]
      exact h.frames g

/-- A frame in flight goes from one place to another. -/
theorem move (h : Layout w a spot) {w' : World} {a' : Around} {f : FrameId} {s : Spot}
    (hf : (spot f).IsPending) (hs : s.IsPending) (hchild : s.child = (spot f).child)
    (hfits : Fits (w.frame f) s) (hplaces : Places w'.runLists w'.slot a' (put spot f s))
    (hframes : w'.frames = w.frames) (hcount : w'.frameCount = w.frameCount)
    (hends : w'.ends = w.ends) (htasks : w'.tasks = w.tasks) (hhandles : a'.handles = a.handles)
    (hspent : a'.spent = a.spent) (hthread : a'.thread = a.thread)
    (hreturned : a'.returned = a.returned) : Layout w' a' (put spot f s) := by
  have hne : spot f ≠ .absent := fun e => by rw [e] at hf; exact hf
  have hne' : s ≠ .absent := fun e => by rw [e] at hs; exact hs
  refine h.relocate_one hne hne' hchild (fun _ _ => hs) hfits hplaces hframes hcount
    hends htasks hthread
    hreturned ?_
  intro c b
  rw [hhandles, hspent]
  by_cases hc : c = f
  · subst hc
    rw [put_self, Spot.owed_started (.inl hf), Spot.owed_started (.inl hs)]
  · rw [put_of_ne spot s hc]

/-! ### Polls -/

/-- A poll is about to end. -/
theorem unpoll {f : FrameId} (h : Layout w { a with polled := f :: a.polled } spot) :
    Layout w { a with hand := f :: a.hand } (put spot f (.hand none)) := by
  have hf : spot f = .polled := (h.polled f).mp List.mem_cons_self
  have hfits := h.frames f
  rw [hf] at hfits
  refine h.move (by rw [hf]; trivial) trivial (by rw [hf]; rfl)
    (hfits.move (.inr trivial) id trivial trivial) ?_ rfl rfl rfl rfl rfl rfl rfl rfl
  have hplaces := h.toPlaces
  constructor <;> grind [put, Spot.IsHand, cases Places]

/-- A poll has begun. -/
theorem poll {f : FrameId} (h : Layout w { a with hand := f :: a.hand } spot)
    (hf : spot f = .hand none) (hfits : Fits (w.frame f) .polled) :
    Layout w { a with polled := f :: a.polled } (put spot f .polled) := by
  refine h.move (by rw [hf]; trivial) trivial (by rw [hf]; rfl) hfits ?_ rfl rfl rfl
    rfl rfl rfl rfl rfl
  have hplaces := h.toPlaces
  constructor <;> grind [put, Spot.IsHand, cases Places]

/-! ### Run lists -/

/-- A frame goes on a run list. -/
theorem push {f : FrameId} (h : Layout w { a with hand := f :: a.hand } spot)
    (hf : spot f = .hand none) {q : Nat} (hfits : Fits (w.frame f) (.listed q)) :
    ∃ r, w.runLists.push q f = some r ∧
      Layout { w with runLists := r } a (put spot f (.listed q)) := by
  have hoff : ∀ q, f ∉ w.runLists.toList q := by
    intro q hmem
    have := (h.listed q f).mp hmem
    rw [hf] at this
    cases this
  obtain ⟨r, hpush, hr, hlists⟩ := h.lists.push hoff q
  refine ⟨r, hpush, h.move (by rw [hf]; trivial) trivial (by rw [hf]; rfl) hfits ?_
    rfl rfl rfl rfl rfl rfl rfl rfl⟩
  have hplaces := h.toPlaces
  show Places r w.slot _ _
  constructor <;> grind [put, Spot.IsHand, cases Places]

theorem enqueue {f : FrameId} (h : Layout w { a with hand := f :: a.hand } spot)
    (hf : spot f = .hand none) {k : WorkerId} (hfits : Fits (w.frame f) (.listed (readyList k))) :
    Layout (w.enqueue k f) a (put spot f (.listed (readyList k))) := by
  obtain ⟨r, hpush, hr⟩ := h.push hf hfits
  rw [World.enqueue, hpush]
  exact hr.of_agrees ⟨fun _ => rfl, rfl, rfl, rfl, rfl, rfl⟩

theorem defer {f : FrameId} (h : Layout w { a with hand := f :: a.hand } spot)
    (hf : spot f = .hand none) {k : WorkerId}
    (hfits : Fits (w.frame f) (.listed (deferredList k))) :
    Layout (w.defer k f) a (put spot f (.listed (deferredList k))) := by
  obtain ⟨r, hpush, hr⟩ := h.push hf hfits
  rw [World.defer, hpush]
  exact hr

/-- The frame on top of a run list is taken off it. -/
theorem pop (h : Layout w a spot) {q : Nat} {f : FrameId} {r : RunLists}
    (hpop : w.runLists.pop q = some (f, r)) :
    spot f = .listed q ∧
      Layout { w with runLists := r } { a with hand := f :: a.hand } (put spot f (.hand none)) := by
  obtain ⟨below, hq, hr, hlists⟩ := h.lists.pop_cases hpop
  have hf : spot f = .listed q := (h.listed q f).mp (by rw [hq]; exact List.mem_cons_self)
  have hfits := h.frames f
  rw [hf] at hfits
  refine ⟨hf, h.move (by rw [hf]; trivial) trivial (by rw [hf]; rfl)
    (hfits.move (.inr trivial) id trivial trivial) ?_ rfl rfl rfl rfl rfl rfl rfl rfl⟩
  have hnodup := RunLists.Refines.nodup h.lists q
  rw [hq, List.nodup_cons] at hnodup
  have hplaces := h.toPlaces
  show Places r w.slot _ _
  constructor <;> grind [put, Spot.IsHand, cases Places]

/-- The places after the deferred list of a worker went over to its ready list. -/
def refilled (spot : FrameId → Spot) (k : WorkerId) : FrameId → Spot :=
  fun g => if spot g = .listed (deferredList k) then .listed (readyList k) else spot g

theorem pour (h : Layout w a spot) (k : WorkerId) :
    Layout { w with runLists := w.runLists.pour (deferredList k) (readyList k)
                      (w.runLists.length (deferredList k)) } a (refilled spot k) := by
  have hne := (readyList_ne_deferredList k k).symm
  obtain ⟨hr, hlists⟩ := RunLists.Sound.pour hne (w.runLists.length (deferredList k)) h.lists
  generalize w.runLists.pour _ _ _ = r at hr hlists ⊢
  rw [← h.lists.length_toList, List.take_length, List.drop_length] at hlists
  have hspot : ∀ g, refilled spot k g = spot g ∨ spot g = .listed (deferredList k) ∧
      refilled spot k g = .listed (readyList k) := by
    intro g
    unfold refilled
    split
    · exact .inr ⟨‹_›, rfl⟩
    · exact .inl rfl
  refine h.relocate ?_ ?_ ?_ ?_ ?_ rfl rfl rfl rfl rfl rfl ?_
  · intro g
    rcases hspot g with e | ⟨e, e'⟩
    · rw [e]
    · rw [e, e']
      exact ⟨nofun, nofun⟩
  · intro g
    rcases hspot g with e | ⟨e, e'⟩
    · rw [e]
    · rw [e, e']
      rfl
  · intro c g hg
    rcases hspot c with e | ⟨_, e'⟩
    · rw [e]
      exact h.child c g hg
    · rw [e']
      trivial
  · intro g
    have hfits := h.frames g
    rcases hspot g with e | ⟨e, e'⟩
    · rw [e]
      exact hfits
    · rw [e] at hfits
      rw [e']
      exact hfits.move (.inr trivial) id trivial hfits.stage
  · have hplaces := h.toPlaces
    show Places r w.slot _ _
    constructor <;> grind [refilled, Spot.IsHand, cases Places]
  · intro c b
    rcases hspot c with e | ⟨e, e'⟩
    · rw [e]
    · rw [e, e', Spot.owed_started (s := .listed (deferredList k)) (.inl trivial),
        Spot.owed_started (s := .listed (readyList k)) (.inl trivial)]

/-- What `nextFrame` hands out was on a list of the worker. -/
theorem nextFrame (h : Layout w a spot) {k : WorkerId} {f : FrameId} {w' : World}
    (hnext : w.nextFrame k = some (f, w')) :
    ∃ spot', Layout w' { a with hand := f :: a.hand } (put spot' f (.hand none)) ∧
      (∃ q, spot f = .listed q) ∧ (∃ runLists, w' = { w with runLists }) ∧
      (spot' = spot ∨ spot' = refilled spot k) := by
  obtain ⟨r, rfl, hpop | ⟨-, hpop⟩⟩ := World.nextFrame_some hnext
  · obtain ⟨hf, h'⟩ := h.pop hpop
    exact ⟨spot, h', ⟨_, hf⟩, ⟨_, rfl⟩, .inl rfl⟩
  · obtain ⟨hf, h'⟩ := (h.pour k).pop hpop
    refine ⟨_, h', ?_, ⟨_, rfl⟩, .inr rfl⟩
    unfold refilled at hf
    split at hf
    · exact ⟨_, ‹_›⟩
    · exact ⟨_, hf⟩

/-! ### Slots -/

theorem slot_setSlot (w : World) (slot : String) (f : Option FrameId) (s : String) :
    (w.setSlot slot f).slot s = if s = slot then f else w.slot s := by
  simp only [World.slot, World.setSlot, Registers.get?_set]
  split <;> rfl

/-- Emptying a vacant slot changes nothing. -/
theorem vacate (h : Layout w a spot) {slot : String} (hslot : w.slot slot = none) :
    Layout (w.setSlot slot none) a spot := by
  have hsame : (w.setSlot slot none).slot = w.slot := by
    funext s
    rw [slot_setSlot]
    split
    · rename_i hs
      rw [hs, hslot]
    · rfl
  refine h.relocate (fun _ => Iff.rfl) (fun _ => rfl) (fun c g hg => h.child c g hg) h.frames ?_
    rfl rfl rfl rfl rfl rfl (fun _ _ => rfl)
  rw [hsame]
  exact h.toPlaces

/-- A frame is taken out of its slot. -/
theorem takeSlot (h : Layout w a spot) {slot : String} {f : FrameId}
    (hslot : w.slot slot = some f) :
    Layout (w.setSlot slot none) { a with hand := f :: a.hand } (put spot f (.hand none)) := by
  have hf : spot f = .slotted slot := (h.slotted slot f).mp hslot
  have hfits := h.frames f
  rw [hf] at hfits
  refine h.move (by rw [hf]; trivial) trivial (by rw [hf]; rfl)
    (hfits.move (.inr trivial) id trivial trivial) ?_ rfl rfl rfl rfl rfl rfl rfl rfl
  have hplaces := h.toPlaces
  have hslots := slot_setSlot w slot none
  show Places w.runLists _ _ _
  constructor <;> grind [put, Spot.IsHand, cases Places]

/-- A frame is published in a vacant slot. -/
theorem publish {f : FrameId} (h : Layout w { a with hand := f :: a.hand } spot)
    (hf : spot f = .hand none) {slot : String} (hslot : w.slot slot = none)
    (hfits : Fits (w.frame f) (.slotted slot)) :
    Layout (w.setSlot slot (some f)) a (put spot f (.slotted slot)) := by
  refine h.move (by rw [hf]; trivial) trivial (by rw [hf]; rfl) hfits ?_ rfl rfl rfl
    rfl rfl rfl rfl rfl
  have hplaces := h.toPlaces
  have hslots := slot_setSlot w slot (some f)
  show Places w.runLists _ _ _
  constructor <;> grind [put, Spot.IsHand, cases Places]

/-! ### Frames that a caller has taken or that go nowhere -/

/-- A frame taken out of a slot is kept. -/
theorem keep {f : FrameId} (h : Layout w { a with hand := f :: a.hand } spot)
    (hf : spot f = .hand none) (hfits : Fits (w.frame f) .taken) :
    Layout w { a with taken := f :: a.taken } (put spot f .taken) := by
  refine h.move (by rw [hf]; trivial) trivial (by rw [hf]; rfl) hfits ?_ rfl rfl rfl
    rfl rfl rfl rfl rfl
  have hplaces := h.toPlaces
  constructor <;> grind [put, Spot.IsHand, cases Places]

/-- A frame that was kept is about to be scheduled. -/
theorem unkeep (h : Layout w a spot) {f : FrameId} (hf : f ∈ a.taken) :
    Layout w { a with taken := a.taken.erase f, hand := f :: a.hand }
    (put spot f (.hand none)) := by
  have hspot : spot f = .taken := (h.taken f).mp hf
  have hfits := h.frames f
  rw [hspot] at hfits
  refine h.move (by rw [hspot]; trivial) trivial (by rw [hspot]; rfl)
    (hfits.move (.inr trivial) id trivial trivial) ?_ rfl rfl rfl rfl rfl rfl rfl rfl
  have hplaces := h.toPlaces
  have herase := fun g => h.taken_nodup.mem_erase_iff (a := g) (b := f)
  have hnodup := h.taken_nodup.erase f
  constructor <;> grind [put, Spot.IsHand, cases Places]

/-- A suspended frame stays where its child will find it, or nowhere. -/
theorem settle {f : FrameId} (h : Layout w { a with hand := f :: a.hand } spot) {s : Spot}
    (hs : s = .adrift ∨ ∃ c, s = .awaiting c) (hchild : s.child = (spot f).child)
    (hfits : Fits (w.frame f) s) :
    Layout w a (put spot f s) := by
  have hf : (spot f).IsHand := (h.hand f).mp List.mem_cons_self
  have hpending : (spot f).IsPending := by
    cases hspot : spot f <;> simp_all [Spot.IsHand, Spot.IsPending]
  have hpending' : s.IsPending := by rcases hs with rfl | ⟨c, rfl⟩ <;> trivial
  refine h.move hpending hpending' hchild hfits ?_ rfl rfl rfl rfl rfl rfl rfl rfl
  have hplaces := h.toPlaces
  constructor <;> grind [put, Spot.IsHand, cases Places]

end Layout

end Substrate.Coro
