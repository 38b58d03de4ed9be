import Substrate.Proofs.Coro.Lifetimes

/-!
# Layouts and tasks

What the operations on handles do to a layout.  `Drops` collects what a caller
needs to know of the frames after handles were dropped: a frame that is gone was
not started or had returned, and a frame that is adrift waited for one that was
let go of.

* `Layout.dropTasks` drops handles, however far the destruction goes.
* `Layout.takeOutput` takes a result, `Layout.startTask` starts a task.
* `Layout.modifyBody` lets the body of a frame in flight go on.
-/

namespace Substrate.Coro

/-- Two worlds agree on what their workers are doing. -/
structure World.Steady (w w' : World) : Prop where
  current : ∀ k, (w'.worker k).current = (w.worker k).current
  suspension : ∀ k, (w'.worker k).suspension = (w.worker k).suspension
  retired : ∀ k, (w'.worker k).retired = (w.worker k).retired
  workerCount : w'.workerCount = w.workerCount
  workerNames : w'.workerNames = w.workerNames

namespace World.Steady

theorem refl (w : World) : w.Steady w :=
  ⟨fun _ => rfl, fun _ => rfl, fun _ => rfl, rfl, rfl⟩

theorem trans {w w' w'' : World} (h : w.Steady w') (h' : w'.Steady w'') : w.Steady w'' :=
  ⟨fun k => (h'.current k).trans (h.current k), fun k => (h'.suspension k).trans (h.suspension k),
    fun k => (h'.retired k).trans (h.retired k), h'.workerCount.trans h.workerCount,
    h'.workerNames.trans h.workerNames⟩

theorem of_workers {w w' : World} (hworkers : w'.workers = w.workers)
    (hcount : w'.workerCount = w.workerCount) (hnames : w'.workerNames = w.workerNames) :
    w.Steady w' := by
  refine ⟨fun k => ?_, fun k => ?_, fun k => ?_, hcount, hnames⟩ <;>
    rw [World.worker, World.worker, hworkers]

end World.Steady

@[simp] theorem World.worker_modifyWorker (w : World) (k k' : WorkerId) (change : Worker → Worker) :
    (w.modifyWorker k change).worker k' =
      if k' = k then change (w.worker k') else w.worker k' :=
  Table.get_modify _ _ _ _

theorem World.steady_count (w : World) (k : WorkerId) (change : Stats → Stats) :
    w.Steady (w.count k change) := by
  refine ⟨fun k' => ?_, fun k' => ?_, fun k' => ?_, rfl, rfl⟩ <;>
    (rw [World.count, World.worker_modifyWorker]; split <;> rfl)

theorem World.steady_enqueue (w : World) (k : WorkerId) (f : FrameId) :
    w.Steady (w.enqueue k f) := by
  unfold World.enqueue
  split
  · exact .refl w
  · rename_i runLists _
    have hpushed : w.Steady { w with runLists } := .of_workers rfl rfl rfl
    exact hpushed.trans (World.steady_count _ _ _)

/-! ## What becomes of places -/

/-- Where a frame can go in a part of a step that is not about it. -/
structure Goes (w w' : World) (s s' : Spot) : Prop where
  /-- What is in flight stays so; in particular it is not destroyed. -/
  pending : s.IsPending → s'.IsPending
  /-- It is lost only if the frame it waits for was let go of. -/
  strand : s' = .adrift → s = .adrift ∨ ∃ c, s = .awaiting c ∧
    (w.frame c).disposal = .awaited ∧ (w'.frame c).disposal = .detached
  /-- It waits only for what it waited for before. -/
  child : ∀ c, s'.child = some c → s = s'
  /-- It is not woken. -/
  waits : s.Waits → s' = s ∨ s' = .adrift

theorem Goes.refl (w w' : World) (s : Spot) : Goes w w' s s :=
  ⟨id, .inl, fun _ _ => rfl, fun _ => .inl rfl⟩

/-- A frame that does not wait goes to a place where something is going to find it. -/
theorem Goes.of_active (w w' : World) {s s' : Spot} (hs : ¬ s.Waits) (hs' : s'.IsPending)
    (hchild : s'.child = none) (hne : s' ≠ .adrift) : Goes w w' s s' := by
  refine ⟨fun _ => hs', fun e => absurd e hne, fun c hc => ?_, fun h => absurd h hs⟩
  rw [hchild] at hc
  cases hc

/-- A frame that is not in flight goes somewhere. -/
theorem Goes.of_idle (w w' : World) {s s' : Spot} (hs : ¬ s.IsPending) (hs' : s'.child = none)
    (hne : s' ≠ .adrift) : Goes w w' s s' := by
  refine ⟨fun h => absurd h hs, fun e => absurd e hne, fun c hc => ?_, fun h => ?_⟩
  · rw [hs'] at hc
    cases hc
  · exact absurd h.isPending hs

theorem Goes.of_disposal {w w' w'' : World} {s s' : Spot} (h : Goes w w' s s')
    (hdisposal : ∀ c, (w''.frame c).disposal = (w'.frame c).disposal) : Goes w w'' s s' := by
  refine ⟨h.pending, ?_, h.child, h.waits⟩
  simpa only [hdisposal] using h.strand

theorem Goes.waits_trans {w w' w'' : World} {s s' s'' : Spot} (h : Goes w w' s s')
    (h' : Goes w' w'' s' s'') (hs : s.Waits) : s'' = s ∨ s'' = .adrift := by
  rcases h.waits hs with e | e
  · exact e ▸ h'.waits (e ▸ hs)
  · have := h'.waits (e ▸ trivial)
    rw [e, or_self] at this
    exact .inr this

/-- A part of a step that lets go of nothing comes before another. -/
theorem Goes.trans {w w' w'' : World} {s s' s'' : Spot} (h : Goes w w' s s')
    (hdisposal : ∀ c, (w'.frame c).disposal = (w.frame c).disposal) (h' : Goes w' w'' s' s'') :
    Goes w w'' s s'' := by
  refine ⟨fun hs => h'.pending (h.pending hs), fun e => ?_, fun c hc => ?_, h.waits_trans h'⟩
  · rcases h'.strand e with e' | ⟨c, hc, hawaited, hlost⟩
    · rcases h.strand e' with e | ⟨c, -, hawaited, hlost⟩
      · exact .inl e
      · rw [hdisposal, hawaited] at hlost
        cases hlost
    · have hsame := h.child c (by rw [hc]; rfl)
      exact .inr ⟨c, hsame.trans hc, (hdisposal c) ▸ hawaited, hlost⟩
  · have e := h'.child c hc
    exact (h.child c (e ▸ hc)).trans e

/-- Frames go where they can, and what is detached stays so. -/
structure Moves (w : World) (spot : FrameId → Spot) (w' : World) (spot' : FrameId → Spot) :
    Prop where
  goes : ∀ g, Goes w w' (spot g) (spot' g)
  detached : ∀ g, spot g ≠ .absent → (w.frame g).disposal = .detached →
    (w'.frame g).disposal = .detached

namespace Moves

variable {w w' w'' : World} {spot spot' spot'' : FrameId → Spot}

theorem of_frames (hgoes : ∀ g, Goes w w' (spot g) (spot' g))
    (hdisposal : ∀ g, spot g ≠ .absent → (w'.frame g).disposal = (w.frame g).disposal) :
    Moves w spot w' spot' :=
  ⟨hgoes, fun g hg hd => (hdisposal g hg).trans hd⟩

theorem refl (w : World) (spot : FrameId → Spot) : Moves w spot w spot :=
  of_frames (fun _ => .refl w w _) fun _ _ => rfl

/-- One frame goes to another place. -/
theorem put {f : FrameId} {s : Spot} (hf : Goes w w' (spot f) s)
    (hdisposal : ∀ g, spot g ≠ .absent → (w'.frame g).disposal = (w.frame g).disposal) :
    Moves w spot w' (put spot f s) := by
  refine of_frames (fun g => ?_) hdisposal
  by_cases hg : g = f
  · rw [hg, put_self]
    exact hf
  · rw [put_of_ne _ _ hg]
    exact .refl w w' _

theorem trans {a : Around} (hlayout : Layout w a spot) (h : Moves w spot w' spot')
    (h' : Moves w' spot' w'' spot'') : Moves w spot w'' spot'' := by
  -- a detached frame is in flight, so it is still somewhere after the first part
  have hdetached : ∀ g, spot g ≠ .absent → (w.frame g).disposal = .detached →
      spot' g ≠ .absent := by
    intro g hg hd habs
    have hpending : (spot g).IsPending := by
      have hawaited := (hlayout.frames g).awaited
      rw [hd] at hawaited
      cases hspot : spot g <;> simp_all [Spot.IsPending]
    have := (h.goes g).pending hpending
    rw [habs] at this
    exact this
  refine ⟨fun g => ⟨fun hg => (h'.goes g).pending ((h.goes g).pending hg), fun e => ?_,
    fun c hc => ?_, (h.goes g).waits_trans (h'.goes g)⟩,
    fun g hg hd => h'.detached g (hdetached g hg hd) (h.detached g hg hd)⟩
  · rcases (h'.goes g).strand e with e' | ⟨c, hc, hawaited, hlost⟩
    · rcases (h.goes g).strand e' with e | ⟨c, hc, hawaited, hlost⟩
      · exact .inl e
      · have hchild := hlayout.child c g (by rw [hc]; rfl)
        have hpresent := (h.goes c).pending hchild
        refine .inr ⟨c, hc, hawaited, h'.detached c ?_ hlost⟩
        intro habs
        rw [habs] at hpresent
        exact hpresent
    · have hsame := (h.goes g).child c (by rw [hc]; rfl)
      have hold : spot g = .awaiting c := hsame.trans hc
      have hpresent : spot c ≠ .absent := by
        intro habs
        have := hlayout.child c g (by rw [hold]; rfl)
        rw [habs] at this
        exact this
      refine .inr ⟨c, hold, ?_, hlost⟩
      cases hd : (w.frame c).disposal with
      | awaited => rfl
      | detached =>
        rw [h.detached c hpresent hd] at hawaited
        cases hawaited
  · have e := (h'.goes g).child c hc
    exact ((h.goes g).child c (e ▸ hc)).trans e

theorem of_disposal (h : Moves w spot w' spot')
    (hdisposal : ∀ g, (w''.frame g).disposal = (w'.frame g).disposal) : Moves w spot w'' spot' := by
  refine ⟨fun g => (h.goes g).of_disposal hdisposal, ?_⟩
  simpa only [hdisposal] using h.detached

theorem of_agrees (h : Moves w spot w' spot') (hw : w'.Agrees w'') : Moves w spot w'' spot' :=
  h.of_disposal fun g => by rw [hw.frame]

end Moves

/-- What dropping handles does. -/
structure Drops (w : World) (spot : FrameId → Spot) (w' : World) (spot' : FrameId → Spot) : Prop
    extends Moves w spot w' spot' where
  /-- The record of a frame that stays changes at most in who disposes of it and whom it wakes. -/
  record : ∀ g, spot' g ≠ .absent → ∃ continuation disposal,
    w'.frame g = { w.frame g with continuation, disposal }
  /-- A frame that is there was there before. -/
  present : ∀ g, spot' g ≠ .absent → spot g ≠ .absent
  steady : w.Steady w'

namespace Drops

variable {w w' w'' : World} {spot spot' spot'' : FrameId → Spot}

theorem refl (w : World) (spot : FrameId → Spot) : Drops w spot w spot :=
  ⟨.refl w spot, fun _ _ => ⟨_, _, rfl⟩, fun _ => id, .refl w⟩

theorem trans {a : Around} (hlayout : Layout w a spot) (h : Drops w spot w' spot')
    (h' : Drops w' spot' w'' spot'') : Drops w spot w'' spot'' := by
  refine ⟨h.toMoves.trans hlayout h'.toMoves, fun g hg => ?_,
    fun g hg => h.present g (h'.present g hg), h.steady.trans h'.steady⟩
  obtain ⟨cont, disp, e⟩ := h.record g (h'.present g hg)
  obtain ⟨cont', disp', e'⟩ := h'.record g hg
  exact ⟨cont', disp', by rw [e', e]⟩

theorem of_agrees (h : Drops w spot w' spot')
    (hw : w'.Agrees w'') (hsteady : w.Steady w'') : Drops w spot w'' spot' := by
  refine ⟨h.toMoves.of_agrees hw, ?_, h.present, hsteady⟩
  simpa only [hw.frame] using h.record

end Drops

/-! ## Dropping handles -/

theorem World.dropTasksWith_nil (fuel : Nat) (w : World) (p : Place) :
    World.dropTasksWith fuel w p [] = w := by
  cases fuel <;> rfl

/-- Handles are dropped one by one. -/
theorem World.dropTasksWith_cons (fuel : Nat) (w : World) (p : Place) (t : Task)
    (rest : List Task) :
    World.dropTasksWith fuel w p (t :: rest) =
      match w.letGo p t with
      | (w, none) => World.dropTasksWith fuel w p rest
      | (w, some held) =>
        match fuel with
        | 0 => w
        | fuel + 1 => World.dropTasksWith fuel w p (held ++ rest) := by
  cases fuel <;> rfl

/-- Handles are dropped one by one, and what a destroyed frame held goes right after it.  What each
of these drops keeps holds in the end, of the handles that are left if any. -/
theorem World.dropTasks_induct {P : World → List Task → Prop} (p : Place)
    (hstep : ∀ w t rest, P w (t :: rest) → P (w.letGo p t).1 ((w.letGo p t).2.getD [] ++ rest))
    {w : World} (ts : List Task) (h : P w ts) : ∃ rest, P (w.dropTasks p ts) rest := by
  have hthrough : ∀ {next : World → List Task → World},
      (∀ w ts, P w ts → ∃ rest, P (next w ts) rest) → ∀ (ts : List Task) (w : World), P w ts →
        ∃ rest, P (w.dropThrough next p ts) rest := by
    intro next hnext ts
    induction ts with
    | nil => exact fun w h => ⟨[], h⟩
    | cons t rest ih =>
      intro w h
      have hgone := hstep w t rest h
      unfold dropThrough
      generalize w.letGo p t = r at hgone
      obtain ⟨w', held⟩ := r
      cases held with
      | none => exact ih w' hgone
      | some held => exact hnext w' _ hgone
  have hwith : ∀ (fuel : Nat) (w : World) (ts : List Task), P w ts →
      ∃ rest, P (dropTasksWith fuel w p ts) rest := by
    intro fuel
    induction fuel with
    | zero => exact fun w ts => hthrough (fun _ ts h => ⟨ts, h⟩) ts w
    | succ fuel ih => exact fun w ts => hthrough ih ts w
  exact hwith w.frameCount w ts h

/-- What dropping any handle keeps, dropping any number of them keeps. -/
theorem World.dropTasks_keeps {P : World → Prop} (p : Place)
    (hstep : ∀ w t, P w → P (w.letGo p t).1) {w : World} (ts : List Task) (h : P w) :
    P (w.dropTasks p ts) := by
  obtain ⟨-, h⟩ := dropTasks_induct (P := fun w _ => P w) p (fun w t _ => hstep w t) ts h
  exact h

theorem World.noteDestroyed_cases (w : World) (p : Place) (runner : Option WorkerId) :
    w.noteDestroyed p runner = w ∨ ∃ k, w.noteDestroyed p runner =
      w.count k fun s => { s with destroyed := s.destroyed + 1 } := by
  unfold World.noteDestroyed
  split
  · exact .inl rfl
  · split
    · exact .inr ⟨_, rfl⟩
    · exact .inl rfl

theorem World.noteDestroyed_agrees (w : World) (p : Place) (runner : Option WorkerId) :
    w.Agrees (w.noteDestroyed p runner) := by
  rcases w.noteDestroyed_cases p runner with e | ⟨k, e⟩ <;>
    (rw [e]; exact ⟨fun _ => rfl, rfl, rfl, rfl, rfl, rfl⟩)

theorem World.steady_noteDestroyed (w : World) (p : Place) (runner : Option WorkerId) :
    w.Steady (w.noteDestroyed p runner) := by
  rcases w.noteDestroyed_cases p runner with e | ⟨k, e⟩
  · rw [e]
    exact .refl w
  · rw [e]
    exact w.steady_count k _

namespace Layout

variable {w : World} {a : Around} {spot : FrameId → Spot}

/-- The record of a frame is complete exactly if its body has returned. -/
theorem isComplete_iff (h : Layout w a spot) (hhand : a.hand = []) {c : FrameId}
    (hc : spot c ≠ .absent) : (w.frame c).isComplete = true ↔ spot c = .complete := by
  have hstage := (h.frames c).stage
  have hnot : ¬ (spot c).IsHand := by
    intro hn
    have := (h.hand c).mpr hn
    rw [hhand] at this
    cases this
  unfold Frame.isComplete
  cases hspot : spot c <;> simp_all [Spot.Allows, Spot.IsHand]
  rcases hstage with e | e <;> (rw [e]; rintro ⟨⟩)

/-- A handle outside the hands of a step refers to a frame that is there. -/
theorem ne_absent_of_mem (h : Layout w a spot) {c : FrameId} {b : Bool}
    (hmem : ⟨some c, b⟩ ∈ w.held ++ a.handles) (hspent : a.spent = []) : spot c ≠ .absent := by
  intro habs
  have := h.owed_of_lt (lt_of_mem hmem hspent)
  rw [habs] at this
  cases this

/-- Nothing waits for a frame that was not started or has returned. -/
theorem continuation_eq_none (h : Layout w a spot) {c : FrameId} (hc : ¬ (spot c).IsPending) :
    (w.frame c).continuation = none := by
  cases hcont : (w.frame c).continuation with
  | none => rfl
  | some g => exact absurd (h.child c g ((h.awaiting c g).mp hcont)) hc

theorem steady_endFrame (w : World) (p : Place) (f : FrameId) (ending : Ending) :
    w.Steady (w.endFrame p f ending).1 := by
  obtain ⟨log, heq⟩ := endFrame_eq w p f ending
  rw [heq]
  exact .of_workers rfl rfl rfl

theorem drops_endFrame (w : World) (spot : FrameId → Spot) (p : Place) {f : FrameId}
    (hf : spot f = .unstarted ∨ spot f = .complete) (ending : Ending) :
    Drops w spot (w.endFrame p f ending).1 (put spot f .absent) := by
  have hagree := endFrame_agrees w p f ending
  have hframe : ∀ g, (w.endFrame p f ending).1.frame g =
      if g = f then gone (w.frame g) else w.frame g :=
    fun g => (hagree.frame g).trans (World.frame_modifyFrame w f g gone)
  have hnot : ¬ (spot f).IsPending := by
    rcases hf with e | e <;> (rw [e]; exact id)
  refine ⟨.put (.of_idle _ _ hnot rfl nofun) fun g _ => ?_, fun g hg => ?_, fun g hg => ?_, ?_⟩
  · rw [hframe]
    split <;> rfl
  · by_cases hgf : g = f
    · rw [hgf, put_self] at hg
      exact absurd rfl hg
    · rw [hframe, if_neg hgf]
      exact ⟨_, _, rfl⟩
  · by_cases hgf : g = f
    · rw [hgf, put_self] at hg
      exact absurd rfl hg
    · rwa [put_of_ne _ _ hgf] at hg
  · exact steady_endFrame w p f ending

/-- The handle of a frame that was not started or has returned ends the frame. -/
private theorem letGo_gone (p : Place) {f : FrameId} {started : Bool}
    (h : Layout w { a with handles := ⟨some f, started⟩ :: a.handles } spot) (hhand : a.hand = [])
    (hf : spot f = .unstarted ∧ started = false ∨ spot f = .complete ∧ started = true) :
    ∃ w', w.letGo p ⟨some f, started⟩ = (w', some []) ∧ Layout w' a (put spot f .absent) ∧
      Drops w spot w' (put spot f .absent) ∧ w'.frameCount = w.frameCount ∧
      w'.ends.length = w.ends.length + 1 := by
  have hf' : spot f = .unstarted ∨ spot f = .complete := hf.imp And.left And.left
  have hfits := h.frames f
  have hheld : (w.frame f).heldTasks = [] := hfits.idle (.inr hf')
  have halive : (w.frame f).alive = true := by
    rw [hfits.alive]
    rcases hf' with e | e <;> (rw [e]; nofun)
  have hawaited : (w.frame f).disposal = .awaited := hfits.awaited hf'
  have hstage : (w.frame f).stage = .created ∨ (w.frame f).stage = .complete := by
    have hstage := hfits.stage
    rcases hf' with e | e
    · rw [e] at hstage
      exact .inl hstage
    · rw [e] at hstage
      exact .inr hstage
  have hcond : (!started || (w.frame f).isComplete) = true := by
    rcases hf with ⟨-, rfl⟩ | ⟨e, rfl⟩
    · rfl
    · exact (h.isComplete_iff hhand (by rw [e]; nofun)).mpr e
  obtain ⟨log, heq⟩ := endFrame_eq w p f .dropped
  have hgo : w.letGo p ⟨some f, started⟩ =
      ((w.endFrame p f .dropped).1.noteDestroyed p (w.frame f).runner, some []) := by
    unfold World.letGo
    simp only [hcond, halive, if_true, heq, hheld]
  have hended : Layout (w.endFrame p f .dropped).1
      { a with hand := a.hand.erase f, handles := a.handles, spent := a.spent }
      (put spot f .absent) := by
    refine h.endFrame p (hf'.imp_right .inl) hheld (h.continuation_eq_none ?_)
      ⟨hawaited, hstage⟩ ?_
    · rcases hf' with e | e <;> (rw [e]; exact id)
    · intro c b
      simp only [List.count_cons]
      by_cases hc : c = f
      · subst hc
        rcases hf with ⟨e, rfl⟩ | ⟨e, rfl⟩ <;> rw [e, hawaited] <;> cases b <;>
          simp [Spot.owed] <;> omega
      · simp [Ne.symm hc, hc]
  have ha : ({ a with hand := a.hand.erase f, handles := a.handles, spent := a.spent } : Around) =
      a := by
    rw [hhand, List.erase_nil, ← hhand]
  rw [ha] at hended
  have hnoted := World.noteDestroyed_agrees (w.endFrame p f .dropped).1 p (w.frame f).runner
  have hdrops := drops_endFrame w spot p hf' .dropped
  refine ⟨_, hgo, hended.of_agrees hnoted, ?_, ?_, ?_⟩
  · exact hdrops.of_agrees hnoted (hdrops.steady.trans (World.steady_noteDestroyed _ _ _))
  · rw [hnoted.frameCount, heq]
    rfl
  · rw [hnoted.ends, heq]
    rfl

/-- The handle of a frame in flight detaches it. -/
private theorem letGo_detach (p : Place) {f : FrameId}
    (h : Layout w { a with handles := ⟨some f, true⟩ :: a.handles } spot) (hhand : a.hand = [])
    (hf : (spot f).IsPending) (hawaited : (w.frame f).disposal = .awaited) :
    ∃ w' spot', w.letGo p ⟨some f, true⟩ = (w', none) ∧ Layout w' a spot' ∧
      Drops w spot w' spot' ∧ w'.frameCount = w.frameCount ∧ w'.ends = w.ends := by
  have hnot : (w.frame f).isComplete = false := by
    rw [Bool.eq_false_iff]
    intro hcomplete
    have hne : spot f ≠ .absent := fun e => by rw [e] at hf; exact hf
    rw [(h.isComplete_iff hhand hne).mp hcomplete] at hf
    exact hf
  obtain ⟨spot', hlayout, hspots⟩ := h.detach hf hawaited hhand
  have hgo : w.letGo p ⟨some f, true⟩ = ((w.emit (.detach f)).modifyFrame f fun frame =>
      { frame with continuation := none, disposal := .detached }, none) := by
    unfold World.letGo
    simp only [hnot]
    rfl
  have hframe := (w.emit (.detach f)).frame_modifyFrame f
  refine ⟨_, spot', hgo, hlayout.of_agrees ⟨fun _ => rfl, rfl, rfl, rfl, rfl, rfl⟩,
    ⟨⟨fun g => ?_, fun g _ hg => ?_⟩, fun g _ => ?_, fun g hg => ?_, .of_workers rfl rfl rfl⟩,
    rfl, rfl⟩
  · rcases hspots g with e | ⟨e, e'⟩
    · rw [e]
      exact .refl _ _ _
    · rw [e, e']
      refine ⟨fun _ => trivial, fun _ => .inr ⟨f, rfl, hawaited, ?_⟩, nofun, fun _ => .inr rfl⟩
      rw [hframe, if_pos rfl]
  · rw [hframe]
    split
    · rfl
    · exact hg
  · rw [hframe]
    split <;> exact ⟨_, _, rfl⟩
  · rcases hspots g with e | ⟨e, -⟩
    · rwa [e] at hg
    · rw [e]
      nofun

/-- The last state of every handle is recorded, except for what one frame being polled holds. -/
def Recorded (w : World) (a : Around) : Prop :=
  a.spent = [] ∨ ∃ f ∈ a.polled, a.spent = (w.frame f).heldTasks

theorem Recorded.count_le (hrecorded : Recorded w a) {handles : List Task}
    (h : Layout w { a with handles } spot) (t : Task) : a.spent.count t ≤ w.held.count t := by
  rcases hrecorded with hspent | ⟨f, hf, hspent⟩
  · rw [hspent]
    exact Nat.zero_le _
  · have hlt : f < w.frameCount := h.made f (by rw [(h.polled f).mp hf]; nofun)
    obtain ⟨before, after, hsplit⟩ := List.append_of_mem (List.mem_range.mpr hlt)
    rw [hspent, World.held, hsplit, List.flatMap_append, List.flatMap_cons]
    simp only [List.count_append]
    omega

/-- Letting go of one handle.  What is destroyed held no handle itself. -/
theorem letGo (p : Place) {t : Task} (h : Layout w { a with handles := t :: a.handles } spot)
    (hrecorded : Recorded w a) (hhand : a.hand = []) :
    ∃ w' spot', Layout w' a spot' ∧ Drops w spot w' spot' ∧ w'.frameCount = w.frameCount ∧
      (w.letGo p t = (w', none) ∧ w'.ends = w.ends ∨
        w.letGo p t = (w', some []) ∧ w'.ends.length = w.ends.length + 1) := by
  obtain ⟨frame, started⟩ := t
  cases frame with
  | none =>
    refine ⟨w, spot, ?_, .refl w spot, rfl, .inl ⟨rfl, rfl⟩⟩
    refine h.rehandle a.handles a.spent ?_
    intro c b
    have : ((⟨none, started⟩ : Task) == ⟨some c, b⟩) = false := by simp
    simp only [List.count_cons, this]
    rfl
  | some f =>
    have hlt : a.spent.count ⟨some f, started⟩ <
        (w.held ++ ⟨some f, started⟩ :: a.handles).count ⟨some f, started⟩ := by
      have := hrecorded.count_le h ⟨some f, started⟩
      rw [List.count_append, List.count_cons_self]
      omega
    cases started with
    | false =>
      have hf := h.unstarted_of_lt hlt
      obtain ⟨w', hgo, hlayout, hdrops, hcount, hends⟩ := h.letGo_gone p hhand (.inl ⟨hf, rfl⟩)
      exact ⟨w', _, hlayout, hdrops, hcount, .inr ⟨hgo, hends⟩⟩
    | true =>
      obtain ⟨hf | hf, hawaited⟩ := h.started_of_lt hlt
      · obtain ⟨w', spot', hgo, hlayout, hdrops, hcount, hends⟩ :=
          h.letGo_detach p hhand hf hawaited
        exact ⟨w', spot', hlayout, hdrops, hcount, .inl ⟨hgo, hends⟩⟩
      · obtain ⟨w', hgo, hlayout, hdrops, hcount, hends⟩ := h.letGo_gone p hhand (.inr ⟨hf, rfl⟩)
        exact ⟨w', _, hlayout, hdrops, hcount, .inr ⟨hgo, hends⟩⟩

theorem ends_length_le (h : Layout w a spot) : w.ends.length ≤ w.frameCount := by
  have hsub : w.ends.map Prod.fst ⊆ List.range w.frameCount :=
    fun f hf => List.mem_range.mpr ((h.ended f).mp hf).1
  have := h.ended_nodup.length_le_of_subset hsub
  rwa [List.length_map, List.length_range] at this

/-- What is not recorded stays so while handles are dropped. -/
theorem Recorded.of_drops {w' : World} {spot' : FrameId → Spot} (hrecorded : Recorded w a)
    {handles : List Task} (h' : Layout w' { a with handles } spot')
    (hdrops : Drops w spot w' spot') : Recorded w' a := by
  rcases hrecorded with hspent | ⟨f, hf, hspent⟩
  · exact .inl hspent
  · obtain ⟨_, _, hframe⟩ := hdrops.record f (by rw [(h'.polled f).mp hf]; nofun)
    refine .inr ⟨f, hf, ?_⟩
    rw [hspent, hframe]
    rfl

private theorem dropTasksWith (p : Place) (hhand : a.hand = []) (ts : List Task) :
    ∀ (fuel : Nat) {w : World} {spot : FrameId → Spot},
      Layout w { a with handles := ts ++ a.handles } spot → Recorded w a →
      w.frameCount ≤ fuel + w.ends.length →
      ∃ spot', Layout (World.dropTasksWith fuel w p ts) a spot' ∧
        Drops w spot (World.dropTasksWith fuel w p ts) spot' ∧
        (World.dropTasksWith fuel w p ts).frameCount = w.frameCount := by
  induction ts with
  | nil =>
    intro fuel w spot h _ _
    rw [World.dropTasksWith_nil]
    exact ⟨spot, h, .refl w spot, rfl⟩
  | cons t rest ih =>
    intro fuel w spot h hrecorded hfuel
    obtain ⟨w', spot', hlayout, hdrops, hcount, hgo⟩ :=
      letGo (a := { a with handles := rest ++ a.handles }) p h hrecorded hhand
    have hrecorded' := hrecorded.of_drops hlayout hdrops
    rcases hgo with ⟨hgo, hends⟩ | ⟨hgo, hends⟩
    · rw [World.dropTasksWith_cons, hgo]
      obtain ⟨spot'', hlayout', hdrops', hcount'⟩ := 
        ih fuel hlayout hrecorded' (by rw [hcount, hends]; exact hfuel)
      exact ⟨spot'', hlayout', hdrops.trans h hdrops', hcount'.trans hcount⟩
    · -- the frame just destroyed was not counted among the destroyed ones before
      have hle := hlayout.ends_length_le
      cases fuel with
      | zero => omega
      | succ fuel =>
        rw [World.dropTasksWith_cons, hgo]
        obtain ⟨spot'', hlayout', hdrops', hcount'⟩ := ih fuel hlayout hrecorded' (by omega)
        exact ⟨spot'', hlayout', hdrops.trans h hdrops', hcount'.trans hcount⟩

/-- Dropping handles. -/
theorem dropTasks (p : Place) {ts : List Task}
    (h : Layout w { a with handles := ts ++ a.handles } spot) (hrecorded : Recorded w a)
    (hhand : a.hand = []) :
    ∃ spot', Layout (w.dropTasks p ts) a spot' ∧ Drops w spot (w.dropTasks p ts) spot' ∧
      (w.dropTasks p ts).frameCount = w.frameCount :=
  dropTasksWith p hhand ts w.frameCount h hrecorded (Nat.le_add_right _ _)

theorem dropTask (p : Place) {t : Task} (h : Layout w { a with handles := t :: a.handles } spot)
    (hspent : a.spent = []) (hhand : a.hand = []) :
    ∃ spot', Layout (w.dropTask p t) a spot' ∧ Drops w spot (w.dropTask p t) spot' ∧
      (w.dropTask p t).frameCount = w.frameCount := by
  have h' : Layout w { a with handles := [t] ++ a.handles } spot := h
  exact h'.dropTasks p (.inl hspent) hhand

end Layout

theorem World.dropTasks_nil (w : World) (p : Place) : w.dropTasks p [] = w :=
  World.dropTasksWith_nil _ w p

/-- Destroying a frame whose body holds nothing. -/
theorem World.destroy_eq (w : World) (p : Place) {f : FrameId} (ending : Ending)
    (hheld : (w.frame f).heldTasks = []) : w.destroy p f ending = (w.endFrame p f ending).1 := by
  show (w.endFrame p f ending).1.dropTasks p (w.frame f).heldTasks = _
  rw [hheld, World.dropTasks_nil]

/-! ## Taking results and starting -/

namespace Layout

variable {w : World} {a : Around} {spot : FrameId → Spot}

/-- Taking a result leaves everything as it is unless the frame has returned. -/
theorem takeOutput_none {p : Place} {t : Task}
    (ht : ∀ c, t.frame = some c → (w.frame c).isComplete = false) :
    w.takeOutput p t = (w, t, none) := by
  unfold World.takeOutput
  split
  · rfl
  · rename_i c hc
    simp only [ht c hc]
    rfl

/-- Taking the result of a frame that has returned ends the frame. -/
theorem takeOutput (h : Layout w a spot) (p : Place) {c : FrameId} {b : Bool}
    (hc : spot c = .complete) (hmem : ⟨some c, b⟩ ∈ w.held ++ a.handles) (hspent : a.spent = [])
    (hhand : a.hand = []) :
    ∃ w', w.takeOutput p ⟨some c, b⟩ =
        (w', ⟨none, b⟩, some ⟨(w.frame c).acc, (w.frame c).guard⟩) ∧
      Layout w' { a with spent := [⟨some c, b⟩] } (put spot c .absent) ∧
      Drops w spot w' (put spot c .absent) ∧ w'.tasks = w.tasks ∧
      (c, .taken (some ⟨(w.frame c).acc, (w.frame c).guard⟩)) ∈ w'.ends := by
  have hfits := h.frames c
  rw [hc] at hfits
  have hstage : (w.frame c).stage = .complete := hfits.stage
  have hheld : (w.frame c).heldTasks = [] := hfits.idle (.inr (.inr rfl))
  have hawaited := hfits.awaited (.inr rfl)
  have houtput : (w.frame c).output = some ⟨(w.frame c).acc, (w.frame c).guard⟩ := by
    rw [hfits.output id, if_pos rfl]
  have hstarted : b = true := by
    have := h.owed_of_lt (lt_of_mem hmem hspent)
    rw [hc, hawaited] at this
    cases b with
    | true => rfl
    | false => cases this
  subst hstarted
  have hcomplete : (w.frame c).isComplete = true := by rw [Frame.isComplete, hstage]; rfl
  generalize houtput' : (⟨(w.frame c).acc, (w.frame c).guard⟩ : Output) = o at houtput ⊢
  obtain ⟨log, heq⟩ := endFrame_eq (w.modifyFrame c fun frame => { frame with output := none }) p c
    (.taken (some o))
  have hheld' : ((w.modifyFrame c fun frame => { frame with output := none }).frame c).heldTasks =
      [] := by
    rw [World.frame_modifyFrame, if_pos rfl]
    exact hheld
  rw [hheld'] at heq
  have htake : w.takeOutput p ⟨some c, true⟩ =
      (((w.modifyFrame c fun frame => { frame with output := none }).endFrame p c
        (.taken (some o))).1.noteDestroyed p (w.frame c).runner, ⟨none, true⟩, some o) := by
    unfold World.takeOutput
    simp only [hcomplete, if_true, houtput, World.destroy, heq, World.dropTasks_nil]
  have hagree : (w.endFrame p c (.taken (some o))).1.Agrees
      ((w.modifyFrame c fun frame => { frame with output := none }).endFrame p c
        (.taken (some o))).1 := by
    obtain ⟨log', heq'⟩ := endFrame_eq w p c (.taken (some o))
    rw [heq, heq']
    refine ⟨fun g => ?_, rfl, rfl, rfl, rfl, rfl⟩
    rw [World.frame_modifyFrame, World.frame_modifyFrame]
    show (if g = c then gone ((w.modifyFrame c _).frame g) else (w.modifyFrame c _).frame g) =
      if g = c then gone (w.frame g) else w.frame g
    rw [World.frame_modifyFrame]
    split <;> rfl
  have hnoted := World.noteDestroyed_agrees ((w.modifyFrame c fun frame =>
    { frame with output := none }).endFrame p c (.taken (some o))).1 p (w.frame c).runner
  have hended : Layout (w.endFrame p c (.taken (some o))).1
      { a with hand := a.hand.erase c, handles := a.handles, spent := [⟨some c, true⟩] }
      (put spot c .absent) := by
    refine h.endFrame p (.inr (.inl hc)) hheld (h.continuation_eq_none (by rw [hc]; exact id))
      ⟨hawaited, hstage, congrArg some houtput'.symm⟩ ?_
    intro g b
    simp only [hspent, List.count_cons, List.count_nil]
    by_cases hg : g = c
    · subst hg
      rw [if_pos rfl, hc, hawaited]
      cases b <;> simp [Spot.owed]
    · simp [Ne.symm hg, hg]
  have ha : ({ a with
      hand := a.hand.erase c, handles := a.handles
      spent := [⟨some c, true⟩] } : Around) =
      { a with spent := [⟨some c, true⟩] } := by
    rw [hhand, List.erase_nil, ← hhand]
  rw [ha] at hended
  have hdrops := drops_endFrame w spot p (.inr hc) (.taken (some o))
  refine ⟨_, htake, (hended.of_agrees hagree).of_agrees hnoted, ?_, ?_, ?_⟩
  · have hsteady : w.Steady ((w.modifyFrame c fun frame =>
        { frame with output := none }).endFrame p c (.taken (some o))).1 := by
      rw [heq]
      exact .of_workers rfl rfl rfl
    exact (hdrops.of_agrees hagree hsteady).of_agrees hnoted
      (hsteady.trans (World.steady_noteDestroyed _ _ _))
  · rw [hnoted.tasks, heq]
    rfl
  · rw [hnoted.ends, heq]
    exact List.mem_cons_self

theorem enqueue_same (w : World) (k : WorkerId) (f : FrameId) :
    (w.enqueue k f).frames = w.frames ∧ (w.enqueue k f).tasks = w.tasks := by
  unfold World.enqueue
  split <;> exact ⟨rfl, rfl⟩

/-- Starting a task puts its frame on a ready list, if it was not started before. -/
theorem startTask (h : Layout w a spot) {p : Place} (hp : p.thread = a.thread) (k : WorkerId)
    {t : Task} (hmem : t ∈ w.held ++ a.handles) (hspent : a.spent = []) :
    t.frame = none ∧ w.startTask p k t = (t, .error (.doubleAwait 0)) ∨
    ∃ w' t' spot', w.startTask p k t = (t', .ok w') ∧
      Layout w' { a with handles := t' :: a.handles, spent := [t] } spot' ∧
      Moves w spot w' spot' ∧ w.Steady w' ∧ w'.frames = w.frames ∧ w'.tasks = w.tasks := by
  obtain ⟨frame, started⟩ := t
  cases frame with
  | none => exact .inl ⟨rfl, rfl⟩
  | some c =>
    right
    cases started with
    | true =>
      refine ⟨w, ⟨some c, true⟩, spot, rfl, ?_, .refl w spot, .refl w, rfl, rfl⟩
      refine h.rehandle (⟨some c, true⟩ :: a.handles) [⟨some c, true⟩] fun g b => ?_
      rw [hspent, List.count_cons, List.count_cons]
      omega
    | false =>
      have hc := h.unstarted_of_lt (lt_of_mem hmem hspent)
      have hfits := h.frames c
      rw [hc] at hfits
      have hstart := h.start hc
      have hhome : (w.frame c).isAtHome p.thread = true :=
        hp ▸ h.isAtHome (by rw [hc]; rintro ⟨⟩)
      have hnot : (w.frame c).isComplete = false := by
        have : (w.frame c).stage = .created := hfits.stage
        rw [Frame.isComplete, this]
        rfl
      have hsched : w.startTask p k ⟨some c, false⟩ = (⟨some c, true⟩, .ok (w.enqueue k c)) := by
        unfold World.startTask World.schedule
        simp only [hhome, hnot]
        rfl
      have hqueued := Layout.enqueue (k := k) (a := { a with
          handles := ⟨some c, true⟩ :: a.handles
          spent := ⟨some c, false⟩ :: a.spent })
        hstart (put_self _ _ _) (hfits.move (.inl rfl) id trivial (.inl hfits.stage))
      rw [put_put, hspent] at hqueued
      obtain ⟨hframes, htasks⟩ := enqueue_same w k c
      have hmoves : Moves w spot (w.enqueue k c) (put spot c (.listed (readyList k))) := by
        refine .put ?_ fun g _ => by rw [World.frame, World.frame, hframes]
        rw [hc]
        exact .of_idle _ _ id rfl (by rintro ⟨⟩)
      exact ⟨_, _, _, hsched, hqueued, hmoves, w.steady_enqueue k c, hframes, htasks⟩

end Layout

/-! ## The bodies of frames in flight -/

/-- Two records of a frame agree on everything but its body and what it holds. -/
structure Frame.SameLife (fr fr' : Frame) : Prop where
  alive : fr'.alive = fr.alive
  stage : fr'.stage = fr.stage
  disposal : fr'.disposal = fr.disposal
  keepsOutput : fr'.keepsOutput = fr.keepsOutput
  output : fr'.output = fr.output
  retired : fr'.retired = fr.retired
  continuation : fr'.continuation = fr.continuation
  home : fr'.home = fr.home

theorem Fits.body {fr fr' : Frame} {s : Spot} (h : Fits fr s) (hs : s.IsPending)
    (hlife : fr.SameLife fr') (hsolitary : ∀ wait, fr'.wait = some wait → wait.Solitary)
    (hnames : (fr'.tasks.map Prod.fst).Nodup) : Fits fr' s := by
  have hlive : s ≠ .absent ∧ s ≠ .unstarted ∧ s ≠ .complete := by
    refine ⟨?_, ?_, ?_⟩ <;> (rintro rfl; exact hs)
  refine ⟨?_, ?_, ?_, ?_, ?_, ?_, ?_, hsolitary, hnames⟩
  · rw [hlife.alive]
    exact h.alive
  · rw [hlife.stage]
    exact h.stage
  · rintro (e | e | e)
    · exact absurd e hlive.1
    · exact absurd e hlive.2.1
    · exact absurd e hlive.2.2
  · rw [hlife.disposal]
    exact h.awaited
  · rw [hlife.disposal, hlife.keepsOutput]
    exact h.keeps
  · intro hn
    rw [hlife.output, h.output hn, if_neg hlive.2.2, if_neg hlive.2.2]
  · rw [hlife.retired]
    exact h.retired

namespace Layout

variable {w : World} {a : Around} {spot : FrameId → Spot}

/-- The body of a frame in flight goes on, and handles may move in or out of it. -/
theorem modifyBody (h : Layout w a spot) {f : FrameId} (hf : (spot f).IsPending)
    (hstage : (w.frame f).stage ≠ .complete) {change : Frame → Frame} {handles spent : List Task}
    (hlife : (w.frame f).SameLife (change (w.frame f)))
    (hsolitary : ∀ wait, (change (w.frame f)).wait = some wait → wait.Solitary)
    (hnames : ((change (w.frame f)).tasks.map Prod.fst).Nodup)
    (hcount : ∀ c b, (change (w.frame f)).heldTasks.count ⟨some c, b⟩ + handles.count ⟨some c, b⟩ +
        a.spent.count ⟨some c, b⟩ =
      (w.frame f).heldTasks.count ⟨some c, b⟩ + a.handles.count ⟨some c, b⟩ +
        spent.count ⟨some c, b⟩) :
    Layout (w.modifyFrame f change) { a with handles, spent } spot := by
  have hne : spot f ≠ .absent := fun e => by rw [e] at hf; exact hf
  refine h.modifyFrame hne hlife.continuation hlife.disposal hlife.home ?_
    ((h.frames f).body hf hlife hsolitary hnames) hcount
  intro g o
  split
  · rename_i hg
    subst hg
    rw [h.returned, hlife.stage]
    exact ⟨fun hr => absurd hr.2.1 hstage, fun hr => absurd hr.1 hstage⟩
  · rfl

/-- The code or the numbers of a body change. -/
theorem modifyCode (h : Layout w a spot) {f : FrameId} (hf : (spot f).IsPending)
    (hstage : (w.frame f).stage ≠ .complete) {change : Frame → Frame}
    (hlife : (w.frame f).SameLife (change (w.frame f)))
    (hwait : (change (w.frame f)).wait = (w.frame f).wait)
    (htasks : (change (w.frame f)).tasks = (w.frame f).tasks) :
    Layout (w.modifyFrame f change) a spot := by
  refine h.modifyBody hf hstage hlife ?_ ?_ ?_
  · rw [hwait]
    exact (h.frames f).solitary
  · rw [htasks]
    exact (h.frames f).names
  · intro c b
    rw [Frame.heldTasks, Frame.heldTasks, hwait, htasks]

/-- Another wait, with the handle that was in the old one and the one in the new one. -/
theorem setWait (h : Layout w a spot) {f : FrameId} (wait : Option Wait) (handles spent : List Task)
    (hf : (spot f).IsPending) (hstage : (w.frame f).stage ≠ .complete)
    (hsolitary : ∀ wait', wait = some wait' → wait'.Solitary)
    (hcount : ∀ c b, (Frame.waitTasks wait).count ⟨some c, b⟩ + handles.count ⟨some c, b⟩ +
        a.spent.count ⟨some c, b⟩ =
      (Frame.waitTasks (w.frame f).wait).count ⟨some c, b⟩ + a.handles.count ⟨some c, b⟩ +
        spent.count ⟨some c, b⟩) :
    Layout (w.setWait f wait) { a with handles, spent } spot := by
  refine h.modifyBody hf hstage ⟨rfl, rfl, rfl, rfl, rfl, rfl, rfl, rfl⟩ hsolitary
    (h.frames f).names ?_
  intro c b
  have := hcount c b
  simp only [Frame.heldTasks, List.count_append]
  omega

end Layout

end Substrate.Coro
