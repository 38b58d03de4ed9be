import Substrate.Proofs.Coro.Layout

/-!
# Frames made, woken and destroyed

The steps in the life of a frame as changes of a layout: a task makes it
(`Layout.newFrame`) and starts it (`Layout.start`), another frame waits for it
(`Layout.register`) and is woken (`Layout.wake`), its handle lets go of it
(`Layout.detach`), its body returns (`Layout.complete`) and it is destroyed
(`Layout.endFrame`).
-/

namespace Substrate.Coro

theorem Fits.continuation {fr : Frame} {s : Spot} (h : Fits fr s) (cont : Option FrameId) :
    Fits { fr with continuation := cont } s :=
  ⟨h.alive, h.stage, h.idle, h.awaited, h.keeps, h.output, h.retired, h.solitary, h.names⟩

namespace Layout

variable {w : World} {a : Around} {spot : FrameId → Spot}

/-! ## Handles -/

/-- Handles outside the world are put in another order or settled with each other. -/
theorem rehandle (h : Layout w a spot) (handles spent : List Task)
    (hcount : ∀ c b, handles.count ⟨some c, b⟩ + a.spent.count ⟨some c, b⟩ =
      a.handles.count ⟨some c, b⟩ + spent.count ⟨some c, b⟩) :
    Layout w { a with handles, spent } spot := by
  refine { h with handles := ?_ }
  intro c b
  have hold := h.handles c b
  have hnew := hcount c b
  rw [List.count_append] at hold ⊢
  show _ + handles.count _ = _ + spent.count _
  omega

/-- A handle beyond those that are settled owns its frame. -/
theorem owed_of_lt (h : Layout w a spot) {c : FrameId} {b : Bool}
    (hlt : a.spent.count ⟨some c, b⟩ < (w.held ++ a.handles).count ⟨some c, b⟩) :
    (spot c).owed (w.frame c).disposal b = 1 := by
  have hcount := h.handles c b
  have hle : (spot c).owed (w.frame c).disposal b ≤ 1 := by
    unfold Spot.owed
    split <;> (try split) <;> omega
  omega

theorem lt_of_mem {t : Task} (hmem : t ∈ w.held ++ a.handles) (hspent : a.spent = []) :
    a.spent.count t < (w.held ++ a.handles).count t := by
  rw [hspent]
  exact List.count_pos_iff.mpr hmem

/-- A handle that is not started owns a frame that was not started. -/
theorem unstarted_of_lt (h : Layout w a spot) {c : FrameId}
    (hlt : a.spent.count ⟨some c, false⟩ < (w.held ++ a.handles).count ⟨some c, false⟩) :
    spot c = .unstarted := by
  have := h.owed_of_lt hlt
  cases hspot : spot c <;> cases hd : (w.frame c).disposal <;> simp_all [Spot.owed]

/-- A handle that is started owns a frame that was started and is not detached. -/
theorem started_of_lt (h : Layout w a spot) {c : FrameId}
    (hlt : a.spent.count ⟨some c, true⟩ < (w.held ++ a.handles).count ⟨some c, true⟩) :
    ((spot c).IsPending ∨ spot c = .complete) ∧ (w.frame c).disposal = .awaited := by
  have := h.owed_of_lt hlt
  cases hspot : spot c <;> cases hd : (w.frame c).disposal <;>
    simp_all [Spot.owed, Spot.IsPending]

/-! ## Starting -/

/-- The handle of a frame becomes started, and the frame is about to go on a list. -/
theorem start (h : Layout w a spot) {f : FrameId} (hf : spot f = .unstarted) :
    Layout w { a with
      handles := ⟨some f, true⟩ :: a.handles
      spent := ⟨some f, false⟩ :: a.spent
      hand := f :: a.hand } (put spot f (.hand none)) := by
  have hfits := h.frames f
  rw [hf] at hfits
  refine h.relocate_one (by rw [hf]; nofun) nofun (by rw [hf]; rfl) (fun _ _ => trivial)
    (hfits.move (.inl rfl) id trivial trivial) ?_ rfl rfl rfl rfl rfl rfl ?_
  · have hplaces := h.toPlaces
    constructor <;> grind [put, Spot.IsHand, cases Places]
  · intro c b
    simp only [List.count_cons]
    by_cases hc : c = f
    · subst hc
      rw [put_self, hf, hfits.awaited (.inl rfl)]
      cases b
      · simp [Spot.owed]
        omega
      · simp [Spot.owed]
    · rw [put_of_ne spot _ hc]
      have : ∀ b', (⟨some f, b'⟩ == (⟨some c, b⟩ : Task)) = false := by
        intro b'
        simp [Ne.symm hc]
      simp only [this]
      omega

/-! ## Continuations -/

/-- Frame `f` changes its place together with the continuation of frame `c`. -/
theorem relink (h : Layout w a spot) {a' : Around} {f c : FrameId} {s : Spot}
    {cont : Option FrameId} (hf : (spot f).IsPending) (hs : s.IsPending) (hc : (spot c).IsPending)
    (hchild : ∀ c', s.child = some c' → c' = c) (hfits : Fits (w.frame f) s)
    (howned : ∀ g, cont = some g → (w.frame c).disposal = .awaited)
    (hplaces : Places w.runLists w.slot a' (put spot f s))
    (hawaiting : ∀ c' g, (if c' = c then cont else (w.frame c').continuation) = some g ↔
      (put spot f s g).child = some c')
    (hhandles : a'.handles = a.handles) (hspent : a'.spent = a.spent)
    (hthread : a'.thread = a.thread) (hreturned : a'.returned = a.returned) :
    Layout (w.modifyFrame c fun frame => { frame with continuation := cont }) a'
      (put spot f s) := by
  have hpending : ∀ g, (spot g).IsPending → (put spot f s g).IsPending := by
    intro g hg
    by_cases hgf : g = f
    · rw [hgf, put_self]
      exact hs
    · rw [put_of_ne spot s hgf]
      exact hg
  have hne : spot f ≠ .absent := fun e => by rw [e] at hf; exact hf
  have hne' : s ≠ .absent := fun e => by rw [e] at hs; exact hs
  -- first the place alone, in a world whose continuations are out of step
  refine ⟨hplaces, ?_, ?_, ?_, ?_, ?_, ?_, h.ended_nodup, ?_, ?_, h.ordered, ?_, ?_⟩
  · intro c' g
    rw [← hawaiting c' g, World.frame_modifyFrame]
    split <;> rfl
  · intro c' g hg
    by_cases hgf : g = f
    · subst hgf
      rw [put_self] at hg
      rw [hchild c' hg]
      exact hpending c hc
    · rw [put_of_ne spot s hgf] at hg
      exact hpending c' (h.child c' g hg)
  · intro c' g
    rw [World.frame_modifyFrame]
    split
    · rename_i hc'
      rw [hc']
      exact howned g
    · exact h.owned c' g
  · intro g
    have hold : Fits (w.frame g) (put spot f s g) := by
      by_cases hgf : g = f
      · subst hgf
        rw [put_self]
        exact hfits
      · rw [put_of_ne spot s hgf]
        exact h.frames g
    rw [World.frame_modifyFrame]
    split
    · exact Fits.continuation hold cont
    · exact hold
  · intro g hg
    by_cases hgf : g = f
    · exact hgf ▸ h.made f hne
    · rw [put_of_ne spot s hgf] at hg
      exact h.made g hg
  · intro g
    refine (h.ended g).trans (and_congr_right fun _ => ?_)
    by_cases hgf : g = f
    · rw [hgf, put_self]
      exact ⟨fun e => absurd e hne, fun e => absurd e hne'⟩
    · rw [put_of_ne spot s hgf]
  · intro e he
    have := h.endings e he
    rw [World.frame_modifyFrame]
    split
    · cases hending : e.2 <;> rw [hending] at this <;> exact this
    · exact this
  · intro g b
    have hold := h.handles g b
    have hheld := w.count_held_modifyFrame (h.lt_of_pending hc)
      (fun frame => { frame with continuation := cont }) ⟨some g, b⟩
    have hdisposal : ((w.modifyFrame c fun frame => { frame with continuation := cont }).frame
        g).disposal = (w.frame g).disposal := by
      rw [World.frame_modifyFrame]
      split <;> rfl
    have howed : (put spot f s g).owed (w.frame g).disposal b =
        (spot g).owed (w.frame g).disposal b := by
      by_cases hgf : g = f
      · subst hgf
        rw [put_self, Spot.owed_started (.inl hf), Spot.owed_started (.inl hs)]
      · rw [put_of_ne spot s hgf]
    rw [hdisposal, howed, hspent, hhandles]
    rw [List.count_append] at hold ⊢
    change _ + (w.frame c).heldTasks.count _ = _ + (w.frame c).heldTasks.count _ at hheld
    omega
  · intro g hg
    have hhome : (w.frame g).home = some a'.thread := by
      rw [hthread]
      refine h.home g fun e => hg ?_
      by_cases hgf : g = f
      · exact absurd (hgf ▸ e) hne
      · rw [put_of_ne spot s hgf, e]
    rw [World.frame_modifyFrame]
    split <;> exact hhome
  · intro g o
    rw [hreturned, World.frame_modifyFrame]
    split <;> exact h.returned g o

/-- A frame is going to be woken by frame `c`. -/
theorem register {f c : FrameId} (h : Layout w a spot) (hf : spot f = .hand none)
    (hc : (spot c).IsPending) (hnone : (w.frame c).continuation = none)
    (hawaited : (w.frame c).disposal = .awaited) :
    Layout (w.modifyFrame c fun frame => { frame with continuation := some f }) a
      (put spot f (.hand (some c))) := by
  have hfits := h.frames f
  rw [hf] at hfits
  have hawaiting := h.awaiting
  refine h.relink (by rw [hf]; trivial) trivial hc (fun c' hc' => (Option.some.inj hc').symm)
    ⟨hfits.alive.trans ⟨nofun, nofun⟩, trivial, nofun, nofun, hfits.keeps,
      fun hn => absurd trivial hn, fun _ hn => absurd trivial hn, hfits.solitary, hfits.names⟩
    (fun _ _ => hawaited) ?_ ?_ rfl rfl rfl rfl
  · have hplaces := h.toPlaces
    constructor <;> grind [put, Spot.IsHand, cases Places]
  · intro c' g
    by_cases hg : g = f
    · subst hg
      rw [put_self]
      grind [Spot.child]
    · rw [put_of_ne spot _ hg]
      grind [Spot.child]

/-- A frame is woken by frame `c`, which it waited for. -/
theorem wake {f c : FrameId} (h : Layout w a spot) (hcont : (w.frame c).continuation = some f)
    (hf : spot f = .awaiting c) :
    Layout (w.modifyFrame c fun frame => { frame with continuation := none })
      { a with hand := f :: a.hand } (put spot f (.hand none)) := by
  have hfits := h.frames f
  rw [hf] at hfits
  have hawaiting := h.awaiting
  have hchild : (spot f).child = some c := by rw [hf]; rfl
  refine h.relink (by rw [hf]; trivial) trivial (h.child c f hchild) nofun
    (hfits.move (.inr trivial) id trivial trivial) nofun ?_ ?_ rfl rfl rfl rfl
  · have hplaces := h.toPlaces
    constructor <;> grind [put, Spot.IsHand, cases Places]
  · intro c' g
    by_cases hg : g = f
    · subst hg
      rw [put_self]
      grind [Spot.child]
    · rw [put_of_ne spot _ hg]
      grind [Spot.child]

/-! ## Letting go -/

/-- The handle of a frame in flight is gone. -/
private theorem setDetached {c : FrameId}
    (h : Layout w { a with handles := ⟨some c, true⟩ :: a.handles } spot)
    (hc : (spot c).IsPending) (hd : (w.frame c).disposal = .awaited)
    (hcont : (w.frame c).continuation = none) :
    Layout (w.modifyFrame c fun frame => { frame with disposal := .detached }) a spot := by
  have hne : spot c ≠ .absent := fun e => by rw [e] at hc; exact hc
  refine ⟨h.toPlaces.of_around rfl rfl rfl, ?_, h.child, ?_, ?_, h.made, h.ended, h.ended_nodup, ?_,
    ?_, h.ordered, ?_, ?_⟩
  · intro c' g
    rw [← h.awaiting c' g, World.frame_modifyFrame]
    split <;> rfl
  · intro c' g hg
    rw [World.frame_modifyFrame] at hg ⊢
    split
    · rename_i hc'
      rw [if_pos hc', hc', hcont] at hg
      cases hg
    · rename_i hc'
      rw [if_neg hc'] at hg
      exact h.owned c' g hg
  · intro g
    have hfits := h.frames g
    rw [World.frame_modifyFrame]
    split
    · rename_i hg
      subst hg
      refine { hfits with awaited := ?_, keeps := nofun }
      rintro (e | e) <;> (rw [e] at hc; exact hc.elim)
    · exact hfits
  · intro e he
    have hec : e.1 ≠ c := by
      intro heq
      exact hne (heq ▸ ((h.ended e.1).mp (List.mem_map_of_mem he)).2)
    rw [World.frame_modifyFrame, if_neg hec]
    exact h.endings e he
  · intro g b
    have hold := h.handles g b
    have hheld := w.count_held_modifyFrame (h.lt_of_pending hc)
      (fun frame => { frame with disposal := .detached }) ⟨some g, b⟩
    change _ + (w.frame c).heldTasks.count _ = _ + (w.frame c).heldTasks.count _ at hheld
    rw [List.count_append, List.count_cons] at hold
    rw [List.count_append, World.frame_modifyFrame]
    by_cases hg : g = c
    · subst hg
      rw [Spot.owed_started (.inl hc), hd] at hold
      rw [if_pos rfl, Spot.owed_started (.inl hc)]
      cases b <;> simp at hold ⊢ <;> omega
    · have : (⟨some c, true⟩ == (⟨some g, b⟩ : Task)) = false := by simp [Ne.symm hg]
      rw [this] at hold
      rw [if_neg hg]
      simp only [Bool.false_eq_true, if_false] at hold
      omega
  · intro g hg
    rw [World.frame_modifyFrame]
    split <;> exact h.home g hg
  · intro g o
    rw [World.frame_modifyFrame]
    split <;> exact h.returned g o

/-- Letting go of a frame in flight.  A frame that waits for it is not going to be woken. -/
theorem detach {c : FrameId} (h : Layout w { a with handles := ⟨some c, true⟩ :: a.handles } spot)
    (hc : (spot c).IsPending) (hd : (w.frame c).disposal = .awaited) (hhand : a.hand = []) :
    ∃ spot', Layout (w.modifyFrame c fun frame =>
        { frame with continuation := none, disposal := .detached }) a spot' ∧
      ∀ g, spot' g = spot g ∨ spot g = .awaiting c ∧ spot' g = .adrift := by
  have hagree : ∀ cont, ((w.modifyFrame c fun frame =>
      { frame with continuation := cont }).modifyFrame c fun frame =>
      { frame with disposal := .detached }).Agrees (w.modifyFrame c fun frame =>
      { frame with continuation := cont, disposal := .detached }) := by
    intro cont
    refine ⟨fun g => ?_, rfl, rfl, rfl, rfl, rfl⟩
    simp only [World.frame_modifyFrame]
    split <;> rfl
  cases hcont : (w.frame c).continuation with
  | none =>
    refine ⟨spot, ?_, fun g => .inl rfl⟩
    refine (h.setDetached hc hd hcont).of_agrees ⟨fun g => ?_, rfl, rfl, rfl, rfl, rfl⟩
    simp only [World.frame_modifyFrame]
    split
    · rename_i hg
      subst hg
      rw [← hcont]
    · rfl
  | some g =>
    have hchild := (h.awaiting c g).mp hcont
    have hg : spot g = .awaiting c := by
      cases hspot : spot g with
      | awaiting c' =>
        rw [hspot] at hchild
        exact congrArg Spot.awaiting (Option.some.inj hchild)
      | hand child =>
        have := (h.hand g).mpr (by rw [hspot]; trivial)
        rw [show ({ a with handles := _ } : Around).hand = a.hand from rfl, hhand] at this
        cases this
      | _ =>
        rw [hspot] at hchild
        cases hchild
    have hfits := h.frames g
    rw [hg] at hfits
    -- the frame leaves the continuation and is nowhere
    have hwoken := h.wake hcont hg
    have hfits' : Fits ((w.modifyFrame c fun frame =>
        { frame with continuation := none }).frame g) .adrift := by
      rw [World.frame_modifyFrame]
      have : Fits (w.frame g) .adrift := hfits.move (.inr trivial) id trivial hfits.stage
      split
      · exact Fits.continuation this none
      · exact this
    have hsettled := hwoken.settle (a := { a with handles := ⟨some c, true⟩ :: a.handles })
      (.inl rfl) (by rw [put_self]; rfl) hfits'
    refine ⟨_, (hsettled.setDetached ?_ ?_ ?_).of_agrees (hagree none), ?_⟩
    · by_cases hcg : c = g
      · rw [hcg, put_self]
        trivial
      · rw [put_of_ne _ _ hcg, put_of_ne _ _ hcg]
        exact hc
    · rw [World.frame_modifyFrame, if_pos rfl]
      exact hd
    · rw [World.frame_modifyFrame, if_pos rfl]
    · intro g'
      by_cases hg' : g' = g
      · rw [hg', put_self]
        exact .inr ⟨hg, rfl⟩
      · rw [put_of_ne _ _ hg', put_of_ne _ _ hg']
        exact .inl rfl

/-! ## The end of a frame -/

/-- The body of a frame has returned and nothing waits for it. -/
theorem complete {f : FrameId} (h : Layout w { a with hand := f :: a.hand } spot)
    (hf : spot f = .hand none) (hcont : (w.frame f).continuation = none)
    (hfits : Fits (w.frame f) .complete) : Layout w a (put spot f .complete) := by
  refine h.relocate_one (by rw [hf]; nofun) nofun (by rw [hf]; rfl) ?_ hfits ?_ rfl
    rfl rfl rfl rfl rfl
    ?_
  · intro g hg
    have := (h.awaiting f g).mpr hg
    rw [hcont] at this
    cases this
  · have hplaces := h.toPlaces
    constructor <;> grind [put, Spot.IsHand, cases Places]
  · intro c b
    by_cases hc : c = f
    · subst hc
      rw [put_self, hf, Spot.owed_started (s := .hand none) (.inl trivial),
        Spot.owed_started (.inr rfl)]
    · rw [put_of_ne spot _ hc]

/-- The record of a frame that was destroyed. -/
def gone (frame : Frame) : Frame :=
  { frame with alive := false, output := none, code := [], wait := none, tasks := [] }

/-- Dropping a result only logs. -/
theorem dropOutput_eq (w : World) (p : Place) (o : Output) :
    ∃ log, w.dropOutput p o = { w with log } := by
  unfold World.dropOutput
  split
  · exact ⟨_, rfl⟩
  · exact ⟨w.log, rfl⟩

/-- Destroying a frame logs, records the end and leaves a record without contents. -/
theorem endFrame_eq (w : World) (p : Place) (f : FrameId) (ending : Ending) :
    ∃ log, w.endFrame p f ending =
      (({ w with log, ends := (f, ending) :: w.ends } : World).modifyFrame f gone,
        (w.frame f).heldTasks) := by
  unfold World.endFrame
  cases houtput : (w.frame f).output with
  | none =>
    simp only [houtput]
    exact ⟨_, rfl⟩
  | some o =>
    obtain ⟨log, hlog⟩ := dropOutput_eq w p o
    simp only [houtput, hlog]
    exact ⟨_, rfl⟩

theorem endFrame_agrees (w : World) (p : Place) (f : FrameId) (ending : Ending) :
    ({ w with ends := (f, ending) :: w.ends }.modifyFrame f gone).Agrees
      (w.endFrame p f ending).1 := by
  obtain ⟨log, heq⟩ := endFrame_eq w p f ending
  rw [heq]
  exact ⟨fun _ => rfl, rfl, rfl, rfl, rfl, rfl⟩

theorem endFrame_congr {w w' : World} (hw : w.Agrees w') (p : Place) (f : FrameId)
    (ending : Ending) : (w.endFrame p f ending).1.Agrees (w'.endFrame p f ending).1 := by
  obtain ⟨log, heq⟩ := endFrame_eq w p f ending
  obtain ⟨log', heq'⟩ := endFrame_eq w' p f ending
  rw [heq, heq']
  refine ⟨fun g => ?_, hw.frameCount, congrArg ((f, ending) :: ·) hw.ends,
    hw.runLists, hw.tasks, hw.slots⟩
  rw [World.frame_modifyFrame, World.frame_modifyFrame]
  show (if g = f then gone (w'.frame g) else w'.frame g) =
    if g = f then gone (w.frame g) else w.frame g
  rw [hw.frame]

/-- A frame is destroyed, and with it the handle on it goes. -/
theorem endFrame (h : Layout w a spot) {f : FrameId} (p : Place) {ending : Ending}
    {handles spent : List Task}
    (hf : spot f = .unstarted ∨ spot f = .complete ∨ spot f = .hand none)
    (hheld : (w.frame f).heldTasks = []) (hcont : (w.frame f).continuation = none)
    (hended : Ended (w.frame f) ending)
    (hcount : ∀ c b, handles.count ⟨some c, b⟩ + a.spent.count ⟨some c, b⟩ +
        (if c = f then (spot f).owed (w.frame f).disposal b else 0) =
      a.handles.count ⟨some c, b⟩ + spent.count ⟨some c, b⟩) :
    Layout (w.endFrame p f ending).1 { a with hand := a.hand.erase f, handles, spent }
      (put spot f .absent) := by
  have hne : spot f ≠ .absent := by
    rcases hf with e | e | e <;> (rw [e]; rintro ⟨⟩)
  have hlt := h.made f hne
  have hfresh : f ∉ w.ends.map Prod.fst := fun hmem => hne ((h.ended f).mp hmem).2
  have hspotChild : (spot f).child = none := by
    rcases hf with e | e | e <;> (rw [e]; rfl)
  have hframe : ∀ g, ({ w with ends := (f, ending) :: w.ends }.modifyFrame f gone).frame g =
      if g = f then gone (w.frame g) else w.frame g := fun g => World.frame_modifyFrame w f g gone
  refine Layout.of_agrees ?_ (endFrame_agrees w p f ending)
  refine ⟨?_, ?_, ?_, ?_, ?_, ?_, ?_, ?_, ?_, ?_, h.ordered, ?_, ?_⟩
  · have hplaces := h.toPlaces
    have herase := fun g => h.hand_nodup.mem_erase_iff (a := g) (b := f)
    have hnodup := h.hand_nodup.erase f
    show Places w.runLists w.slot _ _
    constructor <;> grind [put, Spot.IsHand, cases Places]
  · intro c g
    have hold := h.awaiting c g
    rw [hframe]
    have hgone : (if c = f then gone (w.frame c) else w.frame c).continuation =
        (w.frame c).continuation := by split <;> rfl
    rw [hgone, hold]
    by_cases hg : g = f
    · rw [hg, put_self, hspotChild]
      exact ⟨(by rintro ⟨⟩), (by rintro ⟨⟩)⟩
    · rw [put_of_ne _ _ hg]
  · intro c g hg
    by_cases hgf : g = f
    · rw [hgf, put_self] at hg
      cases hg
    · rw [put_of_ne _ _ hgf] at hg
      by_cases hc : c = f
      · have := (h.awaiting c g).mpr hg
        rw [hc, hcont] at this
        cases this
      · rw [put_of_ne _ _ hc]
        exact h.child c g hg
  · intro c g
    rw [hframe]
    split <;> exact h.owned c g
  · intro g
    rw [hframe]
    by_cases hg : g = f
    · subst hg
      have hfits := h.frames g
      rw [if_pos rfl, put_self]
      exact ⟨⟨(by rintro ⟨⟩), fun hn => absurd rfl hn⟩, trivial, fun _ => rfl, by simp, hfits.keeps,
        fun _ => rfl, fun hn => absurd rfl hn, (by rintro _ ⟨⟩), List.nodup_nil⟩
    · rw [if_neg hg, put_of_ne _ _ hg]
      exact h.frames g
  · intro g hg
    by_cases hgf : g = f
    · exact hgf ▸ hlt
    · rw [put_of_ne _ _ hgf] at hg
      exact h.made g hg
  · intro g
    show g ∈ f :: w.ends.map Prod.fst ↔ g < w.frameCount ∧ _
    have hold := h.ended g
    by_cases hg : g = f
    · subst hg
      rw [put_self]
      exact ⟨fun _ => ⟨hlt, rfl⟩, fun _ => List.mem_cons_self⟩
    · rw [put_of_ne _ _ hg, List.mem_cons]
      exact ⟨fun hmem => hold.mp (hmem.resolve_left hg), fun hmem => .inr (hold.mpr hmem)⟩
  · exact List.nodup_cons.mpr ⟨hfresh, h.ended_nodup⟩
  · intro e he
    rw [hframe]
    rcases List.mem_cons.mp he with rfl | he
    · rw [if_pos rfl]
      cases ending <;> exact hended
    · have hef : e.1 ≠ f := fun heq => hfresh (heq ▸ List.mem_map_of_mem he)
      rw [if_neg hef]
      exact h.endings e he
  · intro c b
    have hold := h.handles c b
    have hmoved := hcount c b
    have hworld := World.count_held_modifyFrame { w with ends := (f, ending) :: w.ends } hlt gone
      ⟨some c, b⟩
    change _ + (w.frame f).heldTasks.count _ = w.held.count _ + 0 at hworld
    rw [hheld, List.count_nil] at hworld
    rw [List.count_append] at hold ⊢
    have hd : (if c = f then gone (w.frame c) else w.frame c).disposal = (w.frame c).disposal := by
      split <;> rfl
    rw [hframe, hd]
    show _ + handles.count _ = _ + spent.count _
    by_cases hc : c = f
    · subst hc
      rw [if_pos rfl] at hmoved
      rw [put_self]
      show _ = 0 + _
      omega
    · rw [if_neg hc] at hmoved
      rw [put_of_ne _ _ hc]
      omega
  · intro g hg
    have hgf : g ≠ f := fun e => hg (by rw [e, put_self])
    rw [put_of_ne _ _ hgf] at hg
    rw [hframe, if_neg hgf]
    exact h.home g hg
  · intro g o
    rw [hframe]
    split <;> exact h.returned g o

/-! ## The beginning of a frame -/

theorem newFrame_frame (w : World) (home : Option ThreadId) (disposal : Disposal) (body : String)
    (arg : Int) (g : FrameId) :
    (w.newFrame home disposal body arg).1.frame g =
      if g = w.frameCount then
        { body, arg, disposal, home, code := (w.bodies.get? body).getD [], alive := true,
          keepsOutput := disposal == .awaited }
      else w.frame g :=
  Table.get_set _ _ _ _

/-- The next frame to be made is nowhere yet. -/
theorem absent_frameCount (h : Layout w a spot) : spot w.frameCount = .absent := by
  cases hspot : spot w.frameCount with
  | absent => rfl
  | _ => exact absurd (h.made w.frameCount (by rw [hspot]; nofun)) (Nat.lt_irrefl _)

/-- A frame is made. -/
private theorem newFrame (h : Layout w a spot) {disposal : Disposal} (body : String) (arg : Int)
    {s : Spot} {a' : Around}
    (hs : s = .unstarted ∧ disposal = .awaited ∨ s = .hand none)
    (hplaces : Places w.runLists w.slot a' (put spot w.frameCount s))
    (hspent : a'.spent = a.spent) (hthread : a'.thread = a.thread)
    (hreturned : a'.returned = a.returned)
    (hcount : ∀ c b, a'.handles.count ⟨some c, b⟩ = a.handles.count ⟨some c, b⟩ +
      if c = w.frameCount then s.owed disposal b else 0) :
    Layout (w.newFrame (some a.thread) disposal body arg).1 a' (put spot w.frameCount s) := by
  have hfresh : spot w.frameCount = .absent := h.absent_frameCount
  have hs' : s ≠ .absent ∧ s.child = none := by
    rcases hs with ⟨rfl, -⟩ | rfl
    · exact ⟨nofun, rfl⟩
    · exact ⟨nofun, rfl⟩
  have hframe := newFrame_frame w (some a.thread) disposal body arg
  have hcontNone : (w.frame w.frameCount).continuation = none := by
    cases hcont : (w.frame w.frameCount).continuation with
    | none => rfl
    | some g =>
      have := h.child _ _ ((h.awaiting _ _).mp hcont)
      rw [hfresh] at this
      exact this.elim
  refine ⟨hplaces, ?_, ?_, ?_, ?_, ?_, ?_, h.ended_nodup, ?_, ?_, h.ordered, ?_, ?_⟩
  · intro c g
    have hold := h.awaiting c g
    have hcont : ((w.newFrame (some a.thread) disposal body arg).1.frame c).continuation =
        (w.frame c).continuation := by
      rw [hframe]
      split
      · rename_i hc
        rw [hc, hcontNone]
      · rfl
    rw [hcont, hold]
    by_cases hg : g = w.frameCount
    · rw [hg, put_self, hs'.2, hfresh]
      rfl
    · rw [put_of_ne _ _ hg]
  · intro c g hg
    by_cases hgf : g = w.frameCount
    · rw [hgf, put_self, hs'.2] at hg
      cases hg
    · rw [put_of_ne _ _ hgf] at hg
      have hold := h.child c g hg
      by_cases hc : c = w.frameCount
      · rw [hc, hfresh] at hold
        exact hold.elim
      · rw [put_of_ne _ _ hc]
        exact hold
  · intro c g
    rw [hframe]
    split
    · nofun
    · exact h.owned c g
  · intro g
    rw [hframe]
    by_cases hg : g = w.frameCount
    · rw [if_pos hg, hg, put_self]
      rcases hs with ⟨rfl, rfl⟩ | rfl
      · exact ⟨⟨fun _ => hs'.1, fun _ => rfl⟩, rfl, fun _ => rfl, fun _ => rfl, fun _ => rfl,
          fun _ => rfl, fun _ _ => rfl, nofun, List.nodup_nil⟩
      · refine ⟨⟨fun _ => hs'.1, fun _ => rfl⟩, trivial, fun _ => rfl, nofun, ?_, fun _ => rfl,
          fun _ _ => rfl, nofun, List.nodup_nil⟩
        rintro rfl
        rfl
    · rw [if_neg hg, put_of_ne _ _ hg]
      exact h.frames g
  · intro g hg
    show g < w.frameCount + 1
    by_cases hgf : g = w.frameCount
    · rw [hgf]
      exact Nat.lt_succ_self _
    · rw [put_of_ne _ _ hgf] at hg
      exact Nat.lt_succ_of_lt (h.made g hg)
  · intro g
    show g ∈ w.ends.map Prod.fst ↔ g < w.frameCount + 1 ∧ _
    have hold := h.ended g
    by_cases hg : g = w.frameCount
    · rw [hold, hg, put_self]
      exact ⟨fun hlt => absurd hlt.1 (Nat.lt_irrefl _), fun e => absurd e.2 hs'.1⟩
    · rw [put_of_ne _ _ hg, hold]
      exact and_congr_left' ⟨Nat.lt_succ_of_lt,
        fun hlt => Nat.lt_of_le_of_ne (Nat.le_of_lt_succ hlt) hg⟩
  · intro e he
    have hlt := ((h.ended e.1).mp (List.mem_map_of_mem he)).1
    rw [hframe, if_neg (Nat.ne_of_lt hlt)]
    exact h.endings e he
  · intro c b
    have hold := h.handles c b
    have hmade := hcount c b
    have hheld : (w.newFrame (some a.thread) disposal body arg).1.held.count ⟨some c, b⟩ =
        w.held.count ⟨some c, b⟩ := by
      rw [World.count_held, World.count_held]
      show w.tasks.values.count _ + ((List.range (w.frameCount + 1)).flatMap _).count _ = _
      have hothers : (List.range w.frameCount).flatMap (fun f : Nat =>
          ((w.newFrame (some a.thread) disposal body arg).1.frame f).heldTasks) =
          (List.range w.frameCount).flatMap fun f : Nat => (w.frame f).heldTasks := by
        rw [List.flatMap_def, List.flatMap_def]
        congr 1
        refine List.map_congr_left fun f hf => ?_
        rw [hframe, if_neg (Nat.ne_of_lt (List.mem_range.mp hf))]
      rw [List.range_succ, List.flatMap_append, hothers, List.flatMap_cons, hframe, if_pos rfl,
        List.count_append]
      rfl
    rw [List.count_append] at hold ⊢
    rw [hheld, hspent, hframe]
    by_cases hc : c = w.frameCount
    · rw [if_pos hc] at hmade
      rw [if_pos hc, hc, put_self]
      rw [hc, hfresh] at hold
      change _ = 0 + _ at hold
      rw [hc] at hmade
      show _ = s.owed disposal b + _
      omega
    · rw [if_neg hc] at hmade
      rw [if_neg hc, put_of_ne _ _ hc]
      omega
  · intro g hg
    rw [hframe, hthread]
    split
    · rfl
    · rename_i hgf
      rw [put_of_ne _ _ hgf] at hg
      exact h.home g hg
  · intro g o
    have hold := h.returned g o
    rw [hreturned, hframe, hold]
    show _ ↔ g < w.frameCount + 1 ∧ _
    by_cases hg : g = w.frameCount
    · rw [if_pos hg, hg]
      exact ⟨fun hr => absurd hr.1 (Nat.lt_irrefl _), fun hr => nomatch hr.2.1⟩
    · rw [if_neg hg]
      exact and_congr_left' ⟨Nat.lt_succ_of_lt,
        fun hlt => Nat.lt_of_le_of_ne (Nat.le_of_lt_succ hlt) hg⟩

/-- A task is made. -/
theorem newTask (h : Layout w a spot) {p : Place} (hp : p.thread = a.thread) (body : String)
    (arg : Int) :
    Layout (w.newTask p body arg).1
      { a with handles := ⟨some w.frameCount, false⟩ :: a.handles }
      (put spot w.frameCount .unstarted) := by
  have hfresh : spot w.frameCount = .absent := h.absent_frameCount
  show Layout (w.newFrame (some p.thread) .awaited body arg).1 _ _
  rw [hp]
  refine h.newFrame body arg (.inl ⟨rfl, rfl⟩) ?_ rfl rfl rfl ?_
  · have hplaces := h.toPlaces
    constructor <;> grind [put, Spot.IsHand, cases Places]
  · intro c b
    rw [List.count_cons]
    by_cases hc : c = w.frameCount
    · subst hc
      cases b <;> simp [Spot.owed]
    · simp [Ne.symm hc, hc]

/-- A detached frame is made and goes on a ready list. -/
theorem spawnDetached (h : Layout w a spot) {p : Place} (hp : p.thread = a.thread) (k : WorkerId)
    (body : String) (arg : Int) :
    Layout (w.spawnDetached p k body arg) a (put spot w.frameCount (.listed (readyList k))) := by
  have hfresh : spot w.frameCount = .absent := h.absent_frameCount
  have hmade : Layout (w.newFrame (some a.thread) .detached body arg).1
      { a with hand := w.frameCount :: a.hand } (put spot w.frameCount (.hand none)) := by
    refine h.newFrame body arg (.inr rfl) ?_ rfl rfl rfl ?_
    · have hplaces := h.toPlaces
      constructor <;> grind [put, Spot.IsHand, cases Places]
    · intro c b
      split <;> rfl
  have hemitted : Layout ((w.newFrame (some a.thread) .detached body arg).1.emit
      (.spawn w.frameCount)) { a with hand := w.frameCount :: a.hand }
      (put spot w.frameCount (.hand none)) :=
    hmade.of_agrees ⟨fun _ => rfl, rfl, rfl, rfl, rfl, rfl⟩
  rw [← put_put spot w.frameCount (.hand none)]
  unfold World.spawnDetached
  rw [hp]
  refine hemitted.enqueue (put_self _ _ _) ?_
  have hframe : ((w.newFrame (some a.thread) .detached body arg).1.emit
      (.spawn w.frameCount)).frame w.frameCount = _ :=
    (newFrame_frame w (some a.thread) .detached body arg w.frameCount).trans (if_pos rfl)
  rw [hframe]
  exact ⟨⟨fun _ => by rintro ⟨⟩, fun _ => rfl⟩, .inl rfl, by simp, by simp, by simp,
      fun _ => rfl, fun _ _ => rfl, (by rintro _ ⟨⟩),
    List.nodup_nil⟩

end Layout

end Substrate.Coro
