import Substrate.Proofs.View.Aliasing
import Substrate.Proofs.View.Failing

/-!
# What a changed view shows

What the view itself shows after elements were added to it, copied over its
own or moved to a larger store, wherever the source of the elements lies.

* Adding and copying.  The source may be the same view, lie inside the target,
  reach into its spare room or have another store.  All of it is read before
  the first write, so what is written are its old elements.
* Growing.  The elements of a view that grows are taken out of its store if it
  is the only view there, and cloned otherwise.  `Session.Relocated` says what
  either way leaves, and it determines what every view shows.
-/

namespace Substrate.View

variable {α : Type}

namespace Memory

section

variable {m m' : Memory α} {v : Window} {values : List α}

/-- What a view shows once values were written over its first elements. -/
theorem Wrote.contents_front (h : Wrote m m' v 0 values) (hv : m.Within v)
    (hfit : values.length ≤ v.length) :
    m'.contents v = values ++ (m.contents v).drop values.length := by
  have hlength := hv.length_le
  have hafter := (hv.of_sameShape h.sameShape).length_contents
  refine List.ext_getElem? fun i => ?_
  by_cases hi : i < v.length
  · rw [h.contents_getElem? hv (by omega) hi]
    by_cases hfront : i < values.length
    · rw [if_pos (by omega), List.getElem?_append_left hfront]
      congr 1
      omega
    · rw [if_neg (by omega), List.getElem?_append_right (by omega), List.getElem?_drop]
      congr 1
      omega
  · rw [List.getElem?_eq_none (by omega), List.getElem?_eq_none]
    rw [List.length_append, List.length_drop, hv.length_contents]
    omega

end

variable [Element α] {m m' : Memory α} {v w : Window} {rest : List Window} {values : List α}

/-- What a view shows once values were added behind its elements, whether it had the room
or had to grow. -/
theorem Added.contents_eq {room : Nat} (hadded : Added m rest v room values (m', .ok w))
    (h : m.Sound (v :: rest)) (hroom : values.length ≤ room) :
    m'.contents w = m.contents v ++ values := by
  cases hadded with
  | within hfit hwrote =>
    exact hwrote.contents_lengthened (h.within v List.mem_cons_self) (by omega)
  | grown hfull hgrown hsound hwrote =>
    have := hgrown.room
    rw [hwrote.contents_lengthened (hsound.within _ List.mem_cons_self) (by omega),
      hgrown.contents_eq]

end Memory

namespace Session

open Memory

/-! ## Adding and copying -/

section

variable {s : Session α} {name : String}

theorem shown_of_get? {v : Window} (hv : s.views.get? name = some v) :
    s.shown name = s.memory.contents v := by
  rw [shown, hv]
  rfl

/-- A changed view of a name that is answered without a failure. -/
theorem update_shown {m : Memory α} {result : Except Failure Window}
    (hok : (s.update name (m, result)).2 = .nothing) :
    ∃ w, result = .ok w ∧ (s.update name (m, result)).1.shown name = m.contents w := by
  cases result with
  | ok w => exact ⟨w, rfl, shown_of_get? ((Registers.get?_set _ _ _ _).trans (if_pos rfl))⟩
  | error e => cases hok

variable [Element α]

/-- A view of a name that values were added behind. -/
theorem update_shown_added {m m' : Memory α} {rest : List Window} {v : Window} {room : Nat}
    {values : List α} {result : Except Failure Window}
    (hadded : Added m rest v room values (m', result)) (h : m.Sound (v :: rest))
    (hroom : values.length ≤ room) (hok : (s.update name (m', result)).2 = .nothing) :
    (s.update name (m', result)).1.shown name = m.contents v ++ values := by
  obtain ⟨w, rfl, hshown⟩ := update_shown hok
  rw [hshown, hadded.contents_eq h hroom]

variable [DecidableEq α] (h : s.Sound) {v : Window} (hv : s.views.get? name = some v)
include h hv

theorem append_shown {source : String} {u : Window} (hu : s.views.get? source = some u)
    (hok : (s.apply (.append name source)).2 = .nothing) :
    (s.apply (.append name source)).1.shown name = s.memory.contents v ++ s.memory.contents u := by
  by_cases hself : name = source
  · subst hself
    cases hv.symm.trans hu
    -- a clone of the view is appended, and it lets go of the store afterwards
    have hretained := (h.apart hv).retain List.mem_cons_self rfl rfl (h.within hv)
    have hwithin := hretained.within v List.mem_cons_self
    have hlength := Nat.le_of_eq hwithin.length_contents
    have hadded := hretained.append hwithin
    have hdropped := ((hadded.sound hretained hlength).2.perm (List.Perm.swap _ _ _)).drop.2
    have happly : s.apply (.append name name) =
        s.update name (((s.memory.retain v).append v v).1.drop v,
          ((s.memory.retain v).append v v).2) := by
      simp only [Session.apply, Session.onBoth, Session.on, hv, if_true, Memory.clone]
    rw [happly] at hok ⊢
    obtain ⟨w, hw, hshown⟩ := update_shown hok
    have hsame : (s.memory.retain v).contents v = s.memory.contents v :=
      contents_congr fun k _ => payload_retain s.memory v k
    rw [hshown, contents_congr fun k _ => hdropped.payload_eq k, ← hsame]
    refine Added.contents_eq (w := w) ?_ hretained hlength
    rwa [← hw]
  · have happly : s.apply (.append name source) = s.update name (s.memory.append v u) := by
      simp only [Session.apply, Session.onBoth, Session.on, hv, hu, if_neg hself]
    rw [happly] at hok ⊢
    exact update_shown_added ((h.apart hv).append (h.within hu)) (h.apart hv)
      (Nat.le_of_eq (h.within hu).length_contents) hok

theorem extend_shown {values : List α} (hok : (s.apply (.extend name values)).2 = .nothing) :
    (s.apply (.extend name values)).1.shown name = s.memory.contents v ++ values := by
  have hmade := (h.make values.length).apart hv
  have happly : s.apply (.extend name values) =
      (s.make values.length).update name
        (((s.make values.length).memory.extend v values).1.note (·.drop values.length),
          ((s.make values.length).memory.extend v values).2) := by
    simp only [Session.apply, Session.on, hv]
  rw [happly] at hok ⊢
  have hadded := (hmade.extend values).note (·.drop values.length)
  have hshown := update_shown_added hadded hmade (Nat.le_refl _) hok
  exact hshown

theorem copyFrom_shown {source : String} {u : Window} (hu : s.views.get? source = some u) :
    let n := min v.length u.length
    (s.apply (.copyFrom name source)).2 = .number n ∧
      (s.apply (.copyFrom name source)).1.shown name =
        (s.memory.contents u).take n ++ (s.memory.contents v).drop n := by
  intro n
  obtain ⟨m, hcopy, hwrote⟩ := (h.within hv).copyFrom (h.within hu)
  have happly : s.apply (.copyFrom name source) =
      ({ s with memory := m.note (·.drop 0) }, .number n) := by
    simp only [Session.apply, Session.onBoth, Session.on, hv, hu, hcopy, Session.answer, n]
  have htake : (s.memory.contents u).take v.length = (s.memory.contents u).take n := by
    rw [List.take_eq_take_min, (h.within hu).length_contents]
  have hlength : ((s.memory.contents u).take n).length = n := by
    rw [List.length_take, (h.within hu).length_contents]
    omega
  rw [htake] at hwrote
  have hfront := (hwrote.note (·.drop 0)).contents_front (h.within hv) (by omega)
  rw [hlength] at hfront
  have hshown : ({ s with memory := m.note (·.drop 0) } : Session α).shown name = _ :=
    shown_of_get? hv
  rw [happly]
  exact ⟨rfl, hshown.trans hfront⟩

end

/-- In any state that a run reaches, take two views `v` and `u`, whether they are one view,
overlap on one store or have different stores.  If `u` can be appended to `v`, or given
elements can be added to it, then the view shows its old elements and behind them the old
elements of `u`, or those given.  Copying from `u` always succeeds: it answers the lesser
length, and that many old elements of `u` stand in front of the other old elements of
`v`. -/
theorem added_and_copied_as_read_before [Element α] [DecidableEq α] (grants : Nat → Bool)
    {ops : List (Op α)} (hfits : ∀ op ∈ ops, op.Fits) {a b : String} {v u : Window}
    (hv : (run grants ops).views.get? a = some v) (hu : (run grants ops).views.get? b = some u) :
    let s := run grants ops
    ((s.apply (.append a b)).2 = .nothing →
      (s.apply (.append a b)).1.shown a = s.memory.contents v ++ s.memory.contents u) ∧
    (∀ values, (s.apply (.extend a values)).2 = .nothing →
      (s.apply (.extend a values)).1.shown a = s.memory.contents v ++ values) ∧
    (let n := min v.length u.length
     (s.apply (.copyFrom a b)).2 = .number n ∧
      (s.apply (.copyFrom a b)).1.shown a =
        (s.memory.contents u).take n ++ (s.memory.contents v).drop n) := by
  intro s
  have h : s.Sound := run_sound grants hfits
  exact ⟨append_shown h hv hu, fun _ => extend_shown h hv, copyFrom_shown h hv hu⟩

/-- A view of three elements, one of the first two of them and one of the first alone. -/
def nestedOps : List (Op Int) := [.ofList "a" [1, 2, 3], .slice "b" "a" 0 2, .slice "c" "a" 0 1]

/-- The first two elements are appended to the first alone in place, the first of them over
the second.  Three others make the view grow. -/
theorem added_and_copied_as_read_before_nested :
    let s := run (· < 100) nestedOps
    (∀ op ∈ nestedOps, op.Fits) ∧ (s.apply (.append "c" "b")).2 = .nothing ∧
      (s.apply (.append "c" "b")).1.shown "c" = [1, 1, 2] ∧
      (s.apply (.extend "c" [6, 7, 8])).1.shown "c" = [1, 6, 7, 8] ∧
      (s.apply (.copyFrom "c" "b")).2 = .number 1 ∧
      (s.apply (.copyFrom "c" "b")).1.shown "c" = [1] := by
  intro s
  have hfits : ∀ op ∈ nestedOps, op.Fits := by simp [nestedOps, Op.Fits, sizeLimit]
  have hb : s.views.get? "b" = some ⟨some 0, 0, 2, 3⟩ := by decide +kernel
  have hc : s.views.get? "c" = some ⟨some 0, 0, 1, 3⟩ := by decide +kernel
  have happended : (s.apply (.append "c" "b")).2 = .nothing := rfl
  have hextended : ((run (· < 100) nestedOps).apply (.extend "c" [6, 7, 8])).2 = .nothing := rfl
  obtain ⟨happend, hextend, hnumber, hcopy⟩ :=
    added_and_copied_as_read_before (· < 100) hfits hc hb
  exact ⟨hfits, happended, (happend happended).trans (by decide +kernel),
    (hextend _ hextended).trans (by decide +kernel), hnumber, hcopy.trans (by decide +kernel)⟩

/-! ## Growing -/

section

variable {s t : Session α}

/-- Sessions with the same views that show the same have the same summary: the holders of a
store are counted by the views. -/
theorem summary_congr (hs : s.Sound) (ht : t.Sound) (hviews : s.views = t.views)
    (hcontents : ∀ w ∈ s.views.values, s.memory.contents w = t.memory.contents w) :
    s.summary = t.summary := by
  have hcount (i : Nat) : s.memory.stores.count i = t.memory.stores.count i := by
    rw [hs.memory.balanced.counts i, ht.memory.balanced.counts i, heldBy_eq_zero, heldBy_eq_zero,
      hviews]
  have hholders (w : Window) : s.memory.holders w = t.memory.holders w := by
    unfold holders
    cases w.store with
    | none => rfl
    | some i => exact hcount i
  unfold summary Registers.map
  rw [← hviews]
  congr 1
  refine List.map_congr_left fun e he => ?_
  dsimp only
  rw [hcontents e.2 (List.mem_map_of_mem he), measure, measure, hholders]

end

/-- `t` is `s` after the view `v` of a name moved to a store of its own with room for
`capacity`: it shows what it showed from the first slot on, with blank elements behind, and
the other views are and show what they were and showed. -/
structure Relocated [Element α] (s t : Session α) (name : String) (v : Window) (capacity : Nat) :
    Prop where
  moved : ∃ u, t.views.get? name = some u ∧ u.cursor = 0 ∧ u.capacity = capacity ∧
    t.memory.contents u = s.memory.contents v ∧
    ∀ i, v.length ≤ i → i < capacity → (t.memory.slots u)[i]? = some Element.blank
  others : ∀ other w, other ≠ name → s.views.get? other = some w →
    t.views.get? other = some w ∧ t.memory.contents w = s.memory.contents w

section

variable [Element α] {s : Session α} {name : String} {v : Window} {capacity : Nat}

/-- However the elements are gathered, the view is relocated, and the views there are do not
depend on the way. -/
theorem Sound.relocates (h : s.Sound) (hv : s.views.get? name = some v)
    {pick : Memory α → Nat → Memory α × Except Failure α}
    (hgathers : Gathers pick (s.memory.note (·.make capacity)) v) (hlength : v.length ≤ capacity)
    (hcapacity : capacity ≤ sizeLimit) (hgrants : s.memory.grants (bytesFor α capacity) = true) :
    let out := s.update name (s.memory.growBy pick v capacity)
    let u : Window := ⟨some s.memory.stores.size, 0, v.length, capacity⟩
    out.2 = .nothing ∧ out.1.Sound ∧ out.1.views = s.views.set name u ∧
      out.1.memory.contents u = s.memory.contents v ∧
      (∀ w ∈ (s.views.erase name).values, out.1.memory.contents w = s.memory.contents w) ∧
      Relocated s out.1 name v capacity := by
  obtain ⟨m, u, hgrow, hgrown, hsound, hslots⟩ :=
    (h.apart hv).growBy hgathers hlength hcapacity hgrants
  obtain ⟨store, cursor, length, room⟩ := u
  obtain ⟨hstore, hcursor, hshort, hroom, hcontents, -⟩ := id hgrown
  cases hstore
  cases hcursor
  cases hshort
  cases hroom
  have hkept : ∀ w ∈ (s.views.erase name).values, m.contents w = s.memory.contents w :=
    fun w hw => hgrown.contents_of_held (h.apart hv) hsound hw
  rw [hgrow]
  refine ⟨rfl, h.replace hsound, rfl, hcontents, hkept, ⟨_, ?_, rfl, rfl, hcontents, ?_⟩, ?_⟩
  · exact (Registers.get?_set _ _ _ _).trans (if_pos rfl)
  · intro i hle hlt
    show (m.slots _)[i]? = _
    have hshown := (h.within hv).length_contents
    rw [hslots, List.getElem?_append_right (by omega), List.getElem?_replicate, if_pos (by omega)]
  · exact fun other w hne hw =>
      ⟨(Registers.get?_set _ _ _ _).trans ((if_neg hne).trans hw), hkept w (mem_erase hw hne)⟩

variable [DecidableEq α]

/-- Making room that the view has not is growing. -/
theorem Sound.apply_reserve_grow (h : s.Sound) (hv : s.views.get? name = some v) {n : Nat}
    (hfull : v.capacity < v.length + n) (hok : (s.apply (.reserve name n)).2 = .nothing) :
    s.apply (.reserve name n) = s.update name (s.memory.grow v (2 * (v.length + n))) ∧
      2 * (v.length + n) ≤ sizeLimit ∧
      s.memory.grants (bytesFor α (2 * (v.length + n))) = true := by
  have hnot : ¬ ∃ e, (s.apply (.reserve name n)).2 = .failed e := by
    rintro ⟨e, he⟩
    cases hok.symm.trans he
  rw [apply_reserve_failed hv, (h.apart hv).reserve_fails_iff] at hnot
  simp only [not_or, not_and, Bool.not_eq_false] at hnot
  obtain ⟨hsum, hrest⟩ := hnot
  obtain ⟨hproduct, hgrants⟩ := hrest hfull
  refine ⟨?_, by omega, hgrants⟩
  have hreserve : s.memory.reserve v n = s.memory.grow v (2 * (v.length + n)) := by
    rw [Memory.reserve, if_neg hsum, if_neg (by omega), if_neg hproduct]
  rw [Session.apply, Session.on, hv, ← hreserve]

end

/-- In any state that a run reaches, make room for `n` more elements behind a view `v` that
has not the room.  If this succeeds, the elements were taken out when `v` was the only view
on its store, and cloned otherwise.  Either way the view shows what it showed, from the
first slot of a store of twice the size needed, with blank elements behind, and no other
view changes.  Where the elements are taken out, cloning them would have given the same
answer, the same views, and for each of them the same elements and measures. -/
theorem moving_and_cloning_look_alike [Element α] [DecidableEq α] (grants : Nat → Bool)
    {ops : List (Op α)} (hfits : ∀ op ∈ ops, op.Fits) {name : String} {v : Window} {n : Nat}
    (hv : (run grants ops).views.get? name = some v) (hfull : v.capacity < v.length + n)
    (hok : ((run grants ops).apply (.reserve name n)).2 = .nothing) :
    let s := run grants ops
    let capacity := 2 * (v.length + n)
    let moving := s.update name (s.memory.growBy (fun m pos => m.takeAt v pos) v capacity)
    let cloning := s.update name (s.memory.growBy (fun m pos => m.cloneAt v pos) v capacity)
    s.apply (.reserve name n) = (if s.memory.holders v = 1 then moving else cloning) ∧
    Relocated s cloning.1 name v capacity ∧
    (s.memory.holders v = 1 →
      Relocated s moving.1 name v capacity ∧ moving.2 = cloning.2 ∧
        moving.1.views = cloning.1.views ∧ moving.1.summary = cloning.1.summary) := by
  intro s capacity moving cloning
  have h : s.Sound := run_sound grants hfits
  obtain ⟨happly, hcapacity, hgrants⟩ := h.apply_reserve_grow hv hfull hok
  have hnoted := (h.within hv).of_sameShape (.note s.memory (·.make capacity))
  have hlength : v.length ≤ capacity := by omega
  obtain ⟨hreply, hsound, hviews, hcontents, hkept, hcloned⟩ :=
    h.relocates hv hnoted.gathers_clone hlength hcapacity hgrants
  refine ⟨?_, hcloned, fun hone => ?_⟩
  · rw [happly, Memory.grow]
    split <;> rfl
  · obtain ⟨hreply', hsound', hviews', hcontents', hkept', hmoved⟩ :=
      h.relocates hv (hnoted.gathers_take hone) hlength hcapacity hgrants
    have hsame : moving.1.views = cloning.1.views := hviews'.trans hviews.symm
    refine ⟨hmoved, hreply'.trans hreply.symm, hsame, summary_congr hsound' hsound hsame ?_⟩
    intro w hw
    rw [hviews', (Registers.values_set_perm_erase h.ordered name _).mem_iff] at hw
    rcases List.mem_cons.mp hw with rfl | hw
    · rw [hcontents', hcontents]
    · rw [hkept' w hw, hkept w hw]

/-- A window whose store has no other view, and two views of another store. -/
def lonelyOps : List (Op Int) :=
  [.ofList "a" [1, 2, 3], .slice "b" "a" 1 3, .ofList "a" [4], .clone "c" "a"]

/-- The window moves its two elements out, and one of the two views clones its own. -/
theorem moving_and_cloning_look_alike_lonely :
    let s := run (· < 100) lonelyOps
    let v : Window := ⟨some 0, 1, 2, 2⟩
    (∀ op ∈ lonelyOps, op.Fits) ∧ s.memory.holders v = 1 ∧
      (s.apply (.reserve "b" 2)).2 = .nothing ∧ Relocated s (s.apply (.reserve "b" 2)).1 "b" v 8 ∧
      (s.apply (.reserve "b" 2)).1.summary =
        (s.update "b" (s.memory.growBy (fun m pos => m.cloneAt v pos) v 8)).1.summary ∧
      (s.apply (.reserve "a" 1)).2 = .nothing ∧
      Relocated s (s.apply (.reserve "a" 1)).1 "a" ⟨some 1, 0, 1, 1⟩ 4 := by
  intro s v
  have hfits : ∀ op ∈ lonelyOps, op.Fits := by simp [lonelyOps, Op.Fits, sizeLimit]
  have ha : s.views.get? "a" = some ⟨some 1, 0, 1, 1⟩ := by decide +kernel
  have hb : s.views.get? "b" = some v := by decide +kernel
  have hone : s.memory.holders v = 1 := by decide +kernel
  have hshared : s.memory.holders ⟨some 1, 0, 1, 1⟩ ≠ 1 := by decide +kernel
  have hok : ((run (· < 100) lonelyOps).apply (.reserve "b" 2)).2 = .nothing := rfl
  have hok' : ((run (· < 100) lonelyOps).apply (.reserve "a" 1)).2 = .nothing := rfl
  obtain ⟨hmoves, -, halike⟩ := moving_and_cloning_look_alike (· < 100) hfits hb (by decide) hok
  obtain ⟨hclones, hcloned, -⟩ := moving_and_cloning_look_alike (· < 100) hfits ha (by decide) hok'
  obtain ⟨hmoved, -, -, hsummary⟩ := halike hone
  rw [if_pos hone] at hmoves
  rw [if_neg hshared] at hclones
  refine ⟨hfits, hone, hok, ?_, ?_, hok', ?_⟩
  · rw [hmoves]
    exact hmoved
  · rw [hmoves]
    exact hsummary
  · rw [hclones]
    exact hcloned

end Session

end Substrate.View
