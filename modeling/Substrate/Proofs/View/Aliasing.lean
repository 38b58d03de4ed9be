import Substrate.Proofs.View.Runs

/-!
# Shared stores

What a write through one view means for the others.  An operation that has the
room writes one block of values over the slots of the store, given by
`Session.writes`; every other view of the store shows that block wherever it
lies over it, and nothing else changes.  An operation that has to grow first
leaves every other view alone, and from then on neither side sees what the
other writes, as long as neither name is bound to another view.

`Session.Effect` says what one mutating operation does, one case for each of
the two.  `Separate` is what growing establishes and every later operation
keeps.
-/

namespace Substrate.View

variable {α : Type}

/-- The view that a single mutating operation is carried out on. -/
def Op.mutates : Op α → Option String
  | .set name _ _ | .push name _ | .append name _ | .extend name _ | .reserve name _
  | .copyFrom name _ => some name
  | _ => none

/-- The view that an operation writes through, one or more times. -/
def Op.target : Op α → Option String
  | .pushMany name _ => some name
  | op => op.mutates

/-- The name that an operation binds to another view, or to none. -/
def Op.binds : Op α → Option String
  | .empty name | .alloc name _ _ | .ofList name _ | .drop name | .clone name _
  | .slice name _ _ _ => some name
  | _ => none

theorem Op.fits_of_mutates {op : Op α} {name : String} (hop : op.mutates = some name) :
    op.Fits := by
  cases op <;> trivial

namespace Session

open Memory

/-- The views are as they were. -/
theorem get?_same {s : Session α} {name : String} {r : Window} (hr : s.views.get? name = some r)
    (other : String) :
    s.views.get? other = if other = name then some r else s.views.get? other := by
  split
  · rename_i h
    rw [h, hr]
  · rfl

/-! ## What an operation writes in place -/

/-- What the view of a name shows. -/
def shown (s : Session α) (name : String) : List α :=
  ((s.views.get? name).map s.memory.contents).getD []

/-- How many slots an operation needs behind the elements of the view it is carried out on. -/
def asked (s : Session α) (op : Op α) : Nat := ((s.room op).map Prod.snd).getD 0

/-- The view has to grow for an operation. -/
def Crowded (s : Session α) (r : Window) (op : Op α) : Prop :=
  r.capacity < r.length + s.asked op

instance (s : Session α) (r : Window) (op : Op α) : Decidable (s.Crowded r op) :=
  inferInstanceAs (Decidable (_ < _))

/-- The first slot that an operation on view `r` writes if there is room, and the values it
writes from there on. -/
def block (s : Session α) (r : Window) : Op α → Nat × List α
  | .set _ index a =>
    if 0 ≤ index ∧ index < r.length then (r.cursor + index.toNat, [a]) else (r.cursor, [])
  | .copyFrom _ source => (r.cursor, (s.shown source).take r.length)
  | .push _ a => (r.cursor + r.length, [a])
  | .append _ source => (r.cursor + r.length, s.shown source)
  | .extend _ values => (r.cursor + r.length, values)
  | _ => (r.cursor + r.length, [])

/-- The first slot that an operation on view `r` writes in place, and the values it writes
from there on. -/
def writes (s : Session α) (r : Window) (op : Op α) : Nat × List α :=
  if s.Crowded r op then (r.cursor, []) else s.block r op

theorem writes_of_crowded {s : Session α} {r : Window} {op : Op α} (h : s.Crowded r op) :
    s.writes r op = (r.cursor, []) := if_pos h

theorem writes_of_roomy {s : Session α} {r : Window} {op : Op α} (h : ¬ s.Crowded r op) :
    s.writes r op = s.block r op := if_neg h

/-- What a mutating operation on the view `r` of a name does. -/
inductive Effect (s : Session α) (name : String) (r : Window) (op : Op α)
    (out : Session α × Reply α) : Prop
  | inPlace {r' : Window} {pos : Nat} {values : List α}
      (hgrew : ¬ (s.Crowded r op ∧ out.2 = .nothing))
      (hviews : ∀ other, out.1.views.get? other =
        if other = name then some r' else s.views.get? other)
      (hstore : r'.store = r.store) (hwrites : s.writes r op = (r.cursor + pos, values))
      (hfit : pos + values.length ≤ r.capacity)
      (hpayload : ∀ k, out.1.memory.stores.payload k =
        if r.store = some k then overwrite (s.memory.stores.payload k) (r.cursor + pos) values
        else s.memory.stores.payload k) : Effect s name r op out
  | grown {r' : Window} (hgrew : s.Crowded r op ∧ out.2 = .nothing)
      (hviews : ∀ other, out.1.views.get? other =
        if other = name then some r' else s.views.get? other)
      (hstore : r'.store = some s.memory.stores.size)
      (hkept : ∀ w ∈ (s.views.erase name).values,
        out.1.memory.contents w = s.memory.contents w) : Effect s name r op out

section

variable {s : Session α} {name : String} {r : Window} (hr : s.views.get? name = some r)
include hr

/-- Nothing is written. -/
theorem effect_of_same {op : Op α} {out : Session α × Reply α} (pos : Nat)
    (hgrew : ¬ (s.Crowded r op ∧ out.2 = .nothing)) (hviews : out.1.views = s.views)
    (hwrites : s.writes r op = (r.cursor + pos, [])) (hpos : pos ≤ r.capacity)
    (hpayload : ∀ k, out.1.memory.stores.payload k = s.memory.stores.payload k) :
    Effect s name r op out := by
  refine .inPlace hgrew (fun other => ?_) rfl hwrites hpos fun k => ?_
  · rw [hviews]
    exact get?_same hr other
  · rw [hpayload, overwrite, ite_self]

variable [Element α]

/-- An addition behind the view of a name.  Before and after it the memory may differ from
that of the session in what it counts, but not in what the slots hold. -/
theorem effect_of_added {m₀ m' m'' : Memory α} {others : List Window} {room : Nat}
    {values : List α} {result : Except Failure Window} {op : Op α}
    (hadded : Added m₀ others r room values (m', result)) (h₀ : m₀.Sound (r :: others))
    (hroom : values.length ≤ room) (hasked : s.asked op = room)
    (hwrites : ¬ s.Crowded r op → s.writes r op = (r.cursor + r.length, values))
    (hbefore : ∀ k, m₀.stores.payload k = s.memory.stores.payload k)
    (hsize : m₀.stores.size = s.memory.stores.size)
    (hafter : ∀ k, m''.stores.payload k = m'.stores.payload k)
    (hothers : ∀ w ∈ (s.views.erase name).values, w ∈ others) :
    Effect s name r op (s.update name (m'', result)) := by
  have hcrowded : s.Crowded r op ↔ r.capacity < r.length + room := by rw [Crowded, hasked]
  cases hadded with
  | within hfit hwrote =>
    have hnot : ¬ s.Crowded r op := by rw [hcrowded]; omega
    refine .inPlace (fun h => hnot h.1) (fun other => Registers.get?_set _ _ _ _) rfl
      (hwrites hnot) (show r.length + values.length ≤ r.capacity by omega) fun k => ?_
    show m''.stores.payload k = _
    rw [hafter, hwrote.payload_eq, hbefore]
  | grown hfull hgrown hsound hwrote =>
    refine .grown ⟨hcrowded.mpr hfull, rfl⟩ (fun other => Registers.get?_set _ _ _ _)
      (hgrown.store_eq.trans (by rw [hsize])) fun w hw => ?_
    calc m''.contents w
      _ = m'.contents w := contents_congr fun k _ => hafter k
      _ = m₀.contents w := hgrown.contents_of_wrote h₀ hsound hwrote (hothers w hw)
      _ = s.memory.contents w := contents_congr fun k _ => hbefore k
  | failed change hfull hno =>
    have hcrowd : s.Crowded r op := hcrowded.mpr hfull
    exact effect_of_same hr 0 (fun h => nomatch h.2) rfl (writes_of_crowded hcrowd)
      (Nat.zero_le _) fun k => (hafter k).trans (hbefore k)

variable [DecidableEq α] (h : s.Sound)
include h

theorem set_effect (index : Int) (a : α) :
    Effect s name r (.set name index a) (s.apply (.set name index a)) := by
  have hnot : ¬ s.Crowded r (.set name index a) := by
    have := (h.within hr).length_le
    show ¬ r.capacity < r.length + 0
    omega
  have happly : s.apply (.set name index a) =
      (s.make 1).answer (fun _ => 0) (fun _ => .nothing) ((s.make 1).memory.set r index a) := by
    simp only [Session.apply, Session.on, hr]
  rw [happly, Memory.set]
  by_cases hrange : 0 ≤ index ∧ index < r.length
  · have hlength := (h.within hr).length_le
    have hpos : index.toNat < r.capacity := by omega
    obtain ⟨m', hmove, hwrote⟩ := ((h.make 1).within hr).moveTo hpos a
    rw [checkIndex_ok hrange.1 hrange.2]
    dsimp only
    rw [hmove]
    refine .inPlace (fun hgrew => hnot hgrew.1) (get?_same hr) rfl ?_ ?_ hwrote.payload_eq
    · rw [writes_of_roomy hnot]
      exact if_pos hrange
    · exact hpos
  · rw [checkIndex_error (by omega)]
    refine effect_of_same hr 0 (fun hgrew => hnot hgrew.1) rfl ?_ (Nat.zero_le _) fun k => rfl
    rw [writes_of_roomy hnot]
    exact if_neg hrange

theorem copyFrom_effect (source : String) :
    Effect s name r (.copyFrom name source) (s.apply (.copyFrom name source)) := by
  have hnot : ¬ s.Crowded r (.copyFrom name source) := by
    have := (h.within hr).length_le
    show ¬ r.capacity < r.length + 0
    omega
  cases hu : s.views.get? source with
  | none =>
    have happly : s.apply (.copyFrom name source) = (s, .refused) := by
      simp only [Session.apply, Session.onBoth, Session.on, hr, hu]
    rw [happly]
    refine effect_of_same hr 0 (fun hgrew => hnot hgrew.1) rfl ?_ (Nat.zero_le _) fun k => rfl
    rw [writes_of_roomy hnot, block]
    simp [shown, hu]
  | some u =>
    obtain ⟨m', hcopy, hwrote⟩ := (h.within hr).copyFrom (h.within hu)
    have happly : s.apply (.copyFrom name source) =
        s.answer (fun _ => 0) .number (s.memory.copyFrom r u) := by
      simp only [Session.apply, Session.onBoth, Session.on, hr, hu]
    rw [happly, hcopy]
    refine .inPlace (fun hgrew => hnot hgrew.1) (get?_same hr) rfl
      (show s.writes r _ = (r.cursor + 0, (s.memory.contents u).take r.length) from ?_) ?_
      hwrote.payload_eq
    · rw [writes_of_roomy hnot, block]
      simp [shown, hu]
    · have := (h.within hr).length_le
      rw [List.length_take]
      omega

theorem append_effect (source : String) :
    Effect s name r (.append name source) (s.apply (.append name source)) := by
  cases hu : s.views.get? source with
  | none =>
    have hasked : s.asked (.append name source) = 0 := by simp [asked, room, hu]
    have hnot : ¬ s.Crowded r (.append name source) := by
      have := (h.within hr).length_le
      rw [Crowded, hasked]
      omega
    have happly : s.apply (.append name source) = (s, .refused) := by
      simp only [Session.apply, Session.onBoth, Session.on, hr, hu]
    rw [happly]
    refine effect_of_same hr r.length (fun hgrew => hnot hgrew.1) rfl ?_
      (h.within hr).length_le fun k => rfl
    rw [writes_of_roomy hnot, block]
    simp [shown, hu]
  | some u =>
    have hshown : s.shown source = s.memory.contents u := by simp [shown, hu]
    have hasked : s.asked (.append name source) = u.length := by simp [asked, room, hu]
    have hwrites : ¬ s.Crowded r (.append name source) →
        s.writes r (.append name source) = (r.cursor + r.length, s.memory.contents u) := by
      intro hnot
      rw [writes_of_roomy hnot, block, hshown]
    have hlength := Nat.le_of_eq (h.within hu).length_contents
    by_cases hself : name = source
    · subst hself
      cases hr.symm.trans hu
      -- a clone of the view is appended, and let go of afterwards
      have hretained := (h.apart hr).retain List.mem_cons_self rfl rfl (h.within hr)
      have hwithin := hretained.within r List.mem_cons_self
      have hadded := hretained.append hwithin
      have hpayload : ∀ k, (s.memory.retain r).stores.payload k = s.memory.stores.payload k :=
        payload_retain s.memory r
      have hcontents : (s.memory.retain r).contents r = s.memory.contents r :=
        contents_congr fun k _ => hpayload k
      have hsound := (hadded.sound hretained (Nat.le_of_eq hwithin.length_contents)).2
      have hdropped := (hsound.perm (List.Perm.swap _ _ _)).drop.2
      have happly : s.apply (.append name name) =
          s.update name (((s.memory.retain r).append r r).1.drop r,
            ((s.memory.retain r).append r r).2) := by
        simp only [Session.apply, Session.onBoth, Session.on, hr, if_true, Memory.clone]
      rw [happly]
      rw [hcontents] at hadded
      exact effect_of_added hr hadded hretained hlength hasked hwrites hpayload
        (size_retain s.memory r) hdropped.payload_eq fun w hw => List.mem_cons_of_mem _ hw
    · have happly : s.apply (.append name source) = s.update name (s.memory.append r u) := by
        simp only [Session.apply, Session.onBoth, Session.on, hr, hu, if_neg hself]
      rw [happly]
      exact effect_of_added hr ((h.apart hr).append (h.within hu)) (h.apart hr) hlength hasked
        hwrites (fun _ => rfl) rfl (fun _ => rfl) fun w hw => hw

/-- What a mutating operation on the view of a name does. -/
theorem apply_effect {op : Op α} (hop : op.mutates = some name) :
    Effect s name r op (s.apply op) := by
  cases op with
  | set name' index a =>
    cases hop
    exact set_effect hr h index a
  | copyFrom name' source =>
    cases hop
    exact copyFrom_effect hr h source
  | append name' source =>
    cases hop
    exact append_effect hr h source
  | push name' a =>
    cases hop
    have happly : s.apply (.push name a) = s.update name ((s.make 1).memory.push r a) := by
      simp only [Session.apply, Session.on, hr]
      cases (s.make 1).memory.push r a with
      | mk m result => cases result <;> rfl
    rw [happly]
    exact effect_of_added hr (((h.make 1).apart hr).push a) ((h.make 1).apart hr) (Nat.le_refl _)
      rfl writes_of_roomy (fun _ => rfl) rfl (fun _ => rfl) fun w hw => hw
  | extend name' values =>
    cases hop
    have happly : s.apply (.extend name values) =
        s.update name (((s.make values.length).memory.extend r values).1.note
          (·.drop values.length), ((s.make values.length).memory.extend r values).2) := by
      simp only [Session.apply, Session.on, hr]
      cases (s.make values.length).memory.extend r values with
      | mk m result => cases result <;> rfl
    rw [happly]
    exact effect_of_added hr (((h.make _).apart hr).extend values) ((h.make _).apart hr)
      (Nat.le_refl _) rfl writes_of_roomy (fun _ => rfl) rfl (fun _ => rfl) fun w hw => hw
  | reserve name' additional =>
    cases hop
    have happly : s.apply (.reserve name additional) =
        s.update name (s.memory.reserve r additional) := by
      simp only [Session.apply, Session.on, hr]
    rw [happly]
    exact effect_of_added hr ((h.apart hr).reserve additional) (h.apart hr) (Nat.zero_le _) rfl
      writes_of_roomy (fun _ => rfl) rfl (fun _ => rfl) fun w hw => hw
  | _ => cases hop

end

/-! ## Views of different stores -/

section

variable [Element α] {s : Session α} {name : String}

/-- Pushing one at a time: the view ends on its store or on a fresh one, and views of other
stores do not change. -/
theorem pushEach_frame {m : Memory α} {v : Window} {rest : List Window}
    (h : m.Sound (v :: rest)) (values : List α) :
    m.stores.size ≤ (pushEach m v values).1.stores.size ∧
      ((pushEach m v values).2.1.store = v.store ∨
        ∃ k, (pushEach m v values).2.1.store = some k ∧ m.stores.size ≤ k) ∧
      ∀ w ∈ rest, (∀ k, v.store = some k → w.store ≠ some k) →
        (pushEach m v values).1.contents w = m.contents w := by
  induction values generalizing m v with
  | nil => exact ⟨Nat.le_refl _, .inl rfl, fun _ _ _ => rfl⟩
  | cons a values ih =>
    have hnoted := h.of_sameShape (.note m (·.make 1))
    have hadded := hnoted.push a
    have hsound := (hadded.sound hnoted (Nat.le_refl _)).2
    unfold pushEach
    cases hpush : (m.note (·.make 1)).push v a with
    | mk m₁ result =>
      rw [hpush] at hadded hsound
      obtain ⟨hsize, hstore, hcontents⟩ := hadded.frame hnoted
      have hsize : m.stores.size ≤ m₁.stores.size := hsize
      cases result with
      | error e => exact ⟨hsize, .inl rfl, hcontents⟩
      | ok u =>
        have hsound : m₁.Sound (u :: rest) := hsound
        obtain ⟨hsize', hstore', hcontents'⟩ := ih hsound
        refine ⟨Nat.le_trans hsize hsize', ?_, fun w hw hapart => ?_⟩
        · rcases hstore' with hsame | ⟨k, hk, hle⟩
          · rcases hstore u rfl with hu | hu
            · exact .inl (hsame.trans hu)
            · exact .inr ⟨_, hsame.trans hu, Nat.le_refl _⟩
          · exact .inr ⟨k, hk, Nat.le_trans hsize hle⟩
        · refine (hcontents' w hw fun k hk => ?_).trans (hcontents w hw hapart)
          rcases hstore u rfl with hu | hu
          · exact hapart k (hu ▸ hk)
          · -- the view moved to a store that no other view has
            intro hw'
            have hlt := h.lt_size (List.mem_cons_of_mem _ hw) hw'
            have : some k = some m.stores.size := hk.symm.trans hu
            cases this
            omega

variable [DecidableEq α]

theorem apply_pushMany {r : Window} (hr : s.views.get? name = some r) (values : List α) :
    (s.apply (.pushMany name values)).1 =
      ⟨(pushEach s.memory r values).1, s.views.set name (pushEach s.memory r values).2.1⟩ := by
  simp only [Session.apply, Session.on, hr]
  cases (pushEach s.memory r values).2.2 <;> rfl

/-- The view that an operation writes through stays on its store or moves to a fresh one,
and views of other stores do not change. -/
theorem apply_frame (h : s.Sound) {r : Window} (hr : s.views.get? name = some r) {op : Op α}
    (hop : op.target = some name) :
    (∃ r', (s.apply op).1.views.get? name = some r' ∧
      (r'.store = r.store ∨ ∃ k, r'.store = some k ∧ s.memory.stores.size ≤ k)) ∧
    ∀ w ∈ (s.views.erase name).values, (∀ k, r.store = some k → w.store ≠ some k) →
      (s.apply op).1.memory.contents w = s.memory.contents w := by
  by_cases hmany : ∃ values, op = .pushMany name values
  · obtain ⟨values, rfl⟩ := hmany
    obtain ⟨-, hstore, hcontents⟩ := pushEach_frame (h.apart hr) values
    rw [apply_pushMany hr]
    exact ⟨⟨_, (Registers.get?_set _ _ _ _).trans (if_pos rfl), hstore⟩, hcontents⟩
  · have hmutates : op.mutates = some name := by
      cases op with
      | pushMany name' values =>
        cases hop
        exact (hmany ⟨values, rfl⟩).elim
      | _ => exact hop
    cases apply_effect hr h hmutates with
    | inPlace hgrew hviews hstore hwrites hfit hpayload =>
      refine ⟨⟨_, (hviews name).trans (if_pos rfl), .inl hstore⟩, fun w _ hapart => ?_⟩
      exact contents_congr fun k hk =>
        (hpayload k).trans (if_neg fun hrk => hapart k hrk hk)
    | grown hgrew hviews hstore hkept =>
      exact ⟨⟨_, (hviews name).trans (if_pos rfl), .inr ⟨_, hstore, Nat.le_refl _⟩⟩,
        fun w hw _ => hkept w hw⟩

end

/-! ## Names that an operation leaves alone -/

section

variable {s : Session α} {name : String}

theorem get?_storeResult {other : String} (hne : name ≠ other)
    (result : Memory α × Except Failure Window) :
    (s.storeResult other result).1.views.get? name = s.views.get? name := by
  obtain ⟨m, result⟩ := result
  cases result with
  | ok v => exact (Registers.get?_set _ _ _ _).trans (if_neg hne)
  | error e => rfl

theorem get?_update {other : String} (hne : name ≠ other)
    (result : Memory α × Except Failure Window) :
    (s.update other result).1.views.get? name = s.views.get? name := by
  obtain ⟨m, result⟩ := result
  cases result with
  | ok v => exact (Registers.get?_set _ _ _ _).trans (if_neg hne)
  | error e => rfl

theorem views_answer {β : Type} (temporaries : β → Nat) (reply : β → Reply α)
    (result : Memory α × Except Failure β) :
    (s.answer temporaries reply result).1.views = s.views := by
  obtain ⟨m, result⟩ := result
  cases result <;> rfl

theorem get?_on {other : String} {act : Window → Session α × Reply α}
    (hact : ∀ v, (act v).1.views.get? name = s.views.get? name) :
    (s.on other act).1.views.get? name = s.views.get? name := by
  unfold Session.on
  split
  · exact hact _
  · rfl

theorem get?_onBoth {a b : String} {act : Window → Window → Session α × Reply α}
    (hact : ∀ v u, (act v u).1.views.get? name = s.views.get? name) :
    (s.onBoth a b act).1.views.get? name = s.views.get? name :=
  get?_on fun v => get?_on fun u => hact v u

variable [Element α] [DecidableEq α]

/-- A name that an operation neither binds nor writes through keeps its view. -/
theorem get?_apply {op : Op α} (hbinds : op.binds ≠ some name) (htarget : op.target ≠ some name) :
    (s.apply op).1.views.get? name = s.views.get? name := by
  have hne {other : String} (h : some other ≠ some name) : name ≠ other := fun e => h (by rw [e])
  cases op with
  | empty other => exact (Registers.get?_set _ _ _ _).trans (if_neg (hne hbinds))
  | alloc other length capacity => exact get?_storeResult (hne hbinds) _
  | ofList other values => exact get?_storeResult (hne hbinds) _
  | drop other =>
    rw [Session.apply]
    split
    · rfl
    · exact (Registers.get?_erase _ _ _).trans (if_neg (hne hbinds))
  | clone other source =>
    exact get?_on fun v => (Registers.get?_set _ _ _ _).trans (if_neg (hne hbinds))
  | slice other source start stop => exact get?_on fun v => get?_storeResult (hne hbinds) _
  | get other index => exact get?_on fun v => by rw [views_answer]
  | set other index a => exact get?_on fun v => by rw [views_answer]; rfl
  | push other a => exact get?_on fun v => get?_update (hne htarget) _
  | pushMany other values =>
    refine get?_on fun v => ?_
    dsimp only
    split <;> exact (Registers.get?_set _ _ _ _).trans (if_neg (hne htarget))
  | append other source =>
    refine get?_onBoth fun v u => ?_
    split <;> exact get?_update (hne htarget) _
  | extend other values => exact get?_on fun v => get?_update (hne htarget) _
  | reserve other additional => exact get?_on fun v => get?_update (hne htarget) _
  | copyFrom other source => exact get?_onBoth fun v u => by rw [views_answer]
  | toList other => exact get?_on fun v => by rw [views_answer]
  | iterate other count => exact get?_on fun v => by rw [views_answer]
  | equal a b => exact get?_onBoth fun v u => by rw [views_answer]
  | sharesStore a b => exact get?_onBoth fun v u => rfl
  | debug other => exact get?_on fun v => by rw [views_answer]
  | info other => exact get?_on fun v => rfl

end

/-! ## Views that grew apart -/

/-- Two names stand for views that have no store in common. -/
def Separate (s : Session α) (a b : String) : Prop :=
  ∃ v u, s.views.get? a = some v ∧ s.views.get? b = some u ∧
    ∀ k, v.store = some k → u.store ≠ some k

section

variable {s : Session α} {a b : String}

theorem Separate.symm (h : s.Separate a b) : s.Separate b a := by
  obtain ⟨v, u, hv, hu, hapart⟩ := h
  exact ⟨u, v, hu, hv, fun k hk hk' => hapart k hk' hk⟩

theorem mem_erase {name other : String} {w : Window} (hw : s.views.get? other = some w)
    (hne : other ≠ name) : w ∈ (s.views.erase name).values :=
  Registers.mem_values_of_get? ((Registers.get?_erase _ _ _).trans ((if_neg hne).trans hw))

variable [Element α] [DecidableEq α]

/-- A write through one of two separate views leaves them separate. -/
theorem Separate.of_target (h : s.Sound) (hs : s.Separate a b) (hab : a ≠ b) {op : Op α}
    (hop : op.target = some a) (hbinds : op.binds ≠ some b) : (s.apply op).1.Separate a b := by
  obtain ⟨v, u, hv, hu, hapart⟩ := hs
  obtain ⟨⟨v', hv', hstore⟩, -⟩ := apply_frame h hv hop
  have htarget : op.target ≠ some b := fun e => hab (Option.some.inj (hop.symm.trans e))
  refine ⟨v', u, hv', (get?_apply hbinds htarget).trans hu, fun k hk => ?_⟩
  rcases hstore with hsame | ⟨j, hj, hfresh⟩
  · exact hapart k (hsame ▸ hk)
  · intro huk
    have := h.memory.lt_size (Registers.mem_values_of_get? hu) huk
    have : some k = some j := hk.symm.trans hj
    cases this
    omega

/-- Views that have no store in common never come to share one, unless one of the two
names is bound to another view. -/
theorem Separate.apply (h : s.Sound) (hs : s.Separate a b) (hab : a ≠ b) {op : Op α}
    (ha : op.binds ≠ some a) (hb : op.binds ≠ some b) : (s.apply op).1.Separate a b := by
  by_cases hta : op.target = some a
  · exact hs.of_target h hab hta hb
  · by_cases htb : op.target = some b
    · exact (hs.symm.of_target h hab.symm htb ha).symm
    · obtain ⟨v, u, hv, hu, hapart⟩ := hs
      exact ⟨v, u, (get?_apply ha hta).trans hv, (get?_apply hb htb).trans hu, hapart⟩

/-- A run of operations after which two names still stand for views that have no store in
common. -/
theorem Separate.run (h : s.Sound) (hs : s.Separate a b) (hab : a ≠ b) {ops : List (Op α)}
    (hops : ∀ op ∈ ops, op.Fits ∧ op.binds ≠ some a ∧ op.binds ≠ some b) :
    (ops.foldl (fun s op => (s.apply op).1) s).Sound ∧
      (ops.foldl (fun s op => (s.apply op).1) s).Separate a b := by
  induction ops generalizing s with
  | nil => exact ⟨h, hs⟩
  | cons op rest ih =>
    obtain ⟨hfits, ha, hb⟩ := hops op List.mem_cons_self
    exact ih (apply_advances h hfits).sound (hs.apply h hab ha hb) fun op hop =>
      hops op (List.mem_cons_of_mem _ hop)

/-- A write through one of two views that have no store in common is not seen by the
other. -/
theorem Separate.unseen (h : s.Sound) (hs : s.Separate a b) (hab : a ≠ b) {w : Window}
    (hw : s.views.get? b = some w) {op : Op α} (hop : op.target = some a) :
    (s.apply op).1.memory.contents w = s.memory.contents w := by
  obtain ⟨v, u, hv, hu, hapart⟩ := hs
  obtain rfl : u = w := Option.some.inj (hu.symm.trans hw)
  exact (apply_frame h hv hop).2 u (mem_erase hu hab.symm) hapart

end

/-- In any state that a run reaches, take a mutating operation on a view `r` and any other
view `w`.  If `r` does not grow, `w` shows the block of values that the operation wrote
wherever it lies over it, and what it showed before everywhere else.  If `r` grows, `w`
does not change at all, the two have no store in common, and from then on neither shows
what is written through the other, as long as neither name is bound to another view. -/
theorem writes_seen_where_views_overlap [Element α] [DecidableEq α] (grants : Nat → Bool)
    {ops : List (Op α)} (hfits : ∀ o ∈ ops, o.Fits) {op : Op α} {name other : String}
    {r w : Window} (hop : op.mutates = some name)
    (hr : (run grants ops).views.get? name = some r)
    (hw : (run grants ops).views.get? other = some w) (hne : other ≠ name) :
    let s := run grants ops
    let s' := (s.apply op).1
    let grew := s.Crowded r op ∧ (s.apply op).2 = .nothing
    let start := (s.writes r op).1
    let values := (s.writes r op).2
    s'.views.get? other = some w ∧
    (¬ grew →
      (w.store = r.store → ∀ i < w.length, (s'.memory.contents w)[i]? =
        if start ≤ w.cursor + i ∧ w.cursor + i < start + values.length then
          values[w.cursor + i - start]?
        else (s.memory.contents w)[i]?) ∧
      (w.store ≠ r.store → s'.memory.contents w = s.memory.contents w)) ∧
    (grew → s'.memory.contents w = s.memory.contents w ∧
      ∀ more : List (Op α),
        (∀ o ∈ more, o.Fits ∧ o.binds ≠ some name ∧ o.binds ≠ some other) →
        let t := more.foldl (fun s o => (s.apply o).1) s'
        ∃ r' w', t.views.get? name = some r' ∧ t.views.get? other = some w' ∧
          r'.sharesStore w' = false ∧
          (∀ o : Op α, o.target = some name →
            (t.apply o).1.memory.contents w' = t.memory.contents w') ∧
          ∀ o : Op α, o.target = some other →
            (t.apply o).1.memory.contents r' = t.memory.contents r') := by
  intro s s' grew start values
  have h : s.Sound := run_sound grants hfits
  have h' : s'.Sound := (apply_advances h (Op.fits_of_mutates hop)).sound
  cases apply_effect hr h hop with
  | inPlace hgrew hviews hstore hwrites hfit hpayload =>
    rename_i r' pos written
    have hstart : start = r.cursor + pos := congrArg Prod.fst hwrites
    have hvalues : values = written := congrArg Prod.snd hwrites
    refine ⟨(hviews other).trans ((if_neg hne).trans hw),
      fun _ => ⟨fun hsame i hi => ?_, fun hdiff => ?_⟩,
      fun hgrew' => (hgrew hgrew').elim⟩
    · rw [hstart, hvalues]
      exact getElem?_contents_overwritten (fun k hk => (hpayload k).trans (if_pos hk))
        (h.within hr) hfit (h.within hw) hsame hi
    · exact contents_congr fun k hk =>
        (hpayload k).trans (if_neg fun hrk => hdiff (hk.trans hrk.symm))
  | grown hgrew hviews hstore hkept =>
    rename_i r'
    have hmem := mem_erase hw hne
    have hw' : s'.views.get? other = some w := (hviews other).trans ((if_neg hne).trans hw)
    refine ⟨hw', fun hnot => (hnot hgrew).elim, fun _ => ⟨hkept w hmem, fun more hmore => ?_⟩⟩
    have hseparate : s'.Separate name other := by
      refine ⟨r', w, (hviews name).trans (if_pos rfl), hw', fun k hk hwk => ?_⟩
      have := h.memory.lt_size (Registers.mem_values_of_get? hw) hwk
      have : some k = some s.memory.stores.size := hk.symm.trans hstore
      cases this
      omega
    obtain ⟨ht, hlater⟩ := hseparate.run h' hne.symm hmore
    obtain ⟨v, u, hv, hu, hapart⟩ := hlater
    refine ⟨v, u, hv, hu, ?_, fun o ho => ?_, fun o ho => ?_⟩
    · unfold Window.sharesStore
      cases hs : v.store with
      | none => rfl
      | some k => simpa using fun e => hapart k hs e.symm
    · exact Separate.unseen ht ⟨v, u, hv, hu, hapart⟩ hne.symm hu ho
    · exact Separate.unseen ht (Separate.symm ⟨v, u, hv, hu, hapart⟩) hne hv ho

/-- A view of four elements and one of the first two of them. -/
def overlapOps : List (Op Int) := [.ofList "a" [1, 2, 3, 4], .slice "b" "a" 0 2]

/-- A push through the shorter view overwrites an element of the longer one; a push through
the longer view makes it grow, and a later write through the shorter one is not seen. -/
theorem writes_seen_where_views_overlap_pushed :
    (∀ o ∈ overlapOps, o.Fits) ∧
      (((run (· < 100) overlapOps).apply (.push "b" 9)).1.memory.contents ⟨some 0, 0, 4, 4⟩)[2]? =
        some 9 ∧
      ((run (· < 100) overlapOps).apply (.push "a" 5)).1.memory.contents ⟨some 0, 0, 2, 4⟩ =
        [1, 2] ∧
      ∃ r' : Window, ((((run (· < 100) overlapOps).apply (.push "a" 5)).1.apply
          (.set "b" 0 7)).1.views.get? "a" = some r') ∧
          r'.sharesStore ⟨some 0, 0, 2, 4⟩ = false := by
  have hfits : ∀ o ∈ overlapOps, o.Fits := by simp [overlapOps, Op.Fits, sizeLimit]
  have ha : (run (· < 100) overlapOps).views.get? "a" = some ⟨some 0, 0, 4, 4⟩ := by decide +kernel
  have hb : (run (· < 100) overlapOps).views.get? "b" = some ⟨some 0, 0, 2, 4⟩ := by decide +kernel
  obtain ⟨-, hplace, -⟩ := writes_seen_where_views_overlap (· < 100) hfits
    (show (Op.push "b" (9 : Int)).mutates = some "b" from rfl) hb ha (by decide)
  obtain ⟨-, -, hgrow⟩ := writes_seen_where_views_overlap (· < 100) hfits
    (show (Op.push "a" (5 : Int)).mutates = some "a" from rfl) ha hb (by decide)
  have hnine := (hplace (fun h => absurd h.1 (by decide +kernel))).1 rfl 2 (by decide)
  obtain ⟨hsame, hlater⟩ := hgrow ⟨by decide +kernel, rfl⟩
  obtain ⟨r', w', hr', hw', hshares, -⟩ := hlater [.set "b" 0 7] (by simp [Op.Fits, Op.binds])
  have hlast : (((run (· < 100) overlapOps).apply (.push "a" 5)).1.apply
      (.set "b" 0 7)).1.views.get? "b" = some ⟨some 0, 0, 2, 4⟩ := by decide +kernel
  obtain rfl : w' = ⟨some 0, 0, 2, 4⟩ := Option.some.inj (hw'.symm.trans hlast)
  refine ⟨hfits, hnine.trans (by decide +kernel), hsame.trans (by decide +kernel), r', hr', hshares⟩

end Session

end Substrate.View
