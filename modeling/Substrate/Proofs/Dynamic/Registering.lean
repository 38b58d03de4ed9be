import Substrate.Dynamic.Registry

/-!
# Registrations at the same time

Any number of registrations run over one registry, a step at a time and in any
order.  A registration that looked and found nothing may be overtaken before it
goes on, so several may reach the second step for one type.

The invariant is `Sound`: no type is in the registry twice, and the descriptor
of a registration that is done is the place of its type.  A step only ever adds
a type behind the others (`advance_types`), so a place once given stays.
-/

namespace Substrate.Dynamic

/-- The type a registration is for. -/
def Registration.type {τ : Type} : Registration τ → τ
  | .begun t => t
  | .missed t => t
  | .done t _ => t

/-- How many steps a registration has behind it, at least. -/
def Registration.stage {τ : Type} : Registration τ → Nat
  | .begun _ => 0
  | .missed _ => 1
  | .done _ _ => 2

/-- Registrations under way over one registry. -/
structure Registering (ι τ : Type) where
  /-- The registry they share. -/
  registry : Registry τ
  /-- How far each of them is. -/
  calls : ι → Registration τ

namespace Registry

variable {τ : Type} [DecidableEq τ] {r : Registry τ} {t : τ} {d : Nat}

theorem lookup_eq_none_iff : r.lookup t = none ↔ t ∉ r.types := by
  rw [lookup, List.findIdx?_eq_none_iff]
  refine ⟨fun h hmem => by simpa using h t hmem, fun h u hu => ?_⟩
  exact decide_eq_false fun heq => h (heq ▸ hu)

theorem getElem?_of_lookup (h : r.lookup t = some d) : r.types[d]? = some t := by
  obtain ⟨hd, heq, -⟩ := List.findIdx?_eq_some_iff_getElem.mp h
  rw [List.getElem?_eq_getElem hd, of_decide_eq_true heq]

/-- In a registry without repetition a type is found wherever it stands. -/
theorem lookup_of_getElem? (hnodup : r.types.Nodup) (h : r.types[d]? = some t) :
    r.lookup t = some d := by
  cases hfound : r.lookup t with
  | none => exact absurd (List.mem_of_getElem? h) (lookup_eq_none_iff.mp hfound)
  | some e =>
    have he := getElem?_of_lookup hfound
    obtain ⟨hlt, -⟩ := List.getElem?_eq_some_iff.mp he
    rw [(List.getElem?_inj hlt hnodup).mp (he.trans h.symm)]

/-- What a step of a registration does: it is done with a place of its type in the registry
as it is, it has missed, or it is done with the new last place. -/
theorem step_cases (r : Registry τ) (call : Registration τ) :
    (∃ d, r.step call = (r, .done call.type d) ∧
      (call = .done call.type d ∨ r.types[d]? = some call.type)) ∨
    (call = .begun call.type ∧ r.step call = (r, .missed call.type)) ∨
    (call = .missed call.type ∧ call.type ∉ r.types ∧
      r.step call = (⟨r.types ++ [call.type]⟩, .done call.type r.types.length)) := by
  cases call with
  | begun t =>
    cases hfound : r.lookup t with
    | some d =>
      exact .inl ⟨d, by simp [step, hfound, Registration.type], .inr (getElem?_of_lookup hfound)⟩
    | none => exact .inr (.inl ⟨rfl, by simp [step, hfound, Registration.type]⟩)
  | missed t =>
    cases hfound : r.lookup t with
    | some d =>
      exact .inl ⟨d, by simp [step, findOrInsert, hfound, Registration.type],
        .inr (getElem?_of_lookup hfound)⟩
    | none =>
      exact .inr (.inr ⟨rfl, lookup_eq_none_iff.mp hfound,
        by simp [step, findOrInsert, hfound, Registration.type]⟩)
  | done t d => exact .inl ⟨d, rfl, .inl rfl⟩

end Registry

namespace Registering

variable {ι τ : Type} [DecidableEq ι] [DecidableEq τ]

/-- Nothing is registered and nobody has looked; registration `i` is for type `wanted i`. -/
def begun (wanted : ι → τ) : Registering ι τ := ⟨{}, fun i => .begun (wanted i)⟩

/-- Registration `i` takes its next step. -/
def advance (s : Registering ι τ) (i : ι) : Registering ι τ where
  registry := (s.registry.step (s.calls i)).1
  calls j := if j = i then (s.registry.step (s.calls i)).2 else s.calls j

/-- The registrations take steps in the order given. -/
def run (s : Registering ι τ) (order : List ι) : Registering ι τ := order.foldl advance s

/-- The descriptor that registration `i` has returned. -/
def returned (s : Registering ι τ) (i : ι) : Option Nat := (s.calls i).descriptor?

omit [DecidableEq ι] [DecidableEq τ] in
theorem returned_eq_some_iff {s : Registering ι τ} {i : ι} {d : Nat} :
    s.returned i = some d ↔ s.calls i = .done (s.calls i).type d := by
  rw [returned]
  cases s.calls i <;> simp [Registration.descriptor?, Registration.type]

/-- No type is there twice, and a registration that is done has the place of its type. -/
structure Sound (wanted : ι → τ) (s : Registering ι τ) : Prop where
  /-- Each type has one descriptor at most. -/
  nodup : s.registry.types.Nodup
  /-- A registration stays with its type. -/
  type_eq : ∀ i, (s.calls i).type = wanted i
  /-- A descriptor that was returned is the place of the type. -/
  place : ∀ i d, s.returned i = some d → s.registry.types[d]? = some (wanted i)

/-! ## One step -/

/-- A step adds nothing or, behind all others, a type that was not there. -/
theorem advance_types (s : Registering ι τ) (i : ι) :
    (s.advance i).registry.types = s.registry.types ∨
    (s.calls i).type ∉ s.registry.types ∧
      (s.advance i).registry.types = s.registry.types ++ [(s.calls i).type] := by
  rcases s.registry.step_cases (s.calls i) with ⟨d, hstep, -⟩ | ⟨-, hstep⟩ | ⟨-, hnew, hstep⟩
  · exact .inl (by rw [advance, hstep])
  · exact .inl (by rw [advance, hstep])
  · exact .inr ⟨hnew, by rw [advance, hstep]⟩

theorem types_le_advance (s : Registering ι τ) (i : ι) :
    s.registry.types <+: (s.advance i).registry.types := by
  rcases s.advance_types i with h | ⟨-, h⟩
  · exact h ▸ List.prefix_refl _
  · exact h ▸ List.prefix_append _ _

omit [DecidableEq ι] in
theorem step_type (s : Registering ι τ) (i : ι) :
    (s.registry.step (s.calls i)).2.type = (s.calls i).type := by
  rcases s.registry.step_cases (s.calls i) with ⟨d, hstep, -⟩ | ⟨-, hstep⟩ | ⟨-, -, hstep⟩ <;>
    rw [hstep] <;> rfl

/-- A registration that has returned takes no notice of further steps. -/
theorem returned_advance {s : Registering ι τ} {i : ι} {d : Nat} (h : s.returned i = some d)
    (j : ι) : (s.advance j).returned i = some d := by
  rw [returned, advance]
  dsimp only
  split
  · rename_i heq
    subst heq
    rw [returned_eq_some_iff.mp h]
    rfl
  · exact h

theorem Sound.advance {wanted : ι → τ} {s : Registering ι τ} (h : s.Sound wanted) (i : ι) :
    (s.advance i).Sound wanted := by
  have hle := s.types_le_advance i
  refine ⟨?_, ?_, ?_⟩
  · rcases s.advance_types i with heq | ⟨hnew, heq⟩
    · rw [heq]
      exact h.nodup
    · rw [heq, List.nodup_append]
      refine ⟨h.nodup, by simp, ?_⟩
      intro t ht u hu heq'
      rw [List.mem_singleton.mp hu] at heq'
      exact hnew (heq' ▸ ht)
  · intro j
    rw [Registering.advance]
    dsimp only
    split
    · rename_i hj
      rw [step_type, hj, h.type_eq]
    · exact h.type_eq j
  · intro j d hd
    by_cases hj : j = i
    · subst hj
      rw [← h.type_eq j]
      have hd' : (s.registry.step (s.calls j)).2.descriptor? = some d := by
        simpa [returned, Registering.advance] using hd
      rcases s.registry.step_cases (s.calls j) with
        ⟨e, hstep, hplace⟩ | ⟨-, hstep⟩ | ⟨-, -, hstep⟩ <;> rw [hstep] at hd'
      · cases hd'
        rw [Registering.advance, hstep]
        rcases hplace with hdone | hplace
        · rw [h.type_eq]
          exact h.place j d (returned_eq_some_iff.mpr hdone)
        · exact hplace
      · cases hd'
      · cases hd'
        rw [Registering.advance, hstep]
        simp
    · have hbefore : s.returned j = some d := by
        simpa [returned, Registering.advance, hj] using hd
      obtain ⟨hlt, hget⟩ := List.getElem?_eq_some_iff.mp (h.place j d hbefore)
      obtain ⟨more, hmore⟩ := hle
      rw [← hmore, List.getElem?_append_left hlt]
      exact h.place j d hbefore

/-- A registration gets further with each step of its own. -/
theorem stage_advance (s : Registering ι τ) (i j : ι) :
    min 2 ((s.calls j).stage + if j = i then 1 else 0) ≤ ((s.advance i).calls j).stage := by
  rw [advance]
  dsimp only
  split
  · rename_i hj
    subst hj
    rcases s.registry.step_cases (s.calls j) with
      ⟨d, hstep, -⟩ | ⟨hcall, hstep⟩ | ⟨-, -, hstep⟩ <;> rw [hstep]
    · exact Nat.min_le_left _ _
    · rw [hcall]
      exact Nat.min_le_right _ _
    · exact Nat.min_le_left _ _
  · exact Nat.min_le_right _ _

/-! ## A run -/

omit [DecidableEq ι] [DecidableEq τ] in
theorem sound_begun (wanted : ι → τ) : (begun wanted).Sound wanted :=
  ⟨List.nodup_nil, fun _ => rfl, fun _ _ h => by cases h⟩

theorem Sound.run {wanted : ι → τ} (order : List ι) :
    ∀ {s : Registering ι τ}, s.Sound wanted → (s.run order).Sound wanted := by
  induction order with
  | nil => exact fun h => h
  | cons i order ih => exact fun h => ih (h.advance i)

theorem types_le_run (order : List ι) :
    ∀ s : Registering ι τ, s.registry.types <+: (s.run order).registry.types := by
  induction order with
  | nil => exact fun s => List.prefix_refl _
  | cons i order ih => exact fun s => (s.types_le_advance i).trans (ih (s.advance i))

theorem returned_run {i : ι} {d : Nat} (order : List ι) :
    ∀ {s : Registering ι τ}, s.returned i = some d → (s.run order).returned i = some d := by
  induction order with
  | nil => exact fun h => h
  | cons j order ih => exact fun h => ih (returned_advance h j)

theorem stage_run (i : ι) (order : List ι) :
    ∀ s : Registering ι τ, min 2 ((s.calls i).stage + order.count i) ≤
    ((s.run order).calls i).stage := by
  induction order with
  | nil => exact fun s => Nat.min_le_right _ _
  | cons j order ih =>
    intro s
    have hone := s.stage_advance j i
    have hrest := ih (s.advance j)
    rw [List.count_cons]
    show _ ≤ (((s.advance j).run order).calls i).stage
    by_cases hij : i = j
    · simp only [hij, if_true, beq_self_eq_true] at *
      omega
    · have hji : (j == i) = false := beq_false_of_ne (Ne.symm hij)
      simp only [hij, hji, if_false, Bool.false_eq_true] at *
      omega

omit [DecidableEq ι] [DecidableEq τ] in
theorem returned_of_stage {s : Registering ι τ} {i : ι} (h : 2 ≤ (s.calls i).stage) :
    ∃ d, s.returned i = some d := by
  rw [returned]
  cases hcall : s.calls i with
  | done t d => exact ⟨d, rfl⟩
  | begun t => simp [hcall, Registration.stage] at h
  | missed t => simp [hcall, Registration.stage] at h

/-- Registrations that run at the same time, in any order of their steps: each returns after
two steps of its own at the latest, two return the same descriptor exactly when they are for
the same type, what one returned is what looking its type up gives ever after, and a type
gets one descriptor at most, which is never taken back. -/
theorem registrations_share_descriptors (wanted : ι → τ) (before later : List ι) :
    (∀ i, 2 ≤ before.count i → ∃ d, ((begun wanted).run before).returned i = some d) ∧
    (∀ i j d e, ((begun wanted).run before).returned i = some d →
      ((begun wanted).run (before ++ later)).returned j = some e →
      (d = e ↔ wanted i = wanted j)) ∧
    (∀ i d, ((begun wanted).run before).returned i = some d →
      ((begun wanted).run (before ++ later)).returned i = some d ∧
      ((begun wanted).run (before ++ later)).registry.lookup (wanted i) = some d) ∧
    ((begun wanted).run before).registry.types <+:
      ((begun wanted).run (before ++ later)).registry.types ∧
    ∀ t, ((begun wanted).run (before ++ later)).registry.types.count t ≤ 1 := by
  have hsplit : (begun wanted).run (before ++ later) = ((begun wanted).run before).run later :=
    List.foldl_append
  have hsound := (sound_begun wanted).run (before ++ later)
  have hstays : ∀ i d, ((begun wanted).run before).returned i = some d →
      ((begun wanted).run (before ++ later)).returned i = some d := by
    intro i d hd
    rw [hsplit]
    exact returned_run later hd
  refine ⟨?_, ?_, ?_, ?_, ?_⟩
  · intro i htwo
    have hstage := stage_run i before (begun wanted)
    exact returned_of_stage (by omega)
  · intro i j d e hd he
    have hplace := hsound.place i d (hstays i d hd)
    have hplace' := hsound.place j e he
    constructor
    · rintro rfl
      exact Option.some.inj (hplace.symm.trans hplace')
    · intro hsame
      obtain ⟨hlt, -⟩ := List.getElem?_eq_some_iff.mp hplace
      exact (List.getElem?_inj hlt hsound.nodup).mp (hplace.trans (hsame ▸ hplace'.symm))
  · intro i d hd
    exact ⟨hstays i d hd,
      Registry.lookup_of_getElem? hsound.nodup (hsound.place i d (hstays i d hd))⟩
  · rw [hsplit]
    exact types_le_run later _
  · exact fun t => List.nodup_iff_count.mp hsound.nodup t

/-- Registrations 0 and 1 are for one type and both miss before either goes on; 2 is for
another type and comes in between. -/
theorem registrations_share_descriptors_overtaken :
    ∃ d, ((begun fun i : Nat => i / 2).run [0, 1, 2, 1, 2, 0]).returned 0 = some d ∧
      ((begun fun i : Nat => i / 2).run [0, 1, 2, 1, 2, 0]).registry.lookup 0 = some d := by
  have h := registrations_share_descriptors (fun i : Nat => i / 2) [0, 1, 2, 1, 2, 0] []
  obtain ⟨d, hd⟩ := h.1 0 (by decide)
  exact ⟨d, hd, (h.2.2.1 0 d hd).2⟩

end Registering

end Substrate.Dynamic
