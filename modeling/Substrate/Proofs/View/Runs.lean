import Substrate.Proofs.Registers
import Substrate.Proofs.View.Growing
import Substrate.View.Session

/-!
# Runs of view operations

What holds in every state that a sequence of operations on named views can
reach, also when some of them fail.  `Session.Sound` is the invariant,
`apply_advances` its step lemma and `run_sound` the run lemma.

`Session.Refusal` lists the failures an operation can end in, each with the
condition on its arguments.  None of them is a read of an empty pointer, a slot
outside a store, or an overflow other than that of the sizes a view asks for.
-/

namespace Substrate.View

/-- The sizes that an operation asks for outright are sizes. -/
def Op.Fits {α : Type} : Op α → Prop
  | .alloc _ _ capacity => capacity ≤ sizeLimit
  | .ofList _ values => values.length ≤ sizeLimit
  | _ => True

namespace Session

open Memory

variable {α : Type}

/-- The invariant of a session between two operations. -/
structure Sound (s : Session α) : Prop where
  ordered : s.views.Ordered
  memory : s.memory.Sound s.views.values

theorem sound_initial (grants : Nat → Bool) : ({ memory := { grants } } : Session α).Sound :=
  ⟨Registers.ordered_empty, ⟨Ownership.Heap.balanced_empty, fun _ h => (List.not_mem_nil h).elim⟩⟩

section

variable {s : Session α} {name : String} {v u : Window}

/-- The view of a name apart from the others. -/
theorem Sound.apart (h : s.Sound) (hv : s.views.get? name = some v) :
    s.memory.Sound (v :: (s.views.erase name).values) :=
  h.memory.perm (Registers.values_erase_perm h.ordered hv).symm

theorem Sound.within (h : s.Sound) (hv : s.views.get? name = some v) : s.memory.Within v :=
  h.memory.within v (Registers.mem_values_of_get? hv)

theorem Sound.withMemory (h : s.Sound) {m : Memory α} (hs : SameShape s.memory m) :
    Sound { s with memory := m } :=
  ⟨h.ordered, h.memory.of_sameShape hs⟩

theorem Sound.make (h : s.Sound) (n : Nat) : (s.make n).Sound :=
  h.withMemory (.note _ _)

/-- Another view in place of that of a name. -/
theorem Sound.replace (h : s.Sound) {m : Memory α}
    (hm : m.Sound (u :: (s.views.erase name).values)) :
    Sound { memory := m, views := s.views.set name u } :=
  ⟨h.ordered.set name u, hm.perm (Registers.values_set_perm_erase h.ordered name u).symm⟩

/-- Storing a view that is one more than those of the session. -/
theorem Sound.store (h : s.Sound) (name : String) {m : Memory α}
    (hm : m.Sound (u :: s.views.values)) :
    (s.store name m u).Sound ∧ (s.store name m u).memory.grants = m.grants := by
  refine ⟨h.replace ?_, rfl⟩
  cases hv : s.views.get? name with
  | none =>
    rw [Registers.erase_eq_self hv]
    exact hm.empty.drop.1
  | some old =>
    have hperm := ((Registers.values_erase_perm h.ordered hv).symm.cons u).trans
      (List.Perm.swap old u _)
    exact (hm.perm hperm).drop.1

end

/-- An operation went from `s` to `out`: the invariant holds again, the allocator is the
same, and a failure is one of those that `refusal` allows. -/
structure Advances (s : Session α) (refusal : Failure → Prop) (out : Session α × Reply α) :
    Prop where
  sound : out.1.Sound
  grants_eq : out.1.memory.grants = s.memory.grants
  refused : ∀ e, out.2 = .failed e → refusal e

section

variable {s : Session α} {refusal : Failure → Prop} (h : s.Sound)
include h

theorem Sound.keep {r : Reply α} (hr : ∀ e, r ≠ .failed e) : Advances s refusal (s, r) :=
  ⟨h, rfl, fun e he => (hr e he).elim⟩

theorem Sound.on (name : String) {act : Window → Session α × Reply α}
    (hact : ∀ v, s.views.get? name = some v → Advances s refusal (act v)) :
    Advances s refusal (s.on name act) := by
  unfold Session.on
  split
  · rename_i v hv
    exact hact v hv
  · exact h.keep fun e => by simp

theorem Sound.onBoth (a b : String) {act : Window → Window → Session α × Reply α}
    (hact : ∀ v u, s.views.get? a = some v → s.views.get? b = some u →
      Advances s refusal (act v u)) :
    Advances s refusal (s.onBoth a b act) :=
  h.on a fun v hv => h.on b fun u hu => hact v u hv hu

/-- An answer of an operation that leaves all views as they are. -/
theorem Sound.answer {β : Type} {temporaries : β → Nat} {reply : β → Reply α} {m : Memory α}
    (hshape : SameShape s.memory m) (b : β) (hreply : ∀ e, reply b ≠ .failed e) :
    Advances s refusal (s.answer temporaries reply (m, .ok b)) :=
  ⟨h.withMemory ⟨hshape.size_eq, hshape.count_eq, hshape.length_eq, hshape.grants_eq⟩,
    hshape.grants_eq, fun e he => (hreply e he).elim⟩

theorem Sound.answerError {β : Type} {temporaries : β → Nat} {reply : β → Reply α} {m : Memory α}
    (hshape : SameShape s.memory m) {e : Failure} (he : refusal e) :
    Advances s refusal (s.answer temporaries reply (m, .error e)) := by
  refine ⟨h.withMemory hshape, hshape.grants_eq, fun e' he' => ?_⟩
  cases he'
  exact he

/-- A changed view of a name, or the same one after a failure. -/
theorem Sound.update {name : String} {v : Window} (hv : s.views.get? name = some v)
    {m : Memory α} {result : Except Failure Window} (hgrants : m.grants = s.memory.grants)
    (hsound : m.Sound (result.toOption.getD v :: (s.views.erase name).values))
    (hrefused : ∀ e, result = .error e → refusal e) :
    Advances s refusal (s.update name (m, result)) := by
  cases result with
  | ok u => exact ⟨h.replace hsound, hgrants, fun e he => by cases he⟩
  | error e =>
    refine ⟨⟨h.ordered, hsound.perm (Registers.values_erase_perm h.ordered hv)⟩, hgrants,
      fun e' he' => ?_⟩
    cases he'
    exact hrefused e rfl

/-- One more view under a name, or the same views after a failure. -/
theorem Sound.storeResult (name : String) {m : Memory α} {result : Except Failure Window}
    (hgrants : m.grants = s.memory.grants)
    (hok : ∀ u, result = .ok u → m.Sound (u :: s.views.values))
    (herror : ∀ e, result = .error e → m.Sound s.views.values ∧ refusal e) :
    Advances s refusal (s.storeResult name (m, result)) := by
  cases result with
  | ok u =>
    obtain ⟨hsound, hsame⟩ := h.store name (hok u rfl)
    exact ⟨hsound, hsame.trans hgrants, fun e he => by cases he⟩
  | error e =>
    obtain ⟨hsound, hrefused⟩ := herror e rfl
    refine ⟨⟨h.ordered, hsound⟩, hgrants, fun e' he' => ?_⟩
    cases he'
    exact hrefused

end

/-! ## What can fail -/

/-- The room an operation asks for behind a view, and the name of that view. -/
def room (s : Session α) : Op α → Option (String × Nat)
  | .push name _ => some (name, 1)
  | .append name source => (s.views.get? source).map fun u => (name, u.length)
  | .extend name values => some (name, values.length)
  | .reserve name additional => some (name, additional)
  | _ => none

variable [Element α]

/-- The failures that an operation can end in. -/
inductive Refusal (s : Session α) : Op α → Failure → Prop
  | get {name : String} {v : Window} {index : Int} (hv : s.views.get? name = some v)
      (h : index < 0 ∨ (v.length : Int) ≤ index) :
      Refusal s (.get name index) (.fault (.indexOutOfRange index v.length))
  | set {name : String} {v : Window} {index : Int} {a : α} (hv : s.views.get? name = some v)
      (h : index < 0 ∨ (v.length : Int) ≤ index) :
      Refusal s (.set name index a) (.fault (.indexOutOfRange index v.length))
  | slice {name source : String} {v : Window} {start stop : Int}
      (hv : s.views.get? source = some v)
      (h : start < 0 ∨ stop < start ∨ (v.capacity : Int) < stop) :
      Refusal s (.slice name source start stop)
        (.fault (.slicingOutOfRange start stop v.capacity))
  | range {name : String} {length capacity : Int} (h : length < 0 ∨ capacity < length) :
      Refusal s (.alloc name length capacity) (.fault (.allocationRange length capacity))
  | memory {name : String} {length capacity : Int}
      (h : s.memory.grants (bytesFor α capacity.toNat) = false) :
      Refusal s (.alloc name length capacity)
        (.fault (.allocationFailed (bytesFor α capacity.toNat)))
  | ofList {name : String} {values : List α}
      (h : s.memory.grants (bytesFor α values.length) = false) :
      Refusal s (.ofList name values) (.fault (.allocationFailed (bytesFor α values.length)))
  | room {op : Op α} {name : String} {v : Window} {additional : Nat} {e : Failure}
      (hop : s.room op = some (name, additional)) (hv : s.views.get? name = some v)
      (h : NoRoom α s.memory.grants v additional e) : Refusal s op e
  | pushMany {name : String} {v u : Window} {values : List α} {k : Nat} {e : Failure}
      (hv : s.views.get? name = some v) (hk : k < values.length) (hu : u.length = v.length + k)
      (h : NoRoom α s.memory.grants u 1 e) : Refusal s (.pushMany name values) e

section

variable {s : Session α} {refusal : Failure → Prop} (h : s.Sound)
include h

/-- A view that an addition changed. -/
theorem Sound.updateAdded {name : String} {v : Window} (hv : s.views.get? name = some v)
    {room : Nat} {values : List α} {result : Memory α × Except Failure Window}
    (hadded : Added s.memory (s.views.erase name).values v room values result)
    (hroom : values.length ≤ room)
    (hrefused : ∀ e, NoRoom α s.memory.grants v room e → refusal e) :
    Advances s refusal (s.update name result) := by
  obtain ⟨hgrants, hsound⟩ := hadded.sound (h.apart hv) hroom
  obtain ⟨m, result⟩ := result
  refine h.update hv hgrants hsound fun e he => hrefused e ?_
  cases he
  exact hadded.noRoom

end

/-! ## Iterating -/

section

variable {m : Memory α} {v : Window}

/-- Iterating never goes past the end: the position stays within the length. -/
theorem iterate_ok (h : m.Within v) (count : Nat) {pos : Nat} (hpos : pos ≤ v.length) :
    ∃ change turns, iterate m v pos count = (m.note change, .ok turns) := by
  induction count generalizing m pos with
  | zero => exact ⟨id, [], rfl⟩
  | succ count ih =>
    by_cases hend : v.length ≤ pos
    · obtain ⟨change, turns, hrest⟩ := ih h hpos
      refine ⟨change, ⟨v.length - pos, none⟩ :: turns, ?_⟩
      rw [iterate, remaining, if_neg (by omega)]
      simp only [next, if_pos hend, hrest]
      rfl
    · obtain ⟨a, -, hget⟩ := h.get (show pos < v.length by omega)
      obtain ⟨change, turns, hrest⟩ := ih (h.of_sameShape (.note m (·.clone 1)))
        (show pos + 1 ≤ v.length by omega)
      refine ⟨change ∘ (·.clone 1), ⟨v.length - pos, some a⟩ :: turns, ?_⟩
      rw [iterate, remaining, if_neg (by omega)]
      simp only [next, if_neg hend, hget, hrest]
      rfl

/-- Comparing in pairs from a position on to the end. -/
theorem equalFrom_ok [DecidableEq α] {u : Window} (h : m.Within v) (hu : m.Within u) (count : Nat)
    {pos : Nat} (hv : pos + count = v.length) (hlength : v.length = u.length) :
    ∃ change, m.equalFrom v u pos count =
      (m.note change, .ok (decide ((m.contents v).drop pos = (m.contents u).drop pos))) := by
  have hv' := h.length_contents
  have hu' := hu.length_contents
  induction count generalizing m pos with
  | zero =>
    refine ⟨id, ?_⟩
    rw [List.drop_of_length_le (by omega), List.drop_of_length_le (by omega), decide_eq_true rfl]
    rfl
  | succ count ih =>
    obtain ⟨a, hgeta, ha⟩ := h.get (show pos < v.length by omega)
    obtain ⟨b, hgetb, hb⟩ :=
      (hu.of_sameShape (.note m (·.clone 1))).get (show pos < u.length by omega)
    have hgetb : (m.contents u)[pos]? = some b := hgetb
    rw [equalFrom, ha]
    dsimp only
    rw [hb]
    dsimp only
    rw [List.drop_eq_getElem_cons (show pos < (m.contents v).length by omega),
      List.drop_eq_getElem_cons (show pos < (m.contents u).length by omega),
      (List.getElem?_eq_some_iff.mp hgeta).2, (List.getElem?_eq_some_iff.mp hgetb).2]
    let change : Ledger → Ledger := fun l => ((l.clone 1).clone 1).drop 2
    split
    · rename_i hab
      obtain ⟨change', hrest⟩ := ih (h.of_sameShape (.note m change))
        (hu.of_sameShape (.note m change)) (show pos + 1 + count = v.length by omega) hv' hu'
      refine ⟨change' ∘ change, hrest.trans ?_⟩
      simp only [hab, List.cons.injEq, true_and]
      rfl
    · rename_i hab
      refine ⟨change, ?_⟩
      simp only [List.cons.injEq, hab, false_and, decide_false]
      rfl

/-- Two views are equal exactly if they show equal elements. -/
theorem equal_ok [DecidableEq α] {u : Window} (h : m.Within v) (hu : m.Within u) :
    ∃ change, m.equal v u = (m.note change, .ok (decide (m.contents v = m.contents u))) := by
  unfold Memory.equal
  split
  · rename_i hlength
    exact equalFrom_ok h hu v.length (Nat.zero_add _) hlength
  · rename_i hlength
    have hne : m.contents v ≠ m.contents u := fun heq =>
      hlength (h.length_contents.symm.trans ((congrArg List.length heq).trans hu.length_contents))
    exact ⟨id, by rw [decide_eq_false hne]; rfl⟩

/-- Pushing one at a time: the view after the last push that did not fail, and what the
one that failed had no room for. -/
theorem pushEach_sound {rest : List Window} (h : m.Sound (v :: rest)) (values : List α) :
    (pushEach m v values).1.Sound ((pushEach m v values).2.1 :: rest) ∧
      (pushEach m v values).1.grants = m.grants ∧
      ∀ e, (pushEach m v values).2.2 = .error e →
        ∃ u k, k < values.length ∧ u.length = v.length + k ∧ NoRoom α m.grants u 1 e := by
  induction values generalizing m v with
  | nil => exact ⟨h, rfl, fun e he => by cases he⟩
  | cons a values ih =>
    have hnoted := h.of_sameShape (.note m (·.make 1))
    have hadded := hnoted.push a
    obtain ⟨hgrants, hsound⟩ := hadded.sound hnoted (Nat.le_refl _)
    unfold pushEach
    cases hpush : (m.note (·.make 1)).push v a with
    | mk m₁ result =>
      rw [hpush] at hadded hgrants hsound
      cases result with
      | error e =>
        refine ⟨hsound, hgrants, fun e' he' => ?_⟩
        cases he'
        exact ⟨v, 0, by simp, rfl, hadded.noRoom⟩
      | ok u =>
        have hsound : m₁.Sound (u :: rest) := hsound
        obtain ⟨hlast, hsame, hrefused⟩ := ih hsound
        refine ⟨hlast, hsame.trans hgrants, fun e he => ?_⟩
        have hlength : u.length = v.length + 1 := by
          cases hadded with
          | within hfit hwrote => rfl
          | grown hfull hgrown hs hwrote => rw [← hgrown.length_eq]; rfl
        dsimp only at he
        cases hrest : (pushEach m₁ u values).2.2 with
        | ok pairs =>
          rw [hrest] at he
          cases he
        | error e' =>
          rw [hrest] at he
          cases he
          obtain ⟨w, k, hk, hw, hno⟩ := hrefused e hrest
          exact ⟨w, k + 1, by rw [List.length_cons]; omega, by omega, hgrants ▸ hno⟩

end

/-! ## One operation -/

section

variable {s : Session α}

theorem get_advances (h : s.Sound) {name : String} {v : Window} (hv : s.views.get? name = some v)
    (index : Int) :
    Advances s (s.Refusal (.get name index))
      (s.answer (fun _ => 1) .element (s.memory.get v index)) := by
  by_cases hrange : index < 0 ∨ (v.length : Int) ≤ index
  · rw [get_error hrange]
    exact h.answerError (.note _ id) (.get hv hrange)
  · obtain ⟨i, rfl⟩ : ∃ i : Nat, index = i := ⟨index.toNat, by omega⟩
    obtain ⟨a, -, hget⟩ := (h.within hv).get (show i < v.length by omega)
    rw [hget]
    exact h.answer (.note _ _) a fun e => by simp

theorem set_advances (h : s.Sound) {name : String} {v : Window} (hv : s.views.get? name = some v)
    (index : Int) (a : α) :
    Advances s (s.Refusal (.set name index a))
      ((s.make 1).answer (fun _ => 0) (fun _ => .nothing) ((s.make 1).memory.set v index a)) := by
  have hmake := h.make 1
  have hwithin : (s.make 1).memory.Within v := hmake.within hv
  suffices Advances (s.make 1) (s.Refusal (.set name index a))
      ((s.make 1).answer (fun _ => 0) (fun _ => .nothing) ((s.make 1).memory.set v index a)) from
    ⟨this.sound, this.grants_eq, this.refused⟩
  by_cases hrange : index < 0 ∨ (v.length : Int) ≤ index
  · rw [Memory.set, checkIndex_error hrange]
    exact hmake.answerError (.note _ _) (.set hv hrange)
  · have := hwithin.length_le
    obtain ⟨m, hmove, hwrote⟩ := hwithin.moveTo (show index.toNat < v.capacity by omega) a
    rw [Memory.set, checkIndex_ok (by omega) (by omega)]
    dsimp only
    rw [hmove]
    exact hmake.answer hwrote.sameShape () fun e => by simp

theorem append_advances (h : s.Sound) {name source : String} {v u : Window}
    (hv : s.views.get? name = some v) (hu : s.views.get? source = some u) :
    Advances s (s.Refusal (.append name source)) (s.update name (s.memory.append v u)) := by
  have hadded := (h.apart hv).append (h.within hu)
  refine h.updateAdded hv hadded (Nat.le_of_eq (h.within hu).length_contents) fun e hno => ?_
  exact .room (by rw [room, hu]; rfl) hv hno

/-- A view appended to itself: a clone of it holds the store in the meantime. -/
theorem appendSelf_advances (h : s.Sound) {name : String} {v : Window}
    (hv : s.views.get? name = some v) :
    Advances s (s.Refusal (.append name name))
      (s.update name (((s.memory.retain v).append v v).1.drop v,
        ((s.memory.retain v).append v v).2)) := by
  have hapart := h.apart hv
  have hretained := hapart.retain List.mem_cons_self rfl rfl (h.within hv)
  have hwithin := hretained.within v List.mem_cons_self
  have hadded := hretained.append hwithin
  obtain ⟨hgrants, hsound⟩ := hadded.sound hretained (Nat.le_of_eq hwithin.length_contents)
  have hdropped := (hsound.perm (List.Perm.swap _ _ _)).drop
  refine h.update hv (hdropped.2.grants_eq.trans hgrants) hdropped.1 fun e he => ?_
  refine .room (by rw [room, hv]; rfl) hv ?_
  cases hresult : (s.memory.retain v).append v v with
  | mk m result =>
    rw [hresult] at hadded he
    cases he
    exact hadded.noRoom

theorem alloc_advances (h : s.Sound) (name : String) (length capacity : Int)
    (hfits : capacity ≤ sizeLimit) :
    Advances s (s.Refusal (.alloc name length capacity))
      (s.storeResult name (s.memory.alloc length capacity)) := by
  have hallotted := h.memory.alloc length capacity fun _ => hfits
  cases hresult : s.memory.alloc length capacity with
  | mk m result =>
    rw [hresult] at hallotted
    cases hallotted with
    | range hrange =>
      refine h.storeResult name rfl (fun u hu => by cases hu) fun e he => ?_
      cases he
      exact ⟨h.memory, .range hrange⟩
    | memory hgrants =>
      refine h.storeResult name rfl (fun u hu => by cases hu) fun e he => ?_
      cases he
      exact ⟨h.memory, .memory hgrants⟩
    | made hrange hlength hcapacity hsound hgrants =>
      refine h.storeResult name hgrants (fun u hu => ?_) fun e he => by cases he
      cases hu
      exact hsound

theorem ofList_advances (h : s.Sound) (name : String) (values : List α)
    (hfits : values.length ≤ sizeLimit) :
    Advances s (s.Refusal (.ofList name values))
      ((s.make values.length).storeResult name
        ((s.make values.length).memory.ofList values)) := by
  have hmake := h.make values.length
  suffices Advances (s.make values.length) (s.Refusal (.ofList name values))
      ((s.make values.length).storeResult name ((s.make values.length).memory.ofList values)) from
    ⟨this.sound, this.grants_eq, this.refused⟩
  rcases hmake.memory.ofList values fun _ => hfits with
    ⟨hrefused, m, hresult, hsound, hgrants⟩ | ⟨m, u, hresult, hsound, hgrants⟩
  · rw [hresult]
    refine hmake.storeResult name hgrants (fun u hu => by cases hu) fun e he => ?_
    cases he
    exact ⟨hsound, .ofList hrefused⟩
  · rw [hresult]
    refine hmake.storeResult name hgrants (fun u hu => ?_) fun e he => by cases he
    cases hu
    exact hsound

theorem slice_advances (h : s.Sound) (name : String) {source : String} {v : Window}
    (hv : s.views.get? source = some v) (start stop : Int) :
    Advances s (s.Refusal (.slice name source start stop))
      (s.storeResult name (s.memory.slice v start stop)) := by
  rcases h.memory.slice (Registers.mem_values_of_get? hv) rfl (h.within hv) start stop with
    ⟨hbounds, hresult⟩ | ⟨m, u, hresult, -, hsound, hgrants⟩
  · rw [hresult]
    refine h.storeResult name rfl (fun u hu => by cases hu) fun e he => ?_
    cases he
    exact ⟨h.memory, .slice hv hbounds⟩
  · rw [hresult]
    refine h.storeResult name hgrants (fun u hu => ?_) fun e he => by cases he
    cases hu
    exact hsound

theorem pushMany_advances (h : s.Sound) {name : String} {v : Window}
    (hv : s.views.get? name = some v) (values : List α) {out : Session α × Reply α}
    (hout : out.1 =
      ⟨(pushEach s.memory v values).1, s.views.set name (pushEach s.memory v values).2.1⟩)
    (hreply : ∀ e, out.2 = .failed e → (pushEach s.memory v values).2.2 = .error e) :
    Advances s (s.Refusal (.pushMany name values)) out := by
  obtain ⟨hsound, hgrants, hrefused⟩ := pushEach_sound (h.apart hv) values
  refine ⟨?_, ?_, fun e he => ?_⟩
  · rw [hout]
    exact h.replace hsound
  · rw [hout]
    exact hgrants
  · obtain ⟨u, k, hk, hu, hno⟩ := hrefused e (hreply e he)
    exact .pushMany hv hk hu hno

variable [DecidableEq α]

/-- Every operation keeps the invariant, whether it fails or not, and fails only in the
ways listed. -/
theorem apply_advances (h : s.Sound) {op : Op α} (hfits : op.Fits) :
    Advances s (s.Refusal op) (s.apply op) := by
  cases op with
  | empty name =>
    obtain ⟨hsound, hgrants⟩ := h.store name h.memory.empty
    exact ⟨hsound, hgrants, fun e he => by cases he⟩
  | alloc name length capacity => exact alloc_advances h name length capacity hfits
  | ofList name values => exact ofList_advances h name values hfits
  | drop name =>
    rw [Session.apply]
    split
    · exact h.keep fun e => by simp
    · rename_i v hv
      obtain ⟨hsound, hdropped⟩ := (h.apart hv).drop
      exact ⟨⟨h.ordered.erase name, hsound⟩, hdropped.grants_eq, fun e he => by cases he⟩
  | clone name source =>
    refine h.on source fun v hv => ?_
    obtain ⟨hsound, hgrants⟩ := h.store name
      (h.memory.retain (Registers.mem_values_of_get? hv) rfl rfl (h.within hv))
    exact ⟨hsound, hgrants, fun e he => by cases he⟩
  | slice name source start stop =>
    exact h.on source fun v hv => slice_advances h name hv start stop
  | get name index => exact h.on name fun v hv => get_advances h hv index
  | set name index a => exact h.on name fun v hv => set_advances h hv index a
  | push name a =>
    refine h.on name fun v hv => ?_
    have hadded := ((h.make 1).apart hv).push a
    have hadvances : Advances (s.make 1) (s.Refusal (.push name a)) _ :=
      (h.make 1).updateAdded hv hadded (Nat.le_refl _) fun e hno => .room rfl hv hno
    exact ⟨hadvances.sound, hadvances.grants_eq, hadvances.refused⟩
  | pushMany name values =>
    refine h.on name fun v hv => pushMany_advances h hv values ?_ ?_
    · dsimp only
      split <;> rfl
    · intro e he
      dsimp only at he
      split at he
      · cases he
      · cases he
        assumption
  | append name source =>
    refine h.onBoth name source fun v u hv hu => ?_
    split
    · rename_i heq
      subst heq
      cases hv.symm.trans hu
      exact appendSelf_advances h hv
    · exact append_advances h hv hu
  | extend name values =>
    refine h.on name fun v hv => ?_
    have hmake := h.make values.length
    have hadded := ((hmake.apart hv).extend values).note (·.drop values.length)
    have hadvances : Advances (s.make values.length) (s.Refusal (.extend name values)) _ :=
      hmake.updateAdded hv hadded (Nat.le_refl _) fun e hno => .room rfl hv hno
    exact ⟨hadvances.sound, hadvances.grants_eq, hadvances.refused⟩
  | reserve name additional =>
    exact h.on name fun v hv => h.updateAdded hv ((h.apart hv).reserve additional)
      (Nat.zero_le _) fun e hno => .room rfl hv hno
  | copyFrom name source =>
    refine h.onBoth name source fun v u hv hu => ?_
    obtain ⟨m, hcopy, hwrote⟩ := (h.within hv).copyFrom (h.within hu)
    rw [hcopy]
    exact h.answer hwrote.sameShape _ fun e => by simp
  | toList name =>
    refine h.on name fun v hv => ?_
    obtain ⟨change, hread⟩ := (h.within hv).toList
    rw [hread]
    exact h.answer (.note _ _) _ fun e => by simp
  | iterate name count =>
    refine h.on name fun v hv => ?_
    obtain ⟨change, turns, hturns⟩ := iterate_ok (h.within hv) count (Nat.zero_le _)
    rw [hturns]
    exact h.answer (.note _ _) _ fun e => by simp
  | equal a b =>
    refine h.onBoth a b fun v u hv hu => ?_
    obtain ⟨change, hequal⟩ := equal_ok (h.within hv) (h.within hu)
    rw [hequal]
    exact h.answer (.note _ _) _ fun e => by simp
  | sharesStore a b => exact h.onBoth a b fun v u _ _ => h.keep fun e => by simp
  | debug name =>
    refine h.on name fun v hv => ?_
    obtain ⟨change, hread⟩ := (h.within hv).toList
    rw [hread]
    exact h.answer (.note _ _) _ fun e => by simp
  | info name => exact h.on name fun v _ => h.keep fun e => by simp

/-! ## A run -/

/-- The session after operations, on a machine whose allocator grants what `grants` says. -/
def run (grants : Nat → Bool) (ops : List (Op α)) : Session α :=
  ops.foldl (fun s op => (s.apply op).1) { memory := { grants } }

theorem run_sound (grants : Nat → Bool) {ops : List (Op α)} (hfits : ∀ op ∈ ops, op.Fits) :
    (run grants ops).Sound := by
  suffices ∀ (ops : List (Op α)), (∀ op ∈ ops, op.Fits) → ∀ s : Session α, s.Sound →
      (ops.foldl (fun s op => (s.apply op).1) s).Sound from
    this ops hfits _ (sound_initial grants)
  intro ops
  induction ops with
  | nil => exact fun _ s h => h
  | cons op rest ih =>
    intro hfits s h
    have hop := apply_advances h (hfits op List.mem_cons_self)
    exact ih (fun op hop => hfits op (List.mem_cons_of_mem _ hop)) _ hop.sound

/-- What holds at the start and is kept by every operation holds after a run. -/
theorem run_induct {P : Session α → Prop} (grants : Nat → Bool) {ops : List (Op α)}
    (hfits : ∀ op ∈ ops, op.Fits) (hstart : P { memory := { grants } })
    (hstep : ∀ (s : Session α) (op : Op α), s.Sound → op.Fits → P s → P (s.apply op).1) :
    P (run grants ops) := by
  suffices ∀ (ops : List (Op α)), (∀ op ∈ ops, op.Fits) → ∀ s : Session α, s.Sound → P s →
      P (ops.foldl (fun s op => (s.apply op).1) s) from
    this ops hfits _ (sound_initial grants) hstart
  intro ops
  induction ops with
  | nil => exact fun _ s _ hs => hs
  | cons op rest ih =>
    intro hfits s h hs
    have hop := hfits op List.mem_cons_self
    exact ih (fun op hop => hfits op (List.mem_cons_of_mem _ hop)) _ (apply_advances h hop).sound
      (hstep s op h hop hs)

end

end Session

end Substrate.View
