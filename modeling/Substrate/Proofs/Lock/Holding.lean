import Substrate.Lock.Session
import Mathlib.Data.List.Induction

/-!
# Who holds the park lock

Everything here is about any raw lock that keeps its laws and any value.  A section has the lock
while it runs, so one tried from within never runs, and a section does to the guarded value what it
would do alone (`perform_held`).  Between calls the lock is held exactly while the token of a
parking section is out (`held_iff_tokenOut`), and the value is what the sections that ran have made
of it (`value_foldl`).
-/

namespace Substrate.Lock

/-! ## Sections -/

/-- What a section does to the value, with every section within left out, and how it ends. -/
def Section.effect {α : Type} : Section α → α → α × Ending
  | .done ending, v => (v, ending)
  | .update change rest, v => rest.effect (change v)
  | .look rest, v => (rest v).effect v
  | .attempt _ rest, v => (rest false).effect v

end Substrate.Lock

namespace Substrate.RuntimeLock

open Lock (Section Outcome)

variable {M α : Type} [RawMutex M] [LawfulRawMutex M] {l l' : RuntimeLock M α} {s : Section α}
  {r : Outcome M α}

/-- A free lock was taken. -/
structure Taken (l l' : RuntimeLock M α) : Prop where
  free : l.held = false
  held : l'.held = true
  value : l'.value = l.value

theorem tryAcquire_eq_none : l.tryAcquire = none ↔ l.held = true :=
  Option.map_eq_none_iff.trans LawfulRawMutex.tryLock_eq_none

theorem acquire_eq_none : l.acquire = none ↔ l.held = true :=
  Option.map_eq_none_iff.trans LawfulRawMutex.lock_eq_none

theorem taken_of_tryAcquire (h : l.tryAcquire = some l') : l.Taken l' := by
  have hfree : l.held = false := by
    rw [Bool.eq_false_iff]
    intro hheld
    rw [tryAcquire_eq_none.mpr hheld] at h
    cases h
  obtain ⟨raw, hraw, rfl⟩ := Option.map_eq_some_iff.mp h
  exact ⟨hfree, LawfulRawMutex.isLocked_tryLock hraw, rfl⟩

theorem taken_of_acquire (h : l.acquire = some l') : l.Taken l' := by
  have hfree : l.held = false := by
    rw [Bool.eq_false_iff]
    intro hheld
    rw [acquire_eq_none.mpr hheld] at h
    cases h
  obtain ⟨raw, hraw, rfl⟩ := Option.map_eq_some_iff.mp h
  exact ⟨hfree, LawfulRawMutex.isLocked_lock hraw, rfl⟩

theorem held_release (h : l.held = true) : l.release.held = false :=
  LawfulRawMutex.isLocked_unlock h

/-- A section that has the lock runs alone: it keeps the lock, no section within runs, and the value
changes as by the section alone. -/
theorem perform_held (s : Section α) : ∀ {l : RuntimeLock M α}, l.held = true →
    (s.perform l).lock.held = true ∧ (s.perform l).lock.value = (s.effect l.value).1 ∧
      (s.perform l).ending = (s.effect l.value).2 ∧ ∀ ran ∈ (s.perform l).attempts,
      ran = false := by
  induction s with
  | done ending => exact fun hheld => ⟨hheld, rfl, rfl, fun _ h => absurd h List.not_mem_nil⟩
  | update change rest ih => exact fun hheld => ih (l := ⟨_, _⟩) hheld
  | look rest ih => exact fun hheld => ih _ hheld
  | attempt inner rest _ ih =>
    intro l hheld
    obtain ⟨hlock, hvalue, hending, hattempts⟩ := ih false hheld
    rw [Section.perform, tryAcquire_eq_none.mpr hheld]
    refine ⟨hlock, hvalue, hending, fun ran hran => ?_⟩
    rcases List.mem_cons.mp hran with rfl | hran
    · rfl
    · exact hattempts ran hran

/-- What a section leaves behind that took a free lock: the value as the section alone makes it, and
nothing done from within. -/
structure Ran (l : RuntimeLock M α) (s : Section α) (r : Outcome M α) : Prop where
  free : l.held = false
  value : r.lock.value = (s.effect l.value).1
  ending : r.ending = (s.effect l.value).2
  alone : ∀ ran ∈ r.attempts, ran = false

/-- A section that runs once the lock was taken. -/
theorem Taken.ran (h : l.Taken l') (s : Section α) : l.Ran s (s.perform l') := by
  obtain ⟨-, hvalue, hending, hattempts⟩ := perform_held s h.held
  rw [h.value] at hvalue hending
  exact ⟨h.free, hvalue, hending, hattempts⟩

/-- The same section when it is left. -/
theorem Taken.released (h : l.Taken l') (s : Section α) :
    l.Ran s (s.perform l').released ∧ (s.perform l').released.lock.held = false := by
  obtain ⟨hfree, hvalue, hending, hattempts⟩ := h.ran s
  exact ⟨⟨hfree, hvalue, hending, hattempts⟩, held_release (perform_held s h.held).1⟩

theorem lock?_ran (h : l.lock? s = some r) : l.Ran s r ∧ r.lock.held = false := by
  obtain ⟨l', hl', rfl⟩ := Option.map_eq_some_iff.mp h
  exact (taken_of_acquire hl').released s

theorem tryLock?_ran (h : l.tryLock? s = some r) : l.Ran s r ∧ r.lock.held = false := by
  obtain ⟨l', hl', rfl⟩ := Option.map_eq_some_iff.mp h
  exact (taken_of_tryAcquire hl').released s

theorem lockForPark?_ran (h : l.lockForPark? s = some r) :
    l.Ran s r ∧ r.lock.held = (r.ending == .returns) := by
  obtain ⟨l', hl', rfl⟩ := Option.map_eq_some_iff.mp h
  have htaken := taken_of_acquire hl'
  dsimp only
  split
  · rename_i hreturns
    rw [hreturns]
    exact ⟨htaken.ran s, (perform_held s htaken.held).1⟩
  · rename_i hraises
    obtain ⟨hran, hfree⟩ := htaken.released s
    refine ⟨hran, ?_⟩
    rw [hfree, Outcome.released, hraises]
    rfl

theorem lock?_eq_none : l.lock? s = none ↔ l.held = true :=
  Option.map_eq_none_iff.trans acquire_eq_none

theorem tryLock?_eq_none : l.tryLock? s = none ↔ l.held = true :=
  Option.map_eq_none_iff.trans tryAcquire_eq_none

theorem lockForPark?_eq_none : l.lockForPark? s = none ↔ l.held = true :=
  Option.map_eq_none_iff.trans acquire_eq_none

end Substrate.RuntimeLock

namespace Substrate.Lock

open RuntimeLock (Ran)

/-! ## Calls -/

variable {M α : Type} [RawMutex M]

/-- The section that a call brings. -/
def Call.code? : Call α → Option (Section α)
  | .lock code | .tryLock code | .park code => some code
  | .release | .releaseNone => none

/-- Whether a call keeps the lock when its section returns. -/
def Call.parks : Call α → Bool
  | .park _ => true
  | _ => false

/-- Whether a call waits for the lock if need be. -/
def Call.waits : Call α → Bool
  | .lock _ | .park _ => true
  | _ => false

namespace State

variable {s : State M α}

/-- The token is out exactly while the lock is held. -/
def Balanced (s : State M α) : Prop := s.outstanding = s.lock.held

/-- What a call can come to. -/
inductive Comes (s : State M α) : Call α → State M α × Answer M α → Prop
  | ran {c : Call α} {code : Section α} {r : Outcome M α} (hcode : c.code? = some code)
      (hran : s.lock.Ran code r) (hheld : r.lock.held = (c.parks && r.ending == .returns)) :
      Comes s c ({ lock := r.lock, outstanding := r.lock.held }, .ran r)
  | blocked {c : Call α} (hheld : s.lock.held = true) (hwaits : c.waits = true) :
      Comes s c (s, .blocked)
  | refused {code : Section α} (hheld : s.lock.held = true) : Comes s (.tryLock code) (s, .refused)
  | released (hheld : s.lock.held = true) :
      Comes s .release ({ lock := s.lock.release }, .released true)
  | idle (hfree : s.lock.held = false) : Comes s .release (s, .released false)
  | ignored : Comes s .releaseNone (s, .released false)

variable [LawfulRawMutex M]

theorem comes_call (h : s.Balanced) (c : Call α) : Comes s c (s.call c) := by
  have hplain : ∀ {code r}, s.lock.Ran code r → r.lock.held = false →
      ({ s with lock := r.lock } : State M α) = { lock := r.lock, outstanding := r.lock.held } := by
    intro code r hran hfree
    rw [hfree, ← hran.free, ← h]
  cases c with
  | lock code =>
    rw [call]
    cases hr : s.lock.lock? code with
    | none => exact .blocked (RuntimeLock.lock?_eq_none.mp hr) rfl
    | some r =>
      obtain ⟨hran, hfree⟩ := RuntimeLock.lock?_ran hr
      simp only [hplain hran hfree]
      exact .ran rfl hran hfree
  | tryLock code =>
    rw [call]
    cases hr : s.lock.tryLock? code with
    | none => exact .refused (RuntimeLock.tryLock?_eq_none.mp hr)
    | some r =>
      obtain ⟨hran, hfree⟩ := RuntimeLock.tryLock?_ran hr
      simp only [hplain hran hfree]
      exact .ran rfl hran hfree
  | park code =>
    rw [call]
    cases hr : s.lock.lockForPark? code with
    | none => exact .blocked (RuntimeLock.lockForPark?_eq_none.mp hr) rfl
    | some r =>
      obtain ⟨hran, hheld⟩ := RuntimeLock.lockForPark?_ran hr
      have hout : (s.outstanding || r.ending == .returns) = r.lock.held := by
        rw [h, hran.free, hheld]
        rfl
      simp only [hout]
      exact .ran rfl hran hheld
  | release =>
    rw [call]
    split
    · rename_i hout
      exact .released (h ▸ hout)
    · rename_i hout
      exact .idle (h ▸ Bool.eq_false_iff.mpr hout)
  | releaseNone => exact .ignored

theorem Comes.balanced {c : Call α} {after : State M α × Answer M α} (hs : s.Balanced)
    (h : Comes s c after) : after.1.Balanced := by
  cases h with
  | ran _ _ _ => rfl
  | blocked _ _ => exact hs
  | refused _ => exact hs
  | released hheld => exact (RuntimeLock.held_release hheld).symm
  | idle _ => exact hs
  | ignored => exact hs

/-- The sections that run in a list of calls, in order. -/
def ran (s : State M α) : List (Call α) → List (Section α)
  | [] => []
  | c :: calls =>
    match (s.call c).2 with
    | .ran _ => c.code?.toList ++ (s.call c).1.ran calls
    | _ => (s.call c).1.ran calls

theorem foldl_balanced (calls : List (Call α)) : ∀ {s : State M α}, s.Balanced →
    (calls.foldl (fun s c => (s.call c).1) s).Balanced := by
  induction calls with
  | nil => exact fun h => h
  | cons c calls ih => exact fun h => ih ((comes_call h c).balanced h)

/-- The value is what the sections that ran have made of it. -/
theorem value_foldl (calls : List (Call α)) : ∀ {s : State M α}, s.Balanced →
    (calls.foldl (fun s c => (s.call c).1) s).lock.value =
      (s.ran calls).foldl (fun v code => (code.effect v).1) s.lock.value := by
  induction calls with
  | nil => exact fun _ => rfl
  | cons c calls ih =>
    intro s h
    have hcomes := comes_call h c
    have hrest := ih (hcomes.balanced h)
    rw [List.foldl_cons, hrest, ran]
    generalize s.call c = after at hcomes
    cases hcomes with
    | ran hcode hran _ =>
      rw [hcode, Option.toList_some, List.singleton_append, List.foldl_cons, hran.value]
    | _ => rfl

variable (M)

omit [LawfulRawMutex M] in
/-- A lock around a value that was not used yet. -/
def fresh (start : α) : State M α := { lock := { value := start } }

omit [LawfulRawMutex M] in
/-- The state after a list of calls on a lock around a value. -/
def run (start : α) (calls : List (Call α)) : State M α :=
  calls.foldl (fun s c => (s.call c).1) (fresh M start)

theorem fresh_balanced (start : α) : (fresh M start).Balanced := LawfulRawMutex.isLocked_fresh.symm

theorem run_balanced (start : α) (calls : List (Call α)) : (run M start calls).Balanced :=
  foldl_balanced calls (fresh_balanced M start)

omit [LawfulRawMutex M] in
theorem run_append (start : α) (calls : List (Call α)) (c : Call α) :
    run M start (calls ++ [c]) = ((run M start calls).call c).1 := List.foldl_append

omit [LawfulRawMutex M] in
/-- The last parking section that returned is followed by no release. -/
def TokenOut (start : α) (calls : List (Call α)) : Prop :=
  ∃ before code after r, calls = before ++ .park code :: after ∧
    ((run M start before).call (.park code)).2 = .ran r ∧ r.ending = .returns ∧ .release ∉ after

omit [LawfulRawMutex M] in
/-- One more call: the token is out if the call is a parking section that returns, or if it was out
before and the call does not release it. -/
theorem tokenOut_append {start : α} {calls : List (Call α)} {c : Call α} :
    TokenOut M start (calls ++ [c]) ↔
      (c.parks = true ∧ ∃ r, ((run M start calls).call c).2 = .ran r ∧ r.ending = .returns) ∨
      TokenOut M start calls ∧ c ≠ .release := by
  constructor
  · rintro ⟨before, code, after, r, hcalls, hran, hreturns, hafter⟩
    rcases List.eq_nil_or_concat after with rfl | ⟨after, last, rfl⟩
    · obtain ⟨rfl, hc⟩ := List.append_inj' hcalls rfl
      cases hc
      exact .inl ⟨rfl, r, hran, hreturns⟩
    · rw [List.concat_eq_append] at hcalls hafter
      rw [← List.cons_append, ← List.append_assoc] at hcalls
      obtain ⟨rfl, hc⟩ := List.append_inj' hcalls rfl
      cases hc
      refine .inr ⟨⟨before, code, after, r, rfl, hran, hreturns, fun h => hafter ?_⟩,
        fun h => hafter ?_⟩
      · exact List.mem_append_left _ h
      · rw [← h]
        exact List.mem_append_right _ List.mem_cons_self
  · rintro (⟨hparks, r, hran, hreturns⟩ | ⟨⟨before, code, after, r, rfl, hran, hreturns, hafter⟩,
      hc⟩)
    · cases c with
      | park code => exact ⟨calls, code, [], r, rfl, hran, hreturns, List.not_mem_nil⟩
      | _ => cases hparks
    · refine ⟨before, code, after ++ [c], r, List.append_assoc _ _ _, hran, hreturns, fun h => ?_⟩
      rcases List.mem_append.mp h with h | h
      · exact hafter h
      · exact hc (List.mem_singleton.mp h).symm

/-- Between calls the lock is held exactly while a token is out. -/
theorem held_iff_tokenOut (start : α) (calls : List (Call α)) :
    (run M start calls).lock.held = true ↔ TokenOut M start calls := by
  induction calls using List.reverseRecOn with
  | nil =>
    have hfree : (fresh M start).lock.held = false := LawfulRawMutex.isLocked_fresh
    constructor
    · intro h
      cases hfree.symm.trans h
    · rintro ⟨before, code, after, r, hcalls, -⟩
      cases before <;> cases hcalls
  | append_singleton calls c ih =>
    have hcomes := comes_call (run_balanced M start calls) c
    rw [tokenOut_append, ← ih, run_append]
    generalize hafter : (run M start calls).call c = after at hcomes
    cases hcomes with
    | ran hcode hran hheld =>
      rename_i code r
      rw [hran.free]
      refine ⟨fun h => .inl ?_, ?_⟩
      · have hboth : (c.parks && r.ending == .returns) = true := hheld ▸ h
        rw [Bool.and_eq_true, beq_iff_eq] at hboth
        exact ⟨hboth.1, r, rfl, hboth.2⟩
      · rintro (⟨hparks, r', e, hreturns⟩ | ⟨h, -⟩)
        · cases e
          show r.lock.held = true
          rw [hheld, hparks, hreturns]
          rfl
        · cases h
    | blocked hheld hwaits =>
      refine ⟨fun h => .inr ⟨h, fun e => ?_⟩, fun _ => hheld⟩
      rw [e] at hwaits
      cases hwaits
    | refused hheld => exact ⟨fun h => .inr ⟨h, fun e => by cases e⟩, fun _ => hheld⟩
    | released hheld =>
      refine ⟨fun h => ?_, ?_⟩
      · cases (RuntimeLock.held_release hheld).symm.trans h
      · rintro (⟨h, -⟩ | ⟨-, h⟩)
        · cases h
        · exact absurd rfl h
    | idle hfree =>
      refine ⟨fun h => (by cases hfree.symm.trans h), ?_⟩
      rintro (⟨h, -⟩ | ⟨-, h⟩)
      · cases h
      · exact absurd rfl h
    | ignored =>
      refine ⟨fun h => .inr ⟨h, fun e => by cases e⟩, ?_⟩
      rintro (⟨h, -⟩ | ⟨h, -⟩)
      · cases h
      · exact h

/-- After any calls on a lock around a value of any type, whatever lawful raw lock it is made of,
where a call that would wait for ever is not made: the lock is held exactly when a parking section
has returned and no release has followed; the value is the one the sections that ran make of the
first, in order and each alone.  Whatever call comes next: a section runs only on a free lock, no
section within it runs, and it changes the value and ends as it would alone; if it raises, its
changes stay and the lock is free.  A section that only tries runs exactly if the lock is free, and
one that waits is blocked exactly if it is held; a call whose section does not run, and the release
of no lock, change nothing. -/
theorem held_while_token_out (start : α) (calls : List (Call α)) :
    ((run M start calls).lock.held = true ↔ TokenOut M start calls) ∧
    (run M start calls).lock.value =
      ((fresh M start).ran calls).foldl (fun v code => (code.effect v).1) start ∧
    (∀ c code r, c.code? = some code → ((run M start calls).call c).2 = .ran r →
      (run M start calls).lock.held = false ∧ (∀ within ∈ r.attempts, within = false) ∧
      (((run M start calls).call c).1.lock.value, r.ending) =
        code.effect (run M start calls).lock.value ∧
      (r.ending = .raises → ((run M start calls).call c).1.lock.held = false)) ∧
    (∀ code, (∃ r, ((run M start calls).call (.tryLock code)).2 = .ran r) ↔
      (run M start calls).lock.held = false) ∧
    (∀ c, ((run M start calls).call c).2 = .blocked ↔
      c.waits = true ∧ (run M start calls).lock.held = true) ∧
    ∀ c, (∀ r, ((run M start calls).call c).2 ≠ .ran r) → c ≠ .release →
      ((run M start calls).call c).1 = run M start calls := by
  have hcomes := comes_call (run_balanced M start calls)
  refine ⟨held_iff_tokenOut M start calls, value_foldl calls (fresh_balanced M start), ?_, ?_, ?_,
    ?_⟩
  · intro c code r hcode hr
    have h := hcomes c
    generalize (run M start calls).call c = after at h hr
    cases h with
    | ran hcode' hran hheld =>
      cases hr
      rw [hcode] at hcode'
      cases hcode'
      refine ⟨hran.free, hran.alone, Prod.ext hran.value hran.ending, fun hraises => ?_⟩
      show r.lock.held = false
      rw [hheld, hraises]
      exact Bool.and_false _
    | _ => cases hr
  · intro code
    have h := hcomes (.tryLock code)
    generalize (run M start calls).call (.tryLock code) = after at h
    cases h with
    | ran _ hran _ => exact ⟨fun _ => hran.free, fun _ => ⟨_, rfl⟩⟩
    | blocked _ hwaits => cases hwaits
    | refused hheld =>
      rw [hheld]
      refine ⟨?_, fun e => (by cases e)⟩
      rintro ⟨r, e⟩
      cases e
  · intro c
    have h := hcomes c
    generalize (run M start calls).call c = after at h
    cases h with
    | ran _ hran _ =>
      rw [hran.free]
      refine ⟨fun e => (by cases e), fun e => (by cases e.2)⟩
    | blocked hheld hwaits => exact ⟨fun _ => ⟨hwaits, hheld⟩, fun _ => rfl⟩
    | _ => exact ⟨fun e => (by cases e), fun e => (by cases e.1)⟩
  · intro c hran hc
    have h := hcomes c
    generalize (run M start calls).call c = after at h hran
    cases h with
    | ran _ _ _ => exact absurd rfl (hran _)
    | released _ => exact absurd rfl hc
    | _ => rfl

end State

/-- A section that parks, one that tries in vain, the release of no lock and of the token, and a
section that tries from within, changes the number once more and raises. -/
def strugglingCalls : List (Call Int) :=
  [.park (.update (· + 1) (.done .returns)), .tryLock (.update (· * 7) (.done .returns)),
    .releaseNone, .release,
    .lock (.update (· + 2) (.attempt (.update (· * 5) (.done .returns)) fun ran =>
      .update (if ran then (· + 100) else (· + 10)) (.done .raises)))]

theorem State.held_while_token_out_struggling :
    (run Bool 0 (strugglingCalls.take 3)).lock.held = true ∧
    TokenOut Bool 0 (strugglingCalls.take 3) ∧
    (run Bool 0 strugglingCalls).lock.held = false ∧ (run Bool 0 strugglingCalls).lock.value = 13 ∧
    ∃ r, ((run Bool 0 strugglingCalls).call (.tryLock (.done .returns))).2 = .ran r := by
  have hheld : (run Bool 0 (strugglingCalls.take 3)).lock.held = true := by decide
  have hfree : (run Bool 0 strugglingCalls).lock.held = false := by decide
  obtain ⟨htoken, -⟩ := held_while_token_out Bool 0 (strugglingCalls.take 3)
  obtain ⟨-, hvalue, -, htry, -⟩ := held_while_token_out Bool 0 strugglingCalls
  exact ⟨hheld, htoken.mp hheld, hfree, hvalue.trans (by decide), (htry (.done .returns)).mpr hfree⟩

end Substrate.Lock
