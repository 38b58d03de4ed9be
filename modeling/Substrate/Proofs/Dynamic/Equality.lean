import Substrate.Dynamic.Plain
import Substrate.Proofs.Dynamic.Boxes

/-!
# Equality of boxes

Boxes compare by the cells of their payloads first and by the payloads after
that, at every level of boxes in boxes.  `Built` is how a heap of boxes comes
about: by boxing values and clones of boxes, cloning, taking a box out of a
box, and letting go.

The laws of equality hold at each fuel, by induction on it; a step of the
induction goes from two boxes to the boxes in their payloads.  That the fuel
is never used up is a separate matter (`Box.equal_eq`, `Value.fed_box`): a
boxed box is of an earlier cell.
-/

namespace Substrate.Dynamic

open Ownership (Heap)

variable {τ α : Type} [Plain τ α]

/-- Types whose equality is symmetric and transitive, and whose hash respects it.  A value
need not equal itself. -/
structure Plain.Lawful (α : Type) [Plain τ α] : Prop where
  /-- Equality is symmetric. -/
  symm : ∀ a b : α, Plain.typeOf a = Plain.typeOf b → Plain.same a b = true → Plain.same b a = true
  /-- Equality is transitive. -/
  trans : ∀ a b c : α, Plain.typeOf a = Plain.typeOf b → Plain.typeOf b = Plain.typeOf c →
    Plain.same a b = true → Plain.same b c = true → Plain.same a c = true
  /-- Equal values have equal hashes. -/
  hash : ∀ a b : α, Plain.typeOf a = Plain.typeOf b → Plain.same a b = true →
    Hash.sip13 (Plain.fed a) = Hash.sip13 (Plain.fed b)

/-- The heaps that boxes are built in, each with the boxes outside it. -/
inductive Built : Heap (Value τ α) → List (Box τ) → Prop
  /-- Nothing is there yet. -/
  | start : Built {} []
  /-- The boxes may stand in any order. -/
  | perm {h : Heap (Value τ α)} {bs cs : List (Box τ)} (built : Built h bs) (order : bs.Perm cs) :
    Built h cs
  /-- An empty box. -/
  | empty {h : Heap (Value τ α)} {bs : List (Box τ)} (built : Built h bs) : Built h (.empty :: bs)
  /-- A box of a plain value. -/
  | new {h : Heap (Value τ α)} {bs : List (Box τ)} (built : Built h bs) (a : α) :
    Built (Box.make h (.plain a)).1 ((Box.make h (.plain a)).2 :: bs)
  /-- A box of a clone of a box. -/
  | nest {h : Heap (Value τ α)} {bs : List (Box τ)} (built : Built h bs) {b : Box τ}
      (held : b ∈ bs) :
    Built (Box.make (b.retain h) (.box b)).1 ((Box.make (b.retain h) (.box b)).2 :: bs)
  /-- A clone of a box. -/
  | clone {h : Heap (Value τ α)} {bs : List (Box τ)} (built : Built h bs) {b : Box τ}
    (held : b ∈ bs) : Built (b.retain h) (b :: bs)
  /-- A clone of the box in a box. -/
  | unbox {h : Heap (Value τ α)} {bs : List (Box τ)} (built : Built h bs) {b c : Box τ} {i : Nat}
    (held : b ∈ bs) (cell : b.cell = some i) (payload : h.payload i = .box c) :
    Built (c.retain h) (c :: bs)
  /-- One box less. -/
  | drop {h : Heap (Value τ α)} {bs : List (Box τ)} {b : Box τ} (built : Built h (b :: bs)) :
    Built (b.release h).1 bs

theorem Built.kept {h : Heap (Value τ α)} {bs : List (Box τ)} (built : Built h bs) : Kept h bs := by
  induction built with
  | start => exact .start
  | perm _ order ih => exact ih.perm order
  | empty _ ih => exact ih.addEmpty
  | new _ a ih => exact Kept.make ih
  | nest _ held ih => exact Kept.make (ih.clone held)
  | clone _ held ih => exact ih.clone held
  | unbox _ held cell payload ih => exact ih.inner held cell payload
  | drop _ ih => exact ih.release.1

/-- Two payloads are equal if they are equal plain values or equal boxes. -/
theorem Value.equalBy_iff (boxes : Box τ → Box τ → Bool) (v w : Value τ α) :
    Value.equalBy boxes v w = true ↔
      (∃ a b, v = .plain a ∧ w = .plain b ∧ Plain.same a b = true) ∨
      (∃ a b, v = .box a ∧ w = .box b ∧ boxes a b = true) := by
  cases v <;> cases w <;> simp [Value.equalBy]

variable {h : Heap (Value τ α)}

/-- The boxes in payloads are of earlier cells. -/
abbrev Earlier (h : Heap (Value τ α)) : Prop := ∀ i, i < h.size → (h.payload i).Below h i

theorem Earlier.inner (he : Earlier h) {i : Nat} (hi : i < h.size) {b : Box τ}
    (hb : h.payload i = .box b) : b.Below h h.size :=
  (he i hi b hb).mono (fun _ _ => rfl) (Nat.le_of_lt hi)

theorem Value.typeOf_eq {v w : Value τ α} {a b : α} (hkind : v.kind = w.kind) (ha : v = .plain a)
    (hb : w = .plain b) : Plain.typeOf a = Plain.typeOf b := by
  rw [ha, hb] at hkind
  simpa [Value.kind] using hkind

/-! ## One level -/

section OneLevel

variable [DecidableEq τ] {values : Value τ α → Value τ α → Bool} {a b c : Box τ} {n : Nat}

/-- Two boxes are equal if both are empty, or if their payloads are of one type, and one
and the same or equal. -/
theorem Box.equalBy_iff (ha : a.Below h n) (hb : b.Below h n) :
    Box.equalBy h values a b = true ↔
      (a.cell = none ∧ b.cell = none) ∨
      ∃ i j, a.cell = some i ∧ b.cell = some j ∧ (h.payload i).kind = (h.payload j).kind ∧
        (i = j ∨ values (h.payload i) (h.payload j) = true) := by
  unfold Box.equalBy
  rw [ha.kind_eq, hb.kind_eq]
  cases a.cell <;> cases b.cell <;> simp

omit [Plain τ α] in
/-- Only the payload of the first box matters to how payloads are compared. -/
theorem Box.equalBy_congr {others : Value τ α → Value τ α → Bool}
    (hsame : ∀ i w, a.cell = some i → values (h.payload i) w = others (h.payload i) w) :
    Box.equalBy h values a b = Box.equalBy h others a b := by
  unfold Box.equalBy
  split
  · rfl
  · split
    · split
      · rename_i i j hi _
        rw [hsame i _ hi]
      · rfl
    · rfl
  · rfl

theorem Box.equalBy_symm (ha : a.Below h n) (hb : b.Below h n)
    (hvalues : ∀ i j, i < n → j < n → (h.payload i).kind = (h.payload j).kind →
      values (h.payload i) (h.payload j) = true → values (h.payload j) (h.payload i) = true)
    (hab : Box.equalBy h values a b = true) : Box.equalBy h values b a = true := by
  rw [Box.equalBy_iff ha hb] at hab
  rw [Box.equalBy_iff hb ha]
  rcases hab with ⟨hi, hj⟩ | ⟨i, j, hi, hj, hkind, heq⟩
  · exact .inl ⟨hj, hi⟩
  · refine .inr ⟨j, i, hj, hi, hkind.symm, ?_⟩
    rcases heq with rfl | hval
    · exact .inl rfl
    · exact .inr (hvalues i j (ha.lt i hi) (hb.lt j hj) hkind hval)

/-- One link may hold because the payload is shared and the other because the payloads are
equal: then the payload of one outer box is that of the middle box. -/
theorem Box.equalBy_trans (ha : a.Below h n) (hb : b.Below h n) (hc : c.Below h n)
    (hvalues : ∀ i j k, i < n → j < n → k < n → (h.payload i).kind = (h.payload j).kind →
      (h.payload j).kind = (h.payload k).kind → values (h.payload i) (h.payload j) = true →
      values (h.payload j) (h.payload k) = true → values (h.payload i) (h.payload k) = true)
    (hab : Box.equalBy h values a b = true) (hbc : Box.equalBy h values b c = true) :
    Box.equalBy h values a c = true := by
  rw [Box.equalBy_iff ha hb] at hab
  rw [Box.equalBy_iff hb hc] at hbc
  rw [Box.equalBy_iff ha hc]
  rcases hab with ⟨hi, hj⟩ | ⟨i, j, hi, hj, hij, heq⟩
  · rcases hbc with ⟨-, hk⟩ | ⟨j', k, hj', -⟩
    · exact .inl ⟨hi, hk⟩
    · rw [hj] at hj'
      cases hj'
  · rcases hbc with ⟨hj', -⟩ | ⟨j', k, hj', hk, hjk, heq'⟩
    · rw [hj] at hj'
      cases hj'
    · rw [hj] at hj'
      cases hj'
      refine .inr ⟨i, k, hi, hk, hij.trans hjk, ?_⟩
      rcases heq with rfl | hval
      · exact heq'
      · rcases heq' with rfl | hval'
        · exact .inr hval
        · exact .inr (hvalues i j k (ha.lt i hi) (hb.lt j hj) (hc.lt k hk) hij hjk hval hval')

end OneLevel

/-! ## Any number of levels -/

section Levels

variable [DecidableEq τ] {a b c : Box τ}

theorem Box.equalWith_symm (laws : Plain.Lawful α) (he : Earlier h) (fuel : Nat)
    (ha : a.Below h h.size) (hb : b.Below h h.size) (hab : Box.equalWith h fuel a b = true) :
    Box.equalWith h fuel b a = true := by
  induction fuel generalizing a b with
  | zero => exact Box.equalBy_symm ha hb (fun _ _ _ _ _ hval => hval) hab
  | succ fuel ih =>
    refine Box.equalBy_symm ha hb ?_ hab
    intro i j hi hj hkind hval
    rw [Value.equalBy_iff] at hval ⊢
    rcases hval with ⟨x, y, hx, hy, hxy⟩ | ⟨x, y, hx, hy, hxy⟩
    · exact .inl ⟨y, x, hy, hx, laws.symm x y (Value.typeOf_eq hkind hx hy) hxy⟩
    · exact .inr ⟨y, x, hy, hx, ih (he.inner hi hx) (he.inner hj hy) hxy⟩

theorem Box.equalWith_trans (laws : Plain.Lawful α) (he : Earlier h) (fuel : Nat)
    (ha : a.Below h h.size) (hb : b.Below h h.size) (hc : c.Below h h.size)
    (hab : Box.equalWith h fuel a b = true) (hbc : Box.equalWith h fuel b c = true) :
    Box.equalWith h fuel a c = true := by
  induction fuel generalizing a b c with
  | zero => exact Box.equalBy_trans ha hb hc (fun _ _ _ _ _ _ _ _ hval _ => hval) hab hbc
  | succ fuel ih =>
    refine Box.equalBy_trans ha hb hc ?_ hab hbc
    intro i j k hi hj hk hij hjk hval hval'
    rw [Value.equalBy_iff] at hval hval' ⊢
    rcases hval with ⟨x, y, hx, hy, hxy⟩ | ⟨x, y, hx, hy, hxy⟩
    · rcases hval' with ⟨y', z, hy', hz, hyz⟩ | ⟨y', z, hy', -⟩
      · rw [hy] at hy'
        cases hy'
        have htypes := Value.typeOf_eq hij hx hy
        have htypes' := Value.typeOf_eq hjk hy hz
        exact .inl ⟨x, z, hx, hz, laws.trans x y z htypes htypes' hxy hyz⟩
      · rw [hy] at hy'
        cases hy'
    · rcases hval' with ⟨y', z, hy', -⟩ | ⟨y', z, hy', hz, hyz⟩
      · rw [hy] at hy'
        cases hy'
      · rw [hy] at hy'
        cases hy'
        exact .inr ⟨x, z, hx, hz,
          ih (he.inner hi hx) (he.inner hj hy) (he.inner hk hz) hxy hyz⟩

/-- Equal boxes feed the same bytes.  Fuel is used up at the same rate on both sides. -/
theorem Value.fedWith_eq_of_equalWith (laws : Plain.Lawful α) (he : Earlier h) (fuel : Nat)
    (ha : a.Below h h.size) (hb : b.Below h h.size) (hab : Box.equalWith h fuel a b = true) :
    Value.fedWith h fuel (.box a) = Value.fedWith h fuel (.box b) := by
  induction fuel generalizing a b with
  | zero => rfl
  | succ fuel ih =>
    rw [Box.equalWith, Box.equalBy_iff ha hb] at hab
    rw [Value.fedWith, Value.fedWith]
    rcases hab with ⟨hi, hj⟩ | ⟨i, j, hi, hj, hkind, heq⟩
    · rw [hi, hj]
    · rw [hi, hj]
      rcases heq with rfl | hval
      · rfl
      · rw [Value.equalBy_iff] at hval
        rcases hval with ⟨x, y, hx, hy, hxy⟩ | ⟨x, y, hx, hy, hxy⟩
        · have hhash := laws.hash x y (Value.typeOf_eq hkind hx hy) hxy
          simp only [hx, hy, Value.fedWith, hhash]
        · simp only [hx, hy, ih (he.inner (ha.lt i hi) hx) (he.inner (hb.lt j hj) hy) hxy]

/-! ## Fuel enough -/

/-- A box of a cell below `fuel` needs no more fuel: the box in its payload is of a cell
below `fuel - 1`, if there is one. -/
theorem Box.equalWith_succ (he : Earlier h) (fuel : Nat) (ha : a.Below h fuel)
    (hsize : a.Below h h.size) : Box.equalWith h (fuel + 1) a b = Box.equalWith h fuel a b := by
  induction fuel generalizing a b with
  | zero =>
    refine Box.equalBy_congr fun i w hi => ?_
    exact absurd (ha.lt i hi) (Nat.not_lt_zero i)
  | succ fuel ih =>
    refine Box.equalBy_congr fun i w hi => ?_
    have hlt := hsize.lt i hi
    have hfuel := ha.lt i hi
    cases hx : h.payload i with
    | plain x => cases w <;> rfl
    | box x =>
      cases w with
      | plain y => rfl
      | box y =>
        exact ih ((he i hlt x hx).mono (fun _ _ => rfl) (by omega)) (he.inner hlt hx)

/-- Equality goes on from boxes to payloads and from payloads to boxes, with nothing cut
off. -/
theorem Box.equal_eq (he : Earlier h) (ha : a.Below h h.size) :
    a.equal h b = Box.equalBy h (Value.equal h) a b :=
  (Box.equalWith_succ he (h.size + 1) (ha.mono (fun _ _ => rfl) (Nat.le_succ _)) ha).symm

end Levels

theorem Value.fedWith_succ (he : Earlier h) (fuel : Nat) {v : Value τ α} (hv : v.Below h fuel)
    (hsize : v.Below h h.size) : v.fedWith h (fuel + 2) = v.fedWith h (fuel + 1) := by
  induction fuel generalizing v with
  | zero =>
    cases v with
    | plain a => rfl
    | box b =>
      have hcell : b.cell = none :=
        Option.eq_none_iff_forall_ne_some.mpr fun i hi => Nat.not_lt_zero i ((hv b rfl).lt i hi)
      simp [Value.fedWith, hcell]
  | succ fuel ih =>
    cases v with
    | plain a => rfl
    | box b =>
      rw [Value.fedWith, Value.fedWith]
      cases hcell : b.cell with
      | none => rfl
      | some i =>
        have hlt := (hsize b rfl).lt i hcell
        have hfuel := (hv b rfl).lt i hcell
        have hrest := ih (v := h.payload i)
          (fun c hc => (he i hlt c hc).mono (fun _ _ => rfl) (by omega))
          (fun c hc => he.inner hlt hc)
        simp only [hrest]

/-- A box feeds the hash of its payload, whatever the payload is, and an empty box 0. -/
theorem Value.fed_box (he : Earlier h) {a : Box τ} (ha : a.Below h h.size) :
    Value.fed h (.box a) = Hash.littleEndianBytes 8
      (a.cell.elim 0 fun i => (Hash.sip13 (Value.fed h (h.payload i))).toNat) := by
  rw [Value.fed, Value.fedWith]
  cases hcell : a.cell with
  | none => rfl
  | some i =>
    have hlt := ha.lt i hcell
    obtain ⟨n, hn⟩ : ∃ n, h.size = n + 1 := ⟨h.size - 1, by omega⟩
    have hmore := Value.fedWith_succ he n (v := h.payload i)
      (fun c hc => (he i hlt c hc).mono (fun _ _ => rfl) (by omega)) (fun c hc => he.inner hlt hc)
    simp only [Option.elim, Value.fed, hn, hmore]

/-! ## The types of a session -/

/-- Two values are equal if they are texts that differ in case only, or one value that is
not of the type whose values equal nothing. -/
theorem PlainValue.same_iff (a b : PlainValue) : a.same b = true ↔
    (∃ s t, a = .fold s ∧ b = .fold t ∧ foldCase s = foldCase t) ∨
    (a = b ∧ ∀ n, a ≠ .never n) := by
  unfold PlainValue.same
  split
  · rename_i s t
    constructor
    · exact fun hst => .inl ⟨s, t, rfl, rfl, by simpa using hst⟩
    · rintro (⟨_, _, hs, ht, hst⟩ | ⟨hst, -⟩)
      · cases hs
        cases ht
        simpa using hst
      · cases hst
        simp
  · simp
  · rename_i hfold hnever
    constructor
    · intro hab
      have hab : a = b := by simpa using hab
      exact .inr ⟨hab, fun n hn => hnever n n hn (hab ▸ hn)⟩
    · rintro (⟨s, t, hs, ht, -⟩ | ⟨hab, -⟩)
      · exact absurd ht (hfold s t hs)
      · simpa using hab

theorem PlainValue.lawful : Plain.Lawful PlainValue := by
  constructor
  · intro a b _ hab
    have hab := (PlainValue.same_iff a b).mp hab
    refine (PlainValue.same_iff b a).mpr ?_
    rcases hab with ⟨s, t, hs, ht, hst⟩ | ⟨rfl, hnever⟩
    · exact .inl ⟨t, s, ht, hs, hst.symm⟩
    · exact .inr ⟨rfl, hnever⟩
  · intro a b c _ _ hab hbc
    have hab := (PlainValue.same_iff a b).mp hab
    have hbc := (PlainValue.same_iff b c).mp hbc
    refine (PlainValue.same_iff a c).mpr ?_
    rcases hab with ⟨s, t, hs, ht, hst⟩ | ⟨rfl, hnever⟩
    · rcases hbc with ⟨t', u, ht', hu, htu⟩ | ⟨rfl, -⟩
      · rw [ht] at ht'
        cases ht'
        exact .inl ⟨s, u, hs, hu, hst.trans htu⟩
      · exact .inl ⟨s, t, hs, ht, hst⟩
    · exact hbc
  · intro a b _ hab
    rcases (PlainValue.same_iff a b).mp hab with ⟨s, t, rfl, rfl, hst⟩ | ⟨rfl, -⟩
    · show Hash.sip13 (PlainValue.fed (.fold s)) = Hash.sip13 (PlainValue.fed (.fold t))
      simp only [PlainValue.fed, hst]
    · rfl

/-! ## The laws -/

/-- Equality of the boxes `bs` is an equivalence that tells types apart and that hashing
respects. -/
structure EqualityLaws [DecidableEq τ] (h : Heap (Value τ α)) (bs : List (Box τ)) : Prop where
  /-- Boxes are compared as they are meant to be, however deep they go. -/
  unfold_eq : ∀ a ∈ bs, ∀ b ∈ bs, a.equal h b = Box.equalBy h (Value.equal h) a b
  /-- Every box equals itself. -/
  refl : ∀ a ∈ bs, a.equal h a = true
  /-- Boxes that share a payload are equal, also if the payload does not equal itself. -/
  shared : ∀ a ∈ bs, ∀ b ∈ bs, a.cell = b.cell → a.equal h b = true
  /-- Equality is symmetric. -/
  symm : ∀ a ∈ bs, ∀ b ∈ bs, a.equal h b = true → b.equal h a = true
  /-- Equality is transitive. -/
  trans : ∀ a ∈ bs, ∀ b ∈ bs, ∀ c ∈ bs, a.equal h b = true → b.equal h c = true →
    a.equal h c = true
  /-- An empty box equals the empty boxes and no other. -/
  empty : ∀ a ∈ bs, ∀ b ∈ bs, a.isEmpty = true → (a.equal h b = true ↔ b.isEmpty = true)
  /-- Boxes of different types are not equal. -/
  kinds : ∀ a ∈ bs, ∀ b ∈ bs, a.kind ≠ b.kind → a.equal h b = false
  /-- A box feeds the hash of its payload to a hasher, and an empty one 0. -/
  fed_eq : ∀ a ∈ bs, Value.fed h (.box a) = Hash.littleEndianBytes 8
    (a.cell.elim 0 fun i => (Hash.sip13 (Value.fed h (h.payload i))).toNat)
  /-- Equal boxes feed the same bytes. -/
  fed : ∀ a ∈ bs, ∀ b ∈ bs, a.equal h b = true → Value.fed h (.box a) = Value.fed h (.box b)

theorem Box.Below.isEmpty_iff {a : Box τ} {n : Nat} (ha : a.Below h n) :
    a.isEmpty = true ↔ a.cell = none := by
  rw [Box.isEmpty, ha.kind_eq]
  cases a.cell <;> simp

/-- Boxes that were built in any way from values of lawful types have lawful equality. -/
theorem built_boxes_equality_lawful [DecidableEq τ] (laws : Plain.Lawful α) {h : Heap (Value τ α)}
    {bs : List (Box τ)} (built : Built h bs) : EqualityLaws h bs := by
  obtain ⟨-, hbelow, he⟩ := built.kept
  have hshared : ∀ a ∈ bs, ∀ b ∈ bs, a.cell = b.cell → a.equal h b = true := by
    intro a ha b hb hcell
    rw [Box.equal_eq he (hbelow a ha), Box.equalBy_iff (hbelow a ha) (hbelow b hb)]
    cases hi : a.cell with
    | none => exact .inl ⟨rfl, hcell.symm.trans hi⟩
    | some i => exact .inr ⟨i, i, rfl, hcell.symm.trans hi, rfl, .inl rfl⟩
  constructor
  · exact fun a ha b _ => Box.equal_eq he (hbelow a ha)
  · exact fun a ha => hshared a ha a ha rfl
  · exact hshared
  · exact fun a ha b hb => Box.equalWith_symm laws he _ (hbelow a ha) (hbelow b hb)
  · exact fun a ha b hb c hc =>
      Box.equalWith_trans laws he _ (hbelow a ha) (hbelow b hb) (hbelow c hc)
  · intro a ha b hb hempty
    rw [(hbelow a ha).isEmpty_iff] at hempty
    rw [Box.equal_eq he (hbelow a ha), Box.equalBy_iff (hbelow a ha) (hbelow b hb),
      (hbelow b hb).isEmpty_iff]
    simp [hempty]
  · intro a ha b hb hkind
    rw [Bool.eq_false_iff]
    intro hab
    rw [Box.equal_eq he (hbelow a ha), Box.equalBy_iff (hbelow a ha) (hbelow b hb)] at hab
    rw [(hbelow a ha).kind_eq, (hbelow b hb).kind_eq] at hkind
    rcases hab with ⟨hi, hj⟩ | ⟨i, j, hi, hj, hij, -⟩
    · exact hkind (by rw [hi, hj])
    · exact hkind (by rw [hi, hj]; exact congrArg some hij)
  · exact fun a ha => Value.fed_box he (hbelow a ha)
  · exact fun a ha b hb => Value.fedWith_eq_of_equalWith laws he _ (hbelow a ha) (hbelow b hb)

/-- Two boxes that box clones of one box: its value equals nothing, and yet they are equal. -/
theorem built_boxes_equality_lawful_never :
    let first := Box.make ({} : Heap (Value PlainType PlainValue)) (.plain (.never 5))
    let second := Box.make (first.2.retain first.1) (.box first.2)
    let third := Box.make (first.2.retain second.1) (.box first.2)
    Built third.1 [third.2, second.2, first.2] ∧ EqualityLaws third.1 [third.2, second.2, first.2] ∧
      third.2.cell ≠ second.2.cell ∧ third.2.equal third.1 second.2 = true := by
  intro first second third
  have one : Built first.1 [first.2] := .new .start _
  have two : Built second.1 [second.2, first.2] := .nest one List.mem_cons_self
  have built : Built third.1 [third.2, second.2, first.2] :=
    .nest two (List.mem_cons_of_mem second.2 List.mem_cons_self)
  exact ⟨built, built_boxes_equality_lawful PlainValue.lawful built, by decide, by decide⟩

end Substrate.Dynamic
