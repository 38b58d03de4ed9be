import Substrate.Arith

/-!
# Division within a width

The quotient and the remainder are computed apart and each is wrapped to the
width.  Wrapping keeps the residue (`wrap_emod`) and gives a number of the type
(`holds_wrap`), so the division identity holds modulo two to the width whatever
is wrapped.  It changes nothing of a number of the type (`wrap_of_holds`), and
the truncated quotient of two numbers of a type is of the type again unless the
least number is divided by minus one (`holds_tdiv`).
-/

namespace Substrate.IntType

/-- The quotient of the magnitudes, rounded down, with the sign of the exact quotient. -/
def truncated (x y : Int) : Int := x.sign * y.sign * (x.natAbs / y.natAbs : Nat)

/-- The least number of a signed type over minus one. -/
def Overflows (t : IntType) (x y : Int) : Prop := t.signed = true ∧ x = t.least ∧ y = -1

instance (t : IntType) (x y : Int) : Decidable (t.Overflows x y) :=
  inferInstanceAs (Decidable (_ ∧ _ ∧ _))

theorem tdiv_eq_truncated (x y : Int) : x.tdiv y = truncated x y := by
  have hmagnitude : x.tdiv y = (x.tdiv y).sign * (x.natAbs / y.natAbs : Nat) := by
    have hdiv : (x.tdiv y).natAbs = x.natAbs / y.natAbs := Int.natAbs_tdiv x y
    rw [← hdiv, Int.sign_mul_natAbs]
  rw [hmagnitude, truncated, Int.sign_tdiv]
  split
  · rename_i hlt
    rw [Nat.div_eq_of_lt hlt]
    simp
  · rfl

/-! ## Ranges -/

variable {t : IntType} {x y : Int}

theorem holds_signed (hsigned : t.signed = true) :
    t.holds x = true ↔
      -(Nat.pow 2 (t.bits - 1) : Nat) ≤ x ∧ x < (Nat.pow 2 (t.bits - 1) : Nat) := by
  simp only [holds, least, greatest, hsigned, if_true, Bool.and_eq_true, decide_eq_true_eq]
  omega

theorem holds_unsigned (hunsigned : t.signed = false) :
    t.holds x = true ↔ 0 ≤ x ∧ x < (Nat.pow 2 t.bits : Nat) := by
  simp only [holds, least, greatest, hunsigned, Bool.false_eq_true, if_false, Bool.and_eq_true,
    decide_eq_true_eq]
  omega

/-- Two to the width is twice two to the width less one. -/
theorem pow_bits (hwidth : 0 < t.bits) : Nat.pow 2 t.bits = 2 * Nat.pow 2 (t.bits - 1) := by
  obtain ⟨n, hn⟩ : ∃ n, t.bits = n + 1 := ⟨t.bits - 1, by omega⟩
  rw [hn, Nat.add_sub_cancel]
  exact Nat.pow_succ'

/-- A number between zero and a number of the type is of the type. -/
theorem holds_of_between {z : Int} (hx : t.holds x = true)
    (hz : (0 ≤ z ∧ z ≤ x) ∨ (x ≤ z ∧ z ≤ 0)) : t.holds z = true := by
  have hbits : 0 < Nat.pow 2 t.bits := Nat.two_pow_pos _
  have hless : 0 < Nat.pow 2 (t.bits - 1) := Nat.two_pow_pos _
  cases hsigned : t.signed with
  | true =>
    rw [holds_signed hsigned] at *
    omega
  | false =>
    rw [holds_unsigned hsigned] at *
    omega

/-! ## Wrapping -/

theorem wrap_emod (t : IntType) (x : Int) :
    t.wrap x % (Nat.pow 2 t.bits : Nat) = x % (Nat.pow 2 t.bits : Nat) := by
  rw [wrap]
  split
  · exact Int.bmod_emod
  · exact Int.emod_emod_of_dvd x (Int.dvd_refl _)

theorem holds_wrap (hwidth : 0 < t.bits) (x : Int) : t.holds (t.wrap x) = true := by
  have hdouble := pow_bits hwidth
  have hpos : 0 < Nat.pow 2 t.bits := Nat.two_pow_pos _
  cases hsigned : t.signed with
  | true =>
    rw [holds_signed hsigned, wrap, if_pos hsigned]
    have hlow := @Int.le_bmod x (Nat.pow 2 t.bits) hpos
    have hhigh := @Int.bmod_lt x (Nat.pow 2 t.bits) hpos
    omega
  | false =>
    rw [holds_unsigned hsigned, wrap, if_neg (by simp [hsigned])]
    have hlow := Int.emod_nonneg x (b := (Nat.pow 2 t.bits : Nat)) (by omega)
    have hhigh := Int.emod_lt_of_pos x (b := (Nat.pow 2 t.bits : Nat)) (by omega)
    omega

theorem wrap_of_holds (hwidth : 0 < t.bits) (hx : t.holds x = true) : t.wrap x = x := by
  have hdouble := pow_bits hwidth
  have hpos : 0 < Nat.pow 2 t.bits := Nat.two_pow_pos _
  cases hsigned : t.signed with
  | true =>
    rw [holds_signed hsigned] at hx
    rw [wrap, if_pos hsigned]
    exact Int.bmod_eq_of_le (by omega) (by omega)
  | false =>
    rw [holds_unsigned hsigned] at hx
    rw [wrap, if_neg (by simp [hsigned])]
    exact Int.emod_eq_of_lt (by omega) (by omega)

/-! ## Quotients and remainders -/

/-- The remainder lies between zero and the dividend. -/
theorem tmod_between (x y : Int) :
    (0 ≤ x.tmod y ∧ x.tmod y ≤ x) ∨ (x ≤ x.tmod y ∧ x.tmod y ≤ 0) := by
  have hle : (x.tmod y).natAbs ≤ x.natAbs := by
    rw [Int.natAbs_tmod]
    exact Nat.mod_le _ _
  rcases Int.le_total 0 x with hx | hx
  · have := Int.tmod_nonneg y hx
    omega
  · have := Int.tmod_nonneg y (Int.neg_nonneg_of_nonpos hx)
    rw [Int.neg_tmod] at this
    omega

theorem holds_tmod (hx : t.holds x = true) (y : Int) : t.holds (x.tmod y) = true :=
  holds_of_between hx (tmod_between x y)

/-- The quotient of two numbers of the type is one again, but for the one that overflows. -/
theorem holds_tdiv (hx : t.holds x = true) (hy : t.holds y = true)
    (hfits : ¬ t.Overflows x y) : t.holds (x.tdiv y) = true := by
  have hle : (x.tdiv y).natAbs ≤ x.natAbs := Int.natAbs_tdiv_le_natAbs x y
  by_cases hsides : 0 ≤ x ∧ x.tdiv y < 0 ∨ x < 0 ∧ 0 < x.tdiv y
  · -- the quotient is across zero from the dividend, so the divisor is negative
    have hneg : y < 0 := by
      rcases Int.lt_or_le y 0 with hneg | hnonneg
      · exact hneg
      · rcases hsides with ⟨hx0, hq⟩ | ⟨hx0, hq⟩
        · have := Int.tdiv_nonneg hx0 hnonneg
          omega
        · have := Int.tdiv_nonneg (a := -x) (by omega) hnonneg
          rw [Int.neg_tdiv] at this
          omega
    have hsigned : t.signed = true := by
      cases hsigned : t.signed with
      | true => rfl
      | false =>
        rw [holds_unsigned hsigned] at hy
        omega
    rw [holds_signed hsigned] at *
    -- only the least number could have a quotient as far from zero as itself
    have hless : x.natAbs = Nat.pow 2 (t.bits - 1) → (x.tdiv y).natAbs < x.natAbs := by
      intro hfar
      have hminus : y ≠ -1 := by
        intro hy1
        exact hfits ⟨hsigned, by rw [least, if_pos hsigned]; omega, hy1⟩
      have hpos : 0 < Nat.pow 2 (t.bits - 1) := Nat.two_pow_pos _
      rw [Int.natAbs_tdiv]
      exact Nat.div_lt_self (by omega) (by omega)
    omega
  · exact holds_of_between hx (by omega)

/-- In the case that overflows the quotient is the least number again. -/
theorem wrap_tdiv_of_overflows (hwidth : 0 < t.bits) (hover : t.Overflows x y) :
    t.wrap (x.tdiv y) = t.least ∧ x.tdiv y ≠ t.least := by
  obtain ⟨hsigned, rfl, rfl⟩ := hover
  have hdouble := pow_bits hwidth
  have hpos : 0 < Nat.pow 2 (t.bits - 1) := Nat.two_pow_pos _
  have hquotient : t.least.tdiv (-1) = Nat.pow 2 (t.bits - 1) := by
    rw [Int.tdiv_neg, Int.tdiv_one, least, if_pos hsigned, Int.neg_neg]
  have hleast : t.least = -(Nat.pow 2 (t.bits - 1) : Nat) := by
    rw [least, if_pos hsigned]
  refine ⟨?_, by omega⟩
  -- one turn of two to the width below the quotient
  have hturn : t.least.tdiv (-1) = t.least + (Nat.pow 2 t.bits : Nat) := by omega
  rw [hturn, wrap, if_pos hsigned, Int.add_bmod_right]
  exact Int.bmod_eq_of_le (by omega) (by omega)

/-- Dividing numbers of a type fails for a zero divisor and for nothing else.  Otherwise
quotient and remainder are numbers of the type that satisfy the division identity modulo
two to the width, and the quotient is the truncated one but for the least number over
minus one. -/
theorem division_within_width (t : IntType) (hwidth : 0 < t.bits) (x y : Int)
    (hx : t.holds x = true) (hy : t.holds y = true) :
    (∀ e, t.div x y = .error e ↔ y = 0 ∧ e = .divideByZero) ∧
    (∀ e, t.rem x y = .error e ↔ y = 0 ∧ e = .divideByZero) ∧
    (y ≠ 0 → ∃ q r, t.div x y = .ok q ∧ t.rem x y = .ok r ∧
      t.holds q = true ∧ t.holds r = true ∧
      (q * y + r) % (Nat.pow 2 t.bits : Nat) = x % (Nat.pow 2 t.bits : Nat) ∧
      r.natAbs < y.natAbs ∧ (r = 0 ∨ r.sign = x.sign) ∧
      (q = truncated x y ↔ ¬ t.Overflows x y) ∧
      (t.Overflows x y → q = t.least ∧ r = 0)) := by
  refine ⟨?_, ?_, ?_⟩
  · intro e
    rw [div]
    split <;> rename_i hy0 <;> simp [hy0, @eq_comm Fault]
  · intro e
    rw [rem]
    split <;> rename_i hy0 <;> simp [hy0, @eq_comm Fault]
  intro hy0
  have hr : t.wrap (x.tmod y) = x.tmod y := wrap_of_holds hwidth (holds_tmod hx y)
  refine ⟨t.wrap (x.tdiv y), x.tmod y, by rw [div, if_neg hy0], by rw [rem, if_neg hy0, hr],
    holds_wrap hwidth _, holds_tmod hx y, ?_, ?_, ?_, ⟨?_, ?_⟩, ?_⟩
  · rw [Int.add_emod, Int.mul_emod, wrap_emod, ← Int.mul_emod, ← Int.add_emod,
      Int.tdiv_mul_add_tmod]
  · rw [Int.natAbs_tmod]
    exact Nat.mod_lt _ (by omega)
  · have hbetween := tmod_between x y
    rcases Int.lt_trichotomy (x.tmod y) 0 with hneg | hzero | hpos
    · exact .inr (by rw [Int.sign_eq_neg_one_of_neg hneg, Int.sign_eq_neg_one_of_neg (by omega)])
    · exact .inl hzero
    · exact .inr (by rw [Int.sign_eq_one_of_pos hpos, Int.sign_eq_one_of_pos (by omega)])
  · intro hq hover
    have hwrapped := wrap_tdiv_of_overflows hwidth hover
    rw [← tdiv_eq_truncated] at hq
    exact hwrapped.2 (hq.symm.trans hwrapped.1)
  · intro hfits
    rw [wrap_of_holds hwidth (holds_tdiv hx hy hfits), tdiv_eq_truncated]
  · intro hover
    refine ⟨(wrap_tdiv_of_overflows hwidth hover).1, ?_⟩
    rw [hover.2.2, Int.tmod_neg, Int.tmod_one]

/-- The least number of eight bits over minus one is the least number again. -/
theorem division_within_width_least :
    IntType.holds ⟨8, true⟩ (-128) = true ∧ IntType.holds ⟨8, true⟩ (-1) = true ∧
    ∃ q r, IntType.div ⟨8, true⟩ (-128) (-1) = .ok q ∧ IntType.rem ⟨8, true⟩ (-128) (-1) = .ok r ∧
      q = -128 ∧ r = 0 := by
  obtain ⟨q, r, hdiv, hrem, -, -, -, -, -, -, hover⟩ :=
    (division_within_width ⟨8, true⟩ (by decide) (-128) (-1) (by decide) (by decide)).2.2
      (by decide)
  exact ⟨by decide, by decide, q, r, hdiv, hrem, hover (by decide)⟩

end Substrate.IntType
