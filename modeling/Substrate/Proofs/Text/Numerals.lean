import Substrate.Text.Blank
import Substrate.Text.Decimal

/-!
# Which texts are numbers

What trimming leaves (`Trims`), which texts are numerals (`Numeral`) and why any
other text is refused (`Refusal`), each said without the reader.  The reader
adds digits up from the left and stops at the first character it cannot use:
`addDigits_append` takes it past digits that stay in the range, and
`exists_stop` says where it stops.
-/

namespace Substrate.Text

/-! ## Trimming -/

/-- `core` is `s` less the blanks at its ends. -/
structure Trims (s core : List Char) : Prop where
  /-- Only blanks are cut off. -/
  cut : ∃ lead trail, s = lead ++ core ++ trail ∧
    (∀ c ∈ lead, isBlank c = true) ∧ ∀ c ∈ trail, isBlank c = true
  /-- What is left does not start with a blank. -/
  first : ∀ c, core.head? = some c → isBlank c = false
  /-- What is left does not end with a blank. -/
  last : ∀ c, core.getLast? = some c → isBlank c = false

theorem trimLeft_append {lead rest : List Char} (hlead : ∀ c ∈ lead, isBlank c = true)
    (hrest : ∀ c, rest.head? = some c → isBlank c = false) : trimLeft (lead ++ rest) = rest := by
  rw [trimLeft, List.dropWhile_append_of_pos hlead]
  cases rest with
  | nil => rfl
  | cons c rest => rw [List.dropWhile_cons_of_neg (by simp [hrest c rfl])]

theorem trimRight_eq (s : List Char) : trimRight s = (trimLeft s.reverse).reverse := rfl

theorem trimRight_append {rest trail : List Char} (htrail : ∀ c ∈ trail, isBlank c = true)
    (hrest : ∀ c, rest.getLast? = some c → isBlank c = false) :
    trimRight (rest ++ trail) = rest := by
  rw [trimRight_eq, List.reverse_append, trimLeft_append, List.reverse_reverse]
  · simpa using htrail
  · simpa using hrest

/-- Trimming on the left cuts blanks off and leaves no blank in front. -/
theorem trimLeft_spec (s : List Char) :
    (∃ lead, s = lead ++ trimLeft s ∧ ∀ c ∈ lead, isBlank c = true) ∧
    ∀ c, (trimLeft s).head? = some c → isBlank c = false := by
  refine ⟨⟨s.takeWhile isBlank, List.takeWhile_append_dropWhile.symm, ?_⟩, ?_⟩
  · exact List.all_eq_true.mp List.all_takeWhile
  · intro c hc
    have hfirst := List.head?_dropWhile_not isBlank s
    rw [trimLeft] at hc
    rw [hc] at hfirst
    exact hfirst

theorem trims_trim (s : List Char) : Trims s (trim s) := by
  obtain ⟨⟨lead, hlead, hblank⟩, hfirst⟩ := trimLeft_spec s
  obtain ⟨⟨trail, htrail, hblank'⟩, hlast⟩ := trimLeft_spec (trimLeft s).reverse
  have hsplit : trimLeft s = trim s ++ trail.reverse := by
    rw [trim, trimRight_eq, ← List.reverse_append, ← htrail, List.reverse_reverse]
  refine ⟨⟨lead, trail.reverse, ?_, hblank, by simpa using hblank'⟩, ?_, ?_⟩
  · rw [List.append_assoc, ← hsplit]
    exact hlead
  · intro c hc
    exact hfirst c (by rw [hsplit, List.head?_append, hc]; rfl)
  · intro c hc
    rw [trim, trimRight_eq, List.getLast?_reverse] at hc
    exact hlast c hc

theorem Trims.eq_trim {s core : List Char} (h : Trims s core) : core = trim s := by
  obtain ⟨⟨lead, trail, rfl, hlead, htrail⟩, hfirst, hlast⟩ := h
  cases core with
  | nil =>
    -- nothing but blanks, so all is cut off on the left
    have hall : ∀ c ∈ lead ++ trail, isBlank c = true := fun c hc =>
      (List.mem_append.mp hc).elim (hlead c) (htrail c)
    have hnothing : trimLeft (lead ++ trail ++ []) = [] := trimLeft_append hall (by simp)
    rw [List.append_nil] at hnothing
    rw [List.append_nil, trim, hnothing]
    rfl
  | cons c core =>
    rw [trim, List.append_assoc, trimLeft_append hlead (by simpa using hfirst),
      trimRight_append htrail hlast]

theorem trims_iff {s core : List Char} : Trims s core ↔ core = trim s :=
  ⟨Trims.eq_trim, fun h => h ▸ trims_trim s⟩

/-- Nothing is left exactly of a text of blanks. -/
theorem trim_eq_nil_iff {s : List Char} : trim s = [] ↔ ∀ c ∈ s, isBlank c = true := by
  constructor
  · intro hnil
    obtain ⟨lead, trail, hs, hlead, htrail⟩ := (trims_trim s).cut
    rw [hnil, List.append_nil] at hs
    intro c hc
    rw [hs] at hc
    exact (List.mem_append.mp hc).elim (hlead c) (htrail c)
  · intro hall
    exact (Trims.eq_trim ⟨⟨s, [], by simp, hall, by simp⟩, by simp, by simp⟩).symm

/-! ## Numerals -/

/-- The ASCII digits. -/
def IsDigit (c : Char) : Prop := '0' ≤ c ∧ c ≤ '9'

/-- What a digit stands for. -/
def digit (c : Char) : Nat := c.toNat - '0'.toNat

/-- What digits in a row stand for: each is worth ten times as much as the next. -/
def value : List Char → Nat
  | [] => 0
  | c :: rest => digit c * Nat.pow 10 rest.length + value rest

/-- An optional plus sign and at least one digit, which stand for `n`. -/
def Numeral (s : List Char) (n : Nat) : Prop :=
  ∃ digits, (s = digits ∨ s = '+' :: digits) ∧ digits ≠ [] ∧ (∀ c ∈ digits, IsDigit c) ∧
    n = value digits

/-- The text behind a plus sign, or all of it if there is none. -/
def unsigned : List Char → List Char
  | '+' :: rest => rest
  | s => s

/-- A character other than a digit comes before the digits leave the range. -/
def Stray (limit : Nat) (s : List Char) : Prop :=
  ∃ before c after, s = before ++ c :: after ∧ (∀ d ∈ before, IsDigit d) ∧ ¬ IsDigit c ∧
    value before ≤ limit

/-- Why a text is refused as a number up to `limit`. -/
def Refusal (limit : Nat) (s : List Char) : NumberError → Prop
  | .empty => s = []
  | .invalidDigit => s ≠ [] ∧ (unsigned s = [] ∨ Stray limit (unsigned s))
  | .tooLarge => s ≠ [] ∧ ¬ (unsigned s = [] ∨ Stray limit (unsigned s)) ∧
      ¬ ∃ n, Numeral s n ∧ n ≤ limit
  | .tooSmall => False

theorem digitValue?_of_isDigit {c : Char} (h : IsDigit c) : digitValue? c = some (digit c) :=
  if_pos h

theorem digitValue?_of_not_isDigit {c : Char} (h : ¬ IsDigit c) : digitValue? c = none :=
  if_neg h

/-- A digit in front of `rest` adds to what came before it. -/
theorem value_from_cons (acc : Nat) (c : Char) (rest : List Char) :
    acc * Nat.pow 10 (c :: rest).length + value (c :: rest) =
      (10 * acc + digit c) * Nat.pow 10 rest.length + value rest := by
  have hpow : Nat.pow 10 (c :: rest).length = 10 * Nat.pow 10 rest.length := Nat.pow_succ'
  rw [hpow, value, Nat.add_mul, Nat.mul_left_comm, Nat.mul_assoc, Nat.add_assoc]

theorem le_value_from (acc : Nat) (s : List Char) : acc ≤ acc * Nat.pow 10 s.length + value s :=
  Nat.le_trans (Nat.le_mul_of_pos_right acc (Nat.pow_pos (by decide))) (Nat.le_add_right _ _)

/-- The reader goes past digits that stay in the range. -/
theorem addDigits_append {limit : Nat} {excess : NumberError} {before : List Char}
    (rest : List Char)
    (hdigits : ∀ c ∈ before, IsDigit c) :
    ∀ {acc : Nat}, acc * Nat.pow 10 before.length + value before ≤ limit →
      addDigits limit excess acc (before ++ rest) =
        addDigits limit excess (acc * Nat.pow 10 before.length + value before) rest := by
  induction before with
  | nil =>
    intro acc _
    simp [value]
  | cons c before ih =>
    intro acc hle
    rw [value_from_cons] at hle
    have hfits : 10 * acc + digit c ≤ limit := Nat.le_trans (le_value_from _ before) hle
    rw [value_from_cons, List.cons_append, addDigits,
      digitValue?_of_isDigit (hdigits c List.mem_cons_self)]
    dsimp only
    rw [if_pos hfits]
    exact ih (fun d hd => hdigits d (List.mem_cons_of_mem _ hd)) hle

/-- The reader stops behind digits that stay in the range: at the end, or before a character
that is no digit or takes the number out of the range. -/
theorem exists_stop (limit : Nat) (s : List Char) :
    ∀ {acc : Nat}, acc ≤ limit → ∃ before after, s = before ++ after ∧
      (∀ c ∈ before, IsDigit c) ∧ acc * Nat.pow 10 before.length + value before ≤ limit ∧
      ∀ c rest, after = c :: rest → IsDigit c →
        limit < 10 * (acc * Nat.pow 10 before.length + value before) + digit c := by
  induction s with
  | nil =>
    intro acc hacc
    exact ⟨[], [], rfl, by simp, by simpa [value, Nat.pow] using hacc, by simp⟩
  | cons c s ih =>
    intro acc hacc
    by_cases hgo : IsDigit c ∧ 10 * acc + digit c ≤ limit
    · obtain ⟨before, after, hs, hdigits, hle, hstop⟩ := ih hgo.2
      refine ⟨c :: before, after, by rw [hs, List.cons_append], ?_, ?_, ?_⟩
      · intro d hd
        rcases List.mem_cons.mp hd with rfl | hd
        · exact hgo.1
        · exact hdigits d hd
      · rw [value_from_cons]
        exact hle
      · rw [value_from_cons]
        exact hstop
    · refine ⟨[], c :: s, rfl, by simp, by simpa [value, Nat.pow] using hacc, ?_⟩
      intro d rest heq hd
      cases heq
      have hnot : ¬ 10 * acc + digit c ≤ limit := fun hle => hgo ⟨hd, hle⟩
      simpa [value, Nat.pow] using hnot

theorem addDigits_of_digits {limit : Nat} {excess : NumberError} {s : List Char}
    (hdigits : ∀ c ∈ s, IsDigit c) (hle : value s ≤ limit) :
    addDigits limit excess 0 s = .ok (value s) := by
  have hpast : addDigits limit excess 0 (s ++ []) = _ :=
    addDigits_append [] hdigits (by simpa using hle)
  simpa [addDigits] using hpast

theorem addDigits_of_stray {limit : Nat} {excess : NumberError} {s : List Char}
    (h : Stray limit s) : addDigits limit excess 0 s = .error .invalidDigit := by
  obtain ⟨before, c, after, rfl, hdigits, hc, hle⟩ := h
  rw [addDigits_append _ hdigits (by simpa using hle), addDigits, digitValue?_of_not_isDigit hc]

/-- Digits in the range are added up, a stray character is reported, and all else is too much. -/
theorem addDigits_cases (limit : Nat) (excess : NumberError) (s : List Char) :
    ((∀ c ∈ s, IsDigit c) ∧ value s ≤ limit) ∨ Stray limit s ∨
      addDigits limit excess 0 s = .error excess := by
  obtain ⟨before, after, rfl, hdigits, hle, hstop⟩ := exists_stop limit s (Nat.zero_le limit)
  rw [Nat.zero_mul, Nat.zero_add] at hle hstop
  cases after with
  | nil => exact .inl (by simpa using ⟨hdigits, hle⟩)
  | cons c rest =>
    by_cases hc : IsDigit c
    · refine .inr (.inr ?_)
      rw [addDigits_append _ hdigits (by simpa using hle), addDigits, digitValue?_of_isDigit hc]
      exact if_neg (by simpa using hstop c rest rfl hc)
    · exact .inr (.inl ⟨before, c, rest, rfl, hdigits, hc, hle⟩)

/-! ## The reader -/

theorem unsigned_of_isDigit {s : List Char} (h : ∀ c ∈ s, IsDigit c) : unsigned s = s := by
  rw [unsigned.eq_def]
  split
  · exact absurd (h '+' List.mem_cons_self) (by unfold IsDigit; decide)
  · rfl

theorem numeral_iff {s : List Char} {n : Nat} :
    Numeral s n ↔ unsigned s ≠ [] ∧ (∀ c ∈ unsigned s, IsDigit c) ∧ n = value (unsigned s) := by
  constructor
  · rintro ⟨digits, rfl | rfl, hne, hdigits, hn⟩
    · rw [unsigned_of_isDigit hdigits]
      exact ⟨hne, hdigits, hn⟩
    · exact ⟨hne, hdigits, hn⟩
  · rintro ⟨hne, hdigits, hn⟩
    refine ⟨unsigned s, ?_, hne, hdigits, hn⟩
    rw [unsigned.eq_def]
    split
    · exact .inr rfl
    · exact .inl rfl

theorem readNat_eq {s : List Char} (hne : s ≠ []) (limit : Nat) :
    readNat limit s = readDigits limit .tooLarge (unsigned s) := by
  rw [readNat.eq_def, unsigned.eq_def]
  split
  · exact absurd rfl hne
  · rfl
  · rename_i hplus
    split
    · exact absurd rfl (hplus _)
    · rfl

theorem readNat_of_numeral {limit n : Nat} {s : List Char} (h : Numeral s n) (hle : n ≤ limit) :
    readNat limit s = .ok n := by
  obtain ⟨hne, hdigits, rfl⟩ := numeral_iff.mp h
  have hs : s ≠ [] := by
    rintro rfl
    exact hne rfl
  rw [readNat_eq hs, readDigits, if_neg (by simpa using hne), addDigits_of_digits hdigits hle]

theorem readNat_of_refusal {limit : Nat} {s : List Char} {e : NumberError} (h : Refusal limit s e) :
    readNat limit s = .error e := by
  cases e with
  | empty =>
    cases (show s = [] from h)
    rfl
  | invalidDigit =>
    obtain ⟨hne, hbad⟩ := h
    rw [readNat_eq hne, readDigits]
    split
    · rfl
    · rename_i hdigits
      exact addDigits_of_stray (hbad.resolve_left (by simpa using hdigits))
  | tooLarge =>
    obtain ⟨hne, hgood, hnone⟩ := h
    rw [not_or] at hgood
    rw [readNat_eq hne, readDigits, if_neg (by simpa using hgood.1)]
    rcases addDigits_cases limit .tooLarge (unsigned s) with ⟨hdigits, hle⟩ | hstray | hexcess
    · exact absurd ⟨_, numeral_iff.mpr ⟨hgood.1, hdigits, rfl⟩, hle⟩ hnone
    · exact absurd hstray hgood.2
    · exact hexcess
  | tooSmall => exact h.elim

/-- A text is a numeral in the range or refused for one of the reasons. -/
theorem numeral_or_refusal (limit : Nat) (s : List Char) :
    (∃ n, Numeral s n ∧ n ≤ limit) ∨ ∃ e, Refusal limit s e := by
  by_cases hnumeral : ∃ n, Numeral s n ∧ n ≤ limit
  · exact .inl hnumeral
  · refine .inr ?_
    by_cases hne : s = []
    · exact ⟨.empty, hne⟩
    · by_cases hbad : unsigned s = [] ∨ Stray limit (unsigned s)
      · exact ⟨.invalidDigit, hne, hbad⟩
      · exact ⟨.tooLarge, hne, hbad, hnumeral⟩

theorem readNat_eq_ok_iff {limit n : Nat} {s : List Char} :
    readNat limit s = .ok n ↔ Numeral s n ∧ n ≤ limit := by
  refine ⟨fun hread => ?_, fun h => readNat_of_numeral h.1 h.2⟩
  rcases numeral_or_refusal limit s with ⟨m, hm, hle⟩ | ⟨e, he⟩
  · rw [readNat_of_numeral hm hle] at hread
    cases hread
    exact ⟨hm, hle⟩
  · rw [readNat_of_refusal he] at hread
    cases hread

theorem readNat_eq_error_iff {limit : Nat} {s : List Char} {e : NumberError} :
    readNat limit s = .error e ↔ Refusal limit s e := by
  refine ⟨fun hread => ?_, readNat_of_refusal⟩
  rcases numeral_or_refusal limit s with ⟨m, hm, hle⟩ | ⟨e', he'⟩
  · rw [readNat_of_numeral hm hle] at hread
    cases hread
  · rw [readNat_of_refusal he'] at hread
    cases hread
    exact he'

end Substrate.Text
