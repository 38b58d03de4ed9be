import Substrate.Proofs.Bytes.Joining

/-!
# Decoding byte strings

What the decoder makes of any bytes, and what it makes of joined strings.

* `Text.Lossy` is the rule of lossy decoding, said of the bytes alone: a character is
  taken where one stands, and elsewhere the longest start of a character, or one byte if
  there is none, becomes a replacement character.
* `Text.lossy_decodeFrom`: the decoder follows the rule on all bytes.
* `Text.decodeFrom_encode`: behind the bytes of a text it starts afresh, so decoding
  gives back what was encoded and splits at the end of a text.
-/

namespace Substrate

open View (Memory Window sizeLimit)

namespace Text

/-! ## The rule -/

/-- Bytes that are UTF-8 throughout: those of some text. -/
def WellFormed (bytes : List UInt8) : Prop := ∃ s : String, bytes = encode s

/-- Some character has bytes that begin like this. -/
def Begins (bytes : List UInt8) : Prop := ∃ c, bytes <+: String.utf8EncodeChar c

/-- `stretch` is what one replacement character stands for, with `rest` behind it: no
character stands there, and it is the longest start of a character, or one byte. -/
structure Broken (stretch rest : List UInt8) : Prop where
  no_char : ∀ c, ¬ String.utf8EncodeChar c <+: stretch ++ rest
  start : Begins stretch ∨ ∃ b, stretch = [b]
  nonempty : stretch ≠ []
  longest : ∀ b more, rest = b :: more → ¬ Begins (stretch ++ [b])

/-- Decoding with replacement characters. -/
inductive Lossy : List UInt8 → List Char → Prop
  | nil : Lossy [] []
  | char (c : Char) {rest : List UInt8} {out : List Char} (h : Lossy rest out) :
      Lossy (String.utf8EncodeChar c ++ rest) (c :: out)
  | broken {stretch rest : List UInt8} {out : List Char} (hbroken : Broken stretch rest)
      (h : Lossy rest out) : Lossy (stretch ++ rest) (replacement :: out)

/-! ## The bytes of a character -/

/-- What a first byte tells: it is a character, or the number in its low bits starts one of two,
three or four bytes, or no character starts with it. -/
theorem firstByte_cases (b : UInt8) :
    (b.toNat < 0x80 ∧ firstByte b = ([Char.ofNat b.toNat], .start)) ∨
    (∃ n, 2 ≤ n ∧ n < 0x20 ∧ b.toNat = 0xC0 + n ∧ firstByte b = ([], .inside n 1 0x80 0xBF)) ∨
    (∃ n, n < 0x10 ∧ b.toNat = 0xE0 + n ∧ firstByte b =
      ([], .inside n 2 (if n = 0 then 0xA0 else 0x80) (if n = 0xD then 0x9F else 0xBF))) ∨
    (∃ n, n < 5 ∧ b.toNat = 0xF0 + n ∧ firstByte b =
      ([], .inside n 3 (if n = 0 then 0x90 else 0x80) (if n = 4 then 0x8F else 0xBF))) ∨
    ((0x80 ≤ b.toNat ∧ b.toNat < 0xC2 ∨ 0xF5 ≤ b.toNat) ∧
      firstByte b = ([replacement], .start)) := by
  have hfirst : firstByte b =
      if b.toNat < 0x80 then ([Char.ofNat b.toNat], .start)
      else if 0xC2 ≤ b.toNat ∧ b.toNat ≤ 0xDF then ([], .inside (b.toNat - 0xC0) 1 0x80 0xBF)
      else if b.toNat = 0xE0 then ([], .inside 0 2 0xA0 0xBF)
      else if b.toNat = 0xED then ([], .inside 0xD 2 0x80 0x9F)
      else if 0xE1 ≤ b.toNat ∧ b.toNat ≤ 0xEF then ([], .inside (b.toNat - 0xE0) 2 0x80 0xBF)
      else if b.toNat = 0xF0 then ([], .inside 0 3 0x90 0xBF)
      else if 0xF1 ≤ b.toNat ∧ b.toNat ≤ 0xF3 then ([], .inside (b.toNat - 0xF0) 3 0x80 0xBF)
      else if b.toNat = 0xF4 then ([], .inside 4 3 0x80 0x8F)
      else ([replacement], .start) := by
    simp only [firstByte, UInt8.lt_iff_toNat_lt, UInt8.le_iff_toNat_le, beq_iff_eq,
      Bool.and_eq_true, decide_eq_true_eq, ← UInt8.toNat_inj]
    rfl
  rw [hfirst]
  split
  · rename_i h
    exact .inl ⟨h, rfl⟩
  refine .inr ?_
  split
  · exact .inl ⟨b.toNat - 0xC0, by omega, by omega, by omega, rfl⟩
  refine .inr ?_
  split
  · exact .inl ⟨0, by omega, by omega, rfl⟩
  split
  · exact .inl ⟨0xD, by omega, by omega, rfl⟩
  split
  · refine .inl ⟨b.toNat - 0xE0, by omega, by omega, ?_⟩
    rw [if_neg (by omega), if_neg (by omega)]
  refine .inr ?_
  split
  · exact .inl ⟨0, by omega, by omega, rfl⟩
  split
  · refine .inl ⟨b.toNat - 0xF0, by omega, by omega, ?_⟩
    rw [if_neg (by omega), if_neg (by omega)]
  split
  · exact .inl ⟨4, by omega, by omega, rfl⟩
  · exact .inr ⟨by omega, rfl⟩

/-- The bytes that complete a character of which `left` are missing, the next of them
between `low` and `high`. -/
def Fits (low high : UInt8) : Nat → List UInt8 → Prop
  | 0, bytes => bytes = []
  | _ + 1, [] => False
  | left + 1, b :: bytes => (low ≤ b ∧ b ≤ high) ∧ Fits 0x80 0xBF left bytes

/-- The bits of a character, from those read and the bytes that complete it. -/
def joinBits (bits : Nat) (bytes : List UInt8) : Nat :=
  bytes.foldl (fun bits b => 64 * bits + (b.toNat - 0x80)) bits

theorem joinBits_cons (bits : Nat) (b : UInt8) (bytes : List UInt8) :
    joinBits bits (b :: bytes) = joinBits (joinBits bits [b]) bytes := by
  rw [joinBits, joinBits, joinBits, List.foldl_cons, List.foldl_cons, List.foldl_nil]

theorem firstByte_two {b : UInt8} {n : Nat} (hn : 2 ≤ n ∧ n < 0x20) (hb : b.toNat = 0xC0 + n) :
    firstByte b = ([], .inside n 1 0x80 0xBF) := by
  rcases firstByte_cases b with ⟨h, -⟩ | ⟨n', -, -, h, hfirst⟩ | ⟨n', -, h, -⟩ |
    ⟨n', -, h, -⟩ | ⟨h, -⟩
  case inr.inl =>
    obtain rfl : n' = n := by omega
    exact hfirst
  all_goals omega

theorem firstByte_three {b : UInt8} {n : Nat} (hn : n < 0x10) (hb : b.toNat = 0xE0 + n) :
    firstByte b =
    ([], .inside n 2 (if n = 0 then 0xA0 else 0x80) (if n = 0xD then 0x9F else 0xBF)) := by
  rcases firstByte_cases b with ⟨h, -⟩ | ⟨n', -, hn', h, -⟩ | ⟨n', -, h, hfirst⟩ |
    ⟨n', -, h, -⟩ | ⟨h, -⟩
  case inr.inr.inl =>
    obtain rfl : n' = n := by omega
    exact hfirst
  all_goals omega

theorem firstByte_four {b : UInt8} {n : Nat} (hn : n < 5) (hb : b.toNat = 0xF0 + n) : firstByte b =
    ([], .inside n 3 (if n = 0 then 0x90 else 0x80) (if n = 4 then 0x8F else 0xBF)) := by
  rcases firstByte_cases b with ⟨h, -⟩ | ⟨n', -, hn', h, -⟩ | ⟨n', hn', h, -⟩ |
    ⟨n', -, h, hfirst⟩ | ⟨h, -⟩
  case inr.inr.inr.inl =>
    obtain rfl : n' = n := by omega
    exact hfirst
  all_goals omega

/-- A byte behind the first carries six bits. -/
theorem fits_tail (n : Nat) : (0x80 : UInt8) ≤ UInt8.ofNat (n % 64 + 128) ∧
    UInt8.ofNat (n % 64 + 128) ≤ 0xBF := by
  rw [UInt8.le_iff_toNat_le, UInt8.le_iff_toNat_le, UInt8.toNat_ofNat']
  show 0x80 ≤ _ ∧ _ ≤ 0xBF
  omega

theorem toNat_tail (n : Nat) : (UInt8.ofNat (n % 64 + 128)).toNat - 0x80 = n % 64 := by
  rw [UInt8.toNat_ofNat']
  omega

/-- The first byte of a character tells how the others have to look. -/
theorem utf8EncodeChar_cases (c : Char) :
    (∃ b, String.utf8EncodeChar c = [b] ∧ firstByte b = ([c], .start)) ∨
    ∃ b bits left low high tail, String.utf8EncodeChar c = b :: tail ∧
      firstByte b = ([], .inside bits (left + 1) low high) ∧ Fits low high (left + 1) tail ∧
      Char.ofNat (joinBits bits tail) = c := by
  have hvalid : c.val.toNat < 0xD800 ∨ 0xDFFF < c.val.toNat ∧ c.val.toNat < 0x110000 := c.valid
  have hchar : Char.ofNat c.val.toNat = c := Char.ofNat_toNat c
  unfold String.utf8EncodeChar
  dsimp only
  generalize c.val.toNat = v at hvalid hchar
  subst hchar
  split
  · refine .inl ⟨_, rfl, ?_⟩
    have hv : (UInt8.ofNat v).toNat = v := UInt8.toNat_ofNat'.trans (by omega)
    rcases firstByte_cases (UInt8.ofNat v) with ⟨h, hfirst⟩ | ⟨n, -, -, h, -⟩ | ⟨n, -, h, -⟩ |
      ⟨n, -, h, -⟩ | ⟨h, -⟩
    · rw [hfirst, hv]
    all_goals omega
  refine .inr ?_
  split
  · refine ⟨_, v / 64, 0, _, _, _, rfl, firstByte_two (by omega) ?_, ⟨fits_tail v, rfl⟩, ?_⟩
    · rw [UInt8.toNat_ofNat']
      omega
    · rw [joinBits, List.foldl_cons, List.foldl_nil, toNat_tail]
      exact congrArg Char.ofNat (by omega)
  split
  · refine ⟨_, v / 4096, 1, _, _, _, rfl, firstByte_three (by omega) ?_, ⟨?_, fits_tail v, rfl⟩, ?_⟩
    · rw [UInt8.toNat_ofNat']
      omega
    · have hsecond := fits_tail (v / 64)
      rw [UInt8.le_iff_toNat_le, UInt8.le_iff_toNat_le, UInt8.toNat_ofNat'] at hsecond ⊢
      split <;> split <;> refine ⟨?_, ?_⟩ <;> simp only [UInt8.reduceToNat] at hsecond ⊢ <;> omega
    · rw [joinBits, List.foldl_cons, List.foldl_cons, List.foldl_nil, toNat_tail, toNat_tail]
      exact congrArg Char.ofNat (by omega)
  · refine ⟨_, v / 262144, 2, _, _, _, rfl, firstByte_four (by omega) ?_,
      ⟨?_, fits_tail (v / 64), fits_tail v, rfl⟩, ?_⟩
    · rw [UInt8.toNat_ofNat']
      omega
    · have hsecond := fits_tail (v / 4096)
      rw [UInt8.le_iff_toNat_le, UInt8.le_iff_toNat_le, UInt8.toNat_ofNat'] at hsecond ⊢
      split <;> split <;> refine ⟨?_, ?_⟩ <;> simp only [UInt8.reduceToNat] at hsecond ⊢ <;> omega
    · rw [joinBits, List.foldl_cons, List.foldl_cons, List.foldl_cons, List.foldl_nil, toNat_tail,
        toNat_tail, toNat_tail]
      exact congrArg Char.ofNat (by omega)

theorem ofNat_eq {b : UInt8} {n : Nat} (h : n % 256 = b.toNat) : UInt8.ofNat n = b :=
  UInt8.toNat_inj.mp (UInt8.toNat_ofNat'.trans h)

/-- The bytes of the character with given bits. -/
theorem utf8EncodeChar_ofNat {n : Nat} (h : n.isValidChar) : String.utf8EncodeChar (Char.ofNat n) =
    if n ≤ 127 then [UInt8.ofNat n]
    else if n ≤ 2047 then [UInt8.ofNat (n / 64 % 32 + 192), UInt8.ofNat (n % 64 + 128)]
    else if n ≤ 65535 then
      [UInt8.ofNat (n / 4096 % 16 + 224), UInt8.ofNat (n / 64 % 64 + 128),
      UInt8.ofNat (n % 64 + 128)]
    else [UInt8.ofNat (n / 262144 % 8 + 240), UInt8.ofNat (n / 4096 % 64 + 128),
      UInt8.ofNat (n / 64 % 64 + 128), UInt8.ofNat (n % 64 + 128)] := by
  have hval : (Char.ofNat n).val.toNat = n := by
    rw [Char.ofNat, dif_pos h]
    rfl
  unfold String.utf8EncodeChar
  dsimp only
  rw [hval]

/-- Bytes that complete a first byte make up a character with it. -/
theorem utf8EncodeChar_joinBits {b : UInt8} {bits left : Nat} {low high : UInt8} {tail : List UInt8}
    (hfirst : firstByte b = ([], .inside bits left low high)) (hfits : Fits low high left tail) :
    String.utf8EncodeChar (Char.ofNat (joinBits bits tail)) = b :: tail := by
  rcases firstByte_cases b with ⟨hb, h⟩ | ⟨n, hn, hn', hb, h⟩ | ⟨n, hn, hb, h⟩ |
    ⟨n, hn, hb, h⟩ | ⟨hb, h⟩ <;>
    rw [hfirst] at h <;> cases h
  · obtain _ | ⟨b₁, _ | ⟨b₂, tail⟩⟩ := tail
    · exact hfits.elim
    · obtain ⟨h₁, -⟩ := hfits
      rw [UInt8.le_iff_toNat_le, UInt8.le_iff_toNat_le] at h₁
      simp only [UInt8.reduceToNat] at h₁
      rw [joinBits, List.foldl_cons, List.foldl_nil, utf8EncodeChar_ofNat (.inl (by omega)),
        if_neg (by omega), if_pos (by omega),
        ofNat_eq (b := b) (by omega), ofNat_eq (b := b₁) (by omega)]
    · cases hfits.2
  · obtain _ | ⟨b₁, _ | ⟨b₂, _ | ⟨b₃, tail⟩⟩⟩ := tail
    · cases hfits
    · cases hfits.2
    · obtain ⟨h₁, h₂, -⟩ := hfits
      rw [UInt8.le_iff_toNat_le, UInt8.le_iff_toNat_le] at h₁ h₂
      have h₁' : (bits = 0 → 0xA0 ≤ b₁.toNat) ∧ 0x80 ≤ b₁.toNat ∧ (bits = 0xD → b₁.toNat ≤ 0x9F) ∧
          b₁.toNat ≤ 0xBF := by
        split at h₁ <;> split at h₁ <;> simp only [UInt8.reduceToNat] at h₁ <;> omega
      simp only [UInt8.reduceToNat] at h₂
      rw [joinBits, List.foldl_cons, List.foldl_cons, List.foldl_nil,
        utf8EncodeChar_ofNat (by show _ ∨ _; omega), if_neg (by omega),
        if_neg (by omega), if_pos (by omega), ofNat_eq (b := b) (by omega),
        ofNat_eq (b := b₁) (by omega),
        ofNat_eq (b := b₂) (by omega)]
    · cases hfits.2.2
  · obtain _ | ⟨b₁, _ | ⟨b₂, _ | ⟨b₃, _ | ⟨b₄, tail⟩⟩⟩⟩ := tail
    · cases hfits
    · cases hfits.2
    · cases hfits.2.2
    · obtain ⟨h₁, h₂, h₃, -⟩ := hfits
      rw [UInt8.le_iff_toNat_le, UInt8.le_iff_toNat_le] at h₁ h₂ h₃
      have h₁' : (bits = 0 → 0x90 ≤ b₁.toNat) ∧ 0x80 ≤ b₁.toNat ∧ (bits = 4 → b₁.toNat ≤ 0x8F) ∧
          b₁.toNat ≤ 0xBF := by
        split at h₁ <;> split at h₁ <;> simp only [UInt8.reduceToNat] at h₁ <;> omega
      simp only [UInt8.reduceToNat] at h₂ h₃
      rw [joinBits, List.foldl_cons, List.foldl_cons, List.foldl_cons, List.foldl_nil,
        utf8EncodeChar_ofNat (by show _ ∨ _; omega), if_neg (by omega),
        if_neg (by omega), if_neg (by omega), ofNat_eq (b := b) (by omega),
        ofNat_eq (b := b₁) (by omega),
        ofNat_eq (b := b₂) (by omega), ofNat_eq (b := b₃) (by omega)]
    · cases hfits.2.2.2

/-! ## The decoder -/

theorem decodeFrom_first (b : UInt8) (rest : List UInt8) :
    decodeFrom .start (b :: rest) = (firstByte b).1 ++ decodeFrom (firstByte b).2 rest := rfl

theorem decodeFrom_fitting {bits left : Nat} {low high b : UInt8} (h : low ≤ b ∧ b ≤ high)
    (rest : List UInt8) : decodeFrom (.inside bits left low high) (b :: rest) =
      if left ≤ 1 then Char.ofNat (joinBits bits [b]) :: decodeFrom .start rest
      else decodeFrom (.inside (joinBits bits [b]) (left - 1) 0x80 0xBF) rest := by
  have hfits : (decide (low ≤ b) && decide (b ≤ high)) = true := by simp [h]
  simp only [decodeFrom, decodeByte, hfits, if_true]
  split <;> rfl

/-- A byte that does not fit is read again as a first byte. -/
theorem decodeFrom_unfitting {bits left : Nat} {low high b : UInt8} (h : ¬ (low ≤ b ∧ b ≤ high))
    (rest : List UInt8) : decodeFrom (.inside bits left low high) (b :: rest) =
      replacement :: decodeFrom .start (b :: rest) := by
  have hfits : (decide (low ≤ b) && decide (b ≤ high)) = false := by
    rw [Bool.and_eq_false_iff, decide_eq_false_iff_not, decide_eq_false_iff_not]
    exact Decidable.not_and_iff_not_or_not.mp h
  simp only [decodeFrom, decodeByte, hfits]
  rfl

/-- The decoder completes a character. -/
theorem decodeFrom_fits {tail : List UInt8} (rest : List UInt8) :
    ∀ {bits left : Nat} {low high : UInt8},
    Fits low high (left + 1) tail → decodeFrom (.inside bits (left + 1) low high) (tail ++ rest) =
      Char.ofNat (joinBits bits tail) :: decodeFrom .start rest := by
  induction tail with
  | nil => exact fun h => h.elim
  | cons b tail ih =>
    rintro bits left low high ⟨hb, htail⟩
    rw [List.cons_append, decodeFrom_fitting hb]
    cases left with
    | zero =>
      cases htail
      rw [if_pos (by omega), List.nil_append]
    | succ left =>
      rw [if_neg (by omega), joinBits_cons bits b tail, Nat.add_sub_cancel]
      exact ih htail

theorem decodeFrom_char (c : Char) (rest : List UInt8) :
    decodeFrom .start (String.utf8EncodeChar c ++ rest) = c :: decodeFrom .start rest := by
  rcases utf8EncodeChar_cases c with ⟨b, hc, hfirst⟩ |
    ⟨b, bits, left, low, high, tail, hc, hfirst, hfits, hjoined⟩
  · rw [hc, List.singleton_append, decodeFrom_first, hfirst]
    rfl
  · rw [hc, List.cons_append, decodeFrom_first, hfirst]
    rw [← hjoined]
    exact decodeFrom_fits rest hfits

/-- Behind the bytes of a text the decoder starts afresh. -/
theorem decodeFrom_encode (s : String) (rest : List UInt8) :
    decodeFrom .start (encode s ++ rest) = s.toList ++ decodeFrom .start rest := by
  rw [encode]
  induction s.toList with
  | nil => rfl
  | cons c chars ih =>
    rw [List.flatMap_cons, List.append_assoc, decodeFrom_char, ih, List.cons_append]

theorem decodeLossy_encode_append (s : String) (rest : List UInt8) :
    decodeLossy (encode s ++ rest) = s ++ decodeLossy rest := by
  rw [decodeLossy, decodeFrom_encode, String.ofList_append, String.ofList_toList, decodeLossy]

theorem decodeLossy_encode (s : String) : decodeLossy (encode s) = s := by
  have hdecoded := decodeLossy_encode_append s []
  rwa [List.append_nil, show decodeLossy [] = "" from rfl, String.append_empty] at hdecoded

/-! ## Broken stretches -/

/-- Inside a character the decoder completes it, or it reads as many bytes as fit and goes on
behind them. -/
theorem decodeFrom_inside (bytes : List UInt8) :
    ∀ (bits left : Nat) {low high : UInt8}, low ≤ high →
    (∃ tail rest, bytes = tail ++ rest ∧ Fits low high (left + 1) tail ∧
      decodeFrom (.inside bits (left + 1) low high) bytes =
        Char.ofNat (joinBits bits tail) :: decodeFrom .start rest) ∨
    ∃ mid rest, bytes = mid ++ rest ∧ mid.length ≤ left ∧
      (∃ more, Fits low high (left + 1) (mid ++ more)) ∧
      (∀ b behind more, rest = b :: behind → ¬ Fits low high (left + 1) (mid ++ b :: more)) ∧
      decodeFrom (.inside bits (left + 1) low high) bytes =
      replacement :: decodeFrom .start rest := by
  -- the lowest bytes that complete a character
  have hlowest : ∀ (left : Nat) {low high : UInt8}, low ≤ high →
      Fits low high (left + 1) (low :: List.replicate left 0x80) := by
    intro left
    induction left with
    | zero => exact fun h => ⟨⟨UInt8.le_refl _, h⟩, rfl⟩
    | succ left ih => exact fun h => ⟨⟨UInt8.le_refl _, h⟩, ih (by decide)⟩
  induction bytes with
  | nil =>
    exact fun _ _ _ _ hle =>
      .inr ⟨[], [], rfl, Nat.zero_le _, ⟨_, hlowest _ hle⟩, fun _ _ _ h => (by cases h), rfl⟩
  | cons b bytes ih =>
    intro bits left low high hle
    by_cases hb : low ≤ b ∧ b ≤ high
    · rw [decodeFrom_fitting hb]
      cases left with
      | zero => exact .inl ⟨[b], bytes, rfl, ⟨hb, rfl⟩, rfl⟩
      | succ left =>
        rcases ih (joinBits bits [b]) left (show (0x80 : UInt8) ≤ 0xBF by decide) with
          ⟨tail, rest, rfl, hfits, hdecoded⟩ |
          ⟨mid, rest, rfl, hlength, ⟨more, hfits⟩, hlongest, hdecoded⟩
        · rw [← joinBits_cons] at hdecoded
          exact .inl ⟨b :: tail, rest, rfl, ⟨hb, hfits⟩, hdecoded⟩
        · refine .inr ⟨b :: mid, rest, rfl, Nat.succ_le_succ hlength,
            ⟨more, hb, hfits⟩, ?_, hdecoded⟩
          exact fun b' behind more' hrest hfits' => hlongest b' behind more' hrest hfits'.2
    · refine .inr ⟨[], b :: bytes, rfl, Nat.zero_le _, ⟨_, hlowest _ hle⟩, ?_,
        decodeFrom_unfitting hb bytes⟩
      rintro b' behind more e hfits
      cases e
      exact hb hfits.1

theorem Fits.length_eq {tail : List UInt8} : ∀ {left : Nat} {low high : UInt8},
    Fits low high left tail →
    tail.length = left := by
  induction tail with
  | nil =>
    intro left low high h
    cases left with
    | zero => rfl
    | succ left => exact h.elim
  | cons b tail ih =>
    intro left low high h
    cases left with
    | zero => cases h
    | succ left => exact congrArg (· + 1) (ih h.2)

/-- Which bytes complete a character is told by its first byte. -/
theorem fits_of_char {b : UInt8} {bits left : Nat} {low high : UInt8} {tail : List UInt8} {c : Char}
    (hfirst : firstByte b = ([], .inside bits (left + 1) low high))
    (hc : String.utf8EncodeChar c = b :: tail) : Fits low high (left + 1) tail := by
  rcases utf8EncodeChar_cases c with ⟨b', hc', hfirst'⟩ |
    ⟨b', _, _, _, _, tail', hc', hfirst', hfits, -⟩ <;>
    rw [hc'] at hc <;> cases hc <;> rw [hfirst] at hfirst' <;> cases hfirst'
  exact hfits

/-- No character starts with a byte that the decoder replaces. -/
theorem ne_char_of_replaced {b : UInt8} (hfirst : firstByte b = ([replacement], .start)) (c : Char)
    (tail : List UInt8) : String.utf8EncodeChar c ≠ b :: tail := by
  intro hc
  have hreplacement : String.utf8EncodeChar replacement = [0xEF, 0xBF, 0xBD] := by decide
  rcases utf8EncodeChar_cases c with ⟨b', hc', hfirst'⟩ |
    ⟨b', _, _, _, _, tail', hc', hfirst', -, -⟩ <;>
    rw [hc'] at hc <;> cases hc <;> rw [hfirst] at hfirst' <;> cases hfirst'
  rw [hreplacement] at hc'
  cases hc'

/-- A character that stands at the front has the first byte. -/
theorem char_at_front {c : Char} {b : UInt8} {bytes : List UInt8}
    (h : String.utf8EncodeChar c <+: b :: bytes) :
    ∃ tail behind, String.utf8EncodeChar c = b :: tail ∧ tail ++ behind = bytes := by
  obtain ⟨behind, hc⟩ := h
  rcases utf8EncodeChar_cases c with ⟨b', hc', -⟩ | ⟨b', _, _, _, _, tail, hc', -, -, -⟩ <;>
    rw [hc'] at hc ⊢ <;> cases hc
  · exact ⟨[], _, rfl, rfl⟩
  · exact ⟨tail, behind, rfl, rfl⟩

/-- A first byte is a character, starts one, or is replaced. -/
theorem firstByte_kinds (b : UInt8) :
    (∃ c, firstByte b = ([c], .start) ∧ String.utf8EncodeChar c = [b]) ∨
    (∃ bits left low high, firstByte b = ([], .inside bits (left + 1) low high) ∧ low ≤ high) ∨
    firstByte b = ([replacement], .start) := by
  rcases firstByte_cases b with ⟨hb, h⟩ | ⟨n, -, -, -, h⟩ | ⟨n, -, -, h⟩ | ⟨n, -, -, h⟩ | ⟨-, h⟩
  · refine .inl ⟨_, h, ?_⟩
    rw [utf8EncodeChar_ofNat (.inl (by omega)), if_pos (by omega), ofNat_eq (b := b) (by omega)]
  · exact .inr (.inl ⟨n, 0, _, _, h, by decide⟩)
  · refine .inr (.inl ⟨n, 1, _, _, h, ?_⟩)
    by_cases hn : n = 0
    · subst hn
      decide
    · rw [if_neg hn]
      split <;> decide
  · refine .inr (.inl ⟨n, 2, _, _, h, ?_⟩)
    by_cases hn : n = 0
    · subst hn
      decide
    · rw [if_neg hn]
      split <;> decide
  · exact .inr (.inr h)

/-- The decoder follows the rule. -/
theorem lossy_decodeFrom (bytes : List UInt8) : Lossy bytes (decodeFrom .start bytes) := by
  induction hn : bytes.length using Nat.strongRecOn generalizing bytes with
  | ind n ih =>
    subst hn
    cases bytes with
    | nil => exact .nil
    | cons b bytes =>
      have hrest : ∀ stretch {rest : List UInt8}, bytes = stretch ++ rest →
          Lossy rest (decodeFrom .start rest) := by
        rintro stretch rest rfl
        refine ih _ ?_ rest rfl
        rw [List.length_cons, List.length_append]
        omega
      rw [decodeFrom_first]
      rcases firstByte_kinds b with ⟨c, hfirst, hc⟩ | ⟨bits, left, low, high, hfirst, hle⟩ | hfirst
      · rw [hfirst, ← List.singleton_append, ← hc]
        exact .char c (hrest [] rfl)
      · rw [hfirst, List.nil_append]
        rcases decodeFrom_inside bytes bits left hle with ⟨tail, rest, hbytes, hfits, hdecoded⟩ |
          ⟨mid, rest, hbytes, hlength, ⟨more, hfits⟩, hlongest, hdecoded⟩
        · rw [hdecoded, hbytes, ← List.cons_append, ← utf8EncodeChar_joinBits hfirst hfits]
          exact .char _ (hrest _ hbytes)
        · rw [hdecoded, hbytes, ← List.cons_append]
          refine .broken ⟨?_, .inl ⟨_, more, (utf8EncodeChar_joinBits hfirst hfits).symm⟩,
            List.cons_ne_nil _ _, ?_⟩ (hrest _ hbytes)
          · -- a character that stands there would reach past `mid` with a byte that fits
            intro c hc
            obtain ⟨tail, behind, hc, htail⟩ := char_at_front hc
            have hfits' := fits_of_char hfirst hc
            have hlong := hfits'.length_eq
            rcases List.append_eq_append_iff.mp htail with ⟨extra, rfl, -⟩ | ⟨extra, rfl, hextra⟩
            · rw [List.length_append] at hlength
              omega
            · cases extra with
              | nil =>
                rw [List.append_nil] at hlong
                omega
              | cons b' extra => exact hlongest b' _ extra hextra hfits'
          · rintro b' behind hnext ⟨c, more', hc⟩
            refine hlongest b' behind more' hnext (fits_of_char hfirst (c := c) ?_)
            rw [← hc, List.append_assoc]
            rfl
      · rw [hfirst, ← List.singleton_append]
        refine .broken ⟨fun c hc => ?_, .inr ⟨b, rfl⟩, List.cons_ne_nil _ _, ?_⟩ (hrest [] rfl)
        · obtain ⟨tail, -, hc, -⟩ := char_at_front hc
          exact ne_char_of_replaced hfirst c tail hc
        · rintro b' _ - ⟨c, more, hc⟩
          exact ne_char_of_replaced hfirst c _ hc.symm

end Text

namespace ByteString

open View.Memory

variable {m : Memory UInt8} {held : List Window}

/-- A text becomes a string, unless the allocator refuses its bytes. -/
theorem yields_ofText (h : m.Sound held) (hsmall : m.grants sizeLimit = false) (text : String) :
    Yields m.grants (Text.encode text) (ofText m text) := by
  have hjoined := joined_ofBytes h hsmall (Text.encode text)
  have hfresh : ∀ {m' t}, ofBytes m (Text.encode text) = (m', .ok t) →
      t.bytes m' = Text.encode text :=
    fun hof => (ofBytes_fresh h hsmall hof).1.contents_eq
  rw [ofText]
  generalize ofBytes m (Text.encode text) = result at hjoined hfresh
  cases hjoined with
  | made _ _ => exact .made (hfresh rfl)
  | refused hrefused => exact .refused hrefused

end ByteString

namespace Bytes

/-- In any state that a run reaches, decoding a string succeeds and is lossy decoding of its bytes.
Making a string of a text succeeds, unless the allocator refuses the bytes, and its text is that
text.  For a string whose bytes are those of a text, and any other string, joining
succeeds unless the allocator refuses, and the text of the join is the text of the first and then
that of the second. -/
theorem decoding_splits_behind_texts (grants : Nat → Bool) (hsmall : grants sizeLimit = false)
    (ops : List Op) :
    let m := (Session.run grants ops).memory
    (∀ a s, (Session.run grants ops).strings.get? a = some s →
      (∃ change, s.asText m = (m.note change, .ok (s.text m))) ∧
      Text.Lossy (s.bytes m) (s.text m).toList) ∧
    (∀ text, ByteString.Yields m.grants (Text.encode text) (ByteString.ofText m text) ∧
      ∀ m' s, ByteString.ofText m text = (m', .ok s) → s.text m' = text) ∧
    ∀ a b s t, (Session.run grants ops).strings.get? a = some s →
      (Session.run grants ops).strings.get? b = some t →
      Text.WellFormed (s.bytes m) →
      ByteString.Yields m.grants (s.bytes m ++ t.bytes m) (s.concat m t) ∧
      ∀ m' r, s.concat m t = (m', .ok r) → r.text m' = s.text m ++ t.text m := by
  intro m
  have h : (Session.run grants ops).Sound := Session.run_sound hsmall ops
  have hsm : m.grants sizeLimit = false := h.small
  refine ⟨fun a s hs => ?_, fun text => ⟨ByteString.yields_ofText h.memory hsm text, ?_⟩, ?_⟩
  · refine ⟨ByteString.read_ok (h.memory.within _ (Session.mem_held hs)) Text.decodeLossy, ?_⟩
    rw [ByteString.text, Text.decodeLossy, String.toList_ofList]
    exact Text.lossy_decodeFrom _
  · intro m' s hof
    have hbytes : s.bytes m' = Text.encode text :=
      (ByteString.ofBytes_fresh h.memory hsm hof).1.contents_eq
    rw [ByteString.text, hbytes, Text.decodeLossy_encode]
  · rintro a b s t hs ht ⟨chars, hchars⟩
    have hs' := Session.mem_held hs
    have ht' := Session.mem_held ht
    refine ⟨ByteString.yields_concat h.memory hsm hs' ht', fun m' r hr => ?_⟩
    rw [ByteString.text, (ByteString.adds_concat h.memory hsm hs' ht' hr).bytes_eq, hchars,
      Text.decodeLossy_encode_append, ByteString.text, hchars, Text.decodeLossy_encode]
    rfl

/-- A text with characters of two and four bytes, and bytes that are broken in every way: a
character cut short, half a surrogate pair, an overlong form and a byte that starts nothing. -/
def brokenOps : List Op :=
  [.ofText "s" "é😀",
    .ofBytes "t" [0xF0, 0x9F, 0x98, 0x41, 0xED, 0xA0, 0xC0, 0x80, 0xFF, 0xE2, 0x82]]

theorem decoding_splits_behind_texts_broken :
    let s : ByteString := ⟨⟨some 0, 0, 6, 6⟩⟩
    let t : ByteString := ⟨⟨some 1, 0, 11, 11⟩⟩
    let m := (Session.run (· < 100) brokenOps).memory
    decide (sizeLimit < 100) = false ∧
      (Session.run (· < 100) brokenOps).strings.get? "s" = some s ∧
      (Session.run (· < 100) brokenOps).strings.get? "t" = some t ∧
      Text.WellFormed (s.bytes m) ∧ ∃ m' r, s.concat m t = (m', .ok r) ∧
        r.text m' = "é😀" ++ "\uFFFDA\uFFFD\uFFFD\uFFFD\uFFFD\uFFFD\uFFFD" := by
  intro s t m
  have hsmall : decide (sizeLimit < 100) = false := by decide
  have hs : (Session.run (· < 100) brokenOps).strings.get? "s" = some s := by decide +kernel
  have ht : (Session.run (· < 100) brokenOps).strings.get? "t" = some t := by decide +kernel
  have hformed : Text.WellFormed (s.bytes m) := ⟨"é😀", by decide +kernel⟩
  have hstext : s.text m = "é😀" := by decide +kernel
  have httext : t.text m = "\uFFFDA\uFFFD\uFFFD\uFFFD\uFFFD\uFFFD\uFFFD" := by decide +kernel
  obtain ⟨-, -, hjoin⟩ := decoding_splits_behind_texts (· < 100) hsmall brokenOps
  obtain ⟨hyields, htext⟩ := hjoin "s" "t" s t hs ht hformed
  refine ⟨hsmall, hs, ht, hformed, ?_⟩
  rw [hstext, httext] at htext
  generalize s.concat m t = result at hyields htext
  cases hyields with
  | made _ => exact ⟨_, _, rfl, htext _ _ rfl⟩
  | refused hrefused => exact absurd hrefused (by decide +kernel)

end Bytes

end Substrate
