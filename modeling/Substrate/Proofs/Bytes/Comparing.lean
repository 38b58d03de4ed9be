import Substrate.Proofs.View.Values

/-!
# Equality, order and hash of byte strings

Three loops read the bytes of strings: equality in pairs up to the first
that differ, order likewise, and the hash to the end with one more byte 0xff.
All three depend on the bytes alone, whatever stores the strings share, and
they agree: `compareBytes`, which the loop for order computes, is `.eq` exactly on
equal bytes, and what is fed to a hasher determines the bytes.

The byte that ends what is fed occurs in no encoded character, so it occurs in
no string that was obtained from texts (`Session.derived`), however it was cut.
Of such strings nothing that is fed begins with what is fed of another.
-/

namespace Substrate

open View (Memory Window sizeLimit)

namespace ByteString

/-! ## The order -/

/-- `s` comes before `t`: it is a proper beginning of it, or the first bytes that differ are
in order. -/
def Precedes (s t : List UInt8) : Prop :=
  (∃ b rest, t = s ++ b :: rest) ∨
    ∃ front a b s' t', s = front ++ a :: s' ∧ t = front ++ b :: t' ∧ a.toNat < b.toNat

theorem precedes_cons_iff {a b : UInt8} {s t : List UInt8} :
    Precedes (a :: s) (b :: t) ↔ a.toNat < b.toNat ∨ a = b ∧ Precedes s t := by
  constructor
  · rintro (⟨c, rest, h⟩ | ⟨front, c, d, s', t', hs, ht, hlt⟩)
    · cases h
      exact .inr ⟨rfl, .inl ⟨c, rest, rfl⟩⟩
    · cases front with
      | nil =>
        cases hs
        cases ht
        exact .inl hlt
      | cons e front =>
        cases hs
        cases ht
        exact .inr ⟨rfl, .inr ⟨front, c, d, s', t', rfl, rfl, hlt⟩⟩
  · rintro (hlt | ⟨rfl, ⟨c, rest, rfl⟩ | ⟨front, c, d, s', t', rfl, rfl, hlt⟩⟩)
    · exact .inr ⟨[], a, b, s, t, rfl, rfl, hlt⟩
    · exact .inl ⟨c, rest, rfl⟩
    · exact .inr ⟨a :: front, c, d, s', t', rfl, rfl, hlt⟩

theorem not_precedes_nil (s : List UInt8) : ¬ Precedes s [] := by
  rintro (⟨c, rest, h⟩ | ⟨front, c, d, s', t', -, h, -⟩)
  · simp at h
  · simp at h

/-- The order is by the first bytes that differ, with a proper beginning first. -/
theorem compareBytes_cases (s t : List UInt8) :
    (compareBytes s t = .lt ∧ Precedes s t ∧ s ≠ t ∧ ¬ Precedes t s) ∨
      (compareBytes s t = .eq ∧ s = t ∧ ¬ Precedes s t) ∨
      (compareBytes s t = .gt ∧ Precedes t s ∧ s ≠ t ∧ ¬ Precedes s t) := by
  fun_induction compareBytes s t with
  | case1 => exact .inr (.inl ⟨rfl, rfl, not_precedes_nil _⟩)
  | case2 b t => exact .inl ⟨rfl, .inl ⟨b, t, rfl⟩, by simp, not_precedes_nil _⟩
  | case3 a s => exact .inr (.inr ⟨rfl, .inl ⟨a, s, rfl⟩, by simp, not_precedes_nil _⟩)
  | case4 a s b t hlt =>
    have hlt : a.toNat < b.toNat := hlt
    have hne : a ≠ b := fun h => by simp [h] at hlt
    refine .inl ⟨rfl, precedes_cons_iff.mpr (.inl hlt), by simp [hne], ?_⟩
    rw [precedes_cons_iff]
    rintro (h | ⟨h, -⟩)
    · omega
    · exact hne h.symm
  | case5 a s b t hnot hlt =>
    have hlt : b.toNat < a.toNat := hlt
    have hne : a ≠ b := fun h => by simp [h] at hlt
    refine .inr (.inr ⟨rfl, precedes_cons_iff.mpr (.inl hlt), by simp [hne], ?_⟩)
    rw [precedes_cons_iff]
    rintro (h | ⟨h, -⟩)
    · omega
    · exact hne h
  | case6 a s b t hnot hnot' ih =>
    have hnot : ¬ a.toNat < b.toNat := hnot
    have hnot' : ¬ b.toNat < a.toNat := hnot'
    obtain rfl : a = b := UInt8.toNat_inj.mp (by omega)
    simpa [precedes_cons_iff] using ih

theorem compareBytes_eq_iff {s t : List UInt8} : compareBytes s t = .eq ↔ s = t := by
  rcases compareBytes_cases s t with ⟨h, -, hne, -⟩ | ⟨h, heq, -⟩ | ⟨h, -, hne, -⟩
  · simp [h, hne]
  · exact ⟨fun _ => heq, fun _ => h⟩
  · simp [h, hne]

theorem compareBytes_lt_iff {s t : List UInt8} : compareBytes s t = .lt ↔ Precedes s t := by
  rcases compareBytes_cases s t with ⟨h, hp, -, -⟩ | ⟨h, -, hp⟩ | ⟨h, -, -, hp⟩
  · simp [h, hp]
  · simp [h, hp]
  · simp [h, hp]

theorem compareBytes_gt_iff {s t : List UInt8} : compareBytes s t = .gt ↔ Precedes t s := by
  rcases compareBytes_cases s t with ⟨h, -, -, hp⟩ | ⟨h, heq, hp⟩ | ⟨h, hp, -, -⟩
  · simp [h, hp]
  · rw [h]
    simpa [heq] using heq ▸ hp
  · simp [h, hp]

theorem Precedes.trans {s t u : List UInt8} (hst : Precedes s t) (htu : Precedes t u) :
    Precedes s u := by
  induction s generalizing t u with
  | nil =>
    cases u with
    | nil => exact (not_precedes_nil _ htu).elim
    | cons c u => exact .inl ⟨c, u, rfl⟩
  | cons a s ih =>
    cases t with
    | nil => exact (not_precedes_nil _ hst).elim
    | cons b t =>
      cases u with
      | nil => exact (not_precedes_nil _ htu).elim
      | cons c u =>
        rw [precedes_cons_iff] at hst htu ⊢
        rcases hst with hab | ⟨rfl, hst⟩
        · rcases htu with hbc | ⟨rfl, -⟩
          · exact .inl (by omega)
          · exact .inl hab
        · rcases htu with hbc | ⟨rfl, htu⟩
          · exact .inl hbc
          · exact .inr ⟨rfl, ih hst htu⟩

theorem compareBytes_swap (s t : List UInt8) : compareBytes t s = (compareBytes s t).swap := by
  rcases compareBytes_cases s t with ⟨h, hp, -⟩ | ⟨h, heq, -⟩ | ⟨h, hp, -⟩
  · rw [h, compareBytes_gt_iff.mpr hp]
    rfl
  · rw [h, compareBytes_eq_iff.mpr heq.symm]
    rfl
  · rw [h, compareBytes_lt_iff.mpr hp]
    rfl

/-- Not coming after is transitive. -/
theorem compareBytes_ne_gt_trans {s t u : List UInt8} (hst : compareBytes s t ≠ .gt)
    (htu : compareBytes t u ≠ .gt) : compareBytes s u ≠ .gt := by
  rw [Ne, compareBytes_gt_iff] at hst htu ⊢
  intro hus
  rcases compareBytes_cases s t with ⟨-, h, -⟩ | ⟨-, rfl, -⟩ | ⟨-, h, -⟩
  · exact htu (hus.trans h)
  · exact htu hus
  · exact hst h

/-! ## What is fed to a hasher -/

theorem fed_inj {s t : List UInt8} : fed s = fed t ↔ s = t := List.append_left_inj _

/-- Nothing that is fed begins with what is fed of another, if the byte that ends it occurs
in neither. -/
theorem fed_not_proper_prefix {s t : List UInt8} (ht : 0xff ∉ t) : ¬ (fed s <+: fed t ∧ s ≠ t) := by
  rintro ⟨⟨rest, hrest⟩, hne⟩
  rcases rest.eq_nil_or_concat with rfl | ⟨front, last, rfl⟩
  · rw [List.append_nil] at hrest
    exact hne (fed_inj.mp hrest)
  · have hfront : fed s ++ front = t := by
      rw [List.concat_eq_append, ← List.append_assoc] at hrest
      exact (List.append_inj' hrest rfl).1
    exact ht (hfront ▸ by simp [fed])

end ByteString

namespace Text

/-- No byte of an encoded character is 0xff. -/
theorem not_mem_utf8EncodeChar (c : Char) : (0xff : UInt8) ∉ String.utf8EncodeChar c := by
  have hbyte : ∀ n, n % 256 ≠ 255 → (0xff : UInt8) ≠ UInt8.ofNat n := by
    intro n hn h
    have := congrArg UInt8.toNat h
    rw [UInt8.toNat_ofNat'] at this
    exact hn this.symm
  unfold String.utf8EncodeChar
  dsimp only
  split
  · simp only [List.mem_cons, List.not_mem_nil, or_false]
    exact hbyte _ (by omega)
  · split
    · simp only [List.mem_cons, List.not_mem_nil, or_false, not_or]
      exact ⟨hbyte _ (by omega), hbyte _ (by omega)⟩
    · split
      · simp only [List.mem_cons, List.not_mem_nil, or_false, not_or]
        exact ⟨hbyte _ (by omega), hbyte _ (by omega), hbyte _ (by omega)⟩
      · simp only [List.mem_cons, List.not_mem_nil, or_false, not_or]
        exact ⟨hbyte _ (by omega), hbyte _ (by omega), hbyte _ (by omega), hbyte _ (by omega)⟩

theorem not_mem_encode (s : String) : (0xff : UInt8) ∉ encode s := by
  rw [encode, List.mem_flatMap]
  rintro ⟨c, -, hc⟩
  exact not_mem_utf8EncodeChar c hc

end Text

namespace Bytes

/-- Whether the string that an operation assigns is obtained from texts, where `known` says it
of the strings before. -/
def Op.fromText (known : String → Bool) : Op → Bool
  | .empty _ | .ofText .. => true
  | .clone _ source | .substring _ source _ _ => known source
  | .concat _ a b | .append a b => known a && known b
  | .pushText name _ => known name
  | _ => false

/-- The result of an operation on strings without the byte has not the byte either. -/
theorem Op.not_mem_result {op : Op} {known : String → Bool} {values : String → Option (List UInt8)}
    (hknown : ∀ name bytes, known name = true → values name = some bytes → 0xff ∉ bytes)
    (hop : op.fromText known = true) {bytes : List UInt8}
    (hresult : op.result values = some bytes) :
    0xff ∉ bytes := by
  cases op with
  | empty name =>
    cases hresult
    exact List.not_mem_nil
  | ofText name given =>
    cases hresult
    exact Text.not_mem_encode given
  | clone name source => exact hknown source bytes hop hresult
  | substring name source start stop =>
    obtain ⟨whole, hwhole, rfl⟩ := Option.map_eq_some_iff.mp hresult
    rw [List.extract_eq_take_drop]
    exact fun hmem => hknown source whole hop hwhole
      (List.mem_of_mem_drop (List.mem_of_mem_take hmem))
  | concat | append =>
    rename_i a b
    obtain ⟨s, hs, hresult⟩ := Option.bind_eq_some_iff.mp hresult
    obtain ⟨t, ht, rfl⟩ := Option.map_eq_some_iff.mp hresult
    obtain ⟨ha, hb⟩ := Bool.and_eq_true_iff.mp hop
    rw [List.mem_append, not_or]
    exact ⟨hknown a s ha hs, hknown b t hb ht⟩
  | pushText name given =>
    obtain ⟨s, hs, rfl⟩ := Option.map_eq_some_iff.mp hresult
    rw [List.mem_append, not_or]
    exact ⟨hknown name s hop hs, Text.not_mem_encode given⟩
  | _ => cases hop

namespace Session

/-- The names whose strings were obtained from texts by the operations carried out, where
`known` are those at the start. -/
def derived (s : Session) (known : String → Bool) : List Op → String → Bool
  | [] => known
  | op :: rest =>
    derived (s.apply op).1
      (fun name =>
        if op.assigns = some name ∧ (s.apply op).2.carriedOut = true then op.fromText known
        else known name) rest

theorem not_mem_of_derived {ops : List Op} {s : Session} (h : s.Sound) (hexact : s.Exact)
    {known : String → Bool}
    (hknown : ∀ name bytes, known name = true → s.value name = some bytes → 0xff ∉ bytes)
    {name : String}
    {bytes : List UInt8} (hname : s.derived known ops name = true)
    (hvalue : (ops.foldl (fun s op => (s.apply op).1) s).value name = some bytes) :
    0xff ∉ bytes := by
  induction ops generalizing s known with
  | nil => exact hknown name bytes hname hvalue
  | cons op rest ih =>
    have heffect := apply_effect h hexact op
    refine ih (apply_advances h op).sound (heffect.exact hexact) ?_ hname hvalue
    intro other bytes hother hbytes
    split at hother
    · rename_i hassigned
      rw [heffect.value_assigned hassigned.1 hassigned.2] at hbytes
      exact Op.not_mem_result hknown hother hbytes
    · rename_i hkept
      rw [heffect.value_of_ne hkept] at hbytes
      exact hknown other bytes hother hbytes

theorem Sound.apply_equal {s : Session} (h : s.Sound) {a b : String} {t u : ByteString}
    (ht : s.strings.get? a = some t) (hu : s.strings.get? b = some u) :
    (s.apply (.equal a b)).2 = .truth (decide (t.bytes s.memory = u.bytes s.memory)) := by
  obtain ⟨change, hequal⟩ := View.Session.equal_ok (h.memory.within _ (mem_held ht))
    (h.memory.within _ (mem_held hu))
  rw [Session.apply, Session.onBoth, Session.on, ht]
  dsimp only
  rw [Session.on, hu]
  dsimp only
  rw [ByteString.equal, hequal]
  rfl

theorem Sound.apply_compare {s : Session} (h : s.Sound) {a b : String} {t u : ByteString}
    (ht : s.strings.get? a = some t) (hu : s.strings.get? b = some u) :
    (s.apply (.compare a b)).2 =
      .order (ByteString.compareBytes (t.bytes s.memory) (u.bytes s.memory)) := by
  obtain ⟨change, hcompare⟩ := ByteString.compare_ok (h.memory.within _ (mem_held ht))
    (h.memory.within _ (mem_held hu))
  simp only [Session.apply, Session.onBoth, Session.on, ht, hu, hcompare]
  rfl

theorem Sound.apply_hash {s : Session} (h : s.Sound) {a : String} {t : ByteString}
    (ht : s.strings.get? a = some t) :
    (s.apply (.hash a)).2 = .hash (ByteString.fed (t.bytes s.memory))
      (Hash.digest (Hash.sip13 (ByteString.fed (t.bytes s.memory)))) := by
  obtain ⟨change, hread⟩ :=
    ByteString.read_ok (h.memory.within _ (mem_held ht)) ByteString.fed
  simp only [Session.apply, Session.on, ht, hread]
  rfl

end Session

/-- In any state that a run reaches, whatever stores the strings share: two strings are equal
exactly if they have the same bytes, exactly if neither comes before the other, exactly if
they feed the same bytes to a hasher.  The order is total: by the first bytes that differ as
unsigned numbers, with a proper beginning first.  Of strings that were obtained from texts
by joining and cutting, what one feeds to a hasher is never a proper beginning of what
another feeds. -/
theorem comparing_by_bytes (grants : Nat → Bool) (hsmall : grants sizeLimit = false)
    (ops : List Op) :
    let s := Session.run grants ops
    (∀ a b t u, s.strings.get? a = some t → s.strings.get? b = some u →
      let x := t.bytes s.memory
      let y := u.bytes s.memory
      (s.apply (.equal a b)).2 = .truth (decide (x = y)) ∧
      (s.apply (.hash a)).2 =
        .hash (ByteString.fed x) (Hash.digest (Hash.sip13 (ByteString.fed x))) ∧
      (ByteString.fed x = ByteString.fed y ↔ x = y) ∧
      ∃ order, (s.apply (.compare a b)).2 = .order order ∧
        (s.apply (.compare b a)).2 = .order order.swap ∧
        (order = .eq ↔ x = y) ∧ (order = .lt ↔ ByteString.Precedes x y) ∧
        (order = .gt ↔ ByteString.Precedes y x) ∧
        ∀ c v, s.strings.get? c = some v → order ≠ .gt →
          (s.apply (.compare b c)).2 ≠ .order .gt → (s.apply (.compare a c)).2 ≠ .order .gt) ∧
    ∀ a b x y, Session.derived { memory := { grants } } (fun _ => false) ops a = true →
      Session.derived { memory := { grants } } (fun _ => false) ops b = true →
      s.value a = some x → s.value b = some y →
      ¬ (ByteString.fed x <+: ByteString.fed y ∧ ByteString.fed x ≠ ByteString.fed y) := by
  intro s
  have h : s.Sound := Session.run_sound hsmall ops
  refine ⟨fun a b t u ht hu => ⟨h.apply_equal ht hu, h.apply_hash ht, ByteString.fed_inj,
    _, h.apply_compare ht hu, ?_, ByteString.compareBytes_eq_iff,
    ByteString.compareBytes_lt_iff, ByteString.compareBytes_gt_iff, fun c v hv hab hbc => ?_⟩,
    fun a b x y _ hb _ hy => ?_⟩
  · rw [h.apply_compare hu ht, ByteString.compareBytes_swap]
  · rw [h.apply_compare hu hv] at hbc
    rw [h.apply_compare ht hv]
    have := ByteString.compareBytes_ne_gt_trans hab fun hgt => hbc (congrArg Reply.order hgt)
    exact fun hgt => this (Reply.order.inj hgt)
  · have hy := Session.not_mem_of_derived (Session.sound_initial hsmall)
      (fun name t ht => by cases ht) (fun _ _ hknown => by cases hknown) hb hy
    exact fun hbegins => ByteString.fed_not_proper_prefix hy ⟨hbegins.1, fun heq =>
      hbegins.2 (congrArg ByteString.fed heq)⟩

/-- Two texts, a part of the second that is cut inside a character, and the two joined. -/
def accentOps : List Op :=
  [.ofText "s" "a", .ofText "t" "aé", .substring "u" "t" 0 2, .concat "v" "u" "s"]

theorem comparing_by_bytes_accent :
    decide (sizeLimit < 100) = false ∧
      ((Session.run (· < 100) accentOps).apply (.equal "s" "u")).2 = .truth false ∧
      ((Session.run (· < 100) accentOps).apply (.compare "s" "u")).2 = .order .lt ∧
      ByteString.Precedes [0x61] [0x61, 0xc3] ∧
      Session.derived { memory := { grants := (· < 100) } } (fun _ => false) accentOps "v" = true ∧
      ¬ (ByteString.fed [0x61, 0xc3] <+: ByteString.fed [0x61, 0xc3, 0x61] ∧
        ByteString.fed [0x61, 0xc3] ≠ ByteString.fed [0x61, 0xc3, 0x61]) := by
  have hsmall : decide (sizeLimit < 100) = false := by decide
  obtain ⟨hcompare, hfed⟩ := comparing_by_bytes (· < 100) hsmall accentOps
  have hs : (Session.run (· < 100) accentOps).strings.get? "s" = some ⟨⟨some 0, 0, 1, 1⟩⟩ := by
    decide +kernel
  have hu : (Session.run (· < 100) accentOps).strings.get? "u" = some ⟨⟨some 1, 0, 2, 2⟩⟩ := by
    decide +kernel
  obtain ⟨hequal, -, -, order, horder, -, -, hlt, -, -⟩ := hcompare "s" "u" _ _ hs hu
  have hbefore : ByteString.Precedes [0x61] [0x61, 0xc3] := .inl ⟨_, _, rfl⟩
  refine ⟨hsmall, hequal.trans (by decide +kernel), ?_, hbefore, ?_, ?_⟩
  · rw [horder, hlt.mpr (by exact hbefore)]
  · decide +kernel
  · exact hfed "u" "v" _ _ (by decide +kernel) (by decide +kernel) (by decide +kernel)
      (by decide +kernel)

end Bytes

end Substrate
