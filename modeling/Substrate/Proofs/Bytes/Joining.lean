import Substrate.Proofs.Bytes.Comparing

/-!
# Cutting and joining byte strings

The laws of parts and joins.  A part of a string is a window on its store, at
an accumulated cursor and with no room past its end, so a part of a part is
bounded by the first part and not by the store.  A join has a store of its own.

`Adds` is what either adds to a memory: one more string with given bytes, while
those held have the bytes they had.  `Yields` says that a join gives a string with
given bytes, and fails only where the allocator refuses them.  The laws are then
laws of lists.
-/

namespace Substrate

open View (Memory Window sizeLimit bytesFor)

namespace ByteString

open View.Memory

variable {m m' : Memory UInt8} {held : List Window} {s t r : ByteString} {start stop : Int}

/-- One more string is there, which has given bytes, and those held have the bytes they
had. -/
structure Adds (m : Memory UInt8) (held : List Window) (m' : Memory UInt8) (r : ByteString)
    (bytes : List UInt8) : Prop where
  sound : m'.Sound (r.view :: held)
  grants_eq : m'.grants = m.grants
  bytes_eq : r.bytes m' = bytes
  kept : ∀ t : ByteString, t.view ∈ held → t.bytes m' = t.bytes m

/-- A join gives a string with given bytes, unless the allocator refuses the bytes. -/
inductive Yields (grants : Nat → Bool) (bytes : List UInt8) :
    Memory UInt8 × Except Failure ByteString → Prop
  | made {m : Memory UInt8} {r : ByteString} (h : r.bytes m = bytes) : Yields grants
      bytes (m, .ok r)
  | refused {m : Memory UInt8} (h : grants (bytesFor UInt8 bytes.length) = false) :
      Yields grants bytes
        (m, .error (.fault (.allocationFailed (bytesFor UInt8 bytes.length))))

theorem length_bytes (h : m.Sound held) (hs : s.view ∈ held) : (s.bytes m).length = s.length :=
  (h.within s.view hs).length_contents

/-- A part lies within the bounds: a window of the same store with no room past its end. -/
theorem substring_view (hcut : substring m s start stop = (m', .ok r)) :
    (0 ≤ start ∧ start ≤ stop ∧ stop ≤ s.length) ∧
      r.view = ⟨s.view.store, s.view.cursor + start.toNat, (stop - start).toNat,
        (stop - start).toNat⟩ := by
  have hlength : s.length = s.view.clamped.capacity := rfl
  unfold substring Memory.slice at hcut
  split at hcut
  · cases hcut
  · rename_i m₁ w hslice
    cases hcut
    split at hslice
    · simp at hslice
    · split at hslice
      · simp at hslice
      · obtain ⟨rfl, hw⟩ := Prod.mk.inj hslice
        cases hw
        exact ⟨by omega, rfl⟩

theorem substring_ok_iff (h : m.Sound held) (hs : s.view ∈ held) :
    (∃ m' r, substring m s start stop = (m', .ok r)) ↔
      0 ≤ start ∧ start ≤ stop ∧ stop ≤ s.length := by
  constructor
  · rintro ⟨m', r, hcut⟩
    exact (substring_view hcut).1
  · intro hbounds
    rcases substring_cases h hs start stop with ⟨hout, -⟩ | ⟨m', r, hcut, -⟩
    · omega
    · exact ⟨m', r, hcut⟩

theorem adds_substring (h : m.Sound held) (hs : s.view ∈ held)
    (hcut : substring m s start stop = (m', .ok r)) :
    Adds m held m' r ((s.bytes m).extract start.toNat stop.toNat) := by
  obtain ⟨hbytes, -, hkept⟩ := substring_bytes hcut
  rcases substring_cases h hs start stop with ⟨-, hfail⟩ | ⟨m₁, u, hresult, hsound, hgrants⟩
  · rw [hfail] at hcut
    cases hcut
  · rw [hresult] at hcut
    cases hcut
    exact ⟨hsound, hgrants, hbytes, fun t _ => hkept t.view⟩

theorem adds_concat (h : m.Sound held) (hsmall : m.grants sizeLimit = false) (hs : s.view ∈ held)
    (ht : t.view ∈ held) (hjoin : concat m s t = (m', .ok r)) :
    Adds m held m' r (s.bytes m ++ t.bytes m) := by
  obtain ⟨hfresh, -⟩ := concat_fresh h hsmall hs ht hjoin
  exact ⟨hfresh.sound, hfresh.grants_eq, hfresh.contents_eq, fun u hu => hfresh.kept u.view hu⟩

theorem yields_concat (h : m.Sound held) (hsmall : m.grants sizeLimit = false) (hs : s.view ∈ held)
    (ht : t.view ∈ held) : Yields m.grants (s.bytes m ++ t.bytes m) (concat m s t) := by
  have hjoined := joined_concat h hsmall hs ht
  rw [← length_bytes h hs, ← length_bytes h ht, ← List.length_append] at hjoined
  cases hconcat : concat m s t with
  | mk m' result =>
    rw [hconcat] at hjoined
    cases hjoined with
    | made _ _ => exact .made (adds_concat h hsmall hs ht hconcat).bytes_eq
    | refused hrefused => exact .refused hrefused

/-- The string that is joined to may be one of those that go behind it. -/
theorem yields_append {others : List Window} (h : m.Sound (s.view :: others))
    (hsmall : m.grants sizeLimit = false) (ht : t.view ∈ s.view :: others) :
    Yields m.grants (s.bytes m ++ t.bytes m) (append m s t) := by
  have hconcat := yields_concat h hsmall List.mem_cons_self ht
  have happend : ∀ {m' r}, append m s t = (m', .ok r) → r.bytes m' = s.bytes m ++ t.bytes m :=
    fun hr => (Bytes.Session.append_fresh h hsmall ht hr).2.1
  unfold append at happend ⊢
  generalize concat m s t = result at hconcat happend
  cases hconcat with
  | made _ => exact .made (happend rfl)
  | refused hrefused => exact .refused hrefused

/-- A part of a part. -/
theorem extract_extract {bytes : List UInt8} {i j k l : Nat} (h : l ≤ j - i) :
    (bytes.extract i j).extract k l = bytes.extract (i + k) (i + l) := by
  simp only [List.extract_eq_take_drop, List.drop_take, List.drop_drop, List.take_take]
  congr 1
  omega

/-- The two parts at a position make up the whole. -/
theorem extract_append_extract (bytes : List UInt8) (k : Nat) :
    bytes.extract 0 k ++ bytes.extract k bytes.length = bytes := by
  have hback : (bytes.drop k).length ≤ bytes.length - k := Nat.le_of_eq List.length_drop
  rw [List.extract_eq_take_drop, List.extract_eq_take_drop, List.drop_zero, Nat.sub_zero,
    List.take_of_length_le hback, List.take_append_drop]

section

variable {m₁ m₂ : Memory UInt8} {p q u x : ByteString}

/-- A part of a part is a part, and nothing past the end of the first is read through it. -/
theorem substring_substring (h : m.Sound held) (hs : s.view ∈ held) {i j k l : Int}
    (hp : substring m s i j = (m₁, .ok p)) (hq : substring m₁ p k l = (m₂, .ok q)) :
    q.view.cursor + q.view.capacity ≤ s.view.cursor + j.toNat ∧
      ∃ m₃ r, substring m s (i + k) (i + l) = (m₃, .ok r) ∧ q.bytes m₂ = r.bytes m₃ := by
  obtain ⟨hij, hpview⟩ := substring_view hp
  obtain ⟨hkl, hqview⟩ := substring_view hq
  have hlength : p.length = (j - i).toNat := congrArg Window.length hpview
  have hadds := adds_substring h hs hp
  refine ⟨?_, ?_⟩
  · rw [hqview, hpview]
    dsimp only
    omega
  · obtain ⟨m₃, r, hr⟩ : ∃ m₃ r, substring m s (i + k) (i + l) = (m₃, .ok r) :=
      (substring_ok_iff h hs).mpr (by omega)
    refine ⟨m₃, r, hr, ?_⟩
    rw [(adds_substring hadds.sound List.mem_cons_self hq).bytes_eq, hadds.bytes_eq,
      (adds_substring h hs hr).bytes_eq, extract_extract (by omega),
      Int.toNat_add (by omega) (by omega),
      Int.toNat_add (by omega) (by omega)]

/-- The parts before and behind a position, joined, are equal to the string. -/
theorem concat_substrings (h : m.Sound held) (hsmall : m.grants sizeLimit = false)
    (hs : s.view ∈ held) {k : Int} (hk : 0 ≤ k) (hk' : k ≤ s.length) :
    ∃ m₁ p m₂ q, substring m s 0 k = (m₁, .ok p) ∧ substring m₁ s k s.length = (m₂, .ok q) ∧
      Yields m.grants (s.bytes m) (concat m₂ p q) ∧
      ∀ m₃ r, concat m₂ p q = (m₃, .ok r) → (equal m₃ r s).2 = .ok true := by
  obtain ⟨m₁, p, hp⟩ : ∃ m₁ p, substring m s 0 k = (m₁, .ok p) :=
    (substring_ok_iff h hs).mpr ⟨Int.le_refl 0, hk, hk'⟩
  have hfront := adds_substring h hs hp
  have hs₁ : s.view ∈ p.view :: held := List.mem_cons_of_mem _ hs
  obtain ⟨m₂, q, hq⟩ := (substring_ok_iff hfront.sound hs₁).mpr ⟨hk, hk', Int.le_refl _⟩
  have hback := adds_substring hfront.sound hs₁ hq
  have hgrants : m₂.grants = m.grants := hback.grants_eq.trans hfront.grants_eq
  have hsmall₂ : m₂.grants sizeLimit = false := by rw [hgrants, hsmall]
  have hp₂ : p.view ∈ q.view :: p.view :: held := List.mem_cons_of_mem _ List.mem_cons_self
  have hparts : p.bytes m₂ ++ q.bytes m₂ = s.bytes m := by
    have hlength := length_bytes h hs
    rw [hback.bytes_eq, hback.kept p List.mem_cons_self, hfront.bytes_eq, hfront.kept s hs,
      Int.toNat_natCast, ← hlength]
    exact extract_append_extract _ _
  refine ⟨m₁, p, m₂, q, hp, hq, ?_, fun m₃ r hr => ?_⟩
  · rw [← hparts, ← hgrants]
    exact yields_concat hback.sound hsmall₂ hp₂ List.mem_cons_self
  · have hjoined := adds_concat hback.sound hsmall₂ hp₂ List.mem_cons_self hr
    have hs₂ : s.view ∈ q.view :: p.view :: held := List.mem_cons_of_mem _ hs₁
    obtain ⟨change, hequal⟩ := View.Session.equal_ok
      (hjoined.sound.within r.view List.mem_cons_self)
      (hjoined.sound.within s.view (List.mem_cons_of_mem _ hs₂))
    have hkept : s.bytes m₃ = s.bytes m := by
      rw [hjoined.kept s hs₂, hback.kept s hs₁, hfront.kept s hs]
    rw [equal, hequal]
    exact congrArg Except.ok (decide_eq_true ((hjoined.bytes_eq.trans hparts).trans hkept.symm))

/-- Joining three strings from the left. -/
theorem yields_concat_left (h : m.Sound held) (hsmall : m.grants sizeLimit = false)
    (hs : s.view ∈ held) (ht : t.view ∈ held) (hu : u.view ∈ held)
    (hx : concat m s t = (m₁, .ok x)) :
    Yields m.grants (s.bytes m ++ t.bytes m ++ u.bytes m) (concat m₁ x u) := by
  have hadds := adds_concat h hsmall hs ht hx
  rw [← hadds.bytes_eq, ← hadds.kept u hu, ← hadds.grants_eq]
  exact yields_concat hadds.sound (by rw [hadds.grants_eq, hsmall]) List.mem_cons_self
    (List.mem_cons_of_mem _ hu)

/-- Joining three strings from the right. -/
theorem yields_concat_right (h : m.Sound held) (hsmall : m.grants sizeLimit = false)
    (hs : s.view ∈ held) (ht : t.view ∈ held) (hu : u.view ∈ held)
    (hx : concat m t u = (m₁, .ok x)) :
    Yields m.grants (s.bytes m ++ t.bytes m ++ u.bytes m) (concat m₁ s x) := by
  have hadds := adds_concat h hsmall ht hu hx
  rw [List.append_assoc, ← hadds.bytes_eq, ← hadds.kept s hs, ← hadds.grants_eq]
  exact yields_concat hadds.sound (by rw [hadds.grants_eq, hsmall]) (List.mem_cons_of_mem _ hs)
    List.mem_cons_self

/-- The string of no bytes is a unit of joining. -/
theorem yields_concat_empty (h : m.Sound held) (hsmall : m.grants sizeLimit = false)
    (hs : s.view ∈ held) :
    Yields m.grants (s.bytes m) (concat m s .empty) ∧
      Yields m.grants (s.bytes m) (concat m .empty s) := by
  have hheld : ByteString.empty.view ∈ Window.empty :: held := List.mem_cons_self
  have hs' := List.mem_cons_of_mem Window.empty hs
  have hright := yields_concat h.empty hsmall hs' hheld
  have hleft := yields_concat h.empty hsmall hheld hs'
  have hempty : ByteString.empty.bytes m = [] := rfl
  rw [hempty, List.append_nil] at hright
  rw [hempty, List.nil_append] at hleft
  exact ⟨hright, hleft⟩

end

end ByteString

namespace Bytes

/-- In any state that a run reaches, take three strings, built in any way.  Cutting one
succeeds exactly within its bounds and gives those bytes; a part of a part is the part at
the summed bounds and reads nothing past the end of the first; the two parts at a position,
joined, are equal to the string.  Joining a part or a clone of a string behind the string
itself gives its old bytes and then those of the part or clone.  Joining is associative,
with the string of no bytes as its unit.  No join fails, except where the allocator refuses
the bytes it is to have. -/
theorem cutting_and_joining_laws (grants : Nat → Bool) (hsmall : grants sizeLimit = false)
    (ops : List Op) {a b c : String} {s t u : ByteString}
    (hs : (Session.run grants ops).strings.get? a = some s)
    (ht : (Session.run grants ops).strings.get? b = some t)
    (hu : (Session.run grants ops).strings.get? c = some u) :
    let m := (Session.run grants ops).memory
    (∀ i j, ((∃ m' r, s.substring m i j = (m', .ok r)) ↔ 0 ≤ i ∧ i ≤ j ∧ j ≤ s.length) ∧
      ∀ m₁ p, s.substring m i j = (m₁, .ok p) →
        p.bytes m₁ = (s.bytes m).extract i.toNat j.toNat ∧
        (∀ k l m₂ q, p.substring m₁ k l = (m₂, .ok q) →
          q.view.cursor + q.view.capacity ≤ s.view.cursor + j.toNat ∧
          ∃ m₃ r, s.substring m (i + k) (i + l) = (m₃, .ok r) ∧ q.bytes m₂ = r.bytes m₃) ∧
        ByteString.Yields m.grants (s.bytes m ++ p.bytes m₁) (s.append m₁ p)) ∧
    ByteString.Yields m.grants (s.bytes m ++ s.bytes m)
      (ByteString.append (ByteString.clone m s).1 s (ByteString.clone m s).2) ∧
    (∀ k : Int, 0 ≤ k → k ≤ s.length → ∃ m₁ p m₂ q, s.substring m 0 k = (m₁, .ok p) ∧
      s.substring m₁ k s.length = (m₂, .ok q) ∧
      ByteString.Yields m.grants (s.bytes m) (p.concat m₂ q) ∧
      ∀ m₃ r, p.concat m₂ q = (m₃, .ok r) → (r.equal m₃ s).2 = .ok true) ∧
    ByteString.Yields m.grants (s.bytes m ++ t.bytes m) (s.concat m t) ∧
    (∀ m₁ x, s.concat m t = (m₁, .ok x) →
      ByteString.Yields m.grants (s.bytes m ++ t.bytes m ++ u.bytes m) (x.concat m₁ u)) ∧
    (∀ m₁ x, t.concat m u = (m₁, .ok x) →
      ByteString.Yields m.grants (s.bytes m ++ t.bytes m ++ u.bytes m) (s.concat m₁ x)) ∧
    ByteString.Yields m.grants (s.bytes m) (s.concat m .empty) ∧
    ByteString.Yields m.grants (s.bytes m) (ByteString.empty.concat m s) := by
  intro m
  have h : (Session.run grants ops).Sound := Session.run_sound hsmall ops
  have hsm : m.grants sizeLimit = false := h.small
  have hs' := Session.mem_held hs
  have ht' := Session.mem_held ht
  have hu' := Session.mem_held hu
  refine ⟨fun i j => ⟨ByteString.substring_ok_iff h.memory hs', fun m₁ p hp => ⟨?_, ?_, ?_⟩⟩, ?_,
    fun k => ByteString.concat_substrings h.memory hsm hs',
    ByteString.yields_concat h.memory hsm hs' ht',
    fun m₁ x => ByteString.yields_concat_left h.memory hsm hs' ht' hu',
    fun m₁ x => ByteString.yields_concat_right h.memory hsm hs' ht' hu',
    ByteString.yields_concat_empty h.memory hsm hs'⟩
  · exact (ByteString.adds_substring h.memory hs' hp).bytes_eq
  · exact fun k l m₂ q hq => ByteString.substring_substring h.memory hs' hp hq
  · -- the string of the name goes first, and the part is one of the others
    have hadds := ByteString.adds_substring (h.apart hs) List.mem_cons_self hp
    rw [← hadds.kept s List.mem_cons_self, ← hadds.grants_eq]
    exact ByteString.yields_append (hadds.sound.perm (List.Perm.swap _ _ _))
      (by rw [hadds.grants_eq, hsm]) (List.mem_cons_of_mem _ List.mem_cons_self)
  · have hcloned := (h.apart hs).retain List.mem_cons_self rfl rfl (h.memory.within _ hs')
    have hkept : s.bytes (ByteString.clone m s).1 = s.bytes m :=
      View.Memory.contents_congr fun k _ => View.Memory.payload_retain m s.view k
    rw [← hkept]
    exact ByteString.yields_append hcloned hsm List.mem_cons_self

/-- A string and a part of it, on one store. -/
def halfOps : List Op := [.ofText "s" "abcde", .substring "t" "s" 1 4]

/-- The part in the middle is cut again: its own end bounds it, and not that of the store.
Joining it behind the whole gives the bytes of both. -/
theorem cutting_and_joining_laws_half :
    let s : ByteString := ⟨⟨some 0, 0, 5, 5⟩⟩
    let t : ByteString := ⟨⟨some 0, 1, 3, 3⟩⟩
    let m := (Session.run (· < 100) halfOps).memory
    decide (sizeLimit < 100) = false ∧
      (Session.run (· < 100) halfOps).strings.get? "s" = some s ∧
      (Session.run (· < 100) halfOps).strings.get? "t" = some t ∧
      (¬ ∃ m' r, t.substring m 0 4 = (m', .ok r)) ∧ (∃ m' r, t.substring m 1 3 = (m', .ok r)) ∧
      ∃ m' r, s.concat m t = (m', .ok r) ∧ r.bytes m' = s.bytes m ++ t.bytes m := by
  intro s t m
  have hsmall : decide (sizeLimit < 100) = false := by decide
  have hs : (Session.run (· < 100) halfOps).strings.get? "s" = some s := by decide +kernel
  have ht : (Session.run (· < 100) halfOps).strings.get? "t" = some t := by decide +kernel
  obtain ⟨hcut, -⟩ := cutting_and_joining_laws (· < 100) hsmall halfOps ht ht ht
  obtain ⟨-, -, -, hjoin, -⟩ := cutting_and_joining_laws (· < 100) hsmall halfOps hs ht ht
  refine ⟨hsmall, hs, ht, ?_, ?_, ?_⟩
  · rw [(hcut 0 4).1]
    decide
  · rw [(hcut 1 3).1]
    decide
  · generalize s.concat m t = result at hjoin
    cases hjoin with
    | made hbytes => exact ⟨_, _, rfl, hbytes⟩
    | refused hrefused => exact absurd hrefused (by decide +kernel)

end Bytes

end Substrate
