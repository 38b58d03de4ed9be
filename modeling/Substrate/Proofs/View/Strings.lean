import Substrate.Bytes.Session
import Substrate.Proofs.View.Runs

/-!
# Runs of byte string operations

Byte strings are views with no room past their length.  Their stores have room
for exactly the bytes that go there, so a string never grows and joining
strings never overflows a size: the allocator refuses the bytes before.
Reading a string to the end gives its bytes (`read_ok`), and comparing two in
pairs the order of their bytes (`compare_ok`).

`views_stay_within_stores` joins the two kinds of runs: whatever operations on
views or on strings were carried out, every view lies within its store, and the
next operation fails only in the ways that `View.Session.Refusal` and
`Bytes.Session.Refusal` list.
-/

namespace Substrate

open View (Memory Window Ledger sizeLimit bytesFor)

namespace ByteString

variable {m : Memory UInt8} {held : List Window}

/-! ## Reading -/

/-- The text of a string. -/
def text (m : Memory UInt8) (s : ByteString) : String := Text.decodeLossy (s.bytes m)

/-- The order of byte sequences: by the first byte that differs, and a proper beginning
comes first. -/
def compareBytes : List UInt8 → List UInt8 → Ordering
  | [], [] => .eq
  | [], _ :: _ => .lt
  | _ :: _, [] => .gt
  | a :: s, b :: t => if a < b then .lt else if b < a then .gt else compareBytes s t

theorem read_ok {β : Type} {s : ByteString} (h : m.Within s.view) (use : List UInt8 → β) :
    ∃ change, s.read m use = (m.note change, .ok (use (s.bytes m))) := by
  obtain ⟨change, hlist⟩ := h.toList
  rw [read, hlist]
  exact ⟨(·.drop (s.bytes m).length) ∘ change, rfl⟩

/-- The next byte of a view is the first of those that are left. -/
theorem next_ok {u : Window} (hu : m.Within u) (pos : Nat) :
    ∃ change, m.next u pos =
      (m.note change,
        .ok (((m.contents u).drop pos).head?, if u.length ≤ pos then pos else pos + 1)) := by
  have hlength := hu.length_contents
  unfold Memory.next
  split
  · rename_i hend
    rw [List.drop_of_length_le (by omega)]
    exact ⟨id, rfl⟩
  · rename_i hmore
    obtain ⟨b, hb, hget⟩ := hu.get (show pos < u.length by omega)
    rw [hget, List.head?_drop, hb]
    exact ⟨_, rfl⟩

/-- Comparing in pairs, where one view has `left` bytes left, compares what is left of both. -/
theorem compareFrom_ok {v u : Window} (h : m.Within v) (hu : m.Within u) (left : Nat) {pos : Nat}
    (hv : pos + left = v.length) :
    ∃ change, Memory.compareFrom compareByte m v u pos left =
      (m.note change, .ok (compareBytes ((m.contents v).drop pos) ((m.contents u).drop pos))) := by
  have hlength := h.length_contents
  induction left generalizing m pos with
  | zero =>
    obtain ⟨change, hnext⟩ := next_ok hu pos
    rw [Memory.compareFrom, hnext,
      List.drop_of_length_le (show (m.contents v).length ≤ pos by omega)]
    cases (m.contents u).drop pos with
    | nil => exact ⟨change, rfl⟩
    | cons b rest => exact ⟨(·.drop 1) ∘ change, rfl⟩
  | succ left ih =>
    obtain ⟨a, ha, hget⟩ := h.get (show pos < v.length by omega)
    obtain ⟨change, hnext⟩ := next_ok (hu.of_sameShape (.note m (·.clone 1))) pos
    have hnoted : (m.note (·.clone 1)).contents u = m.contents u := rfl
    rw [Memory.compareFrom, hget]
    dsimp only
    rw [hnext, hnoted, Memory.contents_drop ha]
    cases hrest : (m.contents u).drop pos with
    | nil => exact ⟨(·.drop 1) ∘ change ∘ (·.clone 1), rfl⟩
    | cons b rest =>
      have htail : rest = (m.contents u).drop (pos + 1) := by
        rw [← List.tail_drop, hrest, List.tail_cons]
      let both : Ledger → Ledger := (·.drop 2) ∘ change ∘ (·.clone 1)
      obtain ⟨change', hlater⟩ :=
        ih (h.of_sameShape (.note m both)) (hu.of_sameShape (.note m both))
        (show pos + 1 + left = v.length by omega) hlength
      simp only [List.head?_cons, compareByte, compareBytes]
      by_cases hab : a < b
      · simp only [if_pos hab]
        exact ⟨both, rfl⟩
      · by_cases hba : b < a
        · simp only [if_neg hab, if_pos hba]
          exact ⟨both, rfl⟩
        · simp only [if_neg hab, if_neg hba]
          refine ⟨change' ∘ both, hlater.trans ?_⟩
          rw [htail]
          rfl

theorem compare_ok {s t : ByteString} (hs : m.Within s.view) (ht : m.Within t.view) :
    ∃ change, s.compare m t = (m.note change, .ok (compareBytes (s.bytes m) (t.bytes m))) :=
  compareFrom_ok hs ht s.view.length (Nat.zero_add _)

/-! ## Joining -/

/-- An allocator that never grants the greatest size grants no more bytes than a size. -/
theorem length_le_of_grants (hsmall : m.grants sizeLimit = false) {length : Nat}
    (hgrants : m.grants (bytesFor UInt8 length) = true) : length ≤ sizeLimit := by
  refine Nat.le_of_not_lt fun hlarge => ?_
  have : bytesFor UInt8 length = sizeLimit := by
    show min (length * 1) sizeLimit = sizeLimit
    omega
  rw [this, hsmall] at hgrants
  cases hgrants

/-- What making a string of `length` bytes comes to. -/
inductive Joined (m : Memory UInt8) (held : List Window) (length : Nat) :
    Memory UInt8 × Except Failure ByteString → Prop
  | made {m' : Memory UInt8} {t : ByteString} (hsound : m'.Sound (t.view :: held))
      (hgrants : m'.grants = m.grants) : Joined m held length (m', .ok t)
  | refused (h : m.grants (bytesFor UInt8 length) = false) :
      Joined m held length (m, .error (.fault (.allocationFailed (bytesFor UInt8 length))))

theorem joined_ofBytes (h : m.Sound held) (hsmall : m.grants sizeLimit = false)
    (bytes : List UInt8) : Joined m held bytes.length (ofBytes m bytes) := by
  have hallotted := h.alloc 0 bytes.length fun hgrants => by
    exact_mod_cast length_le_of_grants hsmall hgrants
  unfold ofBytes
  cases hresult : m.alloc 0 bytes.length with
  | mk m₁ result =>
    rw [hresult] at hallotted
    cases hallotted with
    | range hrange => omega
    | memory hgrants => exact .refused hgrants
    | made hrange hlength hcapacity hsound hgrants =>
      rename_i v
      have hadded := hsound.extend bytes
      dsimp only
      cases hextend : m₁.extend v bytes with
      | mk m' result =>
        rw [hextend] at hadded
        obtain ⟨hgrants', hsound'⟩ := hadded.sound hsound (Nat.le_refl _)
        have hroom : v.length + bytes.length ≤ v.capacity := by
          rw [hlength, hcapacity]
          omega
        cases hadded with
        | within hfit hwrote => exact .made hsound' (hgrants'.trans hgrants)
        | grown hfull hgrown hs hwrote => omega
        | failed change hfull hno => omega

/-- Appending to a view that has the room. -/
theorem append_within {v u : Window} (h : m.Sound (v :: held)) (hu : u ∈ held)
    (hroom : v.length + u.length ≤ v.capacity) :
    ∃ m', m.append v u = (m', .ok { v with length := v.length + u.length }) ∧
      m'.Sound ({ v with length := v.length + u.length } :: held) ∧ m'.grants = m.grants := by
  have hwithin := h.within u (List.mem_cons_of_mem _ hu)
  have hadded := h.append hwithin
  cases happend : m.append v u with
  | mk m' result =>
    rw [happend] at hadded
    obtain ⟨hgrants, hsound⟩ := hadded.sound h (Nat.le_of_eq hwithin.length_contents)
    cases hadded with
    | within hfit hwrote =>
      rw [hwithin.length_contents] at hsound ⊢
      exact ⟨m', rfl, hsound, hgrants⟩
    | grown hfull hgrown hs hwrote => omega
    | failed change hfull hno => omega

theorem joined_concat (h : m.Sound held) (hsmall : m.grants sizeLimit = false) {s t : ByteString}
    (hs : s.view ∈ held) (ht : t.view ∈ held) :
    Joined m held (s.length + t.length) (concat m s t) := by
  have hallotted := h.alloc 0 (s.length + t.length : Nat) fun hgrants => by
    exact_mod_cast length_le_of_grants hsmall hgrants
  unfold concat
  rw [← Int.natCast_add]
  cases hresult : m.alloc 0 (s.length + t.length : Nat) with
  | mk m₁ result =>
    rw [hresult] at hallotted
    cases hallotted with
    | range hrange => omega
    | memory hgrants => exact .refused hgrants
    | made hrange hlength hcapacity hsound hgrants =>
      rename_i v
      have hlength : v.length = 0 := hlength
      have hcapacity : v.capacity = s.view.length + t.view.length := hcapacity
      obtain ⟨m₂, hfirst, hsound₂, hgrants₂⟩ := append_within hsound hs (by omega)
      obtain ⟨m₃, hsecond, hsound₃, hgrants₃⟩ := append_within hsound₂ ht
        (show v.length + s.view.length + t.view.length ≤ v.capacity by omega)
      dsimp only
      rw [hfirst]
      dsimp only
      rw [hsecond]
      exact .made hsound₃ (hgrants₃.trans (hgrants₂.trans hgrants))

/-- What cutting a string comes to: the bounds are refused, or there is one more string. -/
theorem substring_cases (h : m.Sound held) {s : ByteString} (hs : s.view ∈ held)
    (start stop : Int) :
    (start < 0 ∨ stop < start ∨ (s.length : Int) < stop) ∧
        substring m s start stop =
          (m, .error (.fault (.slicingOutOfRange start stop s.length))) ∨
      ∃ m' t, substring m s start stop = (m', .ok t) ∧ m'.Sound (t.view :: held) ∧
        m'.grants = m.grants := by
  have hwithin := h.within s.view hs
  have hclamped : m.Within s.view.clamped :=
    hwithin.narrow rfl (Nat.le_refl _) (Nat.add_le_add_left hwithin.length_le _)
  unfold substring
  rcases h.slice hs (show s.view.clamped.store = s.view.store from rfl) hclamped start
    stop with ⟨hbounds, hresult⟩ |
    ⟨m', w, hresult, hlength, hsound, hgrants⟩
  · rw [hresult]
    exact .inl ⟨hbounds, rfl⟩
  · rw [hresult]
    refine .inr ⟨m', _, rfl, ⟨hsound.balanced, fun u hu => ?_⟩, hgrants⟩
    rcases List.mem_cons.mp hu with rfl | hu
    · exact (hsound.within w List.mem_cons_self).narrow rfl (Nat.le_refl _)
        (Nat.add_le_add_left hlength _)
    · exact hsound.within u (List.mem_cons_of_mem _ hu)

end ByteString

namespace Bytes

/-- Whether an operation puts bytes in a new store. -/
def Op.Joins : Op → Prop
  | .ofBytes .. | .ofText .. | .concat .. | .append .. | .pushText .. => True
  | _ => False

namespace Session

open View.Memory

/-- The views of the strings. -/
def held (s : Session) : List Window := s.strings.values.map ByteString.view

/-- The invariant of a session between two operations. -/
structure Sound (s : Session) : Prop where
  ordered : s.strings.Ordered
  memory : s.memory.Sound s.held
  small : s.memory.grants sizeLimit = false

theorem sound_initial {grants : Nat → Bool} (hsmall : grants sizeLimit = false) :
    ({ memory := { grants } } : Session).Sound :=
  ⟨Registers.ordered_empty, ⟨Ownership.Heap.balanced_empty, fun _ h => (List.not_mem_nil h).elim⟩,
    hsmall⟩

/-- The failures that an operation can end in. -/
inductive Refusal (s : Session) : Op → Failure → Prop
  | byteAt {name : String} {t : ByteString} {index : Int} (ht : s.strings.get? name = some t)
      (h : index < 0 ∨ (t.length : Int) ≤ index) :
      Refusal s (.byteAt name index) (.fault (.indexOutOfRange index t.length))
  | substring {name source : String} {t : ByteString} {start stop : Int}
      (ht : s.strings.get? source = some t)
      (h : start < 0 ∨ stop < start ∨ (t.length : Int) < stop) :
      Refusal s (.substring name source start stop)
        (.fault (.slicingOutOfRange start stop t.length))
  | memory {op : Op} {bytes : Nat} (hop : op.Joins) (h : s.memory.grants bytes = false) :
      Refusal s op (.fault (.allocationFailed bytes))

/-- An operation went from `s` to `out`: the invariant holds again, and a failure is one
of those that `refusal` allows. -/
structure Advances (refusal : Failure → Prop) (out : Session × Reply) : Prop where
  sound : out.1.Sound
  refused : ∀ e, out.2 = .failed e → refusal e

theorem mem_held {s : Session} {name : String} {t : ByteString}
    (ht : s.strings.get? name = some t) : t.view ∈ s.held :=
  List.mem_map.mpr ⟨t, Registers.mem_values_of_get? ht, rfl⟩

section

variable {s : Session} {refusal : Failure → Prop} (h : s.Sound)
include h

/-- The string of a name apart from the others. -/
theorem Sound.apart {name : String} {t : ByteString} (ht : s.strings.get? name = some t) :
    s.memory.Sound (t.view :: (s.strings.erase name).values.map ByteString.view) :=
  h.memory.perm ((Registers.values_erase_perm h.ordered ht).map _).symm

theorem Sound.set {name : String} {t : ByteString} {m : Memory UInt8}
    (hm : m.Sound (t.view :: (s.strings.erase name).values.map ByteString.view))
    (hgrants : m.grants = s.memory.grants) :
    Sound { memory := m, strings := s.strings.set name t } :=
  ⟨h.ordered.set name t,
    hm.perm ((Registers.values_set_perm_erase h.ordered name t).map _).symm, hgrants ▸ h.small⟩

theorem Sound.keep {r : Reply} (hr : ∀ e, r ≠ .failed e) : Advances refusal (s, r) :=
  ⟨h, fun e he => (hr e he).elim⟩

theorem Sound.on (name : String) {act : ByteString → Session × Reply}
    (hact : ∀ t, s.strings.get? name = some t → Advances refusal (act t)) :
    Advances refusal (s.on name act) := by
  unfold Session.on
  split
  · rename_i t ht
    exact hact t ht
  · exact h.keep fun e => by simp

theorem Sound.onBoth (a b : String) {act : ByteString → ByteString → Session × Reply}
    (hact : ∀ t u, s.strings.get? a = some t → s.strings.get? b = some u →
      Advances refusal (act t u)) :
    Advances refusal (s.onBoth a b act) :=
  h.on a fun t ht => h.on b fun u hu => hact t u ht hu

theorem Sound.answer {β : Type} {reply : β → Reply} {m : Memory UInt8}
    (hshape : SameShape s.memory m) (b : β) (hreply : ∀ e, reply b ≠ .failed e) :
    Advances refusal (s.answer reply (m, .ok b)) :=
  ⟨⟨h.ordered, h.memory.of_sameShape hshape, hshape.grants_eq ▸ h.small⟩,
    fun e he => (hreply e he).elim⟩

theorem Sound.read {name : String} {t : ByteString} (ht : s.strings.get? name = some t) {β : Type}
    {reply : β → Reply} (use : List UInt8 → β) (hreply : ∀ b e, reply b ≠ .failed e) :
    Advances refusal (s.answer reply (t.read s.memory use)) := by
  obtain ⟨change, hread⟩ := ByteString.read_ok (h.memory.within _ (mem_held ht)) use
  rw [hread]
  exact h.answer (.note _ _) _ (hreply _)

/-- One more string under a name. -/
theorem Sound.store (name : String) {m : Memory UInt8} {t : ByteString}
    (hm : m.Sound (t.view :: s.held)) (hgrants : m.grants = s.memory.grants) :
    Advances refusal (s.store name (m, .ok t)) := by
  refine ⟨h.set ?_ hgrants, fun e he => by cases he⟩
  cases ht : s.strings.get? name with
  | none =>
    rw [Registers.erase_eq_self ht]
    exact hm.empty.drop.1
  | some old =>
    have hperm := (((Registers.values_erase_perm h.ordered ht).map ByteString.view).symm.cons
      t.view).trans (List.Perm.swap old.view t.view _)
    exact (hm.perm hperm).drop.1

theorem Sound.storeJoined (name : String) {length : Nat} (op : Op) (hop : op.Joins)
    {result : Memory UInt8 × Except Failure ByteString}
    (hjoined : ByteString.Joined s.memory s.held length result) :
    Advances (s.Refusal op) (s.store name result) := by
  cases hjoined with
  | made hsound hgrants => exact h.store name hsound hgrants
  | refused hrefused =>
    refine ⟨h, fun e he => ?_⟩
    cases he
    exact .memory hop hrefused

/-- Joining another string, which may be one that no name stands for, behind that of a
name.  `others` are the views beside those two. -/
theorem append_cases {m : Memory UInt8} {t u : ByteString} {others : List Window}
    (hm : m.Sound (t.view :: others)) (hu : u.view ∈ t.view :: others)
    (hgrants : m.grants = s.memory.grants) :
    (∃ m' joined, ByteString.append m t u = (m', .ok joined) ∧ m'.Sound (joined.view :: others) ∧
        m'.grants = s.memory.grants) ∨
      ∃ bytes, ByteString.append m t u = (m, .error (.fault (.allocationFailed bytes))) ∧
        s.memory.grants bytes = false := by
  have hsmall : m.grants sizeLimit = false := hgrants ▸ h.small
  have hjoined := ByteString.joined_concat hm hsmall List.mem_cons_self hu
  unfold ByteString.append
  cases hconcat : ByteString.concat m t u with
  | mk m₁ result =>
    rw [hconcat] at hjoined
    cases hjoined with
    | made hsound hsame =>
      rename_i joined
      obtain ⟨hdropped, hd⟩ := (hsound.perm (List.Perm.swap _ _ _)).drop
      exact .inl ⟨_, joined, rfl, hdropped, hd.grants_eq.trans (hsame.trans hgrants)⟩
    | refused hrefused => exact .inr ⟨_, rfl, hgrants ▸ hrefused⟩

end

theorem append_advances {s : Session} (h : s.Sound) {name source : String} {t u : ByteString}
    (ht : s.strings.get? name = some t) (hu : s.strings.get? source = some u) :
    Advances (s.Refusal (.append name source)) (s.replace name (t.append s.memory u)) := by
  have hmem : u.view ∈ t.view :: (s.strings.erase name).values.map ByteString.view :=
    ((Registers.values_erase_perm h.ordered ht).map ByteString.view).mem_iff.mpr (mem_held hu)
  rcases append_cases h (h.apart ht) hmem rfl with ⟨m, joined, hresult, hsound, hgrants⟩ |
    ⟨bytes, hresult, hrefused⟩
  · rw [hresult]
    exact ⟨h.set hsound hgrants, fun e he => by cases he⟩
  · rw [hresult]
    refine ⟨h, fun e he => ?_⟩
    cases he
    exact .memory trivial hrefused

theorem pushText_advances {s : Session} (h : s.Sound) {name : String} {t : ByteString}
    (ht : s.strings.get? name = some t) (text : String) :
    Advances (s.Refusal (.pushText name text)) (s.replace name (t.pushText s.memory text)) := by
  have hjoined := ByteString.joined_ofBytes (h.apart ht) h.small (Text.encode text)
  unfold ByteString.pushText ByteString.ofText
  cases hof : ByteString.ofBytes s.memory (Text.encode text) with
  | mk m₁ result =>
    rw [hof] at hjoined
    cases hjoined with
    | refused hrefused =>
      refine ⟨h, fun e he => ?_⟩
      cases he
      exact .memory trivial hrefused
    | made hsound hgrants =>
      rename_i u
      -- the string of the text lives until it has been joined
      have hswapped := hsound.perm (List.Perm.swap _ _ _)
      dsimp only
      rcases append_cases h hswapped (List.mem_cons_of_mem _ List.mem_cons_self) hgrants with
        ⟨m, joined, hresult, hsound', hgrants'⟩ | ⟨bytes, hresult, hrefused⟩
      · rw [hresult]
        obtain ⟨hdropped, hd⟩ := (hsound'.perm (List.Perm.swap _ _ _)).drop
        exact ⟨h.set hdropped (hd.grants_eq.trans hgrants'), fun e he => by cases he⟩
      · rw [hresult]
        obtain ⟨hdropped, hd⟩ := hsound.drop
        refine ⟨⟨h.ordered, hdropped.perm ((Registers.values_erase_perm h.ordered ht).map _),
          (hd.grants_eq.trans hgrants) ▸ h.small⟩, fun e he => ?_⟩
        cases he
        exact .memory trivial hrefused

theorem apply_advances {s : Session} (h : s.Sound) (op : Op) :
    Advances (s.Refusal op) (s.apply op) := by
  cases op with
  | empty name => exact h.store name h.memory.empty rfl
  | ofBytes name bytes =>
    exact h.storeJoined name (.ofBytes name bytes) trivial
      (ByteString.joined_ofBytes h.memory h.small bytes)
  | ofText name text =>
    exact h.storeJoined name (.ofText name text) trivial
      (ByteString.joined_ofBytes h.memory h.small _)
  | clone name source =>
    refine h.on source fun t ht => ?_
    exact h.store name (h.memory.retain (mem_held ht) rfl rfl (h.memory.within _ (mem_held ht))) rfl
  | substring name source start stop =>
    refine h.on source fun t ht => ?_
    rcases ByteString.substring_cases h.memory (mem_held ht) start stop with ⟨hbounds, hresult⟩ |
      ⟨m, u, hresult, hsound, hgrants⟩
    · rw [hresult]
      refine ⟨h, fun e he => ?_⟩
      cases he
      exact .substring ht hbounds
    · rw [hresult]
      exact h.store name hsound hgrants
  | concat name a b =>
    refine h.onBoth a b fun t u ht hu => ?_
    exact h.storeJoined name (.concat name a b) trivial
      (ByteString.joined_concat h.memory h.small (mem_held ht) (mem_held hu))
  | append name source => exact h.onBoth name source fun t u ht hu => append_advances h ht hu
  | pushText name text => exact h.on name fun t ht => pushText_advances h ht text
  | drop name =>
    rw [Session.apply]
    split
    · exact h.keep fun e => by simp
    · rename_i t ht
      obtain ⟨hsound, hdropped⟩ := (h.apart ht).drop
      exact ⟨⟨h.ordered.erase name, hsound, hdropped.grants_eq ▸ h.small⟩, fun e he => by cases he⟩
  | equal a b =>
    refine h.onBoth a b fun t u ht hu => ?_
    obtain ⟨change, hequal⟩ := View.Session.equal_ok (h.memory.within _ (mem_held ht))
      (h.memory.within _ (mem_held hu))
    rw [ByteString.equal, hequal]
    exact h.answer (.note _ _) _ fun e => by simp
  | compare a b =>
    refine h.onBoth a b fun t u ht hu => ?_
    obtain ⟨change, hcompare⟩ := ByteString.compare_ok (h.memory.within _ (mem_held ht))
      (h.memory.within _ (mem_held hu))
    rw [hcompare]
    exact h.answer (.note _ _) _ fun e => by simp
  | sharesStore a b => exact h.onBoth a b fun t u _ _ => h.keep fun e => by simp
  | byteAt name index =>
    refine h.on name fun t ht => ?_
    have hwithin := h.memory.within _ (mem_held ht)
    by_cases hrange : index < 0 ∨ (t.length : Int) ≤ index
    · rw [ByteString.byteAt, get_error hrange]
      refine ⟨h, fun e he => ?_⟩
      cases he
      exact .byteAt ht hrange
    · have hlength : t.length = t.view.length := rfl
      obtain ⟨i, rfl⟩ : ∃ i : Nat, index = i := ⟨index.toNat, by omega⟩
      obtain ⟨a, -, hget⟩ := hwithin.get (show i < t.view.length by omega)
      rw [ByteString.byteAt, hget]
      exact h.answer (.note _ _) a fun e => by simp
  | length name => exact h.on name fun t _ => h.keep fun e => by simp
  | bytes name => exact h.on name fun t ht => h.read ht _ fun _ _ => by simp
  | text name => exact h.on name fun t ht => h.read ht _ fun _ _ => by simp
  | debug name => exact h.on name fun t ht => h.read ht _ fun _ _ => by simp
  | hash name => exact h.on name fun t ht => h.read ht _ fun _ _ => by simp

/-- The session after operations, on a machine whose allocator grants what `grants` says. -/
def run (grants : Nat → Bool) (ops : List Op) : Session :=
  ops.foldl (fun s op => (s.apply op).1) { memory := { grants } }

theorem run_sound {grants : Nat → Bool} (hsmall : grants sizeLimit = false) (ops : List Op) :
    (run grants ops).Sound := by
  suffices ∀ (ops : List Op) (s : Session), s.Sound →
      (ops.foldl (fun s op => (s.apply op).1) s).Sound from
    this ops _ (sound_initial hsmall)
  intro ops
  induction ops with
  | nil => exact fun s h => h
  | cons op rest ih => exact fun s h => ih _ (apply_advances h op).sound

end Session

end Bytes

/-- After any operations on views, and after any operations on byte strings, every view
lies within its store, and the next operation fails only in the ways listed: none reads an
empty pointer or a slot outside a store, and no size overflows but those that a view
reserves. -/
theorem views_stay_within_stores :
    (∀ {α : Type} [View.Element α] [DecidableEq α] (grants : Nat → Bool) (ops : List (View.Op α))
        (op : View.Op α), (∀ o ∈ ops, o.Fits) → op.Fits →
      let s := View.Session.run grants ops
      (∀ name v, s.views.get? name = some v → s.memory.Placed v) ∧
        ∀ e, (s.apply op).2 = .failed e → s.Refusal op e) ∧
    ∀ (grants : Nat → Bool) (ops : List Bytes.Op) (op : Bytes.Op), grants sizeLimit = false →
      let s := Bytes.Session.run grants ops
      (∀ name t, s.strings.get? name = some t → s.memory.Placed t.view) ∧
        ∀ e, (s.apply op).2 = .failed e → s.Refusal op e := by
  refine ⟨fun grants ops op hops hop => ?_, fun grants ops op hsmall => ?_⟩
  · have hsound := View.Session.run_sound grants hops
    exact ⟨fun name v hv => hsound.memory.placed (Registers.mem_values_of_get? hv),
      (View.Session.apply_advances hsound hop).refused⟩
  · have hsound := Bytes.Session.run_sound hsmall ops
    exact ⟨fun name t ht => hsound.memory.placed (Bytes.Session.mem_held ht),
      (Bytes.Session.apply_advances hsound op).refused⟩

/-- A view of two elements in the middle of a store of three, after a failed write and a
push over an element of the store it was cut from. -/
def cutOps : List (View.Op Int) :=
  [.ofList "a" [1, 2, 3], .slice "b" "a" 1 2, .set "a" 3 0, .push "b" 9]

/-- A string cut out of another. -/
def cutStringOps : List Bytes.Op := [.ofText "s" "abc", .substring "t" "s" 1 3]

theorem views_stay_within_stores_cut :
    (∀ o ∈ cutOps, o.Fits) ∧ (View.Op.slice "c" "b" 0 3 : View.Op Int).Fits ∧
      (View.Session.run (· < 100) cutOps).memory.Placed ⟨some 0, 1, 2, 2⟩ ∧
      (View.Session.run (· < 100) cutOps).Refusal (.slice "c" "b" 0 3)
        (.fault (.slicingOutOfRange 0 3 2)) ∧
      decide (sizeLimit < 100) = false ∧
      (Bytes.Session.run (· < 100) cutStringOps).memory.Placed ⟨some 0, 1, 2, 2⟩ ∧
      (Bytes.Session.run (· < 100) cutStringOps).Refusal (.byteAt "t" 2)
        (.fault (.indexOutOfRange 2 2)) := by
  have hops : ∀ o ∈ cutOps, o.Fits := by simp [cutOps, View.Op.Fits, sizeLimit]
  have hsmall : decide (sizeLimit < 100) = false := by decide
  obtain ⟨hplaced, hrefused⟩ := views_stay_within_stores.1 (· < 100) cutOps
    (.slice "c" "b" 0 3) hops trivial
  obtain ⟨hplaced', hrefused'⟩ := views_stay_within_stores.2 (· < 100) cutStringOps
    (.byteAt "t" 2) hsmall
  exact ⟨hops, trivial, hplaced "b" _ (by decide +kernel), hrefused _ (by rfl), hsmall,
    hplaced' "t" ⟨_⟩ (by decide +kernel), hrefused' _ (by decide +kernel)⟩

end Substrate
