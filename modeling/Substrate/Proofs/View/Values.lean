import Substrate.Proofs.View.Strings

/-!
# Byte strings as values

A byte string shares its store with its clones and with what was cut from it,
yet nothing that happens to one of them can be seen through another.  So a
session of strings behaves as a table of byte sequences: `Session.value` is
what a name stands for there, and `Op.result` is what an operation assigns,
computed from those sequences alone.

There are three groups of facts.

* Stores.  `Memory.Fresh` says that a view was made on a store that no other
  view has, that it shows given values, and that the others show what they
  showed.  Writing behind its elements keeps this.
* Strings.  Strings of given bytes and joined strings are fresh, and what they
  were given is exactly what they have room for.
* Sessions.  `Session.Effect` says what one operation does to the strings, and
  `strings_are_values` draws it together for whole runs.
-/

namespace Substrate

open View (Memory Window sizeLimit)

namespace View.Memory

/-! ## Fresh stores -/

section

variable {α : Type} {m m' m'' : Memory α} {v u : Window} {held : List Window} {values more : List α}

theorem sharesStore_eq_false :
    v.sharesStore u = false ↔ ∀ k, v.store = some k → u.store ≠ some k := by
  unfold Window.sharesStore
  cases hv : v.store with
  | none => simp
  | some i =>
    simp only [Option.isSome_some, Bool.true_and, beq_eq_false_iff_ne, Option.some.injEq]
    exact ⟨fun h k hk => hk ▸ h.symm, fun h hu => h i rfl hu.symm⟩

theorem Dropped.contents_eq (h : Dropped m m') (w : Window) : m'.contents w = m.contents w :=
  contents_congr fun k _ => h.payload_eq k

/-- `v` shows `values` on a store that none of the views held has, and each of those shows
what it showed. -/
structure Fresh (m m' : Memory α) (held : List Window) (v : Window) (values : List α) : Prop where
  sound : m'.Sound (v :: held)
  grants_eq : m'.grants = m.grants
  contents_eq : m'.contents v = values
  apart : ∀ w ∈ held, v.sharesStore w = false
  kept : ∀ w ∈ held, m'.contents w = m.contents w

theorem Fresh.write (h : Fresh m m' held v values) (hwrote : Wrote m' m'' v v.length more)
    (hroom : v.length + more.length ≤ v.capacity) :
    Fresh m m'' held { v with length := v.length + more.length } (values ++ more) where
  sound := (h.sound.of_sameShape hwrote.sameShape).lengthen hroom
  grants_eq := hwrote.grants_eq.trans h.grants_eq
  contents_eq := by
    rw [hwrote.contents_lengthened (h.sound.within v List.mem_cons_self) hroom, h.contents_eq]
  apart := h.apart
  kept := fun w hw => by
    rw [hwrote.contents_of_ne (sharesStore_eq_false.mp (h.apart w hw)), h.kept w hw]

end

section

variable {α : Type} [Element α] {m m' m'' : Memory α} {v u : Window} {held : List Window}
  {values more : List α}

/-- A new view has no store or a new one, and the stores there were are as they were. -/
theorem alloc_store {length capacity : Int} (h : m.alloc length capacity = (m', .ok u)) :
    (∀ k, u.store = some k → k = m.stores.size) ∧
      ∀ k, k < m.stores.size → m'.stores.payload k = m.stores.payload k := by
  unfold Memory.alloc at h
  rw [allocate_eq] at h
  split at h
  · simp at h
  · split at h
    · obtain ⟨rfl, hu⟩ := Prod.mk.inj h
      cases hu
      exact ⟨fun k hk => (Option.some_ne_none k hk.symm).elim, fun _ _ => rfl⟩
    · split at h
      · simp at h
      · rename_i m₁ slots hmade
        split at hmade
        · obtain ⟨rfl, rfl⟩ := Prod.mk.inj (Except.ok.inj hmade)
          have hstore := made_newStore (m.note (·.make capacity.toNat))
            (List.replicate capacity.toNat (Element.blank : α)) length.toNat
          obtain ⟨rfl, hu⟩ := Prod.mk.inj h
          cases hu
          refine ⟨fun k hk => ?_, fun k hk => ?_⟩
          · exact (Option.some.inj (hstore.store_eq.symm.trans hk)).symm
          · exact (hstore.payload_eq k).trans (if_neg (Nat.ne_of_lt hk))
        · cases hmade

theorem Sound.alloc_fresh (h : m.Sound held) {capacity : Nat}
    (hsize : m.grants (bytesFor α capacity) = true → capacity ≤ sizeLimit)
    (halloc : m.alloc 0 capacity = (m', .ok u)) :
    Fresh m m' held u [] ∧ u.length = 0 ∧ u.capacity = capacity := by
  have hallotted := h.alloc 0 capacity fun hgrants => by exact_mod_cast hsize hgrants
  rw [halloc] at hallotted
  obtain ⟨hnew, hold⟩ := alloc_store halloc
  cases hallotted with
  | made hrange hlength hcapacity hsound hgrants =>
    have hlength : u.length = 0 := hlength
    refine ⟨⟨hsound, hgrants, ?_, fun w hw => ?_, fun w hw => ?_⟩, hlength, hcapacity⟩
    · rw [contents_eq, hlength, List.take_zero]
    · refine sharesStore_eq_false.mpr fun k hk hw' => ?_
      have := h.lt_size hw hw'
      have := hnew k hk
      omega
    · exact contents_congr fun k hk => hold k (h.lt_size hw hk)

/-- Adding to a fresh view that has the room leaves it fresh. -/
theorem Fresh.added (h : Fresh m m' held v values)
    (hadded : Added m' held v more.length more (m'', .ok u))
    (hroom : v.length + more.length ≤ v.capacity) :
    Fresh m m'' held u (values ++ more) ∧ u.length = v.length + more.length ∧
      u.capacity = v.capacity := by
  cases hadded with
  | within hfit hwrote => exact ⟨h.write hwrote hroom, rfl, rfl⟩
  | grown hfull hgrown hsound hwrote => omega

end

end View.Memory

namespace ByteString

open View.Memory

variable {m m' : Memory UInt8} {held : List Window}

/-! ## Strings on fresh stores -/

theorem ofBytes_fresh (h : m.Sound held) (hsmall : m.grants sizeLimit = false)
    {bytes : List UInt8} {t : ByteString} (hof : ofBytes m bytes = (m', .ok t)) :
    Fresh m m' held t.view bytes ∧ t.view.capacity = t.view.length := by
  unfold ofBytes at hof
  cases halloc : m.alloc 0 bytes.length with
  | mk m₁ result =>
    rw [halloc] at hof
    cases result with
    | error e => cases hof
    | ok v =>
      obtain ⟨hfresh, hlength, hcapacity⟩ :=
        h.alloc_fresh (length_le_of_grants hsmall) halloc
      have hadded := hfresh.sound.extend bytes
      simp only [ofView] at hof
      cases hextend : m₁.extend v bytes with
      | mk m₂ result =>
        rw [hextend] at hof hadded
        cases result with
        | error e => cases hof
        | ok u =>
          cases hof
          obtain ⟨hfresh', hlength', hcapacity'⟩ := hfresh.added hadded (by omega)
          refine ⟨hfresh', ?_⟩
          show u.capacity = u.length
          omega

/-- The bytes of a string held go behind a fresh view. -/
theorem append_fresh {m₁ : Memory UInt8} {v u : Window} {s : ByteString} {bytes : List UInt8}
    (hfresh : Fresh m m₁ held v bytes) (hs : s.view ∈ held)
    (hroom : v.length + s.length ≤ v.capacity) (happend : m₁.append v s.view = (m', .ok u)) :
    Fresh m m' held u (bytes ++ s.bytes m) ∧ u.length = v.length + s.length ∧
      u.capacity = v.capacity := by
  have hwithin := hfresh.sound.within s.view (List.mem_cons_of_mem _ hs)
  have hlength : (m₁.contents s.view).length = s.length := hwithin.length_contents
  have hadded := hfresh.sound.append hwithin
  rw [happend, ← hwithin.length_contents] at hadded
  have hresult := hfresh.added hadded (by omega)
  rw [hfresh.kept s.view hs] at hresult hlength
  rw [hlength] at hresult
  exact hresult

theorem concat_fresh (h : m.Sound held) (hsmall : m.grants sizeLimit = false) {s t u : ByteString}
    (hs : s.view ∈ held) (ht : t.view ∈ held) (hconcat : concat m s t = (m', .ok u)) :
    Fresh m m' held u.view (s.bytes m ++ t.bytes m) ∧ u.view.capacity = u.view.length := by
  unfold concat at hconcat
  rw [← Int.natCast_add] at hconcat
  cases halloc : m.alloc 0 (s.length + t.length : Nat) with
  | mk m₁ result =>
    rw [halloc] at hconcat
    cases result with
    | error e => cases hconcat
    | ok v =>
      obtain ⟨hfresh, hlength, hcapacity⟩ :=
        h.alloc_fresh (length_le_of_grants hsmall) halloc
      dsimp only at hconcat
      cases hfirst : m₁.append v s.view with
      | mk m₂ result =>
        rw [hfirst] at hconcat
        cases result with
        | error e => cases hconcat
        | ok v₁ =>
          obtain ⟨hfresh₁, hlength₁, hcapacity₁⟩ := append_fresh hfresh hs (by omega) hfirst
          simp only [ofView] at hconcat
          cases hsecond : m₂.append v₁ t.view with
          | mk m₃ result =>
            rw [hsecond] at hconcat
            cases result with
            | error e => cases hconcat
            | ok v₂ =>
              cases hconcat
              obtain ⟨hfresh₂, hlength₂, hcapacity₂⟩ := append_fresh hfresh₁ ht (by omega) hsecond
              refine ⟨hfresh₂, ?_⟩
              show v₂.capacity = v₂.length
              omega

/-- The bytes of a part of a string. -/
theorem substring_bytes {s t : ByteString} {start stop : Int}
    (hsub : substring m s start stop = (m', .ok t)) :
    t.bytes m' = (s.bytes m).extract start.toNat stop.toNat ∧
      t.view.capacity = t.view.length ∧ ∀ w, m'.contents w = m.contents w := by
  unfold substring Memory.slice at hsub
  split at hsub
  · cases hsub
  · rename_i m₁ w hslice
    cases hsub
    split at hslice
    · simp at hslice
    · rename_i hbounds
      split at hslice
      · simp at hslice
      · obtain ⟨rfl, hw⟩ := Prod.mk.inj hslice
        cases hw
        have hlength : s.view.clamped.capacity = s.view.length := rfl
        refine ⟨?_, rfl, fun w => contents_congr fun k _ => payload_retain _ _ _⟩
        rw [bytes, bytes, contents_congr fun k _ => payload_retain m s.view.clamped k, contents_eq,
          contents_eq, List.extract_eq_take_drop]
        show ((m.slots s.view).drop (s.view.cursor + start.toNat)).take (stop - start).toNat = _
        rw [List.drop_take, List.drop_drop, List.take_take]
        congr 1
        omega

end ByteString

namespace Bytes

/-- The name that an operation gives a string to, or takes the string from. -/
def Op.assigns : Op → Option String
  | .empty name | .ofBytes name _ | .ofText name _ | .clone name _ | .substring name _ _ _
  | .concat name _ _ | .append name _ | .pushText name _ | .drop name => some name
  | _ => none

/-- The bytes that an operation assigns, from the bytes that names stood for before it. -/
def Op.result (values : String → Option (List UInt8)) : Op → Option (List UInt8)
  | .empty _ => some []
  | .ofBytes _ given => some given
  | .ofText _ given => some (Text.encode given)
  | .clone _ source => values source
  | .substring _ source start stop => (values source).map (·.extract start.toNat stop.toNat)
  | .concat _ a b | .append a b => (values a).bind fun s => (values b).map (s ++ ·)
  | .pushText name given => (values name).map (· ++ Text.encode given)
  | _ => none

/-- Whether an operation was carried out. -/
def Reply.carriedOut : Reply → Bool
  | .refused | .failed _ => false
  | _ => true

namespace Session

open View.Memory

/-- The bytes that a name stands for. -/
def value (s : Session) (name : String) : Option (List UInt8) :=
  (s.strings.get? name).map (·.bytes s.memory)

theorem value_eq {s : Session} {name : String} {t : ByteString}
    (ht : s.strings.get? name = some t) : s.value name = some (t.bytes s.memory) := by
  rw [value, ht]
  rfl

/-- What an operation does to the strings. -/
inductive Effect (s : Session) (op : Op) : Session × Reply → Prop
  | kept {m : Memory UInt8} {r : Reply}
      (hkept : ∀ w ∈ s.held, m.contents w = s.memory.contents w)
      (hidle : ∀ name, op.assigns = some name → r.carriedOut = true →
        s.value name = none ∧ op.result s.value = none) :
      Effect s op ({ s with memory := m }, r)
  | assigned {name : String} {m : Memory UInt8} {t : ByteString}
      (hop : op.assigns = some name) (hresult : op.result s.value = some (t.bytes m))
      (hexact : t.view.capacity = t.view.length)
      (hapart : op.Joins → ∀ w ∈ s.held, t.view.sharesStore w = false)
      (hkept : ∀ w ∈ s.held, m.contents w = s.memory.contents w) :
      Effect s op ({ memory := m, strings := s.strings.set name t }, .nothing)
  | erased {name : String} {m : Memory UInt8} (hop : op = .drop name)
      (hkept : ∀ w ∈ s.held, m.contents w = s.memory.contents w) :
      Effect s op ({ memory := m, strings := s.strings.erase name }, .truth true)

/-- Every string has room for its bytes and no more. -/
def Exact (s : Session) : Prop :=
  ∀ name t, s.strings.get? name = some t → t.view.capacity = t.view.length

section

variable {s : Session} {op : Op}

/-- The operation only looks at strings. -/
theorem effect_same {r : Reply} (hop : op.assigns = none) : Effect s op (s, r) :=
  .kept (fun _ _ => rfl) fun name hname => by simp [hop] at hname

/-- The operation was not carried out. -/
theorem effect_failed {m : Memory UInt8} {r : Reply}
    (hkept : ∀ w ∈ s.held, m.contents w = s.memory.contents w) (hr : r.carriedOut = false) :
    Effect s op ({ s with memory := m }, r) :=
  .kept hkept fun name _ hdone => by simp [hr] at hdone

theorem effect_on (name : String) {act : ByteString → Session × Reply}
    (hact : ∀ t, s.strings.get? name = some t → Effect s op (act t)) :
    Effect s op (s.on name act) := by
  unfold Session.on
  split
  · rename_i t ht
    exact hact t ht
  · exact effect_failed (fun _ _ => rfl) rfl

theorem effect_onBoth (a b : String) {act : ByteString → ByteString → Session × Reply}
    (hact : ∀ t u, s.strings.get? a = some t → s.strings.get? b = some u → Effect s op (act t u)) :
    Effect s op (s.onBoth a b act) :=
  effect_on a fun t ht => effect_on b fun u hu => hact t u ht hu

theorem effect_answer {β : Type} {reply : β → Reply} (change : View.Ledger → View.Ledger)
    {result : Except Failure β} (hop : op.assigns = none) :
    Effect s op (s.answer reply (s.memory.note change, result)) := by
  cases result with
  | ok b =>
    exact .kept (m := s.memory.note change) (fun _ _ => rfl)
      fun name hname => by simp [hop] at hname
  | error e =>
    exact .kept (m := s.memory.note change) (fun _ _ => rfl)
      fun name hname => by simp [hop] at hname

theorem effect_read (h : s.Sound) {name : String} {t : ByteString}
    (ht : s.strings.get? name = some t) {β : Type} {reply : β → Reply} (use : List UInt8 → β)
    (hop : op.assigns = none) : Effect s op (s.answer reply (t.read s.memory use)) := by
  obtain ⟨change, hread⟩ := ByteString.read_ok (h.memory.within _ (mem_held ht)) use
  rw [hread]
  exact effect_answer _ hop

/-- The string that a name had is let go of; every view shows what it showed. -/
theorem dropped_old (h : s.Sound) {m : Memory UInt8} {t : ByteString} (name : String)
    (hm : m.Sound (t.view :: s.held)) :
    Dropped m (ByteString.drop m ((s.strings.get? name).getD .empty)) := by
  cases ht : s.strings.get? name with
  | none => exact hm.empty.drop.2
  | some old =>
    have hperm := (((Registers.values_erase_perm h.ordered ht).map ByteString.view).symm.cons
      t.view).trans (List.Perm.swap old.view t.view _)
    exact (hm.perm hperm).drop.2

theorem effect_store (h : s.Sound) {name : String} (hop : op.assigns = some name)
    {m : Memory UInt8} {t : ByteString} (hm : m.Sound (t.view :: s.held))
    (hresult : op.result s.value = some (t.bytes m)) (hexact : t.view.capacity = t.view.length)
    (hapart : op.Joins → ∀ w ∈ s.held, t.view.sharesStore w = false)
    (hkept : ∀ w ∈ s.held, m.contents w = s.memory.contents w) :
    Effect s op (s.store name (m, .ok t)) := by
  have hdropped := dropped_old h name hm
  refine .assigned hop ?_ hexact hapart fun w hw => ?_
  · rw [hresult, ByteString.bytes, ByteString.bytes, hdropped.contents_eq]
  · rw [hdropped.contents_eq, hkept w hw]

/-- A string that was made on a fresh store goes under a name. -/
theorem effect_storeFresh (h : s.Sound) {name : String} (hop : op.assigns = some name)
    {length : Nat} {out : Memory UInt8 × Except Failure ByteString} {bytes : List UInt8}
    (hjoined : ByteString.Joined s.memory s.held length out)
    (hfresh : ∀ m t, out = (m, .ok t) →
      Fresh s.memory m s.held t.view bytes ∧ t.view.capacity = t.view.length)
    (hresult : op.result s.value = some bytes) : Effect s op (s.store name out) := by
  cases hjoined with
  | made hsound hgrants =>
    obtain ⟨hfresh, hexact⟩ := hfresh _ _ rfl
    refine effect_store h hop hfresh.sound ?_ hexact (fun _ => hfresh.apart) hfresh.kept
    rw [hresult, ByteString.bytes, hfresh.contents_eq]
  | refused hrefused => exact effect_failed (fun _ _ => rfl) rfl

end

theorem clone_effect {s : Session} (h : s.Sound) (hexact : s.Exact) {name source : String}
    {t : ByteString} (ht : s.strings.get? source = some t) :
    Effect s (.clone name source) (s.store name (s.memory.retain t.view, .ok t)) := by
  have hkept : ∀ w, (s.memory.retain t.view).contents w = s.memory.contents w :=
    fun w => contents_congr fun k _ => payload_retain _ _ k
  refine effect_store h rfl
    (h.memory.retain (mem_held ht) rfl rfl (h.memory.within _ (mem_held ht))) ?_ (hexact _ _ ht)
    (fun hjoins => hjoins.elim) fun w _ => hkept w
  rw [Op.result, value_eq ht, ByteString.bytes, ByteString.bytes, hkept]

theorem substring_effect {s : Session} (h : s.Sound) {name source : String} {t : ByteString}
    (ht : s.strings.get? source = some t) (start stop : Int) :
    Effect s (.substring name source start stop)
      (s.store name (t.substring s.memory start stop)) := by
  rcases ByteString.substring_cases h.memory (mem_held ht) start stop with ⟨-, hresult⟩ |
    ⟨m, u, hresult, hsound, -⟩
  · rw [hresult]
    exact effect_failed (fun _ _ => rfl) rfl
  · obtain ⟨hbytes, hexact, hkept⟩ :=
      ByteString.substring_bytes hresult
    rw [hresult]
    refine effect_store h rfl hsound ?_ hexact (fun hjoins => hjoins.elim) fun w _ => hkept w
    rw [Op.result, value_eq ht, hbytes]
    rfl

/-- Joining puts a fresh string in the place of the first one, among whatever other views. -/
theorem append_fresh {m m' : Memory UInt8} {others : List Window} {t u joined : ByteString}
    (hm : m.Sound (t.view :: others)) (hsmall : m.grants sizeLimit = false)
    (hu : u.view ∈ t.view :: others) (happend : ByteString.append m t u = (m', .ok joined)) :
    (∀ w ∈ t.view :: others, m'.contents w = m.contents w ∧ joined.view.sharesStore w = false) ∧
      joined.bytes m' = t.bytes m ++ u.bytes m ∧ joined.view.capacity = joined.view.length := by
  unfold ByteString.append at happend
  cases hconcat : ByteString.concat m t u with
  | mk m₁ result =>
    rw [hconcat] at happend
    cases result with
    | error e => cases happend
    | ok made =>
      cases happend
      obtain ⟨hfresh, hexact⟩ :=
        ByteString.concat_fresh hm hsmall List.mem_cons_self hu hconcat
      have hdropped := ((hfresh.sound.perm (List.Perm.swap _ _ _)).drop).2
      refine ⟨fun w hw => ⟨?_, hfresh.apart w hw⟩, ?_, hexact⟩
      · rw [ByteString.drop, hdropped.contents_eq, hfresh.kept w hw]
      · rw [ByteString.bytes, ByteString.drop, hdropped.contents_eq, hfresh.contents_eq]

/-- The string of a name and the others are all that is held. -/
theorem Sound.mem_apart {s : Session} (h : s.Sound) {name : String} {t : ByteString}
    (ht : s.strings.get? name = some t) {w : Window} :
    w ∈ t.view :: (s.strings.erase name).values.map ByteString.view ↔ w ∈ s.held :=
  ((Registers.values_erase_perm h.ordered ht).map ByteString.view).mem_iff

theorem append_effect {s : Session} (h : s.Sound) {name source : String} {t u : ByteString}
    (ht : s.strings.get? name = some t) (hu : s.strings.get? source = some u) :
    Effect s (.append name source) (s.replace name (t.append s.memory u)) := by
  have hmem := (h.mem_apart ht).mpr (mem_held hu)
  rcases append_cases h (h.apart ht) hmem rfl with ⟨m, joined, hresult, -, -⟩ | ⟨bytes, hresult, -⟩
  · obtain ⟨hothers, hbytes, hexact⟩ := append_fresh (h.apart ht) h.small hmem hresult
    rw [hresult]
    refine .assigned rfl ?_ hexact (fun _ w hw => (hothers w ((h.mem_apart ht).mpr hw)).2)
      fun w hw => (hothers w ((h.mem_apart ht).mpr hw)).1
    rw [Op.result, value_eq ht, value_eq hu, hbytes]
    rfl
  · rw [hresult]
    exact effect_failed (fun _ _ => rfl) rfl

theorem pushText_effect {s : Session} (h : s.Sound) {name : String} {t : ByteString}
    (ht : s.strings.get? name = some t) (text : String) :
    Effect s (.pushText name text) (s.replace name (t.pushText s.memory text)) := by
  have hjoined := ByteString.joined_ofBytes (h.apart ht) h.small (Text.encode text)
  unfold ByteString.pushText ByteString.ofText
  cases hof : ByteString.ofBytes s.memory (Text.encode text) with
  | mk m₁ result =>
    rw [hof] at hjoined
    cases hjoined with
    | refused hrefused => exact effect_failed (fun _ _ => rfl) rfl
    | made hsound hgrants =>
      rename_i u
      obtain ⟨hfresh, -⟩ := ByteString.ofBytes_fresh (h.apart ht) h.small hof
      have hheld : ∀ w ∈ s.held, m₁.contents w = s.memory.contents w :=
        fun w hw => hfresh.kept w ((h.mem_apart ht).mpr hw)
      -- the string of the text lives until it has been joined
      have hswapped := hsound.perm (List.Perm.swap _ _ _)
      have hmem : u.view ∈ t.view :: u.view :: (s.strings.erase name).values.map ByteString.view :=
        List.mem_cons_of_mem _ List.mem_cons_self
      dsimp only
      rcases append_cases h hswapped hmem hgrants with ⟨m, joined, hresult, hsound', -⟩ |
        ⟨bytes, hresult, -⟩
      · obtain ⟨hothers, hbytes, hexact⟩ :=
          append_fresh hswapped (hgrants ▸ h.small) hmem hresult
        have hdropped := (hsound'.perm (List.Perm.swap _ _ _)).drop.2
        have hwider : ∀ w ∈ s.held,
            w ∈ t.view :: u.view :: (s.strings.erase name).values.map ByteString.view := by
          intro w hw
          rcases List.mem_cons.mp ((h.mem_apart ht).mpr hw) with hw | hw
          · exact hw ▸ List.mem_cons_self
          · exact List.mem_cons_of_mem _ (List.mem_cons_of_mem _ hw)
        rw [hresult]
        refine .assigned rfl ?_ hexact (fun _ w hw => (hothers w (hwider w hw)).2) fun w hw => ?_
        · rw [Op.result, value_eq ht, Option.map_some]
          show _ = some ((m.drop u.view).contents joined.view)
          rw [hdropped.contents_eq]
          show _ = some (joined.bytes m)
          rw [hbytes, ByteString.bytes, ByteString.bytes, ByteString.bytes, hfresh.contents_eq,
            hheld _ (mem_held ht)]
        · show (m.drop u.view).contents w = _
          rw [hdropped.contents_eq, (hothers w (hwider w hw)).1, hheld w hw]
      · have hdropped := hsound.drop.2
        rw [hresult]
        refine effect_failed (fun w hw => ?_) rfl
        show (m₁.drop u.view).contents w = _
        rw [hdropped.contents_eq, hheld w hw]

theorem apply_effect {s : Session} (h : s.Sound) (hexact : s.Exact) (op : Op) :
    Effect s op (s.apply op) := by
  cases op with
  | empty name =>
    exact effect_store h rfl h.memory.empty rfl rfl (fun hjoins => hjoins.elim) fun _ _ => rfl
  | ofBytes name bytes =>
    exact effect_storeFresh h rfl (ByteString.joined_ofBytes h.memory h.small bytes)
      (fun m t hof => ByteString.ofBytes_fresh h.memory h.small hof) rfl
  | ofText name text =>
    exact effect_storeFresh h rfl (ByteString.joined_ofBytes h.memory h.small _)
      (fun m t hof => ByteString.ofBytes_fresh h.memory h.small hof) rfl
  | clone name source => exact effect_on source fun t ht => clone_effect h hexact ht
  | substring name source start stop =>
    exact effect_on source fun t ht => substring_effect h ht start stop
  | concat name a b =>
    refine effect_onBoth a b fun t u ht hu => ?_
    refine effect_storeFresh h rfl
      (ByteString.joined_concat h.memory h.small (mem_held ht) (mem_held hu))
      (fun m joined hconcat =>
        ByteString.concat_fresh h.memory h.small (mem_held ht) (mem_held hu) hconcat) ?_
    rw [Op.result, value_eq ht, value_eq hu]
    rfl
  | append name source => exact effect_onBoth name source fun t u ht hu => append_effect h ht hu
  | pushText name text => exact effect_on name fun t ht => pushText_effect h ht text
  | drop name =>
    rw [Session.apply]
    split
    · rename_i ht
      refine .kept (fun _ _ => rfl) fun other hother _ => ?_
      cases hother
      exact ⟨by rw [value, ht]; rfl, rfl⟩
    · rename_i t ht
      have hdropped := (h.apart ht).drop.2
      exact .erased rfl fun w _ => hdropped.contents_eq w
  | equal a b =>
    refine effect_onBoth a b fun t u ht hu => ?_
    obtain ⟨change, hequal⟩ := View.Session.equal_ok (h.memory.within _ (mem_held ht))
      (h.memory.within _ (mem_held hu))
    rw [ByteString.equal, hequal]
    exact effect_answer _ rfl
  | byteAt name index =>
    refine effect_on name fun t ht => ?_
    by_cases hrange : index < 0 ∨ (t.length : Int) ≤ index
    · rw [ByteString.byteAt, get_error hrange]
      exact effect_answer id rfl
    · have hlength : t.length = t.view.length := rfl
      obtain ⟨i, rfl⟩ : ∃ i : Nat, index = i := ⟨index.toNat, by omega⟩
      obtain ⟨a, -, hget⟩ :=
        (h.memory.within _ (mem_held ht)).get (show i < t.view.length by omega)
      rw [ByteString.byteAt, hget]
      exact effect_answer _ rfl
  | compare a b =>
    refine effect_onBoth a b fun t u ht hu => ?_
    obtain ⟨change, hcompare⟩ := ByteString.compare_ok (h.memory.within _ (mem_held ht))
      (h.memory.within _ (mem_held hu))
    rw [hcompare]
    exact effect_answer _ rfl
  | sharesStore a b => exact effect_onBoth a b fun t u _ _ => effect_same rfl
  | length name => exact effect_on name fun t _ => effect_same rfl
  | bytes name => exact effect_on name fun t ht => effect_read h ht _ rfl
  | text name => exact effect_on name fun t ht => effect_read h ht _ rfl
  | debug name => exact effect_on name fun t ht => effect_read h ht _ rfl
  | hash name => exact effect_on name fun t ht => effect_read h ht _ rfl

/-! ## Whole runs -/

section

variable {s : Session} {op : Op} {out : Session × Reply}

theorem Effect.exact (h : Effect s op out) (hexact : s.Exact) : out.1.Exact := by
  cases h with
  | kept hkept hidle => exact hexact
  | assigned hop hresult hexact' hapart hkept =>
    intro other u hu
    rw [Registers.get?_set] at hu
    split at hu
    · exact Option.some.inj hu ▸ hexact'
    · exact hexact other u hu
  | erased hop hkept =>
    intro other u hu
    rw [Registers.get?_erase] at hu
    split at hu
    · cases hu
    · exact hexact other u hu

/-- A string under a name that the operation does not assign is there again, with its
bytes. -/
theorem Effect.unchanged (h : Effect s op out) {name : String} {t : ByteString}
    (ht : s.strings.get? name = some t)
    (hname : ¬ (op.assigns = some name ∧ out.2.carriedOut = true)) :
    out.1.strings.get? name = some t ∧ t.bytes out.1.memory = t.bytes s.memory := by
  cases h with
  | kept hkept hidle => exact ⟨ht, hkept _ (mem_held ht)⟩
  | assigned hop hresult hexact hapart hkept =>
    refine ⟨?_, hkept _ (mem_held ht)⟩
    rw [Registers.get?_set, if_neg (fun heq => hname ⟨by rw [heq, hop], rfl⟩)]
    exact ht
  | erased hop hkept =>
    refine ⟨?_, hkept _ (mem_held ht)⟩
    rw [Registers.get?_erase, if_neg (fun heq => hname ⟨by rw [hop, heq]; rfl, rfl⟩)]
    exact ht

theorem Effect.value_of_ne (h : Effect s op out) {name : String}
    (hname : ¬ (op.assigns = some name ∧ out.2.carriedOut = true)) :
    out.1.value name = s.value name := by
  cases ht : s.strings.get? name with
  | some t =>
    obtain ⟨hget, hbytes⟩ := h.unchanged ht hname
    rw [value_eq hget, value_eq ht, hbytes]
  | none =>
    have hnone : out.1.strings.get? name = none := by
      cases h with
      | kept hkept hidle => exact ht
      | assigned hop hresult hexact hapart hkept =>
        rw [Registers.get?_set, if_neg (fun heq => hname ⟨by rw [heq, hop], rfl⟩)]
        exact ht
      | erased hop hkept =>
        rw [Registers.get?_erase, ht, ite_self]
    rw [value, value, hnone, ht]
    rfl

/-- What the name assigned stands for. -/
theorem Effect.value_assigned (h : Effect s op out) {name : String}
    (hname : op.assigns = some name) (hdone : out.2.carriedOut = true) :
    out.1.value name = op.result s.value := by
  cases h with
  | kept hkept hidle =>
    obtain ⟨hvalue, hresult⟩ := hidle name hname hdone
    have hnone : s.strings.get? name = none := by simpa [value] using hvalue
    rw [hresult, value, hnone]
    rfl
  | assigned hop hresult hexact hapart hkept =>
    cases hop.symm.trans hname
    rw [hresult, value, Registers.get?_set, if_pos rfl]
    rfl
  | erased hop hkept =>
    subst hop
    cases hname
    rw [value, Registers.get?_erase, if_pos rfl]
    rfl

theorem Effect.apart (h : Effect s op out) (hjoins : op.Joins) {name : String} {t : ByteString}
    (hname : op.assigns = some name) (hdone : out.2.carriedOut = true)
    (ht : out.1.strings.get? name = some t) {other : String} {u : ByteString}
    (hu : s.strings.get? other = some u) : t.sharesStore u = false := by
  cases h with
  | kept hkept hidle =>
    have hnone : s.strings.get? name = none := by simpa [value] using (hidle name hname hdone).1
    rw [hnone] at ht
    cases ht
  | assigned hop hresult hexact hapart hkept =>
    cases hop.symm.trans hname
    rw [Registers.get?_set, if_pos rfl] at ht
    cases ht
    exact hapart hjoins u.view (mem_held hu)
  | erased hop hkept =>
    subst hop
    exact hjoins.elim

end

theorem run_append (grants : Nat → Bool) (ops more : List Op) :
    run grants (ops ++ more) = more.foldl (fun s op => (s.apply op).1) (run grants ops) :=
  List.foldl_append

theorem run_exact {grants : Nat → Bool} (hsmall : grants sizeLimit = false) (ops : List Op) :
    (run grants ops).Exact := by
  suffices ∀ (ops : List Op) (s : Session), s.Sound → s.Exact →
      (ops.foldl (fun s op => (s.apply op).1) s).Exact from
    this ops _ (sound_initial hsmall) fun name t ht => by cases ht
  intro ops
  induction ops with
  | nil => exact fun s _ hexact => hexact
  | cons op rest ih =>
    intro s h hexact
    exact ih _ (apply_advances h op).sound ((apply_effect h hexact op).exact hexact)

theorem run_effect {grants : Nat → Bool} (hsmall : grants sizeLimit = false) (ops : List Op)
    (op : Op) : Effect (run grants ops) op ((run grants ops).apply op) :=
  apply_effect (run_sound hsmall ops) (run_exact hsmall ops) op

/-- Operations that assign other names leave a string as it was. -/
theorem foldl_unchanged {s : Session} (h : s.Sound) (hexact : s.Exact) {name : String}
    {t : ByteString} (ht : s.strings.get? name = some t) {ops : List Op}
    (hops : ∀ op ∈ ops, op.assigns ≠ some name) :
    let s' := ops.foldl (fun s op => (s.apply op).1) s
    s'.strings.get? name = some t ∧ t.bytes s'.memory = t.bytes s.memory := by
  induction ops generalizing s with
  | nil => exact ⟨ht, rfl⟩
  | cons op rest ih =>
    have heffect := apply_effect h hexact op
    obtain ⟨hget, hbytes⟩ := heffect.unchanged ht fun hop => hops op List.mem_cons_self hop.1
    obtain ⟨hget', hbytes'⟩ := ih (apply_advances h op).sound (heffect.exact hexact) hget
      fun o ho => hops o (List.mem_cons_of_mem _ ho)
    exact ⟨hget', hbytes'.trans hbytes⟩

end Session

/-- Byte strings are values, whatever stores they share.  After any operations every string
has room for its bytes and no more.  An operation gives the name it assigns the bytes that
follow from the bytes before, and leaves every other string as it was, bytes and all; so
does an operation that fails with every string.  A string whose name is not assigned keeps its
bytes for good, and a string that was joined shares its store with none there was before. -/
theorem strings_are_values (grants : Nat → Bool) (hsmall : grants sizeLimit = false)
    (ops : List Op) :
    let s := Session.run grants ops
    (∀ name t, s.strings.get? name = some t → t.view.capacity = t.length) ∧
    (∀ op name, (s.apply op).1.value name =
      if op.assigns = some name ∧ (s.apply op).2.carriedOut = true then op.result s.value
      else s.value name) ∧
    (∀ op name t, s.strings.get? name = some t →
      ¬ (op.assigns = some name ∧ (s.apply op).2.carriedOut = true) →
      (s.apply op).1.strings.get? name = some t ∧
        t.bytes (s.apply op).1.memory = t.bytes s.memory) ∧
    (∀ more name t, s.strings.get? name = some t → (∀ op ∈ more, op.assigns ≠ some name) →
      (Session.run grants (ops ++ more)).strings.get? name = some t ∧
        t.bytes (Session.run grants (ops ++ more)).memory = t.bytes s.memory) ∧
    ∀ op name t, op.Joins → op.assigns = some name → (s.apply op).2.carriedOut = true →
      (s.apply op).1.strings.get? name = some t →
      ∀ other u, s.strings.get? other = some u → t.sharesStore u = false := by
  intro s
  have heffect := Session.run_effect hsmall ops
  refine ⟨Session.run_exact hsmall ops, fun op name => ?_, fun op name t ht hname => ?_,
    fun more name t ht hmore => ?_,
    fun op name t hjoins hname hdone ht other u hu => ?_⟩
  · split
    · rename_i h
      exact (heffect op).value_assigned h.1 h.2
    · rename_i h
      exact (heffect op).value_of_ne h
  · exact (heffect op).unchanged ht hname
  · rw [Session.run_append]
    exact Session.foldl_unchanged (Session.run_sound hsmall ops) (Session.run_exact hsmall ops) ht
      hmore
  · exact (heffect op).apart hjoins hname hdone ht hu

/-- A text, a part of it and a clone of the part, all on one store. -/
def sharedOps : List Op := [.ofText "s" "abc", .substring "t" "s" 1 3, .clone "u" "t"]

/-- What was cut and cloned from a string does not change when the string is joined to. -/
theorem strings_are_values_shared :
    decide (sizeLimit < 100) = false ∧
      ((Session.run (· < 100) sharedOps).apply (.append "t" "s")).1.value "t" =
        some [98, 99, 97, 98, 99] ∧
      ((Session.run (· < 100) sharedOps).apply (.append "t" "s")).1.value "u" = some [98, 99] ∧
      ByteString.sharesStore ⟨⟨some 1, 0, 5, 5⟩⟩ ⟨⟨some 0, 1, 2, 2⟩⟩ = false := by
  have hsmall : decide (sizeLimit < 100) = false := by decide
  obtain ⟨-, hvalue, -, -, hapart⟩ := strings_are_values (· < 100) hsmall sharedOps
  refine ⟨hsmall, (hvalue (.append "t" "s") "t").trans (by decide +kernel),
    (hvalue (.append "t" "s") "u").trans (by decide +kernel), ?_⟩
  exact hapart (.append "t" "s") "t" ⟨⟨some 1, 0, 5, 5⟩⟩ trivial rfl (by decide +kernel)
    (by decide +kernel) "u" ⟨⟨some 0, 1, 2, 2⟩⟩ (by decide +kernel)

end Bytes

end Substrate
