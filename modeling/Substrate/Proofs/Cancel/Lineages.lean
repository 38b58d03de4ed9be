import Substrate.Cancel.Session
import Substrate.Proofs.Registers

/-!
# Cancel tokens and their history

A token is cancelled if and only if it or one of its ancestors has been.  What a list of operations
says about that is told here without any flags: `Lineage` is a token as its making tells, and
`Past` is what the operations so far have made, named and cancelled.

* `Past.Tells`: a session and the past of its operations belong together; every operation keeps it
  (`Past.Tells.apply`), so it holds along every run (`tells_run`).
* `cancelled_iff_cancelled_above`: what a session answers, in terms of the past.
-/

namespace Substrate.Cancel

/-! ## Lineages -/

/-- A token as its making tells: the how-manieth it was, and below which other one it was made. -/
inductive Lineage where
  /-- A token without a parent. -/
  | root (number : Nat)
  /-- A token below another. -/
  | child (parent : Lineage) (number : Nat)
  deriving DecidableEq, Repr

namespace Lineage

/-- How many tokens were made before. -/
def number : Lineage → Nat
  | root n | child _ n => n

/-- `a` is the token itself or one of its ancestors. -/
inductive Above (a : Lineage) : Lineage → Prop
  | self : Above a a
  | child {parent : Lineage} (number : Nat) (h : Above a parent) : Above a (parent.child number)

/-- The token `depth` generations below another, when `n` tokens were made before. -/
def descendant (l : Lineage) (n : Nat) : Nat → Lineage
  | 0 => l
  | depth + 1 => (l.child n).descendant (n + 1) depth

/-- The token of a lineage. -/
def token : Lineage → CancelToken
  | root n => ⟨n, []⟩
  | child parent n => ⟨n, parent.token.path⟩

/-- A token hears the flags of itself and its ancestors. -/
theorem mem_path {l : Lineage} {i : Nat} : i ∈ l.token.path ↔ ∃ a : Lineage, a.Above l ∧
    a.number = i := by
  induction l with
  | root n =>
    rw [token, CancelToken.path, List.mem_singleton]
    constructor
    · rintro rfl
      exact ⟨_, .self, rfl⟩
    · rintro ⟨a, ha, rfl⟩
      cases ha
      rfl
  | child parent n ih =>
    rw [token, CancelToken.path, List.mem_cons, ih]
    constructor
    · rintro (rfl | ⟨a, ha, rfl⟩)
      · exact ⟨_, .self, rfl⟩
      · exact ⟨a, ha.child n, rfl⟩
    · rintro ⟨a, ha, rfl⟩
      cases ha with
      | self => exact .inl rfl
      | child _ ha => exact .inr ⟨a, ha, rfl⟩

/-- The token and its ancestors are among the first `n` of a roster. -/
def Among (roster : Nat → Lineage) (n : Nat) (l : Lineage) : Prop :=
  ∀ a : Lineage, a.Above l → a.number < n ∧ roster a.number = a

variable {roster roster' : Nat → Lineage} {n n' : Nat} {l : Lineage}

theorem Among.mono (h : l.Among roster n) (hle : n ≤ n')
    (hsame : ∀ i, i < n → roster' i = roster i) :
    l.Among roster' n' := by
  intro a ha
  obtain ⟨hlt, hroster⟩ := h a ha
  exact ⟨Nat.lt_of_lt_of_le hlt hle, (hsame _ hlt).trans hroster⟩

/-- A token joins the roster. -/
theorem Among.child (h : l.Among roster n) :
    (l.child n).Among (fun i => if i = n then l.child n else roster i) (n + 1) := by
  intro a ha
  cases ha with
  | self => exact ⟨Nat.lt_succ_self n, if_pos rfl⟩
  | child _ ha =>
    exact h.mono (Nat.le_succ n) (fun i hi => if_neg (Nat.ne_of_lt hi)) a ha

theorem Among.descendant (depth : Nat) : ∀ {l : Lineage} {roster : Nat → Lineage} {n : Nat},
    l.Among roster n →
    ∃ roster', (∀ i, i < n → roster' i = roster i) ∧
    (l.descendant n depth).Among roster' (n + depth) := by
  induction depth with
  | zero => exact fun h => ⟨_, fun _ _ => rfl, h⟩
  | succ depth ih =>
    intro l roster n h
    obtain ⟨roster', hsame, hamong⟩ := ih h.child
    refine ⟨roster', fun i hi => ?_, ?_⟩
    · rw [hsame i (Nat.lt_succ_of_lt hi), if_neg (Nat.ne_of_lt hi)]
    · rw [Nat.add_right_comm, Nat.add_assoc] at hamong
      exact hamong

/-- The lineage of a number in a roster is one only. -/
theorem Among.eq_of_number {a c : Lineage} (hc : c.Among roster n) (hl : l.Among roster n)
    (ha : a.Above l)
    (hnumber : c.number = a.number) : c = a := by
  rw [← (hc c .self).2, ← (hl a ha).2, hnumber]

end Lineage

/-! ## What operations tell -/

/-- What a list of operations has made, named and cancelled. -/
structure Past where
  /-- How many tokens were made. -/
  made : Nat := 0
  /-- The token that each name stands for. -/
  named : String → Option Lineage := fun _ => none
  /-- The tokens on which cancel was called, the last one first. -/
  cancelled : List Lineage := []

namespace Past

/-- Let a name stand for a token, or for none. -/
def name (past : Past) (name : String) (l : Option Lineage) : Past :=
  { past with named := fun other => if other = name then l else past.named other }

/-- Name a token that is `depth` generations below another. -/
def beget (past : Past) (name parent : String) (depth : Nat) : Past :=
  match past.named parent with
  | none => past
  | some l =>
    { past with made := past.made + depth }.name name (some (l.descendant past.made depth))

/-- The past once one more operation is carried out. -/
def after (past : Past) : Op → Past
  | .new name => { past with made := past.made + 1 }.name name (some (.root past.made))
  | .child name parent => past.beget name parent 1
  | .descendant name ancestor depth => past.beget name ancestor depth
  | .clone name source => past.beget name source 0
  | .drop name => past.name name none
  | .cancel name => { past with cancelled := (past.named name).toList ++ past.cancelled }
  | .isCancelled _ | .check _ | .debug _ => past

/-- The past of a list of operations. -/
def of (ops : List Op) : Past := ops.foldl after {}

/-- Cancel was called on the token or on one of its ancestors. -/
def Cancels (past : Past) (l : Lineage) : Prop := ∃ c ∈ past.cancelled, c.Above l

/-- A past and a session belong together. -/
structure Tells (past : Past) (s : Session) : Prop where
  count : s.flags.count = past.made
  tokens : ∀ name, s.tokens.get? name = (past.named name).map Lineage.token
  raised : ∀ i, s.flags.raised.get i = true ↔ ∃ c ∈ past.cancelled, c.number = i
  roster : ∃ roster, (∀ name l, past.named name = some l → l.Among roster past.made) ∧
    ∀ c ∈ past.cancelled, c.Among roster past.made

namespace Tells

variable {past : Past} {s : Session}

/-- A name comes to stand for a token that is made now, or was known before. -/
theorem name (h : past.Tells s) (name : String) {l : Lineage} {made : Nat}
    {roster roster' : Nat → Lineage}
    (hle : past.made ≤ made) (hsame : ∀ i, i < past.made → roster' i = roster i)
    (hnamed : ∀ name l, past.named name = some l → l.Among roster past.made)
    (hcancelled : ∀ c ∈ past.cancelled, c.Among roster past.made) (hl : l.Among roster' made) :
    ({ past with made }.name name (some l)).Tells
      (s.store name ({ s.flags with count := made }, l.token)) := by
  refine ⟨rfl, fun other => ?_, h.raised, roster', fun other l' hother => ?_,
    fun c hc => (hcancelled c hc).mono hle hsame⟩
  · show (s.tokens.set name l.token).get? other = _
    rw [Registers.get?_set, h.tokens]
    show _ = Option.map _ (if other = name then some l else past.named other)
    split <;> rfl
  · have hother : (if other = name then some l else past.named other) = some l' := hother
    split at hother
    · cases hother
      exact hl
    · exact (hnamed other l' hother).mono hle hsame

end Tells

/-- The token some generations below another, and the flags there are then. -/
theorem newDescendant_eq (depth : Nat) : ∀ (flags : CancelFlags) (l : Lineage),
    flags.newDescendant l.token depth =
      ({ flags with count := flags.count + depth }, (l.descendant flags.count depth).token) := by
  induction depth with
  | zero => exact fun _ _ => rfl
  | succ depth ih =>
    intro flags l
    rw [CancelFlags.newDescendant]
    show CancelFlags.newDescendant { flags with count := flags.count + 1 }
      (l.child flags.count).token depth = _
    rw [ih]
    show ({ flags with count := flags.count + 1 + depth }, _) = _
    rw [Nat.add_right_comm, Nat.add_assoc]
    rfl

namespace Tells

variable {past : Past} {s : Session}

theorem beget (h : past.Tells s) (name parent : String) (depth : Nat) :
    (past.beget name parent depth).Tells
    (s.onToken parent fun t => (s.store name (s.flags.newDescendant t depth), .done)).1 := by
  rw [Past.beget, Session.onToken, h.tokens]
  cases hparent : past.named parent with
  | none => exact h
  | some l =>
    obtain ⟨roster, hnamed, hcancelled⟩ := h.roster
    obtain ⟨roster', hsame, hamong⟩ := (hnamed parent l hparent).descendant depth
    show Past.Tells _ (s.store name (s.flags.newDescendant l.token depth))
    rw [newDescendant_eq, h.count]
    exact h.name name (Nat.le_add_right _ _) hsame hnamed hcancelled hamong

/-- Every operation keeps a past and its session together. -/
theorem apply (h : past.Tells s) (op : Op) : (past.after op).Tells (s.apply op).1 := by
  have hlook : ∀ (name : String) (reply : CancelToken → Reply),
      past.Tells (s.onToken name fun t => (s, reply t)).1 := by
    intro name reply
    rw [Session.onToken]
    split <;> exact h
  cases op with
  | new name =>
    obtain ⟨roster, hnamed, hcancelled⟩ := h.roster
    have hroot : (Lineage.root past.made).Among
        (fun i => if i = past.made then .root past.made else roster i) (past.made + 1) := by
      intro a ha
      cases ha
      exact ⟨Nat.lt_succ_self _, if_pos rfl⟩
    have hnew :=
      h.name name (Nat.le_succ _) (fun i hi => if_neg (Nat.ne_of_lt hi)) hnamed hcancelled hroot
    rw [← h.count] at hnew
    rw [Past.after, ← h.count]
    exact hnew
  | child name parent => exact h.beget name parent 1
  | descendant name ancestor depth => exact h.beget name ancestor depth
  | clone name source => exact h.beget name source 0
  | drop name =>
    obtain ⟨roster, hnamed, hcancelled⟩ := h.roster
    refine ⟨h.count, fun other => ?_, h.raised, roster, fun other l hother => ?_, hcancelled⟩
    · show (s.tokens.erase name).get? other =
        Option.map _ (if other = name then none else past.named other)
      rw [Registers.get?_erase, h.tokens]
      split <;> rfl
    · have hother : (if other = name then none else past.named other) = some l := hother
      split at hother
      · cases hother
      · exact hnamed other l hother
  | cancel name =>
    rw [Past.after, Session.apply, Session.onToken, h.tokens]
    cases hname : past.named name with
    | none => exact h
    | some l =>
      obtain ⟨roster, hnamed, hcancelled⟩ := h.roster
      refine ⟨h.count, h.tokens, fun i => ?_, roster, hnamed, fun c hc => ?_⟩
      · show (s.flags.raised.set l.token.own true).get i = true ↔
          ∃ c ∈ l :: past.cancelled, c.number = i
        have hown : l.token.own = l.number := by cases l <;> rfl
        rw [Table.get_set, hown]
        split
        · rename_i hi
          exact ⟨fun _ => ⟨l, List.mem_cons_self, hi.symm⟩, fun _ => rfl⟩
        · rename_i hi
          rw [h.raised]
          constructor
          · rintro ⟨c, hc, hnumber⟩
            exact ⟨c, List.mem_cons_of_mem _ hc, hnumber⟩
          · rintro ⟨c, hc, hnumber⟩
            rcases List.mem_cons.mp hc with rfl | hc
            · exact absurd hnumber.symm hi
            · exact ⟨c, hc, hnumber⟩
      · rcases List.mem_cons.mp hc with rfl | hc
        · exact hnamed name c hname
        · exact hcancelled c hc
  | isCancelled name => exact hlook name _
  | check name => exact hlook name _
  | debug name => exact hlook name _

/-- A token is cancelled if and only if cancel was called on it or above it. -/
theorem isCancelled_iff (h : past.Tells s) {name : String} {l : Lineage}
    (hl : past.named name = some l) :
    l.token.isCancelled s.flags = true ↔ past.Cancels l := by
  obtain ⟨roster, hnamed, hcancelled⟩ := h.roster
  rw [CancelToken.isCancelled, List.any_eq_true]
  constructor
  · rintro ⟨i, hi, hraised⟩
    obtain ⟨a, ha, rfl⟩ := Lineage.mem_path.mp hi
    obtain ⟨c, hc, hnumber⟩ := (h.raised _).mp hraised
    obtain rfl := (hcancelled c hc).eq_of_number (hnamed name l hl) ha hnumber
    exact ⟨c, hc, ha⟩
  · rintro ⟨c, hc, hc'⟩
    exact ⟨c.number, Lineage.mem_path.mpr ⟨c, hc', rfl⟩, (h.raised _).mpr ⟨c, hc, rfl⟩⟩

end Tells

theorem after_append (ops more : List Op) : of (ops ++ more) = more.foldl after (of ops) :=
  List.foldl_append

/-- What was cancelled stays cancelled. -/
theorem Cancels.foldl {l : Lineage} (more : List Op) : ∀ {past : Past}, past.Cancels l →
    (more.foldl after past).Cancels l := by
  induction more with
  | nil => exact fun h => h
  | cons op more ih =>
    rintro past ⟨c, hc, habove⟩
    refine ih ⟨c, ?_, habove⟩
    cases op with
    | cancel name => exact List.mem_append_right _ hc
    | child name parent | descendant name ancestor depth | clone name source =>
      rw [after, beget]
      split <;> exact hc
    | _ => exact hc

end Past

/-! ## Runs -/

namespace Session

/-- The session after a list of operations. -/
def run (ops : List Op) : Session := ops.foldl (fun s op => (s.apply op).1) {}

/-- What the session says when asked whether the token of a name is cancelled. -/
def verdict (s : Session) (name : String) : Reply := (s.apply (.isCancelled name)).2

end Session

theorem tells_run (ops : List Op) : (Past.of ops).Tells (.run ops) := by
  have hstart : Past.Tells {} ({} : Session) := by
    refine ⟨rfl, fun _ => rfl, fun i => ?_, fun i => .root i, fun _ _ h => (by cases h),
      fun _ h => (by cases h)⟩
    rw [show ({} : Session).flags.raised.get i = false from Table.get_empty i]
    constructor
    · exact fun h => by cases h
    · rintro ⟨c, hc, -⟩
      cases hc
  have hrun : ∀ (ops : List Op) {past : Past} {s : Session}, past.Tells s →
      (ops.foldl Past.after past).Tells (ops.foldl (fun s op => (s.apply op).1) s) := by
    intro ops
    induction ops with
    | nil => exact fun h => h
    | cons op ops ih => exact fun h => ih (h.apply op)
  exact hrun ops hstart

/-- What the session answers about a token. -/
theorem verdict_of_named {ops : List Op} {name : String} {l : Lineage}
    (h : (Past.of ops).named name = some l) : ∃ b, (Session.run ops).verdict name = .truth b ∧
      ((Session.run ops).apply (.check name)).2 = .checked (!b) ∧
      (b = true ↔ (Past.of ops).Cancels l) := by
  have htells := tells_run ops
  have hname : (Session.run ops).tokens.get? name = some l.token := by rw [htells.tokens, h]; rfl
  refine ⟨l.token.isCancelled (Session.run ops).flags, ?_, ?_, htells.isCancelled_iff h⟩
  · rw [Session.verdict, Session.apply, Session.onToken, hname]
  · rw [Session.apply, Session.onToken, hname]

theorem verdict_eq_of_iff {ops ops' : List Op} {name name' : String} {l l' : Lineage}
    (h : (Past.of ops).named name = some l) (h' : (Past.of ops').named name' = some l')
    (hiff : (Past.of ops).Cancels l ↔ (Past.of ops').Cancels l') :
    (Session.run ops).verdict name = (Session.run ops').verdict name' := by
  obtain ⟨b, hverdict, -, hb⟩ := verdict_of_named h
  obtain ⟨b', hverdict', -, hb'⟩ := verdict_of_named h'
  rw [hverdict, hverdict', Bool.eq_iff_iff.mpr (hb.trans (hiff.trans hb'.symm))]

/-! ## The order of cancels -/

/-- Two pasts tell the same, but for the order in which tokens were cancelled, and how often. -/
structure Past.Agrees (past past' : Past) : Prop where
  made : past.made = past'.made
  named : past.named = past'.named
  cancelled : ∀ c, c ∈ past.cancelled ↔ c ∈ past'.cancelled

theorem Past.Agrees.after {past past' : Past} (h : past.Agrees past') (op : Op) :
    (past.after op).Agrees (past'.after op) := by
  obtain ⟨made, named, cancelled⟩ := past
  obtain ⟨made', named', cancelled'⟩ := past'
  obtain ⟨hmade, hnamed, hcancelled⟩ := h
  dsimp only at hmade hnamed hcancelled
  subst hmade hnamed
  have hbeget : ∀ name parent depth, (beget ⟨made, named, cancelled⟩ name parent depth).Agrees
      (beget ⟨made, named, cancelled'⟩ name parent depth) := by
    intro name parent depth
    simp only [beget]
    split <;> exact ⟨rfl, rfl, hcancelled⟩
  cases op with
  | child name parent => exact hbeget name parent 1
  | descendant name ancestor depth => exact hbeget name ancestor depth
  | clone name source => exact hbeget name source 0
  | cancel name =>
    refine ⟨rfl, rfl, fun c => ?_⟩
    simp only [Past.after, List.mem_append, hcancelled]
  | _ => exact ⟨rfl, rfl, hcancelled⟩

theorem Past.Agrees.foldl (more : List Op) : ∀ {past past' : Past}, past.Agrees past' →
    (more.foldl Past.after past).Agrees (more.foldl Past.after past') := by
  induction more with
  | nil => exact fun h => h
  | cons op more ih => exact fun h => ih (h.after op)

/-- Cancelling changes nothing but what is cancelled. -/
theorem foldl_cancel (names : List String) :
    ∀ past : Past, (names.map Op.cancel).foldl Past.after past =
    { past with cancelled := (names.filterMap past.named).reverse ++ past.cancelled } := by
  induction names with
  | nil => exact fun _ => rfl
  | cons name names ih =>
    intro past
    rw [List.map_cons, List.foldl_cons, ih, List.filterMap_cons]
    simp only [Past.after]
    cases past.named name with
    | none => rfl
    | some l => simp

theorem agrees_of_perm {names names' : List String} (hperm : names.Perm names') (past : Past) :
    ((names.map Op.cancel).foldl Past.after past).Agrees
    ((names'.map Op.cancel).foldl Past.after past) := by
  rw [foldl_cancel, foldl_cancel]
  refine ⟨rfl, rfl, fun c => ?_⟩
  rw [List.mem_append, List.mem_append, List.mem_reverse, List.mem_reverse,
    (hperm.filterMap past.named).mem_iff]

theorem verdict_of_unnamed {ops : List Op} {name : String} (h : (Past.of ops).named name = none) :
    (Session.run ops).verdict name = .refused := by
  rw [Session.verdict, Session.apply, Session.onToken, (tells_run ops).tokens, h]
  rfl

/-- Operations whose pasts agree lead to the same verdict on every name. -/
theorem verdict_of_agrees {ops ops' : List Op} (h : (Past.of ops).Agrees (Past.of ops'))
    (name : String) :
    (Session.run ops).verdict name = (Session.run ops').verdict name := by
  cases hname : (Past.of ops).named name with
  | none => rw [verdict_of_unnamed hname, verdict_of_unnamed (h.named ▸ hname)]
  | some l =>
    refine verdict_eq_of_iff hname (h.named ▸ hname) ?_
    simp only [Past.Cancels, h.cancelled]

/-- After any operations, with whatever tokens made, cloned, dropped and cancelled on the way: a
name that stands for no token is refused, and one that stands for a token is told that it is
cancelled if and only if cancel was called on that token or on one of its ancestors.  So a token
that is cancelled stays so, under whatever name; cancelling a token cancels all below it and changes
the verdict on no other; and the order of cancels does not matter, whether they follow each other or
other operations come between. -/
theorem cancelled_iff_cancelled_above (ops : List Op) :
    (∀ name, (Past.of ops).named name = none → (Session.run ops).verdict name = .refused) ∧
    (∀ name l, (Past.of ops).named name = some l → ∃ b, (Session.run ops).verdict name = .truth b ∧
      ((Session.run ops).apply (.check name)).2 = .checked (!b) ∧
      (b = true ↔ ∃ c ∈ (Past.of ops).cancelled, c.Above l)) ∧
    (∀ more name name' l, (Past.of ops).named name = some l →
      (Session.run ops).verdict name = .truth true →
      (Past.of (ops ++ more)).named name' = some l →
      (Session.run (ops ++ more)).verdict name' = .truth true) ∧
    (∀ name other l l', (Past.of ops).named name = some l → (Past.of ops).named other = some l' →
      (l.Above l' → (Session.run (ops ++ [.cancel name])).verdict other = .truth true) ∧
      (¬ l.Above l' →
        (Session.run (ops ++ [.cancel name])).verdict other = (Session.run ops).verdict other)) ∧
    (∀ (names names' : List String) more name, names.Perm names' →
      (Session.run (ops ++ names.map .cancel ++ more)).verdict name =
        (Session.run (ops ++ names'.map .cancel ++ more)).verdict name) ∧
    ∀ ops' name name' l, (∀ c, c ∈ (Past.of ops).cancelled ↔ c ∈ (Past.of ops').cancelled) →
      (Past.of ops).named name = some l → (Past.of ops').named name' = some l →
      (Session.run ops).verdict name = (Session.run ops').verdict name' := by
  have htrue : ∀ {ops : List Op} {name : String} {l : Lineage}, (Past.of ops).named name = some l →
      ((Session.run ops).verdict name = .truth true ↔ (Past.of ops).Cancels l) := by
    intro ops name l h
    obtain ⟨b, hverdict, -, hb⟩ := verdict_of_named h
    rw [hverdict, ← hb]
    constructor
    · intro e
      cases e
      rfl
    · exact fun e => congrArg Reply.truth e
  refine ⟨fun name => verdict_of_unnamed, fun name l => verdict_of_named, ?_, ?_, ?_, ?_⟩
  · intro more name name' l h hverdict h'
    refine (htrue h').mpr ?_
    rw [Past.after_append]
    exact .foldl more ((htrue h).mp hverdict)
  · intro name other l l' h h'
    have hafter : Past.of (ops ++ [.cancel name]) =
        { Past.of ops with cancelled := l :: (Past.of ops).cancelled } := by
      rw [Past.after_append, List.foldl_cons, List.foldl_nil, Past.after, h]
      rfl
    have hother : (Past.of (ops ++ [.cancel name])).named other = some l' := by
      rw [hafter]; exact h'
    constructor
    · intro habove
      refine (htrue hother).mpr ⟨l, ?_, habove⟩
      rw [hafter]
      exact List.mem_cons_self
    · intro habove
      refine verdict_eq_of_iff hother h' ?_
      rw [hafter]
      constructor
      · rintro ⟨c, hc, hc'⟩
        rcases List.mem_cons.mp hc with rfl | hc
        · exact absurd hc' habove
        · exact ⟨c, hc, hc'⟩
      · rintro ⟨c, hc, hc'⟩
        exact ⟨c, List.mem_cons_of_mem _ hc, hc'⟩
  · intro names names' more name hperm
    refine verdict_of_agrees ?_ name
    rw [Past.after_append, Past.after_append, Past.after_append, Past.after_append]
    exact (agrees_of_perm hperm _).foldl more
  · intro ops' name name' l hsame h h'
    refine verdict_eq_of_iff h h' ?_
    simp only [Past.Cancels, hsame]

/-- A root that is cancelled through a clone and dropped before the token below it is made. -/
def orphanOps : List Op :=
  [.new "r", .clone "k" "r", .descendant "d" "r" 2, .cancel "k", .drop "k", .child "c" "d",
    .drop "r", .new "o"]

theorem cancelled_iff_cancelled_above_orphan :
    (Past.of orphanOps).named "r" = none ∧ (Session.run orphanOps).verdict "r" = .refused ∧
    (Past.of orphanOps).named "c" = some (((Lineage.root 0).child 1).child 2 |>.child 3) ∧
    (Session.run orphanOps).verdict "c" = .truth true ∧
    (Session.run (orphanOps ++ [.cancel "o"])).verdict "o" = .truth true ∧
    (Session.run (orphanOps ++ [.cancel "c"])).verdict "o" = .truth false ∧
    (Session.run (orphanOps ++ ["o", "c"].map .cancel ++ [])).verdict "d" =
      (Session.run (orphanOps ++ ["c", "o"].map .cancel ++ [])).verdict "d" := by
  have hr : (Past.of orphanOps).named "r" = none := by decide
  have hc : (Past.of orphanOps).named "c" =
      some (((Lineage.root 0).child 1).child 2 |>.child 3) := by decide
  have ho : (Past.of orphanOps).named "o" = some (.root 4) := by decide
  obtain ⟨hrefused, hverdict, -, hcancel, hperm, -⟩ := cancelled_iff_cancelled_above orphanOps
  refine ⟨hr, hrefused "r" hr, hc, ?_, (hcancel "o" "o" _ _ ho ho).1 .self, ?_,
    hperm ["o", "c"] ["c", "o"] [] "d" (.swap _ _ _)⟩
  · obtain ⟨b, hb, -, hiff⟩ := hverdict "c" _ hc
    rw [hb, hiff.mpr ⟨.root 0, by decide, .child _ (.child _ (.child _ .self))⟩]
  · rw [(hcancel "c" "o" _ _ hc ho).2 fun h => by cases h]
    obtain ⟨b, hb, -, hiff⟩ := hverdict "o" _ ho
    rw [hb]
    cases b with
    | false => rfl
    | true =>
      obtain ⟨c, hmem, habove⟩ := hiff.mp rfl
      cases habove
      exact absurd hmem (by decide)

end Substrate.Cancel
