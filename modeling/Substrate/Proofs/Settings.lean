import Substrate.Settings
import Substrate.Proofs.Text.Numerals

/-!
# Which settings are accepted

What the two variables say, each not set or with a text, and what is wrong with
a text that says nothing.  `readWorkers` and `readThreadName` are the readers of
one variable; the settings are read from both, and the first variable that
cannot be used is the one that is reported.
-/

namespace Substrate.Settings

/-- The workers variable asks for `n` workers, where 0 asks for one per core. -/
def WorkersSay : Option String → Nat → Prop
  | none, n => n = 0
  | some raw, n => ∃ core, Text.Trims raw.toList core ∧ Text.Numeral core n ∧ n < Nat.pow 2 64

/-- The workers variable cannot be used, with the error `e`. -/
def WorkersRefused : Option String → SettingsError → Prop
  | none, _ => False
  | some raw, e => ∃ core reason, Text.Trims raw.toList core ∧
      Text.Refusal (Nat.pow 2 64 - 1) core reason ∧ e = ⟨"VIREO_WORKERS", raw, reason.message⟩

/-- The thread name variable gives `name`. -/
def NameSays : Option String → String → Prop
  | none, name => name = "vireo-worker"
  | some raw, name => (∃ c ∈ raw.toList, Text.isBlank c = false) ∧ name = raw

/-- The thread name variable cannot be used, with the error `e`. -/
def NameRefused : Option String → SettingsError → Prop
  | none, _ => False
  | some raw, e => (∀ c ∈ raw.toList, Text.isBlank c = true) ∧
      e = ⟨"VIREO_THREAD_NAME", raw, "must not be empty"⟩

/-! ## One variable -/

theorem readWorkers_eq_ok_iff {found : Option String} {w : WorkerCount} :
    readWorkers found = .ok w ↔ ∃ n, WorkersSay found n ∧ w = .ofNat n := by
  cases found with
  | none =>
    constructor
    · intro h
      cases h
      exact ⟨0, rfl, rfl⟩
    · rintro ⟨n, rfl, rfl⟩
      rfl
  | some raw =>
    have hsay : ∀ n, WorkersSay (some raw) n ↔
        Text.readNat greatestWorkers (Text.trim raw.toList) = .ok n := by
      intro n
      rw [Text.readNat_eq_ok_iff, WorkersSay, greatestWorkers]
      simp only [Text.trims_iff, exists_eq_left]
      exact and_congr_right fun _ => Nat.lt_iff_le_pred (Nat.two_pow_pos 64)
    simp only [hsay, readWorkers]
    cases Text.readNat greatestWorkers (Text.trim raw.toList) with
    | ok n => simp [eq_comm]
    | error e => simp

theorem readWorkers_eq_error_iff {found : Option String} {e : SettingsError} :
    readWorkers found = .error e ↔ WorkersRefused found e := by
  cases found with
  | none => simp [readWorkers, WorkersRefused]
  | some raw =>
    have hrefused : WorkersRefused (some raw) e ↔ ∃ reason,
        Text.readNat greatestWorkers (Text.trim raw.toList) = .error reason ∧
        e = ⟨workersVariable, raw, reason.message⟩ := by
      simp only [WorkersRefused, Text.readNat_eq_error_iff, Text.trims_iff, exists_and_left,
        exists_eq_left]
      rfl
    rw [hrefused, readWorkers]
    cases Text.readNat greatestWorkers (Text.trim raw.toList) with
    | ok n => simp
    | error e' => simp [eq_comm]

/-- A trimmed name is empty exactly when all of it is blank. -/
theorem isEmpty_trim (raw : String) :
    (Text.trim raw.toList).isEmpty = true ↔ ∀ c ∈ raw.toList, Text.isBlank c = true := by
  rw [List.isEmpty_iff, Text.trim_eq_nil_iff]

theorem readThreadName_eq_ok_iff {found : Option String} {name : String} :
    readThreadName found = .ok name ↔ NameSays found name := by
  cases found with
  | none => exact ⟨fun h => by cases h; rfl, fun h => by cases h; rfl⟩
  | some raw =>
    have hblank : (∃ c ∈ raw.toList, Text.isBlank c = false) ↔
        ¬ (Text.trim raw.toList).isEmpty = true := by
      rw [isEmpty_trim]
      simp
    rw [NameSays, hblank, readThreadName]
    split <;> rename_i hempty <;> simp [hempty, eq_comm]

theorem readThreadName_eq_error_iff {found : Option String} {e : SettingsError} :
    readThreadName found = .error e ↔ NameRefused found e := by
  cases found with
  | none => simp [readThreadName, NameRefused]
  | some raw =>
    rw [NameRefused, ← isEmpty_trim, readThreadName]
    split <;> rename_i hempty <;> simp [hempty, eq_comm, threadNameVariable]

/-! ## Both variables -/

theorem fromLookup_eq_ok_iff {lookup : String → Option String} {s : Settings} :
    fromLookup lookup = .ok s ↔ readWorkers (lookup workersVariable) = .ok s.workers ∧
      readThreadName (lookup threadNameVariable) = .ok s.threadName := by
  rw [fromLookup]
  cases readWorkers (lookup workersVariable) with
  | error e => simp
  | ok workers =>
    cases readThreadName (lookup threadNameVariable) with
    | error e => simp
    | ok threadName => cases s; simp

theorem fromLookup_eq_error_iff {lookup : String → Option String} {e : SettingsError} :
    fromLookup lookup = .error e ↔ readWorkers (lookup workersVariable) = .error e ∨
      (∃ w, readWorkers (lookup workersVariable) = .ok w) ∧
        readThreadName (lookup threadNameVariable) = .error e := by
  rw [fromLookup]
  cases readWorkers (lookup workersVariable) with
  | error e => simp
  | ok workers => cases readThreadName (lookup threadNameVariable) <;> simp

theorem resolve_ofNat (cores n : Nat) :
    (WorkerCount.ofNat n).resolve cores = if n = 0 then cores else n := by
  rw [WorkerCount.ofNat]
  split <;> rfl

/-- Settings are read exactly when both variables say something, and are then what they say;
otherwise the error is that of the first variable that cannot be used.  On a machine with a
core there is a worker. -/
theorem settings_are_what_variables_say (lookup : String → Option String) (cores : Nat) :
    (∀ workers name,
      (∃ s, fromLookup lookup = .ok s ∧ s.workers.resolve cores = workers ∧ s.threadName = name) ↔
      (∃ n, WorkersSay (lookup "VIREO_WORKERS") n ∧ workers = if n = 0 then cores else n) ∧
        NameSays (lookup "VIREO_THREAD_NAME") name) ∧
    (∀ e, fromLookup lookup = .error e ↔
      WorkersRefused (lookup "VIREO_WORKERS") e ∨
      (∃ n, WorkersSay (lookup "VIREO_WORKERS") n) ∧
        NameRefused (lookup "VIREO_THREAD_NAME") e) ∧
    (1 ≤ cores → ∀ s, fromLookup lookup = .ok s → 1 ≤ s.workers.resolve cores) := by
  refine ⟨?_, ?_, ?_⟩
  · intro workers name
    simp only [fromLookup_eq_ok_iff, readWorkers_eq_ok_iff, readThreadName_eq_ok_iff]
    constructor
    · rintro ⟨s, ⟨⟨n, hsay, hworkers⟩, hname⟩, rfl, rfl⟩
      exact ⟨⟨n, hsay, by rw [hworkers, resolve_ofNat]⟩, hname⟩
    · rintro ⟨⟨n, hsay, rfl⟩, hname⟩
      exact ⟨⟨.ofNat n, name⟩, ⟨⟨n, hsay, rfl⟩, hname⟩, resolve_ofNat cores n, rfl⟩
  · intro e
    simp only [fromLookup_eq_error_iff, readWorkers_eq_error_iff, readThreadName_eq_error_iff,
      readWorkers_eq_ok_iff]
    refine or_congr_right (and_congr_left' ?_)
    constructor
    · rintro ⟨-, n, hsay, -⟩
      exact ⟨n, hsay⟩
    · rintro ⟨n, hsay⟩
      exact ⟨_, n, hsay, rfl⟩
  · intro hcores s hs
    obtain ⟨⟨n, -, hworkers⟩, -⟩ :=
      fromLookup_eq_ok_iff.mp hs |>.imp_left readWorkers_eq_ok_iff.mp
    rw [hworkers, resolve_ofNat]
    split <;> omega

/-- A plus sign, zeros in front and a wide space behind. -/
theorem settings_are_what_variables_say_padded :
    fromLookup (fun name => if name = "VIREO_WORKERS" then some " +007　" else none) =
      .ok ⟨.exactly 7, "vireo-worker"⟩ ∧
    1 ≤ (WorkerCount.exactly 7).resolve 1 := by
  have hread : fromLookup (fun name => if name = "VIREO_WORKERS" then some " +007　" else none) =
      .ok ⟨.exactly 7, "vireo-worker"⟩ := rfl
  exact ⟨hread, (settings_are_what_variables_say _ 1).2.2 (Nat.le_refl 1) _ hread⟩

end Substrate.Settings
