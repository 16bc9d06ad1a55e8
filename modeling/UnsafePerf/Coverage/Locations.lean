import UnsafePerf.Coverage.Fraction
import Mathlib.Data.Set.Card

/-!
# Locations and their keys

The tracker keeps texts: the key of a location is the name of its file, a colon and the line number,
with nothing escaped. A name may have colons and digits of its own, but the line number has no
colon, so the key can be cut at its last one. What remains is to tell a file with a name from one
without, which `make_location` shows under one of two fixed names.

The sets of the tracker are sets of keys. They are as large as the sets of locations behind them as
long as no file has one of the two fixed names.
-/

open Concurrency

namespace UnsafePerf.Coverage

/-! ## Keys -/

/-- The name under which `make_location` shows a file. -/
def FileName.shown : FileName → Text
  | .null => "<unknown>".toList
  | .utf8 name => name
  | .invalidUtf8 => "<invalid>".toList

theorem makeLocation_eq (line : ℤ) (file : FileName) :
    makeLocation line file = file.shown ++ ':' :: Text.ofInt line := by
  cases file <;> rfl

theorem makeLocation_eq_iff {line line' : ℤ} {file file' : FileName} :
    makeLocation line file = makeLocation line' file' ↔
      file.shown = file'.shown ∧ line = line' := by
  rw [makeLocation_eq, makeLocation_eq, Text.append_colon_ofInt_inj]

/-- The name of the file, if it has one, is not one that stands for a missing name. -/
def FileName.Told : FileName → Prop
  | .utf8 name => name ≠ "<unknown>".toList ∧ name ≠ "<invalid>".toList
  | .null => True
  | .invalidUtf8 => True

instance : (file : FileName) → Decidable file.Told
  | .utf8 name => inferInstanceAs (Decidable (name ≠ _ ∧ name ≠ _))
  | .null => .isTrue trivial
  | .invalidUtf8 => .isTrue trivial

theorem FileName.Told.shown_inj {file file' : FileName} (h : file.Told) (h' : file'.Told) :
    file.shown = file'.shown ↔ file = file' := by
  refine ⟨fun heq ↦ ?_, congrArg FileName.shown⟩
  cases file with
  | null =>
    cases file' with
    | null => rfl
    | utf8 name' => exact absurd heq.symm h'.1
    | invalidUtf8 => exact absurd heq (by decide)
  | utf8 name =>
    cases file' with
    | null => exact absurd heq h.1
    | utf8 name' => exact congrArg FileName.utf8 heq
    | invalidUtf8 => exact absurd heq h.2
  | invalidUtf8 =>
    cases file' with
    | null => exact absurd heq (by decide)
    | utf8 name' => exact absurd heq.symm h'.2
    | invalidUtf8 => rfl

/-- A line of a file. A null pointer and bytes that are no text count as one file each. -/
structure SourceLocation where
  line : ℤ
  file : FileName
  told : file.Told

namespace SourceLocation

/-- What the tracker keeps of a location. -/
def key (l : SourceLocation) : Text := makeLocation l.line l.file

theorem key_injective : Function.Injective key := by
  rintro ⟨line, file, told⟩ ⟨line', file', told'⟩ h
  obtain ⟨hfile, rfl⟩ := makeLocation_eq_iff.mp h
  obtain rfl := (told.shown_inj told').mp hfile
  rfl

end SourceLocation

/-! ## Events behind events -/

section Since

variable {ε ε' : Type} {event stop : ε} {log : List ε}

theorem Since.mem (h : Since event stop log) : event ∈ log := by
  obtain ⟨before, after, rfl, -⟩ := h
  exact List.mem_append_right before List.mem_cons_self

theorem since_map {f : ε → ε'} (hf : Function.Injective f) :
    Since (f event) (f stop) (log.map f) ↔ Since event stop log := by
  induction log using List.reverseRecOn with
  | nil => exact iff_of_false not_since_nil not_since_nil
  | append_singleton log e ih =>
    rw [List.map_append, List.map_singleton, since_append_singleton, since_append_singleton, ih,
      hf.eq_iff, hf.ne_iff]

end Since

/-- What a call does to the two sets, in terms of locations. -/
inductive SourceEffect where
  | register (l : SourceLocation)
  | track (l : SourceLocation)
  | clearRegistered
  | clearExecuted

namespace SourceEffect

/-- The same in terms of keys. -/
def effect : SourceEffect → Effect
  | .register l => .register l.key
  | .track l => .track l.key
  | .clearRegistered => .clearRegistered
  | .clearExecuted => .clearExecuted

theorem effect_injective : Function.Injective effect := by
  intro e e' h
  cases e <;> cases e' <;> simp_all [effect, SourceLocation.key_injective.eq_iff]

theorem effect_eq_register (e : SourceEffect) (location : Text) :
    e.effect = .register location ↔ ∃ l, e = .register l ∧ l.key = location := by
  cases e <;> simp [effect]

theorem effect_eq_track (e : SourceEffect) (location : Text) :
    e.effect = .track location ↔ ∃ l, e = .track l ∧ l.key = location := by
  cases e <;> simp [effect]

end SourceEffect

/-- The locations that have been registered, and not cleared since. -/
def registeredLocations (log : List SourceEffect) : Set SourceLocation :=
  {l | Since (.register l) .clearRegistered log}

/-- The locations that have been executed, and not cleared since. -/
def executedLocations (log : List SourceEffect) : Set SourceLocation :=
  {l | Since (.track l) .clearExecuted log}

/-- A set of keys that are in it since an event about them is as large as the set of locations with
that event. -/
theorem card_of_since {event : SourceLocation → SourceEffect} {shown : Text → Effect}
    {stop : SourceEffect} {log : List SourceEffect} {keys : Finset Text}
    (hshown : ∀ e location, e.effect = shown location ↔ ∃ l, e = event l ∧ l.key = location)
    (h : ∀ location, location ∈ keys ↔
      Since (shown location) stop.effect (log.map SourceEffect.effect)) :
    keys.card = {l | Since (event l) stop log}.ncard := by
  have hsince : ∀ l : SourceLocation, l.key ∈ keys ↔ Since (event l) stop log := by
    intro l
    rw [h, ← (hshown (event l) l.key).mpr ⟨l, rfl, rfl⟩]
    exact since_map SourceEffect.effect_injective
  -- every key in the log is the key of a location, so the keys are an image
  have himage : (keys : Set Text) = SourceLocation.key '' {l | Since (event l) stop log} := by
    ext location
    rw [Finset.mem_coe, Set.mem_image]
    refine ⟨fun hmem ↦ ?_, fun ⟨l, hl, hkey⟩ ↦ hkey ▸ (hsince l).mpr hl⟩
    obtain ⟨e, -, he⟩ := List.mem_map.mp ((h location).mp hmem).mem
    obtain ⟨l, -, rfl⟩ := (hshown e location).mp he
    exact ⟨l, (hsince l).mp hmem, rfl⟩
  rw [← Set.ncard_coe_finset, himage, Set.ncard_image_of_injective _ SourceLocation.key_injective]

namespace Counted

variable {log : List SourceEffect} {registered executed : Finset Text}

theorem card_registered (h : Counted (log.map SourceEffect.effect) registered executed) :
    registered.card = (registeredLocations log).ncard :=
  card_of_since SourceEffect.effect_eq_register h.registered

theorem card_executed (h : Counted (log.map SourceEffect.effect) registered executed) :
    executed.card = (executedLocations log).ncard :=
  card_of_since SourceEffect.effect_eq_track h.executed

end Counted

/-! ## Runs -/

/-- The calls of a process whose files are all told. -/
inductive SourceCall where
  | register (l : SourceLocation)
  | track (l : SourceLocation)
  | reset
  | percentage
  | print (timestamp : ℕ)

/-- The call as the hooks take it. -/
def SourceCall.toCall : SourceCall → CoverageCall
  | .register l => .register l.line l.file
  | .track l => .track l.line l.file
  | .reset => .reset
  | .percentage => .percentage
  | .print timestamp => .print timestamp

/-- The threads of such a process: everybody may call everything at any time. -/
def sourceHooks {τ : Type} : Service τ SourceCall Tracked Unit where
  code _ call _ := call.toCall.code
  allowed _ _ _ _ := true

/-- Everything that happens to the sets is about locations; no thread relies on anything else. -/
def sourced (τ : Type) : Contract τ Tracked where
  inv s := ∃ log : List SourceEffect, s.log = log.map SourceEffect.effect
  rely _ _ _ := True
  rely_refl _ _ := trivial
  rely_trans _ _ := trivial

section Runs

variable {τ α : Type} {t : τ} {s : Tracked}

/-- A step with no effect on the sets. -/
theorem wp_quiet {f : Tracked → α × Tracked} {Q : α → Tracked → Prop}
    (hlog : ∀ s, (f s).2.log = s.log) (hQ : ∀ a s, Q a s) : (sourced τ).wp t (.rmw f) Q s := by
  refine Contract.wp_rmw fun s' _ hi ↦ ⟨⟨?_, fun _ _ ↦ trivial⟩, fun s'' _ _ ↦ hQ _ s''⟩
  obtain ⟨log, heq⟩ := hi
  exact ⟨log, (hlog s').trans heq⟩

/-- A step with an effect that is about locations. -/
theorem wp_sourceEffect {f : Tracked → Tracked} {Q : Unit → Tracked → Prop} (e : SourceEffect)
    (hlog : ∀ s, (f s).log = s.log ++ [e.effect]) (hQ : ∀ s, Q () s) :
    (sourced τ).wp t (.store f) Q s := by
  refine Contract.wp_store fun s' _ hi ↦ ⟨⟨?_, fun _ _ ↦ trivial⟩, fun s'' _ _ ↦ hQ s''⟩
  obtain ⟨log, heq⟩ := hi
  exact ⟨log ++ [e], by rw [hlog, heq, List.map_append, List.map_singleton]⟩

theorem wp_sourceCall (call : SourceCall) :
    (sourced τ).wp t call.toCall.code (fun _ _ ↦ True) s := by
  cases call with
  | register l => exact wp_sourceEffect (.register l) (fun _ ↦ rfl) fun _ ↦ trivial
  | track l => exact wp_sourceEffect (.track l) (fun _ ↦ rfl) fun _ ↦ trivial
  | reset =>
    refine Contract.wp_bind (wp_sourceEffect .clearRegistered (fun _ ↦ rfl) fun s₁ ↦ ?_)
    refine Contract.wp_bind (wp_sourceEffect .clearExecuted (fun _ ↦ rfl) fun s₂ ↦ ?_)
    refine Contract.wp_bind (wp_quiet (fun _ ↦ rfl) fun _ s₃ ↦ ?_)
    exact wp_quiet (fun _ ↦ rfl) fun _ _ ↦ trivial
  | percentage =>
    refine Contract.wp_bind (Contract.wp_bind (wp_quiet (fun _ ↦ rfl) fun c s₁ ↦ ?_))
    exact Contract.wp_done fun _ _ _ ↦ Contract.wp_done fun _ _ _ ↦ trivial
  | print timestamp =>
    refine Contract.wp_bind (wp_quiet (fun _ ↦ rfl) fun written s₁ ↦ ?_)
    cases written with
    | true => exact Contract.wp_done fun _ _ _ ↦ trivial
    | false =>
      refine Contract.wp_bind (wp_quiet (fun _ ↦ rfl) fun c s₂ ↦ ?_)
      refine Contract.wp_bind (wp_quiet (fun _ ↦ rfl) fun runNum s₃ ↦ ?_)
      exact wp_quiet (fun _ ↦ rfl) fun _ _ ↦ trivial

variable [DecidableEq τ]

/-- In every run, what has happened to the sets is about locations. -/
theorem sourced_run (ms : List (Move τ SourceCall)) : ∃ log : List SourceEffect,
    (sourceHooks.run launch ms).shared.log = log.map SourceEffect.effect :=
  (Contract.run_sound (C := sourced τ) sourceHooks (fun _ _ _ ↦ True)
    (fun _ call _ _ _ _ _ ↦ wp_sourceCall call) launch ⟨[], rfl⟩
    (fun _ ↦ Contract.wp_done fun _ _ _ ↦ trivial) ms).1

theorem faithful_sourceRun (ms : List (Move τ SourceCall)) :
    Faithful (sourceHooks.run launch ms).shared :=
  (Contract.run_sound (C := faithful τ) sourceHooks (fun _ _ _ ↦ True)
    (fun _ call _ _ _ _ _ ↦ wp_code call.toCall) launch faithful_new
    (fun _ ↦ Contract.wp_done fun _ _ _ ↦ trivial) ms).1

/-- **Keys.** The key of a line of a named file determines the file and the line, and is not the key
of any line without a file name. So in every run, whatever the files but for the two names, the sets
of the tracker are as large as the sets of the locations that have been registered and executed. -/
theorem location_keys_injective :
    (∀ l₁ l₂ : ℤ, ∀ f₁ f₂ : Text, (FileName.utf8 f₁).Told → (FileName.utf8 f₂).Told →
      (makeLocation l₁ (.utf8 f₁) = makeLocation l₂ (.utf8 f₂) ↔ f₁ = f₂ ∧ l₁ = l₂)) ∧
    (∀ l l' : ℤ, ∀ f : Text, (FileName.utf8 f).Told →
      makeLocation l (.utf8 f) ≠ makeLocation l' .null ∧
        makeLocation l (.utf8 f) ≠ makeLocation l' .invalidUtf8) ∧
    ∀ ms : List (Move τ SourceCall),
      let s := (sourceHooks.run launch ms).shared
      (∃ log : List SourceEffect, s.log = log.map SourceEffect.effect) ∧
        ∀ log : List SourceEffect, s.log = log.map SourceEffect.effect →
          s.registeredLines.card = (registeredLocations log).ncard ∧
            s.executedLines.card = (executedLocations log).ncard := by
  have hnull : FileName.null.Told := trivial
  have hinvalid : FileName.invalidUtf8.Told := trivial
  have hkey : ∀ {l l' : ℤ} {f f' : FileName}, f.Told → f'.Told →
      (makeLocation l f = makeLocation l' f' ↔ f = f' ∧ l = l') := fun h h' ↦ by
    rw [makeLocation_eq_iff, h.shown_inj h']
  refine ⟨fun l₁ l₂ f₁ f₂ h₁ h₂ ↦ ?_, fun l l' f h ↦ ⟨fun heq ↦ ?_, fun heq ↦ ?_⟩,
    fun ms ↦ ⟨sourced_run ms, fun log hlog ↦ ?_⟩⟩
  · rw [hkey h₁ h₂, FileName.utf8.injEq]
  · exact absurd ((hkey h hnull).mp heq).1 FileName.noConfusion
  · exact absurd ((hkey h hinvalid).mp heq).1 FileName.noConfusion
  · have hcounted := (faithful_sourceRun ms).counted
    rw [hlog] at hcounted
    exact ⟨hcounted.card_registered, hcounted.card_executed⟩

end Runs

/-- A line whose key is `a:1:2`. -/
def lineTwo : SourceLocation := ⟨2, .utf8 "a:1".toList, by decide⟩

/-- A line whose key is `a:12`. -/
def lineTwelve : SourceLocation := ⟨12, .utf8 "a".toList, by decide⟩

/-- One thread registers both lines, and the first one again; the other executes one of them. -/
def twoLines : List (Move Bool SourceCall) :=
  Move.alone false (.register lineTwo) 1 ++ Move.alone false (.register lineTwelve) 1 ++
    Move.alone true (.track lineTwelve) 1 ++ Move.alone false (.register lineTwo) 1

/-- What happens to the two sets. -/
def twoLinesLog : List SourceEffect :=
  [.register lineTwo, .register lineTwelve, .track lineTwelve, .register lineTwo]

theorem location_keys_injective_twoLines :
    makeLocation 2 (.utf8 "a:1".toList) ≠ makeLocation 12 (.utf8 "a".toList) ∧
    makeLocation (-2) (.utf8 "a".toList) ≠ makeLocation (-2) .null ∧
    (sourceHooks.run launch twoLines).shared.registeredLines.card
      = (registeredLocations twoLinesLog).ncard ∧
    (sourceHooks.run launch twoLines).shared.executedLines.card
      = (executedLocations twoLinesLog).ncard := by
  obtain ⟨hkeys, hnameless, hruns⟩ := location_keys_injective (τ := Bool)
  have hone : (FileName.utf8 "a:1".toList).Told := by decide
  have htwo : (FileName.utf8 "a".toList).Told := by decide
  refine ⟨fun h ↦ ?_, (hnameless (-2) (-2) _ htwo).1, (hruns twoLines).2 twoLinesLog ?_⟩
  · exact absurd ((hkeys 2 12 _ _ hone htwo).mp h).1 (by decide)
  · decide +kernel

end UnsafePerf.Coverage
