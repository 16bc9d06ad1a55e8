import UnsafePerf.Concurrency.RelyGuarantee
import UnsafePerf.Coverage.Analyze
import Mathlib.Data.Finset.Union
import Mathlib.Algebra.Order.Field.Basic

/-!
# Coverage as a fraction

The coverage is the number of executed locations divided by the number of registered ones. Three
pieces of code compute it: `get_coverage_percentage` and `write_stats` from the sets of the tracker,
and `analyze_unsafe_coverage` from the source locations of all reports in a file.

The two sets of the tracker are filled by different hooks and emptied one after the other, so
neither contains the other by construction. This file computes what the sets are from the order in
which the calls took effect, and says when the ratio of their sizes is a fraction that reaches one
only if everything has been executed.

## Atomicity

A set is only accessed under its lock, so an insertion and a clearing are atomic. Whoever computes
the coverage holds both locks while it counts, so it sees both sets at one moment.
-/

open Concurrency

namespace UnsafePerf.Coverage

/-! ## Ratios of sizes -/

section Ratio

variable {α : Type} {executed registered : Finset α}

/-- The ratio all three computations take. -/
def ratio (executed registered : Finset α) : ℚ :=
  if registered.card > 0 then executed.card / registered.card else 0

/-- The ratio is a true fraction. -/
structure TrueFraction (executed registered : Finset α) : Prop where
  nonneg : 0 ≤ ratio executed registered
  le_one : ratio executed registered ≤ 1
  complete : registered.Nonempty → ratio executed registered = 1 → registered ⊆ executed

theorem ratio_of_nonempty (h : registered.Nonempty) :
    ratio executed registered = executed.card / registered.card := if_pos h.card_pos

theorem ratio_empty (executed : Finset α) : ratio executed ∅ = 0 := rfl

theorem ratio_nonneg : 0 ≤ ratio executed registered := by
  rw [ratio]
  split
  · positivity
  · exact le_rfl

/-- Executed elements that are registered make a fraction. -/
theorem trueFraction_of_subset (h : executed ⊆ registered ∨ registered = ∅) :
    TrueFraction executed registered := by
  rcases registered.eq_empty_or_nonempty with rfl | hne
  · exact ⟨ratio_nonneg, ratio_empty executed ▸ zero_le_one, fun hne ↦ absurd hne (by simp)⟩
  · have hsub : executed ⊆ registered := h.resolve_right hne.ne_empty
    have hpos : (0 : ℚ) < registered.card := by exact_mod_cast hne.card_pos
    have hle : (executed.card : ℚ) ≤ registered.card := by exact_mod_cast Finset.card_le_card hsub
    refine ⟨ratio_nonneg, ?_, fun _ hone ↦ ?_⟩
    · rw [ratio_of_nonempty hne]
      exact (div_le_one hpos).mpr hle
    · rw [ratio_of_nonempty hne, div_eq_one_iff_eq hpos.ne'] at hone
      have hcard : executed.card = registered.card := by exact_mod_cast hone
      exact (Finset.eq_of_subset_of_card_le hsub hcard.ge).ge

/-- With an executed element that is not registered, the ratio is wrong at the latest when all that
is registered has been executed as well. -/
theorem not_trueFraction_union [DecidableEq α] (hsub : ¬executed ⊆ registered)
    (hne : registered ≠ ∅) : ¬TrueFraction (executed ∪ registered) registered := by
  have hnonempty := Finset.nonempty_iff_ne_empty.mpr hne
  have hpos : (0 : ℚ) < registered.card := by exact_mod_cast hnonempty.card_pos
  have hstrict : registered ⊂ executed ∪ registered := by
    refine Finset.ssubset_iff_subset_ne.mpr ⟨Finset.subset_union_right, fun heq ↦ hsub ?_⟩
    rw [heq]
    exact Finset.subset_union_left
  intro h
  have hle := h.le_one
  rw [ratio_of_nonempty hnonempty, div_le_one hpos] at hle
  exact absurd (Finset.card_lt_card hstrict) (not_lt.mpr (by exact_mod_cast hle))

end Ratio

/-! ## Events that last -/

section Since

variable {ε : Type} {event stop : ε} {log : List ε}

/-- The event has happened, and has not been stopped since. -/
def Since (event stop : ε) (log : List ε) : Prop :=
  ∃ before after, log = before ++ event :: after ∧ stop ∉ after

theorem not_since_nil : ¬Since event stop [] := by
  rintro ⟨before, after, heq, -⟩
  exact absurd heq (by simp)

theorem since_append_singleton (e : ε) :
    Since event stop (log ++ [e]) ↔ e = event ∨ e ≠ stop ∧ Since event stop log := by
  constructor
  · rintro ⟨before, after, heq, hstop⟩
    rcases List.eq_nil_or_concat after with rfl | ⟨after, e', rfl⟩
    · exact .inl (List.append_inj_right' heq rfl |> List.singleton_inj.mp)
    · rw [List.concat_eq_append] at heq hstop
      rw [← List.cons_append, ← List.append_assoc] at heq
      obtain ⟨rfl, hlast⟩ := List.append_inj' heq rfl
      obtain rfl := List.singleton_inj.mp hlast
      refine .inr ⟨fun he ↦ hstop (by simp [he]), before, after, rfl, fun hmem ↦ hstop ?_⟩
      exact List.mem_append_left _ hmem
  · rintro (rfl | ⟨hne, before, after, rfl, hstop⟩)
    · exact ⟨log, [], rfl, List.not_mem_nil⟩
    · refine ⟨before, after ++ [e], by simp, fun hmem ↦ ?_⟩
      rcases List.mem_append.mp hmem with h | h
      · exact hstop h
      · exact hne (List.mem_singleton.mp h).symm

end Since

/-! ## The tracker and its threads -/

/-- What a call does to the two sets. -/
inductive Effect where
  | register (location : Text)
  | track (location : Text)
  | clearRegistered
  | clearExecuted
  deriving DecidableEq

/-- The location has been registered and the registered locations have not been cleared since. -/
def RegisteredSince (log : List Effect) (location : Text) : Prop :=
  Since (.register location) .clearRegistered log

/-- The location has been executed and the executed locations have not been cleared since. -/
def TrackedSince (log : List Effect) (location : Text) : Prop :=
  Since (.track location) .clearExecuted log

/-- One computation of the coverage: the sets it has counted, and the effects before it. -/
structure Computation where
  registered : Finset Text
  executed : Finset Text
  log : List Effect

/-- What goes into the text of a report. -/
structure Report where
  runNum : ℕ
  registered : Finset Text
  executed : Finset Text
  timestamp : ℕ

/-- The tracker of a process, and what has happened to it, which no step reads. -/
structure Tracked extends UnsafeCoverageTracker where
  /-- The effects on the two sets. -/
  log : List Effect
  /-- The computations of the coverage. -/
  computed : List Computation
  /-- The reports written. -/
  reports : List Report

/-- The tracker at the start of the process. -/
def Tracked.new : Tracked := ⟨.new, [], [], []⟩

section Code

/-- `register_unsafe_line`. -/
def registerUnsafeLine (line : ℤ) (file : FileName) : Program Tracked Unit :=
  .store fun s ↦ { s with
    toUnsafeCoverageTracker := s.registerLine line file
    log := s.log ++ [.register (makeLocation line file)] }

/-- `track_unsafe_line_execution`. -/
def trackUnsafeLineExecution (line : ℤ) (file : FileName) : Program Tracked Unit :=
  .store fun s ↦ { s with
    toUnsafeCoverageTracker := s.trackExecution line file
    log := s.log ++ [.track (makeLocation line file)] }

/-- `registered_lines.clear()`. -/
def clearRegisteredLines : Program Tracked Unit :=
  .store fun s ↦ { s with registeredLines := ∅, log := s.log ++ [.clearRegistered] }

/-- `executed_lines.clear()`. -/
def clearExecutedLines : Program Tracked Unit :=
  .store fun s ↦ { s with executedLines := ∅, log := s.log ++ [.clearExecuted] }

/-- `reset_unsafe_coverage_stats`. -/
def resetUnsafeCoverageStats : Program Tracked Unit := do
  clearRegisteredLines
  clearExecutedLines
  .store fun s ↦ { s with statsWritten := false }
  .store fun s ↦ { s with runCounter := 0 }

/-- Take both locks and count. -/
def lockAndCount : Program Tracked UnsafeCoverageTracker :=
  .rmw fun s ↦ (s.toUnsafeCoverageTracker,
    { s with computed := s.computed ++ [⟨s.registeredLines, s.executedLines, s.log⟩] })

/-- `get_unsafe_coverage_percentage`. -/
def getUnsafeCoveragePercentage : Program Tracked ℚ := do
  let c ← lockAndCount
  return c.getCoveragePercentage

/-- `print_unsafe_coverage_stats`, which also runs at the exit of the process. -/
def printUnsafeCoverageStats (timestamp : ℕ) : Program Tracked Unit := do
  let written ← .rmw fun s ↦ (s.statsWritten, { s with statsWritten := true })
  if written then return
  let c ← lockAndCount
  let runNum ← .rmw fun s ↦ (s.runCounter + 1, { s with runCounter := s.runCounter + 1 })
  .store fun s ↦ { s with
    reports := s.reports ++ [⟨runNum, c.registeredLines, c.executedLines, timestamp⟩] }

/-- With nothing in between, `reset_unsafe_coverage_stats` does what `reset` says. -/
theorem resetUnsafeCoverageStats_exec (s : Tracked) :
    (resetUnsafeCoverageStats.exec s).2.toUnsafeCoverageTracker = s.reset := rfl

/-- The calls a thread can make. -/
inductive CoverageCall where
  | register (line : ℤ) (file : FileName)
  | track (line : ℤ) (file : FileName)
  | reset
  | percentage
  | print (timestamp : ℕ)

/-- The code of a call. -/
def CoverageCall.code : CoverageCall → Program Tracked Unit
  | .register line file => registerUnsafeLine line file
  | .track line file => trackUnsafeLineExecution line file
  | .reset => resetUnsafeCoverageStats
  | .percentage => do
    let _ ← getUnsafeCoveragePercentage
  | .print timestamp => printUnsafeCoverageStats timestamp

/-- The threads of a process: everybody may call everything at any time. -/
def hooks {τ : Type} : Service τ CoverageCall Tracked Unit where
  code _ call _ := call.code
  allowed _ _ _ _ := true

/-- The start of the process. -/
def launch {τ : Type} : Config τ Tracked Unit := .start .new ()

end Code

/-! ## The sets are what the log says -/

/-- Two sets of locations are those of a log. -/
structure Counted (log : List Effect) (registered executed : Finset Text) : Prop where
  registered : ∀ location, location ∈ registered ↔ RegisteredSince log location
  executed : ∀ location, location ∈ executed ↔ TrackedSince log location

namespace Counted

variable {log : List Effect} {registered executed : Finset Text}

theorem nil : Counted [] ∅ ∅ :=
  ⟨fun _ ↦ by simp [RegisteredSince, not_since_nil], fun _ ↦ by simp [TrackedSince, not_since_nil]⟩

theorem register (h : Counted log registered executed) (location : Text) :
    Counted (log ++ [.register location]) (insert location registered) executed := by
  refine ⟨fun location' ↦ ?_, fun location' ↦ ?_⟩
  · rw [RegisteredSince, since_append_singleton, Finset.mem_insert, h.registered, RegisteredSince]
    simp [eq_comm]
  · rw [TrackedSince, since_append_singleton, h.executed, TrackedSince]
    simp

theorem track (h : Counted log registered executed) (location : Text) :
    Counted (log ++ [.track location]) registered (insert location executed) := by
  refine ⟨fun location' ↦ ?_, fun location' ↦ ?_⟩
  · rw [RegisteredSince, since_append_singleton, h.registered, RegisteredSince]
    simp
  · rw [TrackedSince, since_append_singleton, Finset.mem_insert, h.executed, TrackedSince]
    simp [eq_comm]

theorem clearRegistered (h : Counted log registered executed) :
    Counted (log ++ [.clearRegistered]) ∅ executed := by
  refine ⟨fun location' ↦ ?_, fun location' ↦ ?_⟩
  · rw [RegisteredSince, since_append_singleton]
    simp
  · rw [TrackedSince, since_append_singleton, h.executed, TrackedSince]
    simp

theorem clearExecuted (h : Counted log registered executed) :
    Counted (log ++ [.clearExecuted]) registered ∅ := by
  refine ⟨fun location' ↦ ?_, fun location' ↦ ?_⟩
  · rw [RegisteredSince, since_append_singleton, h.registered, RegisteredSince]
    simp
  · rw [TrackedSince, since_append_singleton]
    simp

end Counted

/-- The sets of the tracker, and those of every computation, are what the log says, and every
report is about the sets of a computation. -/
structure Faithful (s : Tracked) : Prop where
  counted : Counted s.log s.registeredLines s.executedLines
  computed : ∀ c ∈ s.computed, Counted c.log c.registered c.executed
  reported : ∀ r ∈ s.reports, ∃ c ∈ s.computed,
    c.registered = r.registered ∧ c.executed = r.executed

/-- Everybody keeps the log faithful, and relies on computations staying on record. -/
def faithful (τ : Type) : Contract τ Tracked where
  inv := Faithful
  rely _ s s' := s.computed ⊆ s'.computed
  rely_refl _ _ := List.Subset.refl _
  rely_trans := List.Subset.trans

section Runs

variable {τ : Type} {t : τ} {s : Tracked}

theorem faithful_new : Faithful .new :=
  ⟨.nil, fun _ h ↦ absurd h List.not_mem_nil, fun _ h ↦ absurd h List.not_mem_nil⟩

/-- A step that computes and reports nothing. -/
theorem wp_effect {f : Tracked → Tracked} {Q : Unit → Tracked → Prop}
    (hcounted : ∀ s, Counted s.log s.registeredLines s.executedLines →
      Counted (f s).log (f s).registeredLines (f s).executedLines)
    (hcomputed : ∀ s, (f s).computed = s.computed) (hreports : ∀ s, (f s).reports = s.reports)
    (hQ : ∀ s, Q () s) : (faithful τ).wp t (.store f) Q s := by
  refine Contract.wp_store fun s' _ hi ↦ ⟨⟨⟨hcounted s' hi.counted, ?_, ?_⟩, fun _ _ ↦ ?_⟩,
    fun s'' _ _ ↦ hQ s''⟩
  · rw [hcomputed]
    exact hi.computed
  · rw [hcomputed, hreports]
    exact hi.reported
  · change s'.computed ⊆ (f s').computed
    rw [hcomputed]
    exact List.Subset.refl _

/-- What has been counted is on record. -/
theorem wp_lockAndCount : (faithful τ).wp t lockAndCount (fun c s ↦ ∃ c' ∈ s.computed,
    c'.registered = c.registeredLines ∧ c'.executed = c.executedLines) s := by
  refine Contract.wp_rmw fun s' _ hi ↦ ⟨⟨⟨hi.counted, ?_, ?_⟩, fun _ _ ↦ ?_⟩, fun s'' hr _ ↦ ?_⟩
  · intro c hc
    rcases List.mem_append.mp hc with hc | hc
    · exact hi.computed c hc
    · rw [List.mem_singleton.mp hc]
      exact hi.counted
  · intro r hr
    obtain ⟨c, hc, hsame⟩ := hi.reported r hr
    exact ⟨c, List.mem_append_left _ hc, hsame⟩
  · exact List.subset_append_left _ _
  · exact ⟨_, hr (List.mem_append_right _ List.mem_cons_self), rfl, rfl⟩

theorem wp_code (call : CoverageCall) : (faithful τ).wp t call.code (fun _ _ ↦ True) s := by
  cases call with
  | register line file =>
    exact wp_effect (fun s h ↦ h.register _) (fun _ ↦ rfl) (fun _ ↦ rfl) fun _ ↦ trivial
  | track line file =>
    exact wp_effect (fun s h ↦ h.track _) (fun _ ↦ rfl) (fun _ ↦ rfl) fun _ ↦ trivial
  | reset =>
    refine Contract.wp_bind (wp_effect (fun s h ↦ h.clearRegistered) (fun _ ↦ rfl) (fun _ ↦ rfl)
      fun s₁ ↦ ?_)
    refine Contract.wp_bind (wp_effect (fun s h ↦ h.clearExecuted) (fun _ ↦ rfl) (fun _ ↦ rfl)
      fun s₂ ↦ ?_)
    refine Contract.wp_bind (wp_effect (fun s h ↦ h) (fun _ ↦ rfl) (fun _ ↦ rfl) fun s₃ ↦ ?_)
    exact wp_effect (fun s h ↦ h) (fun _ ↦ rfl) (fun _ ↦ rfl) fun _ ↦ trivial
  | percentage =>
    refine Contract.wp_seq (Q := fun _ _ ↦ True) ?_ fun _ s₁ _ _ ↦ ?_
    · exact Contract.wp_seq wp_lockAndCount fun c s₁ _ _ ↦ Contract.wp_done fun _ _ _ ↦ trivial
    · exact Contract.wp_done fun _ _ _ ↦ trivial
  | print timestamp =>
    refine Contract.wp_bind (Contract.wp_rmw fun s₁ _ hi ↦
      ⟨⟨⟨hi.counted, hi.computed, hi.reported⟩, fun _ _ ↦ List.Subset.refl _⟩, fun s₂ _ _ ↦ ?_⟩)
    by_cases hwritten : s₁.statsWritten = true
    · simp only [hwritten, if_true]
      exact Contract.wp_done fun _ _ _ ↦ trivial
    · simp only [hwritten]
      refine Contract.wp_seq wp_lockAndCount fun c s₃ _ hc ↦ ?_
      refine Contract.wp_bind (Contract.wp_rmw fun s₄ hr₄ hi ↦
        ⟨⟨⟨hi.counted, hi.computed, hi.reported⟩, fun _ _ ↦ List.Subset.refl _⟩, fun s₅ hr₅ _ ↦ ?_⟩)
      refine Contract.wp_store fun s₆ hr₆ hi ↦
        ⟨⟨⟨hi.counted, hi.computed, ?_⟩, fun _ _ ↦ List.Subset.refl _⟩, fun _ _ _ ↦ trivial⟩
      intro r hr
      rcases List.mem_append.mp hr with hr | hr
      · exact hi.reported r hr
      · rw [List.mem_singleton.mp hr]
        obtain ⟨c', hc', hsame⟩ := hc
        exact ⟨c', hr₆ (hr₅ (hr₄ hc')), hsame⟩

variable [DecidableEq τ]

/-- In every run the log is faithful. -/
theorem faithful_run (ms : List (Move τ CoverageCall)) : Faithful (hooks.run launch ms).shared :=
  (Contract.run_sound (C := faithful τ) hooks (fun _ _ _ ↦ True)
    (fun _ call _ _ _ _ _ ↦ wp_code call) launch faithful_new
    (fun _ ↦ Contract.wp_done fun _ _ _ ↦ trivial) ms).1

end Runs

/-! ## The analyzer on a file of reports -/

/-- The lines of a location as the analyzer sees them; there are several when the file name has line
breaks. -/
def content (location : Text) : List Text := (Text.readLines (location ++ ['\n'])).map Text.strip

/-- No line of the location is blank or can be taken for a header. -/
def Plain (location : Text) : Prop :=
  ∀ line ∈ content location, line ≠ [] ∧ ¬line.StartsWith "=== ".toList

instance (location : Text) : Decidable (Plain location) :=
  inferInstanceAs (Decidable (∀ line ∈ content location, _))

/-- The lines the analyzer keeps of a set of locations. -/
def sourceLines (locations : Finset Text) : Finset Text :=
  sources (locations.biUnion fun l ↦ (content l).toFinset)

namespace Report

/-- The text of a report. -/
def text (r : Report) : Text :=
  detailedStats r.runNum r.registered r.executed r.registered.card r.executed.card
    (UnsafeCoverageTracker.getCoveragePercentage ⟨r.registered, r.executed, true, r.runNum⟩)
    r.timestamp

/-- It is the text that `write_stats` writes of the tracker it has counted. -/
theorem text_eq (c : UnsafeCoverageTracker) (runNum timestamp : ℕ) :
    text ⟨runNum, c.registeredLines, c.executedLines, timestamp⟩
      = detailedStats runNum c.registeredLines c.executedLines c.registeredLines.card
          c.executedLines.card c.getCoveragePercentage timestamp := rfl

/-- The text of a report, line by line. -/
def lines (r : Report) : List Text :=
  reportLines r.runNum r.registered r.executed r.registered.card r.executed.card
    (UnsafeCoverageTracker.getCoveragePercentage ⟨r.registered, r.executed, true, r.runNum⟩)
    r.timestamp

end Report

/-- What is appended to the file in one write: the text of a report, or the `'\n'` after it. -/
abbrev Piece := Option Report

/-- The lines of a piece. -/
def Piece.lines : Piece → List Text
  | some r => r.lines
  | none => [[]]

/-- A file to which these pieces have been appended. -/
def fileOf (pieces : List Piece) : Text :=
  pieces.flatMap fun
    | some r => r.text
    | none => ['\n']

theorem fileOf_eq_unlines (pieces : List Piece) :
    fileOf pieces = Text.unlines (pieces.flatMap Piece.lines) := by
  induction pieces with
  | nil => rfl
  | cons piece pieces ih =>
    have hcons : fileOf (piece :: pieces) = fileOf [piece] ++ fileOf pieces := by
      simp [fileOf]
    have hpiece : fileOf [piece] = Text.unlines piece.lines := by
      cases piece with
      | none => rfl
      | some r =>
        rw [fileOf, List.flatMap_singleton]
        exact detailedStats_eq_unlines ..
    rw [hcons, ih, hpiece, List.flatMap_cons, Text.unlines_append]

namespace Scan

variable {a : Scan} {sec : Section}

/-- The locations of a section are collected line by line. -/
theorem lines_plain {locations : List Text} (h : ∀ l ∈ locations, Plain l)
    (hsec : a.currentSection = some sec) :
    a.lines (locations.flatMap fun l ↦ Text.readLines (l ++ ['\n']))
      = a.collect sec (sourceLines locations.toFinset) := by
  induction locations generalizing a with
  | nil => simp [sourceLines, sources, collect_empty]
  | cons l locations ih =>
    rw [List.flatMap_cons, lines_append, lines_inside (h l List.mem_cons_self) hsec,
      ih (fun l' hl' ↦ h l' (List.mem_cons_of_mem _ hl')) (by simpa using hsec), collect_collect,
      List.toFinset_cons, sourceLines, sourceLines, Finset.biUnion_insert, sources, sources, sources,
      ← Finset.filter_union]
    rfl

/-- A report, read outside the sections, adds its source lines and ends outside the sections. -/
theorem lines_report {r : Report} (hregistered : ∀ l ∈ r.registered, Plain l)
    (hexecuted : ∀ l ∈ r.executed, Plain l) :
    a.lines (r.lines.flatMap fun l ↦ Text.readLines (l ++ ['\n']))
      = ((a.collect .registered (sourceLines r.registered)).collect .executed
          (sourceLines r.executed)).go none := by
  have hlocations : ∀ (b : Scan) (sec : Section) (ls : Finset Text), (∀ l ∈ ls, Plain l) →
      b.currentSection = some sec →
        b.lines ((ls.sort (· ≤ ·)).flatMap fun l ↦ Text.readLines (l ++ ['\n']))
          = b.collect sec (sourceLines ls) := by
    intro b sec ls hls hsec
    rw [lines_plain (fun l hl ↦ hls l ((Finset.mem_sort _).mp hl)) hsec, Finset.sort_toFinset]
  -- all other lines of the report are read as they are written
  have hfixed : ∀ l ∈ reportLines r.runNum ∅ ∅ r.registered.card r.executed.card
      (UnsafeCoverageTracker.getCoveragePercentage ⟨r.registered, r.executed, true, r.runNum⟩)
      r.timestamp, l.OneLine := oneLine_reportLines _ _ _ _ _ (by simp) (by simp)
  rw [reportLines, Finset.sort_empty, List.append_nil, List.append_nil] at hfixed
  have hopening : ∀ {ls₁ ls₂ ls₃ : List Text}, (∀ l ∈ ls₁ ++ ls₂ ++ ls₃, l.OneLine) →
      (∀ l ∈ ls₁, l.OneLine) ∧ (∀ l ∈ ls₂, l.OneLine) ∧ ∀ l ∈ ls₃, l.OneLine := by
    intro ls₁ ls₂ ls₃ h
    simp only [List.mem_append] at h
    exact ⟨fun l hl ↦ h l (.inl (.inl hl)), fun l hl ↦ h l (.inl (.inr hl)), fun l hl ↦ h l (.inr hl)⟩
  obtain ⟨h₁, h₂, h₃⟩ := hopening hfixed
  rw [Report.lines, reportLines, List.flatMap_append, List.flatMap_append, List.flatMap_append,
    List.flatMap_append, lines_append, lines_append, lines_append, lines_append,
    Text.flatMap_readLines h₁, lines_opening, hlocations _ .registered _ hregistered rfl,
    Text.flatMap_readLines h₂, lines_between, hlocations _ .executed _ hexecuted rfl,
    Text.flatMap_readLines h₃, lines_summary]
  rfl

end Scan

/-- What the analyzer has collected from a file of reports. -/
structure Collected (pieces : List Piece) (a : Scan) : Prop where
  outside : a.currentSection = none
  registered : ∀ l, l ∈ a.allRegistered ↔ ∃ r, some r ∈ pieces ∧ l ∈ sourceLines r.registered
  executed : ∀ l, l ∈ a.allExecuted ↔ ∃ r, some r ∈ pieces ∧ l ∈ sourceLines r.executed

theorem collected_lines {pieces : List Piece}
    (hplain : ∀ r, some r ∈ pieces → ∀ l ∈ r.registered ∪ r.executed, Plain l) :
    Collected pieces (Scan.new.lines
      ((pieces.flatMap Piece.lines).flatMap fun l ↦ Text.readLines (l ++ ['\n']))) := by
  induction pieces using List.reverseRecOn with
  | nil => exact ⟨rfl, fun _ ↦ by simp [Scan.new], fun _ ↦ by simp [Scan.new]⟩
  | append_singleton pieces piece ih =>
    have hbefore := ih fun r hr ↦ hplain r (List.mem_append_left _ hr)
    rw [List.flatMap_append, List.flatMap_singleton, List.flatMap_append, Scan.lines_append]
    generalize Scan.new.lines _ = a at hbefore
    cases piece with
    | none =>
      have hblank : a.lines (Piece.lines none |>.flatMap fun l ↦ Text.readLines (l ++ ['\n'])) = a := by
        obtain ⟨sec, registered, executed⟩ := a
        obtain rfl : sec = none := hbefore.outside
        rfl
      rw [hblank]
      exact ⟨hbefore.outside, fun l ↦ by simp [hbefore.registered], fun l ↦ by simp [hbefore.executed]⟩
    | some r =>
      have hr := hplain r (List.mem_append_right _ List.mem_cons_self)
      rw [Piece.lines, Scan.lines_report (fun l hl ↦ hr l (Finset.mem_union_left _ hl))
        fun l hl ↦ hr l (Finset.mem_union_right _ hl)]
      refine ⟨rfl, fun l ↦ ?_, fun l ↦ ?_⟩
      · change l ∈ a.allRegistered ∪ sourceLines r.registered ↔ _
        rw [Finset.mem_union, hbefore.registered]
        simp only [List.mem_append, List.mem_singleton, Option.some.injEq]
        grind
      · change l ∈ a.allExecuted ∪ sourceLines r.executed ↔ _
        rw [Finset.mem_union, hbefore.executed]
        simp only [List.mem_append, List.mem_singleton, Option.some.injEq]
        grind

/-- The analyzer reads back the source lines of all reports. -/
theorem collected_scanFile {pieces : List Piece}
    (hplain : ∀ r, some r ∈ pieces → ∀ l ∈ r.registered ∪ r.executed, Plain l) :
    Collected pieces (scanFile (some (fileOf pieces))) := by
  have hread := Text.readLines_unlines_append (pieces.flatMap Piece.lines) []
  rw [List.append_nil, ← fileOf_eq_unlines] at hread
  rw [scanFile, hread, Scan.lines_append]
  exact collected_lines hplain

/-! ## When the coverage is a true fraction -/

/-- Of the locations that count, every executed one is registered, or none is registered. -/
def Covered (log : List Effect) : Prop :=
  (∀ l, TrackedSince log l → RegisteredSince log l) ∨ ∀ l, ¬RegisteredSince log l

/-- Of the source lines in these reports, every executed one is registered, by the same report or
another, or none is registered. -/
def ReportsCovered (pieces : List Piece) : Prop :=
  (∀ r l, some r ∈ pieces → l ∈ sourceLines r.executed →
    ∃ r', some r' ∈ pieces ∧ l ∈ sourceLines r'.registered) ∨
  ∀ r, some r ∈ pieces → sourceLines r.registered = ∅

theorem Counted.covered_iff {log : List Effect} {registered executed : Finset Text}
    (h : Counted log registered executed) :
    Covered log ↔ executed ⊆ registered ∨ registered = ∅ := by
  refine or_congr (forall_congr' fun l ↦ ?_) ?_
  · rw [h.registered, h.executed]
  · simp only [Finset.eq_empty_iff_forall_notMem, h.registered]

theorem Collected.covered_iff {pieces : List Piece} {a : Scan} (h : Collected pieces a) :
    ReportsCovered pieces ↔ a.allExecuted ⊆ a.allRegistered ∨ a.allRegistered = ∅ := by
  refine or_congr ⟨fun hsub l hl ↦ ?_, fun hsub r l hr hl ↦ ?_⟩ ⟨fun hnone ↦ ?_, fun hnone r hr ↦ ?_⟩
  · obtain ⟨r, hr, hl⟩ := (h.executed l).mp hl
    exact (h.registered l).mpr (hsub r l hr hl)
  · exact (h.registered l).mp (hsub ((h.executed l).mpr ⟨r, hr, hl⟩))
  · refine Finset.eq_empty_iff_forall_notMem.mpr fun l hl ↦ ?_
    obtain ⟨r, hr, hl⟩ := (h.registered l).mp hl
    rw [hnone r hr] at hl
    exact Finset.notMem_empty l hl
  · refine Finset.eq_empty_iff_forall_notMem.mpr fun l hl ↦ ?_
    have hmem := (h.registered l).mpr ⟨r, hr, hl⟩
    rw [hnone] at hmem
    exact Finset.notMem_empty l hmem

/-- **Coverage.** Whenever a thread computes the coverage, in any run, the ratio is a true fraction
if the lines that count as executed count as registered or none does; otherwise it is wrong at the
latest when all registered lines have been executed as well. The reports are about such
computations, and the same holds of the source lines in a file of reports. -/
theorem coverage_true_fraction {τ : Type} [DecidableEq τ] :
    (∀ ms : List (Move τ CoverageCall), ∀ c ∈ (hooks.run launch ms).shared.computed,
      (Covered c.log → TrueFraction c.executed c.registered) ∧
        (¬Covered c.log → ¬TrueFraction (c.executed ∪ c.registered) c.registered)) ∧
    (∀ ms : List (Move τ CoverageCall), ∀ r ∈ (hooks.run launch ms).shared.reports,
      ∃ c ∈ (hooks.run launch ms).shared.computed,
        c.registered = r.registered ∧ c.executed = r.executed) ∧
    ∀ pieces : List Piece,
      (∀ r, some r ∈ pieces → ∀ l ∈ r.registered ∪ r.executed, Plain l) →
        let a := scanFile (some (fileOf pieces))
        (ReportsCovered pieces → TrueFraction a.allExecuted a.allRegistered) ∧
          (¬ReportsCovered pieces →
            ¬TrueFraction (a.allExecuted ∪ a.allRegistered) a.allRegistered) := by
  have hboth : ∀ {p : Prop} {executed registered : Finset Text},
      (p ↔ executed ⊆ registered ∨ registered = ∅) →
        (p → TrueFraction executed registered) ∧
          (¬p → ¬TrueFraction (executed ∪ registered) registered) := by
    intro p executed registered h
    rw [h, not_or]
    exact ⟨trueFraction_of_subset, fun hnot ↦ not_trueFraction_union hnot.1 hnot.2⟩
  refine ⟨fun ms c hc ↦ ?_, fun ms r hr ↦ (faithful_run ms).reported r hr, fun pieces hplain ↦ ?_⟩
  · exact hboth ((faithful_run ms).computed c hc).covered_iff
  · exact hboth (collected_scanFile hplain).covered_iff

/-- One thread registers a line; another executes it and one that has not been registered. -/
def unregisteredLine : List (Move Bool CoverageCall) :=
  Move.alone false (.register 3 (.utf8 "src/lib.rs".toList)) 1 ++
  Move.alone true (.track 3 (.utf8 "src/lib.rs".toList)) 1 ++
  Move.alone true (.track 7 (.utf8 "src/lib.rs".toList)) 1 ++
  Move.alone false .percentage 1

/-- Two executed lines out of one registered line make a coverage of two. -/
theorem coverage_not_fraction : ¬∀ ms : List (Move Bool CoverageCall),
    ∀ c ∈ (hooks.run launch ms).shared.computed, TrueFraction c.executed c.registered := by
  intro h
  have hcomputed : ((hooks.run launch unregisteredLine).shared.computed.map
      fun c ↦ (c.executed.card, c.registered.card)) = [(2, 1)] := by decide +kernel
  obtain ⟨c, hc⟩ : ∃ c, (hooks.run launch unregisteredLine).shared.computed = [c] := by
    rw [← List.length_eq_one_iff, ← List.length_map, hcomputed, List.length_singleton]
  rw [hc, List.map_singleton, List.singleton_inj, Prod.mk.injEq] at hcomputed
  have hle := (h unregisteredLine c (hc ▸ List.mem_cons_self)).le_one
  rw [ratio, hcomputed.1, hcomputed.2] at hle
  norm_num at hle

/-- The same two threads without the line that has not been registered. -/
def registeredLine : List (Move Bool CoverageCall) :=
  [.call false (.register 3 (.utf8 "src/lib.rs".toList)), .step false,
    .call true (.track 3 (.utf8 "src/lib.rs".toList)), .call false (.print 100), .step false,
    .step true, .step false]

/-- What it reports. -/
def oneReport : Report := ⟨1, {"src/lib.rs:3".toList}, {"src/lib.rs:3".toList}, 100⟩

/-- The coverage it computes, and the coverage the analyzer computes from its report. -/
theorem coverage_true_fraction_registeredLine :
    (∃ c, (hooks.run launch registeredLine).shared.computed = [c] ∧
      TrueFraction c.executed c.registered) ∧
    let a := scanFile (some (fileOf [some oneReport, none]))
    TrueFraction a.allExecuted a.allRegistered := by
  refine ⟨?_, ?_⟩
  · have hlogs : (hooks.run launch registeredLine).shared.computed.map Computation.log
        = [[.register "src/lib.rs:3".toList, .track "src/lib.rs:3".toList]] := by decide +kernel
    obtain ⟨c, hc⟩ : ∃ c, (hooks.run launch registeredLine).shared.computed = [c] := by
      rw [← List.length_eq_one_iff, ← List.length_map, hlogs, List.length_singleton]
    rw [hc, List.map_singleton, List.singleton_inj] at hlogs
    have hcovered : Covered c.log := by
      refine .inl fun l hl ↦ ?_
      rw [hlogs, TrackedSince, ← List.singleton_append, since_append_singleton] at hl
      rw [hlogs, RegisteredSince, ← List.singleton_append, since_append_singleton,
        ← List.nil_append [Effect.register _], since_append_singleton]
      rw [← List.nil_append [Effect.register _], since_append_singleton] at hl
      simp only [not_since_nil, and_false, or_false, reduceCtorEq, Effect.track.injEq] at hl
      simp [hl]
    exact ⟨c, hc, (coverage_true_fraction.1 registeredLine c (hc ▸ List.mem_cons_self)).1 hcovered⟩
  · refine ((coverage_true_fraction (τ := Bool)).2.2 [some oneReport, none] ?_).1 ?_
    · have hplain : Plain "src/lib.rs:3".toList := by decide +kernel
      intro r hr l hl
      obtain rfl : r = oneReport := by simpa using hr
      obtain rfl : l = "src/lib.rs:3".toList := by simpa [oneReport] using hl
      exact hplain
    · refine .inl fun r l hr hl ↦ ⟨oneReport, List.mem_cons_self, ?_⟩
      obtain rfl : r = oneReport := by simpa using hr
      exact hl

end UnsafePerf.Coverage
