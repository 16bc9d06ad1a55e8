import UnsafePerf.Coverage.Tracker

/-!
# The coverage analyzer

`analyze_unsafe_coverage` reads the file of reports line by line. It is a machine with three
states: inside a section of registered lines, inside a section of executed lines, or in neither. A
header opens a section; a blank line and any other header close it.

The second half of the file reads a report as the list of its lines, and runs the machine over
them.
-/

namespace UnsafePerf.Coverage

/-! ## The analyzer -/

/-- The sections the analyzer looks into. -/
inductive Section where
  | registered
  | executed
  deriving DecidableEq

/-- The variables of the loop over the lines. -/
structure Scan where
  currentSection : Option Section
  allRegistered : Finset Text
  allExecuted : Finset Text

namespace Scan

/-- Before the first line. -/
def new : Scan := ⟨none, ∅, ∅⟩

/-- The body of the loop, once white space is removed. -/
def stripped (a : Scan) (line : Text) : Scan :=
  if line = "=== REGISTERED_LINES ===".toList then { a with currentSection := some .registered }
  else if line = "=== EXECUTED_LINES ===".toList then { a with currentSection := some .executed }
  else if line.StartsWith "=== ".toList ∨ line = [] then { a with currentSection := none }
  else if line.StartsWith "src/".toList then
    match a.currentSection with
    | some .registered => { a with allRegistered := insert line a.allRegistered }
    | some .executed => { a with allExecuted := insert line a.allExecuted }
    | none => a
  else a

/-- The body of the loop. -/
def line (a : Scan) (line : Text) : Scan := a.stripped line.strip

/-- The loop. -/
def lines (a : Scan) (ls : List Text) : Scan := ls.foldl line a

@[simp] theorem lines_nil (a : Scan) : a.lines [] = a := rfl

@[simp] theorem lines_cons (a : Scan) (l : Text) (ls : List Text) :
    a.lines (l :: ls) = (a.line l).lines ls := rfl

@[simp] theorem lines_append (a : Scan) (ls ls' : List Text) :
    a.lines (ls ++ ls') = (a.lines ls).lines ls' := List.foldl_append

/-- The coverage in percent. -/
def coveragePercentage (a : Scan) : ℚ :=
  if a.allRegistered.card = 0 then 0
  else Text.toF64 (Text.toF64 (a.allExecuted.card / a.allRegistered.card) * 100)

/-- What is printed at the end. -/
def printed (a : Scan) : List Text :=
  ["=== OVERALL UNSAFE COVERAGE ANALYSIS ===".toList,
    "Total registered src/ lines: ".toList ++ Text.ofNat a.allRegistered.card,
    "Total executed src/ lines: ".toList ++ Text.ofNat a.allExecuted.card,
    "Coverage percentage: ".toList ++ Text.fixed2 a.coveragePercentage ++ "%".toList,
    []] ++
  let unexecuted := a.allRegistered \ a.allExecuted
  if unexecuted.Nonempty then
    ("Unexecuted src/ lines (".toList ++ Text.ofNat unexecuted.card ++ "):".toList) ::
      (unexecuted.sort (· ≤ ·)).map ("  ".toList ++ ·)
  else ["All registered src/ lines were executed!".toList]

end Scan

/-- The file read to its end; without a file, nothing. -/
def scanFile (file : Option Text) : Scan :=
  match file with
  | none => .new
  | some text => Scan.new.lines text.readLines

/-- `analyze_unsafe_coverage`: what is printed. -/
def analyzeUnsafeCoverage (filename : Text) (file : Option Text) : List Text :=
  match file with
  | none => ["Error: File '".toList ++ filename ++ "' not found".toList]
  | some _ => (scanFile file).printed

/-! ## A report as lines -/

/-- The lines of a report. -/
def reportLines (runNum : ℕ) (registered executed : Finset Text)
    (registeredCount executedCount : ℕ) (coverage : ℚ) (timestamp : ℕ) : List Text :=
  ["=== RUN_".toList ++ Text.ofNat runNum ++ " ===".toList, "=== REGISTERED_LINES ===".toList]
    ++ registered.sort (· ≤ ·)
    ++ [[], "=== EXECUTED_LINES ===".toList]
    ++ executed.sort (· ≤ ·)
    ++ [[], "=== SUMMARY ===".toList,
      "registered_count=".toList ++ Text.ofNat registeredCount,
      "executed_count=".toList ++ Text.ofNat executedCount,
      "coverage_percentage=".toList ++ Text.fixed2 coverage,
      "run_timestamp=".toList ++ Text.ofNat timestamp,
      []]

theorem detailedStats_eq_unlines (runNum : ℕ) (registered executed : Finset Text)
    (registeredCount executedCount : ℕ) (coverage : ℚ) (timestamp : ℕ) :
    detailedStats runNum registered executed registeredCount executedCount coverage timestamp
      = Text.unlines (reportLines runNum registered executed registeredCount executedCount coverage
          timestamp) := by
  have hnewline : "\n".toList = ['\n'] := rfl
  have hrun : " ===\n".toList = " ===".toList ++ ['\n'] := rfl
  have hregistered : "=== REGISTERED_LINES ===\n".toList
      = "=== REGISTERED_LINES ===".toList ++ ['\n'] := rfl
  have hexecuted : "=== EXECUTED_LINES ===\n".toList
      = "=== EXECUTED_LINES ===".toList ++ ['\n'] := rfl
  have hsummary : "=== SUMMARY ===\n".toList = "=== SUMMARY ===".toList ++ ['\n'] := rfl
  have hlines : ∀ ls : List Text, ls.flatMap (· ++ ['\n']) = Text.unlines ls := fun _ ↦ rfl
  unfold detailedStats reportLines
  simp only [hnewline, hrun, hregistered, hexecuted, hsummary, hlines, Text.unlines_append,
    Text.unlines_cons, Text.unlines_nil, List.append_assoc, List.cons_append, List.nil_append]

/-! ## The machine on the lines of a report -/

/-- A line that is neither blank nor a header, and is read as it was written. -/
structure Location (l : Text) : Prop where
  oneLine : l.OneLine
  trimmed : l.Trimmed
  nonempty : l ≠ []
  notHeader : ¬l.StartsWith "=== ".toList

/-- The locations the analyzer keeps. -/
def sources (ls : Finset Text) : Finset Text := ls.filter fun l ↦ l.StartsWith "src/".toList

theorem Location.of_solid {l : Text} (h : l.Solid) (hnonempty : l ≠ [])
    (hhead : l.head? ≠ some '=') : Location l where
  oneLine := h.oneLine
  trimmed := h.trimmed
  nonempty := hnonempty
  notHeader hstart := by
    obtain ⟨rest, rfl⟩ := hstart
    exact hhead rfl

namespace Scan

/-- Add locations to those of a section. -/
def collect (a : Scan) (sec : Section) (ls : Finset Text) : Scan :=
  match sec with
  | .registered => { a with allRegistered := a.allRegistered ∪ ls }
  | .executed => { a with allExecuted := a.allExecuted ∪ ls }

/-- Go to a section or leave it. -/
def go (a : Scan) (sec : Option Section) : Scan := { a with currentSection := sec }

variable {a : Scan} {l : Text} {sec : Section} {ls ls' : Finset Text}

@[simp] theorem collect_currentSection :
    (a.collect sec ls).currentSection = a.currentSection := by
  cases sec <;> rfl

theorem collect_collect : (a.collect sec ls).collect sec ls' = a.collect sec (ls ∪ ls') := by
  cases sec <;> simp [collect, Finset.union_assoc]

theorem collect_empty : a.collect sec ∅ = a := by
  cases sec <;> simp [collect]

theorem line_append_newline (h : l.Trimmed) : a.line (l ++ ['\n']) = a.stripped l := by
  rw [line, Text.strip_append_newline h]

theorem line_blank : a.line ([] ++ ['\n']) = a.go none := rfl

theorem line_registeredHeader :
    a.line ("=== REGISTERED_LINES ===".toList ++ ['\n']) = a.go (some .registered) := by
  rw [line_append_newline ⟨by decide +kernel, by decide +kernel⟩]
  exact if_pos rfl

theorem line_executedHeader :
    a.line ("=== EXECUTED_LINES ===".toList ++ ['\n']) = a.go (some .executed) := by
  rw [line_append_newline ⟨by decide +kernel, by decide +kernel⟩, stripped,
    if_neg (by decide +kernel)]
  exact if_pos rfl

/-- Any other header closes the section. -/
theorem line_header (htrimmed : l.Trimmed) (hstart : l.StartsWith "=== ".toList)
    (hregistered : l ≠ "=== REGISTERED_LINES ===".toList)
    (hexecuted : l ≠ "=== EXECUTED_LINES ===".toList) :
    a.line (l ++ ['\n']) = a.go none := by
  rw [line_append_newline htrimmed, stripped, if_neg hregistered, if_neg hexecuted,
    if_pos (.inl hstart)]
  rfl

theorem line_location (h : Location l) :
    a.line (l ++ ['\n']) = if l.StartsWith "src/".toList then
      match a.currentSection with
      | some .registered => { a with allRegistered := insert l a.allRegistered }
      | some .executed => { a with allExecuted := insert l a.allExecuted }
      | none => a
    else a := by
  have hregistered : l ≠ "=== REGISTERED_LINES ===".toList := by
    rintro rfl
    exact h.notHeader (by decide +kernel)
  have hexecuted : l ≠ "=== EXECUTED_LINES ===".toList := by
    rintro rfl
    exact h.notHeader (by decide +kernel)
  rw [line_append_newline h.trimmed, stripped, if_neg hregistered, if_neg hexecuted,
    if_neg (not_or.mpr ⟨h.notHeader, h.nonempty⟩)]

/-- Outside the sections a location changes nothing. -/
theorem line_outside (h : Location l) (hsec : a.currentSection = none) :
    a.line (l ++ ['\n']) = a := by
  rw [line_location h, hsec]
  exact ite_self _

/-- Inside a section a line that is neither blank nor a header is collected if it is a source
line. -/
theorem line_inside {line : Text} (hne : line.strip ≠ [])
    (hheader : ¬line.strip.StartsWith "=== ".toList) (hsec : a.currentSection = some sec) :
    a.line line = a.collect sec (sources {line.strip}) := by
  have hregistered : line.strip ≠ "=== REGISTERED_LINES ===".toList := by
    intro heq
    rw [heq] at hheader
    exact hheader (by decide +kernel)
  have hexecuted : line.strip ≠ "=== EXECUTED_LINES ===".toList := by
    intro heq
    rw [heq] at hheader
    exact hheader (by decide +kernel)
  rw [Scan.line, stripped, if_neg hregistered, if_neg hexecuted, if_neg (not_or.mpr ⟨hheader, hne⟩),
    hsec, sources, Finset.filter_singleton]
  by_cases hsrc : line.strip.StartsWith "src/".toList
  · rw [if_pos hsrc, if_pos hsrc]
    cases sec <;> simp [collect, hsec]
  · rw [if_neg hsrc, if_neg hsrc, collect_empty]

/-- The source lines of a section are collected. -/
theorem lines_inside {ls : List Text}
    (h : ∀ line ∈ ls.map Text.strip, line ≠ [] ∧ ¬line.StartsWith "=== ".toList)
    (hsec : a.currentSection = some sec) :
    a.lines ls = a.collect sec (sources (ls.map Text.strip).toFinset) := by
  induction ls generalizing a with
  | nil => simp [sources, collect_empty]
  | cons line ls ih =>
    have hline := h line.strip List.mem_cons_self
    rw [lines_cons, line_inside hline.1 hline.2 hsec,
      ih (fun line' hline' ↦ h line' (List.mem_cons_of_mem _ hline')) (by simpa using hsec),
      collect_collect, List.map_cons, List.toFinset_cons, sources, sources, sources,
      ← Finset.filter_union, Finset.insert_eq]

/-- The locations of a section are collected. -/
theorem lines_locations {locations : List Text} (h : ∀ l ∈ locations, Location l)
    (hsec : a.currentSection = some sec) :
    a.lines (locations.map (· ++ ['\n'])) = a.collect sec (sources locations.toFinset) := by
  have hstrip : (locations.map (· ++ ['\n'])).map Text.strip = locations := by
    rw [List.map_map]
    exact (List.map_congr_left fun l hl ↦ Text.strip_append_newline (h l hl).trimmed).trans
      (List.map_id _)
  have hplain : ∀ line ∈ locations, line ≠ [] ∧ ¬line.StartsWith "=== ".toList :=
    fun line hline ↦ ⟨(h line hline).nonempty, (h line hline).notHeader⟩
  rw [lines_inside (hstrip.symm ▸ hplain) hsec, hstrip]

/-- The first header of a report. -/
theorem line_runHeader (runNum : ℕ) :
    a.line ("=== RUN_".toList ++ Text.ofNat runNum ++ " ===".toList ++ ['\n']) = a.go none := by
  have hstart : "=== RUN_".toList
      <+: "=== RUN_".toList ++ Text.ofNat runNum ++ " ===".toList :=
    ⟨Text.ofNat runNum ++ " ===".toList, (List.append_assoc ..).symm⟩
  refine line_header ⟨fun c hc ↦ ?_, fun c hc ↦ ?_⟩ ?_ ?_ ?_
  · obtain rfl : '=' = c := Option.some.inj hc
    rfl
  · rw [List.getLast?_append_of_ne_nil _ (by decide)] at hc
    obtain rfl : '=' = c := Option.some.inj hc
    rfl
  · have hheader : "=== ".toList <+: "=== RUN_".toList := by decide +kernel
    exact hheader.trans hstart
  · intro heq
    rw [heq] at hstart
    exact absurd hstart (by decide +kernel)
  · intro heq
    rw [heq] at hstart
    exact absurd hstart (by decide +kernel)

theorem line_summaryHeader : a.line ("=== SUMMARY ===".toList ++ ['\n']) = a.go none :=
  line_header ⟨by decide +kernel, by decide +kernel⟩ (by decide +kernel) (by decide +kernel)
    (by decide +kernel)

/-- A line of the summary. -/
theorem location_summary {key value : Text} {c : Char} (hkey : key.Solid) (hvalue : value.Solid)
    (hhead : key.head? = some c) (hne : c ≠ '=') : Location (key ++ value) := by
  refine .of_solid (hkey.append hvalue) ?_ ?_
  · rintro hnil
    rw [(List.append_eq_nil_iff.mp hnil).1] at hhead
    exact absurd hhead (by simp)
  · rw [List.head?_append, hhead, Option.some_or, Ne, Option.some_inj]
    exact hne

/-- The start of a report opens the registered section. -/
theorem lines_opening (runNum : ℕ) :
    a.lines (["=== RUN_".toList ++ Text.ofNat runNum ++ " ===".toList,
        "=== REGISTERED_LINES ===".toList].map (· ++ ['\n'])) = a.go (some .registered) := by
  rw [List.map_cons, List.map_singleton, lines_cons, lines_cons, lines_nil, line_runHeader,
    line_registeredHeader]
  rfl

/-- After the registered section comes the executed one. -/
theorem lines_between :
    a.lines ([[], "=== EXECUTED_LINES ===".toList].map (· ++ ['\n'])) = a.go (some .executed) := by
  rw [List.map_cons, List.map_singleton, lines_cons, lines_cons, lines_nil, line_blank,
    line_executedHeader]
  rfl

/-- The summary is outside the sections. -/
theorem lines_summary (registeredCount executedCount timestamp : ℕ) (coverage : ℚ) :
    a.lines ([[], "=== SUMMARY ===".toList,
      "registered_count=".toList ++ Text.ofNat registeredCount,
      "executed_count=".toList ++ Text.ofNat executedCount,
      "coverage_percentage=".toList ++ Text.fixed2 coverage,
      "run_timestamp=".toList ++ Text.ofNat timestamp,
      []].map (· ++ ['\n'])) = a.go none := by
  have hsummary : ∀ (b : Scan) (key value : Text) (c : Char), b.currentSection = none →
      key.Solid → value.Solid → key.head? = some c → c ≠ '=' →
        b.line (key ++ value ++ ['\n']) = b := fun b key value c hsec hkey hvalue hhead hne ↦
    line_outside (location_summary hkey hvalue hhead hne) hsec
  simp only [List.map_cons, List.map_nil, lines_cons, lines_nil, line_summaryHeader, line_blank]
  rw [hsummary _ "registered_count=".toList _ 'r' rfl (by decide) (Text.solid_ofNat _) rfl
      (by decide),
    hsummary _ "executed_count=".toList _ 'e' rfl (by decide) (Text.solid_ofNat _) rfl (by decide),
    hsummary _ "coverage_percentage=".toList _ 'c' rfl (by decide) (Text.solid_fixed2 _) rfl
      (by decide),
    hsummary _ "run_timestamp=".toList _ 'r' rfl (by decide) (Text.solid_ofNat _) rfl (by decide)]
  rfl

/-- A whole report, read outside the sections, adds its source locations and ends outside the
sections. -/
theorem lines_reportLines (runNum registeredCount executedCount timestamp : ℕ) (coverage : ℚ)
    {registered executed : Finset Text} (hregistered : ∀ l ∈ registered, Location l)
    (hexecuted : ∀ l ∈ executed, Location l) :
    a.lines ((reportLines runNum registered executed registeredCount executedCount coverage
        timestamp).map (· ++ ['\n']))
      = ((a.collect .registered (sources registered)).collect .executed (sources executed)).go
          none := by
  have hlocations : ∀ (b : Scan) (sec : Section) (ls : Finset Text), (∀ l ∈ ls, Location l) →
      b.currentSection = some sec →
        b.lines ((ls.sort (· ≤ ·)).map (· ++ ['\n'])) = b.collect sec (sources ls) := by
    intro b sec ls hls hsec
    rw [lines_locations (fun l hl ↦ hls l ((Finset.mem_sort _).mp hl)) hsec, Finset.sort_toFinset]
  unfold reportLines
  rw [List.map_append, List.map_append, List.map_append, List.map_append, lines_append, lines_append,
    lines_append, lines_append, lines_opening, hlocations _ .registered registered hregistered rfl,
    lines_between, hlocations _ .executed executed hexecuted rfl, lines_summary]
  rfl

end Scan

/-- No line of a report contains a line end. -/
theorem oneLine_reportLines (runNum registeredCount executedCount timestamp : ℕ) (coverage : ℚ)
    {registered executed : Finset Text} (hregistered : ∀ l ∈ registered, Location l)
    (hexecuted : ∀ l ∈ executed, Location l) :
    ∀ l ∈ reportLines runNum registered executed registeredCount executedCount coverage timestamp,
      l.OneLine := by
  have hvalue : ∀ {key value : Text}, key.OneLine → value.Solid → (key ++ value).OneLine :=
    fun hkey hvalue ↦ hkey.append hvalue.oneLine
  intro l hl
  simp only [reportLines, List.mem_append, List.mem_cons, List.not_mem_nil, or_false,
    Finset.mem_sort] at hl
  rcases hl with ((((rfl | rfl) | hl) | rfl | rfl) | hl) | rfl | rfl | rfl | rfl | rfl | rfl | rfl
  · exact (hvalue (by decide) (Text.solid_ofNat _)).append (by decide)
  · decide
  · exact (hregistered l hl).oneLine
  · decide
  · decide
  · exact (hexecuted l hl).oneLine
  · decide
  · decide
  · exact hvalue (by decide) (Text.solid_ofNat _)
  · exact hvalue (by decide) (Text.solid_ofNat _)
  · exact hvalue (by decide) (Text.solid_fixed2 _)
  · exact hvalue (by decide) (Text.solid_ofNat _)
  · decide

/-! ## Locations -/

/-- A file name that cannot be mistaken for anything else in a report: no line ends, no white space
at the start, and not the start of a header. -/
def FileName.Clean : FileName → Prop
  | .utf8 name => name.OneLine ∧ (∀ c ∈ name.head?, Text.isSpace c = false) ∧
      ¬name.StartsWith "=== ".toList
  | .null | .invalidUtf8 => True

/-- With its line number, a clean name is a location. -/
theorem location_of_clean {name : Text} (hline : name.OneLine)
    (hhead : ∀ c ∈ name.head?, Text.isSpace c = false) (hstart : ¬name.StartsWith "=== ".toList)
    (line : ℤ) : Location (name ++ ':' :: Text.ofInt line) := by
  have hsolid : Text.Solid (':' :: Text.ofInt line) :=
    Text.Solid.append (l := [':']) (by decide) (Text.solid_ofInt line)
  refine ⟨hline.append hsolid.oneLine, hsolid.trimmed.prepend hhead (by simp), by simp, ?_⟩
  intro hheader
  have hcolon : name ++ [':'] <+: name ++ ':' :: Text.ofInt line := by simp
  -- the header mark would lie within the name, or contain the colon
  rcases Nat.lt_or_ge name.length "=== ".toList.length with hlt | hge
  · have hle : (name ++ [':']).length ≤ "=== ".toList.length := by
      rw [List.length_append]
      exact hlt
    have hmem := (List.prefix_of_prefix_length_le hcolon hheader hle).subset
    exact absurd (hmem (List.mem_append_right _ List.mem_cons_self)) (by decide)
  · exact hstart (List.prefix_of_prefix_length_le hheader (List.prefix_append _ _) hge)

theorem location_makeLocation {file : FileName} (h : file.Clean) (line : ℤ) :
    Location (makeLocation line file) := by
  cases file with
  | null => exact location_of_clean (by decide) (by decide) (by decide) line
  | utf8 name => exact location_of_clean h.1 h.2.1 h.2.2 line
  | invalidUtf8 => exact location_of_clean (by decide) (by decide) (by decide) line

end UnsafePerf.Coverage
