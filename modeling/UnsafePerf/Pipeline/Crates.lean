import UnsafePerf.Files.PathText
import UnsafePerf.Pipeline.Collect

/-!
# Running the crates

`run_crate` finds the directory of a crate and its custom configuration, runs the commands until one
of them fails, and after a success collects the results. The execution loop of `main` calls it for
every experiment and crate; an exception ends the program.

A crate is named as an entry of the benchmark directory can be named, `CrateName`. Arguments that are
paths are left out, and the empty one, which `main` takes for none.

What a command does is given from outside: the reports that are written to the output file while it
runs, and whether it succeeds, fails or times out. A file of reports is the list of its reports. All
other files that commands write are not modelled.

Two components are history: `Session.own` collects the reports that are appended while the commands
of a crate run, and `State.results` says, for each file of results that a call has produced, which
reports were appended while the commands of that call ran.
-/

open Files

namespace UnsafePerf.Pipeline

/-! ## Crate configurations -/

/-- A custom configuration of `CRATE_CONFIGS`. -/
structure CrateConfig where
  skip : Bool := false
  cwd : Option Text := none
  cmds : Option (List Text) := none
  flags : Option (List Text) := none
  useAbsoluteRustflags : Bool := false
  env : Option (List (Text × Text)) := none
  timeout : Option ℕ := none

/-- `os.path.expanduser('~/.cargo/bin/rebar')`. -/
def rebar (home : Text) : Text := home ++ "/.cargo/bin/rebar".toList

/-- `CRATE_CONFIGS`, for a home directory. -/
def crateConfigs (home : Text) : List (Text × CrateConfig) :=
  [("rayon".toList,
    { cwd := some "rayon-demo".toList
      cmds := some ["cargo clean".toList, "cargo build --release".toList,
        "../target/release/rayon-demo nbody bench --bodies 500".toList] }),
  ("parking_lot".toList,
    { cwd := some "benchmark".toList
      cmds := some ["cargo clean".toList, "cargo build --release".toList,
        "./target/release/mutex 2 4 10 2 4".toList,
        "./target/release/rwlock 4 4 4 10 2 4".toList] }),
  ("memchr".toList,
    { cmds := some ["cargo install --path ../rebar --force".toList,
        rebar home ++ " build -e 'rust/memchr/memmem/(oneshot)'".toList,
        rebar home ++ " measure --verify -e 'rust/memchr/memmem/(oneshot)'".toList]
      flags := some ["-C".toList, "target-feature=-sse2,-avx2".toList] }),
  ("simd-json".toList,
    { cmds := some ["cargo update -p half --precise 2.3.1".toList,
        "cargo update -p proptest --precise 1.4.0".toList, "cargo clean".toList,
        "cargo build --release".toList, "cargo bench".toList] }),
  ("jni".toList,
    { cmds := some ["cargo clean".toList, "cargo build --release --features invocation".toList,
        "cargo bench --features invocation".toList] }),
  ("ring".toList,
    { cwd := some "bench".toList
      cmds := some ["cargo clean".toList, "cargo build --release".toList, "cargo bench".toList]
      useAbsoluteRustflags := true
      env := some [("CC".toList, "clang".toList)] }),
  ("tokio".toList,
    { cwd := some "benches".toList
      cmds := some ["cargo update -p half --precise 2.3.1".toList,
        "cargo update -p proptest --precise 1.4.0".toList, "cargo clean".toList,
        "cargo build --release".toList, "cargo bench --locked".toList]
      timeout := some 3600 }),
  ("rayon-core".toList, { skip := true })]

/-- The custom configuration that `run_crate` selects. -/
def customConfig (configs : List (Text × CrateConfig)) (crateName : Text) : Option CrateConfig :=
  (configs.find? fun kv ↦
    decide (crateName = kv.1) || decide (crateName.StartsWith (kv.1 ++ "-".toList))).map Prod.snd

/-- The name of a crate: one that an entry of `BENCHMARK_DIR` can have. -/
abbrev CrateName := {name : Text // Path.IsName name}

/-- The directory that `run_crate` selects. `entries` are the names in `BENCHMARK_DIR`, in the order
in which `iterdir` lists them, and whether each is a directory. -/
def crateDir (entries : List (CrateName × Bool)) (crateName : CrateName) : Option CrateName :=
  if crateName ∈ entries.map Prod.fst then some crateName
  else (entries.find? fun entry ↦ entry.2 && decide (entry.1.val.StartsWith crateName)).map Prod.fst

/-- The default sequence. -/
def defaultCmds : List Text :=
  ["cargo clean".toList, "cargo build --release".toList, "cargo bench".toList]

/-- The commands of a crate, given its custom configuration. -/
def commands (custom : Option CrateConfig) : List Text :=
  (custom.bind CrateConfig.cmds).getD defaultCmds

/-! ## Commands -/

/-- How a command ends. -/
inductive CmdResult where
  | success
  | failed
  | timedOut
  deriving DecidableEq

/-- What a command does: the reports that are written while it runs, and how it ends. -/
structure CmdRun (ρ : Type) where
  reports : List ρ
  result : CmdResult

variable {ρ : Type}

/-- The reports in a file. -/
def reportsIn (fs : FileTree (List ρ)) (file : Path) : List ρ :=
  match fs.node file with
  | some (.file reports) => reports
  | _ => []

/-- The file tree while the commands of a crate run. -/
structure Session (ρ : Type) where
  fs : FileTree (List ρ)
  /-- The reports that have been appended since the first command was started. -/
  own : List ρ

/-- `write_output`. -/
def writeOutput (dir : Path) (filename : Text) (s : Session ρ) (content : ρ) : Session ρ :=
  let filePath := dir.join filename
  let fs := if h : s.fs.Unobstructed dir then s.fs.makeDirs dir h else s.fs
  if h : fs.Writable filePath then
    { fs := fs.write filePath (reportsIn fs filePath ++ [content]) h
      own := s.own ++ [content] }
  else { s with fs := fs }

/-- `run_cmd`. -/
def runCmd (outputDir : Path) (outputFile : Text) (cmd : CmdRun ρ) (s : Session ρ) :
    Session ρ × Bool :=
  (cmd.reports.foldl (writeOutput outputDir outputFile) s, decide (cmd.result = .success))

/-- The loop of `run_crate` over the commands; `run` says what each of them does. -/
def runCmds (outputDir : Path) (outputFile : Text) :
    List Text → (ℕ → CmdRun ρ) → Session ρ → Session ρ × Bool
  | [], _, s => (s, true)
  | _ :: cmds, run, s =>
    let (s, ok) := runCmd outputDir outputFile (run 0) s
    if ok then runCmds outputDir outputFile cmds (fun i ↦ run (i + 1)) s
    else (s, false)

/-! ## `run_crate` -/

/-- What `run_crate` leaves behind. -/
structure CrateRun (ρ : Type) where
  fs : FileTree (List ρ)
  /-- Whether it ends with an exception. -/
  raised : Bool
  /-- The reports that were appended while the commands ran, if a file of results was produced. -/
  produced : Option (List ρ)

/-- `run_crate`. -/
def runCrate (configs : List (Text × CrateConfig)) (entries : List (CrateName × Bool))
    (outputDir : Path) (exp : Experiment) (crateName : CrateName) (run : ℕ → CmdRun ρ)
    (fs : FileTree (List ρ)) : CrateRun ρ :=
  match crateDir entries crateName with
  | none => ⟨fs, false, none⟩
  | some _ =>
    let custom := customConfig configs crateName
    if custom.any CrateConfig.skip then ⟨fs, false, none⟩
    else
      let (s, success) := runCmds outputDir exp.outputFile (commands custom) run ⟨fs, []⟩
      if success then
        match collect s.fs outputDir crateName exp.outputFile with
        | none => ⟨s.fs, true, none⟩
        | some fs' =>
          { fs := fs'
            raised := false
            produced :=
              if (found s.fs outputDir exp.outputFile).isSome ∧
                  fs'.IsFile (outputDir ++ [resultName crateName exp.outputFile]) then some s.own
              else none }
      else ⟨s.fs, false, none⟩

/-! ## The execution loop -/

/-- The state of `main` in its execution loop. -/
structure State (ρ : Type) where
  fs : FileTree (List ρ)
  running : Bool
  /-- The reports that were appended while the commands ran of the last call that produced a file
  of results for the experiment and the crate. -/
  results : Experiment → CrateName → Option (List ρ)

/-- What the execution loop does. -/
inductive Step (ρ : Type) where
  /-- `build_perf` returns, or it fails and the program ends. -/
  | buildPerf (exp : Experiment) (success : Bool)
  | runCrate (exp : Experiment) (crateName : CrateName) (run : ℕ → CmdRun ρ)

section Loop

variable (configs : List (Text × CrateConfig)) (entries : List (CrateName × Bool)) (outputDir : Path)

/-- One step of the execution loop. -/
def step (s : State ρ) : Step ρ → State ρ
  | .buildPerf exp success =>
    -- without a feature there is nothing to build
    if s.running ∧ exp.config.feature ≠ [] then { s with running := success } else s
  | .runCrate exp crateName run =>
    if s.running then
      let r := runCrate configs entries outputDir exp crateName run s.fs
      { fs := r.fs
        running := !r.raised
        results := fun exp' crateName' ↦
          if exp' = exp ∧ crateName' = crateName ∧ r.produced.isSome then r.produced
          else s.results exp' crateName' }
    else s

/-- The state after some steps. -/
def runSteps (s : State ρ) (steps : List (Step ρ)) : State ρ :=
  steps.foldl (step configs entries outputDir) s

/-- The execution loop of `main`: `builds` says which libraries can be built, and `runs` what the
commands of each crate do. -/
def executionLoop (experiments : List Experiment) (crates : List CrateName)
    (builds : Experiment → Bool) (runs : Experiment → ℕ → ℕ → CmdRun ρ) : List (Step ρ) :=
  experiments.flatMap fun exp ↦
    .buildPerf exp (builds exp) ::
      crates.zipIdx.map fun crate ↦ .runCrate exp crate.1 (runs exp crate.2)

/-- The state in which the execution loop starts. -/
def start (fs : FileTree (List ρ)) : State ρ := ⟨fs, true, fun _ _ ↦ none⟩

end Loop

end UnsafePerf.Pipeline
