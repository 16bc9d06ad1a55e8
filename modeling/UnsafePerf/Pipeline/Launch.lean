import UnsafePerf.Files.PathText
import UnsafePerf.Pipeline.Crates

/-!
# Launching the commands of a crate

What `run_crate` hands to `run_cmd`: the command, the directory it starts in, its environment and
its timeout. The environment is that of the program itself with some variables set, one deleted, and
the `env` of the custom configuration over all of them.

`RUSTFLAGS` is set unless the experiment is native. The native experiment leaves it as it was, so the
flags of a preset that has been sourced reach the baseline: `launches_independent_iff`. Of a custom
configuration every field is read but `flags`: `configuration_takes_effect_iff`.
-/

open Files

namespace UnsafePerf.Pipeline

/-! ## Environments -/

/-- The variables of a process. -/
abbrev Env := Text → Option Text

namespace Env

/-- `env[name] = value`. -/
def set (env : Env) (name value : Text) : Env := Function.update env name (some value)

/-- `del env[name]`. -/
def del (env : Env) (name : Text) : Env := Function.update env name none

/-- `env.update(items)`. -/
def update (env : Env) (items : List (Text × Text)) : Env :=
  items.foldl (fun env item ↦ env.set item.1 item.2) env

variable {env : Env} {name name' value : Text}

@[simp] theorem set_self : env.set name value name = some value := Function.update_self ..

@[simp] theorem set_of_ne (h : name' ≠ name) : env.set name value name' = env name' :=
  Function.update_of_ne h ..

@[simp] theorem del_self : env.del name name = none := Function.update_self ..

@[simp] theorem del_of_ne (h : name' ≠ name) : env.del name name' = env name' :=
  Function.update_of_ne h ..

/-- The last item of a name wins. -/
theorem update_apply (env : Env) (items : List (Text × Text)) (name : Text) :
    env.update items name = (items.reverse.lookup name).or (env name) := by
  rw [update, ← List.foldr_reverse]
  induction items.reverse with
  | nil => rfl
  | cons item items ih =>
    rw [List.foldr_cons, List.lookup_cons]
    by_cases hname : name = item.1
    · subst hname
      rw [set_self, beq_self_eq_true]
      rfl
    · rw [set_of_ne hname, ih, beq_eq_false_iff_ne.mpr hname]

/-- The environments differ at most in the given variables. -/
def AgreeBut (names : List Text) (env env' : Env) : Prop := ∀ name ∉ names, env name = env' name

namespace AgreeBut

variable {env' : Env} {names names' : List Text}

theorem mono (h : AgreeBut names env env') (hnames : ∀ n ∈ names, n ∈ names') :
    AgreeBut names' env env' := fun n hn ↦ h n fun hmem ↦ hn (hnames n hmem)

theorem del_right {name : Text} (h : name ∈ names) (env : Env) :
    AgreeBut names env (env.del name) := by
  intro n hn
  rw [del_of_ne]
  rintro rfl
  exact hn h

theorem assign (h : AgreeBut names env env') (name : Text) (value : Option Text) :
    AgreeBut (names.erase name) (Function.update env name value)
      (Function.update env' name value) := by
  intro n hn
  by_cases hname : n = name
  · subst hname
    rw [Function.update_self, Function.update_self]
  · rw [Function.update_of_ne hname, Function.update_of_ne hname]
    exact h n fun hmem ↦ hn ((List.mem_erase_of_ne hname).mpr hmem)

theorem set (h : AgreeBut names env env') (name value : Text) :
    AgreeBut (names.erase name) (env.set name value) (env'.set name value) :=
  h.assign name (some value)

theorem del (h : AgreeBut names env env') (name : Text) :
    AgreeBut (names.erase name) (env.del name) (env'.del name) :=
  h.assign name none

theorem update (h : AgreeBut names env env') (items : List (Text × Text)) :
    AgreeBut names (env.update items) (env'.update items) := by
  intro n hn
  rw [update_apply, update_apply, h n hn]

end AgreeBut

end Env

/-! ## Flags -/

/-- The flags of a text, as cargo reads them from `RUSTFLAGS`. -/
def words (text : Text) : List Text := text.splitOn ' '

/-- `" ".join(flags)`. -/
def joinFlags (flags : List Text) : Text := [' '].intercalate flags

/-- The flags stand side by side in a text. -/
def HasFlags (text : Text) (flags : List Text) : Prop := flags.flatMap words <:+: words text

instance (text : Text) (flags : List Text) : Decidable (HasFlags text flags) :=
  inferInstanceAs (Decidable (_ <:+: _))

theorem words_joinFlags {flags : List Text} (h : flags ≠ []) :
    words (joinFlags flags) = flags.flatMap words := by
  induction flags with
  | nil => exact absurd rfl h
  | cons flag flags ih =>
    cases flags with
    | nil => simp [joinFlags, List.intercalate]
    | cons flag' flags =>
      have hjoin : joinFlags (flag :: flag' :: flags) = flag ++ ' ' :: joinFlags (flag' :: flags) := by
        simp [joinFlags, List.intercalate]
      rw [hjoin, words, List.splitOn_append_cons_self, List.flatMap_cons]
      exact congrArg _ (ih (List.cons_ne_nil _ _))

/-! ## What is launched -/

/-- Where the program finds its files and leaves its results. -/
structure Places where
  /-- `SCRIPT_DIR`. -/
  scriptDir : Path
  /-- `output_dir.resolve()`. -/
  outputDir : Path
  normal : outputDir.Normal

/-- `Path.resolve` of an absolute path. -/
def real (p : Path) : Path := p.foldl Path.enter []

/-- `PERF_TARGET_DIR`. -/
def perfTargetDir (places : Places) : Path :=
  places.scriptDir ++ ["unsafe_perf_source".toList, "target".toList, "release".toList]

/-- `PERF_RLIB`. -/
def perfRlib (places : Places) : Path := perfTargetDir places ++ ["libunsafe_perf.rlib".toList]

/-- `PERF_DEPS`. -/
def perfDeps (places : Places) : Path := perfTargetDir places ++ ["deps".toList]

/-- `crate_dir.resolve()`, for the directory of a crate in `BENCHMARK_DIR`. -/
def absCrateDir (places : Places) (dir : Text) : Path :=
  real (places.scriptDir ++ ["benchmarks".toList, dir])

/-- The flags that link the library. -/
def linkFlags (rlib deps : Path) : List Text :=
  ["--emit=llvm-ir,link".toList, "-Z".toList, "unstable-options".toList, "--extern".toList,
    "force:unsafe_perf=".toList ++ rlib.toText, "-L".toList, deps.toText]

/-- The flags that link the library into a crate with a custom configuration. -/
def libraryFlags (places : Places) (custom : Option CrateConfig) : List Text :=
  if custom.any CrateConfig.useAbsoluteRustflags || custom.any (fun c ↦ c.cwd.isSome) then
    -- absolute paths for workspace members
    linkFlags (real (perfRlib places)) (real (perfDeps places))
  else linkFlags (perfRlib places) (perfDeps places)

/-- `rustflags`. -/
def rustflags (places : Places) (exp : Experiment) (custom : Option CrateConfig) : List Text :=
  libraryFlags places custom ++ exp.config.flags

/-- `exec_cwd`, resolved. -/
def execCwd (places : Places) (dir : Text) (custom : Option CrateConfig) : Path :=
  match custom.bind CrateConfig.cwd with
  | some cwd => (absCrateDir places dir).resolve cwd
  | none => absCrateDir places dir

/-- The environment before the custom configuration is looked at. -/
def experimentEnv (places : Places) (exp : Experiment) (custom : Option CrateConfig)
    (ambient : Env) : Env :=
  let env := ambient.set "RUSTC_BOOTSTRAP".toList "1".toList
  let env := env.set "RUSTUP_TOOLCHAIN".toList "stage1".toList
  let env := env.del "RUSTC".toList
  let env :=
    if exp ≠ .native then env.set "RUSTFLAGS".toList (joinFlags (rustflags places exp custom))
    else env
  let env := env.set "UNSAFE_BENCH_OUTPUT_DIR".toList places.outputDir.toText
  env.set "CARGO_PRIMARY_PACKAGE".toList "1".toList

/-- `env`. -/
def launchEnv (places : Places) (dir : Text) (exp : Experiment) (custom : Option CrateConfig)
    (ambient : Env) : Env :=
  let env := experimentEnv places exp custom ambient
  let env :=
    if (custom.bind CrateConfig.cwd).isSome then
      env.set "UNSAFE_BENCH_OUTPUT_DIR".toList
        (places.outputDir.relpath (execCwd places dir custom))
    else env
  env.update ((custom.bind CrateConfig.env).getD [])

/-- The value that the custom configuration gives a variable. -/
def extraEnv (custom : Option CrateConfig) (name : Text) : Option Text :=
  ((custom.bind CrateConfig.env).getD []).reverse.lookup name

/-- A call of `run_cmd`. -/
structure Launch where
  cmd : Text
  cwd : Path
  env : Env
  timeout : ℕ

/-- The calls of `run_cmd` that `run_crate` makes if all of them succeed. -/
def launches (configs : List (Text × CrateConfig)) (entries : List (CrateName × Bool))
    (places : Places) (exp : Experiment) (crateName : CrateName) (ambient : Env) : List Launch :=
  match crateDir entries crateName with
  | none => []
  | some dir =>
    let custom := customConfig configs crateName
    if custom.any CrateConfig.skip then []
    else
      (commands custom).map fun cmd ↦
        { cmd := cmd
          cwd := execCwd places dir custom
          env := launchEnv places dir exp custom ambient
          timeout := (custom.bind CrateConfig.timeout).getD 600 }

/-- The loop over the commands: what has been launched, and `success`. `result` says how a command
ends, given all launches up to its own. -/
def runLaunches (result : List Launch → CmdResult) : List Launch → List Launch → List Launch × Bool
  | [], done => (done, true)
  | launch :: todo, done =>
    if result (done ++ [launch]) = .success then runLaunches result todo (done ++ [launch])
    else (done ++ [launch], false)

/-- The calls of `run_cmd` that `run_crate` makes, and `success`. -/
def launched (configs : List (Text × CrateConfig)) (entries : List (CrateName × Bool))
    (places : Places) (exp : Experiment) (crateName : CrateName) (result : List Launch → CmdResult)
    (ambient : Env) : List Launch × Bool :=
  runLaunches result (launches configs entries places exp crateName ambient) []

/-! ## The loop over the commands -/

section Loop

variable {result : List Launch → CmdResult} {todo done : List Launch}

theorem runLaunches_isPrefix (result : List Launch → CmdResult) (todo done : List Launch) :
    (runLaunches result todo done).1 <+: done ++ todo := by
  induction todo generalizing done with
  | nil => simp [runLaunches]
  | cons launch todo ih =>
    rw [runLaunches]
    split
    · simpa using ih (done ++ [launch])
    · simp

theorem isPrefix_runLaunches (result : List Launch → CmdResult) (todo done : List Launch) :
    done <+: (runLaunches result todo done).1 := by
  induction todo generalizing done with
  | nil => exact List.prefix_rfl
  | cons launch todo ih =>
    rw [runLaunches]
    split
    · exact (List.prefix_append _ _).trans (ih (done ++ [launch]))
    · exact List.prefix_append _ _

theorem runLaunches_of_success (h : (runLaunches result todo done).2 = true) :
    (runLaunches result todo done).1 = done ++ todo := by
  induction todo generalizing done with
  | nil => simp [runLaunches]
  | cons launch todo ih =>
    rw [runLaunches] at h ⊢
    split at h
    next hsuccess =>
      rw [if_pos hsuccess, ih h]
      simp
    next => exact absurd h Bool.false_ne_true

theorem runLaunches_of_failure (h : (runLaunches result todo done).2 = false) :
    result (runLaunches result todo done).1 ≠ .success := by
  induction todo generalizing done with
  | nil => exact absurd h.symm Bool.false_ne_true
  | cons launch todo ih =>
    rw [runLaunches] at h ⊢
    split at h
    next hsuccess =>
      rw [if_pos hsuccess]
      exact ih h
    next hfail =>
      rw [if_neg hfail]
      exact hfail

/-- What a command does in `runCmds` decides how its launch ends: the loops agree on `success`. -/
theorem runCmds_success {ρ : Type} (dir : Path) (file : Text) (run : ℕ → CmdRun ρ)
    (todo done : List Launch) (s : Session ρ) :
    (runCmds dir file (todo.map Launch.cmd) (fun i ↦ run (done.length + i)) s).2 =
      (runLaunches (fun launches ↦ (run (launches.length - 1)).result) todo done).2 := by
  induction todo generalizing done s with
  | nil => rfl
  | cons launch todo ih =>
    rw [List.map_cons, runCmds, runLaunches]
    simp only [runCmd, List.length_append, List.length_singleton, Nat.add_zero,
      Nat.add_sub_cancel]
    have hrest := ih (done ++ [launch])
    simp only [List.length_append, List.length_singleton] at hrest
    -- the next command is one further in both loops
    have hshift : (fun i ↦ run (done.length + (i + 1))) = fun i ↦ run (done.length + 1 + i) := by
      funext i
      congr 1
      omega
    by_cases hresult : (run done.length).result = .success
    · simp only [hresult, decide_true, if_true, hshift, hrest]
    · simp only [hresult, decide_false, if_false, Bool.false_eq_true]

end Loop

/-! ## The launches of a crate -/

section Crate

variable {configs : List (Text × CrateConfig)} {entries : List (CrateName × Bool)} {places : Places}
  {exp : Experiment} {crateName dir : CrateName} {custom : Option CrateConfig}
  {result : List Launch → CmdResult} {ambient ambient' : Env}

theorem launches_of_crateDir (hdir : crateDir entries crateName = some dir)
    (hskip : ¬(customConfig configs crateName).any CrateConfig.skip) :
    launches configs entries places exp crateName ambient =
      (commands (customConfig configs crateName)).map fun cmd ↦
        { cmd := cmd
          cwd := execCwd places dir (customConfig configs crateName)
          env := launchEnv places dir exp (customConfig configs crateName) ambient
          timeout := ((customConfig configs crateName).bind CrateConfig.timeout).getD 600 } := by
  rw [launches, hdir]
  exact if_neg hskip

theorem map_cmd_launches (hdir : crateDir entries crateName = some dir)
    (hskip : ¬(customConfig configs crateName).any CrateConfig.skip) :
    (launches configs entries places exp crateName ambient).map Launch.cmd =
      commands (customConfig configs crateName) := by
  rw [launches_of_crateDir hdir hskip, List.map_map]
  exact List.map_id _

theorem launches_of_skip (hskip : (customConfig configs crateName).any CrateConfig.skip) :
    launches configs entries places exp crateName ambient = [] := by
  rw [launches]
  split
  · rfl
  · exact if_pos hskip

theorem launches_eq_nil_iff : launches configs entries places exp crateName ambient = [] ↔
    crateDir entries crateName = none ∨ (customConfig configs crateName).any CrateConfig.skip ∨
      commands (customConfig configs crateName) = [] := by
  cases hdir : crateDir entries crateName with
  | none => simp [launches, hdir]
  | some dir =>
    by_cases hskip : (customConfig configs crateName).any CrateConfig.skip
    · simp [launches_of_skip hskip, hskip]
    · rw [launches_of_crateDir hdir hskip, List.map_eq_nil_iff]
      simp [hskip]

theorem launched_eq_nil_iff : (launched configs entries places exp crateName result ambient).1 = [] ↔
    launches configs entries places exp crateName ambient = [] := by
  rw [launched]
  cases launches configs entries places exp crateName ambient with
  | nil => simp [runLaunches]
  | cons launch todo =>
    have hfirst := isPrefix_runLaunches result todo [launch]
    rw [runLaunches]
    split
    · simpa using List.ne_nil_of_mem (hfirst.mem (List.mem_singleton_self launch))
    · simp

/-- The results of a crate are collected just if all its launches succeed. -/
theorem launched_success {ρ : Type} (dir' : Path) (file : Text) (run : ℕ → CmdRun ρ)
    (s : Session ρ) (hdir : crateDir entries crateName = some dir)
    (hskip : ¬(customConfig configs crateName).any CrateConfig.skip) :
    (launched configs entries places exp crateName
        (fun launches ↦ (run (launches.length - 1)).result) ambient).2 =
      (runCmds dir' file (commands (customConfig configs crateName)) run s).2 := by
  have hloops := runCmds_success dir' file run
    (launches configs entries places exp crateName ambient) [] s
  simp only [map_cmd_launches hdir hskip, List.length_nil, Nat.zero_add] at hloops
  exact hloops.symm

/-- All commands of a crate start in one directory, with one environment and one timeout. -/
theorem eq_of_mem_launched {launch : Launch} (hdir : crateDir entries crateName = some dir)
    (hlaunch : launch ∈ (launched configs entries places exp crateName result ambient).1) :
    launch.cwd = execCwd places dir (customConfig configs crateName) ∧
      launch.env = launchEnv places dir exp (customConfig configs crateName) ambient ∧
      launch.timeout = ((customConfig configs crateName).bind CrateConfig.timeout).getD 600 := by
  have hmem : launch ∈ launches configs entries places exp crateName ambient := by
    simpa using (runLaunches_isPrefix result _ []).mem hlaunch
  by_cases hskip : (customConfig configs crateName).any CrateConfig.skip
  · rw [launches_of_skip hskip] at hmem
    exact absurd hmem List.not_mem_nil
  · rw [launches_of_crateDir hdir hskip] at hmem
    obtain ⟨cmd, -, rfl⟩ := List.mem_map.mp hmem
    exact ⟨rfl, rfl, rfl⟩

/-! ## The environment of a launch -/

theorem launchEnv_rustflags (hexp : exp ≠ .native) :
    launchEnv places dir exp custom ambient "RUSTFLAGS".toList =
      (extraEnv custom "RUSTFLAGS".toList).or
        (some (joinFlags (libraryFlags places custom ++ exp.config.flags))) := by
  rw [launchEnv, Env.update_apply, extraEnv]
  congr 1
  split <;> simp (disch := decide) [experimentEnv, hexp, rustflags]

theorem launchEnv_rustflags_native :
    launchEnv places dir .native custom ambient "RUSTFLAGS".toList =
      (extraEnv custom "RUSTFLAGS".toList).or (ambient "RUSTFLAGS".toList) := by
  rw [launchEnv, Env.update_apply, extraEnv]
  congr 1
  split <;> simp (disch := decide) [experimentEnv]

/-- The variables that the presets export or that `run_crate` manages. -/
def managed : List Text :=
  ["RUSTFLAGS".toList, "RUSTC".toList, "RUSTUP_TOOLCHAIN".toList, "RUSTC_BOOTSTRAP".toList,
    "UNSAFE_BENCH_OUTPUT_DIR".toList]

/-- Only `RUSTFLAGS` can be left of a difference, and only in the native experiment. -/
theorem launchEnv_agree (h : Env.AgreeBut managed ambient ambient') :
    Env.AgreeBut (if exp = .native then ["RUSTFLAGS".toList] else [])
      (launchEnv places dir exp custom ambient) (launchEnv places dir exp custom ambient') := by
  -- every assignment takes its variable off the list of differences
  have hrustc := ((h.set "RUSTC_BOOTSTRAP".toList "1".toList).set "RUSTUP_TOOLCHAIN".toList
    "stage1".toList).del "RUSTC".toList
  have hexperiment : Env.AgreeBut (if exp = .native then ["RUSTFLAGS".toList] else [])
      (experimentEnv places exp custom ambient) (experimentEnv places exp custom ambient') := by
    rw [experimentEnv, experimentEnv]
    by_cases hexp : exp = .native
    · rw [if_neg (not_not.mpr hexp), if_neg (not_not.mpr hexp), if_pos hexp]
      exact ((hrustc.set "UNSAFE_BENCH_OUTPUT_DIR".toList _).set "CARGO_PRIMARY_PACKAGE".toList
        _).mono (by decide)
    · rw [if_pos hexp, if_pos hexp, if_neg hexp]
      exact (((hrustc.set "RUSTFLAGS".toList _).set "UNSAFE_BENCH_OUTPUT_DIR".toList _).set
        "CARGO_PRIMARY_PACKAGE".toList _).mono (by decide)
  rw [launchEnv, launchEnv]
  refine Env.AgreeBut.update ?_ _
  by_cases hcwd : (custom.bind CrateConfig.cwd).isSome
  · rw [if_pos hcwd, if_pos hcwd]
    exact (hexperiment.set _ _).mono fun n hn ↦ List.mem_of_mem_erase hn
  · rw [if_neg hcwd, if_neg hcwd]
    exact hexperiment

theorem launchEnv_eq_iff (h : Env.AgreeBut managed ambient ambient') :
    launchEnv places dir exp custom ambient = launchEnv places dir exp custom ambient' ↔
      exp ≠ .native ∨ ambient "RUSTFLAGS".toList = ambient' "RUSTFLAGS".toList ∨
        extraEnv custom "RUSTFLAGS".toList ≠ none := by
  have hagree : Env.AgreeBut (if exp = .native then ["RUSTFLAGS".toList] else [])
      (launchEnv places dir exp custom ambient) (launchEnv places dir exp custom ambient') :=
    launchEnv_agree h
  by_cases hexp : exp = .native
  · subst hexp
    rw [if_pos rfl] at hagree
    -- the one variable that is left decides
    have heq : launchEnv places dir .native custom ambient =
        launchEnv places dir .native custom ambient' ↔
        launchEnv places dir .native custom ambient "RUSTFLAGS".toList =
          launchEnv places dir .native custom ambient' "RUSTFLAGS".toList := by
      refine ⟨fun heq ↦ congrFun heq _, fun heq ↦ funext fun name ↦ ?_⟩
      by_cases hname : name = "RUSTFLAGS".toList
      · exact hname ▸ heq
      · exact hagree name (by simpa using hname)
    rw [heq, launchEnv_rustflags_native, launchEnv_rustflags_native]
    cases extraEnv custom "RUSTFLAGS".toList <;> simp
  · rw [if_neg hexp] at hagree
    exact ⟨fun _ ↦ .inl hexp, fun _ ↦ funext fun name ↦ hagree name List.not_mem_nil⟩

end Crate

/-! ## What takes effect -/

/-- A text contains the flags of the library, of the experiment and of the custom configuration. -/
def HasAllFlags (places : Places) (exp : Experiment) (config : CrateConfig) (text : Text) : Prop :=
  HasFlags text (libraryFlags places (some config)) ∧ HasFlags text exp.config.flags ∧
    HasFlags text (config.flags.getD [])

/-- Every field of a custom configuration takes effect in what has been launched, in the directory
`dir` of `BENCHMARK_DIR`. -/
structure TakesEffect (places : Places) (dir : Text) (exp : Experiment) (config : CrateConfig)
    (result : List Launch → CmdResult) (ran : List Launch × Bool) : Prop where
  skip : config.skip = true → ran.1 = []
  cmds : config.skip = false → ran.1.map Launch.cmd <+: config.cmds.getD defaultCmds
  all_cmds : config.skip = false → ran.2 = true →
    ran.1.map Launch.cmd = config.cmds.getD defaultCmds
  failed : ran.2 = false → result ran.1 ≠ .success
  cwd : ∀ launch ∈ ran.1, launch.cwd = match config.cwd with
    | some cwd => (absCrateDir places dir).resolve cwd
    | none => absCrateDir places dir
  timeout : ∀ launch ∈ ran.1, launch.timeout = config.timeout.getD 600
  env : ∀ launch ∈ ran.1, ∀ name value, extraEnv (some config) name = some value →
    launch.env name = some value
  flags : ∀ launch ∈ ran.1, ∃ text, launch.env "RUSTFLAGS".toList = some text ∧
    HasAllFlags places exp config text

section Effect

variable {configs : List (Text × CrateConfig)} {entries : List (CrateName × Bool)} {places : Places}
  {exp : Experiment} {crateName dir : CrateName} {config : CrateConfig}
  {result : List Launch → CmdResult} {ambient : Env}

/-- The text that `run_crate` makes contains all flags but those of the custom configuration. -/
theorem hasAllFlags_joinFlags_iff :
    HasAllFlags places exp config
        (joinFlags (libraryFlags places (some config) ++ exp.config.flags)) ↔
      (config.flags.getD []).flatMap words <:+:
        (libraryFlags places (some config) ++ exp.config.flags).flatMap words := by
  have hne : libraryFlags places (some config) ++ exp.config.flags ≠ [] := by
    rw [libraryFlags]
    split <;> simp [linkFlags]
  rw [HasAllFlags, HasFlags, HasFlags, HasFlags, words_joinFlags hne, List.flatMap_append]
  exact ⟨fun h ↦ h.2.2, fun h ↦ ⟨List.infix_append' [] _ _, List.suffix_append _ _ |>.isInfix, h⟩⟩

/-- All fields but `flags` take effect. -/
theorem takesEffect_iff (hdir : crateDir entries crateName = some dir)
    (hconfig : customConfig configs crateName = some config) :
    TakesEffect places dir exp config result
        (launched configs entries places exp crateName result ambient) ↔
      ∀ launch ∈ (launched configs entries places exp crateName result ambient).1,
        ∃ text, launch.env "RUSTFLAGS".toList = some text ∧
          HasAllFlags places exp config text := by
  refine ⟨TakesEffect.flags, fun hflags ↦ ?_⟩
  have hall : config.skip = false →
      (launches configs entries places exp crateName ambient).map Launch.cmd =
        config.cmds.getD defaultCmds := by
    intro hskip
    have hskip' : ¬(customConfig configs crateName).any CrateConfig.skip := by simp [hconfig, hskip]
    rw [map_cmd_launches hdir hskip', hconfig]
    rfl
  -- every command that is started gets the same directory, environment and timeout
  have hlaunch : ∀ launch ∈ (launched configs entries places exp crateName result ambient).1,
      launch.cwd = execCwd places dir (some config) ∧
        launch.env = launchEnv places dir exp (some config) ambient ∧
        launch.timeout = config.timeout.getD 600 :=
    fun launch hmem ↦ by simpa only [hconfig, Option.bind_some] using eq_of_mem_launched hdir hmem
  constructor
  · intro hskip
    exact launched_eq_nil_iff.mpr (launches_of_skip (by simp [hconfig, hskip]))
  · intro hskip
    rw [← hall hskip]
    exact (runLaunches_isPrefix result _ []).map _
  · intro hskip hsuccess
    rw [← hall hskip]
    exact congrArg (List.map Launch.cmd) (runLaunches_of_success hsuccess)
  · exact runLaunches_of_failure
  · intro launch hmem
    rw [(hlaunch launch hmem).1]
    rfl
  · intro launch hmem
    exact (hlaunch launch hmem).2.2
  · intro launch hmem name value hvalue
    rw [(hlaunch launch hmem).2.1, launchEnv, Env.update_apply]
    rw [extraEnv] at hvalue
    rw [hvalue, Option.some_or]
  · exact hflags

end Effect

/-- Every field of the custom configuration takes effect just if its flags are among those of the
library and the experiment anyway, or the value that it gives `RUSTFLAGS` contains all of them, or
nothing is launched. -/
theorem configuration_takes_effect_iff (configs : List (Text × CrateConfig))
    (entries : List (CrateName × Bool)) (places : Places) (exp : Experiment) (crateName : CrateName)
    (result : List Launch → CmdResult) (ambient : Env) (dir : CrateName) (config : CrateConfig)
    (hexp : exp ≠ .native) (hdir : crateDir entries crateName = some dir)
    (hconfig : customConfig configs crateName = some config) :
    TakesEffect places dir exp config result
        (launched configs entries places exp crateName result ambient) ↔
      config.skip = true ∨ config.cmds = some [] ∨
        match extraEnv (some config) "RUSTFLAGS".toList with
        | none => (config.flags.getD []).flatMap words <:+:
          (libraryFlags places (some config) ++ exp.config.flags).flatMap words
        | some text => HasAllFlags places exp config text := by
  rw [takesEffect_iff hdir hconfig]
  have henv : ∀ launch ∈ (launched configs entries places exp crateName result ambient).1,
      launch.env "RUSTFLAGS".toList = (extraEnv (some config) "RUSTFLAGS".toList).or
        (some (joinFlags (libraryFlags places (some config) ++ exp.config.flags))) := by
    intro launch hmem
    rw [(eq_of_mem_launched hdir hmem).2.1, hconfig, launchEnv_rustflags hexp]
  have hnil : (launched configs entries places exp crateName result ambient).1 = [] ↔
      config.skip = true ∨ config.cmds = some [] := by
    rw [launched_eq_nil_iff, launches_eq_nil_iff, hdir, hconfig]
    have hcmds : commands (some config) = [] ↔ config.cmds = some [] := by
      cases h : config.cmds <;> simp [commands, h, defaultCmds]
    simp [hcmds]
  rw [← or_assoc, ← hnil]
  by_cases hempty : (launched configs entries places exp crateName result ambient).1 = []
  · simp [hempty]
  · obtain ⟨launch, hlaunch⟩ := List.exists_mem_of_ne_nil _ hempty
    -- one environment for all launches
    have hone : (∀ launch ∈ (launched configs entries places exp crateName result ambient).1,
        ∃ text, launch.env "RUSTFLAGS".toList = some text ∧
          HasAllFlags places exp config text) ↔
        HasAllFlags places exp config ((extraEnv (some config) "RUSTFLAGS".toList).getD
          (joinFlags (libraryFlags places (some config) ++ exp.config.flags))) := by
      constructor
      · intro h
        obtain ⟨text, htext, hflags⟩ := h launch hlaunch
        rw [henv launch hlaunch, Option.or_some, Option.some.injEq] at htext
        exact htext ▸ hflags
      · intro h launch hmem
        exact ⟨_, (henv launch hmem).trans Option.or_some, h⟩
    rw [hone, or_iff_right hempty]
    cases extraEnv (some config) "RUSTFLAGS".toList with
    | none => exact hasAllFlags_joinFlags_iff
    | some text => rfl

/-- The configuration of `ring` gives `CC` and no flags. -/
theorem configuration_takes_effect_iff_ring :
    let ring : CrateName := ⟨"ring".toList, by decide⟩
    let entries := [(ring, true)]
    let places : Places :=
      { scriptDir := ["workspace".toList], outputDir := ["results".toList], normal := by decide }
    ∃ config : CrateConfig, customConfig (crateConfigs []) ring = some config ∧
      config.env = some [("CC".toList, "clang".toList)] ∧
      TakesEffect places ring .coverage config (fun _ ↦ .success)
        (launched (crateConfigs []) entries places .coverage ring (fun _ ↦ .success)
          fun _ ↦ none) := by
  intro ring entries places
  refine ⟨_, rfl, rfl, ?_⟩
  refine (configuration_takes_effect_iff (crateConfigs []) entries places .coverage ring
    (fun _ ↦ .success) (fun _ ↦ none) ring _ (by decide) rfl rfl).mpr ?_
  exact .inr (.inr List.nil_infix)

/-- The flags of `memchr` are declared and not merged: it is built with the target features that they
turn off. -/
theorem configuration_not_in_effect :
    let memchr : CrateName := ⟨"memchr".toList, by decide⟩
    let entries := [(memchr, true)]
    let places : Places :=
      { scriptDir := ["workspace".toList], outputDir := ["results".toList], normal := by decide }
    ∃ config : CrateConfig, customConfig (crateConfigs []) memchr = some config ∧
      config.flags = some ["-C".toList, "target-feature=-sse2,-avx2".toList] ∧
      ¬TakesEffect places memchr .coverage config (fun _ ↦ .success)
        (launched (crateConfigs []) entries places .coverage memchr (fun _ ↦ .success)
          fun _ ↦ none) := by
  intro memchr entries places
  refine ⟨_, rfl, rfl, fun heffect ↦ ?_⟩
  obtain ⟨text, htext, -, -, hflags⟩ := heffect.flags _ List.mem_cons_self
  rw [← Option.some.inj htext] at hflags
  revert hflags
  decide

/-- The launches of a crate do not depend on what the program was started with just if the experiment
is instrumented, `RUSTFLAGS` is the same or given by the custom configuration, or nothing is
launched. -/
theorem launches_independent_iff (configs : List (Text × CrateConfig))
    (entries : List (CrateName × Bool)) (places : Places) (exp : Experiment) (crateName : CrateName)
    (result : List Launch → CmdResult) (ambient ambient' : Env)
    (hagree : Env.AgreeBut managed ambient ambient') :
    (launched configs entries places exp crateName result ambient).1 =
        (launched configs entries places exp crateName result ambient').1 ↔
      (crateDir entries crateName = none ∨ (customConfig configs crateName).any CrateConfig.skip ∨
        commands (customConfig configs crateName) = []) ∨
      exp ≠ .native ∨ ambient "RUSTFLAGS".toList = ambient' "RUSTFLAGS".toList ∨
        extraEnv (customConfig configs crateName) "RUSTFLAGS".toList ≠ none := by
  have hnil : ∀ env, (launched configs entries places exp crateName result env).1 = [] ↔
      crateDir entries crateName = none ∨ (customConfig configs crateName).any CrateConfig.skip ∨
        commands (customConfig configs crateName) = [] :=
    fun env ↦ launched_eq_nil_iff.trans launches_eq_nil_iff
  rw [← hnil ambient]
  constructor
  · intro heq
    by_cases hempty : (launched configs entries places exp crateName result ambient).1 = []
    · exact .inl hempty
    · obtain ⟨launch, hlaunch⟩ := List.exists_mem_of_ne_nil _ hempty
      cases hdir : crateDir entries crateName with
      | none => exact .inl ((hnil ambient).mpr (.inl hdir))
      | some dir =>
        have henv := (eq_of_mem_launched hdir hlaunch).2.1
        have henv' := (eq_of_mem_launched hdir (heq ▸ hlaunch)).2.1
        exact .inr ((launchEnv_eq_iff hagree).mp (henv.symm.trans henv'))
  · rintro (hempty | hsame)
    · rw [hempty, (hnil ambient').mpr ((hnil ambient).mp hempty)]
    · have henv : ∀ dir : CrateName,
          launchEnv places dir exp (customConfig configs crateName) ambient =
          launchEnv places dir exp (customConfig configs crateName) ambient' :=
        fun dir ↦ (launchEnv_eq_iff hagree).mpr hsame
      simp only [launched, launches, henv]

/-- The exports of the preset `cpu.sh`. -/
def cpuPreset : List (Text × Text) :=
  [("PERF_LIB".toList,
      "/workspace/unsafe_perf_prebuilt/cpu_cycle_counter/libunsafe_perf.rlib".toList),
    ("PERF_DEPS".toList, "/workspace/unsafe_perf_prebuilt/cpu_cycle_counter/deps".toList),
    ("RUSTC_BOOTSTRAP".toList, "1".toList),
    ("RUSTUP_TOOLCHAIN".toList, "stage1".toList),
    ("RUSTFLAGS".toList, joinFlags
      (linkFlags
        ["workspace".toList, "unsafe_perf_prebuilt".toList, "cpu_cycle_counter".toList,
          "libunsafe_perf.rlib".toList]
        ["workspace".toList, "unsafe_perf_prebuilt".toList, "cpu_cycle_counter".toList,
          "deps".toList] ++ Experiment.cpuCycle.config.flags)),
    ("UNSAFE_BENCH_OUTPUT_DIR".toList, "/tmp".toList)]

/-- After the preset has been sourced, the instrumented launches are the same as without its
`RUSTFLAGS`. -/
theorem launches_independent_iff_coverage :
    let alpha : CrateName := ⟨"alpha".toList, by decide⟩
    let entries := [(alpha, true)]
    let places : Places :=
      { scriptDir := ["workspace".toList], outputDir := ["results".toList], normal := by decide }
    let ambient := Env.update (fun _ ↦ none) cpuPreset
    let run := launched (crateConfigs []) entries places .coverage alpha fun _ ↦ .success
    (run ambient).1.map Launch.cmd = defaultCmds ∧
      (run ambient).1 = (run (ambient.del "RUSTFLAGS".toList)).1 := by
  intro alpha entries places ambient run
  refine ⟨by decide, ?_⟩
  exact (launches_independent_iff (crateConfigs []) entries places .coverage alpha
    (fun _ ↦ .success) ambient _ (.del_right (by decide) _)).mpr (.inr (.inl (by decide)))

/-- After the preset has been sourced, the native baseline is built with its flags. -/
theorem launches_dependent :
    let alpha : CrateName := ⟨"alpha".toList, by decide⟩
    let entries := [(alpha, true)]
    let places : Places :=
      { scriptDir := ["workspace".toList], outputDir := ["results".toList], normal := by decide }
    let ambient := Env.update (fun _ ↦ none) cpuPreset
    let run := launched (crateConfigs []) entries places .native alpha fun _ ↦ .success
    Env.AgreeBut managed ambient (ambient.del "RUSTFLAGS".toList) ∧
      (∀ launch ∈ (run ambient).1, (launch.env "RUSTFLAGS".toList).any fun text ↦
        HasFlags text Experiment.cpuCycle.config.flags) ∧
      (run ambient).1 ≠ (run (ambient.del "RUSTFLAGS".toList)).1 := by
  intro alpha entries places ambient run
  refine ⟨.del_right (by decide) _, by decide, fun heq ↦ ?_⟩
  have hflags := congrArg (List.map fun launch ↦ (launch.env "RUSTFLAGS".toList).isSome) heq
  revert hflags
  decide

end UnsafePerf.Pipeline
