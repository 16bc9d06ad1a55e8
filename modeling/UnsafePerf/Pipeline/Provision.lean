import UnsafePerf.Files.CopyTree
import UnsafePerf.Pipeline.Launch

/-!
# The library of an experiment

`main` runs one experiment after another. Before the crates of an experiment, `build_perf` puts the
instrumentation library of its feature into the target directory that `RUSTFLAGS` points to: a copy
of the prebuilt one, or where there is none, what `cargo build` leaves there. Features never mix:
whatever came before, a command of a crate finds the library of its own experiment,
`crates_find_own_library`.

What a command does to the file tree and how it ends is given from outside, and so is the order in
which the benchmark directory is listed. Whether a command has changed the prebuilt libraries, or a
command of a crate the target directory, is read off the run.

`World.invocations` is history.
-/

open Files

namespace UnsafePerf.Pipeline

/-! ## Places -/

/-- `PERF_DIR`. -/
def perfDir (places : Places) : Path := places.scriptDir ++ ["unsafe_perf_source".toList]

/-- `RUNTIME_DIR`. -/
def runtimeDir (places : Places) : Path := places.scriptDir ++ ["unsafe_perf_prebuilt".toList]

/-- `prebuilt_rlib`. -/
def prebuiltRlib (places : Places) (feature : Text) : Path :=
  runtimeDir places ++ [feature, "libunsafe_perf.rlib".toList]

/-- `prebuilt_deps`. -/
def prebuiltDeps (places : Places) (feature : Text) : Path :=
  runtimeDir places ++ [feature, "deps".toList]

theorem real_append {q : Path} (hq : q.Normal) (p : Path) : real (p ++ q) = real p ++ q := by
  rw [real, List.foldl_append, Path.foldl_enter_of_normal hq]
  rfl

theorem real_perfRlib (places : Places) :
    real (perfRlib places) = real (perfTargetDir places) ++ ["libunsafe_perf.rlib".toList] :=
  real_append (by decide) _

theorem real_perfDeps (places : Places) :
    real (perfDeps places) = real (perfTargetDir places) ++ ["deps".toList] :=
  real_append (by decide) _

theorem normal_feature (exp : Experiment) (hexp : exp.config.feature ≠ []) :
    Path.Normal [exp.config.feature] := by
  revert hexp
  rcases exp <;> decide

theorem real_prebuilt (places : Places) (exp : Experiment) (hexp : exp.config.feature ≠ [])
    {name : Text} (hname : Path.IsName name) :
    real (runtimeDir places ++ [exp.config.feature, name]) =
      real (runtimeDir places) ++ [exp.config.feature, name] := by
  refine real_append ?_ _
  intro name' hmem
  rcases List.mem_cons.mp hmem with rfl | hmem
  · exact normal_feature exp hexp _ (List.mem_singleton_self _)
  · exact (List.mem_singleton.mp hmem) ▸ hname

/-- The prebuilt libraries do not stand in the target directory, nor it among them. -/
theorem target_apart_runtime (places : Places) :
    Path.Apart (real (perfTargetDir places)) (real (runtimeDir places)) := by
  rw [perfTargetDir, runtimeDir, real_append (by decide), real_append (by decide)]
  exact Path.Apart.of_names (by decide) (real places.scriptDir) _ []

/-! ## Statements in sequence -/

/-- How a statement ends. -/
inductive Flow where
  | next
  /-- The loop is left. -/
  | stop
  /-- The program ends, with an exception or `sys.exit`. -/
  | exit
  deriving DecidableEq

/-- Do something for every item. -/
def runAll {α σ : Type} (f : α → σ → σ × Flow) : List α → σ → σ × Flow
  | [], s => (s, .next)
  | a :: l, s =>
    let r := f a s
    if r.2 = .next then runAll f l r.1 else r

section RunAll

variable {α σ : Type} {f : α → σ → σ × Flow} {a : α} {l : List α} {s : σ}

theorem runAll_cons_of_next (h : (runAll f (a :: l) s).2 = .next) :
    (f a s).2 = .next ∧ runAll f (a :: l) s = runAll f l (f a s).1 := by
  rw [runAll] at h ⊢
  by_cases hstep : (f a s).2 = .next
  · exact ⟨hstep, if_pos hstep⟩
  · rw [if_neg hstep] at h
    exact absurd h hstep

/-- What every item keeps is kept. -/
theorem runAll_keeps {P : σ → Prop} (hstep : ∀ a ∈ l, ∀ s, P s → P (f a s).1) (h : P s) :
    P (runAll f l s).1 := by
  induction l generalizing s with
  | nil => exact h
  | cons a l ih =>
    rw [runAll]
    have hfirst : P (f a s).1 := hstep a List.mem_cons_self s h
    split
    · exact ih (fun a' hmem ↦ hstep a' (List.mem_cons_of_mem _ hmem)) hfirst
    · exact hfirst

end RunAll

/-! ## The program -/

/-- A call of `run_cmd`: for which experiment and crate, what is launched, the file tree before and
after, and how the command ends. -/
structure Invocation (κ : Type) where
  exp : Experiment
  /-- `build_perf` calls for no crate. -/
  crateName : Option CrateName
  launch : Launch
  before : FileTree κ
  after : FileTree κ
  result : CmdResult

/-- The file tree, and what has been called so far. -/
structure World (κ : Type) where
  fs : FileTree κ
  invocations : List (Invocation κ)

/-- What commands do: given how many were called before, the command and the file tree. -/
abbrev Shell (κ : Type) := ℕ → Launch → FileTree κ → FileTree κ × CmdResult

variable {κ : Type}

namespace World

/-- What a command does where it can be launched. -/
def call (shell : Shell κ) (exp : Experiment) (crateName : Option CrateName) (launch : Launch)
    (w : World κ) : Invocation κ :=
  let r := shell w.invocations.length launch w.fs
  { exp := exp, crateName := crateName, launch := launch, before := w.fs, after := r.1,
    result := r.2 }

/-- `run_cmd`. -/
def runCmd (shell : Shell κ) (exp : Experiment) (crateName : Option CrateName) (launch : Launch)
    (w : World κ) : World κ × Flow :=
  -- a working directory that is missing is not among the exceptions that are caught
  if w.fs.IsDir launch.cwd then
    let i := call shell exp crateName launch w
    ({ fs := i.after, invocations := w.invocations ++ [i] },
      if i.result = .success then .next else .stop)
  else (w, .exit)

/-- A statement on files. -/
def attempt (op : FileTree κ → Option (FileTree κ)) (w : World κ) : World κ × Flow :=
  match op w.fs with
  | some fs => ({ w with fs := fs }, .next)
  | none => (w, .exit)

/-- The statements that stage a prebuilt library. -/
def stageOps (places : Places) (feature : Text) : List (FileTree κ → Option (FileTree κ)) :=
  [fun fs ↦
      if fs.PathExists (real (perfTargetDir places)) then fs.rmtree (real (perfTargetDir places))
      else some fs,
    fun fs ↦ fs.mkdir (real (perfTargetDir places)),
    fun fs ↦ fs.copy2 (real (prebuiltRlib places feature)) (real (perfRlib places)),
    fun fs ↦
      if fs.IsDir (real (prebuiltDeps places feature)) then
        fs.copytree (real (prebuiltDeps places feature)) (real (perfDeps places))
      else some fs]

/-- A command of `build_perf`. -/
def libraryLaunch (places : Places) (ambient : Env) (cmd : Text) : Launch :=
  -- avoid injecting instrumentation flags into this build
  { cmd := cmd, cwd := real (perfDir places), env := ambient.del "RUSTFLAGS".toList, timeout := 600 }

/-- `cargo build --release --features {feature}`. -/
def buildCmd (feature : Text) : Text := "cargo build --release --features ".toList ++ feature

/-- `build_perf`. -/
def buildPerf (shell : Shell κ) (places : Places) (ambient : Env) (exp : Experiment)
    (w : World κ) : World κ × Flow :=
  let feature := exp.config.feature
  if feature = [] then (w, .next)
  else if w.fs.PathExists (real (prebuiltRlib places feature)) then
    runAll attempt (stageOps places feature) w
  else
    let r := runCmd shell exp none (libraryLaunch places ambient "cargo clean".toList) w
    -- a failed `cargo clean` is ignored
    if r.2 = .exit then r
    else
      let r := runCmd shell exp none (libraryLaunch places ambient (buildCmd feature)) r.1
      if r.2 = .next then r else (r.1, .exit)

section Crates

variable (shell : Shell κ) (configs : List (Text × CrateConfig))
  (iterdir : FileTree κ → List (CrateName × Bool)) (places : Places) (ambient : Env)

/-- `run_crate`. -/
def runCrate (exp : Experiment) (crateName : CrateName) (w : World κ) : World κ × Flow :=
  match crateDir (iterdir w.fs) crateName with
  | none => (w, .next)
  | some _ =>
    if (customConfig configs crateName).any CrateConfig.skip then (w, .next)
    else
      let todo := launches configs (iterdir w.fs) places exp crateName ambient
      let r := runAll (runCmd shell exp (some crateName)) todo w
      match r.2 with
      | .next => attempt (fun fs ↦ collect fs places.outputDir crateName exp.outputFile) r.1
      | .stop => (r.1, .next)
      | .exit => r

/-- One round of the execution loop. -/
def runExperiment (crates : List CrateName) (exp : Experiment) (w : World κ) : World κ × Flow :=
  let r := buildPerf shell places ambient exp w
  if r.2 = .next then runAll (runCrate shell configs iterdir places ambient exp) crates r.1
  else r

end Crates

end World

/-- The arguments of the program that say what to run. A crate is named like an entry of
`BENCHMARK_DIR`, or with the empty text, which is as good as none. -/
structure Args where
  crate : Option Text
  experiment : Option Experiment
  all : Bool
  isName_crate : crate.getD [] ≠ [] → Path.IsName (crate.getD [])

/-- `experiments_to_run`. -/
def experimentsToRun (args : Args) : List Experiment :=
  if args.all then [.cpuCycle, .heapTracker, .unsafeCounter, .coverage, .native]
  else [args.experiment.getD .native]

/-- `crates_to_run`. -/
def cratesToRun (args : Args) (entries : List (CrateName × Bool)) : List CrateName :=
  if h : args.crate.getD [] ≠ [] then [⟨args.crate.getD [], args.isName_crate h⟩]
  else (entries.filter Prod.snd).map Prod.fst

/-- `main`. -/
def main (shell : Shell κ) (configs : List (Text × CrateConfig))
    (iterdir : FileTree κ → List (CrateName × Bool)) (places : Places) (ambient : Env) (args : Args)
    (fs : FileTree κ) : World κ × Flow :=
  let r := World.attempt (fun fs ↦ fs.mkdir places.outputDir) ⟨fs, []⟩
  if r.2 = .next then
    runAll
      (World.runExperiment shell configs iterdir places ambient (cratesToRun args (iterdir r.1.fs)))
      (experimentsToRun args) r.1
  else r

/-! ## What a command finds -/

/-- What the target directory contains, relative to it, when the prebuilt library of a feature has
been staged. -/
def libraryNode (places : Places) (fs : FileTree κ) (feature : Text) (q : Path) :
    Option (Node κ) :=
  if q = [] then some .dir
  else if q = ["libunsafe_perf.rlib".toList] then fs.node (real (prebuiltRlib places feature))
  else if ["deps".toList] <+: q ∧ fs.IsDir (real (prebuiltDeps places feature)) then
    fs.node (real (prebuiltDeps places feature) ++ q.tail)
  else none

/-- The target directory contains the library of an experiment: exactly the prebuilt one, or if
there is none, what a successful `cargo build` of its feature left, without the flags of
instrumentation. -/
inductive Provisioned (places : Places) (fs₀ : FileTree κ) (earlier : List (Invocation κ))
    (exp : Experiment) (fs : FileTree κ) : Prop
  | staged (hprebuilt : fs₀.IsFile (real (prebuiltRlib places exp.config.feature)))
      (node : ∀ q, fs.node (real (perfTargetDir places) ++ q)
        = libraryNode places fs₀ exp.config.feature q)
  | built (hprebuilt : ¬fs₀.PathExists (real (prebuiltRlib places exp.config.feature)))
      (i : Invocation κ) (hmem : i ∈ earlier) (hlibrary : i.crateName = none) (hexp : i.exp = exp)
      (hcmd : i.launch.cmd = World.buildCmd exp.config.feature)
      (hcwd : i.launch.cwd = real (perfDir places))
      (hflags : i.launch.env "RUSTFLAGS".toList = none) (hsuccess : i.result = .success)
      (hsame : i.after.SameBelow fs (real (perfTargetDir places)))

/-- No command changes the prebuilt libraries, and no command of a crate the target directory. -/
structure Undisturbed (places : Places) (invocations : List (Invocation κ)) : Prop where
  prebuilt : ∀ i ∈ invocations, i.before.SameBelow i.after (real (runtimeDir places))
  target : ∀ i ∈ invocations, i.crateName.isSome →
    i.before.SameBelow i.after (real (perfTargetDir places))

/-- The output file and the results of an experiment do not stand among the libraries. -/
structure Clear (places : Places) (exp : Experiment) : Prop where
  output_target : Path.Apart places.outputDir (real (perfTargetDir places))
  output_prebuilt : Path.Apart places.outputDir (real (runtimeDir places))
  tmp_target : Path.Apart (tmp.join exp.outputFile) (real (perfTargetDir places))
  tmp_prebuilt : Path.Apart (tmp.join exp.outputFile) (real (runtimeDir places))

/-- The command finds the library of its experiment at the place that its flags name. -/
structure FindsLibrary (places : Places) (configs : List (Text × CrateConfig))
    (fs₀ : FileTree κ) (earlier : List (Invocation κ)) (crateName : CrateName) (i : Invocation κ) :
    Prop where
  provisioned : Provisioned places fs₀ earlier i.exp i.before
  flags : ∃ flags, i.launch.env "RUSTFLAGS".toList = some flags ∧
    HasFlags flags (libraryFlags places (customConfig configs crateName))

/-! ## Staging -/

namespace World

section Stage

variable {places : Places} {exp : Experiment} {w : World κ} {fs₁ fs₂ : FileTree κ}
  {op : FileTree κ → Option (FileTree κ)} {ops : List (FileTree κ → Option (FileTree κ))}

theorem attempt_of_next (h : (attempt op w).2 = .next) : op w.fs = some (attempt op w).1.fs := by
  rw [attempt] at h ⊢
  split at h
  · next fs hfs => rw [hfs]
  · exact absurd h (by simp)

/-- A statement that raises an exception changes nothing. -/
theorem attempt_keeps {P : FileTree κ → Prop} (hop : ∀ fs', op w.fs = some fs' → P fs')
    (h : P w.fs) : P (attempt op w).1.fs := by
  rw [attempt]
  split
  · next fs hfs => exact hop fs hfs
  · exact h

@[simp] theorem attempt_invocations (op : FileTree κ → Option (FileTree κ)) (w : World κ) :
    (attempt op w).1.invocations = w.invocations := by
  rw [attempt]
  split <;> rfl

theorem runAll_attempt_invocations (ops : List (FileTree κ → Option (FileTree κ))) (w : World κ) :
    (runAll attempt ops w).1.invocations = w.invocations :=
  runAll_keeps (P := fun w' ↦ w'.invocations = w.invocations)
    (fun op _ w' h ↦ (attempt_invocations op w').trans h) rfl

theorem runAll_attempt_cons (h : (runAll attempt (op :: ops) w).2 = .next) :
    ∃ w', op w.fs = some w'.fs ∧ (runAll attempt ops w').2 = .next ∧
      (runAll attempt (op :: ops) w).1.fs = (runAll attempt ops w').1.fs := by
  obtain ⟨hstep, heq⟩ := runAll_cons_of_next h
  exact ⟨(attempt op w).1, attempt_of_next hstep, heq ▸ h, by rw [heq]⟩

/-- The file trees between the statements. -/
theorem stage_steps {feature : Text} (h : (runAll attempt (stageOps places feature) w).2 = .next) :
    ∃ fs₁ fs₂ fs₃,
      (if w.fs.PathExists (real (perfTargetDir places)) then
        w.fs.rmtree (real (perfTargetDir places)) else some w.fs) = some fs₁ ∧
      fs₁.mkdir (real (perfTargetDir places)) = some fs₂ ∧
      fs₂.copy2 (real (prebuiltRlib places feature)) (real (perfRlib places)) = some fs₃ ∧
      (if fs₃.IsDir (real (prebuiltDeps places feature)) then
        fs₃.copytree (real (prebuiltDeps places feature)) (real (perfDeps places))
      else some fs₃) = some (runAll attempt (stageOps places feature) w).1.fs := by
  obtain ⟨w₁, hw₁, hnext₁, heq₁⟩ := runAll_attempt_cons h
  obtain ⟨w₂, hw₂, hnext₂, heq₂⟩ := runAll_attempt_cons hnext₁
  obtain ⟨w₃, hw₃, hnext₃, heq₃⟩ := runAll_attempt_cons hnext₂
  obtain ⟨w₄, hw₄, -, heq₄⟩ := runAll_attempt_cons hnext₃
  refine ⟨w₁.fs, w₂.fs, w₃.fs, hw₁, hw₂, hw₃, hw₄.trans (congrArg some ?_)⟩
  exact (heq₁.trans (heq₂.trans (heq₃.trans heq₄))).symm

/-- The target directory is emptied. -/
theorem fresh_target {fs : FileTree κ}
    (h₁ : (if fs.PathExists (real (perfTargetDir places)) then
      fs.rmtree (real (perfTargetDir places)) else some fs) = some fs₁)
    (h₂ : fs₁.mkdir (real (perfTargetDir places)) = some fs₂) :
    fs.SameBelow fs₂ (real (runtimeDir places)) ∧
      ∀ q, fs₂.node (real (perfTargetDir places) ++ q) = if q = [] then some .dir else none := by
  have hgone : fs.SameBelow fs₁ (real (runtimeDir places)) ∧
      ¬fs₁.PathExists (real (perfTargetDir places)) := by
    split at h₁
    · exact ⟨FileTree.sameBelow_of_rmtree h₁ (target_apart_runtime places),
        FileTree.not_pathExists_of_rmtree h₁⟩
    · next hnot =>
      rw [← Option.some_inj.mp h₁]
      exact ⟨FileTree.SameBelow.refl _ _, hnot⟩
  refine ⟨hgone.1.trans (FileTree.sameBelow_of_mkdir h₂ (target_apart_runtime places).symm.1),
    fun q ↦ ?_⟩
  split
  · next hq =>
    rw [hq, List.append_nil]
    exact FileTree.isDir_of_mkdir h₂
  · next hq => exact FileTree.node_of_mkdir h₂ hgone.2 hq

/-- The library is copied into the empty target directory. -/
theorem node_rlib {fs fs₂ fs₃ : FileTree κ} (hexp : exp.config.feature ≠ [])
    (hsame : fs.SameBelow fs₂ (real (runtimeDir places)))
    (hfresh : ∀ q, fs₂.node (real (perfTargetDir places) ++ q) = if q = [] then some .dir else none)
    (h : fs₂.copy2 (real (prebuiltRlib places exp.config.feature)) (real (perfRlib places))
      = some fs₃) :
    fs.IsFile (real (prebuiltRlib places exp.config.feature)) ∧
      fs.SameBelow fs₃ (real (runtimeDir places)) ∧
      ∀ q, fs₃.node (real (perfTargetDir places) ++ q)
        = if q = ["libunsafe_perf.rlib".toList] then
            fs.node (real (prebuiltRlib places exp.config.feature))
          else if q = [] then some .dir else none := by
  have hfree : ¬fs₂.IsDir (real (perfRlib places)) := by
    rw [FileTree.IsDir, real_perfRlib, hfresh, if_neg (List.cons_ne_nil _ _)]
    simp
  obtain ⟨⟨content, hcontent⟩, hnode⟩ := FileTree.node_of_copy2 h hfree
  have hsrc : fs₂.node (real (prebuiltRlib places exp.config.feature)) =
      fs.node (real (prebuiltRlib places exp.config.feature)) := by
    rw [prebuiltRlib, real_prebuilt places exp hexp (by decide)]
    exact hsame _
  refine ⟨⟨content, hsrc ▸ hcontent⟩, fun q ↦ ?_, fun q ↦ ?_⟩
  · rw [hnode, real_perfRlib, if_neg, hsame q]
    exact fun heq ↦ (target_apart_runtime places).not_prefix_append q
      (heq ▸ List.prefix_append _ _)
  · simp only [hnode, real_perfRlib, List.append_cancel_left_eq, hfresh, hsrc]

/-- What has been staged is the prebuilt library, and nothing else. -/
theorem stage_node (hexp : exp.config.feature ≠ [])
    (h : (runAll attempt (stageOps places exp.config.feature) w).2 = .next) :
    w.fs.IsFile (real (prebuiltRlib places exp.config.feature)) ∧
      ∀ q, (runAll attempt (stageOps places exp.config.feature) w).1.fs.node
          (real (perfTargetDir places) ++ q)
        = libraryNode places w.fs exp.config.feature q := by
  obtain ⟨fs₁, fs₂, fs₃, h₁, h₂, h₃, h₄⟩ := stage_steps h
  obtain ⟨hsame₂, hfresh⟩ := fresh_target h₁ h₂
  obtain ⟨hfile, hsame₃, hnode₃⟩ := node_rlib hexp hsame₂ hfresh h₃
  have hdeps : real (prebuiltDeps places exp.config.feature) =
      real (runtimeDir places) ++ [exp.config.feature, "deps".toList] :=
    real_prebuilt places exp hexp (by decide)
  have hdir : fs₃.IsDir (real (prebuiltDeps places exp.config.feature)) ↔
      w.fs.IsDir (real (prebuiltDeps places exp.config.feature)) := by
    rw [hdeps]
    exact hsame₃.isDir_iff (List.prefix_append _ _)
  have hnames : "libunsafe_perf.rlib".toList ≠ "deps".toList := by decide
  refine ⟨hfile, fun q ↦ ?_⟩
  rw [libraryNode]
  by_cases hq : ["deps".toList] <+: q
  · -- the dependencies
    obtain ⟨r, rfl⟩ := hq
    have hne : ["deps".toList] ++ r ≠ ["libunsafe_perf.rlib".toList] := fun heq ↦
      hnames (List.cons.inj heq).1.symm
    rw [if_neg (by simp), if_neg hne]
    split at h₄
    · next hdeps₃ =>
      rw [if_pos ⟨List.prefix_append _ r, hdir.mp hdeps₃⟩, FileTree.node_of_copytree h₄,
        real_perfDeps, ← List.append_assoc, if_pos (List.prefix_append _ r), List.drop_left]
      rw [hdeps, List.append_assoc, List.append_assoc]
      exact hsame₃ _
    · next hdeps₃ =>
      rw [if_neg fun h ↦ hdeps₃ (hdir.mpr h.2), ← Option.some_inj.mp h₄, hnode₃, if_neg hne,
        if_neg (by simp)]
  · -- the library, the directory itself, and nothing else
    have hrest : (runAll attempt (stageOps places exp.config.feature) w).1.fs.node
        (real (perfTargetDir places) ++ q) = fs₃.node (real (perfTargetDir places) ++ q) := by
      split at h₄
      · simp only [FileTree.node_of_copytree h₄, real_perfDeps, List.prefix_append_right_inj, hq,
          if_false]
        split
        · next hpre =>
          have hpre' : q <+: [] ++ ["deps".toList] := hpre
          rcases List.prefix_concat_iff.mp hpre' with rfl | hnil
          · exact absurd (List.prefix_refl _) hq
          · rw [List.prefix_nil.mp hnil, hnode₃, if_neg (by simp), if_pos rfl]
        · rfl
      · rw [← Option.some_inj.mp h₄]
    rw [hrest, hnode₃]
    by_cases hnil : q = []
    · rw [if_pos hnil, if_pos hnil, if_neg]
      rw [hnil]
      simp
    · rw [if_neg hnil, if_neg hnil, if_neg fun h : ["deps".toList] <+: q ∧ _ ↦ hq h.1]

end Stage

end World

/-! ## What every step keeps -/

section Consistent

variable {configs : List (Text × CrateConfig)} {places : Places} {exp : Experiment}
  {fs₀ : FileTree κ} {w : World κ}

theorem Undisturbed.mono {l l' : List (Invocation κ)} (h : Undisturbed places l') (hl : l <+: l') :
    Undisturbed places l :=
  ⟨fun i hi ↦ h.prebuilt i (hl.mem hi), fun i hi ↦ h.target i (hl.mem hi)⟩

theorem Provisioned.mono {earlier earlier' : List (Invocation κ)} {fs fs' : FileTree κ}
    (h : Provisioned places fs₀ earlier exp fs) (hsub : earlier <+: earlier')
    (hsame : fs.SameBelow fs' (real (perfTargetDir places))) :
    Provisioned places fs₀ earlier' exp fs' := by
  rcases h with ⟨hprebuilt, hnode⟩ | ⟨hprebuilt, i, hmem, hlibrary, hexp, hcmd, hcwd, hflags,
    hsuccess, hbuilt⟩
  · exact .staged hprebuilt fun q ↦ (hsame q).trans (hnode q)
  · exact .built hprebuilt i (hsub.mem hmem) hlibrary hexp hcmd hcwd hflags hsuccess
      (hbuilt.trans hsame)

/-- Every command of a crate has found the library of its experiment. -/
def AllFind (places : Places) (configs : List (Text × CrateConfig)) (fs₀ : FileTree κ)
    (invocations : List (Invocation κ)) : Prop :=
  ∀ earlier i later crateName, invocations = earlier ++ i :: later → i.exp ≠ .native →
    i.crateName = some crateName → FindsLibrary places configs fs₀ earlier crateName i

theorem AllFind.concat {invocations : List (Invocation κ)} {i : Invocation κ}
    (h : AllFind places configs fs₀ invocations)
    (hi : i.exp ≠ .native → ∀ crateName, i.crateName = some crateName →
      FindsLibrary places configs fs₀ invocations crateName i) :
    AllFind places configs fs₀ (invocations ++ [i]) := by
  intro earlier j later crateName heq hexp hcrate
  rcases List.eq_nil_or_concat later with rfl | ⟨later, last, rfl⟩
  · obtain ⟨rfl, hlast⟩ := List.append_inj' heq rfl
    obtain rfl : i = j := by simpa using hlast
    exact hi hexp crateName hcrate
  · rw [List.concat_eq_append, ← List.cons_append, ← List.append_assoc] at heq
    obtain ⟨heq, -⟩ := List.append_inj' heq rfl
    exact h earlier j later crateName heq hexp hcrate

/-- The prebuilt libraries are those of the start, and so far every command has found the library of
its experiment. -/
structure Consistent (places : Places) (configs : List (Text × CrateConfig)) (fs₀ : FileTree κ)
    (w : World κ) : Prop where
  prebuilt : fs₀.SameBelow w.fs (real (runtimeDir places))
  found : AllFind places configs fs₀ w.invocations

/-- Between experiments. -/
def Between (places : Places) (configs : List (Text × CrateConfig)) (fs₀ : FileTree κ)
    (w : World κ) : Prop :=
  Undisturbed places w.invocations → Consistent places configs fs₀ w

/-- During an experiment, after `build_perf`. -/
def During (places : Places) (configs : List (Text × CrateConfig)) (fs₀ : FileTree κ)
    (exp : Experiment) (w : World κ) : Prop :=
  Undisturbed places w.invocations → Consistent places configs fs₀ w ∧
    (exp ≠ .native → Provisioned places fs₀ w.invocations exp w.fs)

theorem During.between (h : During places configs fs₀ exp w) : Between places configs fs₀ w :=
  fun hund ↦ (h hund).1

end Consistent

namespace World

section Keeps

variable {shell : Shell κ} {configs : List (Text × CrateConfig)}
  {iterdir : FileTree κ → List (CrateName × Bool)} {places : Places} {ambient : Env}
  {exp : Experiment} {fs₀ : FileTree κ} {w : World κ}

/-! ### Commands -/

theorem during_runCmd {crateName : CrateName} {launch : Launch}
    (hflags : exp ≠ .native → ∃ flags, launch.env "RUSTFLAGS".toList = some flags ∧
      HasFlags flags (libraryFlags places (customConfig configs crateName)))
    (h : During places configs fs₀ exp w) :
    During places configs fs₀ exp (runCmd shell exp (some crateName) launch w).1 := by
  rw [runCmd]
  split
  · intro hund
    obtain ⟨⟨hprebuilt, hfound⟩, hprovisioned⟩ := h (hund.mono (List.prefix_append _ _))
    have hmem : call shell exp (some crateName) launch w ∈
        w.invocations ++ [call shell exp (some crateName) launch w] := List.mem_concat_self
    refine ⟨⟨hprebuilt.trans (hund.prebuilt _ hmem), hfound.concat ?_⟩, fun hexp ↦ ?_⟩
    · intro hexp crateName' heq
      obtain rfl : crateName = crateName' := Option.some_inj.mp heq
      exact ⟨hprovisioned hexp, hflags hexp⟩
    · exact (hprovisioned hexp).mono (List.prefix_append _ _) (hund.target _ hmem rfl)
  · exact h

theorem between_runCmd {launch : Launch} (h : Between places configs fs₀ w) :
    Between places configs fs₀ (runCmd shell exp none launch w).1 := by
  rw [runCmd]
  split
  · intro hund
    obtain ⟨hprebuilt, hfound⟩ := h (hund.mono (List.prefix_append _ _))
    have hmem : call shell exp none launch w ∈ w.invocations ++ [call shell exp none launch w] :=
      List.mem_concat_self
    exact ⟨hprebuilt.trans (hund.prebuilt _ hmem), hfound.concat fun _ _ heq ↦ absurd heq (Option.some_ne_none _).symm⟩
  · exact h

/-! ### Files -/

theorem sameBelow_of_collect {fs fs' : FileTree κ} {outputDir p : Path} {crateName outputFile : Text}
    (h : collect fs outputDir crateName outputFile = some fs') (hout : outputDir.Apart p)
    (htmp : (tmp.join outputFile).Apart p) : fs.SameBelow fs' p := by
  rcases hfound : found fs outputDir outputFile with _ | src
  · rw [collect_of_found_none hfound] at h
    rw [← Option.some_inj.mp h]
    exact FileTree.SameBelow.refl fs p
  · have hsrc : src.Apart p := by
      rw [found] at hfound
      split at hfound
      · exact Option.some_inj.mp hfound ▸ hout.below (Path.prefix_join _ _)
      · split at hfound
        · exact Option.some_inj.mp hfound ▸ htmp
        · exact absurd hfound (by simp)
    rw [collect_of_found hfound] at h
    exact FileTree.sameBelow_of_move h hsrc (hout.below (List.prefix_append _ _))

theorem during_collect {crateName : Text} (hclear : Clear places exp)
    (h : During places configs fs₀ exp w) :
    During places configs fs₀ exp
      (attempt (fun fs ↦ collect fs places.outputDir crateName exp.outputFile) w).1 := by
  rw [attempt]
  split
  · next fs hfs =>
    intro hund
    obtain ⟨⟨hprebuilt, hfound⟩, hprovisioned⟩ := h hund
    exact ⟨⟨hprebuilt.trans (sameBelow_of_collect hfs hclear.output_prebuilt hclear.tmp_prebuilt),
      hfound⟩, fun hexp ↦ (hprovisioned hexp).mono List.prefix_rfl
        (sameBelow_of_collect hfs hclear.output_target hclear.tmp_target)⟩
  · exact h

/-- Staging leaves the prebuilt libraries as they are, even where it fails. -/
theorem sameBelow_stageOps {feature : Text} (w : World κ) :
    w.fs.SameBelow (runAll attempt (stageOps places feature) w).1.fs (real (runtimeDir places)) := by
  have hapart := target_apart_runtime places
  have hrlib : (real (perfRlib places)).Apart (real (runtimeDir places)) :=
    hapart.below (real_perfRlib places ▸ List.prefix_append _ _)
  have hdeps : (real (perfDeps places)).Apart (real (runtimeDir places)) :=
    hapart.below (real_perfDeps places ▸ List.prefix_append _ _)
  refine runAll_keeps (P := fun w' : World κ ↦ w.fs.SameBelow w'.fs (real (runtimeDir places))) ?_
    (FileTree.SameBelow.refl _ _)
  intro op hop w' hw'
  refine attempt_keeps (P := fun fs' ↦ w.fs.SameBelow fs' (real (runtimeDir places)))
    (fun fs' hfs' ↦ hw'.trans ?_) hw'
  obtain rfl | rfl | rfl | rfl := by simpa [stageOps] using hop
  · beta_reduce at hfs'
    split at hfs'
    · exact FileTree.sameBelow_of_rmtree hfs' hapart
    · exact Option.some_inj.mp hfs' ▸ FileTree.SameBelow.refl _ _
  · exact FileTree.sameBelow_of_mkdir hfs' hapart.symm.1
  · exact FileTree.sameBelow_of_copy2 hfs' hrlib
  · beta_reduce at hfs'
    split at hfs'
    · exact FileTree.sameBelow_of_copytree hfs' hdeps
    · exact Option.some_inj.mp hfs' ▸ FileTree.SameBelow.refl _ _

/-! ### `build_perf` -/

theorem runCmd_isPrefix {crateName : Option CrateName} {launch : Launch} :
    w.invocations <+: (runCmd shell exp crateName launch w).1.invocations := by
  rw [runCmd]
  split
  · exact List.prefix_append _ _
  · exact List.prefix_rfl

theorem runCmd_of_next {crateName : Option CrateName} {launch : Launch}
    (h : (runCmd shell exp crateName launch w).2 = .next) :
    (runCmd shell exp crateName launch w).1 =
        { fs := (call shell exp crateName launch w).after
          invocations := w.invocations ++ [call shell exp crateName launch w] } ∧
      (call shell exp crateName launch w).result = .success := by
  rw [runCmd] at h ⊢
  split at h
  · next hdir =>
    rw [if_pos hdir]
    refine ⟨rfl, not_not.mp fun hfail ↦ ?_⟩
    exact absurd ((if_neg hfail).symm.trans h) (by decide)
  · exact absurd h (by simp)

theorem libraryNode_congr {fs : FileTree κ} (hexp : exp.config.feature ≠ [])
    (h : fs₀.SameBelow fs (real (runtimeDir places))) (q : Path) :
    libraryNode places fs exp.config.feature q = libraryNode places fs₀ exp.config.feature q := by
  rw [libraryNode, libraryNode, prebuiltRlib, prebuiltDeps, real_prebuilt places exp hexp (by decide),
    real_prebuilt places exp hexp (by decide), List.append_assoc, h, h]
  simp only [h.isDir_iff (List.prefix_append _ _)]

theorem build_perf_ready (shell : Shell κ) (ambient : Env) (exp : Experiment)
    (h : Between places configs fs₀ w) :
    Between places configs fs₀ (buildPerf shell places ambient exp w).1 ∧
      ((buildPerf shell places ambient exp w).2 = .next →
        During places configs fs₀ exp (buildPerf shell places ambient exp w).1) := by
  rw [buildPerf]
  split
  · -- native
    next hnative =>
    refine ⟨h, fun _ hund ↦ ⟨h hund, fun hexp ↦ absurd hnative ?_⟩⟩
    revert hexp
    rcases exp <;> decide
  next hexp =>
  split
  · -- the prebuilt library
    next hprebuilt =>
    have hkept : Between places configs fs₀
        (runAll attempt (stageOps places exp.config.feature) w).1 := by
      intro hund
      rw [runAll_attempt_invocations] at hund
      obtain ⟨hsame, hfound⟩ := h hund
      exact ⟨hsame.trans (sameBelow_stageOps w), (runAll_attempt_invocations _ w).symm ▸ hfound⟩
    refine ⟨hkept, fun hnext hund ↦ ⟨hkept hund, fun _ ↦ ?_⟩⟩
    obtain ⟨hfile, hnode⟩ := stage_node hexp hnext
    rw [runAll_attempt_invocations] at hund
    have hsame := (h hund).prebuilt
    refine .staged ?_ fun q ↦ (hnode q).trans (libraryNode_congr hexp hsame q)
    obtain ⟨content, hcontent⟩ := hfile
    rw [prebuiltRlib, real_prebuilt places exp hexp (by decide), hsame] at hcontent
    rw [prebuiltRlib, real_prebuilt places exp hexp (by decide)]
    exact ⟨content, hcontent⟩
  · -- from source
    next hprebuilt =>
    have hclean : Between places configs fs₀ (runCmd shell exp none
        (libraryLaunch places ambient "cargo clean".toList) w).1 := between_runCmd h
    dsimp only
    split
    · next hexit => exact ⟨hclean, fun hnext ↦ absurd (hexit.symm.trans hnext) (by decide)⟩
    have hbuild : Between places configs fs₀ (runCmd shell exp none
        (libraryLaunch places ambient (buildCmd exp.config.feature)) (runCmd shell exp none
          (libraryLaunch places ambient "cargo clean".toList) w).1).1 := between_runCmd hclean
    split
    · next hnext =>
      refine ⟨hbuild, fun _ hund ↦ ⟨hbuild hund, fun _ ↦ ?_⟩⟩
      have hsame := (h (hund.mono (runCmd_isPrefix.trans runCmd_isPrefix))).prebuilt
      have hnone : ¬fs₀.PathExists (real (prebuiltRlib places exp.config.feature)) := by
        rw [prebuiltRlib, real_prebuilt places exp hexp (by decide)] at hprebuilt ⊢
        rwa [← hsame.pathExists_iff (List.prefix_append _ _)]
      obtain ⟨heq, hsuccess⟩ := runCmd_of_next hnext
      have hflags : (libraryLaunch places ambient (buildCmd exp.config.feature)).env
          "RUSTFLAGS".toList = none := by
        change ambient.del "RUSTFLAGS".toList "RUSTFLAGS".toList = none
        exact Env.del_self
      rw [heq]
      exact .built hnone _ List.mem_concat_self rfl rfl rfl rfl hflags hsuccess
        (FileTree.SameBelow.refl _ _)
    · exact ⟨hbuild, fun hnext ↦ absurd hnext (by simp)⟩

/-! ### Crates and experiments -/

/-- No custom configuration sets the flags itself. -/
def FlagsFree (configs : List (Text × CrateConfig)) : Prop :=
  ∀ crateName, extraEnv (customConfig configs crateName) "RUSTFLAGS".toList = none

theorem flags_of_launch {entries : List (CrateName × Bool)} {crateName : CrateName} {launch : Launch}
    (hfree : FlagsFree configs) (hexp : exp ≠ .native)
    (hlaunch : launch ∈ launches configs entries places exp crateName ambient) :
    ∃ flags, launch.env "RUSTFLAGS".toList = some flags ∧
      HasFlags flags (libraryFlags places (customConfig configs crateName)) := by
  rcases hdir : crateDir entries crateName with _ | dir
  · simp [launches, hdir] at hlaunch
  by_cases hskip : (customConfig configs crateName).any CrateConfig.skip
  · rw [launches_of_skip hskip] at hlaunch
    exact absurd hlaunch List.not_mem_nil
  rw [launches_of_crateDir hdir hskip] at hlaunch
  obtain ⟨cmd, -, rfl⟩ := List.mem_map.mp hlaunch
  refine ⟨_, (launchEnv_rustflags hexp).trans (by rw [hfree, Option.none_or]), ?_⟩
  have hne : libraryFlags places (customConfig configs crateName) ++ exp.config.flags ≠ [] := by
    rw [libraryFlags]
    split <;> simp [linkFlags]
  rw [HasFlags, words_joinFlags hne, List.flatMap_append]
  exact (List.prefix_append _ _).isInfix

theorem during_runCrate {crateName : CrateName} (hfree : FlagsFree configs) (hclear : Clear places exp)
    (h : During places configs fs₀ exp w) :
    During places configs fs₀ exp
      (runCrate shell configs iterdir places ambient exp crateName w).1 := by
  rw [runCrate]
  split
  · exact h
  split
  · exact h
  have hcmds : During places configs fs₀ exp (runAll (runCmd shell exp (some crateName))
      (launches configs (iterdir w.fs) places exp crateName ambient) w).1 :=
    runAll_keeps (P := During places configs fs₀ exp) (fun launch hmem w' hw' ↦
      during_runCmd (fun hexp ↦ flags_of_launch hfree hexp hmem) hw') h
  dsimp only
  split
  · exact during_collect hclear hcmds
  · exact hcmds
  · exact hcmds

theorem between_runExperiment {crates : List CrateName} (hfree : FlagsFree configs)
    (hclear : Clear places exp) (h : Between places configs fs₀ w) :
    Between places configs fs₀
      (runExperiment shell configs iterdir places ambient crates exp w).1 := by
  obtain ⟨hkept, hready⟩ := build_perf_ready shell ambient exp h
  rw [runExperiment]
  split
  · next hnext =>
    exact (runAll_keeps (P := During places configs fs₀ exp) (fun crateName _ w' hw' ↦
      during_runCrate hfree hclear hw') (hready hnext)).between
  · exact hkept

end Keeps

end World

/-! ## Features never mix -/

section Main

variable {shell : Shell κ} {configs : List (Text × CrateConfig)}
  {iterdir : FileTree κ → List (CrateName × Bool)} {places : Places} {ambient : Env} {args : Args}

theorem experimentsToRun_ne_nil (args : Args) : experimentsToRun args ≠ [] := by
  rw [experimentsToRun]
  split <;> simp

theorem allFind_main (hfree : World.FlagsFree configs)
    (hclear : ∀ exp ∈ experimentsToRun args, Clear places exp) (fs : FileTree κ)
    (hund : Undisturbed places
      (main shell configs iterdir places ambient args fs).1.invocations) :
    AllFind places configs fs (main shell configs iterdir places ambient args fs).1.invocations := by
  have hnone : AllFind places configs fs [] := fun earlier i later crateName heq ↦
    absurd heq (by simp)
  suffices h : Between places configs fs (main shell configs iterdir places ambient args fs).1 from
    (h hund).found
  obtain ⟨exp, hexp⟩ := List.exists_mem_of_ne_nil _ (experimentsToRun_ne_nil args)
  have hmkdir : Between places configs fs
      (World.attempt (fun fs ↦ fs.mkdir places.outputDir) ⟨fs, []⟩).1 := by
    intro _
    refine ⟨World.attempt_keeps
      (P := fun fs' ↦ fs.SameBelow fs' (real (runtimeDir places))) (fun fs' hfs' ↦
        FileTree.sameBelow_of_mkdir hfs' (hclear exp hexp).output_prebuilt.2)
        (FileTree.SameBelow.refl _ _), ?_⟩
    rw [World.attempt_invocations]
    exact hnone
  rw [main]
  split
  · exact runAll_keeps (P := Between places configs fs) (fun exp hmem w hw ↦
      World.between_runExperiment hfree (hclear exp hmem) hw) hmkdir
  · exact hmkdir

end Main

/-! ### Commands that leave the libraries alone -/

section Careful

variable {shell : Shell κ} {configs : List (Text × CrateConfig)}
  {iterdir : FileTree κ → List (CrateName × Bool)} {places : Places} {ambient : Env} {args : Args}
  {w : World κ}

theorem undisturbed_runCmd {exp : Experiment} {crateName : Option CrateName} {launch : Launch}
    (hprebuilt : ∀ n launch fs, FileTree.SameBelow fs (shell n launch fs).1 (real (runtimeDir places)))
    (htarget : ∀ n launch fs,
      FileTree.SameBelow fs (shell n launch fs).1 (real (perfTargetDir places)))
    (h : Undisturbed places w.invocations) :
    Undisturbed places (World.runCmd shell exp crateName launch w).1.invocations := by
  rw [World.runCmd]
  split
  · constructor
    · intro i hi
      rcases List.mem_append.mp hi with hi | hi
      · exact h.prebuilt i hi
      · obtain rfl := List.mem_singleton.mp hi
        exact hprebuilt _ _ _
    · intro i hi hcrate
      rcases List.mem_append.mp hi with hi | hi
      · exact h.target i hi hcrate
      · obtain rfl := List.mem_singleton.mp hi
        exact htarget _ _ _
  · exact h

/-- Nothing is disturbed if no command touches the libraries. -/
theorem undisturbed_main
    (hprebuilt : ∀ n launch fs, FileTree.SameBelow fs (shell n launch fs).1 (real (runtimeDir places)))
    (htarget : ∀ n launch fs,
      FileTree.SameBelow fs (shell n launch fs).1 (real (perfTargetDir places)))
    (fs : FileTree κ) :
    Undisturbed places (main shell configs iterdir places ambient args fs).1.invocations := by
  have hstart : Undisturbed places (World.attempt (fun fs ↦ fs.mkdir places.outputDir)
      ⟨fs, []⟩).1.invocations := by
    rw [World.attempt_invocations]
    exact ⟨fun i hi ↦ absurd hi List.not_mem_nil, fun i hi ↦ absurd hi List.not_mem_nil⟩
  have hcmd : ∀ exp crateName launch (w : World κ), Undisturbed places w.invocations →
      Undisturbed places (World.runCmd shell exp crateName launch w).1.invocations :=
    fun _ _ _ _ ↦ undisturbed_runCmd hprebuilt htarget
  have hcrate : ∀ exp crateName (w : World κ), Undisturbed places w.invocations → Undisturbed places
      (World.runCrate shell configs iterdir places ambient exp crateName w).1.invocations := by
    intro exp crateName w h
    have hcmds := runAll_keeps (P := fun w : World κ ↦ Undisturbed places w.invocations)
      (l := launches configs (iterdir w.fs) places exp crateName ambient)
      (fun launch _ w ↦ hcmd exp (some crateName) launch w) h
    rw [World.runCrate]
    split
    · exact h
    split
    · exact h
    dsimp only
    split
    · rw [World.attempt_invocations]
      exact hcmds
    · exact hcmds
    · exact hcmds
  have hbuild : ∀ exp (w : World κ), Undisturbed places w.invocations →
      Undisturbed places (World.buildPerf shell places ambient exp w).1.invocations := by
    intro exp w h
    rw [World.buildPerf]
    split
    · exact h
    split
    · rw [World.runAll_attempt_invocations]
      exact h
    · dsimp only
      split
      · exact hcmd _ _ _ _ h
      · split <;> exact hcmd _ _ _ _ (hcmd _ _ _ _ h)
  rw [main]
  split
  · refine runAll_keeps (P := fun w : World κ ↦ Undisturbed places w.invocations) ?_ hstart
    intro exp _ w h
    rw [World.runExperiment]
    split
    · exact runAll_keeps (P := fun w : World κ ↦ Undisturbed places w.invocations)
        (fun crateName _ w ↦ hcrate exp crateName w) (hbuild exp w h)
    · exact hbuild exp w h
  · exact hstart

end Careful

/-- No entry of `CRATE_CONFIGS` sets the flags itself. -/
theorem flagsFree_crateConfigs (home : Text) : World.FlagsFree (crateConfigs home) := by
  intro crateName
  rcases hfind : (crateConfigs home).find? fun kv ↦
    decide (crateName = kv.1) || decide (crateName.StartsWith (kv.1 ++ "-".toList)) with _ | kv
  · rw [customConfig, hfind]
    rfl
  · rw [customConfig, hfind]
    have hmem := List.mem_of_find?_eq_some hfind
    simp only [crateConfigs, List.mem_cons, List.not_mem_nil, or_false] at hmem
    rcases hmem with rfl | rfl | rfl | rfl | rfl | rfl | rfl | rfl <;> rfl

/-- Features never mix: whatever experiments and crates were run before, and however their commands
ended, a command of a crate finds the library of its own experiment at the place that its flags
name. -/
theorem crates_find_own_library (shell : Shell κ) (home : Text)
    (iterdir : FileTree κ → List (CrateName × Bool)) (places : Places) (ambient : Env) (args : Args)
    (fs : FileTree κ) (hclear : ∀ exp ∈ experimentsToRun args, Clear places exp)
    (hund : Undisturbed places
      (main shell (crateConfigs home) iterdir places ambient args fs).1.invocations)
    (earlier later : List (Invocation κ)) (i : Invocation κ) (crateName : CrateName)
    (hi : (main shell (crateConfigs home) iterdir places ambient args fs).1.invocations
      = earlier ++ i :: later)
    (hexp : i.exp ≠ .native) (hcrate : i.crateName = some crateName) :
    FindsLibrary places (crateConfigs home) fs earlier crateName i :=
  allFind_main (flagsFree_crateConfigs home) hclear fs hund earlier i later crateName hi hexp hcrate

/-- A repository with one crate and one prebuilt library. -/
def repo : FileTree ℕ :=
  let fs := FileTree.empty ℕ
  let fs := (fs.mkdir tmp).getD fs
  let fs := (fs.mkdir ["repo".toList, "benchmarks".toList, "demo".toList]).getD fs
  let prebuilt := ["repo".toList, "unsafe_perf_prebuilt".toList, "cpu_cycle_counter".toList]
  let fs := (fs.mkdir (prebuilt ++ ["deps".toList])).getD fs
  let rlib := prebuilt ++ ["libunsafe_perf.rlib".toList]
  if h : fs.Writable rlib then fs.write rlib 7 h else fs

/-- The repository and its results. -/
def repoPlaces : Places where
  scriptDir := ["repo".toList]
  outputDir := ["repo".toList, "results".toList]
  normal := by decide

/-- The crate in it. -/
def demo : CrateName := ⟨"demo".toList, by decide⟩

/-- The first command of a crate finds the library that has been staged. -/
theorem crates_find_own_library_repo :
    let idle : Shell ℕ := fun _ _ fs ↦ (fs, .success)
    let entries := [(demo, true)]
    let args : Args := ⟨none, some .cpuCycle, false, by simp⟩
    ∃ i later, (main idle (crateConfigs []) (fun _ ↦ entries) repoPlaces (fun _ ↦ none) args
        repo).1.invocations = i :: later ∧
      FindsLibrary repoPlaces (crateConfigs []) repo [] demo i := by
  intro idle entries args
  have hrun : (main idle (crateConfigs []) (fun _ ↦ entries) repoPlaces (fun _ ↦ none) args
        repo).1.invocations.map (fun i ↦ (i.exp, i.crateName))
      = List.replicate 3 (Experiment.cpuCycle, some demo) := by
    decide +kernel
  obtain ⟨i, later, hi, hfirst, -⟩ := List.map_eq_cons_iff.mp hrun
  obtain ⟨hexp, hcrate⟩ := Prod.mk.inj hfirst
  have hclear : ∀ exp ∈ experimentsToRun args, Clear repoPlaces exp := by
    intro exp hmem
    obtain rfl := List.mem_singleton.mp hmem
    constructor <;> decide
  have hund : Undisturbed repoPlaces (main idle (crateConfigs []) (fun _ ↦ entries) repoPlaces
      (fun _ ↦ none) args repo).1.invocations :=
    undisturbed_main (fun _ _ fs ↦ FileTree.SameBelow.refl fs _)
      (fun _ _ fs ↦ FileTree.SameBelow.refl fs _) repo
  exact ⟨i, later, hi, crates_find_own_library idle [] _ repoPlaces _ _ repo hclear hund [] later i
    _ hi (by rw [hexp]; decide) hcrate⟩

end UnsafePerf.Pipeline
