import UnsafePerf.Pipeline.Launch

/-!
# Where the reports go

The runtime writes a report to the directory that `UNSAFE_BENCH_OUTPUT_DIR` names, from wherever the
process happens to be. `run_crate` sets the variable to the absolute output directory, and with a
custom `cwd` to a path relative to it. The first is the same for every process; the second is right
for the directory that the command starts in, and from any other just if the same directory stands as
many levels above it: `output_dir_reached_iff`.
-/

open Files

namespace UnsafePerf.Pipeline

/-- `get_output_dir`. -/
def getOutputDir (env : Env) : Text := (env "UNSAFE_BENCH_OUTPUT_DIR".toList).getD "/tmp".toList

section Launched

variable {configs : List (Text × CrateConfig)} {entries : List (CrateName × Bool)} {places : Places}
  {exp : Experiment} {crateName dir : CrateName} {custom : Option CrateConfig}
  {result : List Launch → CmdResult} {ambient : Env} {launch : Launch}

theorem launchEnv_outputDir :
    launchEnv places dir exp custom ambient "UNSAFE_BENCH_OUTPUT_DIR".toList =
      (extraEnv custom "UNSAFE_BENCH_OUTPUT_DIR".toList).or
        (some (if (custom.bind CrateConfig.cwd).isSome then
          places.outputDir.relpath (execCwd places dir custom) else places.outputDir.toText)) := by
  rw [launchEnv, Env.update_apply, extraEnv]
  congr 1
  by_cases hcwd : (custom.bind CrateConfig.cwd).isSome
  · rw [if_pos hcwd, if_pos hcwd, Env.set_self]
  · rw [if_neg hcwd, if_neg hcwd, experimentEnv, Env.set_of_ne (by decide), Env.set_self]

theorem getOutputDir_launchEnv :
    getOutputDir (launchEnv places dir exp custom ambient) =
      (extraEnv custom "UNSAFE_BENCH_OUTPUT_DIR".toList).getD
        (if (custom.bind CrateConfig.cwd).isSome then
          places.outputDir.relpath (execCwd places dir custom) else places.outputDir.toText) := by
  rw [getOutputDir, launchEnv_outputDir, Option.or_some]
  rfl

/-- A process that stays where its command starts reaches the output directory. -/
theorem output_dir_reached_from_cwd (hdir : crateDir entries crateName = some dir)
    (hlaunch : launch ∈ (launched configs entries places exp crateName result ambient).1)
    (hextra : extraEnv (customConfig configs crateName) "UNSAFE_BENCH_OUTPUT_DIR".toList = none) :
    launch.cwd.resolve (getOutputDir launch.env) = places.outputDir := by
  obtain ⟨hcwd, henv, -⟩ := eq_of_mem_launched hdir hlaunch
  rw [hcwd, henv, getOutputDir_launchEnv, hextra, Option.getD_none]
  split
  · exact Path.resolve_relpath_self places.normal _
  · exact Path.resolve_toText places.normal _

end Launched

/-- The directory that the runtime writes to from a working directory is the output directory just if
the variable is absolute, which it is without a custom `cwd`, or the directory above `cwd` and the
output directory stands as many levels above the working directory as above `cwd`, or the custom
configuration gives the variable a value that leads there. -/
theorem output_dir_reached_iff (configs : List (Text × CrateConfig))
    (entries : List (CrateName × Bool)) (places : Places) (exp : Experiment) (crateName dir : CrateName)
    (result : List Launch → CmdResult) (ambient : Env) (launch : Launch) (w : Path)
    (hdir : crateDir entries crateName = some dir)
    (hlaunch : launch ∈ (launched configs entries places exp crateName result ambient).1) :
    w.resolve (getOutputDir launch.env) = places.outputDir ↔
      match extraEnv (customConfig configs crateName) "UNSAFE_BENCH_OUTPUT_DIR".toList with
      | some value => w.resolve value = places.outputDir
      | none => ∀ cwd, (customConfig configs crateName).bind CrateConfig.cwd = some cwd →
        w.up (places.outputDir.levelsUp ((absCrateDir places dir).resolve cwd)) =
          places.outputDir.common ((absCrateDir places dir).resolve cwd) := by
  rw [(eq_of_mem_launched hdir hlaunch).2.1, getOutputDir_launchEnv]
  cases extraEnv (customConfig configs crateName) "UNSAFE_BENCH_OUTPUT_DIR".toList with
  | some value => rfl
  | none =>
    rw [Option.getD_none, execCwd]
    cases (customConfig configs crateName).bind CrateConfig.cwd with
    | none => simp [Path.resolve_toText places.normal]
    | some cwd =>
      rw [Option.isSome_some, if_pos rfl, Path.resolve_relpath_eq_iff places.normal]
      simp

/-- A benchmark of `ring` that changes to a sibling of its directory. -/
theorem output_dir_reached_iff_sibling :
    let ring : CrateName := ⟨"ring".toList, by decide⟩
    let entries := [(ring, true)]
    let places : Places :=
      { scriptDir := ["workspace".toList]
        outputDir := ["workspace".toList, "results".toList]
        normal := by decide }
    let w : Path := ["workspace".toList, "benchmarks".toList, "ring".toList, "target".toList]
    ∃ launch ∈ (launched (crateConfigs []) entries places .coverage ring
        (fun _ ↦ .success) fun _ ↦ none).1,
      launch.cmd = "cargo clean".toList ∧ w ≠ launch.cwd ∧
        getOutputDir launch.env = "../../../results".toList ∧
        w.resolve (getOutputDir launch.env) = places.outputDir := by
  intro ring entries places w
  refine ⟨_, List.mem_cons_self, rfl, by decide, by decide, ?_⟩
  refine (output_dir_reached_iff (crateConfigs []) entries places .coverage ring ring
    (fun _ ↦ .success) (fun _ ↦ none) _ w (by decide) List.mem_cons_self).mpr ?_
  intro cwd hcwd
  obtain rfl := Option.some.inj hcwd
  decide

/-- The build script of `ring` itself runs in the directory of the crate, one level above the
custom `cwd`. -/
theorem output_dir_not_reached :
    let ring : CrateName := ⟨"ring".toList, by decide⟩
    let entries := [(ring, true)]
    let places : Places :=
      { scriptDir := ["workspace".toList]
        outputDir := ["workspace".toList, "results".toList]
        normal := by decide }
    ∃ launch ∈ (launched (crateConfigs []) entries places .coverage ring
        (fun _ ↦ .success) fun _ ↦ none).1,
      launch.cwd = absCrateDir places ring ++ ["bench".toList] ∧
        (absCrateDir places ring).resolve (getOutputDir launch.env) = ["results".toList] ∧
        (absCrateDir places ring).resolve (getOutputDir launch.env) ≠ places.outputDir := by
  intro ring entries places
  exact ⟨_, List.mem_cons_self, by decide, by decide, by decide⟩

end UnsafePerf.Pipeline
