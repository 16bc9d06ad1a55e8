import UnsafePerf.Files.FileTree

/-!
# Collecting the results of a crate

After the commands of a crate have succeeded, `run_crate` looks for the experiment's output file in
the output directory and then in `/tmp`, and moves what it finds to `{crate}_{output_file}`.

The first test asks whether the experiment has an output file; the fallback does not. For the native
experiment, whose output file is the empty text, the fallback path is `/tmp` itself. Neither test
asks whether a file was found.

A crate name and an output file are single path components.
-/

open Files

namespace UnsafePerf.Pipeline

/-! ## The experiments -/

/-- What `EXPERIMENTS` says of an experiment. -/
structure Config where
  feature : Text
  outputFile : Text
  flags : List Text

/-- The keys of `EXPERIMENTS`. -/
inductive Experiment where
  | cpuCycle
  | heapTracker
  | unsafeCounter
  | coverage
  | native
  deriving DecidableEq

namespace Experiment

/-- `EXPERIMENTS`. -/
def config : Experiment → Config
  | cpuCycle =>
    { feature := "cpu_cycle_counter".toList
      outputFile := "cpu_cycle.stat".toList
      flags := ["-C".toList, "unsafe_include_native_lib=false".toList,
        "-C".toList, "llvm-args=-enable-instmarker".toList,
        "-C".toList, "llvm-args=-enable-cpu-cycle-count".toList,
        "-C".toList, "llvm-args=-enable-external-call-tracker".toList] }
  | heapTracker =>
    { feature := "heap_tracker".toList
      outputFile := "heap_stat.stat".toList
      flags := ["-C".toList, "unsafe_include_native_lib=false".toList,
        "-C".toList, "llvm-args=-enable-instmarker".toList,
        "-C".toList, "llvm-args=-enable-heap-tracker".toList] }
  | unsafeCounter =>
    { feature := "unsafe_counter".toList
      outputFile := "unsafe_counter.stat".toList
      flags := ["-C".toList, "unsafe_include_native_lib=false".toList,
        "-C".toList, "llvm-args=-enable-instmarker".toList,
        "-C".toList, "llvm-args=-enable-unsafe-function-tracker".toList,
        "-C".toList, "llvm-args=-enable-unsafe-inst-counter".toList] }
  | coverage =>
    { feature := "unsafe_coverage".toList
      outputFile := "unsafe_coverage.stat".toList
      flags := ["-C".toList, "unsafe_include_native_lib=false".toList,
        "-C".toList, "llvm-args=-enable-instmarker".toList,
        "-C".toList, "llvm-args=-enable-dynamic-line-count".toList] }
  | native => { feature := [], outputFile := [], flags := [] }

/-- `config["output_file"]`. -/
def outputFile (exp : Experiment) : Text := exp.config.outputFile

end Experiment

/-! ## Result collection -/

/-- `/tmp`. -/
def tmp : Path := ["tmp".toList]

/-- The name that the results of a crate get. -/
def resultName (crateName outputFile : Text) : Text := crateName ++ '_' :: outputFile

theorem resultName_ne_nil (crateName outputFile : Text) : resultName crateName outputFile ≠ [] := by
  simp [resultName]

variable {κ : Type}

/-- The result collection of `run_crate`; `none` is an exception of `shutil.move`. -/
def collect (fs : FileTree κ) (outputDir : Path) (crateName outputFile : Text) :
    Option (FileTree κ) :=
  let expectedFile := outputDir.join outputFile
  if outputFile ≠ [] ∧ fs.PathExists expectedFile then
    let newName := outputDir.join (resultName crateName outputFile)
    fs.move expectedFile newName
  else
    let fallbackFile := tmp.join outputFile
    if fs.PathExists fallbackFile then
      let newName := outputDir.join (resultName crateName outputFile)
      fs.move fallbackFile newName
    else some fs

/-- The path that the two existence tests find. -/
def found (fs : FileTree κ) (outputDir : Path) (outputFile : Text) : Option Path :=
  if outputFile ≠ [] ∧ fs.PathExists (outputDir.join outputFile) then some (outputDir.join outputFile)
  else if fs.PathExists (tmp.join outputFile) then some (tmp.join outputFile)
  else none

section Found

variable {fs fs' : FileTree κ} {outputDir src : Path} {crateName outputFile : Text}

theorem collect_of_found (h : found fs outputDir outputFile = some src) :
    collect fs outputDir crateName outputFile
      = fs.move src (outputDir ++ [resultName crateName outputFile]) := by
  rw [← Path.join_of_ne_nil outputDir (resultName_ne_nil crateName outputFile)]
  rw [found] at h
  rw [collect]
  split at h
  · next hexpected => rw [if_pos hexpected, Option.some_inj.mp h]
  · next hexpected =>
    rw [if_neg hexpected]
    split at h
    · next hfallback => rw [if_pos hfallback, Option.some_inj.mp h]
    · exact absurd h (by simp)

theorem collect_of_found_none (h : found fs outputDir outputFile = none) :
    collect fs outputDir crateName outputFile = some fs := by
  rw [found] at h
  rw [collect]
  split at h
  · exact absurd h (by simp)
  · next hexpected =>
    rw [if_neg hexpected]
    split at h
    · exact absurd h (by simp)
    · next hfallback => exact if_neg hfallback

theorem eq_of_found (h : found fs outputDir outputFile = some src) (hname : outputFile ≠ []) :
    src = outputDir ++ [outputFile] ∨ src = tmp ++ [outputFile] := by
  rw [found, Path.join_of_ne_nil _ hname, Path.join_of_ne_nil _ hname] at h
  split at h
  · exact Or.inl (Option.some_inj.mp h).symm
  · split at h
    · exact Or.inr (Option.some_inj.mp h).symm
    · exact absurd h (by simp)

end Found

/-- At most one path has moved, and that path is a file `outputFile` of the output directory or of
`/tmp`. What it is moved to may be an older file of results, but not a directory. -/
def MovesOnlyReport (fs fs' : FileTree κ) (outputDir : Path) (outputFile : Text) : Prop :=
  fs' = fs ∨ ∃ (src dst : Path) (content : κ), outputFile ≠ [] ∧
    (src = outputDir ++ [outputFile] ∨ src = tmp ++ [outputFile]) ∧
    fs.node src = some (.file content) ∧ ¬fs.IsDir dst ∧
    ∀ q, fs'.node q = if q = dst then some (.file content) else if q = src then none else fs.node q

/-- The path that is found is a directory, or `/tmp` itself, and it can be moved. -/
def Misdirected (fs : FileTree κ) (outputDir : Path) (crateName outputFile : Text) : Prop :=
  ∃ src ∈ found fs outputDir outputFile, (outputFile = [] ∨ fs.IsDir src) ∧
    fs.Movable src (outputDir ++ [resultName crateName outputFile])

section Frame

variable {fs fs' : FileTree κ} {outputDir src dst : Path} {crateName outputFile : Text}

/-- A moved directory is seen from the place that it has left. -/
theorem not_movesOnlyReport (hrel : fs.Relocated fs' src dst) (hne : src ≠ dst)
    (hex : fs.PathExists src) (h : outputFile = [] ∨ fs.IsDir src) :
    ¬MovesOnlyReport fs fs' outputDir outputFile := by
  have hgone : fs'.node src = none := hrel.node_src hne
  rintro (rfl | ⟨src', dst', content, hname, -, hfile, -, hnode⟩)
  · exact FileTree.node_eq_none_iff.mp hgone hex
  · have hdir : fs.IsDir src := h.resolve_left hname
    rw [hnode] at hgone
    split at hgone
    · exact absurd hgone (by simp)
    · split at hgone
      · next heq => exact FileTree.IsFile.not_isDir ⟨content, heq ▸ hfile⟩ hdir
      · exact FileTree.node_eq_none_iff.mp hgone hex

theorem movesOnlyReport_of_file (hrel : fs.Relocated fs' src dst) (hdir : ¬fs.IsDir src)
    (hname : outputFile ≠ []) (hsrc : src = outputDir ++ [outputFile] ∨ src = tmp ++ [outputFile]) :
    MovesOnlyReport fs fs' outputDir outputFile := by
  rcases hrel with ⟨hfile, hdst, hnode⟩ | ⟨hdst, -⟩
  · exact Or.inr ⟨src, dst, _, hname, hsrc, hfile, hdst.not_isDir, hnode⟩
  · exact absurd hdst.isDir hdir

theorem not_movesOnlyReport_of_misdirected (h : Misdirected fs outputDir crateName outputFile) :
    ¬MovesOnlyReport fs ((collect fs outputDir crateName outputFile).getD fs) outputDir
      outputFile := by
  obtain ⟨src, hsrc, hbad, hmove⟩ := h
  obtain ⟨fs', heq, hrel⟩ := hmove.exists_move
  rw [collect_of_found hsrc, heq, Option.getD_some]
  exact not_movesOnlyReport hrel hmove.ne_place hmove.pathExists hbad

theorem movesOnlyReport_of_not_misdirected (h : ¬Misdirected fs outputDir crateName outputFile) :
    MovesOnlyReport fs ((collect fs outputDir crateName outputFile).getD fs) outputDir
      outputFile := by
  rcases hfound : found fs outputDir outputFile with _ | src
  · rw [collect_of_found_none hfound]
    exact Or.inl rfl
  rw [collect_of_found hfound]
  by_cases hmove : fs.Movable src (outputDir ++ [resultName crateName outputFile])
  · have hgood : ¬(outputFile = [] ∨ fs.IsDir src) := fun hbad ↦ h ⟨src, hfound, hbad, hmove⟩
    obtain ⟨hname, hdir⟩ := not_or.mp hgood
    obtain ⟨fs', heq, hrel⟩ := hmove.exists_move
    rw [heq, Option.getD_some]
    exact movesOnlyReport_of_file hrel hdir hname (eq_of_found hfound hname)
  · rw [FileTree.move_getD_of_not_movable hmove]
    exact Or.inl rfl

/-- Result collection moves the report and nothing else, unless it finds a directory that can be
moved. -/
theorem collect_movesOnlyReport_iff (fs : FileTree κ) (exp : Experiment) (crateName : Text)
    (outputDir : Path) :
    MovesOnlyReport fs ((collect fs outputDir crateName exp.outputFile).getD fs) outputDir
      exp.outputFile ↔ ¬Misdirected fs outputDir crateName exp.outputFile :=
  ⟨fun h hbad ↦ not_movesOnlyReport_of_misdirected hbad h, movesOnlyReport_of_not_misdirected⟩

/-- For the native experiment, `/tmp` is moved to every output directory outside of it. -/
theorem misdirected_native (htmp : fs.IsDir tmp) (hdir : fs.IsDir outputDir)
    (hout : ¬tmp <+: outputDir)
    (hfree : ¬fs.PathExists (outputDir ++ [resultName crateName Experiment.native.outputFile])) :
    Misdirected fs outputDir crateName Experiment.native.outputFile := by
  set dst := outputDir ++ [resultName crateName Experiment.native.outputFile] with hdst
  have hplace : fs.place tmp dst = dst := if_neg fun h ↦ hfree h.pathExists
  have hlast : (resultName crateName Experiment.native.outputFile).getLast? = some '_' :=
    List.getLast?_concat
  have hne : tmp ≠ dst := by
    intro heq
    have hname : "tmp".toList = resultName crateName Experiment.native.outputFile := by
      simpa [tmp] using congrArg List.getLast? (heq.trans hdst)
    rw [← hname] at hlast
    exact absurd hlast (by decide)
  have hmove : fs.Placeable tmp dst :=
    { ne_nil := by simp [tmp]
      isDir := htmp
      outside := fun h ↦ (List.prefix_concat_iff.mp h).elim hne hout
      free := hfree
      unobstructed := by
        intro q hq hfile
        rcases List.prefix_concat_iff.mp ((List.mem_inits q dst).mp hq) with rfl | hq
        · exact hfree hfile.pathExists
        · exact hdir.unobstructed.not_isFile hq hfile }
  refine ⟨tmp, ?_, Or.inl rfl, hne, fun h ↦ absurd h.pathExists hfree, Or.inr (hplace ▸ hmove)⟩
  exact if_pos htmp.pathExists

end Frame

/-- A file tree in which only `/tmp` and `/results` exist. -/
def emptyDirs : FileTree (List ℕ) :=
  ((FileTree.empty _).makeDirs tmp (by decide)).makeDirs ["results".toList] (by decide +kernel)

/-- The results of a native run are `/tmp`. -/
theorem collect_moves_tmp :
    ¬∀ (fs : FileTree (List ℕ)) (exp : Experiment) (crateName : Text) (outputDir : Path),
      MovesOnlyReport fs ((collect fs outputDir crateName exp.outputFile).getD fs) outputDir
        exp.outputFile := by
  intro h
  have hbad : Misdirected emptyDirs ["results".toList] "demo".toList Experiment.native.outputFile :=
    misdirected_native (by decide +kernel) (by decide +kernel) (by decide +kernel)
      (by decide +kernel)
  exact not_movesOnlyReport_of_misdirected hbad (h emptyDirs .native _ _)

end UnsafePerf.Pipeline
