import UnsafePerf.Pipeline.Crates

/-!
# Which crate's reports a file of results contains

All crates of an experiment append to one file, which is renamed when the commands of a crate have
all succeeded. What it contains when the commands of a crate start is therefore inherited by that
crate; so is a file in `/tmp` if the crate's commands append nothing.

`Attributed` says that every file of results that the execution loop has produced contains exactly
the reports that were appended while the commands of its crate ran. It holds in every state of the
loop if and only if nothing is inherited whenever a file of results is produced (`Clean`).
-/

open Files

namespace UnsafePerf.Pipeline

/-! ## The names of the files -/

theorem not_suffix_outputFile (exp exp' : Experiment) :
    ¬('_' :: exp.outputFile) <:+ exp'.outputFile := by
  cases exp <;> cases exp' <;> decide +kernel

theorem outputFile_injective : Function.Injective Experiment.outputFile := by
  intro exp exp'
  cases exp <;> cases exp' <;> decide +kernel

theorem suffix_resultName (crateName outputFile : Text) :
    ('_' :: outputFile) <:+ resultName crateName outputFile :=
  List.suffix_append crateName _

theorem resultName_ne_outputFile (crateName : Text) (exp exp' : Experiment) :
    resultName crateName exp.outputFile ≠ exp'.outputFile :=
  fun h ↦ not_suffix_outputFile exp exp' (h ▸ suffix_resultName crateName exp.outputFile)

theorem resultName_ne_tmp (crateName : Text) (exp : Experiment) :
    resultName crateName exp.outputFile ≠ "tmp".toList := by
  have hnot : ¬('_' :: exp.outputFile) <:+ "tmp".toList := by cases exp <;> decide +kernel
  exact fun h ↦ hnot (h ▸ suffix_resultName crateName exp.outputFile)

theorem eq_of_suffix_of_suffix {exp exp' : Experiment} {name : Text}
    (h : ('_' :: exp.outputFile) <:+ name) (h' : ('_' :: exp'.outputFile) <:+ name) : exp = exp' := by
  have heq : ∀ e e' : Experiment, ('_' :: e.outputFile) <:+ '_' :: e'.outputFile → e = e' := by
    intro e e' hsuf
    rcases List.suffix_cons_iff.mp hsuf with hcons | hsuf
    · exact outputFile_injective (List.cons_injective hcons)
    · exact absurd hsuf (not_suffix_outputFile e e')
  rcases List.suffix_or_suffix_of_suffix h h' with hsuf | hsuf
  · exact heq exp exp' hsuf
  · exact (heq exp' exp hsuf).symm

/-- Different experiments and crates have different files of results. -/
theorem resultName_inj {crateName crateName' : Text} {exp exp' : Experiment}
    (h : resultName crateName exp.outputFile = resultName crateName' exp'.outputFile) :
    crateName = crateName' ∧ exp = exp' := by
  have hexp : exp = exp' := eq_of_suffix_of_suffix (suffix_resultName crateName exp.outputFile)
    (h ▸ suffix_resultName crateName' exp'.outputFile)
  rw [hexp] at h
  exact ⟨List.append_cancel_right h, hexp⟩

/-! ## Collecting in an existing output directory -/

section Collect

variable {κ : Type} {fs fs' : FileTree κ} {outputDir src p : Path} {crateName name : Text}
  {exp exp' : Experiment}

/-- The file that is found is not a file of results. -/
theorem resultName_ne_found (h : found fs outputDir exp.outputFile = some src)
    (crateName : Text) (exp' : Experiment) :
    src ≠ outputDir ++ [resultName crateName exp'.outputFile] := by
  rw [found] at h
  rintro rfl
  split at h
  · next hexpected =>
    rw [Path.join_of_ne_nil _ hexpected.1] at h
    exact resultName_ne_outputFile crateName exp' exp (by simpa using (Option.some_inj.mp h).symm)
  · split at h
    · by_cases hname : exp.outputFile = []
      · rw [Path.join, if_pos hname] at h
        have hlast := congrArg List.getLast? (Option.some_inj.mp h)
        exact resultName_ne_tmp crateName exp' (by simpa [tmp] using hlast.symm)
      · rw [Path.join_of_ne_nil _ hname] at h
        have hlast := congrArg List.getLast? (Option.some_inj.mp h)
        exact resultName_ne_outputFile crateName exp' exp (by simpa using hlast.symm)
    · exact absurd h (by simp)

theorem pathExists_of_found (h : found fs outputDir exp.outputFile = some src) :
    fs.PathExists src := by
  rw [found] at h
  split at h
  · next hexpected => exact Option.some_inj.mp h ▸ hexpected.2
  · split at h
    · next hfallback => exact Option.some_inj.mp h ▸ hfallback
    · exact absurd h (by simp)

theorem writable_of_isDir (hdir : fs.IsDir outputDir) (h : ¬fs.IsDir (outputDir ++ [name])) :
    fs.Writable (outputDir ++ [name]) where
  dropLast := by simpa using hdir
  not_isDir := h

/-- A file that is found is moved to the file of results. -/
theorem collect_of_isFile (hdir : fs.IsDir outputDir)
    (hfound : found fs outputDir exp.outputFile = some src) {content : κ}
    (hsrc : fs.node src = some (.file content))
    (hnew : ¬fs.IsDir (outputDir ++ [resultName crateName exp.outputFile])) :
    ∃ fs', collect fs outputDir crateName exp.outputFile = some fs' ∧
      ∀ q, fs'.node q = if q = outputDir ++ [resultName crateName exp.outputFile] then
        some (.file content) else if q = src then none else fs.node q := by
  have hplace : fs.place src (outputDir ++ [resultName crateName exp.outputFile])
      = outputDir ++ [resultName crateName exp.outputFile] := if_neg hnew
  have hmove : fs.Movable src (outputDir ++ [resultName crateName exp.outputFile]) :=
    { ne := resultName_ne_found hfound crateName exp
      free := fun h ↦ absurd h hnew
      accepted := Or.inl ⟨⟨content, hsrc⟩, hplace.symm ▸ writable_of_isDir hdir hnew⟩ }
  obtain ⟨fs', heq, hrel⟩ := hmove.exists_move
  rw [hplace] at hrel
  refine ⟨fs', (collect_of_found hfound).trans heq, ?_⟩
  rcases hrel with ⟨hsrc', -, hnode⟩ | ⟨hdst, -⟩
  · rw [hsrc] at hsrc'
    cases hsrc'
    exact hnode
  · exact absurd hdst.isDir (FileTree.IsFile.not_isDir ⟨content, hsrc⟩)

/-- What `shutil.move` moves into the output directory is not above it. -/
theorem not_prefix_of_relocated (hdir : fs.IsDir outputDir) {dst : Path}
    (hrel : fs.Relocated fs' src dst) (hdst : outputDir <+: dst) : ¬src <+: outputDir := by
  intro hpre
  rcases hrel with ⟨hsrc, -, -⟩ | ⟨hplace, -⟩
  · have hfile : fs.IsFile src := ⟨_, hsrc⟩
    exact hfile.not_isDir (hfile.eq_of_below hpre hdir.pathExists ▸ hdir)
  · exact hplace.outside (hpre.trans hdst)

theorem prefix_place (fs : FileTree κ) (src outputDir : Path) (name : Text) :
    outputDir <+: fs.place src (outputDir ++ [name]) := by
  rw [FileTree.place]
  split
  · exact (List.prefix_append outputDir [name]).trans (Path.prefix_join _ _)
  · exact List.prefix_append outputDir [name]

/-- Otherwise no file of results comes about. -/
theorem not_isFile_of_collect (hdir : fs.IsDir outputDir)
    (hfound : found fs outputDir exp.outputFile = some src)
    (h : fs.IsDir src ∨ fs.IsDir (outputDir ++ [resultName crateName exp.outputFile]))
    (hcollect : collect fs outputDir crateName exp.outputFile = some fs') :
    ¬fs'.IsFile (outputDir ++ [resultName crateName exp.outputFile]) := by
  set newName := outputDir ++ [resultName crateName exp.outputFile] with hnewName
  have hne : src ≠ newName := resultName_ne_found hfound crateName exp
  rw [collect_of_found hfound] at hcollect
  by_cases hmove : fs.Movable src newName
  · obtain ⟨fs'', heq, hrel⟩ := hmove.exists_move
    obtain rfl : fs'' = fs' := Option.some_inj.mp (heq.symm.trans hcollect)
    by_cases hnew : fs.IsDir newName
    · have hsrc : ¬src <+: newName := by
        intro hpre
        rcases List.prefix_concat_iff.mp hpre with heq | hpre
        · exact hne heq
        · exact not_prefix_of_relocated hdir hrel (prefix_place fs src outputDir _) hpre
      exact fun hfile ↦ hfile.not_isDir (hrel.isDir hnew hsrc)
    · have hplace : fs.place src newName = newName := if_neg hnew
      rw [hplace] at hrel
      have hnode := hrel.node_dst_append (h.resolve_right hnew) []
      rw [List.append_nil, List.append_nil] at hnode
      exact fun hfile ↦ hfile.not_isDir (hnode.trans (h.resolve_right hnew))
  · have hsame := FileTree.move_getD_of_not_movable hmove
    rw [hcollect, Option.getD_some] at hsame
    rw [hsame]
    intro hfile
    -- nothing was moved and no exception raised, although a directory was found
    have hsrc : fs.IsDir src := h.resolve_right hfile.not_isDir
    rw [FileTree.move, if_neg hfile.not_isDir] at hcollect
    rcases FileTree.relocate_of_isDir hsrc newName with ⟨_, -, hrel⟩ | ⟨hnone, -⟩
    · rcases hrel with ⟨hcontent, -, -⟩ | ⟨hdst, -⟩
      · exact FileTree.IsFile.not_isDir ⟨_, hcontent⟩ hsrc
      · exact hdst.free hfile.pathExists
    · rw [hnone] at hcollect
      exact absurd hcollect (by simp)

/-- Collection leaves the files of the output directory alone, except what it finds and what it
writes. -/
theorem collect_node (hdir : fs.IsDir outputDir) (hp : fs.IsFile (outputDir ++ [name]))
    (hsrc : found fs outputDir exp.outputFile ≠ some (outputDir ++ [name]))
    (hnew : name = resultName crateName exp.outputFile →
      ∀ src ∈ found fs outputDir exp.outputFile, fs.IsDir src) :
    ((collect fs outputDir crateName exp.outputFile).getD fs).node (outputDir ++ [name])
      = fs.node (outputDir ++ [name]) := by
  rcases hfound : found fs outputDir exp.outputFile with _ | src
  · rw [collect_of_found_none hfound, Option.getD_some]
  rw [collect_of_found hfound]
  by_cases hmove : fs.Movable src (outputDir ++ [resultName crateName exp.outputFile])
  · obtain ⟨fs', heq, hrel⟩ := hmove.exists_move
    rw [heq, Option.getD_some]
    refine hrel.node_eq hp.pathExists (fun hpre ↦ ?_) fun hplace ↦ ?_
    · rcases List.prefix_concat_iff.mp hpre with heq | hpre
      · exact hsrc (hfound.trans (congrArg some heq))
      · exact not_prefix_of_relocated hdir hrel (prefix_place fs src outputDir _) hpre
    · by_cases hres : fs.IsDir (outputDir ++ [resultName crateName exp.outputFile])
      · have hex : fs.PathExists (outputDir ++ [name]) := hp.pathExists
        rw [hplace, FileTree.place, if_pos hres] at hex
        exact hmove.free hres hex
      · rw [FileTree.place, if_neg hres] at hplace
        have hname : name = resultName crateName exp.outputFile := by simpa using hplace
        have hsrcDir : fs.IsDir src := hnew hname src hfound
        rcases hrel with ⟨hfile, -, -⟩ | ⟨hdst, -⟩
        · exact FileTree.IsFile.not_isDir ⟨_, hfile⟩ hsrcDir
        · rw [FileTree.place, if_neg hres, ← hname] at hdst
          exact hdst.free hp.pathExists
  · rw [FileTree.move_getD_of_not_movable hmove]

theorem collect_isDir (hdir : fs.IsDir outputDir) (crateName : Text) (exp : Experiment) :
    ((collect fs outputDir crateName exp.outputFile).getD fs).IsDir outputDir := by
  rcases hfound : found fs outputDir exp.outputFile with _ | src
  · rwa [collect_of_found_none hfound, Option.getD_some]
  rw [collect_of_found hfound]
  by_cases hmove : fs.Movable src (outputDir ++ [resultName crateName exp.outputFile])
  · obtain ⟨fs', heq, hrel⟩ := hmove.exists_move
    rw [heq, Option.getD_some]
    exact hrel.isDir hdir (not_prefix_of_relocated hdir hrel (prefix_place fs src outputDir _))
  · rwa [FileTree.move_getD_of_not_movable hmove]

end Collect

/-! ## What the commands append -/

variable {ρ : Type}

/-- The first session becomes the second when reports are written to a file. -/
inductive Writes (file : Path) (s s' : Session ρ) (reports : List ρ) : Prop where
  | refused (hdir : s.fs.IsDir file) (h : s' = s)
  | appended (hdir : ¬s.fs.IsDir file) (own : s'.own = s.own ++ reports)
      (node : ∀ q, s'.fs.node q = if q = file ∧ reports ≠ [] then
        some (.file (reportsIn s.fs file ++ reports)) else s.fs.node q)

section Writes

variable {file q : Path} {s s' s'' : Session ρ} {reports reports' : List ρ} {dir : Path}
  {filename : Text}

theorem reportsIn_of_node {fs : FileTree (List ρ)} (h : fs.node file = some (.file reports)) :
    reportsIn fs file = reports := by
  rw [reportsIn, h]

theorem reportsIn_of_not_isFile {fs : FileTree (List ρ)} (h : ¬fs.IsFile file) :
    reportsIn fs file = [] := by
  rw [reportsIn]
  split
  · next reports hfile => exact absurd ⟨reports, hfile⟩ h
  · rfl

theorem Writes.refl (file : Path) (s : Session ρ) : Writes file s s [] := by
  by_cases hdir : s.fs.IsDir file
  · exact .refused hdir rfl
  · exact .appended hdir (List.append_nil _).symm fun q ↦ by simp

namespace Writes

theorem isDir_iff (h : Writes file s s' reports) : s'.fs.IsDir q ↔ s.fs.IsDir q := by
  rcases h with ⟨-, rfl⟩ | ⟨hdir, -, hnode⟩
  · rfl
  · rw [FileTree.IsDir, hnode]
    split
    · next hq => exact iff_of_false (by simp) (hq.1 ▸ hdir)
    · rfl

theorem node_of_ne (h : Writes file s s' reports) (hq : q ≠ file) :
    s'.fs.node q = s.fs.node q := by
  rcases h with ⟨-, rfl⟩ | ⟨-, -, hnode⟩
  · rfl
  · rw [hnode, if_neg fun h ↦ hq h.1]

theorem trans (h : Writes file s s' reports) (h' : Writes file s' s'' reports') :
    Writes file s s'' (reports ++ reports') := by
  have hdir := h.isDir_iff (q := file)
  rcases h with ⟨hrefused, rfl⟩ | ⟨happended, hown, hnode⟩
  · rcases h' with ⟨-, rfl⟩ | ⟨hnot, -, -⟩
    · exact .refused hrefused rfl
    · exact absurd hrefused hnot
  · rcases h' with ⟨hrefused, -⟩ | ⟨-, hown', hnode'⟩
    · exact absurd (hdir.mp hrefused) happended
    · refine .appended happended (by rw [hown', hown, List.append_assoc]) fun q ↦ ?_
      rw [hnode', hnode q]
      by_cases hq : q = file
      · by_cases hreports : reports = []
        · have hsame : reportsIn s'.fs file = reportsIn s.fs file := by
            rw [reportsIn, hnode, if_neg fun h ↦ h.2 hreports, reportsIn]
          simp [hreports, hsame]
        · have hmore : reportsIn s'.fs file = reportsIn s.fs file ++ reports :=
            reportsIn_of_node ((hnode file).trans (if_pos ⟨rfl, hreports⟩))
          by_cases hreports' : reports' = []
          · simp [hq, hreports, hreports']
          · simp [hq, hreports, hreports', hmore]
      · simp [hq]

/-- What is at the file afterwards: a directory as before, a file, or nothing as before. -/
theorem outcome (h : Writes file s s' reports) :
    (s.fs.IsDir file ∧ s' = s) ∨
    ((s.fs.PathExists file ∨ reports ≠ []) ∧ s'.own = s.own ++ reports ∧
      s'.fs.node file = some (.file (reportsIn s.fs file ++ reports))) ∨
    (¬s.fs.PathExists file ∧ reports = [] ∧ s'.own = s.own ++ reports ∧ s'.fs = s.fs) := by
  rcases h with ⟨hrefused, hsame⟩ | ⟨happended, hown, hnode⟩
  · exact .inl ⟨hrefused, hsame⟩
  by_cases hreports : reports = []
  · by_cases hex : s.fs.PathExists file
    · obtain ⟨content, hfile⟩ := (FileTree.pathExists_iff.mp hex).resolve_left happended
      refine .inr (.inl ⟨.inl hex, hown, ?_⟩)
      rw [hnode, if_neg fun h ↦ h.2 hreports, hreports, List.append_nil, reportsIn_of_node hfile]
      exact hfile
    · exact .inr (.inr ⟨hex, hreports, hown, FileTree.ext_node fun q ↦ by
        rw [hnode, if_neg fun h ↦ h.2 hreports]⟩)
  · exact .inr (.inl ⟨.inr hreports, hown, (hnode file).trans (if_pos ⟨rfl, hreports⟩)⟩)

end Writes

theorem writable_join_iff {fs : FileTree (List ρ)} (hdir : fs.IsDir dir) :
    fs.Writable (dir.join filename) ↔ ¬fs.IsDir (dir.join filename) := by
  refine ⟨fun h ↦ h.not_isDir, fun h ↦ ?_⟩
  by_cases hname : filename = []
  · rw [Path.join, if_pos hname] at h
    exact absurd hdir h
  · rw [Path.join_of_ne_nil _ hname] at h ⊢
    exact writable_of_isDir hdir h

theorem writes_writeOutput (hdir : s.fs.IsDir dir) (filename : Text) (content : ρ) :
    Writes (dir.join filename) s (writeOutput dir filename s content) [content] := by
  simp only [writeOutput, dif_pos hdir.unobstructed, FileTree.makeDirs_of_isDir hdir]
  split
  · next hwritable =>
    refine .appended hwritable.not_isDir rfl fun q ↦ ?_
    simp [FileTree.write]
  · next hnot => exact .refused (not_not.mp (mt (writable_join_iff hdir).mpr hnot)) rfl

theorem writes_runCmd (hdir : s.fs.IsDir dir) (filename : Text) (cmd : CmdRun ρ) :
    Writes (dir.join filename) s (runCmd dir filename cmd s).1 cmd.reports := by
  rw [runCmd]
  generalize cmd.reports = reports
  induction reports generalizing s with
  | nil => exact Writes.refl _ s
  | cons content reports ih =>
    have hfirst := writes_writeOutput hdir filename content
    exact hfirst.trans (ih (hfirst.isDir_iff.mpr hdir))

/-- All commands succeed. -/
def Succeeds (cmds : List Text) (run : ℕ → CmdRun ρ) : Prop :=
  ∀ i < cmds.length, (run i).result = .success

/-- The reports that the commands write. -/
def ownReports (cmds : List Text) (run : ℕ → CmdRun ρ) : List ρ :=
  (List.range cmds.length).flatMap fun i ↦ (run i).reports

theorem ownReports_cons (cmd : Text) (cmds : List Text) (run : ℕ → CmdRun ρ) :
    ownReports (cmd :: cmds) run = (run 0).reports ++ ownReports cmds fun i ↦ run (i + 1) := by
  simp [ownReports, List.range_succ_eq_map, List.flatMap_map]

theorem succeeds_cons_iff (cmd : Text) (cmds : List Text) (run : ℕ → CmdRun ρ) :
    Succeeds (cmd :: cmds) run ↔
      (run 0).result = .success ∧ Succeeds cmds fun i ↦ run (i + 1) := by
  simp only [Succeeds, List.length_cons]
  constructor
  · intro h
    exact ⟨h 0 (Nat.succ_pos _), fun i hi ↦ h (i + 1) (Nat.succ_lt_succ hi)⟩
  · rintro ⟨h0, h⟩ (_ | i) hi
    · exact h0
    · exact h i (Nat.lt_of_succ_lt_succ hi)

theorem runCmds_success_iff (dir : Path) (filename : Text) (cmds : List Text)
    (run : ℕ → CmdRun ρ) (s : Session ρ) : (runCmds dir filename cmds run s).2 = true ↔ Succeeds cmds run := by
  induction cmds generalizing run s with
  | nil => simp [runCmds, Succeeds]
  | cons cmd cmds ih =>
    rw [succeeds_cons_iff, runCmds, runCmd]
    by_cases hresult : (run 0).result = .success
    · simp [hresult, ih]
    · simp [hresult]

/-- What the commands of a crate write, whether they succeed or not. -/
theorem writes_runCmds (hdir : s.fs.IsDir dir) (filename : Text) (cmds : List Text)
    (run : ℕ → CmdRun ρ) :
    ∃ reports, Writes (dir.join filename) s (runCmds dir filename cmds run s).1 reports ∧
      (Succeeds cmds run → reports = ownReports cmds run) := by
  induction cmds generalizing run s with
  | nil => exact ⟨[], Writes.refl _ s, fun _ ↦ rfl⟩
  | cons cmd cmds ih =>
    have hfirst := writes_runCmd hdir filename (run 0)
    rw [succeeds_cons_iff, ownReports_cons]
    by_cases hresult : (run 0).result = .success
    · obtain ⟨reports, hrest, hreports⟩ := ih (hfirst.isDir_iff.mpr hdir) fun i ↦ run (i + 1)
      have heq : runCmds dir filename (cmd :: cmds) run s
          = runCmds dir filename cmds (fun i ↦ run (i + 1)) (runCmd dir filename (run 0) s).1 := by
        rw [runCmds]
        exact if_pos (by simp [hresult])
      rw [heq]
      exact ⟨_, hfirst.trans hrest, fun h ↦ by rw [hreports h.2]⟩
    · have heq : runCmds dir filename (cmd :: cmds) run s
          = ((runCmd dir filename (run 0) s).1, false) := by
        rw [runCmds]
        exact if_neg (by simp [hresult])
      rw [heq]
      exact ⟨_, hfirst, fun h ↦ absurd h.1 hresult⟩

end Writes

/-! ## One call of `run_crate` -/

/-- The crate is found and not skipped, and all its commands succeed. -/
structure Completes (configs : List (Text × CrateConfig)) (entries : List (CrateName × Bool))
    (crateName : CrateName) (run : ℕ → CmdRun ρ) : Prop where
  isSome_crateDir : (crateDir entries crateName).isSome
  not_skip : (customConfig configs crateName).any CrateConfig.skip = false
  succeeds : Succeeds (commands (customConfig configs crateName)) run

instance (configs : List (Text × CrateConfig)) (entries : List (CrateName × Bool))
    (crateName : CrateName) (run : ℕ → CmdRun ρ) :
    Decidable (Completes configs entries crateName run) :=
  decidable_of_iff ((crateDir entries crateName).isSome ∧
    (customConfig configs crateName).any CrateConfig.skip = false ∧
    ∀ i < (commands (customConfig configs crateName)).length, (run i).result = .success)
    ⟨fun h ↦ ⟨h.1, h.2.1, h.2.2⟩, fun h ↦ ⟨h.1, h.2, h.3⟩⟩

/-- What is in the file of results besides the crate's own reports: what the output file contains
when the commands start, or the file in `/tmp` if there is no output file in the end. -/
def inherited (fs : FileTree (List ρ)) (outputDir : Path) (outputFile : Text) (own : List ρ) :
    List ρ :=
  if fs.PathExists (outputDir ++ [outputFile]) ∨ own ≠ [] then
    reportsIn fs (outputDir ++ [outputFile])
  else reportsIn fs (tmp ++ [outputFile])

section RunCrate

variable {configs : List (Text × CrateConfig)} {entries : List (CrateName × Bool)} {outputDir : Path}
  {exp exp' : Experiment} {crateName crateName' : CrateName} {run : ℕ → CmdRun ρ}
  {fs : FileTree (List ρ)}

/-- The session in which the commands of a crate end. -/
def finalSession (configs : List (Text × CrateConfig)) (outputDir : Path) (exp : Experiment)
    (crateName : CrateName) (run : ℕ → CmdRun ρ) (fs : FileTree (List ρ)) : Session ρ :=
  (runCmds outputDir exp.outputFile (commands (customConfig configs crateName)) run ⟨fs, []⟩).1

theorem runCrate_of_completes (h : Completes configs entries crateName run) :
    runCrate configs entries outputDir exp crateName run fs
      = match collect (finalSession configs outputDir exp crateName run fs).fs outputDir crateName
          exp.outputFile with
        | none => ⟨(finalSession configs outputDir exp crateName run fs).fs, true, none⟩
        | some fs' =>
          { fs := fs'
            raised := false
            produced :=
              if (found (finalSession configs outputDir exp crateName run fs).fs outputDir
                  exp.outputFile).isSome ∧
                fs'.IsFile (outputDir ++ [resultName crateName exp.outputFile]) then
                some (finalSession configs outputDir exp crateName run fs).own
              else none } := by
  obtain ⟨dir, hdir⟩ := Option.isSome_iff_exists.mp h.isSome_crateDir
  have hsuccess := (runCmds_success_iff outputDir exp.outputFile _ run ⟨fs, []⟩).mpr h.succeeds
  simp only [runCrate, hdir, h.not_skip, hsuccess, finalSession, if_true, Bool.false_eq_true,
    if_false]
  rfl

/-- A call that does not complete produces nothing; its commands may have written reports. -/
theorem runCrate_of_not_completes (exp : Experiment) (hdir : fs.IsDir outputDir)
    (h : ¬Completes configs entries crateName run) :
    (runCrate configs entries outputDir exp crateName run fs).produced = none ∧
      ∃ s reports, Writes (outputDir.join exp.outputFile) ⟨fs, []⟩ s reports ∧
        (runCrate configs entries outputDir exp crateName run fs).fs = s.fs := by
  rcases hcrate : crateDir entries crateName with _ | dir
  · simp only [runCrate, hcrate]
    exact ⟨trivial, ⟨fs, []⟩, [], Writes.refl _ _, rfl⟩
  by_cases hskip : (customConfig configs crateName).any CrateConfig.skip = true
  · simp only [runCrate, hcrate, hskip, if_true]
    exact ⟨trivial, ⟨fs, []⟩, [], Writes.refl _ _, rfl⟩
  · have hfail : ¬(runCmds outputDir exp.outputFile (commands (customConfig configs crateName)) run
        ⟨fs, []⟩).2 = true := by
      rw [runCmds_success_iff]
      exact fun hsuccess ↦ h ⟨by simp [hcrate], by simpa using hskip, hsuccess⟩
    obtain ⟨reports, hwrites, -⟩ := writes_runCmds (s := ⟨fs, []⟩) hdir exp.outputFile
      (commands (customConfig configs crateName)) run
    simp only [runCrate, hcrate, hskip, hfail, Bool.false_eq_true, if_false]
    exact ⟨trivial, _, reports, hwrites, rfl⟩

/-- The commands of a crate write to the output file only. -/
theorem writes_finalSession (exp : Experiment) (hdir : fs.IsDir outputDir)
    (h : Completes configs entries crateName run) :
    Writes (outputDir.join exp.outputFile) ⟨fs, []⟩
      (finalSession configs outputDir exp crateName run fs)
      (ownReports (commands (customConfig configs crateName)) run) := by
  obtain ⟨reports, hwrites, hreports⟩ := writes_runCmds (s := ⟨fs, []⟩) hdir exp.outputFile
    (commands (customConfig configs crateName)) run
  exact hreports h.succeeds ▸ hwrites

/-- A file that is found after the commands becomes the file of results. -/
theorem runCrate_of_isFile (hdir : fs.IsDir outputDir)
    (h : Completes configs entries crateName run)
    (hnew : ¬fs.IsDir (outputDir ++ [resultName crateName exp.outputFile])) {src : Path}
    {content : List ρ}
    (hfound : found (finalSession configs outputDir exp crateName run fs).fs outputDir
      exp.outputFile = some src)
    (hsrc : (finalSession configs outputDir exp crateName run fs).fs.node src
      = some (.file content)) :
    (runCrate configs entries outputDir exp crateName run fs).produced
        = some (finalSession configs outputDir exp crateName run fs).own ∧
      (runCrate configs entries outputDir exp crateName run fs).fs.node
        (outputDir ++ [resultName crateName exp.outputFile]) = some (.file content) := by
  have hwrites := writes_finalSession exp hdir h
  obtain ⟨fs', hcollect, hnode⟩ := collect_of_isFile (hwrites.isDir_iff.mpr hdir) hfound hsrc
    (mt hwrites.isDir_iff.mp hnew)
  have hfile : fs'.node (outputDir ++ [resultName crateName exp.outputFile])
      = some (.file content) := (hnode _).trans (if_pos rfl)
  rw [runCrate_of_completes h, hcollect]
  exact ⟨if_pos ⟨by simp [hfound], content, hfile⟩, hfile⟩

/-- Nothing is produced if a directory is found after the commands, or nothing. -/
theorem runCrate_of_not_isFile (hdir : fs.IsDir outputDir)
    (h : Completes configs entries crateName run)
    (hnot : ∀ src ∈ found (finalSession configs outputDir exp crateName run fs).fs outputDir
        exp.outputFile, (finalSession configs outputDir exp crateName run fs).fs.IsDir src ∨
      fs.IsDir (outputDir ++ [resultName crateName exp.outputFile])) :
    (runCrate configs entries outputDir exp crateName run fs).produced = none := by
  have hwrites := writes_finalSession exp hdir h
  rw [runCrate_of_completes h]
  split
  · rfl
  · next fs' hcollect =>
    refine if_neg fun hproduced ↦ ?_
    obtain ⟨src, hfound⟩ := Option.isSome_iff_exists.mp hproduced.1
    exact not_isFile_of_collect (hwrites.isDir_iff.mpr hdir) hfound
      ((hnot src hfound).imp_right hwrites.isDir_iff.mpr) hcollect hproduced.2

/-- What a call produces: a file with the inherited reports and its own. It produces one whenever
it inherits a report. -/
theorem runCrate_produced (hdir : fs.IsDir outputDir) (hname : exp.outputFile ≠ [])
    (h : Completes configs entries crateName run)
    (hnew : ¬fs.IsDir (outputDir ++ [resultName crateName exp.outputFile])) :
    let own := ownReports (commands (customConfig configs crateName)) run
    let r := runCrate configs entries outputDir exp crateName run fs
    r.produced = none ∧ inherited fs outputDir exp.outputFile own = [] ∨
      r.produced = some own ∧ r.fs.node (outputDir ++ [resultName crateName exp.outputFile])
        = some (.file (inherited fs outputDir exp.outputFile own ++ own)) := by
  intro own r
  have hwrites := writes_finalSession exp hdir h
  set s := finalSession configs outputDir exp crateName run fs with hs
  have hexpected : outputDir.join exp.outputFile = outputDir ++ [exp.outputFile] :=
    Path.join_of_ne_nil outputDir hname
  have hfallback : tmp.join exp.outputFile = tmp ++ [exp.outputFile] := Path.join_of_ne_nil tmp hname
  rw [hexpected] at hwrites
  -- the output file after the commands
  have hfound : s.fs.PathExists (outputDir ++ [exp.outputFile]) →
      found s.fs outputDir exp.outputFile = some (outputDir ++ [exp.outputFile]) := by
    intro hex
    rw [found, hexpected, if_pos ⟨hname, hex⟩]
  rcases hwrites.outcome with ⟨hdirectory, hsame⟩ | ⟨hwritten, hown, hcontent⟩ |
    ⟨habsent, hempty, hown, hfs⟩
  · -- the output file is a directory
    have hfs : s.fs = fs := congrArg Session.fs hsame
    have hex : fs.PathExists (outputDir ++ [exp.outputFile]) :=
      FileTree.IsDir.pathExists hdirectory
    refine Or.inl ⟨runCrate_of_not_isFile hdir h fun src hsrc ↦ Or.inl ?_, ?_⟩
    · rw [← hs, hfound (hfs ▸ hex), Option.mem_some_iff] at hsrc
      rw [← hs, ← hsrc, hfs]
      exact hdirectory
    · rw [inherited, if_pos (Or.inl hex)]
      exact reportsIn_of_not_isFile fun hfile ↦ hfile.not_isDir hdirectory
  · -- the output file is a file
    have hrun := runCrate_of_isFile hdir h hnew
      (hfound (FileTree.IsFile.pathExists ⟨_, hcontent⟩)) hcontent
    refine Or.inr ⟨hrun.1.trans (congrArg some hown), hrun.2.trans ?_⟩
    rw [inherited, if_pos hwritten]
  · -- there is no output file
    replace hfs : s.fs = fs := hfs
    replace hempty : own = [] := hempty
    have hfound' : found s.fs outputDir exp.outputFile
        = if fs.PathExists (tmp ++ [exp.outputFile]) then some (tmp ++ [exp.outputFile])
          else none := by
      rw [found, hexpected, hfallback, hfs, if_neg fun h ↦ habsent h.2]
    rw [inherited, if_neg (not_or.mpr ⟨habsent, not_not.mpr hempty⟩)]
    by_cases hfile : fs.IsFile (tmp ++ [exp.outputFile])
    · rw [if_pos hfile.pathExists] at hfound'
      obtain ⟨content, hcontent⟩ := hfile
      have hrun := runCrate_of_isFile hdir h hnew hfound' (hfs ▸ hcontent)
      refine Or.inr ⟨hrun.1.trans (congrArg some hown), hrun.2.trans ?_⟩
      rw [reportsIn_of_node hcontent, hempty, List.append_nil]
    · refine Or.inl ⟨runCrate_of_not_isFile hdir h fun src hsrc ↦ Or.inl ?_,
        reportsIn_of_not_isFile hfile⟩
      rw [← hs, hfound'] at hsrc
      split at hsrc
      · next hex =>
        rw [Option.mem_some_iff] at hsrc
        rw [← hs, hfs, ← hsrc]
        exact (FileTree.pathExists_iff.mp hex).resolve_right hfile
      · exact absurd hsrc (by simp)

theorem join_outputFile_ne (outputDir : Path) (exp exp' : Experiment) (crateName : Text) :
    outputDir ++ [resultName crateName exp.outputFile] ≠ outputDir.join exp'.outputFile := by
  rw [Path.join]
  split
  · simp
  · intro heq
    exact resultName_ne_outputFile crateName exp exp' (by simpa using heq)

/-- A call leaves the files of results of all other calls alone, and its own if it produces
nothing. -/
theorem runCrate_node (hdir : fs.IsDir outputDir)
    (hp : fs.IsFile (outputDir ++ [resultName crateName' exp'.outputFile]))
    (hother : crateName' = crateName ∧ exp' = exp →
      (runCrate configs entries outputDir exp crateName run fs).produced = none) :
    (runCrate configs entries outputDir exp crateName run fs).fs.node
        (outputDir ++ [resultName crateName' exp'.outputFile])
      = fs.node (outputDir ++ [resultName crateName' exp'.outputFile]) := by
  have hne := join_outputFile_ne outputDir exp' exp crateName'
  by_cases h : Completes configs entries crateName run
  · have hwrites := writes_finalSession exp hdir h
    set s := finalSession configs outputDir exp crateName run fs with hs
    have hsame := hwrites.node_of_ne hne
    have hfs : (runCrate configs entries outputDir exp crateName run fs).fs
        = (collect s.fs outputDir crateName exp.outputFile).getD s.fs := by
      rw [runCrate_of_completes h]
      split
      · next hnone => rw [hnone, Option.getD_none]
      · next fs' hsome => rw [hsome, Option.getD_some]
    rw [hfs, ← hsame]
    have hp' : s.fs.IsFile (outputDir ++ [resultName crateName' exp'.outputFile]) := by
      obtain ⟨content, hcontent⟩ := hp
      exact ⟨content, hsame.trans hcontent⟩
    refine collect_node (hwrites.isDir_iff.mpr hdir) hp' (fun hfound ↦ ?_) fun hname src hsrc ↦ ?_
    · exact resultName_ne_found hfound crateName' exp' rfl
    · by_contra hnot
      obtain ⟨content, hcontent⟩ :=
        (FileTree.pathExists_iff.mp (pathExists_of_found hsrc)).resolve_left hnot
      rw [hname] at hp
      have hproduced := (runCrate_of_isFile hdir h hp.not_isDir hsrc hcontent).1
      obtain ⟨hcrate, hexp⟩ := resultName_inj hname
      rw [hother ⟨Subtype.ext hcrate, hexp⟩] at hproduced
      exact absurd hproduced (by simp)
  · obtain ⟨-, s, reports, hwrites, hfs⟩ := runCrate_of_not_completes exp hdir h
    rw [hfs]
    exact hwrites.node_of_ne hne

theorem runCrate_isDir (hdir : fs.IsDir outputDir) :
    (runCrate configs entries outputDir exp crateName run fs).fs.IsDir outputDir := by
  by_cases h : Completes configs entries crateName run
  · have hwrites := writes_finalSession exp hdir h
    have hcollected := collect_isDir (hwrites.isDir_iff.mpr hdir) crateName exp
    rw [runCrate_of_completes h]
    split
    · next hnone => rwa [hnone, Option.getD_none] at hcollected
    · next fs' hsome => rwa [hsome, Option.getD_some] at hcollected
  · obtain ⟨-, s, reports, hwrites, hfs⟩ := runCrate_of_not_completes exp hdir h
    rw [hfs]
    exact hwrites.isDir_iff.mpr hdir

end RunCrate

/-! ## The execution loop -/

/-- Every file of results that has been produced contains exactly the reports that were appended
while the commands of its crate ran. -/
def Attributed (outputDir : Path) (s : State ρ) : Prop :=
  ∀ exp crateName own, exp.outputFile ≠ [] → s.results exp crateName = some own →
    s.fs.node (outputDir ++ [resultName crateName exp.outputFile]) = some (.file own)

/-- If the step produces a file of results, it inherits no report. -/
def Clean (configs : List (Text × CrateConfig)) (entries : List (CrateName × Bool))
    (outputDir : Path) (s : State ρ) : Step ρ → Prop
  | .buildPerf _ _ => True
  | .runCrate exp crateName run =>
    s.running = true → exp.outputFile ≠ [] → Completes configs entries crateName run →
      ¬s.fs.IsDir (outputDir ++ [resultName crateName exp.outputFile]) →
        inherited s.fs outputDir exp.outputFile
          (ownReports (commands (customConfig configs crateName)) run) = []

instance (configs : List (Text × CrateConfig)) (entries : List (CrateName × Bool))
    (outputDir : Path) (s : State ρ) :
    (st : Step ρ) → Decidable (Clean configs entries outputDir s st)
  | .buildPerf _ _ => isTrue trivial
  | .runCrate _ _ _ => inferInstanceAs (Decidable (_ → _ → _ → _ → _ = []))

section Steps

variable {configs : List (Text × CrateConfig)} {entries : List (CrateName × Bool)} {outputDir : Path}
  {s : State ρ} {st : Step ρ}

theorem step_isDir (hdir : s.fs.IsDir outputDir) (st : Step ρ) :
    (step configs entries outputDir s st).fs.IsDir outputDir := by
  cases st with
  | buildPerf exp success =>
    rw [step]
    split
    · exact hdir
    · exact hdir
  | runCrate exp crateName run =>
    rw [step]
    split
    · exact runCrate_isDir hdir
    · exact hdir

/-- A clean step keeps the results attributed. -/
theorem step_attributed (hdir : s.fs.IsDir outputDir) (h : Attributed outputDir s)
    (hclean : Clean configs entries outputDir s st) :
    Attributed outputDir (step configs entries outputDir s st) := by
  cases st with
  | buildPerf exp success =>
    rw [step]
    split
    · exact h
    · exact h
  | runCrate exp crateName run =>
    by_cases hrunning : s.running = true
    swap
    · rwa [step, if_neg hrunning]
    rw [step, if_pos hrunning]
    intro exp' crateName' own hname hresults
    dsimp only at hresults ⊢
    split at hresults
    · -- the file of results that the call produces
      next hnow =>
      obtain ⟨rfl, rfl, -⟩ := hnow
      -- it has produced one, so it has completed and nothing was in its way
      have hcompletes : Completes configs entries crateName' run := by
        by_contra hnot
        rw [(runCrate_of_not_completes _ hdir hnot).1] at hresults
        exact absurd hresults (by simp)
      have hnew : ¬s.fs.IsDir (outputDir ++ [resultName crateName' exp'.outputFile]) := by
        intro hnew
        rw [runCrate_of_not_isFile hdir hcompletes fun src _ ↦ Or.inr hnew] at hresults
        exact absurd hresults (by simp)
      rcases runCrate_produced hdir hname hcompletes hnew with ⟨hnone, -⟩ | ⟨hsome, hnode⟩
      · rw [hnone] at hresults
        exact absurd hresults (by simp)
      · rw [hsome, Option.some_inj] at hresults
        rwa [hclean hrunning hname hcompletes hnew, List.nil_append, hresults] at hnode
    · -- an older file of results
      next hold =>
      have hfile := h exp' crateName' own hname hresults
      rw [← hfile]
      refine runCrate_node hdir ⟨own, hfile⟩ fun heq ↦ ?_
      rw [← Option.not_isSome_iff_eq_none]
      exact fun hsome ↦ hold ⟨heq.2, heq.1, hsome⟩

/-- A step after which the results are attributed was clean. -/
theorem clean_of_attributed (hdir : s.fs.IsDir outputDir)
    (h : Attributed outputDir (step configs entries outputDir s st)) :
    Clean configs entries outputDir s st := by
  cases st with
  | buildPerf exp success => trivial
  | runCrate exp crateName run =>
    intro hrunning hname hcompletes hnew
    rcases runCrate_produced hdir hname hcompletes hnew with ⟨-, hnil⟩ | ⟨hsome, hnode⟩
    · exact hnil
    · have hresult := h exp crateName _ hname (by
        rw [step, if_pos hrunning]
        exact (if_pos ⟨rfl, rfl, by rw [hsome]; rfl⟩).trans hsome)
      rw [step, if_pos hrunning, hnode, Option.some_inj, Node.file.injEq] at hresult
      exact List.append_left_eq_self.mp hresult

variable (configs entries outputDir)

theorem runSteps_take_succ (s : State ρ) (steps : List (Step ρ)) (n : ℕ) :
    runSteps configs entries outputDir s (steps.take (n + 1))
      = (steps[n]?).elim (runSteps configs entries outputDir s (steps.take n))
          (step configs entries outputDir (runSteps configs entries outputDir s (steps.take n))) := by
  rw [runSteps, runSteps, List.take_add_one, List.foldl_append]
  rcases steps[n]? with _ | st <;> rfl

theorem runSteps_isDir (hdir : s.fs.IsDir outputDir) (steps : List (Step ρ)) :
    (runSteps configs entries outputDir s steps).fs.IsDir outputDir := by
  induction steps generalizing s with
  | nil => exact hdir
  | cons st steps ih => exact ih (step_isDir hdir st)

/-- Over a whole run. -/
theorem runSteps_attributed_iff (hdir : s.fs.IsDir outputDir) (hs : Attributed outputDir s)
    (steps : List (Step ρ)) :
    (∀ n, Attributed outputDir (runSteps configs entries outputDir s (steps.take n))) ↔
      ∀ n, ∀ st ∈ steps[n]?,
        Clean configs entries outputDir (runSteps configs entries outputDir s (steps.take n)) st := by
  constructor
  · intro h n st hst
    have hnext := h (n + 1)
    rw [runSteps_take_succ, hst] at hnext
    exact clean_of_attributed (runSteps_isDir configs entries outputDir hdir _) hnext
  · intro h n
    induction n with
    | zero => exact hs
    | succ n ih =>
      rw [runSteps_take_succ]
      rcases hst : steps[n]? with _ | st
      · exact ih
      · exact step_attributed (runSteps_isDir configs entries outputDir hdir _) ih (h n st hst)

theorem attributed_start (fs : FileTree (List ρ)) : Attributed outputDir (start fs) :=
  fun _ _ _ _ h ↦ absurd h (by simp [start])

/-- The files of results contain exactly their crate's own reports in every state of the execution
loop if and only if no file of results inherits a report. -/
theorem results_attributed_iff (fs : FileTree (List ρ)) (hdir : fs.IsDir outputDir)
    (experiments : List Experiment) (crates : List CrateName) (builds : Experiment → Bool)
    (runs : Experiment → ℕ → ℕ → CmdRun ρ) :
    (∀ n, Attributed outputDir (runSteps configs entries outputDir (start fs)
        ((executionLoop experiments crates builds runs).take n))) ↔
      ∀ n, ∀ st ∈ (executionLoop experiments crates builds runs)[n]?,
        Clean configs entries outputDir (runSteps configs entries outputDir (start fs)
          ((executionLoop experiments crates builds runs).take n)) st :=
  runSteps_attributed_iff configs entries outputDir hdir (attributed_start outputDir fs) _

end Steps

/-! ## Two crates -/

/-- The crate that is run first. -/
def alpha : CrateName := ⟨"alpha".toList, by decide⟩

/-- The crate that is run after it. -/
def beta : CrateName := ⟨"beta".toList, by decide⟩

/-- The first command of each crate writes one report; for the first crate it ends as given. -/
def twoCrates (first : CmdResult) (_exp : Experiment) (crate cmd : ℕ) : CmdRun ℕ :=
  ⟨if cmd = 0 then [crate] else [], if crate = 0 ∧ cmd = 0 then first else .success⟩

/-- The steps of a coverage run of two crates. -/
def coverageOfTwoCrates (first : CmdResult) : List (Step ℕ) :=
  executionLoop [.coverage] [alpha, beta] (fun _ ↦ true) (twoCrates first)

/-- The state after some steps. -/
def runTwoCrates (steps : List (Step ℕ)) : State ℕ :=
  runSteps (crateConfigs "/root".toList) [(alpha, true), (beta, true)]
    ["results".toList] (start emptyDirs) steps

theorem results_attributed_iff_twoCrates :
    emptyDirs.IsDir ["results".toList] ∧
    ∀ n, Attributed ["results".toList] (runTwoCrates ((coverageOfTwoCrates .success).take n)) := by
  have hdir : emptyDirs.IsDir ["results".toList] := by decide +kernel
  refine ⟨hdir, (results_attributed_iff _ _ _ emptyDirs hdir [.coverage]
    [alpha, beta] (fun _ ↦ true) (twoCrates .success)).mpr fun n ↦ ?_⟩
  have hclean : ∀ n < 3, ∀ st ∈ (coverageOfTwoCrates .success)[n]?,
      Clean (crateConfigs "/root".toList) [(alpha, true), (beta, true)]
        ["results".toList] (runTwoCrates ((coverageOfTwoCrates .success).take n)) st := by
    decide +kernel
  rcases Nat.lt_or_ge n 3 with hn | hn
  · exact hclean n hn
  · intro st hst
    have hnone : (coverageOfTwoCrates .success)[n]? = none := List.getElem?_eq_none hn
    exact absurd (hnone.symm.trans hst) (by simp)

/-- The report of a crate that fails ends up in the results of the next crate. -/
theorem results_not_attributed :
    ¬Attributed ["results".toList] (runTwoCrates (coverageOfTwoCrates .failed)) := by
  intro h
  have hown : (runTwoCrates (coverageOfTwoCrates .failed)).results .coverage beta
      = some [1] := by decide +kernel
  have hfile := reportsIn_of_node (h .coverage beta [1] (by decide +kernel) hown)
  have hboth : reportsIn (runTwoCrates (coverageOfTwoCrates .failed)).fs
      (["results".toList] ++ [resultName beta Experiment.coverage.outputFile]) = [0, 1] := by
    decide +kernel
  rw [hboth] at hfile
  exact absurd hfile (by decide)

end UnsafePerf.Pipeline
