import UnsafePerf.Text.Lines
import Mathlib.Data.List.Infix

/-!
# File trees

A file tree says of each path whether nothing is there, a directory, or a file with its content.
Whatever exists stands in a directory: `FileTree.parent` is part of the type, so no operation can
leave an orphan behind.

`FileTree.move` is Python's `shutil.move`; `none` is an exception, and then nothing has changed.
`FileTree.Movable` says when it moves something, `FileTree.Movable.exists_move` what the tree is then,
and `FileTree.move_getD_of_not_movable` that otherwise the tree stays as it is.

There are no links, permissions or mount points here, and a path is absolute and normalised.
-/

namespace Files

/-- A path: its components from the root. -/
abbrev Path := List Text

namespace Path

/-- A name below a path; the empty name adds nothing. -/
def join (p : Path) (name : Text) : Path := if name = [] then p else p ++ [name]

theorem join_of_ne_nil (p : Path) {name : Text} (h : name ≠ []) : p.join name = p ++ [name] :=
  if_neg h

theorem prefix_join (p : Path) (name : Text) : p <+: p.join name := by
  rw [join]
  split
  · exact List.prefix_refl p
  · exact List.prefix_append p [name]

/-- The last component. -/
def basename (p : Path) : Text := p.getLastD []

end Path

/-- What is at a path. -/
inductive Node (κ : Type) where
  | dir
  | file (content : κ)

/-- A file tree whose files contain `κ`. -/
structure FileTree (κ : Type) where
  node : Path → Option (Node κ)
  root : node [] = some .dir
  parent : ∀ p name, node (p ++ [name]) ≠ none → node p = some .dir

namespace FileTree

variable {κ : Type} {fs fs' : FileTree κ} {p q src dst : Path}

theorem ext_node (h : ∀ p, fs.node p = fs'.node p) : fs = fs' := by
  cases fs
  cases fs'
  simpa using funext h

/-- Whether something is at the path. -/
def PathExists (fs : FileTree κ) (p : Path) : Prop := (fs.node p).isSome

/-- Whether a directory is at the path. -/
def IsDir (fs : FileTree κ) (p : Path) : Prop := fs.node p = some .dir

/-- Whether a file is at the path. -/
def IsFile (fs : FileTree κ) (p : Path) : Prop := ∃ c, fs.node p = some (.file c)

instance : Decidable (fs.PathExists p) := inferInstanceAs (Decidable (_ = true))

instance : Decidable (fs.IsDir p) :=
  match h : fs.node p with
  | some .dir => isTrue h
  | some (.file _) => isFalse (by simp [IsDir, h])
  | none => isFalse (by simp [IsDir, h])

instance : Decidable (fs.IsFile p) :=
  match h : fs.node p with
  | some (.file c) => isTrue ⟨c, h⟩
  | some .dir => isFalse (by simp [IsFile, h])
  | none => isFalse (by simp [IsFile, h])

theorem pathExists_iff : fs.PathExists p ↔ fs.IsDir p ∨ fs.IsFile p := by
  rw [PathExists, IsDir, IsFile]
  rcases fs.node p with _ | _ | c <;> simp

theorem IsDir.pathExists (h : fs.IsDir p) : fs.PathExists p := pathExists_iff.mpr (Or.inl h)

theorem IsFile.pathExists (h : fs.IsFile p) : fs.PathExists p := pathExists_iff.mpr (Or.inr h)

theorem IsFile.not_isDir (h : fs.IsFile p) : ¬fs.IsDir p := by
  obtain ⟨c, hc⟩ := h
  simp [IsDir, hc]

theorem node_eq_none_iff : fs.node p = none ↔ ¬fs.PathExists p := by
  simp [PathExists]

theorem isDir_root (fs : FileTree κ) : fs.IsDir [] := fs.root

/-- What is above something is a directory. -/
theorem isDir_above (h : p <+: q) (hne : p ≠ q) (hq : fs.PathExists q) : fs.IsDir p := by
  obtain ⟨r, rfl⟩ := h
  induction r using List.reverseRecOn with
  | nil => exact absurd (List.append_nil p).symm hne
  | append_singleton r name ih =>
    rw [← List.append_assoc] at hq
    have hdir : fs.IsDir (p ++ r) := fs.parent _ _ (Option.isSome_iff_ne_none.mp hq)
    by_cases hr : r = []
    · rwa [hr, List.append_nil] at hdir
    · exact ih (by simp [hr]) hdir.pathExists

/-- Nothing is below a file. -/
theorem IsFile.eq_of_below (h : fs.IsFile p) (hpq : p <+: q) (hq : fs.PathExists q) : p = q :=
  not_not.mp fun hne ↦ h.not_isDir (isDir_above hpq hne hq)

/-! ## Elementary operations -/

/-- The tree of a root directory. -/
def empty (κ : Type) : FileTree κ where
  node p := if p = [] then some .dir else none
  root := rfl
  parent p name h := absurd (if_neg (by simp)) h

/-- No file is at the path or above it. -/
def Unobstructed (fs : FileTree κ) (p : Path) : Prop := ∀ q ∈ p.inits, ¬fs.IsFile q

instance : Decidable (fs.Unobstructed p) := inferInstanceAs (Decidable (∀ q ∈ _, _))

theorem Unobstructed.not_isFile (h : fs.Unobstructed p) (hq : q <+: p) : ¬fs.IsFile q :=
  h q ((List.mem_inits q p).mpr hq)

theorem IsDir.unobstructed (h : fs.IsDir p) : fs.Unobstructed p := by
  intro q hq hfile
  rw [hfile.eq_of_below ((List.mem_inits q p).mp hq) h.pathExists] at hfile
  exact hfile.not_isDir h

/-- Make a directory and what is missing above it. -/
def makeDirs (fs : FileTree κ) (p : Path) (_h : fs.Unobstructed p) : FileTree κ where
  node q := if q <+: p then some .dir else fs.node q
  root := if_pos List.nil_prefix
  parent q name hq := by
    by_cases hqp : q <+: p
    · exact if_pos hqp
    · have hname : ¬(q ++ [name]) <+: p := fun h ↦ hqp ((List.prefix_append q [name]).trans h)
      rw [if_neg hname] at hq
      rw [if_neg hqp]
      exact fs.parent q name hq

theorem makeDirs_of_isDir (h : fs.IsDir p) : fs.makeDirs p h.unobstructed = fs := by
  refine ext_node fun q ↦ ?_
  by_cases hq : q <+: p
  · have hdir : fs.IsDir q := by
      by_cases hne : q = p
      · rwa [hne]
      · exact isDir_above hq hne h.pathExists
    exact (if_pos hq).trans hdir.symm
  · exact if_neg hq

/-- A file can be written at the path: its directory exists, and it is not a directory itself. -/
structure Writable (fs : FileTree κ) (p : Path) : Prop where
  dropLast : fs.IsDir p.dropLast
  not_isDir : ¬fs.IsDir p

instance : Decidable (fs.Writable p) :=
  decidable_of_iff (fs.IsDir p.dropLast ∧ ¬fs.IsDir p) ⟨fun h ↦ ⟨h.1, h.2⟩, fun h ↦ ⟨h.1, h.2⟩⟩

theorem Writable.ne_nil (h : fs.Writable p) : p ≠ [] :=
  fun hp ↦ h.not_isDir (hp ▸ fs.isDir_root)

/-- Write a file. -/
def write (fs : FileTree κ) (p : Path) (content : κ) (h : fs.Writable p) : FileTree κ where
  node q := if q = p then some (.file content) else fs.node q
  root := (if_neg h.ne_nil.symm).trans fs.root
  parent q name hq := by
    have hdir : fs.IsDir q := by
      by_cases hp : q ++ [name] = p
      · simpa [← hp] using h.dropLast
      · rw [if_neg hp] at hq
        exact fs.parent q name hq
    have hne : q ≠ p := fun heq ↦ h.not_isDir (heq ▸ hdir)
    exact (if_neg hne).trans hdir

/-- Remove a file. -/
def remove (fs : FileTree κ) (p : Path) (h : fs.IsFile p) : FileTree κ where
  node q := if q = p then none else fs.node q
  root := by
    have hne : ([] : Path) ≠ p := fun heq ↦ h.not_isDir (heq ▸ fs.isDir_root)
    exact (if_neg hne).trans fs.root
  parent q name hq := by
    have hname : q ++ [name] ≠ p := fun heq ↦ hq (if_pos heq)
    rw [if_neg hname] at hq
    have hdir : fs.IsDir q := fs.parent q name hq
    have hne : q ≠ p := fun heq ↦ h.not_isDir (heq ▸ hdir)
    exact (if_neg hne).trans hdir

theorem Writable.remove (h : fs.Writable q) (hp : fs.IsFile p) : (fs.remove p hp).Writable q where
  dropLast := by
    have hne : q.dropLast ≠ p := fun heq ↦ hp.not_isDir (heq ▸ h.dropLast)
    exact (if_neg hne).trans h.dropLast
  not_isDir hdir := by
    by_cases hne : q = p
    · simp [IsDir, FileTree.remove, hne] at hdir
    · exact h.not_isDir ((if_neg hne).symm.trans hdir)

/-- A directory can be placed at the path: nothing is there, no file is above it, and it is not
inside the directory. -/
structure Placeable (fs : FileTree κ) (src dst : Path) : Prop where
  ne_nil : src ≠ []
  isDir : fs.IsDir src
  outside : ¬src <+: dst
  free : ¬fs.PathExists dst
  unobstructed : fs.Unobstructed dst

instance : Decidable (fs.Placeable src dst) :=
  decidable_of_iff (src ≠ [] ∧ fs.IsDir src ∧ ¬src <+: dst ∧ ¬fs.PathExists dst ∧
    fs.Unobstructed dst) ⟨fun h ↦ ⟨h.1, h.2.1, h.2.2.1, h.2.2.2.1, h.2.2.2.2⟩,
      fun h ↦ ⟨h.1, h.2, h.3, h.4, h.5⟩⟩

/-- Move a directory with all it contains; what is missing above its new place is made. -/
def moveDir (fs : FileTree κ) (src dst : Path) (h : fs.Placeable src dst) : FileTree κ where
  node q :=
    if dst <+: q then fs.node (src ++ q.drop dst.length)
    else if src <+: q then none
    else if q <+: dst then some .dir
    else fs.node q
  root := by
    have hdst : ¬dst <+: [] := fun hdst ↦ h.free (List.prefix_nil.mp hdst ▸ fs.isDir_root.pathExists)
    have hsrc : ¬src <+: [] := fun hsrc ↦ h.ne_nil (List.prefix_nil.mp hsrc)
    rw [if_neg hdst, if_neg hsrc, if_pos List.nil_prefix]
  parent q name hq := by
    by_cases hdst : dst <+: q
    · -- inside the moved directory
      obtain ⟨r, rfl⟩ := hdst
      rw [if_pos ((List.prefix_append dst r).trans (List.prefix_append _ _)), List.append_assoc,
        List.drop_left, ← List.append_assoc] at hq
      rw [if_pos (List.prefix_append dst r), List.drop_left]
      exact fs.parent _ _ hq
    rw [if_neg hdst]
    by_cases hname : dst <+: q ++ [name]
    · -- the new place itself
      have heq : dst = q ++ [name] := (List.prefix_concat_iff.mp hname).resolve_right hdst
      have hqdst : q <+: dst := heq ▸ List.prefix_append q [name]
      rw [if_neg fun hsrc ↦ h.outside (hsrc.trans hqdst), if_pos hqdst]
    · rw [if_neg hname] at hq
      have hsrc : ¬src <+: q ++ [name] := fun hsrc ↦ hq (if_pos hsrc)
      rw [if_neg hsrc] at hq
      rw [if_neg fun h' ↦ hsrc (h'.trans (List.prefix_append q [name]))]
      by_cases hqdst : q <+: dst
      · exact if_pos hqdst
      · have hnot : ¬q ++ [name] <+: dst := fun h' ↦ hqdst ((List.prefix_append q [name]).trans h')
        rw [if_neg hnot] at hq
        exact (if_neg hqdst).trans (fs.parent q name hq)

/-! ## `shutil.move` -/

/-- Rename, or copy and remove where the directory of the new place is missing. -/
def relocate (fs : FileTree κ) (src dst : Path) : Option (FileTree κ) :=
  match h : fs.node src with
  | none => none
  | some (.file content) =>
    if hdst : fs.Writable dst then
      some ((fs.remove src ⟨content, h⟩).write dst content (hdst.remove ⟨content, h⟩))
    else none
  | some .dir => if hdst : fs.Placeable src dst then some (fs.moveDir src dst hdst) else none

/-- `shutil.move`. -/
def move (fs : FileTree κ) (src dst : Path) : Option (FileTree κ) :=
  if fs.IsDir dst then
    if src = dst then some fs
    else if fs.PathExists (dst.join src.basename) then none
    else fs.relocate src (dst.join src.basename)
  else fs.relocate src dst

/-- Where `shutil.move` puts what it moves: inside the destination if that is a directory. -/
def place (fs : FileTree κ) (src dst : Path) : Path :=
  if fs.IsDir dst then dst.join src.basename else dst

/-- `shutil.move` moves something. -/
structure Movable (fs : FileTree κ) (src dst : Path) : Prop where
  ne : src ≠ dst
  free : fs.IsDir dst → ¬fs.PathExists (dst.join src.basename)
  accepted : fs.IsFile src ∧ fs.Writable (fs.place src dst) ∨
    fs.Placeable src (fs.place src dst)

instance : Decidable (fs.Movable src dst) :=
  decidable_of_iff (src ≠ dst ∧ (fs.IsDir dst → ¬fs.PathExists (dst.join src.basename)) ∧
    (fs.IsFile src ∧ fs.Writable (fs.place src dst) ∨ fs.Placeable src (fs.place src dst)))
    ⟨fun h ↦ ⟨h.1, h.2.1, h.2.2⟩, fun h ↦ ⟨h.1, h.2, h.3⟩⟩

/-- The second tree is the first after something was moved from `src` to `dst`. -/
inductive Relocated (fs fs' : FileTree κ) (src dst : Path) : Prop where
  | file {content : κ} (hsrc : fs.node src = some (.file content)) (hdst : fs.Writable dst)
      (node : ∀ q, fs'.node q
        = if q = dst then some (.file content) else if q = src then none else fs.node q)
  | dir (hdst : fs.Placeable src dst)
      (node : ∀ q, fs'.node q
        = if dst <+: q then fs.node (src ++ q.drop dst.length)
          else if src <+: q then none
          else if q <+: dst then some .dir
          else fs.node q)

theorem relocate_of_isFile (h : fs.IsFile src) (dst : Path) :
    (∃ fs', fs.relocate src dst = some fs' ∧ fs.Writable dst ∧ fs.Relocated fs' src dst) ∨
      fs.relocate src dst = none ∧ ¬fs.Writable dst := by
  obtain ⟨content, hc⟩ := h
  rw [relocate]
  split
  · next hnone => simp [hnone] at hc
  · next content' hc' =>
    split
    · next hdst => exact Or.inl ⟨_, rfl, hdst, .file hc' hdst fun q ↦ rfl⟩
    · next hdst => exact Or.inr ⟨rfl, hdst⟩
  · next hdir => simp [hdir] at hc

theorem relocate_of_isDir (h : fs.IsDir src) (dst : Path) :
    (∃ fs', fs.relocate src dst = some fs' ∧ fs.Relocated fs' src dst) ∨
      fs.relocate src dst = none ∧ ¬fs.Placeable src dst := by
  rw [IsDir] at h
  rw [relocate]
  split
  · next hnone => simp [hnone] at h
  · next content hc => simp [hc] at h
  · split
    · next hdst => exact Or.inl ⟨_, rfl, .dir hdst fun q ↦ rfl⟩
    · next hdst => exact Or.inr ⟨rfl, hdst⟩

theorem relocate_of_not_pathExists (h : ¬fs.PathExists src) : fs.relocate src dst = none := by
  have hnone := node_eq_none_iff.mpr h
  rw [relocate]
  split
  · rfl
  · next content hc => simp [hc] at hnone
  · next hdir => simp [hdir] at hnone

namespace Movable

variable (h : fs.Movable src dst)

include h

theorem pathExists : fs.PathExists src :=
  h.accepted.elim (fun hfile ↦ hfile.1.pathExists) fun hdir ↦ hdir.isDir.pathExists

theorem ne_place : src ≠ fs.place src dst := by
  rw [place]
  split
  · next hdst =>
    intro heq
    exact h.free hdst (heq ▸ h.pathExists)
  · exact h.ne

theorem move_eq : fs.move src dst = fs.relocate src (fs.place src dst) := by
  rw [move, place]
  split
  · next hdst => rw [if_neg h.ne, if_neg (h.free hdst)]
  · rfl

/-- What `shutil.move` does when it moves something. -/
theorem exists_move : ∃ fs', fs.move src dst = some fs' ∧ fs.Relocated fs' src (fs.place src dst) := by
  rw [h.move_eq]
  rcases h.accepted with ⟨hfile, hdst⟩ | hdst
  · rcases relocate_of_isFile hfile (fs.place src dst) with ⟨fs', heq, -, hrel⟩ | ⟨-, hnot⟩
    · exact ⟨fs', heq, hrel⟩
    · exact absurd hdst hnot
  · rcases relocate_of_isDir hdst.isDir (fs.place src dst) with ⟨fs', heq, hrel⟩ | ⟨-, hnot⟩
    · exact ⟨fs', heq, hrel⟩
    · exact absurd hdst hnot

end Movable

/-- A file that is moved onto itself stays. -/
theorem relocate_self (h : ¬fs.IsDir src) : (fs.relocate src src).getD fs = fs := by
  by_cases hfile : fs.IsFile src
  · rcases relocate_of_isFile hfile src with ⟨fs', heq, hdst, hrel⟩ | ⟨heq, -⟩
    · rw [heq, Option.getD_some]
      refine ext_node fun q ↦ ?_
      rcases hrel with ⟨hsrc, -, hnode⟩ | ⟨hdir, -⟩
      · rw [hnode]
        split
        · next hq => rw [hq, hsrc]
        · rfl
      · exact absurd hdir.isDir h
    · rw [heq, Option.getD_none]
  · rw [relocate_of_not_pathExists fun hex ↦ (pathExists_iff.mp hex).elim h hfile, Option.getD_none]

/-- Otherwise `shutil.move` leaves the tree as it is, whether it raises an exception or not. -/
theorem move_getD_of_not_movable (h : ¬fs.Movable src dst) : (fs.move src dst).getD fs = fs := by
  have hrefused : src ≠ dst → (fs.IsDir dst → ¬fs.PathExists (dst.join src.basename)) →
      fs.relocate src (fs.place src dst) = none := by
    intro hne hfree
    by_cases hsrc : fs.PathExists src
    · rcases pathExists_iff.mp hsrc with hdir | hfile
      · rcases relocate_of_isDir hdir (fs.place src dst) with ⟨_, -, hrel⟩ | ⟨heq, -⟩
        · rcases hrel with ⟨hcontent, -, -⟩ | ⟨hdst, -⟩
          · exact absurd hdir (IsFile.not_isDir ⟨_, hcontent⟩)
          · exact absurd ⟨hne, hfree, Or.inr hdst⟩ h
        · exact heq
      · rcases relocate_of_isFile hfile (fs.place src dst) with ⟨_, -, hdst, -⟩ | ⟨heq, -⟩
        · exact absurd ⟨hne, hfree, Or.inl ⟨hfile, hdst⟩⟩ h
        · exact heq
    · exact relocate_of_not_pathExists hsrc
  rw [move]
  by_cases hdst : fs.IsDir dst
  · rw [if_pos hdst]
    by_cases hne : src = dst
    · rw [if_pos hne, Option.getD_some]
    · rw [if_neg hne]
      by_cases hfree : fs.PathExists (dst.join src.basename)
      · rw [if_pos hfree, Option.getD_none]
      · rw [if_neg hfree]
        have hnone := hrefused hne fun _ ↦ hfree
        rw [place, if_pos hdst] at hnone
        rw [hnone, Option.getD_none]
  · rw [if_neg hdst]
    by_cases hne : src = dst
    · rw [hne]
      exact relocate_self hdst
    · have hnone := hrefused hne fun hdir ↦ absurd hdir hdst
      rw [place, if_neg hdst] at hnone
      rw [hnone, Option.getD_none]

namespace Relocated

variable (h : fs.Relocated fs' src dst)

include h

/-- What is neither moved nor overwritten stays. -/
theorem node_eq (hp : fs.PathExists p) (hsrc : ¬src <+: p) (hdst : p ≠ dst) :
    fs'.node p = fs.node p := by
  have hne : p ≠ src := fun heq ↦ hsrc (heq ▸ List.prefix_refl p)
  rcases h with ⟨-, -, hnode⟩ | ⟨hplace, hnode⟩
  · rw [hnode, if_neg hdst, if_neg hne]
  · have hbelow : ¬dst <+: p := fun hpre ↦
      hplace.free (isDir_above hpre hdst.symm hp).pathExists
    rw [hnode, if_neg hbelow, if_neg hsrc]
    split
    · next hpre =>
      have hdir : fs.IsDir p :=
        (pathExists_iff.mp hp).resolve_right (hplace.unobstructed.not_isFile hpre)
      exact hdir.symm
    · rfl

/-- A directory that is not moved stays. -/
theorem isDir (hp : fs.IsDir p) (hsrc : ¬src <+: p) : fs'.IsDir p := by
  have hdst : p ≠ dst := by
    rintro rfl
    rcases h with ⟨-, hwrite, -⟩ | ⟨hplace, -⟩
    · exact hwrite.not_isDir hp
    · exact hplace.free hp.pathExists
  exact (h.node_eq hp.pathExists hsrc hdst).trans hp

/-- What is moved leaves its place. -/
theorem node_src (hne : src ≠ dst) : fs'.node src = none := by
  rcases h with ⟨-, -, hnode⟩ | ⟨hplace, hnode⟩
  · rw [hnode, if_neg hne, if_pos rfl]
  · have hbelow : ¬dst <+: src := fun hpre ↦
      hplace.free (isDir_above hpre hne.symm hplace.isDir.pathExists).pathExists
    rw [hnode, if_neg hbelow, if_pos (List.prefix_refl src)]

/-- Of a directory, all that is inside moves along. -/
theorem node_dst_append (hsrc : fs.IsDir src) (q : Path) :
    fs'.node (dst ++ q) = fs.node (src ++ q) := by
  rcases h with ⟨hfile, -, -⟩ | ⟨-, hnode⟩
  · exact absurd hsrc (IsFile.not_isDir ⟨_, hfile⟩)
  · rw [hnode, if_pos (List.prefix_append dst q), List.drop_left]

end Relocated

end FileTree

end Files
