import UnsafePerf.Pipeline.Crates
import Mathlib.Data.List.MinMax
import Mathlib.Data.List.Nodup

/-!
# The configuration of a directory

`run_crate` looks the argument up twice: among the entries of the benchmark directory, exactly or as
the beginning of a name, and in `CRATE_CONFIGS`, where the first key that is the argument, or is
followed by a dash in it, wins. The comment over the second loop speaks of the name of the
directory, the loop reads the argument.

Both lookups are about beginnings of the name of the directory, since the argument is one. A key
that matches the name matches the argument too just if the argument is long enough to contain it,
so the loop finds the longest key of the directory if and only if that key fits into the argument
and stands before the shorter keys it extends.
-/

open Files

namespace UnsafePerf.Pipeline

/-- The key is the name, or is followed by a dash in it. -/
def KeyMatches (name key : Text) : Prop := name = key ∨ name.StartsWith (key ++ "-".toList)

instance (name key : Text) : Decidable (KeyMatches name key) :=
  inferInstanceAs (Decidable (_ ∨ _))

/-- The entry of `CRATE_CONFIGS` that the loop stops at. -/
def customEntry (configs : List (Text × CrateConfig)) (crateName : Text) :
    Option (Text × CrateConfig) :=
  configs.find? fun kv ↦
    decide (crateName = kv.1) || decide (crateName.StartsWith (kv.1 ++ "-".toList))

/-- The entry with the longest key that matches the name. -/
def longestEntry (configs : List (Text × CrateConfig)) (name : Text) :
    Option (Text × CrateConfig) :=
  (configs.filter fun kv ↦ KeyMatches name kv.1).argmax fun kv ↦ kv.1.length

section Matches

variable {name key key' : Text}

theorem KeyMatches.isPrefix (h : KeyMatches name key) : key <+: name := by
  rcases h with rfl | hstart
  · exact List.prefix_rfl
  · exact (List.prefix_append key _).trans hstart

/-- A name has one key of a length. -/
theorem KeyMatches.eq_of_length_eq (h : KeyMatches name key) (h' : KeyMatches name key')
    (hlength : key.length = key'.length) : key = key' :=
  (List.prefix_of_prefix_length_le h.isPrefix h'.isPrefix hlength.le).eq_of_length hlength

/-- A key that is longer in the argument than it is alone matches whatever the argument begins. -/
theorem KeyMatches.of_ne {arg : Text} (h : KeyMatches arg key) (hne : arg ≠ key)
    (harg : arg <+: name) : KeyMatches name key :=
  .inr ((h.resolve_left hne).trans harg)

/-- A key of the name is a key of the argument if it fits into it. -/
theorem KeyMatches.arg_iff {arg : Text} (h : KeyMatches name key) (harg : arg <+: name) :
    KeyMatches arg key ↔ key.length ≤ arg.length := by
  refine ⟨fun h' ↦ h'.isPrefix.length_le, fun hle ↦ ?_⟩
  by_cases heq : arg.length = key.length
  · exact .inl ((List.prefix_of_prefix_length_le harg h.isPrefix heq.le).eq_of_length heq)
  · have hlength := harg.length_le
    -- the name is longer than the key, so the key is followed by a dash
    have hstart : key ++ "-".toList <+: name := by
      refine h.resolve_left ?_
      rintro rfl
      omega
    refine .inr (List.prefix_of_prefix_length_le hstart harg ?_)
    rw [List.length_append]
    change key.length + 1 ≤ arg.length
    omega

end Matches

section Entries

variable {configs : List (Text × CrateConfig)} {name : Text} {kv : Text × CrateConfig}

theorem mem_of_longestEntry (h : longestEntry configs name = some kv) :
    kv ∈ configs ∧ KeyMatches name kv.1 := by
  have hmem := List.argmax_mem h
  simpa using hmem

theorem length_le_of_longestEntry (h : longestEntry configs name = some kv)
    {kv' : Text × CrateConfig} (hmem : kv' ∈ configs) (hmatch : KeyMatches name kv'.1) :
    kv'.1.length ≤ kv.1.length := by
  have hfilter : kv' ∈ configs.filter (fun kv ↦ KeyMatches name kv.1) := by
    simpa using ⟨hmem, hmatch⟩
  exact List.le_of_mem_argmax (f := fun kv : Text × CrateConfig ↦ kv.1.length) hfilter h

theorem longestEntry_eq_none_iff :
    longestEntry configs name = none ↔ ∀ kv ∈ configs, ¬KeyMatches name kv.1 := by
  rw [longestEntry, List.argmax_eq_none, List.filter_eq_nil_iff]
  simp

/-- With distinct keys, the entry of the longest key that matches the name. -/
theorem longestEntry_eq_some_iff (hkeys : (configs.map Prod.fst).Nodup) :
    longestEntry configs name = some kv ↔ (kv ∈ configs ∧ KeyMatches name kv.1) ∧
      ∀ kv' ∈ configs, KeyMatches name kv'.1 → kv'.1.length ≤ kv.1.length := by
  constructor
  · intro h
    exact ⟨mem_of_longestEntry h, fun kv' ↦ length_le_of_longestEntry h⟩
  · rintro ⟨hkv, hmax⟩
    cases hlongest : longestEntry configs name with
    | none => exact absurd hkv.2 (longestEntry_eq_none_iff.mp hlongest kv hkv.1)
    | some other =>
      have hother := mem_of_longestEntry hlongest
      have hlength : other.1.length = kv.1.length :=
        le_antisymm (hmax other hother.1 hother.2)
          (length_le_of_longestEntry hlongest hkv.1 hkv.2)
      have hkey := hother.2.eq_of_length_eq hkv.2 hlength
      rw [List.inj_on_of_nodup_map hkeys hother.1 hkv.1 hkey]

/-- The argument begins the name of the directory it is resolved to. -/
theorem isPrefix_of_crateDir {entries : List (CrateName × Bool)} {arg dir : CrateName}
    (h : crateDir entries arg = some dir) : arg.val <+: dir := by
  rw [crateDir] at h
  split at h
  · obtain rfl := Option.some.inj h
    exact List.prefix_rfl
  · obtain ⟨entry, hfind, rfl⟩ := Option.map_eq_some_iff.mp h
    have hentry := List.find?_some hfind
    simp only [Bool.and_eq_true, decide_eq_true_eq] at hentry
    exact hentry.2

end Entries

/-- The custom configuration of an argument is that of the longest key of its directory just if this
key fits into the argument and no key before it matches the argument, or, where the directory has no
key, the argument is not a key itself. -/
theorem custom_config_longest_iff (configs : List (Text × CrateConfig))
    (entries : List (CrateName × Bool)) (crateName dir : CrateName)
    (hdir : crateDir entries crateName = some dir) :
    customConfig configs crateName = (customEntry configs crateName).map Prod.snd ∧
      (customEntry configs crateName = longestEntry configs dir ↔
        match longestEntry configs dir with
        | some kv => kv.1.length ≤ crateName.val.length ∧ ∃ before after,
          configs = before ++ kv :: after ∧ ∀ kv' ∈ before, ¬KeyMatches crateName kv'.1
        | none => crateName.val ∉ configs.map Prod.fst) := by
  refine ⟨rfl, ?_⟩
  have harg := isPrefix_of_crateDir hdir
  cases hlongest : longestEntry configs dir with
  | some kv =>
    have hmatches := (mem_of_longestEntry hlongest).2
    change _ ↔ kv.1.length ≤ crateName.val.length ∧ _
    rw [customEntry, List.find?_eq_some_iff_append, ← hmatches.arg_iff harg]
    simp [KeyMatches]
  | none =>
    have hnone := longestEntry_eq_none_iff.mp hlongest
    rw [customEntry, List.find?_eq_none]
    constructor
    · intro hmatches hkey
      obtain ⟨kv, hkv, heq⟩ := List.mem_map.mp hkey
      simpa [heq] using hmatches kv hkv
    · intro hkey kv hkv hmatch
      have hmatch' : KeyMatches crateName kv.1 := by simpa [KeyMatches] using hmatch
      -- a key with a dash after it in the argument has it in the name too
      have hne : crateName.val ≠ kv.1 := fun heq ↦ hkey (heq ▸ List.mem_map_of_mem hkv)
      exact hnone kv hkv (hmatch'.of_ne hne harg)

/-- `rayon-core` is resolved to its own directory, and `jni` to `jni-0.21.1`. -/
theorem custom_config_longest_iff_jni :
    let rayonCore : CrateName := ⟨"rayon-core".toList, by decide⟩
    let jni : CrateName := ⟨"jni".toList, by decide⟩
    let dir : CrateName := ⟨"jni-0.21.1".toList, by decide⟩
    let entries := [(rayonCore, true), (dir, true)]
    crateDir entries jni = some dir ∧
      (customEntry (crateConfigs []) jni).map Prod.fst = some "jni".toList ∧
      customEntry (crateConfigs []) jni = longestEntry (crateConfigs []) dir := by
  intro rayonCore jni dir entries
  have hdir : crateDir entries jni = some dir := by decide
  refine ⟨hdir, by decide, ?_⟩
  refine (custom_config_longest_iff (crateConfigs []) entries _ _ hdir).2.mpr ?_
  exact ⟨by decide, (crateConfigs []).take 4, (crateConfigs []).drop 5, rfl, by decide⟩

/-- The key `rayon` comes before `rayon-core` in `CRATE_CONFIGS` and shadows it: the crate that is to
be skipped is run with the commands of another. -/
theorem custom_config_not_longest :
    let rayonCore : CrateName := ⟨"rayon-core".toList, by decide⟩
    crateDir [(rayonCore, true)] rayonCore = some rayonCore ∧
      (longestEntry (crateConfigs []) rayonCore).map (fun kv ↦ (kv.1, kv.2.skip)) =
        some ("rayon-core".toList, true) ∧
      (customEntry (crateConfigs []) rayonCore).map (fun kv ↦ (kv.1, kv.2.skip)) =
        some ("rayon".toList, false) ∧
      customConfig (crateConfigs []) rayonCore ≠
        (longestEntry (crateConfigs []) rayonCore).map Prod.snd := by
  intro rayonCore
  refine ⟨by decide, by decide, by decide, fun heq ↦ ?_⟩
  have hskip := congrArg (Option.map CrateConfig.skip) heq
  revert hskip
  decide

end UnsafePerf.Pipeline
