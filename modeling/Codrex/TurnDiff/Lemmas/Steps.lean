import Codrex.AbsolutePath
import Codrex.TurnDiff.Spec

/-!
# The cached roots

A lookup answers with a root above the path, and the cache only grows. Roots that do not lie within each other can
be found in any order.
-/

namespace Codrex.TurnDiff

open Text

theorem startsWith_total {dir root other : AbsolutePathBuf} (hroot : dir.startsWith root = true)
    (hother : dir.startsWith other = true) : root.startsWith other = true ∨ other.startsWith root = true := by
  simp only [AbsolutePathBuf.startsWith_iff_names] at *
  exact List.prefix_or_prefix_of_prefix hother hroot

section

variable {view : FileView} {cache other : List AbsolutePathBuf} {path dir root : AbsolutePathBuf}

/-- The directory that a lookup starts from. -/
def lookupDir (view : FileView) (path : AbsolutePathBuf) : Option AbsolutePathBuf :=
  if view.isDir path then some path else path.parent

theorem newRoot_eq_some_iff : TurnDiffTracker.newRoot view cache path = some root ↔
    ∃ dir, lookupDir view path = some dir ∧ cache.find? dir.startsWith = none ∧
      dir.ancestors.find? (hasGitMarker view) = some root := by
  simp only [TurnDiffTracker.newRoot, ← lookupDir.eq_def]
  cases lookupDir view path with
  | none => simp
  | some dir => cases h : cache.find? dir.startsWith <;> simp only [h, Option.some.injEq, exists_eq_left', reduceCtorEq,
      false_and, true_and]

theorem startsWith_of_marker (h : dir.ancestors.find? (hasGitMarker view) = some root) :
    dir.startsWith root = true :=
  AbsolutePathBuf.mem_ancestors_iff.mp (List.mem_of_find?_eq_some h)

theorem findGitRootCached_fst : (findGitRootCached view cache path).1 = (lookupDir view path).bind fun dir =>
    (cache.find? dir.startsWith).or (dir.ancestors.find? (hasGitMarker view)) := by
  simp only [findGitRootCached, ← lookupDir.eq_def]
  cases lookupDir view path with
  | none => rfl
  | some dir =>
      cases h : cache.find? dir.startsWith with
      | some known => simp [h]
      | none => cases hmarker : dir.ancestors.find? (hasGitMarker view) <;> simp [h, hmarker]

theorem findGitRootCached_snd : (findGitRootCached view cache path).2 =
    cache ++ (TurnDiffTracker.newRoot view cache path).toList := by
  simp only [findGitRootCached, TurnDiffTracker.newRoot, ← lookupDir.eq_def]
  cases lookupDir view path with
  | none => simp
  | some dir =>
      cases h : cache.find? dir.startsWith with
      | some known => simp [h]
      | none =>
          cases hmarker : dir.ancestors.find? (hasGitMarker view) with
          | none => simp only [h, hmarker, Option.toList_none, List.append_nil]
          | some root =>
              have hmem : root ∉ cache := fun hmem =>
                List.find?_eq_none.mp h root hmem (startsWith_of_marker hmarker)
              simp only [h, hmarker, if_neg hmem, Option.toList_some]

/-! ## Caches that give the same roots -/

theorem SameRoots.refl (cache : List AbsolutePathBuf) : SameRoots cache cache := fun _ => rfl

theorem SameRoots.symm (h : SameRoots cache other) : SameRoots other cache := fun dir => (h dir).symm

theorem SameRoots.trans {third : List AbsolutePathBuf} (h : SameRoots cache other) (h' : SameRoots other third) :
    SameRoots cache third := fun dir => (h dir).trans (h' dir)

theorem SameRoots.append (h : SameRoots cache other) (more : List AbsolutePathBuf) :
    SameRoots (cache ++ more) (other ++ more) := by
  intro dir
  rw [List.find?_append, List.find?_append, h dir]

theorem SameRoots.newRoot (h : SameRoots cache other) (path : AbsolutePathBuf) :
    TurnDiffTracker.newRoot view cache path = TurnDiffTracker.newRoot view other path := by
  simp only [TurnDiffTracker.newRoot, ← lookupDir.eq_def]
  cases lookupDir view path with
  | none => rfl
  | some dir => simp only [h dir]

theorem SameRoots.findGitRootCached_fst (h : SameRoots cache other) (path : AbsolutePathBuf) :
    (findGitRootCached view cache path).1 = (findGitRootCached view other path).1 := by
  rw [TurnDiff.findGitRootCached_fst, TurnDiff.findGitRootCached_fst]
  cases lookupDir view path with
  | none => rfl
  | some dir => simp only [Option.bind_some, h dir]

theorem SameRoots.findGitRootCached_snd (h : SameRoots cache other) (path : AbsolutePathBuf) :
    SameRoots (findGitRootCached view cache path).2 (findGitRootCached view other path).2 := by
  rw [TurnDiff.findGitRootCached_snd, TurnDiff.findGitRootCached_snd, h.newRoot]
  exact h.append _

theorem SameRoots.relativeToGitRootStr_fst (h : SameRoots cache other) (path : AbsolutePathBuf) :
    (relativeToGitRootStr view cache path).1 = (relativeToGitRootStr view other path).1 := by
  simp only [relativeToGitRootStr, h.findGitRootCached_fst]

theorem SameRoots.relativeToGitRootStr_snd (h : SameRoots cache other) (path : AbsolutePathBuf) :
    SameRoots (relativeToGitRootStr view cache path).2 (relativeToGitRootStr view other path).2 :=
  h.findGitRootCached_snd path

theorem SameRoots.gitBlobOidForPath_fst (h : SameRoots cache other) (path : AbsolutePathBuf) :
    (gitBlobOidForPath view cache path).1 = (gitBlobOidForPath view other path).1 := by
  simp only [gitBlobOidForPath, h.findGitRootCached_fst]

theorem SameRoots.gitBlobOidForPath_snd (h : SameRoots cache other) (path : AbsolutePathBuf) :
    SameRoots (gitBlobOidForPath view cache path).2 (gitBlobOidForPath view other path).2 :=
  h.findGitRootCached_snd path

/-! ## Roots apart from each other -/

theorem find?_concat_of_apart {more : AbsolutePathBuf}
    (hmarker : hasGitMarker view more = true)
    (happart : ∀ root, dir.ancestors.find? (hasGitMarker view) = some root → cache.find? dir.startsWith = none →
      root.startsWith more = true ∨ more.startsWith root = true → root = more) :
    ((cache ++ [more]).find? dir.startsWith).or (dir.ancestors.find? (hasGitMarker view)) =
      (cache.find? dir.startsWith).or (dir.ancestors.find? (hasGitMarker view)) := by
  rw [List.find?_append]
  cases hfind : cache.find? dir.startsWith with
  | some known => rfl
  | none =>
      by_cases hmore : dir.startsWith more = true
      · have hsome : (dir.ancestors.find? (hasGitMarker view)).isSome = true :=
          List.find?_isSome.mpr ⟨more, AbsolutePathBuf.mem_ancestors_iff.mpr hmore, hmarker⟩
        obtain ⟨root, hroot⟩ := Option.isSome_iff_exists.mp hsome
        have hsame := happart root hroot hfind (startsWith_total (startsWith_of_marker hroot) hmore)
        simp [hmore, hroot, hsame]
      · simp [hmore]

theorem SameRoots.concat_swap {first second : AbsolutePathBuf} (cache : List AbsolutePathBuf)
    (hfirst : first.startsWith second = true → first = second)
    (hsecond : second.startsWith first = true → second = first) :
    SameRoots (cache ++ [first] ++ [second]) (cache ++ [second] ++ [first]) := by
  intro dir
  simp only [List.find?_append, List.find?_singleton, Option.or_assoc]
  congr 1
  by_cases h : dir.startsWith first = true <;> by_cases h' : dir.startsWith second = true
  · rcases startsWith_total h h' with hle | hle
    · rw [hfirst hle]
    · rw [hsecond hle]
  all_goals simp [h, h']

end

end Codrex.TurnDiff

/-!
## What one change does to the tracker

The path of the change has a name, an old one or the next one. The name ends at the destination of the move, or
stays where it is; the path is free then, and the destination belongs to the name.
-/

namespace Codrex.TurnDiff

/-- Where the change takes the file, when that is another path. -/
def destOf : AbsolutePathBuf × FileChange → Option AbsolutePathBuf
  | (path, .update _ (some dest)) => if dest = path then none else some dest
  | _ => none

/-- The path that the file is at after the change. -/
def placeOf (change : AbsolutePathBuf × FileChange) : AbsolutePathBuf := (destOf change).getD change.1

variable {changes : List (AbsolutePathBuf × FileChange)} {change : AbsolutePathBuf × FileChange}
  {path dest other : AbsolutePathBuf}

theorem moves_iff : Moves changes path dest ↔ ∃ change ∈ changes, change.1 = path ∧ destOf change = some dest := by
  constructor
  · rintro ⟨hne, unifiedDiff, hmem⟩
    exact ⟨_, hmem, rfl, if_neg hne⟩
  · rintro ⟨⟨source, change⟩, hmem, rfl, hdest⟩
    rcases change with content | content | ⟨unifiedDiff, _ | target⟩
    · cases hdest
    · cases hdest
    · cases hdest
    · simp only [destOf] at hdest
      split at hdest
      · cases hdest
      · next hne =>
          cases hdest
          exact ⟨hne, unifiedDiff, hmem⟩

theorem moves_of_placeOf (hmem : change ∈ changes) (h : placeOf change ≠ change.1) :
    Moves changes change.1 (placeOf change) := by
  refine moves_iff.mpr ⟨change, hmem, rfl, ?_⟩
  rw [placeOf] at h ⊢
  cases hdest : destOf change with
  | none => simp [hdest] at h
  | some dest => rfl

theorem placeOf_of_moves (hnodup : (changes.map Prod.fst).Nodup) (hmem : change ∈ changes)
    (h : Moves changes change.1 dest) : placeOf change = dest := by
  obtain ⟨found, hfound, hpath, hdest⟩ := moves_iff.mp h
  have hsame : found = change := List.inj_on_of_nodup_map hnodup hfound hmem hpath
  rw [placeOf, ← hsame, hdest, Option.getD_some]

theorem Moves.mono {others : List (AbsolutePathBuf × FileChange)} (h : Moves changes path dest)
    (hsub : changes ⊆ others) : Moves others path dest :=
  ⟨h.1, h.2.imp fun _ hmem => hsub hmem⟩

namespace TurnDiffTracker

variable {crates : Crates} {view : FileView} {tracker : TurnDiffTracker} {name : InternalName}

/-! ## Names -/

/-- The internal name of a path, as it is or as it would be given now. -/
def nameOf (tracker : TurnDiffTracker) (path : AbsolutePathBuf) : InternalName :=
  (tracker.externalToTempName path).getD tracker.nextName

theorem nameOf_of_tracked (h : tracker.externalToTempName path = some name) : tracker.nameOf path = name := by
  rw [nameOf, h, Option.getD_some]

theorem nameOf_of_untracked (h : tracker.externalToTempName path = none) :
    tracker.nameOf path = tracker.nextName := by
  rw [nameOf, h, Option.getD_none]

theorem lt_nextName (h : tracker.externalToTempName path = some name) : name < tracker.nextName :=
  tracker.issued (tracker.current h)

theorem external_injective (h : tracker.externalToTempName path = some name)
    (hother : tracker.externalToTempName other = some name) : path = other :=
  Option.some.inj ((tracker.current h).symm.trans (tracker.current hother))

theorem baseline_eq_none : tracker.baselineFileInfo name = none ↔ tracker.nextName ≤ name := by
  rw [← Nat.not_lt, ← tracker.snapshotted, Bool.not_eq_true, Option.isSome_eq_false_iff, Option.isNone_iff_eq_none]

theorem current_eq_none (h : tracker.nextName ≤ name) : tracker.tempNameToCurrentPath name = none := by
  cases hcurrent : tracker.tempNameToCurrentPath name with
  | none => rfl
  | some found => exact absurd (tracker.issued hcurrent) (Nat.not_lt.mpr h)

theorem external_ne_nameOf (hne : other ≠ path) (h : tracker.externalToTempName other = some name) :
    name ≠ tracker.nameOf path := by
  rintro rfl
  cases hpath : tracker.externalToTempName path with
  | none =>
      rw [nameOf_of_untracked hpath] at h
      exact Nat.lt_irrefl _ (lt_nextName h)
  | some found =>
      rw [nameOf_of_tracked hpath] at h
      exact hne (external_injective h hpath)

/-! ## One change -/

/-- The part of the cache of a snapshot does not depend on what is tracked. -/
theorem snapshot_snd (cache : List AbsolutePathBuf) (path : AbsolutePathBuf) : (snapshot crates view cache path).2 =
    cache ++ (if view.pathExists path = true ∧ view.fileModeForPath path ≠ some .symlink then
      newRoot view cache path else none).toList := by
  simp only [snapshot]
  by_cases hexists : view.pathExists path = true
  · by_cases hmode : view.fileModeForPath path = some .symlink
    · simp [hexists, hmode]
    · simp only [hexists, if_true, hmode, if_false, true_and, ne_eq, not_false_eq_true, gitBlobOidForPath]
      exact findGitRootCached_snd
  · simp [hexists]

theorem snapshot_path (cache : List AbsolutePathBuf) (path : AbsolutePathBuf) :
    (snapshot crates view cache path).1.path = path := by
  simp only [snapshot]
  split
  · split <;> rfl
  · rfl

/-- A snapshot looks at the root of a file that exists and is not a link, and at nothing else of the cache. -/
theorem snapshot_fst_congr {cache others : List AbsolutePathBuf}
    (h : view.pathExists path = true → view.fileModeForPath path ≠ some .symlink →
      (findGitRootCached view cache path).1 = (findGitRootCached view others path).1) :
    (snapshot crates view cache path).1 = (snapshot crates view others path).1 := by
  simp only [snapshot]
  by_cases hexists : view.pathExists path = true
  · by_cases hmode : view.fileModeForPath path = some .symlink
    · simp only [hexists, if_true, hmode]
    · simp only [hexists, if_true, hmode, if_false, gitBlobOidForPath, h hexists hmode]
  · simp only [hexists, Bool.false_eq_true, if_false]

theorem track_of_tracked (h : tracker.externalToTempName path = some name) :
    tracker.track crates view path = tracker := by
  rw [track, h]

theorem track_of_untracked (h : tracker.externalToTempName path = none) : tracker.track crates view path =
    tracker.insertNew path (snapshot crates view tracker.gitRootCache path).1
      (snapshot crates view tracker.gitRootCache path).2 := by
  rw [track, h]

theorem track_external : (tracker.track crates view path).externalToTempName =
    Function.update tracker.externalToTempName path (some (tracker.nameOf path)) := by
  cases h : tracker.externalToTempName path with
  | none =>
      rw [track_of_untracked h, nameOf_of_untracked h]
      rfl
  | some name => rw [track_of_tracked h, nameOf_of_tracked h, ← h, Function.update_eq_self]

theorem track_current : (tracker.track crates view path).tempNameToCurrentPath =
    Function.update tracker.tempNameToCurrentPath (tracker.nameOf path) (some path) := by
  cases h : tracker.externalToTempName path with
  | none =>
      rw [track_of_untracked h, nameOf_of_untracked h]
      rfl
  | some name => rw [track_of_tracked h, nameOf_of_tracked h, ← tracker.current h, Function.update_eq_self]

theorem startInfo_of_tracked (h : tracker.externalToTempName path = some name) :
    startInfo crates view tracker path = tracker.baselineFileInfo name := by
  rw [startInfo, h]

theorem startInfo_of_untracked (h : tracker.externalToTempName path = none) :
    startInfo crates view tracker path = some (snapshot crates view tracker.gitRootCache path).1 := by
  rw [startInfo, h]

theorem track_baseline : (tracker.track crates view path).baselineFileInfo =
    Function.update tracker.baselineFileInfo (tracker.nameOf path) (startInfo crates view tracker path) := by
  cases h : tracker.externalToTempName path with
  | none =>
      rw [track_of_untracked h, nameOf_of_untracked h, startInfo_of_untracked h]
      rfl
  | some name =>
      rw [track_of_tracked h, nameOf_of_tracked h, startInfo_of_tracked h, Function.update_eq_self]

theorem track_gitRootCache : (tracker.track crates view path).gitRootCache =
    tracker.gitRootCache ++ (foundRoot view tracker path).toList := by
  cases h : tracker.externalToTempName path with
  | none =>
      rw [track_of_untracked h]
      simp only [insertNew, snapshot_snd, foundRoot, h, true_and]
  | some name => simp [track_of_tracked h, foundRoot, h]

theorem track_nextName : (tracker.track crates view path).nextName =
    tracker.nextName + if tracker.externalToTempName path = none then 1 else 0 := by
  cases h : tracker.externalToTempName path with
  | none =>
      rw [track_of_untracked h]
      rfl
  | some name => simp [track_of_tracked h]

theorem moveTo_of_tracked (h : tracker.externalToTempName path = some name) :
    tracker.moveTo path dest = tracker.rename path dest name h := by
  rw [moveTo]
  split
  · next found hfound =>
      cases h.symm.trans hfound
      rfl
  · next hnone => cases h.symm.trans hnone

theorem moveTo_self (h : tracker.externalToTempName path = some name) : tracker.moveTo path path = tracker := by
  rw [moveTo_of_tracked h]
  refine TurnDiffTracker.ext ?_ rfl ?_ rfl rfl
  · simp only [rename, Function.update_idem]
    rw [← h, Function.update_eq_self]
  · simp only [rename]
    rw [← tracker.current h, Function.update_eq_self]

theorem track_external_self : (tracker.track crates view path).externalToTempName path =
    some (tracker.nameOf path) := by
  rw [track_external, Function.update_self]

/-- The change is seen, and then the name goes to its place. -/
theorem visit_eq (change : AbsolutePathBuf × FileChange) : tracker.visit crates view change =
    (tracker.track crates view change.1).rename change.1 (placeOf change) (tracker.nameOf change.1)
      track_external_self := by
  have hstay (path : AbsolutePathBuf) : tracker.track crates view path =
      (tracker.track crates view path).rename path path (tracker.nameOf path) track_external_self :=
    (moveTo_self track_external_self).symm.trans (moveTo_of_tracked track_external_self)
  rcases change with ⟨path, content | content | ⟨unifiedDiff, _ | dest⟩⟩
  · exact hstay path
  · exact hstay path
  · exact hstay path
  · have hplace : placeOf (path, .update unifiedDiff (some dest)) = dest := by
      by_cases hdest : dest = path <;> simp [placeOf, destOf, hdest]
    rw [visit, moveTo_of_tracked track_external_self]
    simp only [hplace]

theorem visit_external : (tracker.visit crates view change).externalToTempName =
    Function.update (Function.update tracker.externalToTempName change.1 none) (placeOf change)
      (some (tracker.nameOf change.1)) := by
  rw [visit_eq]
  simp only [rename, track_external, Function.update_idem]

theorem visit_current : (tracker.visit crates view change).tempNameToCurrentPath =
    Function.update tracker.tempNameToCurrentPath (tracker.nameOf change.1) (some (placeOf change)) := by
  rw [visit_eq]
  simp only [rename, track_current, Function.update_idem]

theorem visit_baseline : (tracker.visit crates view change).baselineFileInfo =
    Function.update tracker.baselineFileInfo (tracker.nameOf change.1) (startInfo crates view tracker change.1) := by
  rw [visit_eq]
  exact track_baseline

theorem visit_gitRootCache : (tracker.visit crates view change).gitRootCache =
    tracker.gitRootCache ++ (foundRoot view tracker change.1).toList := by
  rw [visit_eq]
  exact track_gitRootCache

theorem visit_nextName : (tracker.visit crates view change).nextName =
    tracker.nextName + if tracker.externalToTempName change.1 = none then 1 else 0 := by
  rw [visit_eq]
  exact track_nextName

theorem visit_external_place : (tracker.visit crates view change).externalToTempName (placeOf change) =
    some (tracker.nameOf change.1) := by
  rw [visit_external, Function.update_self]

theorem visit_external_of_ne (hpath : other ≠ change.1) (hplace : other ≠ placeOf change) :
    (tracker.visit crates view change).externalToTempName other = tracker.externalToTempName other := by
  rw [visit_external, Function.update_of_ne hplace, Function.update_of_ne hpath]

theorem visit_baseline_nameOf : (tracker.visit crates view change).baselineFileInfo (tracker.nameOf change.1) =
    startInfo crates view tracker change.1 := by
  rw [visit_baseline, Function.update_self]

/-- A name keeps its baseline. -/
theorem visit_baseline_of_lt (h : name < tracker.nextName) :
    (tracker.visit crates view change).baselineFileInfo name = tracker.baselineFileInfo name := by
  rw [visit_baseline]
  by_cases hname : name = tracker.nameOf change.1
  · cases htracked : tracker.externalToTempName change.1 with
    | none => exact absurd h (hname ▸ (nameOf_of_untracked htracked) ▸ Nat.lt_irrefl _)
    | some found =>
        rw [hname, Function.update_self, startInfo_of_tracked htracked, nameOf_of_tracked htracked]
  · rw [Function.update_of_ne hname]

/-- A path that is tracked and stays is left as it is. -/
theorem visit_of_settled (h : tracker.externalToTempName change.1 = some name) (hplace : placeOf change = change.1) :
    tracker.visit crates view change = tracker := by
  rw [visit_eq]
  simp only [hplace]
  rw [← moveTo_of_tracked, track_of_tracked h, moveTo_self h]

end TurnDiffTracker

end Codrex.TurnDiff
