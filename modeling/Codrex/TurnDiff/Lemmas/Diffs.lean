import Codrex.TurnDiff.Lemmas.Order
import Mathlib.Data.Set.Card

/-!
# Diffs do not show the names

Trackers that are the same up to a renaming give the same diffs.
-/

namespace Codrex.TurnDiff.TurnDiffTracker

open Text Utf8

variable {crates : Crates} {view : FileView} {σ : Equiv.Perm InternalName} {first second : TurnDiffTracker}
  {cache other : List AbsolutePathBuf}

theorem SameUpTo.symm (h : SameUpTo σ first second) : SameUpTo σ.symm second first where
  external := fun path => by simp [h.external path, Option.map_map]
  baseline := fun name => by simpa using (h.baseline (σ.symm name)).symm
  current := fun name => by simpa using (h.current (σ.symm name)).symm
  roots := h.roots.symm

theorem SameUpTo.getPathForInternal (h : SameUpTo σ first second) (name : InternalName) :
    second.getPathForInternal (σ name) = first.getPathForInternal name := by
  rw [TurnDiffTracker.getPathForInternal, TurnDiffTracker.getPathForInternal, h.current, h.baseline]

theorem SameRoots.currentOid (h : SameRoots cache other) (path : AbsolutePathBuf) (mode : FileMode)
    (bytes : Option Bytes) :
    (currentOid crates view other path mode bytes).1 = (currentOid crates view cache path mode bytes).1 ∧
      SameRoots (currentOid crates view cache path mode bytes).2 (currentOid crates view other path mode bytes).2 := by
  simp only [TurnDiffTracker.currentOid]
  cases bytes with
  | none => exact ⟨rfl, h⟩
  | some bytes =>
      by_cases hmode : mode = .symlink
      · simpa [hmode] using h
      · simp only [hmode, if_false, h.gitBlobOidForPath_fst, true_and]
        exact h.gitBlobOidForPath_snd path

variable (crates view)

theorem SameUpTo.getFileDiff (h : SameUpTo σ first second) (hcache : SameRoots cache other) (name : InternalName) :
    (getFileDiff crates view second other (σ name)).1 = (getFileDiff crates view first cache name).1 ∧
      SameRoots (getFileDiff crates view first cache name).2 (getFileDiff crates view second other (σ name)).2 := by
  simp only [TurnDiffTracker.getFileDiff, h.baseline, h.getPathForInternal]
  cases first.getPathForInternal name with
  | none => exact ⟨rfl, hcache⟩
  | some current =>
      dsimp only
      generalize (first.baselineFileInfo name).getD noBaseline = info
      generalize (view.fileModeForPath current).getD .regular = mode
      generalize blobBytes view current mode = bytes
      generalize leftBytes info = left
      have hleft : SameRoots (relativeToGitRootStr view cache info.path).2 (relativeToGitRootStr view other info.path).2 :=
        hcache.relativeToGitRootStr_snd info.path
      obtain ⟨hoid, hlast⟩ : _ ∧ _ := SameRoots.currentOid (hleft.relativeToGitRootStr_snd current) current mode bytes
      rw [hoid, hcache.relativeToGitRootStr_fst, hleft.relativeToGitRootStr_fst]
      by_cases hsame : left = bytes
      · rw [if_pos hsame, if_pos hsame]
        exact ⟨rfl, hlast⟩
      · rw [if_neg hsame, if_neg hsame]
        exact ⟨rfl, hlast⟩

theorem SameUpTo.sortKey (h : SameUpTo σ first second) (hcache : SameRoots cache other) (name : InternalName) :
    (sortKey view second other (σ name)).1 = (sortKey view first cache name).1 ∧
      SameRoots (sortKey view first cache name).2 (sortKey view second other (σ name)).2 := by
  rw [TurnDiffTracker.sortKey, TurnDiffTracker.sortKey, h.getPathForInternal]
  cases first.getPathForInternal name with
  | none => exact ⟨rfl, hcache⟩
  | some path => exact ⟨(hcache.relativeToGitRootStr_fst path).symm, hcache.relativeToGitRootStr_snd path⟩

theorem SameUpTo.sortKeys (h : SameUpTo σ first second) (hcache : SameRoots cache other) (names : List InternalName) :
    (sortKeys view second other (names.map σ)).1 = (sortKeys view first cache names).1.map (Prod.map id σ) ∧
      SameRoots (sortKeys view first cache names).2 (sortKeys view second other (names.map σ)).2 := by
  induction names generalizing cache other with
  | nil => exact ⟨rfl, hcache⟩
  | cons name names ih =>
      obtain ⟨hkey, hcache⟩ := h.sortKey view hcache name
      obtain ⟨hkeys, hcache⟩ := ih hcache
      simp only [List.map_cons, TurnDiffTracker.sortKeys, hkey, hkeys]
      exact ⟨rfl, hcache⟩

theorem SameUpTo.sortByKey (h : SameUpTo σ first second) (names : List InternalName) :
    (sortByKey view second (names.map σ)).1 = (sortByKey view first names).1.map σ ∧
      SameRoots (sortByKey view first names).2 (sortByKey view second (names.map σ)).2 := by
  simp only [TurnDiffTracker.sortByKey, List.length_map]
  by_cases hlength : names.length < 2
  · rw [if_pos hlength, if_pos hlength]
    exact ⟨rfl, h.roots⟩
  · obtain ⟨hkeys, hcache⟩ := h.sortKeys view h.roots names
    simp only [if_neg hlength, hkeys]
    refine ⟨?_, hcache⟩
    rw [← List.map_mergeSort (r := fun a b => decide (a.1 ≤ b.1)) fun _ _ _ _ => rfl, List.map_map, List.map_map]
    rfl

theorem SameUpTo.fileDiffs (h : SameUpTo σ first second) (hcache : SameRoots cache other) (names : List InternalName) :
    fileDiffs crates view second other (names.map σ) = fileDiffs crates view first cache names := by
  induction names generalizing cache other with
  | nil => rfl
  | cons name names ih =>
      obtain ⟨hdiff, hcache⟩ := h.getFileDiff crates view hcache name
      simp only [List.map_cons, TurnDiffTracker.fileDiffs, hdiff, ih hcache]

theorem SameUpTo.allFileDiffs (h : SameUpTo σ first second) (names : List InternalName) :
    allFileDiffs crates view second (names.map σ) = allFileDiffs crates view first names := by
  obtain ⟨hnames, hcache⟩ := h.sortByKey view names
  simp only [TurnDiffTracker.allFileDiffs, hnames]
  exact h.fileDiffs crates view hcache _

theorem SameUpTo.enumerates (h : SameUpTo σ first second) {names : List InternalName} (hnames : Enumerates first names) :
    Enumerates second (names.map σ) where
  nodup := hnames.nodup.map σ.injective
  mem := fun name => by
    rw [← σ.apply_symm_apply name, List.mem_map_of_injective σ.injective, hnames.mem, h.baseline]

theorem SameUpTo.unifiedDiffs_subset (h : SameUpTo σ first second) :
    unifiedDiffs crates view first ⊆ unifiedDiffs crates view second := by
  rintro diff ⟨names, hnames, rfl⟩
  refine ⟨names.map σ, h.enumerates hnames, ?_⟩
  simp only [getUnifiedDiff, h.allFileDiffs crates view]

theorem SameUpTo.unifiedDiffs (h : SameUpTo σ first second) :
    unifiedDiffs crates view first = unifiedDiffs crates view second :=
  Set.Subset.antisymm (h.unifiedDiffs_subset crates view) (h.symm.unifiedDiffs_subset crates view)

/-! ## What is compared -/

structure Comparison where
  leftPath : AbsolutePathBuf
  rightPath : AbsolutePathBuf
  leftBytes : Option Bytes
  rightBytes : Option Bytes

def comparison (diff : FileDiff) : Comparison := ⟨diff.leftPath, diff.rightPath, diff.leftBytes, diff.rightBytes⟩

/-- What the block of a name compares, if there is one. -/
def compared (view : FileView) (tracker : TurnDiffTracker) (name : InternalName) : Option Comparison :=
  (tracker.getPathForInternal name).bind fun current =>
    let info := (tracker.baselineFileInfo name).getD noBaseline
    if leftBytes info = view.contents current then none
    else some ⟨info.path, current, leftBytes info, view.contents current⟩

variable (tracker : TurnDiffTracker)

theorem map_comparison_getFileDiff (cache : List AbsolutePathBuf) (name : InternalName) :
    (TurnDiffTracker.getFileDiff crates view tracker cache name).1.map comparison = compared view tracker name := by
  rw [TurnDiffTracker.getFileDiff, compared]
  cases tracker.getPathForInternal name with
  | none => rfl
  | some current =>
      dsimp only [Option.bind_some]
      split
      · next hsame => exact (if_pos hsame).symm
      · next hdiffer => exact (if_neg hdiffer).symm

theorem map_comparison_fileDiffs (cache : List AbsolutePathBuf) (names : List InternalName) :
    (TurnDiffTracker.fileDiffs crates view tracker cache names).map (Option.map comparison) =
      names.map (compared view tracker) := by
  induction names generalizing cache with
  | nil => rfl
  | cons name names ih =>
      simp only [TurnDiffTracker.fileDiffs, List.map_cons, map_comparison_getFileDiff, ih]

theorem sortKeys_snd (cache : List AbsolutePathBuf) (names : List InternalName) :
    (TurnDiffTracker.sortKeys view tracker cache names).1.map Prod.snd = names := by
  induction names generalizing cache with
  | nil => rfl
  | cons name names ih => simp only [TurnDiffTracker.sortKeys, List.map_cons, ih]

theorem perm_sortByKey (names : List InternalName) :
    (TurnDiffTracker.sortByKey view tracker names).1.Perm names := by
  rw [TurnDiffTracker.sortByKey]
  split
  · exact List.Perm.refl _
  · refine ((List.mergeSort_perm _ _).map _).trans ?_
    rw [sortKeys_snd]

/-- The sorting and the displays aside, there is a block for each name whose two sides differ. -/
theorem perm_compared (names : List InternalName) :
    ((TurnDiffTracker.allFileDiffs crates view tracker names).map (Option.map comparison)).Perm
      (names.map (compared view tracker)) := by
  rw [TurnDiffTracker.allFileDiffs, map_comparison_fileDiffs]
  exact (perm_sortByKey view tracker names).map _

end Codrex.TurnDiff.TurnDiffTracker

/-!
## Changes that get in each other's way

What a renaming cannot hide: which paths are tracked, how many baselines a path has, which baseline belongs to a path,
and which roots are known. Changes that are not settled lead to trackers that differ in one of them.
-/

namespace Codrex.TurnDiff.TurnDiffTracker

variable {crates : Crates} {view : FileView} {tracker first second : TurnDiffTracker} {name : InternalName}
  {changes : List (AbsolutePathBuf × FileChange)} {change next : AbsolutePathBuf × FileChange}
  {path other dest root : AbsolutePathBuf}

/-! ## Observations -/

/-- The names that have a baseline for the path. -/
def namesFor (tracker : TurnDiffTracker) (path : AbsolutePathBuf) : Set InternalName :=
  {name | (tracker.baselineFileInfo name).map BaselineFileInfo.path = some path}

theorem Alike.external_eq_none (h : Alike first second) (path : AbsolutePathBuf) :
    second.externalToTempName path = none ↔ first.externalToTempName path = none := by
  obtain ⟨σ, hσ⟩ := h
  rw [hσ.external path, Option.map_eq_none_iff]

theorem Alike.baseline (h : Alike first second) {name found : InternalName}
    (hfirst : first.externalToTempName path = some name) (hsecond : second.externalToTempName path = some found) :
    second.baselineFileInfo found = first.baselineFileInfo name := by
  obtain ⟨σ, hσ⟩ := h
  rw [hσ.external path, hfirst, Option.map_some, Option.some.injEq] at hsecond
  rw [← hsecond, hσ.baseline]

theorem Alike.ncard_namesFor (h : Alike first second) (path : AbsolutePathBuf) :
    (second.namesFor path).ncard = (first.namesFor path).ncard := by
  obtain ⟨σ, hσ⟩ := h
  have himage : second.namesFor path = σ '' first.namesFor path := by
    ext name
    rw [σ.image_eq_preimage_symm, Set.mem_preimage, namesFor, namesFor, Set.mem_ofPred_eq, Set.mem_ofPred_eq,
      ← hσ.baseline, σ.apply_symm_apply]
  rw [himage, Set.ncard_image_of_injective _ σ.injective]

theorem Alike.roots (h : Alike first second) : SameRoots first.gitRootCache second.gitRootCache :=
  h.elim fun _ hσ => hσ.roots

theorem finite_namesFor (tracker : TurnDiffTracker) (path : AbsolutePathBuf) : (tracker.namesFor path).Finite := by
  refine (Set.finite_lt_nat tracker.nextName).subset ?_
  intro name hname
  refine tracker.snapshotted.mp ?_
  rw [namesFor, Set.mem_ofPred_eq, Option.map_eq_some_iff] at hname
  obtain ⟨info, hinfo, -⟩ := hname
  rw [hinfo, Option.isSome_some]

theorem nextName_notMem_namesFor (tracker : TurnDiffTracker) (path : AbsolutePathBuf) :
    tracker.nextName ∉ tracker.namesFor path := by
  rw [namesFor, Set.mem_ofPred_eq, baseline_eq_none.mpr (Nat.le_refl _), Option.map_none]
  rintro ⟨⟩

/-! ## Runs -/

theorem namesFor_visit_of_tracked (h : tracker.externalToTempName change.1 ≠ none) (path : AbsolutePathBuf) :
    (tracker.visit crates view change).namesFor path = tracker.namesFor path := by
  obtain ⟨name, hname⟩ := Option.ne_none_iff_exists'.mp h
  rw [namesFor, visit_baseline, nameOf_of_tracked hname, startInfo_of_tracked hname, Function.update_eq_self, namesFor]

theorem namesFor_visit_of_ne (hne : path ≠ change.1) :
    (tracker.visit crates view change).namesFor path = tracker.namesFor path := by
  by_cases h : tracker.externalToTempName change.1 = none
  · ext name
    rw [namesFor, namesFor, visit_baseline, Set.mem_ofPred_eq, Set.mem_ofPred_eq]
    by_cases hname : name = tracker.nameOf change.1
    · rw [hname, Function.update_self, startInfo_of_untracked h, nameOf_of_untracked h,
        baseline_eq_none.mpr (Nat.le_refl _), Option.map_some, snapshot_path, Option.map_none]
      simp [hne.symm]
    · rw [Function.update_of_ne hname]
  · exact namesFor_visit_of_tracked h path

theorem namesFor_visit_self (h : tracker.externalToTempName change.1 = none) :
    (tracker.visit crates view change).namesFor change.1 = insert tracker.nextName (tracker.namesFor change.1) := by
  ext name
  rw [namesFor, visit_baseline, nameOf_of_untracked h, Set.mem_ofPred_eq, Set.mem_insert_iff]
  by_cases hname : name = tracker.nextName
  · rw [hname, Function.update_self, startInfo_of_untracked h, Option.map_some, snapshot_path]
    simp
  · rw [Function.update_of_ne hname]
    simp [namesFor, hname]

theorem namesFor_onPatchBegin (h : path ∉ changes.map Prod.fst) :
    (tracker.onPatchBegin crates view changes).namesFor path = tracker.namesFor path := by
  induction changes generalizing tracker with
  | nil => rfl
  | cons change changes ih =>
      rw [List.map_cons, List.mem_cons, not_or] at h
      exact (ih h.2).trans (namesFor_visit_of_ne h.1)

theorem onPatchBegin_append (first second : List (AbsolutePathBuf × FileChange)) :
    tracker.onPatchBegin crates view (first ++ second) =
      (tracker.onPatchBegin crates view first).onPatchBegin crates view second :=
  List.foldl_append

theorem exists_gitRootCache_onPatchBegin (crates : Crates) (view : FileView) (tracker : TurnDiffTracker)
    (changes : List (AbsolutePathBuf × FileChange)) :
    ∃ more, (tracker.onPatchBegin crates view changes).gitRootCache = tracker.gitRootCache ++ more := by
  induction changes generalizing tracker with
  | nil => exact ⟨[], (List.append_nil _).symm⟩
  | cons change changes ih =>
      obtain ⟨more, hmore⟩ := ih (tracker.visit crates view change)
      rw [visit_gitRootCache, List.append_assoc] at hmore
      exact ⟨_, hmore⟩

/-! ## What an order-free patch looks like -/

theorem exists_rest (hnodup : (changes.map Prod.fst).Nodup) (hchange : change ∈ changes) (hnext : next ∈ changes)
    (hne : next.1 ≠ change.1) :
    ∃ rest, (change :: next :: rest).Perm changes ∧ (rest.map Prod.fst ++ [change.1, next.1]).Nodup := by
  have hmem : next ∈ changes.erase change :=
    (List.mem_erase_of_ne fun hsame => hne (congrArg Prod.fst hsame)).mpr hnext
  have hperm : changes.Perm (change :: next :: (changes.erase change).erase next) :=
    (List.perm_cons_erase hchange).trans ((List.perm_cons_erase hmem).cons change)
  refine ⟨_, hperm.symm, ?_⟩
  exact (List.perm_append_comm.trans (hperm.map Prod.fst).symm).nodup_iff.mpr hnodup

section

variable (hnodup : (changes.map Prod.fst).Nodup)
  (h : ∀ first second, first.Perm changes → second.Perm changes →
    Alike (tracker.onPatchBegin crates view first) (tracker.onPatchBegin crates view second))

include hnodup h

/-- A baseline is taken or not, depending on whether the path is still untracked when its turn comes. -/
theorem tracked_of_alike (hchange : change ∈ changes) (hnext : next ∈ changes) (hne : next.1 ≠ change.1)
    (hplace : placeOf change = next.1) : tracker.externalToTempName next.1 ≠ none := by
  intro hnone
  obtain ⟨rest, hperm, hkeys⟩ := exists_rest hnodup hchange hnext hne
  have hrest : next.1 ∉ rest.map Prod.fst := fun hmem =>
    List.disjoint_of_nodup_append hkeys hmem (by simp)
  have hcard := (h _ _ hperm ((List.Perm.swap change next rest).trans hperm)).ncard_namesFor next.1
  have hfirst : (tracker.onPatchBegin crates view (change :: next :: rest)).namesFor next.1 =
      tracker.namesFor next.1 := by
    have htracked : (tracker.visit crates view change).externalToTempName next.1 ≠ none := by
      rw [← hplace, visit_external_place]
      exact nofun
    exact (namesFor_onPatchBegin hrest).trans
      ((namesFor_visit_of_tracked htracked _).trans (namesFor_visit_of_ne hne))
  have hsecond : (tracker.onPatchBegin crates view (next :: change :: rest)).namesFor next.1 =
      insert tracker.nextName (tracker.namesFor next.1) :=
    (namesFor_onPatchBegin hrest).trans ((namesFor_visit_of_ne hne).trans (namesFor_visit_self hnone))
  rw [hfirst, hsecond, Set.ncard_insert_of_notMem (nextName_notMem_namesFor tracker _)
    (finite_namesFor tracker _)] at hcard
  exact Nat.succ_ne_self _ hcard

/-- The last of the two changes decides whether the path is tracked. -/
theorem stays_of_alike (hchange : change ∈ changes) (hnext : next ∈ changes) (hne : next.1 ≠ change.1)
    (hplace : placeOf change = next.1) : placeOf next = next.1 := by
  by_contra hmoves
  obtain ⟨rest, hperm, -⟩ := exists_rest hnodup hchange hnext hne
  have hlast : (rest ++ [change, next]).Perm changes := List.perm_append_comm.trans hperm
  have hlast' : (rest ++ [next, change]).Perm changes :=
    List.perm_append_comm.trans ((List.Perm.swap change next rest).trans hperm)
  have hsame := (h _ _ hlast hlast').external_eq_none next.1
  rw [onPatchBegin_append, onPatchBegin_append] at hsame
  simp only [onPatchBegin, List.foldl_cons, List.foldl_nil] at hsame
  rw [visit_external, hplace, Function.update_self, visit_external, Function.update_of_ne (Ne.symm hmoves),
    Function.update_self] at hsame
  exact absurd (hsame.mpr rfl) nofun

/-- The first root that is found above a directory is the one that is known from then on. -/
theorem rootsApart_of_alike : RootsApart view tracker (changes.map Prod.fst) := by
  intro path other root otherRoot hpath hother hroot hotherRoot hle
  by_cases hne : other = path
  · subst hne
    exact Option.some.inj (hroot.symm.trans hotherRoot)
  obtain ⟨change, hchange, rfl⟩ := List.mem_map.mp hpath
  obtain ⟨next, hnext, rfl⟩ := List.mem_map.mp hother
  obtain ⟨rest, hperm, -⟩ := exists_rest hnodup hchange hnext hne
  have hroots := (h _ _ hperm ((List.Perm.swap change next rest).trans hperm)).roots
  obtain ⟨more, hmore⟩ := exists_gitRootCache_onPatchBegin crates view (tracker.visit crates view change)
    (next :: rest)
  obtain ⟨more', hmore'⟩ := exists_gitRootCache_onPatchBegin crates view (tracker.visit crates view next)
    (change :: rest)
  obtain ⟨-, -, -, hnew⟩ := foundRoot_eq_some_iff.mp hroot
  obtain ⟨dir, -, hcache, hfind⟩ := newRoot_eq_some_iff.mp hnew
  have hdir := startsWith_of_marker hfind
  have hsame := hroots dir
  rw [onPatchBegin, List.foldl_cons, ← onPatchBegin, hmore, onPatchBegin, List.foldl_cons, ← onPatchBegin, hmore',
    visit_gitRootCache, visit_gitRootCache, hroot, hotherRoot] at hsame
  simpa [List.find?_append, hcache, hdir, AbsolutePathBuf.startsWith_trans hdir hle] using hsame

/-- The path that two files are moved to belongs to the one that is moved last. -/
theorem together_of_alike (hchange : change ∈ changes) (hnext : next ∈ changes)
    (hmoves : Moves changes change.1 dest) (hother : Moves changes next.1 dest) :
    startInfo crates view tracker change.1 = startInfo crates view tracker next.1 := by
  by_cases hne : next.1 = change.1
  · rw [hne]
  have hplace : placeOf change = dest := placeOf_of_moves hnodup hchange hmoves
  have hplace' : placeOf next = dest := placeOf_of_moves hnodup hnext hother
  obtain ⟨rest, hperm, hkeys⟩ := exists_rest hnodup hchange hnext hne
  have hapart : RootsApart view tracker (rest.map Prod.fst ++ [change.1, next.1]) :=
    (rootsApart_of_alike hnodup h).mono (List.perm_append_comm.trans (hperm.map Prod.fst)).subset
  have hrest : ∀ others ∈ rest, others ∈ changes := fun others hmem => hperm.subset (by simp [hmem])
  -- A file that is moved is not a destination, so the rest of the patch leaves its baseline alone.
  have hinfo {moved : AbsolutePathBuf × FileChange} (hmoved : moved ∈ changes) (hleaves : placeOf moved ≠ moved.1)
      (hkey : moved.1 ∈ [change.1, next.1]) :
      startInfo crates view (tracker.onPatchBegin crates view rest) moved.1 = startInfo crates view tracker moved.1 := by
    have hsub : (rest.map Prod.fst ++ [moved.1]).Sublist (rest.map Prod.fst ++ [change.1, next.1]) :=
      (List.singleton_sublist.mpr hkey).append_left _
    have hnotMem : moved.1 ∉ rest.map Prod.fst := fun hmem => List.disjoint_of_nodup_append hkeys hmem hkey
    refine startInfo_onPatchBegin (hkeys.sublist hsub) (hapart.mono hsub.subset) fun others hothers hsame => hleaves ?_
    refine stays_of_alike hnodup h (hrest others hothers) hmoved ?_ hsame.symm
    exact fun hpath => hnotMem (hpath ▸ List.mem_map_of_mem hothers)
  have hlast : (rest ++ [change, next]).Perm changes := List.perm_append_comm.trans hperm
  have hlast' : (rest ++ [next, change]).Perm changes :=
    List.perm_append_comm.trans ((List.Perm.swap change next rest).trans hperm)
  have hsame := h _ _ hlast hlast'
  rw [onPatchBegin_append, onPatchBegin_append] at hsame
  have happart : RootsApart view (tracker.onPatchBegin crates view rest) [change.1, next.1] :=
    RootsApart.onPatchBegin hkeys hapart
  have hleft : next.1 ≠ placeOf change := hplace.trans hplace'.symm ▸ (hplace' ▸ hother.1).symm
  have hright : change.1 ≠ placeOf next := hplace'.trans hplace.symm ▸ (hplace ▸ hmoves.1).symm
  have hname : ((tracker.onPatchBegin crates view rest).onPatchBegin crates view [change, next]).externalToTempName
      dest = some _ := hplace' ▸ visit_external_place
  have hname' : ((tracker.onPatchBegin crates view rest).onPatchBegin crates view [next, change]).externalToTempName
      dest = some _ := hplace ▸ visit_external_place
  have hbaseline : startInfo crates view ((tracker.onPatchBegin crates view rest).visit crates view next) change.1 =
      startInfo crates view ((tracker.onPatchBegin crates view rest).visit crates view change) next.1 :=
    visit_baseline_nameOf.symm.trans ((hsame.baseline hname hname').trans visit_baseline_nameOf)
  rw [startInfo_visit (happart.mono (by simp)) (Ne.symm hne) hright, startInfo_visit happart hne hleft] at hbaseline
  calc startInfo crates view tracker change.1
    _ = startInfo crates view (tracker.onPatchBegin crates view rest) change.1 :=
        (hinfo hchange (hplace ▸ hmoves.1) (by simp)).symm
    _ = startInfo crates view (tracker.onPatchBegin crates view rest) next.1 := hbaseline
    _ = startInfo crates view tracker next.1 := hinfo hnext (hplace' ▸ hother.1) (by simp)

theorem settled_of_alike : Settled crates view tracker changes where
  onto := by
    intro path dest target hmoves hmem
    obtain ⟨change, hchange, rfl, hdest⟩ := moves_iff.mp hmoves
    have hplace : placeOf change = dest := placeOf_of_moves hnodup hchange hmoves
    refine ⟨tracked_of_alike hnodup h hchange hmem hmoves.1 hplace, fun other hother => ?_⟩
    have hstays := stays_of_alike hnodup h hchange hmem hmoves.1 hplace
    exact hother.1 ((placeOf_of_moves hnodup hmem hother).symm.trans hstays)
  together := by
    intro path other dest hmoves hother
    obtain ⟨change, hchange, rfl, -⟩ := moves_iff.mp hmoves
    obtain ⟨next, hnext, rfl, -⟩ := moves_iff.mp hother
    exact together_of_alike hnodup h hchange hnext hmoves hother
  repositories := fun hpath hother =>
    rootsApart_of_alike hnodup h (List.mem_map_of_mem (f := Prod.fst) hpath) (List.mem_map_of_mem (f := Prod.fst) hother)

end

end Codrex.TurnDiff.TurnDiffTracker
