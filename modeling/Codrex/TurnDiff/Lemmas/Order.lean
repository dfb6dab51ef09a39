import Codrex.Lib.Transition
import Codrex.TurnDiff.Lemmas.Steps
import Mathlib.Logic.Equiv.Basic

/-!
# Changes that change places

Two changes that do not get in each other's way lead to the same tracker up to the names, whichever comes first.
-/

namespace Codrex.TurnDiff.TurnDiffTracker

variable {crates : Crates} {view : FileView} {tracker : TurnDiffTracker} {name : InternalName}
  {changes : List (AbsolutePathBuf × FileChange)} {change next : AbsolutePathBuf × FileChange}
  {path other root : AbsolutePathBuf}

/-! ## A change at another path -/

/-- No root that is found for one of the paths lies within one that is found for another. -/
def RootsApart (view : FileView) (tracker : TurnDiffTracker) (paths : List AbsolutePathBuf) : Prop :=
  ∀ ⦃path other root otherRoot⦄, path ∈ paths → other ∈ paths → foundRoot view tracker path = some root →
    foundRoot view tracker other = some otherRoot → root.startsWith otherRoot = true → root = otherRoot

theorem foundRoot_eq_some_iff : foundRoot view tracker path = some root ↔
    tracker.externalToTempName path = none ∧ view.pathExists path = true ∧
      view.fileModeForPath path ≠ some .symlink ∧ newRoot view tracker.gitRootCache path = some root := by
  simp only [foundRoot]
  split <;> simp_all

theorem marker_of_foundRoot (h : foundRoot view tracker path = some root) : hasGitMarker view root = true := by
  obtain ⟨-, -, -, hnew⟩ := foundRoot_eq_some_iff.mp h
  obtain ⟨dir, -, -, hfind⟩ := newRoot_eq_some_iff.mp hnew
  exact List.find?_some hfind

theorem newRoot_of_append {cache : List AbsolutePathBuf} {more : List AbsolutePathBuf}
    (h : newRoot view (cache ++ more) path = some root) : newRoot view cache path = some root := by
  obtain ⟨dir, hdir, hcache, hfind⟩ := newRoot_eq_some_iff.mp h
  rw [List.find?_append, Option.or_eq_none_iff] at hcache
  exact newRoot_eq_some_iff.mpr ⟨dir, hdir, hcache.1, hfind⟩

theorem external_eq_none_of_visit (hne : path ≠ change.1)
    (h : (tracker.visit crates view change).externalToTempName path = none) :
    tracker.externalToTempName path = none := by
  by_cases hplace : path = placeOf change
  · rw [hplace, visit_external_place] at h
    cases h
  · rwa [visit_external_of_ne hne hplace] at h

theorem foundRoot_of_visit (hne : path ≠ change.1)
    (h : foundRoot view (tracker.visit crates view change) path = some root) :
    foundRoot view tracker path = some root := by
  obtain ⟨hnone, hexists, hmode, hnew⟩ := foundRoot_eq_some_iff.mp h
  rw [visit_gitRootCache] at hnew
  exact foundRoot_eq_some_iff.mpr ⟨external_eq_none_of_visit hne hnone, hexists, hmode, newRoot_of_append hnew⟩

theorem RootsApart.visit {paths : List AbsolutePathBuf} (h : RootsApart view tracker (change.1 :: paths))
    (hmem : change.1 ∉ paths) : RootsApart view (tracker.visit crates view change) paths := by
  intro path other root otherRoot hpath hother hroot hotherRoot
  exact h (List.mem_cons_of_mem _ hpath) (List.mem_cons_of_mem _ hother)
    (foundRoot_of_visit (ne_of_mem_of_not_mem hpath hmem) hroot)
    (foundRoot_of_visit (ne_of_mem_of_not_mem hother hmem) hotherRoot)

/-- The lookup of an untouched path finds the same root as before. -/
theorem findGitRootCached_visit (hapart : RootsApart view tracker [change.1, path])
    (hnone : tracker.externalToTempName path = none) (hexists : view.pathExists path = true)
    (hmode : view.fileModeForPath path ≠ some .symlink) :
    (findGitRootCached view (tracker.visit crates view change).gitRootCache path).1 =
      (findGitRootCached view tracker.gitRootCache path).1 := by
  rw [visit_gitRootCache]
  cases hfound : foundRoot view tracker change.1 with
  | none => rw [Option.toList_none, List.append_nil]
  | some more =>
      rw [findGitRootCached_fst, findGitRootCached_fst]
      cases hdir : lookupDir view path with
      | none => rfl
      | some dir =>
          simp only [Option.bind_some, Option.toList_some]
          refine find?_concat_of_apart (marker_of_foundRoot hfound) ?_
          intro root hroot hcache hle
          have hroot : foundRoot view tracker path = some root :=
            foundRoot_eq_some_iff.mpr ⟨hnone, hexists, hmode, newRoot_eq_some_iff.mpr ⟨dir, hdir, hcache, hroot⟩⟩
          rcases hle with hle | hle
          · exact hapart (by simp) (by simp) hroot hfound hle
          · exact (hapart (by simp) (by simp) hfound hroot hle).symm

theorem startInfo_visit (hapart : RootsApart view tracker [change.1, path]) (hne : path ≠ change.1)
    (hplace : path ≠ placeOf change) :
    startInfo crates view (tracker.visit crates view change) path = startInfo crates view tracker path := by
  have hexternal : (tracker.visit crates view change).externalToTempName path = tracker.externalToTempName path :=
    visit_external_of_ne hne hplace
  cases h : tracker.externalToTempName path with
  | some name =>
      rw [startInfo_of_tracked (hexternal.trans h), startInfo_of_tracked h, visit_baseline_of_lt (lt_nextName h)]
  | none =>
      rw [startInfo_of_untracked (hexternal.trans h), startInfo_of_untracked h]
      exact congrArg some (snapshot_fst_congr (findGitRootCached_visit hapart h))

theorem RootsApart.mono {paths others : List AbsolutePathBuf} (h : RootsApart view tracker paths)
    (hsub : others ⊆ paths) : RootsApart view tracker others :=
  fun _ _ _ _ hpath hother => h (hsub hpath) (hsub hother)

theorem RootsApart.onPatchBegin {paths : List AbsolutePathBuf} (hnodup : (changes.map Prod.fst ++ paths).Nodup)
    (h : RootsApart view tracker (changes.map Prod.fst ++ paths)) :
    RootsApart view (tracker.onPatchBegin crates view changes) paths := by
  induction changes generalizing tracker with
  | nil => exact h
  | cons change changes ih =>
      rw [List.map_cons, List.cons_append, List.nodup_cons] at hnodup
      exact ih hnodup.2 (RootsApart.visit h hnodup.1)

theorem startInfo_onPatchBegin (hnodup : (changes.map Prod.fst ++ [path]).Nodup)
    (hapart : RootsApart view tracker (changes.map Prod.fst ++ [path]))
    (hplace : ∀ change ∈ changes, path ≠ placeOf change) :
    startInfo crates view (tracker.onPatchBegin crates view changes) path = startInfo crates view tracker path := by
  induction changes generalizing tracker with
  | nil => rfl
  | cons change changes ih =>
      rw [List.map_cons, List.cons_append, List.nodup_cons] at hnodup
      have hvisited : RootsApart view (tracker.visit crates view change) (changes.map Prod.fst ++ [path]) :=
        RootsApart.visit hapart hnodup.1
      have hne : path ≠ change.1 := ne_of_mem_of_not_mem (by simp) hnodup.1
      refine (ih hnodup.2 hvisited fun change hchange => hplace change (List.mem_cons_of_mem _ hchange)).trans ?_
      exact startInfo_visit (hapart.mono (by simp)) hne (hplace change List.mem_cons_self)

/-! ## Renamings -/

/-- A renaming that leaves the names alone that are still to be given. -/
structure Renames (σ : Equiv.Perm InternalName) (first second : TurnDiffTracker) : Prop
    extends SameUpTo σ first second where
  nextName : second.nextName = first.nextName
  fixed : ∀ name, first.nextName ≤ name → σ name = name

theorem SameUpTo.refl (tracker : TurnDiffTracker) : SameUpTo (Equiv.refl _) tracker tracker where
  external := fun path => by simp
  baseline := fun _ => rfl
  current := fun _ => rfl
  roots := SameRoots.refl _

theorem Renames.refl (tracker : TurnDiffTracker) : Renames (Equiv.refl _) tracker tracker where
  toSameUpTo := SameUpTo.refl tracker
  nextName := rfl
  fixed := fun _ _ => rfl

theorem Renames.trans {σ τ : Equiv.Perm InternalName} {first second third : TurnDiffTracker}
    (h : Renames σ first second) (h' : Renames τ second third) : Renames (σ.trans τ) first third where
  external := fun path => by simp [h.external path, h'.external path, Option.map_map, Function.comp_def]
  baseline := fun name => (h'.baseline (σ name)).trans (h.baseline name)
  current := fun name => (h'.current (σ name)).trans (h.current name)
  roots := h.roots.trans h'.roots
  nextName := h'.nextName.trans h.nextName
  fixed := fun name hle => by
    rw [Equiv.trans_apply, h.fixed name hle, h'.fixed name (h.nextName ▸ hle)]

section

variable {σ : Equiv.Perm InternalName} {first second : TurnDiffTracker}

theorem Renames.nameOf (h : Renames σ first second) (path : AbsolutePathBuf) :
    second.nameOf path = σ (first.nameOf path) := by
  rw [TurnDiffTracker.nameOf, TurnDiffTracker.nameOf, h.external path]
  cases first.externalToTempName path with
  | none => rw [Option.map_none, Option.getD_none, Option.getD_none, h.nextName, h.fixed _ (Nat.le_refl _)]
  | some name => rfl

theorem Renames.startInfo (h : Renames σ first second) (path : AbsolutePathBuf) :
    startInfo crates view second path = startInfo crates view first path := by
  cases hpath : first.externalToTempName path with
  | none =>
      have hpath' : second.externalToTempName path = none := by rw [h.external path, hpath, Option.map_none]
      rw [startInfo_of_untracked hpath, startInfo_of_untracked hpath']
      exact congrArg some (snapshot_fst_congr fun _ _ => h.roots.symm.findGitRootCached_fst path)
  | some name =>
      have hpath' : second.externalToTempName path = some (σ name) := by
        rw [h.external path, hpath, Option.map_some]
      rw [startInfo_of_tracked hpath, startInfo_of_tracked hpath', h.baseline name]

theorem Renames.foundRoot (h : Renames σ first second) (path : AbsolutePathBuf) :
    foundRoot view second path = foundRoot view first path := by
  simp only [TurnDiffTracker.foundRoot, h.external path, Option.map_eq_none_iff, h.roots.symm.newRoot path]

theorem update_renamed {β : Type} {f g : InternalName → β} (h : ∀ name, g (σ name) = f name) (key : InternalName)
    (value : β) (name : InternalName) :
    Function.update g (σ key) value (σ name) = Function.update f key value name := by
  by_cases hname : name = key
  · rw [hname, Function.update_self, Function.update_self]
  · rw [Function.update_of_ne hname, Function.update_of_ne (σ.injective.ne hname), h name]

theorem Renames.visit (h : Renames σ first second) (change : AbsolutePathBuf × FileChange) :
    Renames σ (first.visit crates view change) (second.visit crates view change) where
  external := fun path => by
    rw [visit_external, visit_external, h.nameOf]
    by_cases hplace : path = placeOf change
    · rw [hplace, Function.update_self, Function.update_self, Option.map_some]
    · rw [Function.update_of_ne hplace, Function.update_of_ne hplace]
      by_cases hpath : path = change.1
      · rw [hpath, Function.update_self, Function.update_self, Option.map_none]
      · rw [Function.update_of_ne hpath, Function.update_of_ne hpath, h.external path]
  baseline := fun name => by
    rw [visit_baseline, visit_baseline, h.nameOf, h.startInfo]
    exact update_renamed h.baseline _ _ name
  current := fun name => by
    rw [visit_current, visit_current, h.nameOf]
    exact update_renamed h.current _ _ name
  roots := by
    rw [visit_gitRootCache, visit_gitRootCache, h.foundRoot]
    exact h.roots.append _
  nextName := by simp only [visit_nextName, h.nextName, h.external, Option.map_eq_none_iff]
  fixed := fun name hle => by
    rw [visit_nextName] at hle
    exact h.fixed name (Nat.le_of_add_right_le hle)

end

/-! ## Two changes -/

theorem nameOf_visit_of_tracked (hne : next.1 ≠ change.1) (hplace : next.1 ≠ placeOf change)
    (h : tracker.externalToTempName change.1 ≠ none ∨ tracker.externalToTempName next.1 ≠ none) :
    (tracker.visit crates view change).nameOf next.1 = tracker.nameOf next.1 := by
  rw [nameOf, nameOf, visit_external_of_ne hne hplace]
  cases hnext : tracker.externalToTempName next.1 with
  | some name => rfl
  | none =>
      have hchange : tracker.externalToTempName change.1 ≠ none := h.resolve_right (not_not_intro hnext)
      rw [Option.getD_none, Option.getD_none, visit_nextName, if_neg hchange, Nat.add_zero]

theorem foundRoot_visit (hapart : RootsApart view tracker [change.1, path]) (hne : path ≠ change.1)
    (hplace : path ≠ placeOf change) :
    foundRoot view (tracker.visit crates view change) path =
      if foundRoot view tracker path = foundRoot view tracker change.1 then none
      else foundRoot view tracker path := by
  have hexternal : (tracker.visit crates view change).externalToTempName path = tracker.externalToTempName path :=
    visit_external_of_ne hne hplace
  apply Option.ext
  intro root
  constructor
  · intro h
    have hpath := foundRoot_of_visit hne h
    rw [if_neg, hpath]
    intro hsame
    obtain ⟨-, -, -, hnew⟩ := foundRoot_eq_some_iff.mp h
    rw [visit_gitRootCache, ← hsame, hpath] at hnew
    obtain ⟨dir, -, hcache, hfind⟩ := newRoot_eq_some_iff.mp hnew
    exact List.find?_eq_none.mp hcache root (by simp) (startsWith_of_marker hfind)
  · intro h
    split at h
    · cases h
    next hdiffer =>
      obtain ⟨hnone, hexists, hmode, hnew⟩ := foundRoot_eq_some_iff.mp h
      obtain ⟨dir, hdir, hcache, hfind⟩ := newRoot_eq_some_iff.mp hnew
      refine foundRoot_eq_some_iff.mpr ⟨hexternal.trans hnone, hexists, hmode, ?_⟩
      refine newRoot_eq_some_iff.mpr ⟨dir, hdir, ?_, hfind⟩
      rw [visit_gitRootCache, List.find?_append, hcache, Option.none_or]
      cases hchange : foundRoot view tracker change.1 with
      | none => rfl
      | some more =>
          rw [Option.toList_some, List.find?_singleton, if_neg]
          intro hmore
          have hsame : root = more := by
            rcases startsWith_total (startsWith_of_marker hfind) hmore with hle | hle
            · exact hapart (by simp) (by simp) h hchange hle
            · exact (hapart (by simp) (by simp) hchange h hle).symm
          exact hdiffer (h.trans (hsame ▸ hchange.symm))

theorem sameRoots_visit_visit (hapart : RootsApart view tracker [change.1, next.1]) (hne : next.1 ≠ change.1)
    (hplace : next.1 ≠ placeOf change) (hplace' : change.1 ≠ placeOf next) :
    SameRoots ((tracker.visit crates view change).visit crates view next).gitRootCache
      ((tracker.visit crates view next).visit crates view change).gitRootCache := by
  have hapart' : RootsApart view tracker [next.1, change.1] := hapart.mono (by simp)
  rw [visit_gitRootCache, visit_gitRootCache, visit_gitRootCache, visit_gitRootCache,
    foundRoot_visit hapart hne hplace, foundRoot_visit hapart' hne.symm hplace']
  cases hchange : foundRoot view tracker change.1 with
  | none =>
      cases hnext : foundRoot view tracker next.1 <;> simpa using SameRoots.refl _
  | some root =>
      cases hnext : foundRoot view tracker next.1 with
      | none => simpa using SameRoots.refl _
      | some other =>
          by_cases hsame : other = root
          · simpa [hsame] using SameRoots.refl _
          · simpa [hsame, Ne.symm hsame] using SameRoots.concat_swap tracker.gitRootCache
              (hapart (by simp) (by simp) hchange hnext) (hapart (by simp) (by simp) hnext hchange)

theorem nameOf_lt_visit : tracker.nameOf change.1 < (tracker.visit crates view change).nextName := by
  have hcurrent : (tracker.visit crates view change).tempNameToCurrentPath (tracker.nameOf change.1) =
      some (placeOf change) := by
    rw [visit_current, Function.update_self]
  exact issued _ hcurrent

theorem nextName_le_visit : tracker.nextName ≤ (tracker.visit crates view change).nextName := by
  rw [visit_nextName]
  exact Nat.le_add_right _ _

section

variable {σ : Equiv.Perm InternalName}

theorem update_update_renamed {β : Type} (f : InternalName → β) {first second first' second' : InternalName}
    (hne : first ≠ second) (hfix : ∀ name, name ≠ first → name ≠ second → σ name = name)
    (hfirst : σ first = first') (hsecond : σ second = second') (value other : β) (name : InternalName) :
    Function.update (Function.update f second' other) first' value (σ name) =
      Function.update (Function.update f first value) second other name := by
  subst hfirst hsecond
  rw [Function.update_comm (σ.injective.ne hne).symm]
  by_cases hsecond : name = second
  · rw [hsecond, Function.update_self, Function.update_self]
  · rw [Function.update_of_ne hsecond, Function.update_of_ne (σ.injective.ne hsecond)]
    by_cases hfirst : name = first
    · rw [hfirst, Function.update_self, Function.update_self]
    · rw [Function.update_of_ne hfirst, Function.update_of_ne (σ.injective.ne hfirst), hfix name hfirst hsecond]

/-- How two changes exchange their names: each keeps its own, or the two names go to one place. -/
inductive Exchange (crates : Crates) (view : FileView) (tracker : TurnDiffTracker) (σ : Equiv.Perm InternalName)
    (change next : AbsolutePathBuf × FileChange) : Prop
  | apart (hplace : placeOf change ≠ placeOf next)
      (hchange : σ (tracker.nameOf change.1) = (tracker.visit crates view next).nameOf change.1)
      (hnext : σ ((tracker.visit crates view change).nameOf next.1) = tracker.nameOf next.1)
  | together (hplace : placeOf change = placeOf next)
      (hinfo : startInfo crates view tracker change.1 = startInfo crates view tracker next.1)
      (hchange : σ (tracker.nameOf change.1) = tracker.nameOf next.1)
      (hnext : σ ((tracker.visit crates view change).nameOf next.1) =
        (tracker.visit crates view next).nameOf change.1)

theorem renames_visit_visit (hapart : RootsApart view tracker [change.1, next.1]) (hne : next.1 ≠ change.1)
    (hplace : next.1 ≠ placeOf change) (hplace' : change.1 ≠ placeOf next)
    (hnames : tracker.nameOf change.1 ≠ (tracker.visit crates view change).nameOf next.1)
    (hfix : ∀ name, name ≠ tracker.nameOf change.1 → name ≠ (tracker.visit crates view change).nameOf next.1 →
      σ name = name)
    (hσ : Exchange crates view tracker σ change next) :
    Renames σ ((tracker.visit crates view change).visit crates view next)
      ((tracker.visit crates view next).visit crates view change) where
  external := fun path => by
    have hold : path ≠ change.1 → path ≠ next.1 → path ≠ placeOf change →
        tracker.externalToTempName path = (tracker.externalToTempName path).map σ := by
      intro hchange hnext hkept
      cases hpath : tracker.externalToTempName path with
      | none => rfl
      | some name =>
          have hvisited : (tracker.visit crates view change).externalToTempName path = some name :=
            (visit_external_of_ne hchange hkept).trans hpath
          rw [Option.map_some, hfix name (external_ne_nameOf hchange hpath) (external_ne_nameOf hnext hvisited)]
    simp only [visit_external]
    rcases hσ with ⟨happart, hchange, hnext⟩ | ⟨htogether, -, -, hnext⟩
    · by_cases hfirst : path = placeOf change
      · subst hfirst
        rw [Function.update_self, Function.update_of_ne happart, Function.update_of_ne hplace.symm,
          Function.update_self, Option.map_some, hchange]
      · by_cases hsecond : path = placeOf next
        · subst hsecond
          rw [Function.update_self, Function.update_of_ne hfirst, Function.update_of_ne hplace'.symm,
            Function.update_self, Option.map_some, hnext]
        · rw [Function.update_of_ne hfirst, Function.update_of_ne hsecond]
          by_cases hpath : path = change.1
          · subst hpath
            rw [Function.update_self, Function.update_of_ne hne.symm, Function.update_of_ne hfirst,
              Function.update_self, Option.map_none]
          · by_cases hpath' : path = next.1
            · subst hpath'
              rw [Function.update_self, Function.update_of_ne hne, Function.update_of_ne hsecond,
                Function.update_self, Option.map_none]
            · simp only [Function.update_of_ne hpath, Function.update_of_ne hpath', Function.update_of_ne hfirst,
                Function.update_of_ne hsecond]
              exact hold hpath hpath' hfirst
    · rw [← htogether] at hplace' ⊢
      by_cases hfirst : path = placeOf change
      · rw [hfirst, Function.update_self, Function.update_self, Option.map_some, hnext]
      · rw [Function.update_of_ne hfirst, Function.update_of_ne hfirst]
        by_cases hpath : path = change.1
        · subst hpath
          rw [Function.update_self, Function.update_of_ne hne.symm, Function.update_of_ne hfirst,
            Function.update_self, Option.map_none]
        · by_cases hpath' : path = next.1
          · subst hpath'
            rw [Function.update_self, Function.update_of_ne hne, Function.update_of_ne hfirst,
              Function.update_self, Option.map_none]
          · simp only [Function.update_of_ne hpath, Function.update_of_ne hpath', Function.update_of_ne hfirst]
            exact hold hpath hpath' hfirst
  baseline := fun name => by
    simp only [visit_baseline]
    rw [startInfo_visit hapart hne hplace, startInfo_visit (hapart.mono (by simp)) hne.symm hplace']
    rcases hσ with ⟨-, hchange, hnext⟩ | ⟨-, hinfo, hchange, hnext⟩
    · exact update_update_renamed _ hnames hfix hchange hnext _ _ name
    · rw [← hinfo, Function.update_comm (hchange ▸ hnext ▸ σ.injective.ne hnames)]
      exact update_update_renamed _ hnames hfix hchange hnext _ _ name
  current := fun name => by
    simp only [visit_current]
    rcases hσ with ⟨-, hchange, hnext⟩ | ⟨htogether, -, hchange, hnext⟩
    · exact update_update_renamed _ hnames hfix hchange hnext _ _ name
    · rw [← htogether, Function.update_comm (hchange ▸ hnext ▸ σ.injective.ne hnames)]
      exact update_update_renamed _ hnames hfix hchange hnext _ _ name
  roots := sameRoots_visit_visit hapart hne hplace hplace'
  nextName := by
    simp only [visit_nextName, visit_external_of_ne hne hplace, visit_external_of_ne hne.symm hplace']
    exact Nat.add_right_comm _ _ _
  fixed := fun name hle => by
    apply hfix name
    · exact (Nat.lt_of_lt_of_le nameOf_lt_visit (Nat.le_trans nextName_le_visit hle)).ne'
    · exact (Nat.lt_of_lt_of_le nameOf_lt_visit hle).ne'

end

/-! ## Patches in any order -/

/-- The paths are distinct, and no change gets in the way of another one. -/
def Ready (crates : Crates) (view : FileView) (tracker : TurnDiffTracker)
    (changes : List (AbsolutePathBuf × FileChange)) : Prop :=
  (changes.map Prod.fst).Nodup ∧ Settled crates view tracker changes

theorem Settled.rootsApart (h : Settled crates view tracker changes) :
    RootsApart view tracker (changes.map Prod.fst) := by
  intro path other root otherRoot hpath hother
  obtain ⟨⟨path, change⟩, hchange, rfl⟩ := List.mem_map.mp hpath
  obtain ⟨⟨other, otherChange⟩, hotherChange, rfl⟩ := List.mem_map.mp hother
  exact h.repositories hchange hotherChange

theorem Settled.mono {others : List (AbsolutePathBuf × FileChange)} (h : Settled crates view tracker others)
    (hsub : changes ⊆ others) : Settled crates view tracker changes where
  onto := fun hmoves hmem =>
    have ⟨htracked, hstays⟩ := h.onto (hmoves.mono hsub) (hsub hmem)
    ⟨htracked, fun other hother => hstays other (hother.mono hsub)⟩
  together := fun hmoves hother => h.together (hmoves.mono hsub) (hother.mono hsub)
  repositories := fun hchange hother => h.repositories (hsub hchange) (hsub hother)

theorem Ready.perm {others : List (AbsolutePathBuf × FileChange)} (hperm : changes.Perm others)
    (h : Ready crates view tracker changes) : Ready crates view tracker others :=
  ⟨(hperm.map _).nodup_iff.mp h.1, h.2.mono hperm.symm.subset⟩

/-- The path of a change that moves its file is not the destination of another one. -/
theorem Settled.ne_placeOf (h : Settled crates view tracker changes) (hmem : change ∈ changes) (hnext : next ∈ changes)
    (hne : next.1 ≠ change.1) (hmoves : ∃ dest, Moves changes next.1 dest) : next.1 ≠ placeOf change := by
  intro hplace
  obtain ⟨dest, hdest⟩ := hmoves
  have hchange : Moves changes change.1 next.1 := hplace ▸ moves_of_placeOf hmem (hplace ▸ hne)
  exact (h.onto hchange hnext).2 dest hdest

theorem Ready.tail (h : Ready crates view tracker (change :: changes)) :
    Ready crates view (tracker.visit crates view change) changes := by
  obtain ⟨hnodup, hsettled⟩ := h
  rw [List.map_cons, List.nodup_cons] at hnodup
  have hsub : changes ⊆ change :: changes := List.subset_cons_self change changes
  have hkey {path : AbsolutePathBuf} {dest : AbsolutePathBuf} (hmoves : Moves changes path dest) :
      path ≠ change.1 ∧ path ≠ placeOf change ∧
        RootsApart view tracker [change.1, path] := by
    obtain ⟨found, hfound, rfl, -⟩ := moves_iff.mp hmoves
    have hpath : found.1 ≠ change.1 := ne_of_mem_of_not_mem (List.mem_map_of_mem hfound) hnodup.1
    refine ⟨hpath, ?_, hsettled.rootsApart.mono ?_⟩
    · exact hsettled.ne_placeOf List.mem_cons_self (hsub hfound) hpath ⟨dest, hmoves.mono hsub⟩
    · simp only [List.map_cons, List.cons_subset, List.mem_cons, true_or, true_and, List.nil_subset, and_true]
      exact Or.inr (List.mem_map_of_mem hfound)
  refine ⟨hnodup.2, ?_, ?_, ?_⟩
  · intro path dest target hmoves hmem
    obtain ⟨htracked, hstays⟩ := hsettled.onto (hmoves.mono hsub) (hsub hmem)
    have hne : dest ≠ change.1 := ne_of_mem_of_not_mem (List.mem_map_of_mem (f := Prod.fst) hmem) hnodup.1
    exact ⟨fun hnone => htracked (external_eq_none_of_visit hne hnone),
      fun other hother => hstays other (hother.mono hsub)⟩
  · intro path other dest hmoves hother
    obtain ⟨hpath, hplace, hapart⟩ := hkey hmoves
    obtain ⟨hpath', hplace', hapart'⟩ := hkey hother
    rw [startInfo_visit hapart hpath hplace, startInfo_visit hapart' hpath' hplace']
    exact hsettled.together (hmoves.mono hsub) (hother.mono hsub)
  · intro path target other otherTarget root otherRoot hpath hother
    exact RootsApart.visit hsettled.rootsApart hnodup.1 (List.mem_map_of_mem (f := Prod.fst) hpath)
      (List.mem_map_of_mem (f := Prod.fst) hother)

/-- The next change is to a path that is tracked and stays, and does nothing. -/
theorem visit_visit_of_onto (htracked : tracker.externalToTempName next.1 ≠ none) (hstays : placeOf next = next.1)
    (hplace : next.1 = placeOf change) :
    (tracker.visit crates view change).visit crates view next =
      (tracker.visit crates view next).visit crates view change := by
  obtain ⟨name, hname⟩ := Option.ne_none_iff_exists'.mp htracked
  have hvisited : (tracker.visit crates view change).externalToTempName next.1 =
      some (tracker.nameOf change.1) := hplace ▸ visit_external_place
  rw [visit_of_settled hvisited hstays, visit_of_settled hname hstays]

theorem exists_exchange (hne : next.1 ≠ change.1) (hplace : next.1 ≠ placeOf change)
    (hplace' : change.1 ≠ placeOf next)
    (htogether : placeOf change = placeOf next →
      startInfo crates view tracker change.1 = startInfo crates view tracker next.1) :
    tracker.nameOf change.1 ≠ (tracker.visit crates view change).nameOf next.1 ∧
    ∃ σ : Equiv.Perm InternalName, Exchange crates view tracker σ change next ∧
      ∀ name, name ≠ tracker.nameOf change.1 → name ≠ (tracker.visit crates view change).nameOf next.1 →
        σ name = name := by
  by_cases hfresh : tracker.externalToTempName change.1 = none ∧ tracker.externalToTempName next.1 = none
  · obtain ⟨hchange, hnext⟩ := hfresh
    have hvisited : (tracker.visit crates view change).nameOf next.1 = tracker.nextName + 1 := by
      rw [nameOf_of_untracked ((visit_external_of_ne hne hplace).trans hnext), visit_nextName, if_pos hchange]
    have hvisited' : (tracker.visit crates view next).nameOf change.1 = tracker.nextName + 1 := by
      rw [nameOf_of_untracked ((visit_external_of_ne hne.symm hplace').trans hchange), visit_nextName, if_pos hnext]
    have hdiffer : placeOf change ≠ placeOf next := by
      intro hsame
      have hinfo := htogether hsame
      rw [startInfo_of_untracked hchange, startInfo_of_untracked hnext, Option.some.injEq] at hinfo
      exact hne ((snapshot_path _ _).symm.trans ((congrArg BaselineFileInfo.path hinfo.symm).trans
        (snapshot_path _ _)))
    rw [hvisited, nameOf_of_untracked hchange]
    refine ⟨(Nat.lt_succ_self _).ne, Equiv.swap tracker.nextName (tracker.nextName + 1), ?_, ?_⟩
    · refine .apart hdiffer ?_ ?_
      · rw [nameOf_of_untracked hchange, hvisited', Equiv.swap_apply_left]
      · rw [hvisited, nameOf_of_untracked hnext, Equiv.swap_apply_right]
    · exact fun name => Equiv.swap_apply_of_ne_of_ne
  · have hsome : tracker.externalToTempName change.1 ≠ none ∨ tracker.externalToTempName next.1 ≠ none :=
      not_and_or.mp hfresh
    have hvisited : (tracker.visit crates view change).nameOf next.1 = tracker.nameOf next.1 :=
      nameOf_visit_of_tracked hne hplace hsome
    have hvisited' : (tracker.visit crates view next).nameOf change.1 = tracker.nameOf change.1 :=
      nameOf_visit_of_tracked hne.symm hplace' hsome.symm
    have hnames : tracker.nameOf change.1 ≠ tracker.nameOf next.1 := by
      rcases hsome with h | h
      · obtain ⟨name, hname⟩ := Option.ne_none_iff_exists'.mp h
        rw [nameOf_of_tracked hname]
        exact external_ne_nameOf hne.symm hname
      · obtain ⟨name, hname⟩ := Option.ne_none_iff_exists'.mp h
        rw [nameOf_of_tracked hname]
        exact (external_ne_nameOf hne hname).symm
    rw [hvisited]
    refine ⟨hnames, ?_⟩
    by_cases hsame : placeOf change = placeOf next
    · refine ⟨Equiv.swap (tracker.nameOf change.1) (tracker.nameOf next.1), ?_, ?_⟩
      · refine .together hsame (htogether hsame) ?_ ?_
        · rw [Equiv.swap_apply_left]
        · rw [hvisited, hvisited', Equiv.swap_apply_right]
      · exact fun name => Equiv.swap_apply_of_ne_of_ne
    · exact ⟨Equiv.refl _, .apart hsame hvisited'.symm hvisited, fun _ _ _ => rfl⟩

theorem Ready.swap (h : Ready crates view tracker (change :: next :: changes)) :
    ∃ σ, Renames σ ((tracker.visit crates view change).visit crates view next)
      ((tracker.visit crates view next).visit crates view change) := by
  obtain ⟨hnodup, hsettled⟩ := h
  have hchange : change ∈ change :: next :: changes := List.mem_cons_self
  have hnext : next ∈ change :: next :: changes := List.mem_cons_of_mem _ List.mem_cons_self
  have hne : next.1 ≠ change.1 := by
    rintro hsame
    simp [hsame] at hnodup
  by_cases hplace : next.1 = placeOf change
  · have hmoves : Moves (change :: next :: changes) change.1 next.1 :=
      hplace ▸ moves_of_placeOf hchange (hplace ▸ hne)
    obtain ⟨htracked, hstays⟩ := hsettled.onto hmoves hnext
    have hplaceNext : placeOf next = next.1 := by_contra fun h => hstays _ (moves_of_placeOf hnext h)
    rw [visit_visit_of_onto htracked hplaceNext hplace]
    exact ⟨_, Renames.refl _⟩
  · by_cases hplace' : change.1 = placeOf next
    · have hmoves : Moves (change :: next :: changes) next.1 change.1 :=
        hplace' ▸ moves_of_placeOf hnext (hplace' ▸ hne.symm)
      obtain ⟨htracked, hstays⟩ := hsettled.onto hmoves hchange
      have hplaceChange : placeOf change = change.1 := by_contra fun h => hstays _ (moves_of_placeOf hchange h)
      rw [visit_visit_of_onto htracked hplaceChange hplace']
      exact ⟨_, Renames.refl _⟩
    · have htogether (hsame : placeOf change = placeOf next) :
          startInfo crates view tracker change.1 = startInfo crates view tracker next.1 :=
        hsettled.together (moves_of_placeOf hchange fun h => hplace' (h.symm.trans hsame))
          (hsame ▸ moves_of_placeOf hnext fun h => hplace (h.symm.trans hsame.symm))
      obtain ⟨hnames, σ, hσ, hfix⟩ := exists_exchange hne hplace hplace' htogether
      have hapart : RootsApart view tracker [change.1, next.1] := hsettled.rootsApart.mono (by simp)
      exact ⟨σ, renames_visit_visit hapart hne hplace hplace' hnames hfix hσ⟩

theorem interchange : Commuting.Interchange (visit crates view) (fun first second => ∃ σ, Renames σ first second)
    (Ready crates view) where
  refl := fun tracker => ⟨_, Renames.refl tracker⟩
  trans := fun ⟨_, h⟩ ⟨_, h'⟩ => ⟨_, h.trans h'⟩
  congr := fun change ⟨σ, h⟩ => ⟨σ, h.visit change⟩
  perm := Ready.perm
  tail := Ready.tail
  swap := Ready.swap

theorem Ready.onPatchBegin {first second : List (AbsolutePathBuf × FileChange)}
    (h : Ready crates view tracker changes) (hfirst : first.Perm changes) (hsecond : second.Perm changes) :
    ∃ σ, Renames σ (tracker.onPatchBegin crates view first) (tracker.onPatchBegin crates view second) :=
  interchange.foldl_perm (hfirst.trans hsecond.symm) (h.perm hfirst.symm)

end Codrex.TurnDiff.TurnDiffTracker
