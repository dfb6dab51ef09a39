import Codrex.TurnDiff.Lemmas.Baselines
import Mathlib.Data.List.ReduceOption

/-!
# Turns

What every patch keeps holds at the end of the turn, and the blocks of the diff can be read off from it.
-/

namespace Codrex.TurnDiff

open Utf8 ApplyPatch TurnDiffTracker

variable {crates : Crates} {start view : FileView} {tracker : TurnDiffTracker} {whereabouts : Whereabouts}
  {patch : Patch} {path : AbsolutePathBuf} {name : InternalName}

/-! ## Patches -/

theorem Patch.nodup_visited (patch : Patch) : (patch.visited.map Prod.fst).Nodup := by
  rw [(patch.perm.map Prod.fst).nodup_iff, List.map_map]
  exact patch.distinct

theorem Patch.mem_keys (patch : Patch) (h : path ∈ patch.visited.map Prod.fst) :
    ∃ entry ∈ patch.changes, entry.1 = path := by
  obtain ⟨change, hchange, rfl⟩ := List.mem_map.mp h
  obtain ⟨entry, hentry, rfl⟩ := List.mem_map.mp (patch.perm.subset hchange)
  exact ⟨entry, hentry, rfl⟩

theorem Readable.leftBytes_snapshot (h : Readable view patch) (hcrates : ∀ data, crates.sha1Hex data ≠ zeroOid)
    (cache : List AbsolutePathBuf) (hpath : path ∈ patch.visited.map Prod.fst) :
    leftBytes (snapshot crates view cache path).1 = view.contents path := by
  obtain ⟨entry, hentry, rfl⟩ := patch.mem_keys hpath
  exact TurnDiff.leftBytes_snapshot hcrates h.hashed (h.readable entry hentry) cache

theorem Patch.followed_eq (patch : Patch) (whereabouts : Whereabouts) : patch.followed whereabouts =
    (patch.changes.map fun change => (change.1, toProtocol change.2)).foldl Whereabouts.pass whereabouts := by
  rw [List.foldl_map, Patch.followed]
  congr 1
  funext whereabouts entry
  exact Whereabouts.follow_eq whereabouts entry

theorem MovesOntoKnown.placeOf_eq (h : MovesOntoKnown tracker view patch)
    {change next : AbsolutePathBuf × FileChange} (hchange : change ∈ patch.visited) (hnext : next ∈ patch.visited)
    (hne : next.1 ≠ change.1) (hplace : next.1 = placeOf change) : placeOf next = next.1 := by
  by_contra hmoves
  have honto : Moves patch.visited change.1 next.1 := hplace ▸ moves_of_placeOf hchange (hplace ▸ hne)
  exact h.stays honto (moves_of_placeOf hnext hmoves)

/-- The order of the hash map does not matter for where the files are. -/
theorem MovesOntoKnown.followed_eq (h : MovesOntoKnown tracker view patch) (whereabouts : Whereabouts) :
    patch.followed whereabouts = patch.visited.foldl Whereabouts.pass whereabouts := by
  rw [Patch.followed_eq]
  refine (patch.perm.foldl_eq' (fun change hchange next hnext whereabouts => ?_) _).symm
  by_cases hne : next.1 = change.1
  · rw [List.inj_on_of_nodup_map patch.nodup_visited hnext hchange hne]
  by_cases hplace : next.1 = placeOf change
  · have hstays := h.placeOf_eq hchange hnext hne hplace
    simp only [Whereabouts.pass, hstays, Whereabouts.move_self]
  by_cases hplace' : change.1 = placeOf next
  · have hstays := h.placeOf_eq hnext hchange (Ne.symm hne) hplace'
    simp only [Whereabouts.pass, hstays, Whereabouts.move_self]
  have hapart : placeOf change ≠ placeOf next := by
    intro hsame
    have hmoves := moves_of_placeOf hchange fun h => hplace' (h.symm.trans hsame)
    have hother := moves_of_placeOf hnext fun h => hplace (h.symm.trans hsame.symm)
    exact hne (h.alone hmoves (hsame ▸ hother)).symm
  exact Whereabouts.move_move whereabouts (Ne.symm hne) hapart hplace hplace'

theorem MovesOntoKnown.known' (h : MovesOntoKnown tracker view patch) :
    Known view.contents tracker patch.visited := by
  intro change hchange hmoves
  refine ⟨h.known (moves_of_placeOf hchange hmoves), fun next hnext hplace => ?_⟩
  exact h.placeOf_eq hchange hnext (hplace ▸ hmoves) hplace

theorem MovesNothing.placeOf_eq (h : MovesNothing patch) {change : AbsolutePathBuf × FileChange}
    (hchange : change ∈ patch.visited) : placeOf change = change.1 :=
  by_contra fun hmoves => h _ _ (moves_of_placeOf hchange hmoves)

theorem MovesNothing.movesOntoKnown (h : MovesNothing patch) : MovesOntoKnown tracker view patch where
  known := fun hmoves => absurd hmoves (h _ _)
  stays := fun hmoves => absurd hmoves (h _ _)
  alone := fun hmoves => absurd hmoves (h _ _)

/-- A patch keeps what is known of a path, when a move to it is excluded or it held a file at the start. -/
theorem Kept.step {contents : Contents} {view' : FileView} (hcrates : ∀ data, crates.sha1Hex data ≠ zeroOid)
    (hreadable : Readable view patch) (hknown : MovesOntoKnown tracker view patch)
    (hcontents : view'.contents = patch.applied view.contents)
    (hplace : contents path = none → ∀ change ∈ patch.visited, path = placeOf change → path = change.1)
    (h : Kept contents view.contents tracker whereabouts path) :
    Kept contents view'.contents (tracker.onPatchBegin crates view patch.visited) (patch.followed whereabouts) path := by
  rw [hknown.followed_eq]
  rcases h with htracked | huntouched
  · exact Or.inl (htracked.onPatchBegin patch.visited)
  · refine (huntouched.onPatchBegin (hreadable.leftBytes_snapshot hcrates) hplace hknown.known').imp_right ?_
    rintro ⟨⟨hexternal, hsame, hresident⟩, hne⟩
    refine ⟨hexternal, ?_, hresident⟩
    rw [hcontents, Patch.applied, applied_of_ne, hsame]
    exact fun entry hentry => hne _ (patch.perm.symm.subset (List.mem_map_of_mem hentry))

/-! ## Turns -/

theorem kept_begin (contents : Contents) (path : AbsolutePathBuf) :
    Kept contents contents .new .start path :=
  Or.inr ⟨rfl, rfl, rfl⟩

theorem Turn.kept (hcrates : ∀ data, crates.sha1Hex data ≠ zeroOid)
    (turn : Turn crates (fun tracker view patch => Readable view patch ∧ MovesOntoKnown tracker view patch) start
      tracker view whereabouts) (hpath : start.contents path ≠ none) :
    Kept start.contents view.contents tracker whereabouts path := by
  induction turn with
  | begin => exact kept_begin _ path
  | patch patch view' _ hallowed hcontents ih =>
      exact ih.step hcrates hallowed.1 hallowed.2 hcontents fun hnone => absurd hnone hpath

/-- Without moves every baseline is the one of a tracked path. -/
def Named (tracker : TurnDiffTracker) : Prop :=
  ∀ name info, tracker.baselineFileInfo name = some info → tracker.externalToTempName info.path = some name

theorem Named.visit (h : Named tracker) {change : AbsolutePathBuf × FileChange} (hplace : placeOf change = change.1) :
    Named (tracker.visit crates view change) := by
  intro name info hinfo
  rw [visit_baseline] at hinfo
  rw [visit_external, hplace, Function.update_idem]
  by_cases hname : name = tracker.nameOf change.1
  · subst hname
    rw [Function.update_self] at hinfo
    have hpath : info.path = change.1 := by
      cases hchange : tracker.externalToTempName change.1 with
      | none =>
          rw [startInfo_of_untracked hchange, Option.some.injEq] at hinfo
          exact hinfo ▸ snapshot_path _ _
      | some found =>
          rw [startInfo_of_tracked hchange] at hinfo
          exact external_injective (h found info hinfo) hchange
    rw [hpath, Function.update_self]
  · rw [Function.update_of_ne hname] at hinfo
    have hexternal := h name info hinfo
    have hpath : info.path ≠ change.1 := fun hpath =>
      hname (nameOf_of_tracked (hpath ▸ hexternal)).symm
    rw [Function.update_of_ne hpath, hexternal]

theorem Named.onPatchBegin {changes : List (AbsolutePathBuf × FileChange)} (h : Named tracker)
    (hplace : ∀ change ∈ changes, placeOf change = change.1) :
    Named (tracker.onPatchBegin crates view changes) := by
  induction changes generalizing tracker with
  | nil => exact h
  | cons change changes ih =>
      exact ih (h.visit (hplace change List.mem_cons_self)) fun next hnext =>
        hplace next (List.mem_cons_of_mem _ hnext)

theorem foldl_pass_of_stays {changes : List (AbsolutePathBuf × FileChange)}
    (hplace : ∀ change ∈ changes, placeOf change = change.1) :
    changes.foldl Whereabouts.pass whereabouts = whereabouts := by
  induction changes with
  | nil => rfl
  | cons change changes ih =>
      rw [List.foldl_cons, Whereabouts.pass, hplace change List.mem_cons_self, Whereabouts.move_self]
      exact ih fun next hnext => hplace next (List.mem_cons_of_mem _ hnext)

theorem Turn.named (turn : Turn crates (fun _ view patch => Readable view patch ∧ MovesNothing patch) start tracker
    view whereabouts) : Named tracker ∧ whereabouts = .start := by
  induction turn with
  | begin => exact ⟨nofun, rfl⟩
  | @patch tracker view whereabouts patch view' _ hallowed hcontents ih =>
      obtain ⟨hnamed, rfl⟩ := ih
      refine ⟨hnamed.onPatchBegin fun change => hallowed.2.placeOf_eq, ?_⟩
      have hknown : MovesOntoKnown tracker view patch := hallowed.2.movesOntoKnown
      rw [hknown.followed_eq]
      exact foldl_pass_of_stays fun change => hallowed.2.placeOf_eq

theorem Turn.kept_of_movesNothing (hcrates : ∀ data, crates.sha1Hex data ≠ zeroOid)
    (turn : Turn crates (fun _ view patch => Readable view patch ∧ MovesNothing patch) start tracker view whereabouts)
    (path : AbsolutePathBuf) : Kept start.contents view.contents tracker whereabouts path := by
  induction turn with
  | begin => exact kept_begin _ path
  | patch patch view' _ hallowed hcontents ih =>
      refine ih.step hcrates hallowed.1 hallowed.2.movesOntoKnown hcontents fun _ change hchange hplace => ?_
      rw [hplace, hallowed.2.placeOf_eq hchange]

/-! ## The blocks -/

theorem compared_of_tracked {info : BaselineFileInfo} {place : AbsolutePathBuf}
    (hinfo : tracker.baselineFileInfo name = some info) (hcurrent : tracker.tempNameToCurrentPath name = some place)
    (hdiffer : leftBytes info ≠ view.contents place) :
    compared view tracker name = some ⟨info.path, place, leftBytes info, view.contents place⟩ := by
  rw [compared, getPathForInternal, hcurrent, Option.some_or, Option.bind_some, hinfo, Option.getD_some]
  exact if_neg hdiffer

theorem leftPath_of_compared {found : Comparison} {info : BaselineFileInfo}
    (h : compared view tracker name = some found) (hinfo : tracker.baselineFileInfo name = some info) :
    found.leftPath = info.path := by
  obtain ⟨current, -, hfound⟩ := Option.bind_eq_some_iff.mp h
  simp only [hinfo, Option.getD_some] at hfound
  split at hfound
  · cases hfound
  · cases hfound
    rfl

theorem exists_fileDiff {names : List InternalName} {found : Comparison} (hname : name ∈ names)
    (h : compared view tracker name = some found) :
    ∃ diff, some diff ∈ tracker.allFileDiffs crates view names ∧ comparison diff = found := by
  have hmem : some found ∈ (tracker.allFileDiffs crates view names).map (Option.map comparison) :=
    (perm_compared crates view tracker names).symm.subset (h ▸ List.mem_map_of_mem hname)
  obtain ⟨diff?, hdiff, hfound⟩ := List.mem_map.mp hmem
  obtain ⟨diff, rfl, hcomparison⟩ := Option.map_eq_some_iff.mp hfound
  exact ⟨diff, hdiff, hcomparison⟩

theorem keepsBaselines_of_kept (h : ∀ path, start.contents path ≠ none →
      Kept start.contents view.contents tracker whereabouts path) :
    KeepsBaselines crates start tracker view whereabouts := by
  intro names hnames path content hstart hchanged hunmoved
  rcases h path (by rw [hstart]; exact nofun) with htracked | huntouched
  · obtain ⟨name, info, hinfo, rfl, hleft, hcurrent, -⟩ := htracked
    have hdiffer : leftBytes info ≠ view.contents (whereabouts.lastPlace info.path) := by
      intro hsame
      rw [hleft] at hsame
      by_cases hplace : whereabouts.lastPlace info.path = info.path
      · exact hchanged (by rw [← hstart, hsame, hplace])
      · exact hunmoved ⟨hplace, hsame.symm⟩
    have hmem : name ∈ names := (hnames.mem name).mpr (by rw [hinfo, Option.isSome_some])
    obtain ⟨diff, hdiff, hcomparison⟩ := exists_fileDiff hmem (compared_of_tracked hinfo hcurrent hdiffer)
    refine ⟨diff, hdiff, congrArg Comparison.leftPath hcomparison, ?_⟩
    exact (congrArg Comparison.leftBytes hcomparison).trans (hleft.trans hstart)
  · exact absurd (huntouched.contents.trans hstart) hchanged

/-- Without moves the block of a name compares the path of its baseline at the start and now. -/
theorem compared_of_named (hnamed : Named tracker)
    (hkept : ∀ path, Kept start.contents view.contents tracker .start path) {info : BaselineFileInfo}
    (hinfo : tracker.baselineFileInfo name = some info) : compared view tracker name =
      if start.contents info.path = view.contents info.path then none
      else some ⟨info.path, info.path, start.contents info.path, view.contents info.path⟩ := by
  have hexternal := hnamed name info hinfo
  have hleft : leftBytes info = start.contents info.path := by
    rcases hkept info.path with ⟨found, other, hother, -, hleft, -, hresident⟩ | huntouched
    · have hsame : name = found := Option.some.inj (hexternal.symm.trans (hresident.mp rfl))
      rw [← hsame, hinfo, Option.some.injEq] at hother
      exact hother ▸ hleft
    · cases huntouched.external.symm.trans hexternal
  rw [compared, getPathForInternal, tracker.current hexternal, Option.some_or, Option.bind_some, hinfo,
    Option.getD_some]
  simp only [hleft]

theorem perm_comparison (crates : Crates) (names : List InternalName) :
    ((tracker.allFileDiffs crates view names).reduceOption.map comparison).Perm
      (names.filterMap (compared view tracker)) := by
  have hperm : ((tracker.allFileDiffs crates view names).map (Option.map comparison)).reduceOption.Perm
      ((names.map (compared view tracker)).filterMap id) := (perm_compared crates view tracker names).filterMap id
  rwa [List.reduceOption_map, List.filterMap_map, Function.id_comp] at hperm

theorem oneBlockPerChange_of_kept (hnamed : Named tracker)
    (hkept : ∀ path, Kept start.contents view.contents tracker .start path) :
    OneBlockPerChange crates start tracker view := by
  intro names hnames
  have hcompared {name : InternalName} {found : Comparison} (hfound : compared view tracker name = some found) :
      tracker.externalToTempName found.leftPath = some name ∧ found.rightPath = found.leftPath ∧
        found.leftBytes = start.contents found.leftPath ∧ found.rightBytes = view.contents found.leftPath ∧
        start.contents found.leftPath ≠ view.contents found.leftPath := by
    cases hinfo : tracker.baselineFileInfo name with
    | none =>
        rw [compared, getPathForInternal, hinfo, current_eq_none (baseline_eq_none.mp hinfo)] at hfound
        cases hfound
    | some info =>
        rw [compared_of_named hnamed hkept hinfo] at hfound
        split at hfound
        · cases hfound
        · next hdiffer =>
            cases hfound
            exact ⟨hnamed name info hinfo, rfl, rfl, rfl, hdiffer⟩
  have hperm : ((tracker.allFileDiffs crates view names).reduceOption.map comparison).Perm
      (names.filterMap (compared view tracker)) := perm_comparison crates names
  have hpaths : ((tracker.allFileDiffs crates view names).reduceOption.map FileDiff.leftPath).Perm
      ((names.filterMap (compared view tracker)).map Comparison.leftPath) := by
    have hleft := hperm.map Comparison.leftPath
    rwa [List.map_map] at hleft
  refine ⟨?_, fun path => ?_, fun diff hdiff => ?_⟩
  · rw [hpaths.nodup_iff, List.map_filterMap]
    refine hnames.nodup.filterMap fun name other path h h' => ?_
    obtain ⟨found, hfound, rfl⟩ := Option.map_eq_some_iff.mp h
    obtain ⟨found', hfound', hpath⟩ := Option.map_eq_some_iff.mp h'
    exact Option.some.inj ((hcompared hfound).1.symm.trans (hpath ▸ (hcompared hfound').1))
  · rw [hpaths.mem_iff, List.mem_map]
    constructor
    · rintro ⟨found, hfound, rfl⟩
      obtain ⟨name, -, hcomparison⟩ := List.mem_filterMap.mp hfound
      exact (hcompared hcomparison).2.2.2.2
    · intro hdiffer
      rcases hkept path with ⟨name, info, hinfo, rfl, -, -, -⟩ | huntouched
      · have hmem : name ∈ names := (hnames.mem name).mpr (by rw [hinfo, Option.isSome_some])
        have hblock := compared_of_named hnamed hkept hinfo
        rw [if_neg hdiffer] at hblock
        exact ⟨_, List.mem_filterMap.mpr ⟨name, hmem, hblock⟩, rfl⟩
      · exact absurd huntouched.contents.symm hdiffer
  · have hfound : comparison diff ∈ names.filterMap (compared view tracker) :=
      hperm.subset (List.mem_map_of_mem hdiff)
    obtain ⟨name, -, hcomparison⟩ := List.mem_filterMap.mp hfound
    obtain ⟨-, hright, hleftBytes, hrightBytes, -⟩ := hcompared hcomparison
    exact ⟨hright, hleftBytes, hrightBytes⟩

end Codrex.TurnDiff
