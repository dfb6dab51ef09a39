import Codrex.TurnDiff.Lemmas.Diffs

/-!
# Baselines through a turn

A file of the start of the turn is untouched, or some name has its baseline and is wherever the file last was.
-/

namespace Codrex.TurnDiff

open Utf8 ApplyPatch

variable {crates : Crates} {view : FileView} {tracker : TurnDiffTracker} {whereabouts : Whereabouts}
  {start contents : Contents} {change next : AbsolutePathBuf × FileChange} {path dest : AbsolutePathBuf}

/-! ## Where the files are -/

namespace Whereabouts

/-- The change moves the file of its path to its place. -/
def pass (whereabouts : Whereabouts) (change : AbsolutePathBuf × FileChange) : Whereabouts :=
  whereabouts.move change.1 (placeOf change)

theorem pass_resident (whereabouts : Whereabouts) (change : AbsolutePathBuf × FileChange) :
    (whereabouts.pass change).resident = Function.update (Function.update whereabouts.resident change.1 none)
      (placeOf change) (whereabouts.resident change.1) := rfl

theorem move_self (whereabouts : Whereabouts) (path : AbsolutePathBuf) : whereabouts.move path path = whereabouts := by
  refine Whereabouts.ext ?_ ?_
  · simp only [move, Function.update_idem, Function.update_eq_self]
  · funext file
    simp only [move]
    split
    · next h => exact (whereabouts.lastPlace_of_resident h).symm
    · rfl

theorem follow_eq (whereabouts : Whereabouts) (entry : AbsolutePathBuf × ApplyPatchFileChange) :
    whereabouts.follow entry = whereabouts.pass (entry.1, toProtocol entry.2) := by
  rcases entry with ⟨path, content | content | ⟨unifiedDiff, _ | dest, newContent⟩⟩
  · exact (move_self whereabouts path).symm
  · exact (move_self whereabouts path).symm
  · exact (move_self whereabouts path).symm
  · have hplace : placeOf (path, toProtocol (.update unifiedDiff (some dest) newContent)) = dest := by
      by_cases hdest : dest = path <;> simp [toProtocol, placeOf, destOf, hdest]
    rw [follow, pass, hplace]

theorem move_move {path other dest target : AbsolutePathBuf} (whereabouts : Whereabouts) (hne : path ≠ other)
    (hdest : dest ≠ target) (hother : other ≠ dest) (hpath : path ≠ target) :
    (whereabouts.move path dest).move other target = (whereabouts.move other target).move path dest := by
  refine Whereabouts.ext ?_ ?_
  · funext place
    simp only [move, Function.update_apply]
    grind
  · funext file
    have hfile : whereabouts.resident path = some file → whereabouts.resident other ≠ some file := fun h h' =>
      hne ((whereabouts.lastPlace_of_resident h).symm.trans (whereabouts.lastPlace_of_resident h'))
    simp only [move, Function.update_apply]
    grind

end Whereabouts

/-! ## One change -/

/-- No patch has touched the path yet. -/
structure Untouched (start contents : Contents) (tracker : TurnDiffTracker) (whereabouts : Whereabouts)
    (path : AbsolutePathBuf) : Prop where
  external : tracker.externalToTempName path = none
  contents : contents path = start path
  resident : whereabouts.resident path = some path

/-- A name has the baseline of the path, and goes with its file. -/
def Tracked (start : Contents) (tracker : TurnDiffTracker) (whereabouts : Whereabouts) (path : AbsolutePathBuf) : Prop :=
  ∃ name info, tracker.baselineFileInfo name = some info ∧ info.path = path ∧
    TurnDiffTracker.leftBytes info = start path ∧
    tracker.tempNameToCurrentPath name = some (whereabouts.lastPlace path) ∧
    (whereabouts.resident (whereabouts.lastPlace path) = some path ↔
      tracker.externalToTempName (whereabouts.lastPlace path) = some name)

open TurnDiffTracker

theorem Tracked.visit (h : Tracked start tracker whereabouts path) (change : AbsolutePathBuf × FileChange) :
    Tracked start (tracker.visit crates view change) (whereabouts.pass change) path := by
  obtain ⟨name, info, hinfo, hpath, hleft, hcurrent, hresident⟩ := h
  refine ⟨name, info, ?_, hpath, hleft, ?_⟩
  · rw [visit_baseline_of_lt (tracker.issued hcurrent), hinfo]
  by_cases hmoved : whereabouts.resident change.1 = some path
  · have hplace := whereabouts.lastPlace_of_resident hmoved
    rw [hplace] at hresident hcurrent
    have hname := nameOf_of_tracked (hresident.mp hmoved)
    have hlast : (whereabouts.pass change).lastPlace path = placeOf change := if_pos hmoved
    rw [hlast, visit_current, hname, Function.update_self, visit_external_place, hname]
    refine ⟨rfl, iff_of_true ?_ rfl⟩
    rw [Whereabouts.pass_resident, Function.update_self, hmoved]
  · have hname : name ≠ tracker.nameOf change.1 := by
      intro hsame
      cases hchange : tracker.externalToTempName change.1 with
      | none =>
          rw [nameOf_of_untracked hchange] at hsame
          exact Nat.lt_irrefl _ (hsame ▸ tracker.issued hcurrent)
      | some found =>
          rw [nameOf_of_tracked hchange] at hsame
          subst hsame
          have hplace := Option.some.inj ((tracker.current hchange).symm.trans hcurrent)
          exact hmoved (hplace ▸ hresident.mpr (hplace ▸ hchange))
    have hlast : (whereabouts.pass change).lastPlace path = whereabouts.lastPlace path := if_neg hmoved
    rw [hlast, visit_current, Function.update_of_ne hname, visit_external, Whereabouts.pass_resident]
    refine ⟨hcurrent, ?_⟩
    by_cases hdest : whereabouts.lastPlace path = placeOf change
    · rw [hdest, Function.update_self, Function.update_self]
      exact iff_of_false hmoved fun h => hname (Option.some.inj h).symm
    · rw [Function.update_of_ne hdest, Function.update_of_ne hdest]
      by_cases hsource : whereabouts.lastPlace path = change.1
      · rw [hsource, Function.update_self, Function.update_self]
        exact iff_of_false (by rintro ⟨⟩) (by rintro ⟨⟩)
      · rw [Function.update_of_ne hsource, Function.update_of_ne hsource]
        exact hresident

/-- The baseline that is taken now shows what the path holds. -/
theorem leftBytes_snapshot (hcrates : ∀ data, crates.sha1Hex data ≠ zeroOid)
    (hhashed : ∀ root path, view.gitHashObject root path ≠ some zeroOid)
    (hreadable : view.pathExists path = true → (view.contents path).isSome = true) (cache : List AbsolutePathBuf) :
    leftBytes (snapshot crates view cache path).1 = view.contents path := by
  simp only [snapshot]
  by_cases hexists : view.pathExists path = true
  · obtain ⟨content, hcontent⟩ := Option.isSome_iff_exists.mp (hreadable hexists)
    rw [if_pos hexists, hcontent]
    rw [FileView.contents] at hcontent
    rw [hcontent, Option.getD_some]
    by_cases hmode : view.fileModeForPath path = some .symlink
    · rw [if_pos hmode]
      exact if_pos (hcrates _)
    · rw [if_neg hmode]
      refine if_pos ?_
      simp only [gitBlobOidForPath]
      cases hoid : (findGitRootCached view cache path).1.bind fun root =>
          (view.gitHashObject root ((path.stripBase root).getD path.toPath)).filter fun s => Text.byteLen s = 40 with
      | none => exact hcrates _
      | some oid =>
          obtain ⟨root, -, hroot⟩ := Option.bind_eq_some_iff.mp hoid
          intro hzero
          rw [Option.getD_some] at hzero
          exact hhashed root _ (hzero ▸ (Option.filter_eq_some_iff.mp hroot).1)
  · rw [if_neg hexists, FileView.contents, blobBytes, if_neg hexists]
    exact if_neg (not_not_intro rfl)

theorem Untouched.visit (h : Untouched start view.contents tracker whereabouts path)
    (hleft : path = change.1 → leftBytes (snapshot crates view tracker.gitRootCache path).1 = view.contents path)
    (hplace : path = placeOf change → path = change.1) :
    Tracked start (tracker.visit crates view change) (whereabouts.pass change) path ∨
      Untouched start view.contents (tracker.visit crates view change) (whereabouts.pass change) path ∧
        path ≠ change.1 ∧ path ≠ placeOf change := by
  by_cases hpath : path = change.1
  · refine Or.inl ?_
    have hlast : (whereabouts.pass change).lastPlace path = placeOf change := if_pos (hpath ▸ h.resident)
    have hnone : tracker.externalToTempName change.1 = none := hpath ▸ h.external
    refine ⟨tracker.nameOf change.1, (snapshot crates view tracker.gitRootCache path).1, ?_, snapshot_path _ _,
      (hleft hpath).trans h.contents, ?_, ?_⟩
    · rw [visit_baseline_nameOf, startInfo_of_untracked hnone, hpath]
    · rw [hlast, visit_current, Function.update_self]
    · rw [hlast, visit_external_place, Whereabouts.pass_resident, Function.update_self, ← hpath, h.resident]
      exact iff_of_true rfl rfl
  · have hdest : path ≠ placeOf change := fun h => hpath (hplace h)
    refine Or.inr ⟨⟨?_, h.contents, ?_⟩, hpath, hdest⟩
    · rw [visit_external_of_ne hpath hdest, h.external]
    · rw [Whereabouts.pass_resident, Function.update_of_ne hdest, Function.update_of_ne hpath, h.resident]

/-! ## Patches -/

/-- What a patch has to keep of a path while it is looked at. -/
def Kept (start contents : Contents) (tracker : TurnDiffTracker) (whereabouts : Whereabouts) (path : AbsolutePathBuf) :
    Prop :=
  Tracked start tracker whereabouts path ∨ Untouched start contents tracker whereabouts path

theorem Tracked.onPatchBegin (h : Tracked start tracker whereabouts path)
    (changes : List (AbsolutePathBuf × FileChange)) :
    Tracked start (tracker.onPatchBegin crates view changes) (changes.foldl Whereabouts.pass whereabouts) path := by
  induction changes generalizing tracker whereabouts with
  | nil => exact h
  | cons change changes ih => exact ih (h.visit change)

/-- What the changes to come move onto is no file, or is tracked, and stays. -/
def Known (contents : Contents) (tracker : TurnDiffTracker) (changes : List (AbsolutePathBuf × FileChange)) : Prop :=
  ∀ change ∈ changes, placeOf change ≠ change.1 →
    (contents (placeOf change) = none ∨ tracker.externalToTempName (placeOf change) ≠ none) ∧
      ∀ next ∈ changes, next.1 = placeOf change → placeOf next = next.1

theorem Known.visit {changes : List (AbsolutePathBuf × FileChange)} (h : Known contents tracker (change :: changes)) :
    Known contents (tracker.visit crates view change) changes := by
  intro next hnext hmoves
  obtain ⟨hknown, hstays⟩ := h next (List.mem_cons_of_mem _ hnext) hmoves
  refine ⟨hknown.imp_right fun htracked hnone => ?_, fun other hother => hstays other (List.mem_cons_of_mem _ hother)⟩
  by_cases hpath : placeOf next = change.1
  · have hplace := hstays change List.mem_cons_self hpath.symm
    rw [hpath, ← hplace, visit_external_place] at hnone
    cases hnone
  · exact htracked (external_eq_none_of_visit hpath hnone)

theorem Untouched.onPatchBegin {changes : List (AbsolutePathBuf × FileChange)}
    (h : Untouched start view.contents tracker whereabouts path)
    (hleft : ∀ cache, path ∈ changes.map Prod.fst → leftBytes (snapshot crates view cache path).1 = view.contents path)
    (hplace : start path = none → ∀ change ∈ changes, path = placeOf change → path = change.1)
    (hknown : Known view.contents tracker changes) :
    Tracked start (tracker.onPatchBegin crates view changes) (changes.foldl Whereabouts.pass whereabouts) path ∨
      Untouched start view.contents (tracker.onPatchBegin crates view changes)
        (changes.foldl Whereabouts.pass whereabouts) path ∧
        ∀ change ∈ changes, path ≠ change.1 ∧ path ≠ placeOf change := by
  induction changes generalizing tracker whereabouts with
  | nil => exact Or.inr ⟨h, nofun⟩
  | cons change changes ih =>
      have hown : path = placeOf change → path = change.1 := by
        intro hsame
        cases hstart : start path with
        | none => exact hplace hstart change List.mem_cons_self hsame
        | some content =>
            by_contra hne
            obtain ⟨hknown, -⟩ := hknown change List.mem_cons_self fun hplace => hne (hsame.trans hplace)
            rw [← hsame, h.contents, hstart] at hknown
            exact hknown.elim nofun fun htracked => htracked h.external
      rcases h.visit (fun hpath => hleft _ (by simp [hpath])) hown with htracked | ⟨huntouched, hne⟩
      · exact Or.inl (htracked.onPatchBegin changes)
      · refine (ih huntouched (fun cache hmem => hleft cache (by simp [hmem])) ?_ hknown.visit).imp_right ?_
        · exact fun hnone next hnext => hplace hnone next (List.mem_cons_of_mem _ hnext)
        · exact fun ⟨hlast, hothers⟩ => ⟨hlast, List.forall_mem_cons.mpr ⟨hne, hothers⟩⟩

/-- The contents change at the paths of the patch and at the places that it moves to, and nowhere else. -/
theorem applied_of_ne (entries : List (AbsolutePathBuf × ApplyPatchFileChange)) (contents : Contents)
    (h : ∀ entry ∈ entries, path ≠ entry.1 ∧ path ≠ placeOf (entry.1, toProtocol entry.2)) :
    entries.foldl applyChange contents path = contents path := by
  induction entries generalizing contents with
  | nil => rfl
  | cons entry entries ih =>
      refine (ih _ fun entry hentry => h entry (List.mem_cons_of_mem _ hentry)).trans ?_
      obtain ⟨hpath, hplace⟩ := h entry List.mem_cons_self
      rcases entry with ⟨source, content | content | ⟨unifiedDiff, _ | dest, newContent⟩⟩
      · exact Function.update_of_ne hpath ..
      · exact Function.update_of_ne hpath ..
      · exact Function.update_of_ne hpath ..
      · have hdest : path ≠ dest := by
          by_cases hself : dest = source
          · exact hself ▸ hpath
          · simpa [placeOf, destOf, toProtocol, hself] using hplace
        rw [applyChange, Function.update_of_ne hpath, Function.update_of_ne hdest]

end Codrex.TurnDiff
