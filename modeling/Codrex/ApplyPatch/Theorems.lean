import Codrex.ApplyPatch.Lemmas.Preview
import Codrex.ApplyPatch.Lemmas.Reparse
import Codrex.ApplyPatch.Lemmas.Apply

/-!
# Results for `apply_patch`
-/

namespace Codrex.ApplyPatch

open Text

/-! ## Sentences of the grammar are accepted -/

/-- Every sentence of the grammar in which each update hunk has a change, each context of a change stands
right before a line of it, and not all lines of the change are blank, is accepted, hunk for hunk. -/
theorem parsePatchText_sentence {sentence : Sentence} (hwf : sentence.WellFormed)
    (hanchored : ∀ hunk ∈ sentence.hunks, hunk.Anchored) :
    ∃ args, parsePatchText sentence.text .strict = .ok args ∧
      args.hunks.map Hunk.header = sentence.hunks.map GrammarHunk.header := by
  obtain ⟨hunks, hhunks, hheaders⟩ := hunksLoop_hunks hwf.2 hanchored (Nat.lt_succ_self _) 2
  refine ⟨⟨joinLines sentence.lines, hunks, none⟩, ?_, hheaders⟩
  rw [parsePatchText, lines_sentence hwf]
  rw [checkPatchBoundaries, checkPatchBoundariesStrict_sentence, Fallible.ok_bind]
  exact (congrArg (· >>= _) hhunks).trans (Fallible.ok_bind _ _)

def threeHunks : Sentence where
  hunks :=
    [.addHunk "a.txt" ["one".toList],
      .updateHunk "b.txt" (some "c.txt".toList)
        (some ⟨[.context (some "fn f".toList), .line .removed "x".toList, .line .added "y".toList], true⟩),
      .deleteHunk "d.txt"]
  finalLf := true

theorem parsePatchText_threeHunks :
    ∃ args, parsePatchText threeHunks.text .strict = .ok args ∧
      args.hunks.map Hunk.header = threeHunks.hunks.map GrammarHunk.header := by
  apply parsePatchText_sentence (by decide)
  unfold threeHunks
  simp only [List.mem_cons, List.not_mem_nil, or_false, forall_eq_or_imp, forall_eq]
  refine ⟨trivial, ⟨_, rfl, ?_, ?_⟩, trivial⟩
  · exact ⟨⟨_, _, rfl⟩, trivial⟩
  · exact ⟨.context (some "fn f".toList), List.mem_cons_self, id⟩

/-- The grammar lets the change of an update hunk be missing; the parser does not. -/
theorem empty_update_rejected :
    ∃ sentence : Sentence, sentence.WellFormed ∧
      ¬ ∃ args, parsePatchText sentence.text .strict = .ok args ∧
        args.hunks.map Hunk.header = sentence.hunks.map GrammarHunk.header := by
  refine ⟨⟨[.updateHunk "a.txt" none none], true⟩, by decide, ?_⟩
  rintro ⟨args, hargs, -⟩
  have herr : parsePatchText (Sentence.text ⟨[.updateHunk "a.txt" none none], true⟩) .strict =
      .error (.invalidHunkError "Update file hunk for path 'a.txt' is empty" 2) := by decide
  rw [herr] at hargs
  cases hargs

/-! ## Moves -/

/-- In a run no moved file loses its contents exactly when no hunk moves a file to a path whose lookup passes
the file itself: the destination is written first, and the removal of the original comes after it. -/
theorem movesKeepContents_iff {σ : Type} (env : HostEnv) {fs : ExecutorFileSystem σ} (files : FileContents fs)
    (cwd : AbsolutePathBuf) (state : σ) (hunks : List Hunk) :
    MovesKeepContents env fs cwd files state hunks ↔ MovesApart env fs cwd files state hunks := by
  constructor
  · intro hkeep path dest chunks before after hturn
    exact (move_keeps_iff files hturn.applyHunk_eq).mp (hkeep path dest chunks before after hturn)
  · intro hapart path dest chunks before after hturn
    exact (move_keeps_iff files hturn.applyHunk_eq).mpr (hapart path dest chunks before after hturn)

def emptyHost : HostEnv := ⟨none, none⟩

def repoDir : AbsolutePathBuf := AbsolutePathBuf.normalizePath "/repo"

def oneFile : TextFiles :=
  (TextFiles.empty.makeDirs repoDir).put (AbsolutePathBuf.normalizePath "/repo/a.txt") "x\n" (by decide) (by decide)

def moveOntoItself : Hunk := .updateFile "a.txt" (some "./a.txt".toList) [⟨none, ["x".toList], ["y".toList], false⟩]

theorem moveOntoItself_loses_file :
    (∃ affected, (applyHunksToFiles emptyHost textFiles repoDir oneFile [moveOntoItself]).2 = .ok affected) ∧
      ¬ MovesKeepContents emptyHost textFiles repoDir textFilesContents oneFile [moveOntoItself] := by
  refine ⟨⟨⟨[], ["./a.txt".toList], []⟩, by decide⟩, ?_⟩
  intro hkeep
  have hok : (applyHunk emptyHost textFiles repoDir oneFile moveOntoItself).2 = .ok () := by decide
  have hturn : Turn emptyHost textFiles repoDir oneFile [moveOntoItself] moveOntoItself oneFile
      (applyHunk emptyHost textFiles repoDir oneFile moveOntoItself).1 := .first [] (Prod.ext rfl hok)
  obtain ⟨_, _, -, -, hkept⟩ := hkeep _ _ _ _ _ hturn
  have hgone : textFilesContents.contents (applyHunk emptyHost textFiles repoDir oneFile moveOntoItself).1
      (AbsolutePathBuf.resolvePathAgainstBase emptyHost "./a.txt" repoDir) = none := by decide
  rw [hgone] at hkept
  cases hkept

/-! ## Previews -/

theorem verified_body {inv : InvocationEnv} {env : HostEnv} {cwd : AbsolutePathBuf} {files : TextFiles}
    {patch : Str} {action : ApplyPatchAction}
    (h : maybeParseApplyPatchVerified inv env textFiles cwd files ["apply_patch".toList, patch] = .body action) :
    ∃ args, parsePatch patch = .ok args ∧ action.patch = args.patch ∧ action.cwd = cwd ∧
      previewLoop inv env textFiles cwd files (fun _ => none) args.hunks = .ok action.changes := by
  have hworkdir : ∀ args, parsePatch patch = .ok args → args.workdir = none := by
    intro args hargs
    obtain ⟨_, _, hargs⟩ := Fallible.bind_eq_ok hargs
    obtain ⟨_, _, hargs⟩ := Fallible.bind_eq_ok hargs
    cases hargs
    rfl
  have himplicit : isImplicitInvocation ["apply_patch".toList, patch] = false := rfl
  have hcommand : "apply_patch".toList ∈ applyPatchCommands := by decide
  rw [maybeParseApplyPatchVerified, himplicit, if_neg Bool.false_ne_true] at h
  cases hargs : parsePatch patch with
  | error err =>
      simp only [maybeParseApplyPatch, if_pos hcommand, hargs] at h
      cases h
  | ok args =>
      simp only [maybeParseApplyPatch, if_pos hcommand, hargs] at h
      simp only [hworkdir args hargs, Option.elim_none] at h
      split at h
      · rename_i changes hpreview
        cases h
        exact ⟨args, rfl, rfl, rfl, hpreview⟩
      · cases h

/-- A patch without moves onto themselves does what its preview shows if its hunks are separate. -/
theorem previewHolds_of_separate (inv : InvocationEnv) (env : HostEnv) (cwd : AbsolutePathBuf) (files : TextFiles)
    {patch : Str} (hself : ∀ args, parsePatch patch = .ok args → NoMoveOntoItself env cwd args.hunks)
    (hseparate : ∀ args, parsePatch patch = .ok args → Separate env cwd files patch args.hunks) :
    PreviewHolds inv env cwd files patch := by
  intro action hbody
  obtain ⟨args, hargs, hpatch, hcwd, hpreview⟩ := verified_body hbody
  obtain ⟨hne, halone, hroom, hcr⟩ := hseparate args hargs
  obtain ⟨args', hreparse, hhunks⟩ := parsePatch_patch hargs hcr
  obtain ⟨now, affected, hloop, hpreviewed⟩ := (previewed_nil files).run halone (hself args hargs)
    hroom hpreview ⟨[], [], []⟩
  have hrun : applyHunksToFiles env textFiles cwd files args.hunks = (now, .ok affected) := by
    rw [applyHunksToFiles, if_neg (by simpa using hne)]
    exact hloop
  have happly : applyPatch env textFiles action.cwd files action.patch =
      ⟨now, printSummary affected, [], .ok ()⟩ := by
    rw [applyPatch, hpatch, hcwd, hreparse]
    simp only [hhunks, applyHunks, hrun]
  rw [happly]
  exact ⟨rfl, hpreviewed.applied⟩

/-- No script here is a heredoc, and the texts that are compared have one line before. -/
def oneLineDiffs : InvocationEnv where
  extractApplyPatchFromBash _ := .error .commandDidNotStartWithApplyPatch
  unifiedDiff _ new _ := if new = "y\n".toList then "@@ -1 +1 @@\n-x\n+y\n" else "@@ -1 +1,2 @@\n x\n+z\n"

def updateAndAdd : Str :=
  "*** Begin Patch\n*** Update File: a.txt\n-x\n+y\n*** Add File: b.txt\n+new\n*** End Patch"

theorem parsePatch_updateAndAdd : parsePatch updateAndAdd =
    .ok ⟨updateAndAdd, [.updateFile "a.txt" none [⟨none, ["x".toList], ["y".toList], false⟩],
      .addFile "b.txt" "new\n"], none⟩ := by decide

theorem previewHolds_updateAndAdd : PreviewHolds oneLineDiffs emptyHost repoDir oneFile updateAndAdd := by
  apply previewHolds_of_separate
  · intro args hargs
    rw [parsePatch_updateAndAdd] at hargs
    cases hargs
    unfold NoMoveOntoItself
    decide
  · intro args hargs
    rw [parsePatch_updateAndAdd] at hargs
    cases hargs
    exact ⟨by decide, by decide, by decide, by decide⟩

def updateTwice : Str :=
  "*** Begin Patch\n*** Update File: a.txt\n-x\n+y\n*** Update File: a.txt\n+z\n*** End Patch"

/-- The preview shows the second update as if there were no first. -/
theorem updateTwice_preview_wrong :
    (∃ args, parsePatch updateTwice = .ok args ∧ NoMoveOntoItself emptyHost repoDir args.hunks) ∧
      ¬ PreviewHolds oneLineDiffs emptyHost repoDir oneFile updateTwice := by
  refine ⟨⟨⟨updateTwice, [.updateFile "a.txt" none [⟨none, ["x".toList], ["y".toList], false⟩],
    .updateFile "a.txt" none [⟨none, [], ["z".toList], false⟩]], none⟩, by decide,
    by unfold NoMoveOntoItself; decide⟩, ?_⟩
  intro hpreview
  have hshown : (match maybeParseApplyPatchVerified oneLineDiffs emptyHost textFiles repoDir oneFile
        ["apply_patch".toList, updateTwice] with
      | .body action => some (action.changes (AbsolutePathBuf.normalizePath "/repo/a.txt"), action.patch, action.cwd)
      | _ => none) =
      some (some (.update "@@ -1 +1,2 @@\n x\n+z\n" none "x\nz\n"), updateTwice, repoDir) := by decide
  have hleft : (applyPatch emptyHost textFiles repoDir oneFile updateTwice).state.text
      (AbsolutePathBuf.normalizePath "/repo/a.txt") = some "y\nz\n".toList := by decide
  split at hshown
  · rename_i action hbody
    simp only [Option.some.injEq, Prod.mk.injEq] at hshown
    obtain ⟨hchange, hpatch, hcwd⟩ := hshown
    have happlied := (hpreview action hbody).2
    rw [hpatch, hcwd] at happlied
    have hupdate := happlied.update _ _ _ hchange
    rw [hleft] at hupdate
    exact absurd hupdate (by decide)
  · cases hshown

end Codrex.ApplyPatch
