import Codrex.ApplyPatch.Lemmas.Replace
import Codrex.ApplyPatch.Lemmas.RoundTrip
import Codrex.ApplyPatch.Lemmas.Streaming

/-!
# Results for the update of one file
-/

namespace Codrex.ApplyPatch

open Text

/-! ## Seeking -/

/-- A search reads no line out of range, and it does what is documented exactly when it needs no fallback: with
the mark for the end of the file, a pattern that is not there is not sought from the start. -/
theorem seekSequence_documented_iff {pattern : List Str} (hne : pattern ≠ []) (lines : List Str) (start : Nat)
    (eof : Bool) :
    (∃ result, seekSequenceReading lines pattern start eof = some result ∧
        SeekDocumented lines pattern start eof result) ↔
      (eof = true → MatchesEnd lines pattern ∨ NoMatch lines pattern start) := by
  rw [seekSequenceReading_eq]
  cases eof with
  | false =>
      refine ⟨fun _ h => absurd h Bool.false_ne_true, fun _ => ⟨_, rfl, ?_⟩⟩
      exact seekSequence_sought lines start hne
  | true =>
      obtain ⟨hfound, hnone⟩ := seekSequence_end lines start hne
      constructor
      · rintro ⟨result, hresult, -, hfallback⟩ -
        obtain rfl := Option.some.inj hresult
        by_cases hend : MatchesEnd lines pattern
        · exact .inl hend
        · -- Nothing is found at the end, and nothing else is tried.
          exact .inr ((hfallback hend).noMatch_iff.mp (hnone.mpr hend))
      · intro h
        refine ⟨_, rfl, hfound.mpr, ?_⟩
        intro hend
        rw [hnone.mpr hend]
        exact (h rfl).resolve_left hend

theorem seekSequence_documented_end :
    ∃ result, seekSequenceReading ["a".toList, "b ".toList] ["b".toList] 5 true = some result ∧
      SeekDocumented ["a".toList, "b ".toList] ["b".toList] 5 true result := by
  refine (seekSequence_documented_iff (by decide) _ _ _).mpr fun _ => .inl ⟨.trimmedEnd, by decide⟩

/-- Marked for the end of the file, a line that stands only at the start of it is not found. -/
theorem seekSequence_no_fallback :
    ¬ ∃ result, seekSequenceReading ["a".toList, "b".toList] ["a".toList] 0 true = some result ∧
      SeekDocumented ["a".toList, "b".toList] ["a".toList] 0 true result := by
  rintro ⟨result, hresult, -, hfallback⟩
  have hnone : seekSequenceReading ["a".toList, "b".toList] ["a".toList] 0 true = some none := by decide
  obtain rfl := Option.some.inj (hresult.symm.trans hnone)
  have hend : ¬ MatchesEnd ["a".toList, "b".toList] ["a".toList] := by
    rintro ⟨level, hmatch⟩
    cases level <;> revert hmatch <;> decide
  exact hfallback hend .exact 0 (Nat.le_refl 0) (by decide)

/-! ## Replacements -/

variable {lines : List Str}

theorem disjointReplacements_iff {path : Str} {chunks : List UpdateFileChunk} {rs : List Replacement}
    (h : computeReplacements lines path chunks = .ok rs) :
    DisjointReplacements lines rs ↔ ChunksClear lines path chunks 0 [] := by
  obtain ⟨unsorted, hloop, hsorted⟩ := Fallible.bind_eq_ok h
  obtain rfl := Except.ok.inj hsorted
  have hstart : Placed lines 0 [] := ⟨Nat.zero_le _, by simp, by simp⟩
  obtain ⟨hinside, hclear⟩ := replacementsLoop_placed hstart hloop
  have hpairwise := Splice.pairwise_insertionSort_iff Replacement.startIdx Replacement.stopIdx unsorted
  have hmem : ∀ r, r ∈ unsorted.insertionSort (fun lhs rhs => lhs.startIdx ≤ rhs.startIdx) ↔ r ∈ unsorted :=
    fun r => (List.perm_insertionSort _ unsorted).mem_iff
  constructor
  · intro hdisjoint
    exact (hclear.mp (hpairwise.mp (isChain_iff_pairwise_stopIdx.mp hdisjoint.apart))).2
  · intro hchunks
    have hapart := hpairwise.mpr (hclear.mpr ⟨List.Pairwise.nil, hchunks⟩)
    refine ⟨List.pairwise_insertionSort _ unsorted, ?_, isChain_iff_pairwise_stopIdx.mpr hapart⟩
    intro r hr
    exact hinside r ((hmem r).mp hr)

/-- A chunk that replaces lines of the file, wherever they stand. -/
structure Replaces (chunk : UpdateFileChunk) : Prop where
  anywhere : chunk.isEndOfFile = false
  some : chunk.oldLines ≠ []
  notBlank : chunk.oldLines ≠ [[]]

theorem Replaces.oldLen_pos {path : Str} {chunk : UpdateFileChunk} (h : Replaces chunk) {lineIndex next : Nat}
    {r : Replacement} (hr : chunkReplacement lines path lineIndex chunk = .ok (r, next)) : 0 < r.oldLen := by
  have hempty : chunk.oldLines.isEmpty = false := by simpa using h.some
  simp only [chunkReplacement, hempty, Bool.false_eq_true, if_false] at hr
  split at hr
  · cases hr
    split
    · rename_i hretry
      have hlast : chunk.oldLines.getLast? = .some [] := by
        simpa [endsEmpty] using (Bool.and_eq_true_iff.mp hretry).2
      obtain ⟨front, hfront⟩ := List.getLast?_eq_some_iff.mp hlast
      rw [hfront, List.dropLast_concat]
      apply List.length_pos_of_ne_nil
      rintro rfl
      exact h.notBlank hfront
    · exact List.length_pos_of_ne_nil h.some
  · cases hr

theorem chunksClear_of_replaces {path : Str} {chunks : List UpdateFileChunk} {lineIndex : Nat} {done : List Replacement}
    (hchunks : ∀ chunk ∈ chunks, Replaces chunk) (hdone : ∀ r ∈ done, 0 < r.oldLen) :
    ChunksClear lines path chunks lineIndex done := by
  induction chunks generalizing lineIndex done with
  | nil => trivial
  | cons chunk chunks ih =>
      obtain ⟨hchunk, hmore⟩ := List.forall_mem_cons.mp hchunks
      intro lineIndex' _
      refine ⟨?_, ?_⟩
      · rw [ChunkClear, if_neg hchunk.some, hchunk.anywhere, if_neg Bool.false_ne_true]
        intro idx _ r hr hzero
        exact absurd hzero (Nat.ne_of_gt (hdone r hr))
      · intro r next hr
        apply ih hmore
        intro other hother
        rcases List.mem_append.mp hother with hother | hother
        · exact hdone other hother
        · rw [List.mem_singleton.mp hother]
          exact hchunk.oldLen_pos hr

/-- Chunks that all replace lines wherever they stand never come into each other's way. -/
theorem disjointReplacements_of_replaces {path : Str} {chunks : List UpdateFileChunk} {rs : List Replacement}
    (h : computeReplacements lines path chunks = .ok rs) (hchunks : ∀ chunk ∈ chunks, Replaces chunk) :
    DisjointReplacements lines rs :=
  (disjointReplacements_iff h).mpr (chunksClear_of_replaces hchunks (by simp))

theorem DisjointReplacements.pairwise {rs : List Replacement} (h : DisjointReplacements lines rs) :
    rs.Pairwise fun r r' => r.stopIdx ≤ r'.startIdx := by
  exact isChain_iff_pairwise_stopIdx.mp h.apart

/-- The replacements are sorted, inside of the lines and do not overlap, and applying them is the substitution of
all of them at once, exactly when every chunk finds its place left alone by the chunks before it. -/
theorem computeReplacements_disjoint_iff {lines : List Str} {path : Str} {chunks : List UpdateFileChunk}
    {rs : List Replacement} (h : computeReplacements lines path chunks = .ok rs) :
    (DisjointReplacements lines rs ∧ applyReplacements lines rs = substituteAll lines rs) ↔
      ChunksClear lines path chunks 0 [] := by
  rw [← disjointReplacements_iff h]
  refine ⟨And.left, fun hdisjoint => ⟨hdisjoint, ?_⟩⟩
  exact applyReplacements_eq_substituteAll hdisjoint.inside hdisjoint.pairwise

def twoPlaces : List UpdateFileChunk :=
  [⟨none, ["a".toList], ["A".toList], false⟩, ⟨none, ["c".toList], ["C".toList], true⟩]

def threeLines : List Str := ["a".toList, "b".toList, "c".toList]

theorem twoPlaces_disjoint :
    DisjointReplacements threeLines [⟨0, 1, ["A".toList]⟩, ⟨2, 1, ["C".toList]⟩] ∧
      applyReplacements threeLines [⟨0, 1, ["A".toList]⟩, ⟨2, 1, ["C".toList]⟩] =
        substituteAll threeLines [⟨0, 1, ["A".toList]⟩, ⟨2, 1, ["C".toList]⟩] := by
  have hrun : computeReplacements threeLines "/f" twoPlaces = .ok [⟨0, 1, ["A".toList]⟩, ⟨2, 1, ["C".toList]⟩] := by
    decide
  apply (computeReplacements_disjoint_iff hrun).mpr
  have hfirst : chunkReplacement threeLines "/f" 0 ⟨none, ["a".toList], ["A".toList], false⟩ =
      .ok (⟨0, 1, ["A".toList]⟩, 1) := by decide
  rintro _ ⟨⟩
  refine ⟨by simp [ChunkClear], ?_⟩
  intro r next hr
  obtain ⟨rfl, rfl⟩ := Prod.mk.inj (Except.ok.inj (hfirst.symm.trans hr))
  rintro _ ⟨⟩
  refine ⟨?_, fun _ _ _ => trivial⟩
  rw [ChunkClear, if_neg (by simp), if_pos rfl]
  decide

def endTwice : List UpdateFileChunk :=
  [⟨none, ["a".toList, "b".toList], ["c".toList], false⟩, ⟨none, ["b".toList], ["d".toList], true⟩]

/-- The second chunk is placed at the end of the file, over the lines that the first one replaces. -/
theorem endTwice_overlap :
    ∃ rs, computeReplacements ["a".toList, "b".toList] "/f" endTwice = .ok rs ∧
      ¬ DisjointReplacements ["a".toList, "b".toList] rs ∧
      applyReplacements ["a".toList, "b".toList] rs ≠ substituteAll ["a".toList, "b".toList] rs := by
  refine ⟨[⟨0, 2, ["c".toList]⟩, ⟨1, 1, ["d".toList]⟩], by decide, ?_, by decide⟩
  intro hdisjoint
  exact absurd hdisjoint.apart (by decide)

/-! ## New contents -/

/-- The new contents are the substituted lines, each with its line feed, exactly when the last of these lines is
not blank: a blank one is taken for the end of the line before it. -/
theorem frameLaw_iff {contents path : Str} {chunks : List UpdateFileChunk} {applied : AppliedPatch}
    {rs : List Replacement} (hlf : contents.getLast? = some '\n')
    (happlied : newContentsFromChunks contents path chunks = .ok applied)
    (hrs : computeReplacements (originalLines contents) path chunks = .ok rs)
    (hdisjoint : DisjointReplacements (originalLines contents) rs) :
    FrameLaw contents chunks rs applied.newContents ↔ ¬ EndsBlank (originalLines contents) rs := by
  have hnew : applied.newContents = newText (substituteAll (originalLines contents) rs) := by
    rw [newContentsFromChunks, hrs] at happlied
    obtain rfl := Except.ok.inj happlied
    rw [← applyReplacements_eq_substituteAll hdisjoint.inside hdisjoint.pairwise]
  have hblank := endsEmpty_substituteAll_iff hdisjoint.inside
  constructor
  · intro hframe
    rw [← hblank, Bool.not_eq_true, ← newText_eq_unlines_iff, ← hnew]
    exact hframe.substituted
  · intro hnot
    rw [← hblank, Bool.not_eq_true, ← newText_eq_unlines_iff, ← hnew] at hnot
    refine ⟨hnot, ?_, ?_⟩
    · rw [hnot]
      apply sublist_originalLines_unlines (Splice.kept_sublist_substitute _ _)
      intro line hline
      exact not_mem_of_mem_originalLines (kept_subset hline)
    · intro _ hback
      have hself : substituteAll (originalLines contents) rs = originalLines contents := by
        have hinside : Splice.Inside (originalLines contents) (rs.map Replacement.edit) := by
          intro e he
          obtain ⟨r, hr, rfl⟩ := List.mem_map.mp he
          exact hdisjoint.inside r hr
        rw [substituteAll, ← Splice.spliceAll_eq_substitute hinside (List.pairwise_map.mpr hdisjoint.pairwise)]
        apply Splice.spliceAll_eq_self
        intro e he
        obtain ⟨r, hr, rfl⟩ := List.mem_map.mp he
        exact hback r hr
      rw [hnot, hself, unlines_originalLines hlf]

def replaceB : List UpdateFileChunk := [⟨none, ["b".toList], ["B".toList], false⟩]

theorem replaceB_frameLaw : FrameLaw "a\nb\n" replaceB [⟨1, 1, ["B".toList]⟩] "a\nB\n" := by
  have hdisjoint : DisjointReplacements (originalLines "a\nb\n") [⟨1, 1, ["B".toList]⟩] :=
    ⟨by simp, by decide, by simp⟩
  have hrun : newContentsFromChunks "a\nb\n" "/f" replaceB = .ok ⟨"a\nb\n", "a\nB\n"⟩ := by decide
  apply (frameLaw_iff (by decide) hrun (by decide) hdisjoint).mpr
  rw [← endsEmpty_substituteAll_iff hdisjoint.inside]
  decide

def keepA : List UpdateFileChunk := [⟨none, ["a".toList], ["a".toList], false⟩]

/-- A chunk that changes nothing takes away a blank line at the end of the file. -/
theorem keepA_loses_blank :
    newContentsFromChunks "a\n\n" "/f" keepA = .ok ⟨"a\n\n", "a\n"⟩ ∧
      computeReplacements (originalLines "a\n\n") "/f" keepA = .ok [⟨0, 1, ["a".toList]⟩] ∧
      DisjointReplacements (originalLines "a\n\n") [⟨0, 1, ["a".toList]⟩] ∧
      ¬ FrameLaw "a\n\n" keepA [⟨0, 1, ["a".toList]⟩] "a\n" := by
  refine ⟨by decide, by decide, ⟨by simp, by decide, by simp⟩, ?_⟩
  intro hframe
  exact absurd (hframe.unchanged (by decide) (by decide)) (by decide)

end Codrex.ApplyPatch

/-!
## Results for patch texts
-/

namespace Codrex.ApplyPatch

open Text

/-! ## Printing and parsing -/

/-- Hunks that are printed in the canonical format are parsed back, each with the lines it was printed from. -/
theorem parsePatch_renderPatch (hunks : List CanonicalHunk) :
    parsePatch (renderPatch hunks) = .ok ⟨renderPatch hunks, hunks.map CanonicalHunk.toHunk, none⟩ := by
  have hbegin : trim beginPatchMarker = beginPatchMarker := by decide
  have hend : trim endPatchMarker = endPatchMarker := by decide
  have hbounds := checkPatchBoundariesLenient_markers (hunks.flatMap CanonicalHunk.lines) hbegin hend
  have hhunks := hunksLoop_canonical hunks (Nat.lt_succ_self _) 2
  rw [parsePatch, parsePatchText, lines_renderPatch, checkPatchBoundaries, hbounds, Fallible.ok_bind]
  exact (congrArg (· >>= _) hhunks).trans (Fallible.ok_bind _ _)

/-! ## Parsing the patch of an action -/

/-- The patch that comes with the hunks reads the same again exactly when the lines of the text, out of the
heredoc, have no carriage return at the end, no blanks in front of the begin marker and none behind the end
marker. -/
theorem patchStable_iff {patch : Str} {args : ApplyPatchArgs} (h : parsePatch patch = .ok args) :
    PatchStable args ↔ Settled (unwrapHeredoc (lines (trim patch))) := by
  obtain ⟨first, mid, last, hunks, rfl, hhunks, hfirst, hlast, hunwrap⟩ := parsePatch_eq_ok h
  have hlf := noBreaks_unwrapHeredoc (trim patch)
  rw [hunwrap] at hlf ⊢
  have hreparse := parsePatch_joinLines hlf hfirst hlast
  rw [settled_iff]
  constructor
  · rintro ⟨args', hargs', -, hpatch⟩
    rw [hreparse] at hargs'
    obtain ⟨hunks', -, hok⟩ := Fallible.bind_eq_ok hargs'
    cases hok
    have hlf' : ∀ l ∈ stripCr (trimStart first) :: mid.map stripCr ++ [trimEnd last], '\n' ∉ l :=
      noBreak_reparsed hlf
    exact joinLines_injective hlf' (by simp) hlf (by simp) hpatch
  · intro hsettled
    have hmid : mid.map stripCr = mid := (List.cons.inj (List.append_inj' hsettled rfl).1).2
    refine ⟨⟨joinLines (first :: mid ++ [last]), hunks, none⟩, ?_, rfl, rfl⟩
    rw [hreparse, hsettled, hmid, hhunks, Fallible.ok_bind]

def heredocAdd : Str := "<<'EOF'\n*** Begin Patch\n*** Add File: a\n+x\n*** End Patch\nEOF\n"

theorem parsePatch_heredocAdd : parsePatch heredocAdd =
    .ok ⟨"*** Begin Patch\n*** Add File: a\n+x\n*** End Patch", [.addFile "a" "x\n"], none⟩ := by decide

theorem heredocAdd_stable :
    PatchStable ⟨"*** Begin Patch\n*** Add File: a\n+x\n*** End Patch", [.addFile "a" "x\n"], none⟩ :=
  (patchStable_iff parsePatch_heredocAdd).mpr ⟨by decide, by decide, by decide⟩

def twoReturns : Str := "*** Begin Patch\n*** Add File: a\n+x\r\r\n*** End Patch"

/-- Of two carriage returns each parse takes one, so the file that is written is not the one that was verified. -/
theorem twoReturns_not_stable : ∃ args, parsePatch twoReturns = .ok args ∧ ¬ PatchStable args := by
  refine ⟨⟨"*** Begin Patch\n*** Add File: a\n+x\r\n*** End Patch", [.addFile "a" "x\r\n"], none⟩,
    by decide, ?_⟩
  rintro ⟨args', hargs', hhunks, -⟩
  have hagain : parsePatch "*** Begin Patch\n*** Add File: a\n+x\r\n*** End Patch" =
      .ok ⟨"*** Begin Patch\n*** Add File: a\n+x\n*** End Patch", [.addFile "a" "x\n"], none⟩ := by decide
  rw [hagain] at hargs'
  cases hargs'
  exact absurd hhunks (by decide)

/-! ## Parsing while the text arrives -/

/-- What the strict parser accepts, the streaming parser reads alike; and as the text grows, the hunks but the
last one stay, and none is lost. -/
theorem parsePatchStreaming_refines :
    (∀ patch args, parsePatchText patch .strict = .ok args → parsePatchStreaming patch = .ok args) ∧
      ∀ patch p q args args', p <+: patch → q <+: patch → p <+: q →
        parsePatchStreaming p = .ok args → parsePatchStreaming q = .ok args' →
        args.hunks.length ≤ args'.hunks.length ∧ args.hunks.dropLast <+: args'.hunks := by
  refine ⟨fun patch args h => parsePatchStreaming_of_strict h, ?_⟩
  intro patch p q args args' hp hq hpre h h'
  exact hunks_of_prefix hpre h h'

def twoAdded : Str := "*** Begin Patch\n*** Add File: a\n+x\n*** Add File: b\n+y\n*** End Patch"

def twoAddedCut : Str := "*** Begin Patch\n*** Add File: a\n+x\n*** Add File: b"

theorem twoAdded_streaming :
    parsePatchStreaming twoAdded = .ok ⟨twoAdded, [.addFile "a" "x\n", .addFile "b" "y\n"], none⟩ ∧
      [Hunk.addFile "a" "x\n", .addFile "b" ""].dropLast <+: [.addFile "a" "x\n", .addFile "b" "y\n"] := by
  have hstrict : parsePatchText twoAdded .strict =
      .ok ⟨twoAdded, [.addFile "a" "x\n", .addFile "b" "y\n"], none⟩ := by decide
  have hcut : parsePatchStreaming twoAddedCut =
      .ok ⟨twoAddedCut, [.addFile "a" "x\n", .addFile "b" ""], none⟩ := by decide
  have hpre : twoAddedCut <+: twoAdded := by decide
  have hwhole := parsePatchStreaming_refines.1 _ _ hstrict
  exact ⟨hwhole, (parsePatchStreaming_refines.2 _ _ _ _ _ hpre (List.prefix_refl _) hpre hcut hwhole).2⟩

end Codrex.ApplyPatch
