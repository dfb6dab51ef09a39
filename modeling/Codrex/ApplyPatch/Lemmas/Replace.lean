import Codrex.ApplyPatch.Lemmas.Seek

/-!
# Where the chunks of an update are placed
-/

namespace Codrex.ApplyPatch

open Text

variable {lines : List Str} {path : Str} {lineIndex next : Nat} {chunk : UpdateFileChunk} {r : Replacement}
  {done : List Replacement}

def Replacement.stopIdx (r : Replacement) : Nat := r.startIdx + r.oldLen

theorem isChain_iff_pairwise_stopIdx {rs : List Replacement} :
    (rs.IsChain fun r r' => r.startIdx + r.oldLen ≤ r'.startIdx) ↔ rs.Pairwise fun r r' => r.stopIdx ≤ r'.startIdx := by
  have htrans : IsTrans Replacement fun r r' => r.startIdx + r.oldLen ≤ r'.startIdx :=
    ⟨fun _ _ _ hab hbc => Nat.le_trans hab (Nat.le_trans (Nat.le_add_right _ _) hbc)⟩
  exact List.isChain_iff_pairwise

/-! ## One chunk -/

theorem seekSequence_nil (lines : List Str) (start : Nat) (eof : Bool) : seekSequence lines [] start eof = some start := rfl

theorem seekSequence_eq_some {pattern : List Str} {start i : Nat} (hne : pattern ≠ [])
    (h : seekSequence lines pattern start false = some i) : start ≤ i ∧ i + pattern.length ≤ lines.length := by
  have hsought := seekSequence_sought lines start hne
  rw [h] at hsought
  obtain ⟨level, hle, hmatch, -, -⟩ := hsought
  exact ⟨hle, hmatch.le_length hne⟩

theorem seekSequence_end_eq_some {pattern : List Str} {start i : Nat} (hne : pattern ≠ [])
    (h : seekSequence lines pattern start true = some i) :
    pattern.length ≤ lines.length ∧ i = lines.length - pattern.length := by
  obtain ⟨hfound, hnone⟩ := seekSequence_end lines start hne
  have hend : MatchesEnd lines pattern := by
    by_contra hend
    rw [hnone.mpr hend] at h
    cases h
  obtain ⟨level, hmatch⟩ := hend
  have hle := hmatch.le_length hne
  rw [hfound.mpr ⟨level, hmatch⟩] at h
  exact ⟨by omega, (Option.some.inj h).symm⟩

/-- A chunk without old lines goes to the end of the file; any other one goes where its old lines are found. -/
theorem chunkReplacement_cases (h : chunkReplacement lines path lineIndex chunk = .ok (r, next)) :
    (chunk.oldLines = [] ∧ r.oldLen = 0 ∧ next = lineIndex ∧
      r.startIdx = if endsEmpty lines then lines.length - 1 else lines.length) ∨
    (chunk.oldLines ≠ [] ∧ r.oldLen = (soughtLines lines lineIndex chunk).length ∧ next = r.stopIdx ∧
      seekSequence lines (soughtLines lines lineIndex chunk) lineIndex chunk.isEndOfFile = some r.startIdx) := by
  rw [chunkReplacement] at h
  by_cases hold : chunk.oldLines = []
  · rw [hold, List.isEmpty_nil, if_pos rfl] at h
    obtain ⟨rfl, rfl⟩ := Prod.mk.inj (Except.ok.inj h)
    exact .inl ⟨hold, rfl, rfl, rfl⟩
  · have hempty : chunk.oldLines.isEmpty = false := by simpa using hold
    rw [hempty, if_neg Bool.false_ne_true] at h
    refine .inr ⟨hold, ?_⟩
    simp only [soughtLines]
    by_cases hretry : (seekSequence lines chunk.oldLines lineIndex chunk.isEndOfFile).isNone ∧ endsEmpty chunk.oldLines
    · have hretry' : ((seekSequence lines chunk.oldLines lineIndex chunk.isEndOfFile).isNone &&
          endsEmpty chunk.oldLines) = true := by rw [hretry.1, hretry.2]; rfl
      simp only [hretry', if_true] at h
      rw [if_pos hretry]
      split at h
      · rename_i startIdx hfound
        obtain ⟨rfl, rfl⟩ := Prod.mk.inj (Except.ok.inj h)
        exact ⟨rfl, rfl, hfound⟩
      · cases h
    · have hretry' : ((seekSequence lines chunk.oldLines lineIndex chunk.isEndOfFile).isNone &&
          endsEmpty chunk.oldLines) = false := by
        rw [← Bool.not_eq_true, Bool.and_eq_true]
        exact hretry
      simp only [hretry', Bool.false_eq_true, if_false] at h
      rw [if_neg hretry]
      split at h
      · rename_i startIdx hfound
        obtain ⟨rfl, rfl⟩ := Prod.mk.inj (Except.ok.inj h)
        exact ⟨rfl, rfl, hfound⟩
      · cases h

/-! ## The loop over the chunks -/

/-- What holds between two chunks: every range that replaces something lies in front of the line index. -/
structure Placed (lines : List Str) (lineIndex : Nat) (done : List Replacement) : Prop where
  index_le : lineIndex ≤ lines.length
  inside : ∀ r ∈ done, r.stopIdx ≤ lines.length
  before : ∀ r ∈ done, r.oldLen ≠ 0 → r.stopIdx ≤ lineIndex

theorem Placed.context {context : Option Str} (h : Placed lines lineIndex done)
    (hcontext : seekContext lines path lineIndex context = .ok next) : Placed lines next done := by
  cases context with
  | none =>
      obtain rfl := Except.ok.inj hcontext
      exact h
  | some ctxLine =>
      rw [seekContext] at hcontext
      split at hcontext
      · rename_i idx hidx
        obtain rfl := Except.ok.inj hcontext
        obtain ⟨hle, hlen⟩ := seekSequence_eq_some (by simp) hidx
        rw [List.length_singleton] at hlen
        refine ⟨hlen, h.inside, fun r hr hne => ?_⟩
        have := h.before r hr hne
        omega
      · cases hcontext

theorem Placed.step (h : Placed lines lineIndex done)
    (hchunk : chunkReplacement lines path lineIndex chunk = .ok (r, next)) : Placed lines next (done ++ [r]) := by
  have hindex := h.index_le
  have hnew : r.stopIdx ≤ lines.length ∧ (r.oldLen ≠ 0 → r.stopIdx ≤ next) ∧ lineIndex ≤ next ∧
      next ≤ lines.length := by
    rcases chunkReplacement_cases hchunk with ⟨-, hlen, rfl, hstart⟩ | ⟨-, hlen, rfl, hfound⟩
    · have hle : r.stopIdx ≤ lines.length := by
        rw [Replacement.stopIdx, hstart, hlen]
        split <;> omega
      exact ⟨hle, fun hne => absurd hlen hne, Nat.le_refl _, hindex⟩
    · have hbounds : r.stopIdx ≤ lines.length ∧ lineIndex ≤ r.stopIdx := by
        rw [Replacement.stopIdx, hlen]
        by_cases hnil : soughtLines lines lineIndex chunk = []
        · rw [hnil, seekSequence_nil] at hfound
          obtain hfound := Option.some.inj hfound
          rw [hnil, List.length_nil]
          omega
        · cases heof : chunk.isEndOfFile with
          | false =>
              rw [heof] at hfound
              obtain ⟨hle, hlen'⟩ := seekSequence_eq_some hnil hfound
              omega
          | true =>
              rw [heof] at hfound
              obtain ⟨hle, hstart⟩ := seekSequence_end_eq_some hnil hfound
              omega
      exact ⟨hbounds.1, fun _ => Nat.le_refl _, hbounds.2, hbounds.1⟩
  obtain ⟨hin, hbefore, hle, hnext⟩ := hnew
  refine ⟨hnext, ?_, ?_⟩
  · intro r' hr'
    rcases List.mem_append.mp hr' with hr' | hr'
    · exact h.inside r' hr'
    · rw [List.mem_singleton.mp hr']
      exact hin
  · intro r' hr' hne
    rcases List.mem_append.mp hr' with hr' | hr'
    · exact Nat.le_trans (h.before r' hr' hne) hle
    · rw [List.mem_singleton.mp hr'] at hne ⊢
      exact hbefore hne

/-- The range of a chunk is clear of an earlier one exactly when that one leaves the place of the chunk alone. -/
theorem Placed.clear_iff (h : Placed lines lineIndex done)
    (hchunk : chunkReplacement lines path lineIndex chunk = .ok (r, next)) :
    (∀ r' ∈ done, Splice.Clear Replacement.startIdx Replacement.stopIdx r' r) ↔
      ChunkClear lines done lineIndex chunk := by
  have hinside := h.inside
  have hbefore := h.before
  have hindex := h.index_le
  simp only [ChunkClear, Splice.Clear]
  rcases chunkReplacement_cases hchunk with ⟨hold, hlen, -, hstart⟩ | ⟨hold, hlen, -, hfound⟩
  · -- The range is empty, so only a range over its place can be in the way.
    rw [if_pos hold]
    cases hends : endsEmpty lines with
    | false =>
        rw [hends, if_neg Bool.false_ne_true] at hstart
        simp only [Bool.false_eq_true, false_implies, iff_true]
        intro r' hr'
        have := hinside r' hr'
        rw [hstart]
        split <;> simp only [Replacement.stopIdx] at * <;> omega
    | true =>
        rw [hends, if_pos rfl] at hstart
        simp only [true_implies]
        refine forall₂_congr fun r' hr' => ?_
        have := hinside r' hr'
        simp only [Splice.Edit.Covers, Splice.Edit.stop, Replacement.edit, Replacement.stopIdx, hstart, hlen] at *
        split <;> omega
  · rw [if_neg hold]
    by_cases hnil : soughtLines lines lineIndex chunk = []
    · -- Nothing is sought: the range is empty and stands at the line index.
      rw [hnil, seekSequence_nil] at hfound
      have hstart : r.startIdx = lineIndex := (Option.some.inj hfound).symm
      have hclear : ∀ r' ∈ done,
          if r'.startIdx ≤ r.startIdx then r'.stopIdx ≤ r.startIdx else r.stopIdx ≤ r'.startIdx := by
        intro r' hr'
        have := hbefore r' hr'
        rw [hnil, List.length_nil] at hlen
        simp only [Replacement.stopIdx] at *
        split <;> omega
      refine iff_of_true hclear ?_
      split
      · intro r' hr'
        have := hinside r' hr'
        rw [hnil, List.length_nil]
        exact .inl this
      · intro idx hidx r' hr' _
        rw [hnil, seekSequence_nil] at hidx
        rw [hnil, List.length_nil]
        omega
    · cases heof : chunk.isEndOfFile with
      | true =>
          rw [heof] at hfound
          obtain ⟨hle, hstart⟩ := seekSequence_end_eq_some hnil hfound
          have hpos := List.length_pos_of_ne_nil hnil
          rw [if_pos rfl]
          refine forall₂_congr fun r' hr' => ?_
          have := hinside r' hr'
          simp only [Replacement.stopIdx] at *
          split <;> omega
      | false =>
          rw [heof] at hfound
          obtain ⟨hle, -⟩ := seekSequence_eq_some hnil hfound
          rw [if_neg Bool.false_ne_true, hfound]
          simp only [Option.some.injEq, forall_eq']
          refine forall₂_congr fun r' hr' => ?_
          have := hbefore r' hr'
          simp only [Replacement.stopIdx] at *
          split <;> omega

theorem replacementsLoop_placed {chunks : List UpdateFileChunk} {rs : List Replacement}
    (h : Placed lines lineIndex done) (hloop : replacementsLoop lines path chunks lineIndex done = .ok rs) :
    (∀ r ∈ rs, r.stopIdx ≤ lines.length) ∧
      (rs.Pairwise (Splice.Clear Replacement.startIdx Replacement.stopIdx) ↔
        done.Pairwise (Splice.Clear Replacement.startIdx Replacement.stopIdx) ∧
          ChunksClear lines path chunks lineIndex done) := by
  induction chunks generalizing lineIndex done with
  | nil =>
      obtain rfl := Except.ok.inj hloop
      exact ⟨h.inside, by simp [ChunksClear]⟩
  | cons chunk chunks ih =>
      obtain ⟨lineIndex', hcontext, hloop⟩ := Fallible.bind_eq_ok hloop
      obtain ⟨⟨r, next⟩, hchunk, hloop⟩ := Fallible.bind_eq_ok hloop
      have hplaced := h.context hcontext
      obtain ⟨hinside, hiff⟩ := ih (hplaced.step hchunk) hloop
      refine ⟨hinside, ?_⟩
      have hturn : ChunksClear lines path (chunk :: chunks) lineIndex done ↔
          ChunkClear lines done lineIndex' chunk ∧ ChunksClear lines path chunks next (done ++ [r]) := by
        rw [ChunksClear, hcontext]
        simp only [Except.ok.injEq, forall_eq', hchunk, Prod.mk.injEq, and_imp]
        exact ⟨fun hclear => ⟨hclear.1, hclear.2 r next rfl rfl⟩, fun hclear => ⟨hclear.1, by rintro _ _ rfl rfl; exact hclear.2⟩⟩
      rw [hiff, hturn, List.pairwise_append, hplaced.clear_iff hchunk |>.symm]
      simp only [List.pairwise_singleton, List.mem_singleton, forall_eq, true_and, and_assoc]

/-! ## Applying replacements -/

theorem repeat_eraseIdx {s : Nat} (hs : s ≤ lines.length) (n : Nat) :
    Nat.repeat (fun lines => lines.eraseIdx s) n lines = lines.take s ++ lines.drop (s + n) := by
  induction n with
  | zero => exact (List.take_append_drop s lines).symm
  | succ n ih =>
      have hlen : (lines.take s).length = s := by rw [List.length_take, Nat.min_eq_left hs]
      rw [Nat.repeat, ih, List.eraseIdx_append_of_length_le (Nat.le_of_eq hlen), hlen, Nat.sub_self, List.eraseIdx_zero,
        List.tail_drop, Nat.add_assoc]

theorem foldl_insertIdx_zipIdx (new front rest : List Str) (s : Nat) (hfront : front.length = s) (k : Nat)
    (inserted : List Str) (hinserted : inserted.length = k) :
    (new.zipIdx k).foldl (fun lines (newLine, offset) => lines.insertIdx (s + offset) newLine)
        (front ++ inserted ++ rest) = front ++ inserted ++ new ++ rest := by
  induction new generalizing k inserted with
  | nil => simp
  | cons newLine new ih =>
      have hlen : (front ++ inserted).length = s + k := by rw [List.length_append, hfront, hinserted]
      have hinsert : (front ++ inserted ++ rest).insertIdx (s + k) newLine = front ++ (inserted ++ [newLine]) ++ rest := by
        rw [← hlen, Splice.insertIdx_append_length]
        simp
      rw [List.zipIdx_cons, List.foldl_cons]
      simp only [hinsert]
      rw [ih (k + 1) (inserted ++ [newLine]) (by simp [hinserted])]
      simp

theorem apply_eq_splice (h : r.startIdx ≤ lines.length) : r.apply lines = Splice.splice lines r.edit := by
  have hlen : (lines.take r.startIdx).length = r.startIdx := by rw [List.length_take, Nat.min_eq_left h]
  have hinsert := foldl_insertIdx_zipIdx r.newLines (lines.take r.startIdx) (lines.drop (r.startIdx + r.oldLen))
    r.startIdx hlen 0 [] rfl
  rw [List.append_nil] at hinsert
  rw [Replacement.apply, repeat_eraseIdx h]
  exact hinsert

theorem applyReplacements_cons (lines : List Str) (r : Replacement) (rs : List Replacement) :
    applyReplacements lines (r :: rs) = r.apply (applyReplacements lines rs) := by
  rw [applyReplacements, applyReplacements, List.reverse_cons, List.foldl_append]
  rfl

theorem applyReplacements_eq_substituteAll {rs : List Replacement} (hinside : ∀ r ∈ rs, r.stopIdx ≤ lines.length)
    (hapart : rs.Pairwise fun r r' => r.stopIdx ≤ r'.startIdx) :
    applyReplacements lines rs = substituteAll lines rs := by
  have hinside' : Splice.Inside lines (rs.map Replacement.edit) := by
    intro e he
    obtain ⟨r, hr, rfl⟩ := List.mem_map.mp he
    exact hinside r hr
  have hapart' : Splice.Apart (rs.map Replacement.edit) := List.pairwise_map.mpr hapart
  rw [substituteAll, ← Splice.spliceAll_eq_substitute hinside' hapart']
  induction rs with
  | nil => rfl
  | cons r rs ih =>
      obtain ⟨hrest, hapart⟩ := List.pairwise_cons.mp hapart
      have hinsideRest : Splice.Inside lines (rs.map Replacement.edit) := fun e he => hinside' e (by simp [he])
      have hapartRest := (List.pairwise_cons.mp hapart').2
      have hspliced := ih (fun r' hr' => hinside r' (by simp [hr'])) hapart hinsideRest hapartRest
      have hstop : r.stopIdx ≤ lines.length := hinside r (by simp)
      -- The edits behind this one leave the lines up to its end.
      have hstart : r.startIdx ≤ (Splice.spliceAll lines (rs.map Replacement.edit)).length := by
        have hfront : ∀ e ∈ rs.map Replacement.edit, r.stopIdx ≤ e.start := by
          intro e he
          obtain ⟨r', hr', rfl⟩ := List.mem_map.mp he
          exact hrest r' hr'
        rw [Splice.spliceAll_eq_substitute hinsideRest hapartRest, Splice.substitute_eq_take_append hstop hfront,
          List.length_append, List.length_take, Nat.min_eq_left hstop, Replacement.stopIdx]
        omega
      rw [applyReplacements_cons, hspliced, apply_eq_splice hstart]
      rfl

end Codrex.ApplyPatch

/-!
## The text of an updated file
-/

namespace Codrex.ApplyPatch

open Text

/-! ## Lines and text -/

theorem unlines_eq_joinLines (ls : List Str) : unlines ls = joinLines (ls ++ [[]]) := by
  induction ls with
  | nil => rfl
  | cons l ls ih =>
      rw [List.cons_append, joinLines_cons l (by simp), ← ih]
      simp [unlines]

theorem endsEmpty_iff {ls : List Str} : endsEmpty ls = true ↔ ∃ front, ls = front ++ [[]] := by
  rw [endsEmpty, beq_iff_eq, List.getLast?_eq_some_iff]

/-- The text ends every line exactly when the last line is not blank. -/
theorem newText_eq_unlines_iff {ls : List Str} : newText ls = unlines ls ↔ endsEmpty ls = false := by
  rw [newText, unlines_eq_joinLines]
  cases hends : endsEmpty ls with
  | false => simp
  | true =>
      obtain ⟨front, rfl⟩ := endsEmpty_iff.mp hends
      have hlen := congrArg List.length (joinLines_concat (by simp : front ++ [[]] ≠ []) ([] : Str))
      simp only [if_true, Bool.true_eq_false, iff_false]
      intro heq
      rw [← heq] at hlen
      simp at hlen

/-- The lines of a text that ends with a line feed are the lines it was put together from, split again. -/
theorem originalLines_unlines (ls : List Str) : originalLines (unlines ls) = ls.flatMap (·.splitOn '\n') := by
  have hsplit : (unlines ls).splitOn '\n' = ls.flatMap (·.splitOn '\n') ++ [[]] := by
    induction ls with
    | nil => rfl
    | cons l ls ih =>
        have hcons : unlines (l :: ls) = l ++ '\n' :: unlines ls := by simp [unlines]
        rw [hcons, List.splitOn_append_cons_self, ih, List.flatMap_cons, List.append_assoc]
  have hends : endsEmpty (ls.flatMap (·.splitOn '\n') ++ [[]]) = true := endsEmpty_iff.mpr ⟨_, rfl⟩
  rw [originalLines, hsplit]
  simp only [hends, if_true, List.dropLast_concat]

theorem not_mem_of_mem_originalLines {contents line : Str} (h : line ∈ originalLines contents) : '\n' ∉ line := by
  simp only [originalLines] at h
  split at h
  · exact not_mem_of_mem_splitOn (List.dropLast_subset _ h)
  · exact not_mem_of_mem_splitOn h

theorem unlines_originalLines {contents : Str} (h : contents.getLast? = some '\n') :
    unlines (originalLines contents) = contents := by
  obtain ⟨body, rfl⟩ := List.getLast?_eq_some_iff.mp h
  have hsplit : (body ++ ['\n']).splitOn '\n' = body.splitOn '\n' ++ [[]] := by
    rw [List.splitOn_append_cons_self, List.splitOn_nil]
  have hends : endsEmpty (body.splitOn '\n' ++ [[]]) = true := endsEmpty_iff.mpr ⟨_, rfl⟩
  have hlines : originalLines (body ++ ['\n']) = body.splitOn '\n' := by
    rw [originalLines, hsplit]
    simp only [hends, if_true, List.dropLast_concat]
  rw [hlines, unlines_eq_joinLines, joinLines_concat (List.splitOn_ne_nil _ _), joinLines, List.intercalate_splitOn]

theorem kept_subset {α : Type} {xs : List α} {es : List (Splice.Edit α)} {x : α} (h : x ∈ Splice.kept xs es) :
    x ∈ xs := by
  obtain ⟨i, -, hi⟩ := List.mem_flatMap.mp h
  split at hi
  · cases hi
  · rw [Option.mem_toList] at hi
    exact List.mem_of_getElem? hi

/-- Lines of the file that are among the new lines are lines of the new text. -/
theorem sublist_originalLines_unlines {keptLines ls : List Str} (hsub : keptLines.Sublist ls)
    (hlines : ∀ line ∈ keptLines, '\n' ∉ line) : keptLines.Sublist (originalLines (unlines ls)) := by
  have hwhole : keptLines.flatMap (·.splitOn '\n') = keptLines := by
    have hsingle : keptLines.flatMap (·.splitOn '\n') = keptLines.flatMap fun line => [line] := by
      apply List.flatMap_congr
      intro line hline
      refine List.splitOnP_eq_singleton fun c hc => ?_
      have hne : c ≠ '\n' := fun heq => hlines line hline (heq ▸ hc)
      simpa using hne
    rw [hsingle, List.flatMap_singleton']
  have hflat := hsub.flatMap (·.splitOn '\n')
  rwa [hwhole, ← originalLines_unlines] at hflat

/-! ## The last line -/

theorem piece_map_edit (lines : List Str) (rs : List Replacement) (i : Nat) :
    Splice.piece lines (rs.map Replacement.edit) i =
      (rs.filter fun r => r.startIdx = i).flatMap Replacement.newLines ++
        if ∃ r ∈ rs, r.edit.Covers i then [] else lines[i]?.toList := by
  have hcovers : (∃ e ∈ rs.map Replacement.edit, e.Covers i) ↔ ∃ r ∈ rs, r.edit.Covers i := by simp
  rw [Splice.piece, List.filter_map, List.flatMap_map]
  simp only [hcovers]
  rfl

theorem getLast?_piece {lines : List Str} {rs : List Replacement} {i : Nat} :
    (Splice.piece lines (rs.map Replacement.edit) i).getLast? = some [] ↔
      (lines[i]? = some [] ∧ ∀ r ∈ rs, ¬ r.edit.Covers i) ∨
        ((lines[i]? = none ∨ ∃ r ∈ rs, r.edit.Covers i) ∧
          ((rs.filter fun r => r.startIdx = i).flatMap Replacement.newLines).getLast? = some []) := by
  rw [piece_map_edit]
  by_cases hcovers : ∃ r ∈ rs, r.edit.Covers i
  · obtain ⟨r, hr, hcov⟩ := hcovers
    have hnot : ¬ ∀ r ∈ rs, ¬ r.edit.Covers i := fun hall => hall r hr hcov
    rw [if_pos ⟨r, hr, hcov⟩, List.append_nil]
    simp only [hnot, and_false, false_or]
    exact (and_iff_right (.inr ⟨r, hr, hcov⟩)).symm
  · have hnot : ∀ r ∈ rs, ¬ r.edit.Covers i := fun r hr hcov => hcovers ⟨r, hr, hcov⟩
    rw [if_neg hcovers]
    cases hline : lines[i]? with
    | none => simp
    | some line =>
        simp only [Option.toList_some, List.getLast?_concat, reduceCtorEq, hcovers, or_self, false_and, or_false]
        exact (and_iff_left hnot).symm

theorem piece_eq_nil_iff {lines : List Str} {rs : List Replacement} {i : Nat} :
    Splice.piece lines (rs.map Replacement.edit) i = [] ↔
      (∀ line, lines[i]? = some line → ∃ r ∈ rs, r.edit.Covers i) ∧ ∀ r ∈ rs, r.startIdx = i → r.newLines = [] := by
  rw [piece_map_edit, List.append_eq_nil_iff, List.flatMap_eq_nil_iff, and_comm]
  refine and_congr ?_ ?_
  · by_cases hcovers : ∃ r ∈ rs, r.edit.Covers i
    · simp [hcovers]
    · rw [if_neg hcovers]
      cases hline : lines[i]? with
      | none => simp
      | some line =>
          refine iff_of_false (by simp) fun hall => ?_
          exact hcovers (hall line rfl)
  · simp [List.mem_filter, and_imp]

theorem endsEmpty_substituteAll_iff {lines : List Str} {rs : List Replacement}
    (hinside : ∀ r ∈ rs, r.stopIdx ≤ lines.length) :
    endsEmpty (substituteAll lines rs) = true ↔ EndsBlank lines rs := by
  rw [endsEmpty, beq_iff_eq, substituteAll, Splice.substitute, Splice.getLast?_flatMap_range']
  constructor
  · rintro ⟨i, -, hlt, hlast, hbehind⟩
    refine ⟨i, by omega, getLast?_piece.mp hlast, ?_⟩
    intro j hj
    by_cases hjlt : j < 0 + (lines.length + 1)
    · exact piece_eq_nil_iff.mp (hbehind j hj hjlt)
    · -- Behind the last line there is nothing, and no range starts there.
      refine ⟨fun line hline => ?_, fun r hr hstart => ?_⟩
      · rw [List.getElem?_eq_none (by omega)] at hline
        cases hline
      · have hstop := hinside r hr
        rw [Replacement.stopIdx] at hstop
        omega
  · rintro ⟨i, hle, hlast, hbehind⟩
    exact ⟨i, Nat.zero_le i, by omega, getLast?_piece.mpr hlast, fun j hj _ => piece_eq_nil_iff.mpr (hbehind j hj)⟩

end Codrex.ApplyPatch
