import Codrex.ApplyPatch.Lemmas.Reparse
import Codrex.ApplyPatch.Lemmas.Apply

/-!
# Reading printed hunks

The loops of the parser give the hunks back that were printed, from the lines of a diff up to all hunks.
-/

namespace Codrex.ApplyPatch

open Text

/-! ## Printed chunks -/

/-- The chunk after the lines of a diff. -/
def UpdateFileChunk.pushAll (chunk : UpdateFileChunk) (diff : List (Sign × Line)) : UpdateFileChunk :=
  { chunk with
    oldLines := chunk.oldLines ++ (diff.filter (·.1 ≠ .added)).map (·.2.1)
    newLines := chunk.newLines ++ (diff.filter (·.1 ≠ .removed)).map (·.2.1) }

theorem pushAll_nil (chunk : UpdateFileChunk) : chunk.pushAll [] = chunk := by
  simp [UpdateFileChunk.pushAll]

theorem push_pushAll (chunk : UpdateFileChunk) (line : Sign × Line) (diff : List (Sign × Line)) :
    (chunk.push line.1 line.2.1).pushAll diff = chunk.pushAll (line :: diff) := by
  obtain ⟨sign, text⟩ := line
  cases sign with
  | added => simp [UpdateFileChunk.push, UpdateFileChunk.pushAll]
  | removed => simp [UpdateFileChunk.push, UpdateFileChunk.pushAll]
  | kept => simp [UpdateFileChunk.push, UpdateFileChunk.pushAll]

theorem chunkLoop_diff (ln : Nat) (diff : List (Sign × Line)) (rest : List Str) (chunk : UpdateFileChunk)
    (n : Nat) : chunkLoop ln (diff.map diffLine ++ rest) chunk n =
      chunkLoop ln rest (chunk.pushAll diff) (n + diff.length) := by
  induction diff generalizing chunk n with
  | nil => rw [pushAll_nil, List.map_nil, List.nil_append, List.length_nil, Nat.add_zero]
  | cons line diff ih =>
      rw [List.map_cons, List.cons_append, diffLine, chunkLoop_signed, ih, push_pushAll, List.length_cons]
      congr 1
      omega

theorem chunkContext_contextLine (context : Option Line) (ln : Nat) (allowMissing : Bool) :
    chunkContext (contextLine context) ln allowMissing = .ok (context.map (·.1), 1) := by
  unfold chunkContext
  cases context with
  | none => rfl
  | some context =>
      have hne : changeContextMarker ++ context.1 ≠ emptyChangeContextMarker := by
        intro h
        cases h
      rw [contextLine, if_neg hne, stripPrefix_append]
      rfl

variable {rest : List Str}

theorem chunkLoop_canonical (ln : Nat) (chunk : CanonicalChunk) (hrest : Stops rest) :
    chunkLoop ln (chunk.diff.map diffLine ++ (eofLines chunk.isEndOfFile ++ rest))
        ⟨chunk.context.map (·.1), [], [], false⟩ 0 =
      .ok (chunk.toChunk, chunk.diff.length + (eofLines chunk.isEndOfFile).length) := by
  have hlen : 0 + chunk.diff.length ≠ 0 := by
    rw [Nat.zero_add]
    exact mt List.length_eq_zero_iff.mp chunk.diff_ne_nil
  rw [chunkLoop_diff]
  cases heof : chunk.isEndOfFile with
  | false =>
      have hstops := chunkLoop_stops ln hrest
        (UpdateFileChunk.pushAll ⟨chunk.context.map (·.1), [], [], false⟩ chunk.diff) hlen
      simpa [eofLines, CanonicalChunk.toChunk, UpdateFileChunk.pushAll, CanonicalChunk.oldLines,
        CanonicalChunk.newLines, heof] using hstops
  | true =>
      have hend := chunkLoop_eof ln rest
        (UpdateFileChunk.pushAll ⟨chunk.context.map (·.1), [], [], false⟩ chunk.diff) hlen
      simpa [eofLines, CanonicalChunk.toChunk, UpdateFileChunk.pushAll, CanonicalChunk.oldLines,
        CanonicalChunk.newLines, heof] using hend

theorem length_chunk_lines (chunk : CanonicalChunk) :
    chunk.lines.length = chunk.diff.length + (eofLines chunk.isEndOfFile).length + 1 := by
  simp [CanonicalChunk.lines]

theorem parseUpdateFileChunk_canonical (chunk : CanonicalChunk) (hrest : Stops rest) (ln : Nat) (allowMissing : Bool) :
    parseUpdateFileChunk (chunk.lines ++ rest) ln allowMissing =
      .ok (chunk.toChunk, chunk.lines.length) := by
  have hloop := chunkLoop_canonical ln chunk hrest
  rw [← List.append_assoc] at hloop
  rw [length_chunk_lines, CanonicalChunk.lines, List.cons_append]
  simp only [parseUpdateFileChunk, chunkContext_contextLine, Fallible.ok_bind, List.drop_succ_cons,
    List.drop_zero]
  rw [if_neg (by simp [chunk.diff_ne_nil]), hloop]
  rfl

/-! ## The chunks of an update -/

theorem contextLine_eq (context : Option Line) : ∃ l, contextLine context = '@' :: l := by
  cases context with
  | none => exact ⟨_, rfl⟩
  | some context => exact ⟨_, rfl⟩

theorem stops_chunks (chunks : List CanonicalChunk) (hnext : NextMarker rest) :
    Stops (chunks.flatMap CanonicalChunk.lines ++ rest) := by
  cases chunks with
  | nil => exact hnext.stops
  | cons chunk chunks =>
      obtain ⟨l, hl⟩ := contextLine_eq chunk.context
      refine Or.inr ⟨'@', l, (chunk.diff.map diffLine ++ eofLines chunk.isEndOfFile) ++
        (chunks.flatMap CanonicalChunk.lines ++ rest), ?_, Or.inl rfl, ?_⟩
      · rw [List.flatMap_cons, CanonicalChunk.lines, hl, List.append_assoc, List.cons_append]
      · intro h
        cases h

theorem chunksLoop_canonical (ln : Nat) (chunks : List CanonicalChunk) (hnext : NextMarker rest) {fuel : Nat}
    (hfuel : (chunks.flatMap CanonicalChunk.lines).length < fuel) (parsed : Nat) (done : List UpdateFileChunk) :
    chunksLoop ln false fuel (chunks.flatMap CanonicalChunk.lines ++ rest) parsed done =
      .ok (done ++ chunks.map CanonicalChunk.toChunk,
        parsed + (chunks.flatMap CanonicalChunk.lines).length) := by
  induction chunks generalizing fuel parsed done with
  | nil =>
      obtain ⟨fuel, rfl⟩ := Nat.exists_eq_succ_of_ne_zero (Nat.ne_zero_of_lt hfuel)
      rw [List.map_nil, List.append_nil]
      exact chunksLoop_nextMarker hnext
  | cons chunk chunks ih =>
      obtain ⟨fuel, rfl⟩ := Nat.exists_eq_succ_of_ne_zero (Nat.ne_zero_of_lt hfuel)
      have hlength := length_chunk_lines chunk
      rw [List.flatMap_cons, List.length_append] at hfuel
      rw [List.flatMap_cons, List.append_assoc, List.length_append]
      have hchunk := parseUpdateFileChunk_canonical chunk (stops_chunks chunks hnext) (ln + parsed) done.isEmpty
      obtain ⟨l, hl⟩ := contextLine_eq chunk.context
      have hopens : Opens (contextLine chunk.context) := by
        rw [hl]
        exact opens_of_head (by decide) (by decide)
      have hlines : chunk.lines ++ (chunks.flatMap CanonicalChunk.lines ++ rest) = contextLine chunk.context ::
          ((chunk.diff.map diffLine ++ eofLines chunk.isEndOfFile) ++
            (chunks.flatMap CanonicalChunk.lines ++ rest)) := rfl
      rw [hlines] at hchunk
      have hloop := chunksLoop_chunk fuel done hopens hchunk
      rw [← hlines, List.drop_left] at hloop
      rw [Nat.succ_eq_add_one, hloop, ih (by omega)]
      simp [Nat.add_assoc]

/-! ## Printed hunks -/

theorem stripPrefix_move_context (context : Option Line) : stripPrefix moveToMarker (contextLine context) = none := by
  cases context with
  | none => rfl
  | some context => rfl

theorem parseUpdateFile_canonical (path : Str) (movePath : Option FileName) {chunks : List CanonicalChunk}
    (hne : chunks ≠ []) (hnext : NextMarker rest) (ln : Nat) :
    parseUpdateFile path ((movePath.map (moveToMarker ++ ·.1)).toList ++
        (chunks.flatMap CanonicalChunk.lines ++ rest)) ln false =
      .ok (.updateFile path (movePath.map (·.1)) (chunks.map CanonicalChunk.toChunk),
        1 + movePath.toList.length + (chunks.flatMap CanonicalChunk.lines).length) := by
  have hfuel : (chunks.flatMap CanonicalChunk.lines).length <
      (chunks.flatMap CanonicalChunk.lines ++ rest).length + 1 := by
    rw [List.length_append]
    omega
  unfold parseUpdateFile
  cases movePath with
  | some dest =>
      simp only [Option.map_some, Option.toList_some, List.cons_append, List.nil_append, List.head?_cons,
        Option.bind_some, stripPrefix_append, Option.isSome_some, if_true, List.tail_cons]
      rw [chunksLoop_canonical ln chunks hnext hfuel, Fallible.ok_bind]
      simp [hne]
  | none =>
      obtain ⟨chunk, others, hchunks⟩ := List.exists_cons_of_ne_nil hne
      have hhead : (chunks.flatMap CanonicalChunk.lines ++ rest).head?.bind (stripPrefix moveToMarker) = none := by
        rw [hchunks]
        exact stripPrefix_move_context chunk.context
      simp only [Option.map_none, Option.toList_none, List.nil_append, hhead, Option.isSome_none,
        Bool.false_eq_true, if_false]
      rw [chunksLoop_canonical ln chunks hnext hfuel, Fallible.ok_bind]
      simp [hne]

theorem parseOneHunk_canonical (hunk : CanonicalHunk) (hnext : NextMarker rest) (ln : Nat) :
    parseOneHunk (hunk.lines ++ rest) ln false = .ok (hunk.toHunk, hunk.lines.length) := by
  cases hunk with
  | addFile path contents =>
      have hadd := parseOneHunk_add path.2 (contents.map (·.1)) hnext ln
      simpa [GrammarHunk.lines, CanonicalHunk.lines, CanonicalHunk.toHunk, List.flatMap_map, Function.comp_def]
        using hadd
  | deleteFile path => exact parseOneHunk_delete path.2 rest ln
  | updateFile path movePath chunks hne =>
      have hupdate := parseUpdateFile_canonical path.1 movePath hne hnext ln
      have hadd : stripPrefix addFileMarker (updateFileMarker ++ path.1) = none := rfl
      have hdelete : stripPrefix deleteFileMarker (updateFileMarker ++ path.1) = none := rfl
      simp only [parseOneHunk, CanonicalHunk.lines, List.cons_append, List.headD_cons, List.tail_cons,
        List.append_assoc]
      rw [trim_updateFile path.2, hadd, hdelete, stripPrefix_append]
      simp only [hupdate, CanonicalHunk.toHunk, List.length_cons, List.length_append]
      congr 2
      cases movePath with
      | none => simp; omega
      | some dest => simp; omega

theorem CanonicalHunk.lines_eq (hunk : CanonicalHunk) :
    ∃ l rest, hunk.lines = ('*' :: l) :: rest ∧ '*' :: l ≠ eofMarker := by
  cases hunk with
  | addFile path contents =>
      refine ⟨_, _, rfl, ?_⟩
      intro h
      cases h
  | deleteFile path =>
      refine ⟨_, _, rfl, ?_⟩
      intro h
      cases h
  | updateFile path movePath chunks hne =>
      refine ⟨_, _, rfl, ?_⟩
      intro h
      cases h

theorem nextMarker_canonical (hunks : List CanonicalHunk) : NextMarker (hunks.flatMap CanonicalHunk.lines) := by
  cases hunks with
  | nil => exact Or.inl rfl
  | cons hunk hunks =>
      obtain ⟨l, rest, hlines, hne⟩ := hunk.lines_eq
      refine Or.inr ⟨l, rest ++ hunks.flatMap CanonicalHunk.lines, ?_, hne⟩
      rw [List.flatMap_cons, hlines, List.cons_append]

theorem hunksLoop_canonical (hunks : List CanonicalHunk) {fuel : Nat}
    (hfuel : (hunks.flatMap CanonicalHunk.lines).length < fuel) (ln : Nat) :
    hunksLoop false fuel (hunks.flatMap CanonicalHunk.lines) ln = .ok (hunks.map CanonicalHunk.toHunk) := by
  induction hunks generalizing fuel ln with
  | nil =>
      obtain ⟨fuel, rfl⟩ := Nat.exists_eq_succ_of_ne_zero (Nat.ne_zero_of_lt hfuel)
      rfl
  | cons hunk hunks ih =>
      obtain ⟨fuel, rfl⟩ := Nat.exists_eq_succ_of_ne_zero (Nat.ne_zero_of_lt hfuel)
      obtain ⟨l, rest, hlines, -⟩ := hunk.lines_eq
      have hpos : 0 < hunk.lines.length := by
        rw [hlines]
        exact Nat.succ_pos _
      rw [List.flatMap_cons, List.length_append] at hfuel
      rw [List.flatMap_cons]
      have hhunk := parseOneHunk_canonical hunk (nextMarker_canonical hunks) ln
      have hne : hunk.lines ++ hunks.flatMap CanonicalHunk.lines ≠ [] := by
        rw [hlines]
        exact List.cons_ne_nil _ _
      rw [Nat.succ_eq_add_one, hunksLoop_step hne hhunk, List.drop_left, ih (by omega), Fallible.ok_bind,
        List.map_cons]

/-! ## No printed line holds a line break -/

theorem noBreak_chunk (chunk : CanonicalChunk) : ∀ l ∈ chunk.lines, NoBreak l := by
  intro l hl
  rcases List.mem_cons.mp hl with rfl | hl
  · cases chunk.context with
    | none => exact ⟨by decide, by decide⟩
    | some context => exact noBreak_append ⟨by decide, by decide⟩ context.2
  · rcases List.mem_append.mp hl with hl | hl
    · obtain ⟨⟨sign, text⟩, -, rfl⟩ := List.mem_map.mp hl
      exact noBreak_append (noBreak_sign sign) text.2
    · unfold eofLines at hl
      split at hl
      · rw [List.mem_singleton.mp hl]
        exact ⟨by decide, by decide⟩
      · cases hl

theorem noBreak_canonical (hunk : CanonicalHunk) : ∀ l ∈ hunk.lines, NoBreak l := by
  intro l hl
  cases hunk with
  | addFile path contents =>
      rcases List.mem_cons.mp hl with rfl | hl
      · exact noBreak_append ⟨by decide, by decide⟩ (noBreak_of_isText path.2.1)
      · obtain ⟨line, -, rfl⟩ := List.mem_map.mp hl
        exact noBreak_append (s := ['+']) ⟨by decide, by decide⟩ line.2
  | deleteFile path =>
      rw [List.mem_singleton.mp hl]
      exact noBreak_append ⟨by decide, by decide⟩ (noBreak_of_isText path.2.1)
  | updateFile path movePath chunks hne =>
      rcases List.mem_cons.mp hl with rfl | hl
      · exact noBreak_append ⟨by decide, by decide⟩ (noBreak_of_isText path.2.1)
      · rcases List.mem_append.mp hl with hl | hl
        · cases movePath with
          | none => cases hl
          | some dest =>
              rw [List.mem_singleton.mp hl]
              exact noBreak_append ⟨by decide, by decide⟩ (noBreak_of_isText dest.2.1)
        · obtain ⟨chunk, -, hl⟩ := List.mem_flatMap.mp hl
          exact noBreak_chunk chunk l hl

theorem lines_renderPatch (hunks : List CanonicalHunk) : lines (trim (renderPatch hunks)) =
    beginPatchMarker :: hunks.flatMap CanonicalHunk.lines ++ [endPatchMarker] := by
  apply lines_between
  intro l hl
  obtain ⟨hunk, -, hl⟩ := List.mem_flatMap.mp hl
  exact noBreak_canonical hunk l hl

end Codrex.ApplyPatch
