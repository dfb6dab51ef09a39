import Codrex.ApplyPatch.Lemmas.Grammar
import Codrex.ApplyPatch.Spec

/-!
# Steps on the file system
-/

namespace Codrex.ApplyPatch

open Text

variable {σ : Type} {env : HostEnv} {fs : ExecutorFileSystem σ} {cwd : AbsolutePathBuf}
  {state state' : σ} {path : AbsolutePathBuf} {text : Str}

theorem writeFile_of_writeFileWithContext (h : writeFileWithContext fs state path text = (state', .ok ())) :
    fs.writeFile state path text = (state', .ok ()) := by
  unfold writeFileWithContext at h
  split at h
  · rename_i hwrite
    cases h
    exact hwrite
  · cases h

theorem remove_of_removeFileWithContext {context : Str}
    (h : removeFileWithContext fs state path context = (state', .ok ())) :
    fs.remove state path ⟨false, false⟩ = (state', .ok ()) := by
  unfold removeFileWithContext at h
  split at h
  · rename_i hremove
    cases h
    unfold removeFile at hremove
    split at hremove
    · cases hremove
    · split at hremove
      · cases hremove
      · exact hremove
  · cases h

variable (files : FileContents fs)

/-- A file that could be written is there, and links lead where they did. -/
theorem writeFileWithContext_spec (h : writeFileWithContext fs state path text = (state', .ok ())) :
    files.contents state' path = some text ∧ files.passes state' = files.passes state := by
  have hwrite := writeFile_of_writeFileWithContext h
  refine ⟨files.contents_writeFile _ _ _ _ hwrite, ?_⟩
  rw [← files.passes_writeFile state path text, hwrite]

theorem writeFileWithMissingParentRetry_spec
    (h : writeFileWithMissingParentRetry fs state path text = (state', .ok ())) :
    files.contents state' path = some text ∧ files.passes state' = files.passes state := by
  unfold writeFileWithMissingParentRetry at h
  split at h
  · rename_i hwrite
    cases h
    refine ⟨files.contents_writeFile _ _ _ _ hwrite, ?_⟩
    rw [← files.passes_writeFile state path text, hwrite]
  · rename_i missed err hwrite
    have hmissed : files.passes missed = files.passes state := by
      rw [← files.passes_writeFile state path text, hwrite]
    split at h
    · split at h
      · rename_i parent hparent
        split at h
        · rename_i made hmade
          have hdir : files.passes made = files.passes missed := by
            rw [← files.passes_createDirectory missed parent ⟨true⟩, hmade]
          obtain ⟨hcontents, hpasses⟩ := writeFileWithContext_spec files h
          exact ⟨hcontents, hpasses.trans (hdir.trans hmissed)⟩
        · cases h
      · obtain ⟨hcontents, hpasses⟩ := writeFileWithContext_spec files h
        exact ⟨hcontents, hpasses.trans hmissed⟩
    · cases h

theorem applyHunk_move {source dest : Str} {chunks : List UpdateFileChunk}
    (h : applyHunk env fs cwd state (.updateFile source (some dest) chunks) = (state', .ok ())) :
    ∃ applied written,
      deriveNewContentsFromChunks fs state (AbsolutePathBuf.resolvePathAgainstBase env source cwd) chunks =
        .ok applied ∧
      writeFileWithMissingParentRetry fs state (AbsolutePathBuf.resolvePathAgainstBase env dest cwd)
        applied.newContents = (written, .ok ()) ∧
      fs.remove written (AbsolutePathBuf.resolvePathAgainstBase env source cwd) ⟨false, false⟩ =
        (state', .ok ()) := by
  simp only [applyHunk, applyUpdate, Hunk.resolvePath, Hunk.sourcePath] at h
  split at h
  · cases h
  · rename_i applied hderive
    split at h
    · rename_i written hwrite
      exact ⟨applied, written, hderive, hwrite, remove_of_removeFileWithContext h⟩
    · cases h

theorem contents_of_derive {chunks : List UpdateFileChunk} {applied : AppliedPatch}
    (h : deriveNewContentsFromChunks fs state path chunks = .ok applied) :
    ∃ original, files.contents state path = some original ∧
      newContentsFromChunks original path.toPath chunks = .ok applied := by
  unfold deriveNewContentsFromChunks at h
  split at h
  · cases h
  · rename_i original hread
    exact ⟨original, files.contents_readFileText _ _ _ hread, h⟩

/-- The destination keeps its new contents exactly when its lookup does not pass the original. -/
theorem move_keeps_iff {source dest : Str} {chunks : List UpdateFileChunk}
    (h : applyHunk env fs cwd state (.updateFile source (some dest) chunks) = (state', .ok ())) :
    (∃ original applied,
      files.contents state (AbsolutePathBuf.resolvePathAgainstBase env source cwd) = some original ∧
      newContentsFromChunks original (AbsolutePathBuf.resolvePathAgainstBase env source cwd).toPath chunks =
        .ok applied ∧
      files.contents state' (AbsolutePathBuf.resolvePathAgainstBase env dest cwd) = some applied.newContents) ↔
    ¬ files.passes state (AbsolutePathBuf.resolvePathAgainstBase env dest cwd)
      (AbsolutePathBuf.resolvePathAgainstBase env source cwd) := by
  obtain ⟨applied, written, hderive, hwrite, hremove⟩ := applyHunk_move h
  obtain ⟨hcontents, hpasses⟩ := writeFileWithMissingParentRetry_spec files hwrite
  rw [← hpasses]
  constructor
  · rintro ⟨_, _, -, -, hkept⟩ hpassed
    rw [files.contents_remove_passed _ _ _ hremove _ hpassed] at hkept
    cases hkept
  · intro hnot
    obtain ⟨original, horiginal, hnew⟩ := contents_of_derive files hderive
    refine ⟨original, applied, horiginal, hnew, ?_⟩
    rw [files.contents_remove_other _ _ _ hremove _ hnot, hcontents]

theorem Turn.applyHunk_eq {hunks : List Hunk} {hunk : Hunk} {before after : σ}
    (h : Turn env fs cwd state hunks hunk before after) : applyHunk env fs cwd before hunk = (after, .ok ()) := by
  induction h with
  | first hunks h => exact h
  | later h hturn ih => exact ih

end Codrex.ApplyPatch

/-!
## Sentences and their lines

The text of a sentence of the grammar is cut back into the lines it was joined from.
-/

namespace Codrex.ApplyPatch

open Text

/-! ## No line of a sentence holds a line break -/

theorem noBreak_append {s t : Str} (hs : NoBreak s) (ht : NoBreak t) : NoBreak (s ++ t) := by
  refine ⟨fun h => ?_, fun h => ?_⟩
  · rcases List.mem_append.mp h with h | h
    · exact hs.1 h
    · exact ht.1 h
  · rcases List.mem_append.mp h with h | h
    · exact hs.2 h
    · exact ht.2 h

theorem noBreak_of_isText {t : Str} (h : IsText t) : NoBreak t := h.2

theorem noBreak_sign (sign : Sign) : NoBreak [sign.char] := by
  cases sign with
  | added => exact ⟨by decide, by decide⟩
  | removed => exact ⟨by decide, by decide⟩
  | kept => exact ⟨by decide, by decide⟩

theorem noBreak_item {item : ChangeItem} (h : item.WellFormed) : NoBreak item.text := by
  cases item with
  | context text =>
      cases text with
      | none => exact ⟨by decide, by decide⟩
      | some text => exact noBreak_append ⟨by decide, by decide⟩ (noBreak_of_isText (h text rfl))
  | line sign text => exact noBreak_append (noBreak_sign sign) (noBreak_of_isText h)

theorem noBreak_change {change : Change} (h : change.WellFormed) : ∀ l ∈ change.lines, NoBreak l := by
  intro l hl
  rcases List.mem_append.mp hl with hl | hl
  · obtain ⟨item, hitem, rfl⟩ := List.mem_map.mp hl
    exact noBreak_item (h.2 item hitem)
  · split at hl
    · rw [List.mem_singleton.mp hl]
      exact ⟨by decide, by decide⟩
    · cases hl

theorem noBreak_hunk {hunk : GrammarHunk} (h : hunk.WellFormed) : ∀ l ∈ hunk.lines, NoBreak l := by
  intro l hl
  cases hunk with
  | addHunk filename lines =>
      rcases List.mem_cons.mp hl with rfl | hl
      · exact noBreak_append ⟨by decide, by decide⟩ (noBreak_of_isText h.1.1)
      · obtain ⟨line, hline, rfl⟩ := List.mem_map.mp hl
        exact noBreak_append (s := ['+']) ⟨by decide, by decide⟩ (noBreak_of_isText (h.2.2 line hline))
  | deleteHunk filename =>
      rw [List.mem_singleton.mp hl]
      exact noBreak_append ⟨by decide, by decide⟩ (noBreak_of_isText h.1)
  | updateHunk filename changeMove change =>
      rcases List.mem_cons.mp hl with rfl | hl
      · exact noBreak_append ⟨by decide, by decide⟩ (noBreak_of_isText h.1.1)
      · rcases List.mem_append.mp hl with hl | hl
        · cases changeMove with
          | none => cases hl
          | some dest =>
              rw [List.mem_singleton.mp hl]
              exact noBreak_append ⟨by decide, by decide⟩ (noBreak_of_isText (h.2.1 dest rfl).1)
        · cases change with
          | none => cases hl
          | some c => exact noBreak_change (h.2.2 c rfl) l hl

/-! ## Cutting the text -/

theorem joinLines_ends (first last : Str) (mid : List Str) :
    ∃ t, joinLines (first :: (mid ++ [last])) = first ++ t ++ last := by
  induction mid generalizing first with
  | nil => exact ⟨['\n'], by simp [joinLines, List.intercalate]⟩
  | cons m mid ih =>
      obtain ⟨t, ht⟩ := ih m
      refine ⟨'\n' :: m ++ t, ?_⟩
      have hcons : joinLines (first :: (m :: mid ++ [last])) = first ++ '\n' :: joinLines (m :: (mid ++ [last])) := by
        simp [joinLines, List.intercalate]
      rw [hcons, ht]
      simp

theorem exists_joinLines_between (body : List Str) :
    ∃ t, joinLines (beginPatchMarker :: body ++ [endPatchMarker]) = '*' :: t ++ ['h'] := by
  obtain ⟨t, ht⟩ := joinLines_ends beginPatchMarker endPatchMarker body
  have hbegin : beginPatchMarker = '*' :: beginPatchMarker.tail := rfl
  have hend : endPatchMarker = endPatchMarker.dropLast ++ ['h'] := rfl
  refine ⟨beginPatchMarker.tail ++ t ++ endPatchMarker.dropLast, ?_⟩
  rw [List.cons_append, ht]
  rw [hend, ← List.append_assoc]
  exact congrArg (fun s => s ++ t ++ endPatchMarker.dropLast ++ ['h']) hbegin

/-- The markers keep `trim` from the lines between them. -/
theorem trim_between (body : List Str) : trim (joinLines (beginPatchMarker :: body ++ [endPatchMarker])) =
    joinLines (beginPatchMarker :: body ++ [endPatchMarker]) := by
  obtain ⟨t, ht⟩ := exists_joinLines_between body
  rw [ht]
  exact trim_eq_self (by decide) (by decide)

theorem noBreak_markers : NoBreak beginPatchMarker ∧ NoBreak endPatchMarker := by
  exact ⟨⟨by decide, by decide⟩, by decide, by decide⟩

theorem lines_between {body : List Str} (h : ∀ l ∈ body, NoBreak l) :
    lines (trim (joinLines (beginPatchMarker :: body ++ [endPatchMarker]))) =
      beginPatchMarker :: body ++ [endPatchMarker] := by
  have hlines : ∀ l ∈ beginPatchMarker :: body, NoBreak l := by
    intro l hl
    rcases List.mem_cons.mp hl with rfl | hl
    · exact noBreak_markers.1
    · exact h l hl
  rw [trim_between, lines_joinLines (fun l hl => (hlines l hl).1) noBreak_markers.2.1 (List.cons_ne_nil _ _)]
  congr 1
  refine (List.map_congr_left fun l hl => stripCr_of_ne fun hcr => ?_).trans (List.map_id _)
  exact (hlines l hl).2 (List.mem_of_getLast? hcr)

/-- Of the text of a sentence only the final line feed is trimmed. -/
theorem trim_sentence (sentence : Sentence) : trim sentence.text = trim (joinLines sentence.lines) := by
  rw [Sentence.text]
  cases sentence.finalLf with
  | false => rw [if_neg (by decide), List.append_nil]
  | true => rw [if_pos rfl, trim_append_ws (by decide)]

theorem lines_sentence {sentence : Sentence} (h : sentence.WellFormed) :
    lines (trim sentence.text) = sentence.lines := by
  rw [trim_sentence]
  apply lines_between
  intro l hl
  obtain ⟨hunk, hhunk, hl⟩ := List.mem_flatMap.mp hl
  exact noBreak_hunk (h.2 hunk hhunk) l hl

/-! ## The markers around the hunks -/

theorem checkPatchBoundariesStrict_sentence (sentence : Sentence) :
    checkPatchBoundariesStrict sentence.lines =
      .ok (sentence.lines, sentence.hunks.flatMap GrammarHunk.lines) := by
  have hends : checkStartAndEndLinesStrict (some beginPatchMarker) (some endPatchMarker) = .ok () := rfl
  have hlast : sentence.lines.getLast? = some endPatchMarker := by
    rw [Sentence.lines, List.getLast?_concat]
  have hhunks : sentence.lines.tail.dropLast = sentence.hunks.flatMap GrammarHunk.lines := by
    rw [Sentence.lines, List.cons_append, List.tail_cons, List.dropLast_concat]
  have hhead : sentence.lines.head? = some beginPatchMarker := rfl
  rw [checkPatchBoundariesStrict, hlast, hhunks, hhead, hends]
  rfl

end Codrex.ApplyPatch
