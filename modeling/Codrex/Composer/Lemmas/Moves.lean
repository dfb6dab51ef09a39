import Mathlib.Data.List.SplitBy
import Codrex.Composer.Lemmas.Edits

/-!
# Where the cursor goes, and what is deleted

Lines, words and graphemes give boundaries, so no slice panics. Deletions and kills are edits.
-/

namespace Codrex.Composer

open Text

variable {unicode : Unicode} {area area' : TextArea} {text s run piece : Str} {pos i : Nat}

namespace TextArea

/-! ## Lines -/

theorem beginningOfLine_spec (h : Boundary area.text pos) :
    ∃ bol, area.beginningOfLine pos = some bol ∧ Boundary area.text bol ∧ bol ≤ pos ∧
      (0 < bol → Boundary area.text (bol - 1)) := by
  obtain ⟨front, back, htext, rfl⟩ := h
  have hsplit := splitAtByte_append front back
  simp only [beginningOfLine, htext, hsplit, Option.map_some]
  cases hfind : rfindNewline front with
  | none => exact ⟨0, rfl, boundary_zero _, Nat.zero_le _, fun hpos => absurd hpos (Nat.lt_irrefl 0)⟩
  | some i =>
      obtain ⟨before, after, rfl, rfl, -⟩ := rfindNewline_eq_some hfind
      have hlen : byteLen (before ++ '\n' :: after) = byteLen before + 1 + byteLen after := by
        rw [byteLen_append, Nat.add_assoc]
        rfl
      refine ⟨byteLen before + 1, rfl, ?_, by omega, fun _ => ?_⟩
      · rw [List.append_assoc, List.cons_append]
        exact boundary_newline
      · rw [List.append_assoc, Nat.add_sub_cancel]
        exact boundary_append _ _

theorem endOfLine_spec (h : Boundary area.text pos) :
    ∃ eol, area.endOfLine pos = some eol ∧ Boundary area.text eol ∧ pos ≤ eol ∧
      (eol < area.len → Boundary area.text (eol + 1)) := by
  obtain ⟨front, back, htext, rfl⟩ := h
  have hsplit := splitAtByte_append front back
  simp only [endOfLine, len, htext, hsplit, Option.map_some]
  cases hfind : findNewline back with
  | none =>
      refine ⟨_, rfl, boundary_byteLen _, ?_, fun hlt => absurd hlt (Nat.lt_irrefl _)⟩
      rw [Option.map_none, Option.getD_none, byteLen_append]
      exact Nat.le_add_right _ _
  | some i =>
      obtain ⟨before, after, rfl, rfl⟩ := findNewline_eq_some hfind
      have hlen : byteLen before + byteLen front = byteLen (front ++ before) := by rw [byteLen_append, Nat.add_comm]
      refine ⟨byteLen before + byteLen front, rfl, ?_, Nat.le_add_left _ _, fun _ => ?_⟩
      · rw [hlen, ← List.append_assoc]
        exact boundary_append _ _
      · rw [hlen, ← List.append_assoc]
        exact boundary_newline

/-! ## Words -/

theorem exists_of_mem_indexed {pieces : List Str} {start : Nat} (h : (i, piece) ∈ indexed start pieces) :
    ∃ before after, pieces.flatten = before ++ piece ++ after ∧ i = start + byteLen before := by
  induction pieces generalizing start with
  | nil => cases h
  | cons first pieces ih =>
      rcases List.mem_cons.mp h with heq | h
      · cases heq
        exact ⟨[], pieces.flatten, rfl, rfl⟩
      · obtain ⟨before, after, hflatten, rfl⟩ := ih h
        refine ⟨first ++ before, after, by simp [hflatten], ?_⟩
        rw [byteLen_append, Nat.add_assoc]

theorem exists_of_mem_splitWordPieces (h : (i, piece) ∈ splitWordPieces unicode run) :
    ∃ before after, run = before ++ piece ++ after ∧ byteLen before = i := by
  obtain ⟨⟨segmentStart, segment⟩, hsegment, hpiece⟩ := List.mem_flatMap.mp h
  obtain ⟨before, after, hrun, rfl⟩ := exists_of_mem_indexed hsegment
  obtain ⟨before', after', hparts, rfl⟩ := exists_of_mem_indexed hpiece
  rw [List.flatten_splitBy] at hparts
  rw [unicode.splitWordBounds_flatten, hparts] at hrun
  exact ⟨before ++ before', after' ++ after, by simp [hrun], by rw [byteLen_append, Nat.zero_add]⟩

theorem previousSeparators_cases {P : Nat → Prop} {runStart start : Nat} {pieces : List (Nat × Str)} (hstart : P start)
    (hpieces : ∀ found ∈ pieces, P (runStart + found.1)) : P (previousSeparators runStart start pieces) := by
  induction pieces generalizing start with
  | nil => exact hstart
  | cons first pieces ih =>
      rw [previousSeparators]
      split
      · exact ih (hpieces first (List.mem_cons_self ..)) fun found hmem => hpieces found (List.mem_cons_of_mem _ hmem)
      · exact hstart

theorem nextSeparators_cases {P : Nat → Prop} {runStart stop : Nat} {pieces : List (Nat × Str)} (hstop : P stop)
    (hpieces : ∀ found ∈ pieces, P (runStart + found.1 + byteLen found.2)) : P (nextSeparators runStart stop pieces) := by
  induction pieces generalizing stop with
  | nil => exact hstop
  | cons first pieces ih =>
      rw [nextSeparators]
      split
      · exact ih (hpieces first (List.mem_cons_self ..)) fun found hmem => hpieces found (List.mem_cons_of_mem _ hmem)
      · exact hstop

/-- The start of a word is a boundary in front of the cursor. -/
theorem beginningOfPreviousWord_spec (unicode : Unicode) (h : area.Sound) :
    ∃ start, area.beginningOfPreviousWord unicode = some start ∧ Boundary area.text start ∧ start ≤ area.cursorPos := by
  obtain ⟨front, back, htext, hcursor⟩ := h.cursor
  have hsplit : splitAtByte area.text area.cursorPos = some (front, back) := splitAtByte_eq_some.mpr ⟨htext, hcursor⟩
  simp only [beginningOfPreviousWord, hsplit, Option.map_some, Option.some.injEq, exists_eq_left']
  split
  · exact ⟨boundary_zero _, Nat.zero_le _⟩
  · generalize hbody : front.rdropWhile isWhitespace = body
    have hrun : body.rdropWhile (fun ch => !isWhitespace ch) ++ body.rtakeWhile (fun ch => !isWhitespace ch) = body :=
      List.rdropWhile_append_rtakeWhile ..
    have hfront : body <+: front := by rw [← hbody]; exact List.rdropWhile_prefix _ _
    obtain ⟨rest, hrest⟩ := hfront
    generalize body.rdropWhile (fun ch => !isWhitespace ch) = runFront at hrun ⊢
    generalize body.rtakeWhile (fun ch => !isWhitespace ch) = run at hrun ⊢
    have hplace {before after : Str} (hparts : run = before ++ after) :
        Boundary area.text (byteLen runFront + byteLen before) ∧ byteLen runFront + byteLen before ≤ area.cursorPos := by
      constructor
      · refine ⟨runFront ++ before, after ++ (rest ++ back), ?_, byteLen_append _ _⟩
        rw [htext, ← hrest, ← hrun, hparts]
        simp
      · rw [← hcursor, ← hrest, ← hrun, hparts]
        simp only [byteLen_append]
        omega
    have hpiece {found : Nat × Str} (hmem : found ∈ splitWordPieces unicode run) :
        Boundary area.text (byteLen runFront + found.1) ∧ byteLen runFront + found.1 ≤ area.cursorPos := by
      obtain ⟨before, after, hparts, heq⟩ := exists_of_mem_splitWordPieces hmem
      rw [← heq]
      rw [List.append_assoc] at hparts
      exact hplace hparts
    cases hpieces : (splitWordPieces unicode run).reverse with
    | nil => exact @hplace [] run rfl
    | cons last pieces =>
        obtain ⟨pieceStart, piece⟩ := last
        have hmem {found : Nat × Str} (h : found ∈ (pieceStart, piece) :: pieces) : found ∈ splitWordPieces unicode run := by
          rw [← hpieces] at h
          exact List.mem_reverse.mp h
        have hlast := hpiece (hmem (List.mem_cons_self ..))
        simp only
        split
        · obtain ⟨hboundary, hle⟩ := @previousSeparators_cases
            (fun start => Boundary area.text start ∧ start ≤ area.cursorPos) _ _ _ hlast
            fun found hfound => hpiece (hmem (List.mem_cons_of_mem _ hfound))
          obtain ⟨hadjusted, -, hdown⟩ := adjustPosOutOfElements_spec h.laid hboundary true
          exact ⟨hadjusted, hdown.trans hle⟩
        · obtain ⟨hadjusted, -, hdown⟩ := adjustPosOutOfElements_spec h.laid hlast.1 true
          exact ⟨hadjusted, hdown.trans hlast.2⟩

/-- The end of a word is a boundary. -/
theorem endOfNextWord_spec (unicode : Unicode) (h : area.Sound) :
    ∃ stop, area.endOfNextWord unicode = some stop ∧ Boundary area.text stop := by
  obtain ⟨front, back, htext, hcursor⟩ := h.cursor
  have hsplit : splitAtByte area.text area.cursorPos = some (front, back) := splitAtByte_eq_some.mpr ⟨htext, hcursor⟩
  simp only [endOfNextWord, hsplit, Option.map_some, Option.some.injEq, exists_eq_left']
  split
  · exact boundary_byteLen _
  · have hspace : back.takeWhile isWhitespace ++ back.dropWhile isWhitespace = back := List.takeWhile_append_dropWhile
    generalize back.takeWhile isWhitespace = space at hspace ⊢
    generalize back.dropWhile isWhitespace = rest at hspace ⊢
    have hword : rest.takeWhile (fun ch => !isWhitespace ch) ++ rest.dropWhile (fun ch => !isWhitespace ch) = rest :=
      List.takeWhile_append_dropWhile
    generalize rest.takeWhile (fun ch => !isWhitespace ch) = run at hword ⊢
    generalize rest.dropWhile (fun ch => !isWhitespace ch) = more at hword
    have hplace {before after : Str} (hparts : run = before ++ after) :
        Boundary area.text (area.cursorPos + byteLen space + byteLen before) := by
      refine ⟨front ++ space ++ before, after ++ more, ?_, by rw [byteLen_append, byteLen_append, hcursor]⟩
      rw [htext, ← hspace, ← hword, hparts]
      simp
    have hpiece {found : Nat × Str} (hmem : found ∈ splitWordPieces unicode run) :
        Boundary area.text (area.cursorPos + byteLen space + found.1 + byteLen found.2) := by
      obtain ⟨before, after, hparts, heq⟩ := exists_of_mem_splitWordPieces hmem
      have hend := hplace hparts
      rwa [byteLen_append, heq, ← Nat.add_assoc] at hend
    cases hpieces : splitWordPieces unicode run with
    | nil => exact @hplace [] run rfl
    | cons first pieces =>
        obtain ⟨start, piece⟩ := first
        rw [hpieces] at hpiece
        have hfirst := hpiece (List.mem_cons_self ..)
        simp only
        split
        · have hboundary := @nextSeparators_cases (Boundary area.text) _ _ _ hfirst
            fun found hfound => hpiece (List.mem_cons_of_mem _ hfound)
          exact (adjustPosOutOfElements_spec h.laid hboundary false).1
        · exact (adjustPosOutOfElements_spec h.laid hfirst false).1

/-! ## Grapheme by grapheme -/

theorem prevAtomicBoundary_spec (unicode : Unicode) (h : Laid area.text area.elements) (hpos : Boundary area.text pos) :
    Boundary area.text (area.prevAtomicBoundary unicode pos) ∧
      (∀ e ∈ area.elements, ¬ e.range.Inside (area.prevAtomicBoundary unicode pos)) ∧
      area.prevAtomicBoundary unicode pos ≤ pos := by
  rw [prevAtomicBoundary]
  split
  · next hzero => exact ⟨boundary_zero _, fun _ _ hinside => Nat.not_lt_zero _ hinside.1, Nat.zero_le _⟩
  · next hne =>
      split
      · next e hfind =>
          have he := List.mem_of_find?_eq_some hfind
          have hcontains : e.range.start < pos ∧ pos ≤ e.range.stop := by simpa using List.find?_some hfind
          exact ⟨h.starts e he, h.outside_start he, Nat.le_of_lt hcontains.1⟩
      · obtain ⟨found, hfound, hlt, hboundary⟩ := unicode.prevBoundary_spec _ _ hpos (Nat.pos_of_ne_zero hne)
        obtain ⟨hadjusted, houtside, hle⟩ := adjustPosOutOfElements_spec h hboundary true
        rw [hfound]
        exact ⟨hadjusted, houtside, hle.trans (Nat.le_of_lt hlt)⟩

theorem nextAtomicBoundary_spec (unicode : Unicode) (h : Laid area.text area.elements) (hpos : Boundary area.text pos) :
    Boundary area.text (area.nextAtomicBoundary unicode pos) ∧
      (∀ e ∈ area.elements, ¬ e.range.Inside (area.nextAtomicBoundary unicode pos)) ∧
      pos ≤ area.nextAtomicBoundary unicode pos := by
  rw [nextAtomicBoundary]
  split
  · exact ⟨boundary_byteLen _, fun e he hinside => absurd hinside.2 (Nat.not_lt.mpr (h.stops e he).le), hpos.le⟩
  · next hlt =>
      split
      · next e hfind =>
          have he := List.mem_of_find?_eq_some hfind
          have hcontains : e.range.start ≤ pos ∧ pos < e.range.stop := by simpa using List.find?_some hfind
          exact ⟨h.stops e he, h.outside_stop he, Nat.le_of_lt hcontains.2⟩
      · obtain ⟨found, hfound, hgt, hboundary⟩ := unicode.nextBoundary_spec _ _ hpos (Nat.not_le.mp hlt)
        obtain ⟨hadjusted, houtside, hle⟩ := adjustPosOutOfElements_spec h hboundary false
        rw [hfound]
        exact ⟨hadjusted, houtside, (Nat.le_of_lt hgt).trans hle⟩

theorem backwardTarget_spec (unicode : Unicode) (h : Laid area.text area.elements) (n : Nat)
    (hpos : Boundary area.text pos) :
    Boundary area.text (area.backwardTarget unicode n pos) ∧ area.backwardTarget unicode n pos ≤ pos := by
  induction n generalizing pos with
  | zero => exact ⟨hpos, Nat.le_refl _⟩
  | succ n ih =>
      obtain ⟨hboundary, -, hle⟩ := prevAtomicBoundary_spec unicode h hpos
      rw [backwardTarget]
      split
      · exact ⟨hboundary, hle⟩
      · obtain ⟨htarget, hrest⟩ := ih hboundary
        exact ⟨htarget, hrest.trans hle⟩

theorem forwardTarget_spec (unicode : Unicode) (h : Laid area.text area.elements) (n : Nat)
    (hpos : Boundary area.text pos) :
    Boundary area.text (area.forwardTarget unicode n pos) ∧ pos ≤ area.forwardTarget unicode n pos := by
  induction n generalizing pos with
  | zero => exact ⟨hpos, Nat.le_refl _⟩
  | succ n ih =>
      obtain ⟨hboundary, -, hle⟩ := nextAtomicBoundary_spec unicode h hpos
      rw [forwardTarget]
      split
      · exact ⟨hboundary, hle⟩
      · obtain ⟨htarget, hrest⟩ := ih hboundary
        exact ⟨htarget, hle.trans hrest⟩

end TextArea

/-! ## Deletions -/

/-- Nothing has happened, or the range is gone. -/
def Deleted (area area' : TextArea) : Prop := area' = area ∨ ∃ range, Edited area range [] area'

theorem deleteBackward_deleted (unicode : Unicode) (h : area.Sound) (n : Nat) :
    ∃ area', area.deleteBackward unicode n = some area' ∧ Deleted area area' := by
  rw [TextArea.deleteBackward]
  split
  · exact ⟨area, rfl, .inl rfl⟩
  · obtain ⟨hboundary, hle⟩ := TextArea.backwardTarget_spec unicode h.laid n h.cursor
    obtain ⟨area', hstep, hedited⟩ := @replaceRange_edited area ⟨_, area.cursorPos⟩ h hle hboundary h.cursor []
    exact ⟨area', hstep, .inr ⟨_, hedited⟩⟩

theorem deleteForward_deleted (unicode : Unicode) (h : area.Sound) (n : Nat) :
    ∃ area', area.deleteForward unicode n = some area' ∧ Deleted area area' := by
  rw [TextArea.deleteForward]
  split
  · exact ⟨area, rfl, .inl rfl⟩
  · obtain ⟨hboundary, hle⟩ := TextArea.forwardTarget_spec unicode h.laid n h.cursor
    obtain ⟨area', hstep, hedited⟩ := @replaceRange_edited area ⟨area.cursorPos, _⟩ h hle h.cursor hboundary []
    exact ⟨area', hstep, .inr ⟨_, hedited⟩⟩

/-! ## Kills -/

/-- Nothing has happened, or a range around the cursor that no element crosses has gone to the kill buffer. -/
def Killed (area area' : TextArea) : Prop :=
  area' = area ∨ ∃ range killed, slice area.text range.start range.stop = some killed ∧ killed ≠ [] ∧
    range.start ≤ area.cursorPos ∧ area.cursorPos ≤ range.stop ∧
    (∀ e ∈ area.elements, Span.Whole range e.range) ∧ Edited { area with killBuffer := killed } range [] area'

theorem killRange_killed (h : area.Sound) {range : Span} (hstart : Boundary area.text range.start)
    (hstop : Boundary area.text range.stop) (hle : range.start ≤ area.cursorPos) (hge : area.cursorPos ≤ range.stop) :
    ∃ area', area.killRange range = some area' ∧ Killed area area' := by
  obtain ⟨hwithin, hfirst, hlast, hwhole⟩ := TextArea.expandRange_spec h.laid hstart hstop
  rw [TextArea.killRange]
  generalize area.expandRangeToElementBoundaries range = grown at hwithin hfirst hlast hwhole ⊢
  split
  · exact ⟨area, rfl, .inl rfl⟩
  · next hnonempty =>
      have hgrown : grown.start ≤ grown.stop := Nat.le_of_lt (Nat.not_le.mp hnonempty)
      obtain ⟨before, killed, after, htext, hbefore, hcut⟩ := exists_cut hfirst hlast hgrown
      have hslice := slice_eq_some.mpr ⟨before, after, htext, hbefore, hcut⟩
      have hne : killed ≠ [] := by
        rintro rfl
        rw [List.append_nil] at hcut
        omega
      obtain ⟨area', hstep, hedited⟩ := @replaceRangeRaw_edited { area with killBuffer := killed } grown
        ⟨h.cursor, h.laid, h.lines⟩ hgrown hfirst hlast hwhole []
      refine ⟨area', ?_, .inr ⟨grown, killed, hslice, hne, hwithin.1.trans hle, hge.trans hwithin.2, hwhole, hedited⟩⟩
      rw [hslice, Option.bind_some, if_neg hne, hstep]

theorem deleteBackwardWord_killed (unicode : Unicode) (h : area.Sound) :
    ∃ area', area.deleteBackwardWord unicode = some area' ∧ Killed area area' := by
  obtain ⟨start, hstart, hboundary, hle⟩ := TextArea.beginningOfPreviousWord_spec unicode h
  simp only [TextArea.deleteBackwardWord, hstart]
  exact @killRange_killed area h ⟨start, area.cursorPos⟩ hboundary h.cursor hle (Nat.le_refl _)

theorem deleteForwardWord_killed (unicode : Unicode) (h : area.Sound) :
    ∃ area', area.deleteForwardWord unicode = some area' ∧ Killed area area' := by
  obtain ⟨stop, hstop, hboundary⟩ := TextArea.endOfNextWord_spec unicode h
  simp only [TextArea.deleteForwardWord, hstop, Option.bind_eq_bind, Option.bind_some]
  split
  · next hlt => exact @killRange_killed area h ⟨area.cursorPos, stop⟩ h.cursor hboundary (Nat.le_refl _) (Nat.le_of_lt hlt)
  · exact ⟨area, rfl, .inl rfl⟩

theorem killToEndOfLine_killed (h : area.Sound) : ∃ area', area.killToEndOfLine = some area' ∧ Killed area area' := by
  obtain ⟨eol, heol, hboundary, hle, hnewline⟩ := TextArea.endOfLine_spec h.cursor
  simp only [TextArea.killToEndOfLine, TextArea.endOfCurrentLine, heol, Option.bind_eq_bind, Option.bind_some]
  split
  · next hat =>
      split
      · next hlt =>
          exact @killRange_killed area h ⟨area.cursorPos, eol + 1⟩ h.cursor (hnewline hlt) (Nat.le_refl _)
            (Nat.le_succ_of_le hle)
      · exact ⟨area, rfl, .inl rfl⟩
  · exact @killRange_killed area h ⟨area.cursorPos, eol⟩ h.cursor hboundary (Nat.le_refl _) hle

theorem killToBeginningOfLine_killed (h : area.Sound) :
    ∃ area', area.killToBeginningOfLine = some area' ∧ Killed area area' := by
  obtain ⟨bol, hbol, hboundary, hle, hnewline⟩ := TextArea.beginningOfLine_spec h.cursor
  simp only [TextArea.killToBeginningOfLine, TextArea.beginningOfCurrentLine, hbol, Option.bind_eq_bind, Option.bind_some]
  split
  · next hat =>
      split
      · next hpos =>
          exact @killRange_killed area h ⟨bol - 1, bol⟩ (hnewline hpos) hboundary ((Nat.sub_le _ _).trans hle)
            (Nat.le_of_eq hat)
      · exact ⟨area, rfl, .inl rfl⟩
  · exact @killRange_killed area h ⟨bol, area.cursorPos⟩ hboundary h.cursor hle (Nat.le_refl _)

/-! ## Moves -/

/-- Only the cursor has gone, to a place outside of every element. -/
structure Moved (area area' : TextArea) : Prop where
  text : area'.text = area.text
  elements : area'.elements = area.elements
  wrapCache : area'.wrapCache = area.wrapCache
  killBuffer : area'.killBuffer = area.killBuffer
  cursor : Boundary area.text area'.cursorPos
  outside : ∀ e ∈ area.elements, ¬ e.range.Inside area'.cursorPos

theorem Moved.sound (h : Moved area area') (hsound : area.Sound) : area'.Sound where
  cursor := h.text ▸ h.cursor
  laid := by
    rw [h.text, h.elements]
    exact hsound.laid
  lines := by
    rw [h.text, h.wrapCache]
    exact hsound.lines

theorem moved_setCursor (h : area.Sound) (pos : Nat) : Moved area (area.setCursor pos) := by
  obtain ⟨hboundary, houtside⟩ := TextArea.clampPosToNearestBoundary_spec h.laid (min pos area.len)
  exact ⟨rfl, rfl, rfl, rfl, hboundary, houtside⟩

theorem moved_left (unicode : Unicode) (h : area.Sound) : Moved area (area.moveCursorLeft unicode) := by
  obtain ⟨hboundary, houtside, -⟩ := TextArea.prevAtomicBoundary_spec unicode h.laid h.cursor
  exact ⟨rfl, rfl, rfl, rfl, hboundary, houtside⟩

theorem moved_right (unicode : Unicode) (h : area.Sound) : Moved area (area.moveCursorRight unicode) := by
  obtain ⟨hboundary, houtside, -⟩ := TextArea.nextAtomicBoundary_spec unicode h.laid h.cursor
  exact ⟨rfl, rfl, rfl, rfl, hboundary, houtside⟩

theorem moved_start (area : TextArea) (col : Option Nat) : Moved area { area with cursorPos := 0, preferredCol := col } :=
  ⟨rfl, rfl, rfl, rfl, boundary_zero _, fun _ _ hinside => Nat.not_lt_zero _ hinside.1⟩

theorem moved_end (h : area.Sound) (col : Option Nat) :
    Moved area { area with cursorPos := area.len, preferredCol := col } :=
  ⟨rfl, rfl, rfl, rfl, boundary_byteLen _, fun e he hinside => absurd hinside.2 (Nat.not_lt.mpr (h.laid.stops e he).le)⟩

theorem moved_toColumn (unicode : Unicode) (h : area.Sound) {lineStart lineEnd : Nat} (col : Option Nat) (targetCol : Nat)
    (hstart : Boundary area.text lineStart) (hend : Boundary area.text lineEnd) (hle : lineStart ≤ lineEnd) :
    ∃ area', { area with preferredCol := col }.moveToDisplayColOnLine unicode lineStart lineEnd targetCol = some area' ∧
      Moved area area' := by
  obtain ⟨before, line, after, htext, hbefore, hline⟩ := exists_cut hstart hend hle
  have hslice : slice area.text lineStart lineEnd = some line := slice_eq_some.mpr ⟨before, after, htext, hbefore, hline⟩
  simp only [TextArea.moveToDisplayColOnLine, hslice, Option.map_some, Option.some.injEq, exists_eq_left']
  have hspec := @TextArea.clampPosToNearestBoundary_spec { area with preferredCol := col } h.laid
  exact ⟨rfl, rfl, rfl, rfl, (hspec _).1, (hspec _).2⟩

theorem targetColFrom_isSome (unicode : Unicode) (h : area.Sound) {lineStart : Nat} (hstart : Boundary area.text lineStart)
    (hle : lineStart ≤ area.cursorPos) : ∃ col, area.targetColFrom unicode lineStart = some col := by
  rw [TextArea.targetColFrom]
  split
  · next col _ => exact ⟨col, rfl⟩
  · obtain ⟨before, line, after, htext, hbefore, hline⟩ := exists_cut hstart h.cursor hle
    rw [slice_eq_some.mpr ⟨before, after, htext, hbefore, hline⟩]
    exact ⟨_, rfl⟩

/-- The cursor stands on the wrapped line that is found for it, or behind. -/
theorem wrappedCursor_spec (h : area.Sound) {lines : List Span} {idx : Nat} (hfind : area.wrappedCursor = some (lines, idx)) :
    (∀ line ∈ lines, line.start < line.stop ∧ Boundary area.text line.start ∧ Boundary area.text (line.stop - 1)) ∧
      ∃ current, lines[idx]? = some current ∧ current.start ≤ area.cursorPos := by
  obtain ⟨cache, hcache, hindex⟩ := Option.bind_eq_some_iff.mp hfind
  obtain ⟨found, hfound, heq⟩ := Option.map_eq_some_iff.mp hindex
  cases heq
  refine ⟨h.lines cache hcache, ?_⟩
  obtain ⟨rest, hrest⟩ := @List.takeWhile_prefix _ cache.lines fun line => decide (line.start ≤ area.cursorPos)
  have hshown {line : Span} (hmem : line ∈ cache.lines.takeWhile fun line => decide (line.start ≤ area.cursorPos)) :
      line.start ≤ area.cursorPos := by simpa using List.mem_takeWhile_imp hmem
  simp only [TextArea.wrappedLineIndexByStart] at hfound
  generalize (cache.lines.takeWhile fun line => decide (line.start ≤ area.cursorPos)) = shown at hrest hshown hfound
  split at hfound
  · cases hfound
  · next hne =>
      cases hfound
      have hlt : shown.length - 1 < shown.length := by omega
      refine ⟨shown[shown.length - 1], ?_, hshown (List.getElem_mem hlt)⟩
      rw [← hrest, List.getElem?_append_left hlt, List.getElem?_eq_getElem hlt]

/-! ## Up and down -/

theorem moveCursorUp_moved (unicode : Unicode) (h : area.Sound) :
    ∃ area', area.moveCursorUp unicode = some area' ∧ Moved area area' := by
  rw [TextArea.moveCursorUp]
  split
  · next lines idx hfind =>
      obtain ⟨hlines, current, hcurrent, hle⟩ := wrappedCursor_spec h hfind
      obtain ⟨targetCol, hcol⟩ := targetColFrom_isSome unicode h (hlines _ (List.mem_of_getElem? hcurrent)).2.1 hle
      simp only [hcurrent, hcol, Option.bind_eq_bind, Option.bind_some]
      split
      · next hpos =>
          have hlt : idx < lines.length := (List.getElem?_eq_some_iff.mp hcurrent).1
          have hprev : lines[idx - 1]? = some lines[idx - 1] := List.getElem?_eq_getElem (by omega)
          obtain ⟨hnonempty, hstart, hend⟩ := hlines _ (List.mem_of_getElem? hprev)
          rw [hprev, Option.bind_some, TextArea.moveToWrappedLine]
          exact moved_toColumn unicode h _ _ hstart hend (by omega)
      · exact ⟨_, rfl, moved_start area none⟩
  · obtain ⟨front, back, htext, hcursor⟩ := h.cursor
    have hsplit : splitAtByte area.text area.cursorPos = some (front, back) := splitAtByte_eq_some.mpr ⟨htext, hcursor⟩
    simp only [hsplit, Option.bind_eq_bind, Option.bind_some]
    split
    · next prevNl hnewline =>
        obtain ⟨before, after, hfront, hbefore, -⟩ := rfindNewline_eq_some hnewline
        have hprevNl : Boundary area.text prevNl := ⟨before, '\n' :: after ++ back, by simp [htext, hfront], hbefore⟩
        obtain ⟨bol, hbol, hbolBoundary, hbolLe, -⟩ := TextArea.beginningOfLine_spec h.cursor
        obtain ⟨targetCol, hcol⟩ := targetColFrom_isSome unicode h hbolBoundary hbolLe
        obtain ⟨prevStart, hprevStart, hprevBoundary, hprevLe, -⟩ := TextArea.beginningOfLine_spec hprevNl
        simp only [TextArea.beginningOfCurrentLine, hbol, hcol, hprevStart, Option.bind_some]
        exact moved_toColumn unicode h _ _ hprevBoundary hprevNl hprevLe
    · exact ⟨_, rfl, moved_start area none⟩

theorem moveCursorDown_moved (unicode : Unicode) (h : area.Sound) :
    ∃ area', area.moveCursorDown unicode = some area' ∧ Moved area area' := by
  rw [TextArea.moveCursorDown]
  split
  · next lines idx hfind =>
      obtain ⟨hlines, current, hcurrent, hle⟩ := wrappedCursor_spec h hfind
      obtain ⟨targetCol, hcol⟩ := targetColFrom_isSome unicode h (hlines _ (List.mem_of_getElem? hcurrent)).2.1 hle
      simp only [hcurrent, hcol, Option.bind_eq_bind, Option.bind_some]
      split
      · next next hnext =>
          obtain ⟨hnonempty, hstart, hend⟩ := hlines _ (List.mem_of_getElem? hnext)
          exact moved_toColumn unicode h _ _ hstart hend (by omega)
      · exact ⟨_, rfl, moved_end h none⟩
  · obtain ⟨bol, hbol, hbolBoundary, hbolLe, -⟩ := TextArea.beginningOfLine_spec h.cursor
    obtain ⟨targetCol, hcol⟩ := targetColFrom_isSome unicode h hbolBoundary hbolLe
    obtain ⟨front, back, htext, hcursor⟩ := h.cursor
    have hsplit : splitAtByte area.text area.cursorPos = some (front, back) := splitAtByte_eq_some.mpr ⟨htext, hcursor⟩
    simp only [TextArea.beginningOfCurrentLine, hbol, hcol, hsplit, Option.bind_eq_bind, Option.bind_some]
    split
    · next i hnewline =>
        obtain ⟨before, after, hback, hbefore⟩ := findNewline_eq_some hnewline
        have hnextLine : Boundary area.text (area.cursorPos + i + 1) := by
          rw [htext, hback, ← List.append_assoc, ← hcursor, ← hbefore, ← byteLen_append]
          exact boundary_newline
        obtain ⟨eol, heol, heolBoundary, heolLe, -⟩ :=
          @TextArea.endOfLine_spec { area with preferredCol := some targetCol } _ hnextLine
        rw [heol, Option.bind_some]
        exact moved_toColumn unicode h _ _ hnextLine heolBoundary heolLe
    · exact ⟨_, rfl, moved_end h none⟩

/-! ## To the ends of a line and of a word -/

theorem moveCursorToBeginningOfLine_moved (h : area.Sound) (moveUpAtBol : Bool) :
    ∃ area', area.moveCursorToBeginningOfLine moveUpAtBol = some area' ∧ Moved area area' := by
  obtain ⟨bol, hbol, hboundary, hle, hnewline⟩ := TextArea.beginningOfLine_spec h.cursor
  simp only [TextArea.moveCursorToBeginningOfLine, TextArea.beginningOfCurrentLine, hbol, Option.bind_eq_bind,
    Option.bind_some]
  split
  · next hat =>
      have habove : Boundary area.text (area.cursorPos - 1) := by
        rw [hat.2]
        rcases Nat.eq_zero_or_pos bol with rfl | hpos
        · exact boundary_zero _
        · exact hnewline hpos
      obtain ⟨above, hfound, -⟩ := TextArea.beginningOfLine_spec habove
      rw [hfound]
      exact ⟨_, rfl, moved_setCursor h above⟩
  · exact ⟨_, rfl, moved_setCursor h bol⟩

theorem moveCursorToEndOfLine_moved (h : area.Sound) (moveDownAtEol : Bool) :
    ∃ area', area.moveCursorToEndOfLine moveDownAtEol = some area' ∧ Moved area area' := by
  obtain ⟨eol, heol, hboundary, hle, hnewline⟩ := TextArea.endOfLine_spec h.cursor
  simp only [TextArea.moveCursorToEndOfLine, TextArea.endOfCurrentLine, heol, Option.bind_eq_bind, Option.bind_some]
  split
  · next hat =>
      have hbelow : Boundary area.text (min (area.cursorPos + 1) area.len) := by
        rcases Nat.lt_or_ge eol area.len with hlt | hge
        · rw [hat.2, Nat.min_eq_left hlt]
          exact hnewline hlt
        · rw [hat.2, Nat.min_eq_right (Nat.le_succ_of_le hge)]
          exact boundary_byteLen _
      obtain ⟨below, hfound, -⟩ := TextArea.endOfLine_spec hbelow
      rw [hfound]
      exact ⟨_, rfl, moved_setCursor h below⟩
  · exact ⟨_, rfl, moved_setCursor h eol⟩

theorem moveToPreviousWord_moved (unicode : Unicode) (h : area.Sound) :
    ∃ area', (area.beginningOfPreviousWord unicode).map area.setCursor = some area' ∧ Moved area area' := by
  obtain ⟨start, hstart, -⟩ := TextArea.beginningOfPreviousWord_spec unicode h
  rw [hstart]
  exact ⟨_, rfl, moved_setCursor h start⟩

theorem moveToNextWord_moved (unicode : Unicode) (h : area.Sound) :
    ∃ area', (area.endOfNextWord unicode).map area.setCursor = some area' ∧ Moved area area' := by
  obtain ⟨stop, hstop, -⟩ := TextArea.endOfNextWord_spec unicode h
  rw [hstop]
  exact ⟨_, rfl, moved_setCursor h stop⟩

/-- Wrapping the text again touches only the wrapped lines. -/
theorem wrappedLines_sound (unicode : Unicode) (h : area.Sound) (width : Nat) : (area.wrappedLines unicode width).Sound := by
  rw [TextArea.wrappedLines]
  split
  · exact h
  · refine ⟨h.cursor, h.laid, fun cache hcache => ?_⟩
    cases Option.mem_def.mp hcache
    exact unicode.wrapRanges_spec area.text width

end Codrex.Composer
