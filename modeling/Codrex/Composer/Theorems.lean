import Codrex.Composer.Lemmas.Elements

/-!
# The text area over all its runs

Every operation leaves a sound text area behind and keeps the texts of the elements that it is not about. A kill and a
yank cancel out.
-/

namespace Codrex.Composer

open Text

variable {unicode : Unicode} {area area' : TextArea} {op : Op} {new : Str} {range : Span}

/-! ## Runs -/

/-- What the callers see to. -/
def Admissible (area : TextArea) : Op → Prop
  | .replaceRange range _ =>
      range.start ≤ range.stop ∧ Boundary area.text range.start ∧ Boundary area.text range.stop
  | .insertElement text => text ≠ []
  | .replaceElementPayload _ new => new ≠ []
  | .setTextWithElements _ elements => elements.Pairwise Span.Disjoint
  | _ => True

/-- No element is put around the cursor. -/
def CursorClear (area : TextArea) : Op → Prop
  | .addElementRange range => ClearOfCursor area range
  | _ => True

/-- The text areas that come of a new one, each step within the guard. -/
inductive Reachable (unicode : Unicode) (guard : TextArea → Op → Prop) : TextArea → Prop
  | new : Reachable unicode guard .new
  | step {area area' : TextArea} {op : Op} (h : Reachable unicode guard area) (hguard : guard area op)
      (hstep : step unicode area op = some area') : Reachable unicode guard area'

/-! ## What an operation does to the elements -/

/-- A range has become `new`, and the elements that do not lie within it keep their texts. -/
def Replaced (area : TextArea) (new : Str) (area' : TextArea) : Prop :=
  ∃ range before cut after, area.text = before ++ cut ++ after ∧ byteLen before = range.start ∧
    byteLen (before ++ cut) = range.stop ∧ area'.text = before ++ new ++ after ∧
    payloads area' = (area.elements.filter fun e => ¬ e.range.Within range).map (elementPayload area.text)

/-- The elements that an operation deletes or renames, or the one that it puts in; all others keep their texts. -/
def Kept (area area' : TextArea) : Op → Prop
  | .replaceRange _ text => Replaced area text area'
  | .deleteBackward _ | .deleteForward _ | .deleteBackwardWord | .deleteForwardWord | .killToEndOfLine
  | .killToBeginningOfLine => area'.text = area.text ∧ payloads area' = payloads area ∨ Replaced area [] area'
  | .insertElement text => ∃ id, (payloads area').Perm ((id, none, some text) :: payloads area)
  | .addElementRange range => payloads area' = payloads area ∨
      ∃ id new, slice area.text (clampSpan area range).start (clampSpan area range).stop = some new ∧
        (payloads area').Perm ((id, none, some new) :: payloads area)
  | .removeElementRange _ => (payloads area').Sublist (payloads area)
  | .replaceElementPayload old new => payloads area' = payloads area ∨ Renamed old new (payloads area) (payloads area')
  | .setTextClearingElements text | .setTextWithElements text _ => area'.text = text
  | _ => payloads area' = payloads area

/-! ## Steps -/

/-- The step succeeds, and leaves a sound text area behind. -/
def StepSpec (unicode : Unicode) (area : TextArea) (op : Op) : Prop :=
  ∃ area', step unicode area op = some area' ∧ area'.Sound ∧
    (area.CursorOutside → CursorClear area op → area'.CursorOutside) ∧ Kept area area' op

theorem Edited.replaced (h : Edited area range new area') : Replaced area new area' := by
  obtain ⟨before, cut, after, htext, hbefore, hcut, htext'⟩ := h.parts
  exact ⟨range, before, cut, after, htext, hbefore, hcut, htext', h.payloads⟩

theorem Moved.payloads (h : Moved area area') : payloads area' = payloads area := by
  rw [Composer.payloads, Composer.payloads, h.text, h.elements]

theorem Moved.cursorOutside (h : Moved area area') : area'.CursorOutside := by
  rw [TextArea.CursorOutside, h.elements]
  exact h.outside

theorem stepSpec_of_moved (h : area.Sound) (hstep : ∃ area', step unicode area op = some area' ∧ Moved area area')
    (hkept : ∀ area', payloads area' = payloads area → Kept area area' op) : StepSpec unicode area op := by
  obtain ⟨area', hstep, hmoved⟩ := hstep
  exact ⟨area', hstep, hmoved.sound h, fun _ _ => hmoved.cursorOutside, hkept area' hmoved.payloads⟩

theorem stepSpec_insertStrAt (h : area.Sound) (pos : Nat) (new : Str) :
    ∃ area', area.insertStrAt pos new = some area' ∧ area'.Sound ∧ (area.CursorOutside → area'.CursorOutside) ∧
      payloads area' = payloads area := by
  obtain ⟨area', hstep, hedited⟩ := insertStrAt_edited h pos new
  refine ⟨area', hstep, hedited.sound, fun hout => hedited.outside (.inl hout), ?_⟩
  rw [hedited.payloads, h.laid.filter_empty, payloads]

theorem stepSpec_of_deleted (h : area.Sound) (hstep : ∃ area', step unicode area op = some area' ∧ Deleted area area')
    (hkept : ∀ area', area'.text = area.text ∧ payloads area' = payloads area ∨ Replaced area [] area' →
      Kept area area' op) : StepSpec unicode area op := by
  obtain ⟨area', hstep, rfl | ⟨range, hedited⟩⟩ := hstep
  · exact ⟨area', hstep, h, fun hout _ => hout, hkept area' (.inl ⟨rfl, rfl⟩)⟩
  · exact ⟨area', hstep, hedited.sound, fun hout _ => hedited.outside (.inl hout), hkept area' (.inr hedited.replaced)⟩

theorem stepSpec_of_killed (h : area.Sound) (hstep : ∃ area', step unicode area op = some area' ∧ Killed area area')
    (hkept : ∀ area', area'.text = area.text ∧ payloads area' = payloads area ∨ Replaced area [] area' →
      Kept area area' op) : StepSpec unicode area op := by
  obtain ⟨area', hstep, rfl | ⟨range, killed, -, -, -, -, -, hedited⟩⟩ := hstep
  · exact ⟨area', hstep, h, fun hout _ => hout, hkept area' (.inl ⟨rfl, rfl⟩)⟩
  · exact ⟨area', hstep, hedited.sound, fun hout _ => hedited.outside (.inl hout), hkept area' (.inr hedited.replaced)⟩

theorem step_spec (unicode : Unicode) (h : area.Sound) (hop : Admissible area op) : StepSpec unicode area op := by
  cases op with
  | insertStr text =>
      obtain ⟨area', hstep, hsound, hout, hkept⟩ := stepSpec_insertStrAt h area.cursorPos text
      exact ⟨area', hstep, hsound, fun h _ => hout h, hkept⟩
  | insertStrAt pos text =>
      obtain ⟨area', hstep, hsound, hout, hkept⟩ := stepSpec_insertStrAt h pos text
      exact ⟨area', hstep, hsound, fun h _ => hout h, hkept⟩
  | replaceRange range text =>
      obtain ⟨hle, hstart, hstop⟩ := hop
      obtain ⟨area', hstep, hedited⟩ := replaceRange_edited h hle hstart hstop text
      exact ⟨area', hstep, hedited.sound, fun hout _ => hedited.outside (.inl hout), hedited.replaced⟩
  | deleteBackward n => exact stepSpec_of_deleted h (deleteBackward_deleted unicode h n) fun _ hkept => hkept
  | deleteForward n => exact stepSpec_of_deleted h (deleteForward_deleted unicode h n) fun _ hkept => hkept
  | deleteBackwardWord => exact stepSpec_of_killed h (deleteBackwardWord_killed unicode h) fun _ hkept => hkept
  | deleteForwardWord => exact stepSpec_of_killed h (deleteForwardWord_killed unicode h) fun _ hkept => hkept
  | killToEndOfLine => exact stepSpec_of_killed h (killToEndOfLine_killed h) fun _ hkept => hkept
  | killToBeginningOfLine => exact stepSpec_of_killed h (killToBeginningOfLine_killed h) fun _ hkept => hkept
  | yank =>
      rw [StepSpec, step, TextArea.yank]
      split
      · exact ⟨area, rfl, h, fun hout _ => hout, rfl⟩
      · obtain ⟨area', hstep, hsound, hout, hkept⟩ := stepSpec_insertStrAt h area.cursorPos area.killBuffer
        exact ⟨area', hstep, hsound, fun h _ => hout h, hkept⟩
  | moveCursorLeft => exact stepSpec_of_moved h ⟨_, rfl, moved_left unicode h⟩ fun _ hkept => hkept
  | moveCursorRight => exact stepSpec_of_moved h ⟨_, rfl, moved_right unicode h⟩ fun _ hkept => hkept
  | moveCursorUp => exact stepSpec_of_moved h (moveCursorUp_moved unicode h) fun _ hkept => hkept
  | moveCursorDown => exact stepSpec_of_moved h (moveCursorDown_moved unicode h) fun _ hkept => hkept
  | moveCursorToBeginningOfLine moveUpAtBol =>
      exact stepSpec_of_moved h (moveCursorToBeginningOfLine_moved h moveUpAtBol) fun _ hkept => hkept
  | moveCursorToEndOfLine moveDownAtEol =>
      exact stepSpec_of_moved h (moveCursorToEndOfLine_moved h moveDownAtEol) fun _ hkept => hkept
  | moveToPreviousWord => exact stepSpec_of_moved h (moveToPreviousWord_moved unicode h) fun _ hkept => hkept
  | moveToNextWord => exact stepSpec_of_moved h (moveToNextWord_moved unicode h) fun _ hkept => hkept
  | setCursor pos => exact stepSpec_of_moved h ⟨_, rfl, moved_setCursor h pos⟩ fun _ hkept => hkept
  | insertElement text =>
      obtain ⟨area', hstep, hsound, hout, -, hkept⟩ := insertElement_added h hop
      exact ⟨area', hstep, hsound, fun _ _ => hout, hkept⟩
  | addElementRange range =>
      refine ⟨_, rfl, addElementRange_sound h range, fun hout hclear => addElementRange_outside h hout hclear, ?_⟩
      rcases addElementRange_cases h range with heq | ⟨hadded, -, new, hslice⟩
      · exact .inl (congrArg payloads heq)
      · obtain ⟨id, hkept⟩ := hadded.payloads hslice
        exact .inr ⟨id, new, hslice, hkept⟩
  | removeElementRange range =>
      obtain ⟨kept, hkept, heq⟩ := removeElementRange_cases area range
      rw [StepSpec, step, heq]
      exact ⟨_, rfl, ⟨h.cursor, h.laid.subset hkept, h.lines⟩, fun hout _ e he => hout e (hkept.subset he), hkept.map _⟩
  | replaceElementPayload old new =>
      obtain ⟨area', hstep, rfl | ⟨hsound, hout, -, hkept⟩⟩ := replaceElementPayload_renamed h old hop
      · exact ⟨area', hstep, h, fun hout _ => hout, .inl rfl⟩
      · exact ⟨area', hstep, hsound, fun _ _ => hout, .inr hkept⟩
  | setTextClearingElements text =>
      obtain ⟨hsound, hout, htext, -⟩ := @setTextInner_sound area text none nofun
      exact ⟨_, rfl, hsound, fun _ _ => hout, htext⟩
  | setTextWithElements text elements =>
      obtain ⟨hsound, hout, htext, -⟩ := @setTextInner_sound area text (some elements) (by rintro _ ⟨⟩; exact hop)
      exact ⟨_, rfl, hsound, fun _ _ => hout, htext⟩
  | wrappedLines width =>
      have hsame : (area.wrappedLines unicode width).elements = area.elements ∧
          (area.wrappedLines unicode width).text = area.text ∧
          (area.wrappedLines unicode width).cursorPos = area.cursorPos := by
        rw [TextArea.wrappedLines]
        split <;> exact ⟨rfl, rfl, rfl⟩
      obtain ⟨helements, htext, hcursor⟩ := hsame
      refine ⟨_, rfl, wrappedLines_sound unicode h width, fun hout _ => ?_, ?_⟩
      · rwa [TextArea.CursorOutside, helements, hcursor]
      · show payloads _ = payloads area
        rw [payloads, payloads, helements, htext]

/-! ## Every state of a run -/

theorem sound_new : TextArea.new.Sound := ⟨boundary_zero _, Laid.nil _, nofun⟩

/-- Wherever an element has been put, the text area stays sound. -/
theorem Reachable.sound {guard : TextArea → Op → Prop} (hguard : ∀ area op, guard area op → Admissible area op)
    (h : Reachable unicode guard area) : area.Sound := by
  induction h with
  | new => exact sound_new
  | @step area area' op _ hop hstep ih =>
      obtain ⟨next, hnext, hsound, -⟩ := step_spec unicode ih (hguard area op hop)
      cases hstep.symm.trans hnext
      exact hsound

/-- A run that puts no element around the cursor keeps the cursor out of all of them; no step panics. -/
theorem textArea_invariant (h : Reachable unicode (fun area op => Admissible area op ∧ CursorClear area op) area) :
    area.Sound ∧ area.CursorOutside ∧
      ∀ op, Admissible area op → ∃ area', step unicode area op = some area' ∧ area'.Sound ∧ Kept area area' op := by
  have hsound := h.sound fun _ _ hop => hop.1
  refine ⟨hsound, ?_, fun op hop => ?_⟩
  · induction h with
    | new => exact nofun
    | @step area area' op hrun hop hstep ih =>
        have hbefore := hrun.sound fun _ _ hop => hop.1
        obtain ⟨next, hnext, -, hout, -⟩ := step_spec unicode hbefore hop.1
        cases hstep.symm.trans hnext
        exact hout (ih hbefore) hop.2
  · obtain ⟨area', hstep, hsound', -, hkept⟩ := step_spec unicode hsound hop
    exact ⟨area', hstep, hsound', hkept⟩

/-- A character is a grapheme and a column, a run is a word, and no line wraps. -/
def byChars : Unicode where
  prevBoundary := fun text pos => .ok (some (TextArea.prevCharBoundary text (pos - 1)))
  nextBoundary := fun text pos => .ok (some (TextArea.nextCharBoundary text (byteLen text - (pos + 1)) (pos + 1)))
  graphemes := fun text => text.map fun ch => [ch]
  width := List.length
  splitWordBounds := fun run => [run]
  wrapRanges := fun text _ => [⟨0, byteLen text + 1⟩]
  prevBoundary_spec := fun text pos _ hpos => by
    refine ⟨_, rfl, ?_, TextArea.prevCharBoundary_boundary _ _⟩
    have hle := TextArea.prevCharBoundary_le text (pos - 1)
    omega
  nextBoundary_spec := fun text pos _ hlt => by
    obtain ⟨hboundary, hle, -⟩ := @TextArea.nextCharBoundary_spec text (pos + 1) (byteLen text - (pos + 1)) (by omega)
    exact ⟨_, rfl, hle, hboundary⟩
  splitWordBounds_flatten := fun _ => List.flatten_singleton
  wrapRanges_spec := by
    intro text width line hline
    rw [List.mem_singleton.mp hline]
    exact ⟨Nat.succ_pos _, boundary_zero _, boundary_byteLen _⟩

/-- A command that has been typed, with the cursor inside of it. -/
def typedCommand : TextArea := { TextArea.new with text := "/plan".toList, cursorPos := 2 }

theorem reachable_typedCommand {guard : TextArea → Op → Prop} (hinsert : guard .new (.insertStr "/plan".toList))
    (hcursor : guard { TextArea.new with text := "/plan".toList, cursorPos := 5 } (.setCursor 2)) :
    Reachable byChars guard typedCommand :=
  .step (.step .new hinsert (by decide)) hcursor (by decide)

/-- The typed command becomes an element around the cursor. -/
theorem cursor_inside_command :
    ∃ area, Reachable byChars Admissible area ∧ ¬ (area.Sound ∧ area.CursorOutside) := by
  refine ⟨typedCommand.addElementRange ⟨0, 5⟩,
    @Reachable.step _ _ _ _ (.addElementRange ⟨0, 5⟩) (reachable_typedCommand trivial trivial) trivial rfl, fun h => ?_⟩
  have hinside : ∃ e ∈ (typedCommand.addElementRange ⟨0, 5⟩).elements,
      e.range.Inside (typedCommand.addElementRange ⟨0, 5⟩).cursorPos := by decide
  obtain ⟨e, he, hinside⟩ := hinside
  exact h.2 e he hinside

/-- A command in front of the cursor becomes an element. -/
theorem typedCommand_invariant :
    ((typedCommand.setCursor 5).addElementRange ⟨0, 5⟩).Sound ∧
      ((typedCommand.setCursor 5).addElementRange ⟨0, 5⟩).CursorOutside ∧
      ∀ op, Admissible ((typedCommand.setCursor 5).addElementRange ⟨0, 5⟩) op →
        ∃ area', step byChars ((typedCommand.setCursor 5).addElementRange ⟨0, 5⟩) op = some area' ∧ area'.Sound ∧
          Kept ((typedCommand.setCursor 5).addElementRange ⟨0, 5⟩) area' op := by
  refine textArea_invariant (@Reachable.step _ _ _ _ (.addElementRange ⟨0, 5⟩)
    (@Reachable.step _ _ _ _ (.setCursor 5) (reachable_typedCommand ⟨trivial, trivial⟩ ⟨trivial, trivial⟩)
      ⟨trivial, trivial⟩ rfl) ⟨trivial, ?_⟩ rfl)
  show ClearOfCursor _ _
  decide

/-! ## Kills and yanks -/

def kills : List Op := [.killToEndOfLine, .killToBeginningOfLine, .deleteBackwardWord, .deleteForwardWord]

/-- Operations that set a text or the cursor. -/
def SetsText : Op → Prop
  | .setTextClearingElements _ => True
  | .setTextWithElements _ elements => elements.Pairwise Span.Disjoint
  | .setCursor _ => True
  | _ => False

theorem kill_killed (unicode : Unicode) (h : area.Sound) (hop : op ∈ kills) :
    ∃ area', step unicode area op = some area' ∧ Killed area area' := by
  simp only [kills, List.mem_cons, List.not_mem_nil, or_false] at hop
  rcases hop with rfl | rfl | rfl | rfl
  · exact killToEndOfLine_killed h
  · exact killToBeginningOfLine_killed h
  · exact deleteBackwardWord_killed unicode h
  · exact deleteForwardWord_killed unicode h

/-- Setting texts and cursors keeps what was killed. -/
theorem setsText_keeps {between : List Op} (hbetween : ∀ op ∈ between, SetsText op) (h : area.Sound)
    (hout : area.CursorOutside) (hrun : between.foldlM (step unicode) area = some area') :
    area'.Sound ∧ area'.CursorOutside ∧ area'.killBuffer = area.killBuffer := by
  induction between generalizing area with
  | nil =>
      cases hrun
      exact ⟨h, hout, rfl⟩
  | cons op between ih =>
      obtain ⟨next, hstep, hrest⟩ := Option.bind_eq_some_iff.mp hrun
      have hnext : next.Sound ∧ next.CursorOutside ∧ next.killBuffer = area.killBuffer := by
        have hop := hbetween op (List.mem_cons_self ..)
        cases op with
        | setTextClearingElements text =>
            cases hstep
            obtain ⟨hsound, hout, -, hkill⟩ := @setTextInner_sound area text none nofun
            exact ⟨hsound, hout, hkill⟩
        | setTextWithElements text elements =>
            cases hstep
            obtain ⟨hsound, hout, -, hkill⟩ :=
              @setTextInner_sound area text (some elements) (by rintro _ ⟨⟩; exact hop)
            exact ⟨hsound, hout, hkill⟩
        | setCursor pos =>
            cases hstep
            have hmoved := moved_setCursor h pos
            exact ⟨hmoved.sound h, hmoved.cursorOutside, hmoved.killBuffer⟩
        | _ => exact hop.elim
      obtain ⟨hsound, hout', hkill⟩ := hnext
      obtain ⟨hsound', hout'', hkill'⟩ := ih (fun op hop => hbetween op (List.mem_cons_of_mem _ hop)) hsound hout' hrest
      exact ⟨hsound', hout'', hkill'.trans hkill⟩

/-- A yank puts the killed text where the cursor stands. -/
theorem yank_text {before after : Str} (h : area.Sound) (hout : area.CursorOutside) (htext : area.text = before ++ after)
    (hcursor : area.cursorPos = byteLen before) :
    ∃ area', area.yank = some area' ∧ area'.text = before ++ area.killBuffer ++ after := by
  rw [TextArea.yank]
  split
  · next hempty => exact ⟨area, rfl, by rw [hempty, htext, List.append_nil]⟩
  · obtain ⟨area', hstep, hedited⟩ := insertStrAt_edited h area.cursorPos area.killBuffer
    rw [TextArea.clampPosForInsertion_eq, TextArea.clampPosToNearestBoundary_of_outside h.cursor hout] at hedited
    obtain ⟨front, cut, back, hparts, hfront, hcut, htext'⟩ := hedited.parts
    simp only at hfront hcut
    obtain rfl : cut = [] := by
      rw [byteLen_append] at hcut
      exact byteLen_eq_zero.mp (by omega)
    rw [htext, List.append_nil] at hparts
    have hsplit := splitAtByte_append before after
    rw [hparts, ← hcursor, ← hfront, splitAtByte_append] at hsplit
    cases hsplit
    exact ⟨area', hstep, htext'⟩

/-- The area without one range that no element crosses. A yank brings the range back, also after the rest of the text
has been set anew. -/
def Undoable (unicode : Unicode) (area area' : TextArea) : Prop :=
  ∃ before killed after, area.text = before ++ killed ++ after ∧ killed ≠ [] ∧ area'.text = before ++ after ∧
    (∀ e ∈ area.elements, Span.Whole ⟨byteLen before, byteLen (before ++ killed)⟩ e.range) ∧
    payloads area' = (area.elements.filter fun e =>
      ¬ e.range.Within ⟨byteLen before, byteLen (before ++ killed)⟩).map (elementPayload area.text) ∧
    ∀ (between : List Op) (found : TextArea), (∀ op ∈ between, SetsText op) →
      between.foldlM (step unicode) area' = some found → found.text = area'.text → found.cursorPos = area'.cursorPos →
      ∃ restored, step unicode found .yank = some restored ∧ restored.text = area.text

theorem kill_yank (h : Reachable unicode Admissible area) (hop : op ∈ kills) :
    ∃ area', step unicode area op = some area' ∧ (area'.text ≠ area.text → Undoable unicode area area') := by
  have hsound := h.sound fun _ _ hop => hop
  obtain ⟨area', hstep, rfl | ⟨range, killed, hslice, hne, hle, hge, hwhole, hedited⟩⟩ := kill_killed unicode hsound hop
  · exact ⟨area', hstep, fun hchanged => absurd rfl hchanged⟩
  · refine ⟨area', hstep, fun _ => ?_⟩
    obtain ⟨before, killed', after, htext, hbefore, hcut, htext'⟩ := hedited.parts
    simp only at htext
    have hkilled := slice_append before killed' after
    rw [← htext, hbefore, hcut, hslice] at hkilled
    cases hkilled
    have hrange : range = ⟨byteLen before, byteLen (before ++ killed)⟩ := by rw [hbefore, hcut]
    have hlt : range.start < range.stop := by
      rw [hrange, byteLen_append]
      exact Nat.lt_add_of_pos_right (Nat.pos_of_ne_zero fun hzero => hne (byteLen_eq_zero.mp hzero))
    rw [List.append_nil] at htext'
    rw [hrange] at hwhole
    have hpayloads := hedited.payloads
    rw [hrange] at hpayloads
    refine ⟨before, killed, after, htext, hne, htext', hwhole, hpayloads, fun between found hbetween hrun hsame hback => ?_⟩
    obtain ⟨hfound, hfoundOut, hkill⟩ := setsText_keeps hbetween hedited.sound (hedited.outside (.inr hlt)) hrun
    have hcursor : found.cursorPos = byteLen before := by
      rw [hback, hedited.cursor hle hge, hbefore]
      rfl
    obtain ⟨restored, hyank, hrestored⟩ := yank_text hfound hfoundOut (hsame.trans htext') hcursor
    refine ⟨restored, hyank, ?_⟩
    rw [hrestored, hkill, hedited.killBuffer, htext]

/-- The part of the command in front of the cursor is killed. -/
theorem typedCommand_yank :
    ∃ area', step byChars typedCommand .deleteBackwardWord = some area' ∧
      (area'.text ≠ typedCommand.text → Undoable byChars typedCommand area') :=
  kill_yank (reachable_typedCommand trivial trivial) (by decide)

end Codrex.Composer
