import Codrex.Composer.Lemmas.Moves

/-!
# Putting in, taking out and renaming elements

Elements that lie apart are sorted into a text where they lie one behind the other.
-/

namespace Codrex.Composer

open Text

variable {area area' : TextArea} {text new : Str} {elements front back : List TextElement} {e : TextElement}
  {range : Span}

/-! ## Sorted elements -/

/-- Elements that lie apart in any order. -/
structure Scattered (text : Str) (elements : List TextElement) : Prop where
  apart : elements.Pairwise fun e other => e.range.stop ≤ other.range.start ∨ other.range.stop ≤ e.range.start
  nonempty : ∀ e ∈ elements, e.range.start < e.range.stop
  starts : ∀ e ∈ elements, Boundary text e.range.start
  stops : ∀ e ∈ elements, Boundary text e.range.stop

theorem Laid.scattered (h : Laid text elements) : Scattered text elements :=
  ⟨(List.pairwise_map.mp h.apart).imp .inl, h.nonempty, h.starts, h.stops⟩

theorem Scattered.laid_sortByStart (h : Scattered text elements) : Laid text (TextArea.sortByStart elements) := by
  have hperm : (TextArea.sortByStart elements).Perm elements := List.perm_insertionSort _ _
  exact ⟨Span.apart_insertionSort TextElement.range h.apart h.nonempty, fun e he => h.nonempty e (hperm.mem_iff.mp he),
    fun e he => h.starts e (hperm.mem_iff.mp he), fun e he => h.stops e (hperm.mem_iff.mp he)⟩

theorem Laid.sortByStart_eq (h : Laid text elements) : TextArea.sortByStart elements = elements := by
  refine ((List.pairwise_map.mp h.apart).imp_of_mem fun {e} {other} he _ hle => ?_).insertionSort_eq
  exact (Nat.le_of_lt (h.nonempty e he)).trans hle

theorem Scattered.append (h : Scattered text elements) (hne : e.range.start < e.range.stop)
    (hstart : Boundary text e.range.start) (hstop : Boundary text e.range.stop)
    (hclear : ∀ other ∈ elements, other.range.stop ≤ e.range.start ∨ e.range.stop ≤ other.range.start) :
    Scattered text (elements ++ [e]) := by
  have hmem {P : TextElement → Prop} (hall : ∀ other ∈ elements, P other) (he : P e) :
      ∀ other ∈ elements ++ [e], P other := by
    intro other hother
    rcases List.mem_append.mp hother with hother | hother
    · exact hall other hother
    · rwa [List.mem_singleton.mp hother]
  refine ⟨List.pairwise_append.mpr ⟨h.apart, List.pairwise_singleton _ _, fun other hother new hnew => ?_⟩,
    hmem h.nonempty hne, hmem h.starts hstart, hmem h.stops hstop⟩
  rw [List.mem_singleton.mp hnew]
  exact hclear other hother

theorem Laid.subset (h : Laid text elements) {kept : List TextElement} (hkept : kept.Sublist elements) : Laid text kept where
  apart := h.apart.sublist (hkept.map _)
  nonempty := fun e he => h.nonempty e (hkept.subset he)
  starts := fun e he => h.starts e (hkept.subset he)
  stops := fun e he => h.stops e (hkept.subset he)

/-! ## One more element -/

/-- The area has the element on top of those that it had. -/
structure Added (area : TextArea) (range : Span) (area' : TextArea) : Prop where
  text : area'.text = area.text
  cursorPos : area'.cursorPos = area.cursorPos
  wrapCache : area'.wrapCache = area.wrapCache
  laid : Laid area.text area'.elements
  elements : ∃ id, area'.elements.Perm (⟨id, range, none⟩ :: area.elements)

theorem addElement_added (h : area.Sound) (hne : range.start < range.stop) (hstart : Boundary area.text range.start)
    (hstop : Boundary area.text range.stop)
    (hclear : ∀ e ∈ area.elements, e.range.stop ≤ range.start ∨ range.stop ≤ e.range.start) :
    Added area range (area.addElement range) := by
  refine ⟨rfl, rfl, rfl, (h.laid.scattered.append hne hstart hstop hclear).laid_sortByStart, area.nextElementId, ?_⟩
  exact (List.perm_insertionSort _ _).trans (List.perm_append_singleton _ _)

theorem Added.sound (h : Added area range area') (hsound : area.Sound) : area'.Sound where
  cursor := by
    rw [h.text, h.cursorPos]
    exact hsound.cursor
  laid := h.text ▸ h.laid
  lines := by
    rw [h.text, h.wrapCache]
    exact hsound.lines

theorem Added.payloads (h : Added area range area') (hslice : slice area.text range.start range.stop = some new) :
    ∃ id, (payloads area').Perm ((id, none, some new) :: payloads area) := by
  obtain ⟨id, hperm⟩ := h.elements
  refine ⟨id, ?_⟩
  have hmap := hperm.map (elementPayload area.text)
  rw [List.map_cons, elementPayload, TextArea.payload, hslice] at hmap
  rwa [Composer.payloads, h.text]

theorem insertElement_added (h : area.Sound) (hne : new ≠ []) :
    ∃ area', area.insertElement new = some area' ∧ area'.Sound ∧ area'.CursorOutside ∧
      area'.killBuffer = area.killBuffer ∧ ∃ id, (payloads area').Perm ((id, none, some new) :: payloads area) := by
  obtain ⟨hplace, houtside⟩ := TextArea.clampPosToNearestBoundary_spec h.laid area.cursorPos
  rw [← TextArea.clampPosForInsertion_eq] at hplace houtside
  simp only [TextArea.insertElement]
  generalize area.clampPosForInsertion area.cursorPos = start at hplace houtside ⊢
  obtain ⟨edited, hstep, hedited⟩ := insertStrAt_edited h start new
  rw [TextArea.clampPosForInsertion_eq, TextArea.clampPosToNearestBoundary_of_outside hplace houtside] at hedited
  obtain ⟨before, cut, after, htext, hbefore, hcut, htext'⟩ := hedited.parts
  simp only at hbefore hcut
  have hstop : byteLen (before ++ new) = start + byteLen new := by rw [byteLen_append, hbefore]
  have hlt : start < start + byteLen new :=
    Nat.lt_add_of_pos_right (Nat.pos_of_ne_zero fun hzero => hne (byteLen_eq_zero.mp hzero))
  have hslice : slice edited.text start (start + byteLen new) = some new :=
    slice_eq_some.mpr ⟨before, after, htext', hbefore, hstop⟩
  have hadded : Added edited ⟨start, start + byteLen new⟩ (edited.addElement ⟨start, start + byteLen new⟩) := by
    refine addElement_added hedited.sound hlt ?_ ?_ hedited.clear
    · rw [htext', ← hbefore, List.append_assoc]
      exact boundary_append _ _
    · rw [htext', ← hstop]
      exact boundary_append _ _
  have hmoved := moved_setCursor (hadded.sound hedited.sound) (start + byteLen new)
  obtain ⟨id, hpayloads⟩ := hadded.payloads hslice
  have hkept : payloads edited = payloads area := by rw [hedited.payloads, h.laid.filter_empty start, payloads]
  rw [hkept] at hpayloads
  rw [hstep, Option.bind_eq_bind, Option.bind_some]
  exact ⟨_, rfl, hmoved.sound (hadded.sound hedited.sound), hmoved.outside, hedited.killBuffer, id, hpayloads⟩

/-! ## Ranges of the text as elements -/

/-- The range that is meant, on boundaries of the text. -/
def clampSpan (area : TextArea) (range : Span) : Span :=
  ⟨area.clampPosToCharBoundary (min range.start area.len), area.clampPosToCharBoundary (min range.stop area.len)⟩

/-- The cursor does not stand inside of what becomes an element. -/
def ClearOfCursor (area : TextArea) (range : Span) : Prop :=
  (∃ e ∈ area.elements, e.range.Meets (clampSpan area range)) ∨ ¬ (clampSpan area range).Inside area.cursorPos

instance (area : TextArea) (range : Span) : Decidable (ClearOfCursor area range) := inferInstanceAs (Decidable (_ ∨ _))

theorem addElementRange_cases (h : area.Sound) (range : Span) :
    area.addElementRange range = area ∨
      Added area (clampSpan area range) (area.addElementRange range) ∧
        (∀ e ∈ area.elements, ¬ e.range.Meets (clampSpan area range)) ∧
        ∃ new, slice area.text (clampSpan area range).start (clampSpan area range).stop = some new := by
  have hstart := area.clampPosToCharBoundary_boundary (min range.start area.len)
  have hstop := area.clampPosToCharBoundary_boundary (min range.stop area.len)
  simp only [TextArea.addElementRange, clampSpan]
  generalize area.clampPosToCharBoundary (min range.start area.len) = start at hstart ⊢
  generalize area.clampPosToCharBoundary (min range.stop area.len) = stop at hstop ⊢
  split
  · exact .inl rfl
  · next hlt =>
      split
      · exact .inl rfl
      · split
        · exact .inl rfl
        · next hoverlaps =>
            have hclear : ∀ e ∈ area.elements, ¬ e.range.Meets ⟨start, stop⟩ := by
              rintro e he ⟨hfront, hbehind⟩
              exact hoverlaps (List.any_eq_true.mpr ⟨e, he, decide_eq_true ⟨hbehind, hfront⟩⟩)
            obtain ⟨before, new, after, htext, hbefore, hnew⟩ := exists_cut hstart hstop (Nat.le_of_lt (Nat.not_le.mp hlt))
            refine .inr ⟨addElement_added h (Nat.not_le.mp hlt) hstart hstop fun e he => ?_, hclear, new,
              slice_eq_some.mpr ⟨before, after, htext, hbefore, hnew⟩⟩
            have hnot := hclear e he
            simp only [Span.Meets, not_and_or, Nat.not_lt] at hnot
            exact hnot.symm

theorem addElementRange_sound (h : area.Sound) (range : Span) : (area.addElementRange range).Sound := by
  rcases addElementRange_cases h range with heq | ⟨hadded, -⟩
  · rwa [heq]
  · exact hadded.sound h

theorem addElementRange_outside (h : area.Sound) (hout : area.CursorOutside) (hclear : ClearOfCursor area range) :
    (area.addElementRange range).CursorOutside := by
  rcases addElementRange_cases h range with heq | ⟨hadded, hmeets, -⟩
  · rwa [heq]
  · obtain ⟨id, hperm⟩ := hadded.elements
    intro e he
    rw [hadded.cursorPos]
    rcases List.mem_cons.mp (hperm.mem_iff.mp he) with rfl | he
    · exact hclear.resolve_left fun ⟨e, he, hmeet⟩ => hmeets e he hmeet
    · exact hout e he

theorem removeElementRange_cases (area : TextArea) (range : Span) : ∃ kept, kept.Sublist area.elements ∧
    area.removeElementRange range = { area with elements := kept } := by
  simp only [TextArea.removeElementRange]
  split
  · exact ⟨area.elements, List.Sublist.refl _, rfl⟩
  · exact ⟨_, List.filter_sublist, rfl⟩

/-! ## Renaming -/

theorem Laid.insert (h : Laid text (front ++ back)) (hne : e.range.start < e.range.stop)
    (hstart : Boundary text e.range.start) (hstop : Boundary text e.range.stop)
    (hfront : ∀ other ∈ front, other.range.stop ≤ e.range.start)
    (hback : ∀ other ∈ back, e.range.stop ≤ other.range.start) : Laid text (front ++ e :: back) := by
  have hmem {P : TextElement → Prop} (hall : ∀ other ∈ front ++ back, P other) (he : P e) :
      ∀ other ∈ front ++ e :: back, P other := by
    intro other hother
    rcases List.mem_append.mp hother with hother | hother
    · exact hall other (List.mem_append_left _ hother)
    · rcases List.mem_cons.mp hother with rfl | hother
      · exact he
      · exact hall other (List.mem_append_right _ hother)
  obtain ⟨happart, happart', hbetween⟩ := List.pairwise_append.mp (List.pairwise_map.mp h.apart)
  refine ⟨List.pairwise_map.mpr (List.pairwise_append.mpr ⟨happart, happart'.cons hback, fun other hother next hnext => ?_⟩),
    hmem h.nonempty hne, hmem h.starts hstart, hmem h.stops hstop⟩
  rcases List.mem_cons.mp hnext with rfl | hnext
  · exact hfront other hother
  · exact hbetween other hother next hnext

/-- An element among the others. -/
theorem Laid.around (h : Laid text (front ++ e :: back)) :
    (∀ other ∈ front, other.range.stop ≤ e.range.start) ∧ ∀ other ∈ back, e.range.stop ≤ other.range.start := by
  obtain ⟨-, hback, hfront⟩ := List.pairwise_append.mp (List.pairwise_map.mp h.apart)
  exact ⟨fun other hother => hfront other hother e (List.mem_cons_self ..), (List.pairwise_cons.mp hback).1⟩

/-- The element has another length, and those behind it move with its end. -/
def renamedElements (front : List TextElement) (e : TextElement) (back : List TextElement) (inserted : Nat) :
    List TextElement :=
  front ++ { e with range := ⟨e.range.start, e.range.start + inserted⟩ } ::
    back.map fun other => { other with range := Span.moved e.range inserted other.range }

theorem renameElements_eq (h : Laid text (front ++ e :: back)) (new : Str) {removed : Nat}
    (hremoved : e.range.start + removed = e.range.stop) :
    ((front ++ e :: back).mapIdx fun j other =>
        TextArea.renameElement e.range.start removed (byteLen new) front.length j other) =
      renamedElements front e back (byteLen new) := by
  obtain ⟨hfront, hback⟩ := h.around
  have hne := h.nonempty e (by simp)
  rw [List.mapIdx_append, List.mapIdx_cons, renamedElements]
  congr 1
  · refine List.ext_getElem (List.length_mapIdx ..) fun j hj hlt => ?_
    rw [List.getElem_mapIdx, TextArea.renameElement]
    rw [if_neg (Nat.ne_of_lt hlt), if_pos (.inr (hfront _ (List.getElem_mem hlt)))]
  · congr 1
    · simp only [Nat.zero_add, TextArea.renameElement, if_pos]
    · refine List.ext_getElem (by simp) fun j hj hlt => ?_
      rw [List.getElem_mapIdx, List.getElem_map, TextArea.renameElement]
      have hlt : j < back.length := by simpa using hlt
      have hbehind := hback _ (List.getElem_mem hlt)
      have hother := h.nonempty back[j] (by simp)
      have hnot : ¬ back[j].range.stop ≤ e.range.start := by omega
      rw [if_neg (by omega), Span.moved, if_neg hnot]
      split
      · next hsame =>
          have hdiff : (byteLen new : Int) - removed = 0 := hsame.resolve_right hnot
          have hstart : back[j].range.start - (e.range.stop - e.range.start) + byteLen new = back[j].range.start := by omega
          have hstop : back[j].range.stop - (e.range.stop - e.range.start) + byteLen new = back[j].range.stop := by omega
          rw [hstart, hstop]
      · rw [if_pos (hremoved ▸ hbehind)]
        simp only [TextArea.shiftPos, TextElement.mk.injEq, Span.mk.injEq, true_and, and_true]
        omega

theorem filter_within_around (h : Laid text (front ++ e :: back)) :
    ((front ++ e :: back).filter fun other => ¬ other.range.Within e.range) = front ++ back := by
  obtain ⟨hfront, hback⟩ := h.around
  have hkept {others : List TextElement} (hothers : ∀ other ∈ others, ¬ other.range.Within e.range) :
      (others.filter fun other => ¬ other.range.Within e.range) = others :=
    List.filter_eq_self.mpr fun other hother => decide_eq_true (hothers other hother)
  rw [List.filter_append, List.filter_cons_of_neg (by simp [Span.Within.refl]), hkept, hkept]
  · rintro other hother ⟨hstart, hstop⟩
    have hne := h.nonempty other (by simp [hother])
    have hle := hback other hother
    omega
  · rintro other hother ⟨hstart, hstop⟩
    have hne := h.nonempty other (by simp [hother])
    have hle := hfront other hother
    omega

theorem map_moved_front (h : Laid text (front ++ e :: back)) (inserted : Nat) :
    (front ++ back).map (fun other => { other with range := Span.moved e.range inserted other.range }) =
      front ++ back.map fun other => { other with range := Span.moved e.range inserted other.range } := by
  rw [List.map_append]
  congr 1
  refine (List.map_congr_left fun other hother => ?_).trans (List.map_id front)
  rw [Span.moved, if_pos (h.around.1 other hother), id]

/-- One element has another text. -/
def Renamed (old new : Str) (before after : List (Nat × Option Str × Option Str)) : Prop :=
  ∃ front back id name, before = front ++ (id, name, some old) :: back ∧ after = front ++ (id, name, some new) :: back

/-- The elements of a text where the text of one of them is replaced. -/
theorem laid_renamed {before old after : Str} (h : Laid (before ++ old ++ after) (front ++ e :: back))
    (hrange : e.range = cutSpan before old) (hne : new ≠ []) :
    Laid (before ++ new ++ after) (renamedElements front e back (byteLen new)) ∧
      Renamed old new ((front ++ e :: back).map (elementPayload (before ++ old ++ after)))
        ((renamedElements front e back (byteLen new)).map (elementPayload (before ++ new ++ after))) := by
  obtain ⟨hfront, hback⟩ := h.around
  have hwhole : ∀ other ∈ front ++ e :: back, Span.Whole (cutSpan before old) other.range := by
    intro other hother
    rw [← hrange]
    rcases List.mem_append.mp hother with hother | hother
    · exact .inl (hfront other hother)
    · rcases List.mem_cons.mp hother with rfl | hother
      · exact .inr (.inr (Span.Within.refl _))
      · exact .inr (.inl (hback other hother))
  have hshifted := shiftElements_eq h hwhole new
  rw [← hrange, filter_within_around h, map_moved_front h] at hshifted
  have hlaid := h.edit hwhole new
  have hpayloads := payloads_edit h hwhole new
  rw [hshifted] at hlaid hpayloads
  rw [← hrange, filter_within_around h] at hpayloads
  have hpos : 0 < byteLen new := Nat.pos_of_ne_zero fun hzero => hne (byteLen_eq_zero.mp hzero)
  have hnewRange : (⟨e.range.start, e.range.start + byteLen new⟩ : Span) = cutSpan before new := by rw [hrange]; rfl
  rw [renamedElements, hnewRange]
  constructor
  · refine hlaid.insert ?_ ?_ ?_ ?_ ?_
    · exact Nat.lt_add_of_pos_right hpos
    · rw [List.append_assoc]
      exact boundary_append _ _
    · rw [show (cutSpan before new).stop = byteLen (before ++ new) from (byteLen_append ..).symm]
      exact boundary_append _ _
    · intro other hother
      have hle := hfront other hother
      rwa [hrange] at hle
    · intro moved hmoved
      obtain ⟨other, hother, rfl⟩ := List.mem_map.mp hmoved
      have hle := hback other hother
      have hother := h.nonempty other (by simp [hother])
      have hstop : (cutSpan before new).stop = e.range.start + byteLen new := by rw [hrange]; rfl
      have hwide := h.nonempty e (by simp)
      simp only [hstop, Span.moved_start]
      rw [if_neg (by omega)]
      omega
  · rw [List.map_append, List.map_append] at hpayloads
    obtain ⟨hfrontEq, hbackEq⟩ := List.append_inj hpayloads (by simp)
    have hold : TextArea.payload (before ++ old ++ after) e = some old := by
      rw [TextArea.payload, hrange, cutSpan, ← byteLen_append]
      exact slice_append _ _ _
    have hnew : slice (before ++ new ++ after) (cutSpan before new).start (cutSpan before new).stop = some new := by
      rw [cutSpan, ← byteLen_append]
      exact slice_append _ _ _
    refine ⟨front.map (elementPayload (before ++ old ++ after)), back.map (elementPayload (before ++ old ++ after)), e.id,
      e.name, ?_, ?_⟩
    · rw [List.map_append, List.map_cons, elementPayload, hold]
    · rw [List.map_append, List.map_cons, hfrontEq, hbackEq, elementPayload, TextArea.payload, hnew]

theorem replaceElementPayload_renamed (h : area.Sound) (old : Str) (hne : new ≠ []) :
    ∃ area', area.replaceElementPayload old new = some area' ∧
      (area' = area ∨ area'.Sound ∧ area'.CursorOutside ∧ area'.killBuffer = area.killBuffer ∧
        Renamed old new (payloads area) (payloads area')) := by
  rw [TextArea.replaceElementPayload]
  split
  · exact ⟨area, rfl, .inl rfl⟩
  · next idx hfind =>
      obtain ⟨hlt, hpayload, -⟩ := List.findIdx?_eq_some_iff_getElem.mp hfind
      have hlaid := h.laid
      obtain ⟨text, cursorPos, cache, col, elements, next, kill⟩ := area
      simp only at hlt hpayload hlaid ⊢
      obtain ⟨front, back, e, helements, hidx⟩ : ∃ front back e, elements = front ++ e :: back ∧ front.length = idx :=
        ⟨elements.take idx, elements.drop (idx + 1), elements[idx], by simp, List.length_take_of_le (Nat.le_of_lt hlt)⟩
      subst helements hidx
      simp only [List.getElem_append_right (Nat.le_refl _), Nat.sub_self, List.getElem_cons_zero,
        decide_eq_true_eq] at hpayload
      obtain ⟨before, after, rfl, hstart, hstop⟩ := slice_eq_some.mp hpayload
      have hrange : e.range = cutSpan before old := by
        rw [cutSpan, ← byteLen_append, hstart, hstop]
      have hstart' : e.range.start = byteLen before := hstart.symm
      have hstop' : e.range.stop = byteLen (before ++ old) := hstop.symm
      obtain ⟨hrenamed, hpayloads⟩ := laid_renamed hlaid hrange hne
      have hmapIdx := renameElements_eq hlaid new (Nat.add_sub_cancel' (Nat.le_of_lt (hlaid.nonempty e (by simp))))
      have hbound : ¬ (e.range.stop < e.range.start ∨ byteLen (before ++ old ++ after) < e.range.stop) := by
        have hle := (hlaid.stops e (by simp)).le
        have hlt := hlaid.nonempty e (by simp)
        omega
      simp only [List.getElem?_append_right (Nat.le_refl _), Nat.sub_self, List.getElem?_cons_zero, Option.bind_some,
        TextArea.len, if_neg hbound, hmapIdx]
      rw [hstart', hstop', replaceBytes_append, Option.map_some]
      have hspec (cursorPos pos : Nat) := @TextArea.clampPosToNearestBoundary_spec ⟨before ++ new ++ after, cursorPos, none,
        none, renamedElements front e back (byteLen new), next, kill⟩ hrenamed pos
      refine ⟨_, rfl, .inr ⟨⟨(hspec _ _).1, ?_, (by rintro _ ⟨⟩)⟩, ?_, rfl, ?_⟩⟩
      · exact hrenamed.sortByStart_eq.symm ▸ hrenamed
      · intro other hother
        simp only [hrenamed.sortByStart_eq] at hother
        exact (hspec _ _).2 other hother
      · simp only [payloads, hrenamed.sortByStart_eq]
        exact hpayloads

/-! ## Whole texts -/

/-- Ranges that are empty or turned around become no elements, and others stay disjoint where they are clamped. -/
theorem clampSpan_apart {span other : Span} (h : span.Disjoint other)
    (hspan : (clampSpan area span).start < (clampSpan area span).stop)
    (hother : (clampSpan area other).start < (clampSpan area other).stop) :
    (clampSpan area span).stop ≤ (clampSpan area other).start ∨ (clampSpan area other).stop ≤ (clampSpan area span).start := by
  have hmono {pos pos' : Nat} (hle : pos ≤ pos') :
      area.clampPosToCharBoundary (min pos area.len) ≤ area.clampPosToCharBoundary (min pos' area.len) :=
    TextArea.clampPosToCharBoundary_mono (by omega)
  have hproper {span : Span} (hspan : (clampSpan area span).start < (clampSpan area span).stop) : span.start < span.stop := by
    by_contra hle
    exact absurd hspan (Nat.not_lt.mpr (hmono (Nat.not_lt.mp hle)))
  exact (h.apart (hproper hspan) (hproper hother)).imp hmono hmono

theorem rebuildElements_spec (h : Scattered area.text area.elements) {spans : List Span}
    (hspans : spans.Pairwise Span.Disjoint) (hclear : ∀ span ∈ spans, ∀ e ∈ area.elements,
      (clampSpan area span).start < (clampSpan area span).stop →
        e.range.stop ≤ (clampSpan area span).start ∨ (clampSpan area span).stop ≤ e.range.start) :
    ∃ elements next, area.rebuildElements spans = { area with elements := elements, nextElementId := next } ∧
      Scattered area.text elements := by
  induction spans generalizing area with
  | nil => exact ⟨area.elements, area.nextElementId, rfl, h⟩
  | cons span spans ih =>
      obtain ⟨hfirst, hrest⟩ := List.pairwise_cons.mp hspans
      rw [TextArea.rebuildElements]
      split
      · exact ih h hrest fun other hother => hclear other (List.mem_cons_of_mem _ hother)
      · next hlt =>
          have hproper : (clampSpan area span).start < (clampSpan area span).stop := Nat.not_le.mp hlt
          have happend : Scattered area.text (area.elements ++ [⟨area.nextElementId, clampSpan area span, none⟩]) := by
            refine h.append hproper (area.clampPosToCharBoundary_boundary _) (area.clampPosToCharBoundary_boundary _) ?_
            exact fun e he => hclear span (List.mem_cons_self ..) e he hproper
          refine @ih { area with
            elements := area.elements ++ [⟨area.nextElementId, clampSpan area span, none⟩]
            nextElementId := min (area.nextElementId + 1) (2 ^ 64 - 1) } happend hrest ?_
          intro other hother e he hotherProper
          rcases List.mem_append.mp he with he | he
          · exact hclear other (List.mem_cons_of_mem _ hother) e he hotherProper
          · rw [List.mem_singleton.mp he]
            exact clampSpan_apart (hfirst other hother) hproper hotherProper

theorem setTextInner_sound (area : TextArea) (text : Str) {spans : Option (List Span)}
    (h : ∀ ranges ∈ spans, ranges.Pairwise Span.Disjoint) :
    (area.setTextInner text spans).Sound ∧ (area.setTextInner text spans).CursorOutside ∧
      (area.setTextInner text spans).text = text ∧ (area.setTextInner text spans).killBuffer = area.killBuffer := by
  have hspec (area : TextArea) (h : Laid area.text area.elements) :
      ({ area with
        cursorPos := area.clampPosToNearestBoundary area.cursorPos, wrapCache := none, preferredCol := none } :
        TextArea).Sound ∧ ({ area with
        cursorPos := area.clampPosToNearestBoundary area.cursorPos, wrapCache := none, preferredCol := none } :
        TextArea).CursorOutside := by
    obtain ⟨hboundary, houtside⟩ := TextArea.clampPosToNearestBoundary_spec h area.cursorPos
    exact ⟨⟨hboundary, h, nofun⟩, houtside⟩
  cases spans with
  | none =>
      obtain ⟨hsound, houtside⟩ := hspec
        { area with text, cursorPos := min area.cursorPos (byteLen text), elements := [] } (Laid.nil text)
      exact ⟨hsound, houtside, rfl, rfl⟩
  | some ranges =>
      obtain ⟨elements, next, heq, hscattered⟩ := @rebuildElements_spec
        { area with text, cursorPos := min area.cursorPos (byteLen text), elements := [] } ⟨List.Pairwise.nil, nofun, nofun, nofun⟩
        ranges (h ranges rfl) nofun
      simp only [TextArea.setTextInner, heq]
      obtain ⟨hsound, houtside⟩ := hspec
        { area with
          text, cursorPos := min area.cursorPos (byteLen text), elements := TextArea.sortByStart elements,
          nextElementId := next } hscattered.laid_sortByStart
      exact ⟨hsound, houtside, trivial, trivial⟩

end Codrex.Composer
