import Codrex.Composer.Lemmas.Positions

/-!
# What an edit leaves of the text area

An edit whose range no element crosses takes out the elements within the range and keeps the texts of the others.
-/

namespace Codrex.Composer

open Text

variable {area area' : TextArea} {elements : List TextElement} {e : TextElement} {range : Span}
  {text before cut after new : Str} {pos : Nat}

/-- What should hold of a text area in every state, wherever the cursor stands to the elements. -/
structure TextArea.Sound (area : TextArea) : Prop where
  cursor : Boundary area.text area.cursorPos
  laid : Laid area.text area.elements
  lines : ∀ cache ∈ area.wrapCache, ∀ line ∈ cache.lines,
    line.start < line.stop ∧ Boundary area.text line.start ∧ Boundary area.text (line.stop - 1)

def TextArea.CursorOutside (area : TextArea) : Prop := ∀ e ∈ area.elements, ¬ e.range.Inside area.cursorPos

/-- An element with its text, apart from where it stands. -/
def elementPayload (text : Str) (e : TextElement) : Nat × Option Str × Option Str :=
  (e.id, e.name, TextArea.payload text e)

def payloads (area : TextArea) : List (Nat × Option Str × Option Str) := area.elements.map (elementPayload area.text)

/-- The area has become another one by putting `new` in the place of the range. -/
structure Edited (area : TextArea) (range : Span) (new : Str) (area' : TextArea) : Prop where
  sound : area'.Sound
  outside : area.CursorOutside ∨ range.start < range.stop → area'.CursorOutside
  parts : ∃ before cut after, area.text = before ++ cut ++ after ∧ byteLen before = range.start ∧
    byteLen (before ++ cut) = range.stop ∧ area'.text = before ++ new ++ after
  payloads : payloads area' =
    (area.elements.filter fun e => ¬ e.range.Within range).map (elementPayload area.text)
  clear : ∀ e ∈ area'.elements, e.range.stop ≤ range.start ∨ range.start + byteLen new ≤ e.range.start
  killBuffer : area'.killBuffer = area.killBuffer
  cursor : range.start ≤ area.cursorPos → area.cursorPos ≤ range.stop → area'.cursorPos = range.start + byteLen new

/-! ## Elements under an edit -/

theorem shiftElement_eq {start removed inserted : Nat} (hne : e.range.start < e.range.stop)
    (h : Span.Whole ⟨start, start + removed⟩ e.range) (hnot : ¬ e.range.Within ⟨start, start + removed⟩) :
    TextArea.shiftElement start removed inserted e =
      { e with range := Span.moved ⟨start, start + removed⟩ inserted e.range } := by
  rw [TextArea.shiftElement, Span.moved]
  simp only [Span.Whole, or_iff_left hnot] at h
  by_cases hfront : e.range.stop ≤ start
  · rw [if_pos hfront, if_pos hfront]
  · have hbehind : start + removed ≤ e.range.start := h.resolve_left hfront
    have hshift {pos : Nat} (hpos : start + removed ≤ pos) :
        TextArea.shiftPos pos ((inserted : Int) - removed) = pos - (start + removed - start) + inserted := by
      rw [TextArea.shiftPos]
      omega
    rw [if_neg hfront, if_pos hbehind, if_neg hfront, hshift hbehind, hshift (hbehind.trans (Nat.le_of_lt hne))]

/-- The place of an edit, as a range. -/
def cutSpan (before cut : Str) : Span := ⟨byteLen before, byteLen before + byteLen cut⟩

theorem shiftElements_eq (h : Laid (before ++ cut ++ after) elements)
    (hwhole : ∀ e ∈ elements, Span.Whole (cutSpan before cut) e.range) (new : Str) :
    TextArea.shiftElements elements (byteLen before) (byteLen cut) (byteLen new) =
      (elements.filter fun e => ¬ e.range.Within (cutSpan before cut)).map fun e =>
        { e with range := Span.moved (cutSpan before cut) (byteLen new) e.range } := by
  rw [TextArea.shiftElements]
  refine List.map_congr_left fun e he => ?_
  obtain ⟨hmem, hnot⟩ := List.mem_filter.mp he
  exact shiftElement_eq (h.nonempty e hmem) (hwhole e hmem) (of_decide_eq_true hnot)

/-- Where a position outside of the edit has gone. -/
theorem moved_ends (h : Laid (before ++ cut ++ after) elements) (he : e ∈ elements)
    (hout : e.range.stop ≤ byteLen before ∨ byteLen before + byteLen cut ≤ e.range.start) (new : Str) :
    (e.range.stop ≤ byteLen before ∧ Span.moved (cutSpan before cut) (byteLen new) e.range = e.range) ∨
      ∃ i j, e.range = ⟨byteLen (before ++ cut) + i, byteLen (before ++ cut) + j⟩ ∧
        Span.moved (cutSpan before cut) (byteLen new) e.range =
          ⟨byteLen (before ++ new) + i, byteLen (before ++ new) + j⟩ := by
  have hne := h.nonempty e he
  rcases hout with hfront | hbehind
  · exact .inl ⟨hfront, if_pos hfront⟩
  · refine .inr ⟨e.range.start - (byteLen before + byteLen cut), e.range.stop - (byteLen before + byteLen cut), ?_, ?_⟩
    · rw [byteLen_append, Nat.add_sub_cancel' hbehind, Nat.add_sub_cancel' (by omega)]
    · rw [Span.moved, cutSpan, if_neg (by simp only; omega), byteLen_append]
      simp only [Span.mk.injEq]
      omega

theorem out_of_whole (hwhole : Span.Whole (cutSpan before cut) e.range) (hnot : ¬ e.range.Within (cutSpan before cut)) :
    e.range.stop ≤ byteLen before ∨ byteLen before + byteLen cut ≤ e.range.start := by
  rcases hwhole with hfront | hbehind | hwithin
  · exact .inl hfront
  · exact .inr hbehind
  · exact absurd hwithin hnot

theorem Laid.edit (h : Laid (before ++ cut ++ after) elements)
    (hwhole : ∀ e ∈ elements, Span.Whole (cutSpan before cut) e.range) (new : Str) :
    Laid (before ++ new ++ after)
      (TextArea.shiftElements elements (byteLen before) (byteLen cut) (byteLen new)) := by
  rw [shiftElements_eq h hwhole]
  have hout {e : TextElement} (he : e ∈ elements.filter fun e => ¬ e.range.Within (cutSpan before cut)) :
      e ∈ elements ∧ (e.range.stop ≤ byteLen before ∨ byteLen before + byteLen cut ≤ e.range.start) := by
    obtain ⟨hmem, hnot⟩ := List.mem_filter.mp he
    exact ⟨hmem, out_of_whole (hwhole e hmem) (of_decide_eq_true hnot)⟩
  have hends {e : TextElement} (he : e ∈ elements.filter fun e => ¬ e.range.Within (cutSpan before cut)) :
      Boundary (before ++ new ++ after) (Span.moved (cutSpan before cut) (byteLen new) e.range).start ∧
        Boundary (before ++ new ++ after) (Span.moved (cutSpan before cut) (byteLen new) e.range).stop := by
    obtain ⟨hmem, hout⟩ := hout he
    have hne := h.nonempty e hmem
    have hstart := h.starts e hmem
    have hstop := h.stops e hmem
    rcases moved_ends h hmem hout new with ⟨hfront, heq⟩ | ⟨i, j, hrange, heq⟩
    · rw [heq]
      exact ⟨(boundary_edit_left new (by omega)).mpr hstart, (boundary_edit_left new hfront).mpr hstop⟩
    · rw [heq]
      rw [hrange] at hstart hstop
      exact ⟨(boundary_edit_right new).mpr hstart, (boundary_edit_right new).mpr hstop⟩
  have hle : (cutSpan before cut).start ≤ (cutSpan before cut).stop := Nat.le_add_right _ _
  constructor
  · rw [List.map_map]
    refine List.pairwise_map.mpr (((List.pairwise_map.mp h.apart).filter _).imp_of_mem ?_)
    intro e other he hother hapart
    obtain ⟨hmem, hoff⟩ := hout hother
    exact Span.moved_apart hle (h.nonempty other hmem) hoff hapart
  · intro moved hmoved
    obtain ⟨e, he, rfl⟩ := List.mem_map.mp hmoved
    obtain ⟨hmem, hoff⟩ := hout he
    exact Span.moved_nonempty hle (h.nonempty e hmem) hoff
  · intro moved hmoved
    obtain ⟨e, he, rfl⟩ := List.mem_map.mp hmoved
    exact (hends he).1
  · intro moved hmoved
    obtain ⟨e, he, rfl⟩ := List.mem_map.mp hmoved
    exact (hends he).2

theorem payloads_edit (h : Laid (before ++ cut ++ after) elements)
    (hwhole : ∀ e ∈ elements, Span.Whole (cutSpan before cut) e.range) (new : Str) :
    (TextArea.shiftElements elements (byteLen before) (byteLen cut) (byteLen new)).map
        (elementPayload (before ++ new ++ after)) =
      (elements.filter fun e => ¬ e.range.Within (cutSpan before cut)).map (elementPayload (before ++ cut ++ after)) := by
  rw [shiftElements_eq h hwhole, List.map_map]
  refine List.map_congr_left fun e he => ?_
  obtain ⟨hmem, hnot⟩ := List.mem_filter.mp he
  have hout := out_of_whole (hwhole e hmem) (of_decide_eq_true hnot)
  simp only [Function.comp_apply, elementPayload, TextArea.payload, Prod.mk.injEq, true_and]
  rcases moved_ends h hmem hout new with ⟨hfront, heq⟩ | ⟨i, j, hrange, heq⟩
  · rw [heq, slice_edit_left new hfront]
  · rw [heq, hrange, slice_edit_right new]

/-- No element meets what was put in. -/
theorem clear_edit (h : Laid (before ++ cut ++ after) elements)
    (hwhole : ∀ e ∈ elements, Span.Whole (cutSpan before cut) e.range) (new : Str) :
    ∀ e ∈ TextArea.shiftElements elements (byteLen before) (byteLen cut) (byteLen new),
      e.range.stop ≤ byteLen before ∨ byteLen before + byteLen new ≤ e.range.start := by
  rw [shiftElements_eq h hwhole]
  intro moved hmoved
  obtain ⟨e, he, rfl⟩ := List.mem_map.mp hmoved
  obtain ⟨hmem, hnot⟩ := List.mem_filter.mp he
  rcases moved_ends h hmem (out_of_whole (hwhole e hmem) (of_decide_eq_true hnot)) new with ⟨hle, heq⟩ | ⟨i, j, -, heq⟩
  · refine .inl ?_
    simp only [heq]
    exact hle
  · refine .inr ?_
    simp only [heq, byteLen_append]
    omega

/-- The end of what was put in lies in no element. -/
theorem outside_edit_end (h : Laid (before ++ cut ++ after) elements)
    (hwhole : ∀ e ∈ elements, Span.Whole (cutSpan before cut) e.range) (new : Str) :
    ∀ e ∈ TextArea.shiftElements elements (byteLen before) (byteLen cut) (byteLen new),
      ¬ e.range.Inside (byteLen before + byteLen new) := by
  rintro e he ⟨hfront, hbehind⟩
  rcases clear_edit h hwhole new e he with hle | hle <;> omega

/-- No element lies within an empty range. -/
theorem Laid.not_within_empty (h : Laid text elements) (he : e ∈ elements) (pos : Nat) : ¬ e.range.Within ⟨pos, pos⟩ := by
  rintro ⟨hstart, hstop⟩
  exact Nat.lt_irrefl _ ((Nat.lt_of_le_of_lt hstart (h.nonempty e he)).trans_le hstop)

theorem Laid.filter_empty (h : Laid text elements) (pos : Nat) :
    (elements.filter fun e => ¬ e.range.Within ⟨pos, pos⟩) = elements :=
  List.filter_eq_self.mpr fun _ he => decide_eq_true (h.not_within_empty he pos)

/-! ## The two ways to edit -/

theorem insertStrAt_edited (h : area.Sound) (pos : Nat) (new : Str) :
    ∃ area', area.insertStrAt pos new = some area' ∧
      Edited area ⟨area.clampPosForInsertion pos, area.clampPosForInsertion pos⟩ new area' := by
  obtain ⟨hboundary, houtside⟩ := TextArea.clampPosToNearestBoundary_spec h.laid pos
  rw [← TextArea.clampPosForInsertion_eq] at hboundary houtside
  simp only [TextArea.insertStrAt]
  generalize area.clampPosForInsertion pos = place at hboundary houtside ⊢
  obtain ⟨text, cursorPos, cache, col, elements, next, kill⟩ := area
  obtain ⟨before, after, rfl, rfl⟩ := hboundary
  obtain ⟨hcursor, hlaid, -⟩ := h
  simp only at hcursor hlaid houtside ⊢
  have hreplace : replaceBytes (before ++ after) (byteLen before) (byteLen before) new = some (before ++ new ++ after) := by
    have happend := replaceBytes_append before [] after new
    rwa [List.append_nil] at happend
  rw [← List.append_nil before] at hlaid
  have hwhole : ∀ e ∈ elements, Span.Whole (cutSpan before []) e.range := by
    intro e he
    have hnot := houtside e he
    simp only [Span.Inside, not_and_or, Nat.not_lt] at hnot
    exact hnot.elim (fun hle => .inr (.inl hle)) .inl
  refine ⟨_, by rw [hreplace]; rfl, ?_⟩
  constructor
  · refine ⟨?_, hlaid.edit hwhole new, (by rintro _ ⟨⟩)⟩
    show Boundary (before ++ new ++ after) _
    split
    · next hle =>
        obtain ⟨n, rfl⟩ := Nat.exists_eq_add_of_le hle
        rw [Nat.add_right_comm, ← byteLen_append]
        exact boundary_append_right.mpr (boundary_append_right.mp hcursor)
    · next hlt =>
        have hfront : cursorPos ≤ byteLen before := Nat.le_of_lt (Nat.not_le.mp hlt)
        rw [List.append_assoc]
        exact (boundary_append_left hfront).mpr ((boundary_append_left hfront).mp hcursor)
  · intro hout moved hmoved
    have hout := hout.resolve_right (Nat.lt_irrefl _)
    simp only at hmoved
    rw [show (0 : Nat) = byteLen ([] : Str) from rfl, shiftElements_eq hlaid hwhole] at hmoved
    obtain ⟨e, he, rfl⟩ := List.mem_map.mp hmoved
    exact Span.moved_inside (hout e (List.mem_of_mem_filter he))
  · exact ⟨before, [], after, by simp, rfl, by simp, rfl⟩
  · have hpayloads := payloads_edit hlaid hwhole new
    rw [List.append_nil] at hpayloads
    exact hpayloads
  · exact clear_edit hlaid hwhole new
  · rfl
  · intro hle hge
    exact (if_pos hle).trans (by simp only at hle hge ⊢; omega)

theorem replaceRangeRaw_edited (h : area.Sound) (hle : range.start ≤ range.stop)
    (hstart : Boundary area.text range.start) (hstop : Boundary area.text range.stop)
    (hwhole : ∀ e ∈ area.elements, Span.Whole range e.range) (new : Str) :
    ∃ area', area.replaceRangeRaw range new = some area' ∧ Edited area range new area' := by
  obtain ⟨before, cut, after, htext, hbefore, hcut⟩ := exists_cut hstart hstop hle
  have hminStart : min range.start area.len = range.start := Nat.min_eq_left hstart.le
  have hminStop : min range.stop area.len = range.stop := Nat.min_eq_left hstop.le
  obtain ⟨start, stop⟩ := range
  simp only at hbefore hcut hle hminStart hminStop
  subst hbefore hcut
  have hlen : byteLen (before ++ cut) - byteLen before = byteLen cut := by
    rw [byteLen_append, Nat.add_sub_cancel_left]
  simp only [TextArea.replaceRangeRaw, if_neg (Nat.not_lt.mpr hle), hminStart, hminStop, hlen]
  have hspan : (⟨byteLen before, byteLen (before ++ cut)⟩ : Span) = cutSpan before cut := by
    rw [cutSpan, byteLen_append]
  rw [hspan] at hwhole ⊢
  split
  · next hnothing =>
      obtain ⟨rfl, rfl⟩ : cut = [] ∧ new = [] := ⟨byteLen_eq_zero.mp hnothing.1, byteLen_eq_zero.mp hnothing.2⟩
      refine ⟨area, rfl, h, fun hout => hout.resolve_right ?_,
        ⟨before, [], after, htext, rfl, by simp [cutSpan, byteLen], htext⟩, ?_, fun e he => ?_, rfl, ?_⟩
      · exact Nat.lt_irrefl _
      · exact congrArg _ (h.laid.filter_empty (byteLen before)).symm
      · exact out_of_whole (hwhole e he) (h.laid.not_within_empty he (byteLen before))
      · intro hfirst hlast
        exact Nat.le_antisymm hlast hfirst
  · obtain ⟨text, cursorPos, cache, col, elements, next, kill⟩ := area
    simp only at htext hwhole hstart hstop ⊢
    subst htext
    have hlaid := h.laid.edit hwhole new
    have hspec (cursorPos pos : Nat) := @TextArea.clampPosToNearestBoundary_spec ⟨before ++ new ++ after, cursorPos, none,
      none, TextArea.shiftElements elements (byteLen before) (byteLen cut) (byteLen new), next, kill⟩ hlaid pos
    rw [replaceBytes_append, Option.map_some]
    refine ⟨_, rfl, ⟨(hspec _ _).1, hlaid, (by rintro _ ⟨⟩)⟩, fun _ => (hspec _ _).2,
      ⟨before, cut, after, rfl, rfl, by rw [cutSpan, byteLen_append], rfl⟩, payloads_edit h.laid hwhole new,
      clear_edit h.laid hwhole new, rfl, ?_⟩
    intro hfirst hlast
    have hnotFront : ¬ cursorPos < byteLen before := Nat.not_lt.mpr hfirst
    have hlast : cursorPos ≤ byteLen (before ++ cut) := by rwa [cutSpan, ← byteLen_append] at hlast
    have hend : byteLen before + byteLen new ≤ byteLen (before ++ new ++ after) := by
      rw [byteLen_append, byteLen_append]
      omega
    simp only [if_neg hnotFront, if_pos hlast, Nat.min_eq_left hend]
    refine TextArea.clampPosToNearestBoundary_of_outside ?_ (outside_edit_end h.laid hwhole new)
    rw [← byteLen_append]
    exact boundary_append _ _

theorem replaceRange_edited (h : area.Sound) (hle : range.start ≤ range.stop)
    (hstart : Boundary area.text range.start) (hstop : Boundary area.text range.stop) (new : Str) :
    ∃ area', area.replaceRange range new = some area' ∧
      Edited area (area.expandRangeToElementBoundaries range) new area' := by
  obtain ⟨hwithin, hfirst, hlast, hwhole⟩ := TextArea.expandRange_spec h.laid hstart hstop
  exact replaceRangeRaw_edited h (hwithin.1.trans (hle.trans hwithin.2)) hfirst hlast hwhole new

end Codrex.Composer
