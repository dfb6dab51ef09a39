import Mathlib.Data.List.Pairwise
import Codrex.Composer.Moves

/-!
# Where positions are clamped to

A clamped position is a boundary, outside of every element.
-/

namespace Codrex.Composer

open Text

variable {area : TextArea} {text : Str} {elements : List TextElement} {e : TextElement} {pos : Nat}

/-- Elements as they should lie in a text: one behind the other, none of them empty, all on boundaries. -/
structure Laid (text : Str) (elements : List TextElement) : Prop where
  apart : Span.Apart (elements.map TextElement.range)
  nonempty : ∀ e ∈ elements, e.range.start < e.range.stop
  starts : ∀ e ∈ elements, Boundary text e.range.start
  stops : ∀ e ∈ elements, Boundary text e.range.stop

theorem Laid.nil (text : Str) : Laid text [] := ⟨List.Pairwise.nil, nofun, nofun, nofun⟩

/-- Two elements are one, or one of them lies in front of the other. -/
theorem Laid.eq_or_apart (h : Laid text elements) (he : e ∈ elements) {other : TextElement} (hother : other ∈ elements) :
    e = other ∨ e.range.stop ≤ other.range.start ∨ other.range.stop ≤ e.range.start := by
  have happart := List.pairwise_map.mp h.apart
  by_contra hnot
  simp only [not_or] at hnot
  have hsymm : Std.Symm fun e other : TextElement =>
      e.range.stop ≤ other.range.start ∨ other.range.stop ≤ e.range.start := ⟨fun _ _ h => h.symm⟩
  have hpairwise : elements.Pairwise fun e other =>
      e.range.stop ≤ other.range.start ∨ other.range.stop ≤ e.range.start := happart.imp fun hle => .inl hle
  rcases hpairwise.forall he hother hnot.1 with hle | hle
  · exact hnot.2.1 hle
  · exact hnot.2.2 hle

/-! ## The nearest boundary -/

namespace TextArea

theorem prevCharBoundary_boundary (text : Str) (pos : Nat) : Boundary text (prevCharBoundary text pos) := by
  induction pos with
  | zero => exact boundary_zero text
  | succ prev ih =>
      rw [prevCharBoundary]
      split
      · next h => exact h
      · exact ih

theorem prevCharBoundary_le (text : Str) (pos : Nat) : prevCharBoundary text pos ≤ pos := by
  induction pos with
  | zero => exact Nat.le_refl 0
  | succ prev ih =>
      rw [prevCharBoundary]
      split
      · exact Nat.le_refl _
      · omega

theorem le_prevCharBoundary {other : Nat} (h : Boundary text other) (hle : other ≤ pos) :
    other ≤ prevCharBoundary text pos := by
  induction pos with
  | zero => exact hle
  | succ prev ih =>
      rw [prevCharBoundary]
      split
      · exact hle
      · next hnot =>
          refine ih (Nat.le_of_lt_succ (Nat.lt_of_le_of_ne hle ?_))
          rintro rfl
          exact hnot h

theorem nextCharBoundary_spec {left : Nat} (h : pos + left = byteLen text) :
    Boundary text (nextCharBoundary text left pos) ∧ pos ≤ nextCharBoundary text left pos ∧
      ∀ other, Boundary text other → pos ≤ other → nextCharBoundary text left pos ≤ other := by
  induction left generalizing pos with
  | zero => exact ⟨(show pos = byteLen text from h) ▸ boundary_byteLen text, Nat.le_refl _, fun _ _ hle => hle⟩
  | succ left ih =>
      rw [nextCharBoundary]
      split
      · next hnow => exact ⟨hnow, Nat.le_refl _, fun _ _ hle => hle⟩
      · next hnot =>
          obtain ⟨hboundary, hle, hleast⟩ := @ih (pos + 1) (by omega)
          refine ⟨hboundary, by omega, fun other hother hpos => hleast other hother ?_⟩
          refine Nat.lt_of_le_of_ne hpos ?_
          rintro rfl
          exact hnot hother

theorem clampPosToCharBoundary_of_boundary (h : Boundary area.text pos) : area.clampPosToCharBoundary pos = pos := by
  have hle : min pos area.len = pos := Nat.min_eq_left h.le
  simp only [clampPosToCharBoundary, hle, if_pos h]

/-- The clamped position is the boundary in front of a position or the one behind it. -/
theorem clampPosToCharBoundary_spec (area : TextArea) (pos : Nat) :
    Boundary area.text (area.clampPosToCharBoundary pos) ∧
      (∀ other, Boundary area.text other → other ≤ pos → other ≤ area.clampPosToCharBoundary pos) ∧
      ∀ other, Boundary area.text other → pos ≤ other → area.clampPosToCharBoundary pos ≤ other := by
  have hmin : min pos area.len ≤ byteLen area.text := Nat.min_le_right _ _
  obtain ⟨hnext, hge, hleast⟩ := @nextCharBoundary_spec area.text (min pos area.len) (area.len - min pos area.len)
    (Nat.add_sub_cancel' hmin)
  have hprev := prevCharBoundary_boundary area.text (min pos area.len)
  have hprevLe := prevCharBoundary_le area.text (min pos area.len)
  have hgreatest {other : Nat} (h : Boundary area.text other) (hle : other ≤ pos) :
      other ≤ prevCharBoundary area.text (min pos area.len) := le_prevCharBoundary h (Nat.le_min.mpr ⟨hle, h.le⟩)
  have hsmallest {other : Nat} (h : Boundary area.text other) (hle : pos ≤ other) :
      nextCharBoundary area.text (area.len - min pos area.len) (min pos area.len) ≤ other :=
    hleast other h ((Nat.min_le_left _ _).trans hle)
  simp only [clampPosToCharBoundary]
  split
  · next hnow => exact ⟨hnow, fun other h hle => Nat.le_min.mpr ⟨hle, h.le⟩, fun other _ hle => (Nat.min_le_left _ _).trans hle⟩
  · split
    · refine ⟨hprev, fun other h hle => hgreatest h hle, fun other h hle => ?_⟩
      exact hprevLe.trans ((Nat.min_le_left _ _).trans hle)
    · refine ⟨hnext, fun other h hle => (hgreatest h hle).trans (hprevLe.trans hge), fun other h hle => hsmallest h hle⟩

theorem clampPosToCharBoundary_boundary (area : TextArea) (pos : Nat) :
    Boundary area.text (area.clampPosToCharBoundary pos) := (area.clampPosToCharBoundary_spec pos).1

/-- Positions without a boundary between them see the same boundaries, and the later one is nearer to the next. -/
theorem clampPosToCharBoundary_mono {pos pos' : Nat} (h : pos ≤ pos') :
    area.clampPosToCharBoundary pos ≤ area.clampPosToCharBoundary pos' := by
  by_cases hbetween : ∃ other, Boundary area.text other ∧ pos ≤ other ∧ other ≤ pos'
  · obtain ⟨other, hother, hle, hge⟩ := hbetween
    exact ((area.clampPosToCharBoundary_spec pos).2.2 other hother hle).trans
      ((area.clampPosToCharBoundary_spec pos').2.1 other hother hge)
  · by_cases hlen : area.len < pos
    · have hmin : min pos area.len = min pos' area.len := by omega
      simp only [clampPosToCharBoundary, hmin, Nat.le_refl]
    · have hbound : pos' < area.len := by
        by_contra hnot
        exact hbetween ⟨area.len, boundary_byteLen _, Nat.not_lt.mp hlen, Nat.not_lt.mp hnot⟩
      have hnot {other : Nat} (hother : Boundary area.text other) (hge : pos ≤ other) : pos' < other := by
        by_contra hle
        exact hbetween ⟨other, hother, hge, Nat.not_lt.mp hle⟩
      have hprev : prevCharBoundary area.text pos' = prevCharBoundary area.text pos := by
        have hboundary := prevCharBoundary_boundary area.text pos'
        have hle := prevCharBoundary_le area.text pos'
        have hfront : prevCharBoundary area.text pos' ≤ pos := by
          by_contra hgt
          exact absurd (hnot hboundary (Nat.le_of_lt (Nat.not_le.mp hgt))) (Nat.not_lt.mpr hle)
        exact Nat.le_antisymm (le_prevCharBoundary hboundary hfront)
          (le_prevCharBoundary (prevCharBoundary_boundary _ _) ((prevCharBoundary_le _ _).trans h))
      obtain ⟨hnext, hge, hleast⟩ := @nextCharBoundary_spec area.text pos (area.len - pos) (Nat.add_sub_cancel' (by omega))
      obtain ⟨hnext', hge', hleast'⟩ := @nextCharBoundary_spec area.text pos' (area.len - pos')
        (Nat.add_sub_cancel' (Nat.le_of_lt hbound))
      have hsame := Nat.le_antisymm (hleast _ hnext' (h.trans hge')) (hleast' _ hnext (Nat.le_of_lt (hnot hnext hge)))
      have hgap : ¬ Boundary area.text pos := fun hnow => hbetween ⟨pos, hnow, Nat.le_refl _, h⟩
      have hgap' : ¬ Boundary area.text pos' := fun hnow => hbetween ⟨pos', hnow, h, Nat.le_refl _⟩
      have hprevLe := prevCharBoundary_le area.text pos
      simp only [clampPosToCharBoundary, Nat.min_eq_left (Nat.le_of_lt hbound), Nat.min_eq_left (Nat.not_lt.mp hlen),
        if_neg hgap, if_neg hgap', hprev]
      rw [← hsame] at hge' ⊢
      split <;> split <;> omega

/-! ## Out of the elements -/

theorem findElementContaining_eq_some (h : area.findElementContaining pos = some e) :
    e ∈ area.elements ∧ e.range.Inside pos := by
  rw [findElementContaining] at h
  exact ⟨List.mem_of_find?_eq_some h, by simpa using List.find?_some h⟩

theorem findElementContaining_eq_none (h : area.findElementContaining pos = none) :
    ∀ e ∈ area.elements, ¬ e.range.Inside pos := by
  intro e he
  simpa using List.find?_eq_none.mp h e he

theorem findElementContaining_of_outside (h : ∀ e ∈ area.elements, ¬ e.range.Inside pos) :
    area.findElementContaining pos = none :=
  List.find?_eq_none.mpr fun e he => by simpa using h e he

end TextArea

theorem Laid.outside_start (h : Laid text elements) (he : e ∈ elements) :
    ∀ other ∈ elements, ¬ other.range.Inside e.range.start := by
  intro other hother hinside
  have hne := h.nonempty e he
  rcases h.eq_or_apart he hother with rfl | hle | hle
  · exact Nat.lt_irrefl _ hinside.1
  · exact absurd hinside.1 (by omega)
  · exact absurd hinside.2 (by omega)

theorem Laid.outside_stop (h : Laid text elements) (he : e ∈ elements) :
    ∀ other ∈ elements, ¬ other.range.Inside e.range.stop := by
  intro other hother hinside
  have hne := h.nonempty e he
  rcases h.eq_or_apart he hother with rfl | hle | hle
  · exact Nat.lt_irrefl _ hinside.2
  · exact absurd hinside.1 (by omega)
  · exact absurd hinside.2 (by omega)

namespace TextArea

theorem adjustPosOutOfElements_spec (h : Laid area.text area.elements) (hpos : Boundary area.text pos) (preferStart : Bool) :
    Boundary area.text (area.adjustPosOutOfElements pos preferStart) ∧
      (∀ e ∈ area.elements, ¬ e.range.Inside (area.adjustPosOutOfElements pos preferStart)) ∧
      if preferStart then area.adjustPosOutOfElements pos preferStart ≤ pos
      else pos ≤ area.adjustPosOutOfElements pos preferStart := by
  rw [adjustPosOutOfElements]
  cases hfind : area.findElementContaining pos with
  | none =>
      refine ⟨hpos, findElementContaining_eq_none hfind, ?_⟩
      split <;> exact Nat.le_refl _
  | some e =>
      obtain ⟨he, hinside⟩ := findElementContaining_eq_some hfind
      cases preferStart with
      | true => exact ⟨h.starts e he, h.outside_start he, Nat.le_of_lt hinside.1⟩
      | false => exact ⟨h.stops e he, h.outside_stop he, Nat.le_of_lt hinside.2⟩

theorem clampPosToNearestBoundary_spec (h : Laid area.text area.elements) (pos : Nat) :
    Boundary area.text (area.clampPosToNearestBoundary pos) ∧
      ∀ e ∈ area.elements, ¬ e.range.Inside (area.clampPosToNearestBoundary pos) := by
  simp only [clampPosToNearestBoundary]
  cases hfind : area.findElementContaining (area.clampPosToCharBoundary pos) with
  | none => exact ⟨area.clampPosToCharBoundary_boundary pos, findElementContaining_eq_none hfind⟩
  | some e =>
      obtain ⟨he, -⟩ := findElementContaining_eq_some hfind
      simp only [clampPosToCharBoundary_of_boundary (h.starts e he), clampPosToCharBoundary_of_boundary (h.stops e he)]
      split
      · exact ⟨h.starts e he, h.outside_start he⟩
      · exact ⟨h.stops e he, h.outside_stop he⟩

theorem clampPosToNearestBoundary_of_outside (hpos : Boundary area.text pos)
    (h : ∀ e ∈ area.elements, ¬ e.range.Inside pos) : area.clampPosToNearestBoundary pos = pos := by
  simp only [clampPosToNearestBoundary, clampPosToCharBoundary_of_boundary hpos, findElementContaining_of_outside h]

/-- Insertions go where the cursor would be set. -/
theorem clampPosForInsertion_eq (area : TextArea) (pos : Nat) :
    area.clampPosForInsertion pos = area.clampPosToNearestBoundary pos := rfl

theorem expandRange_spec (h : Laid area.text area.elements) {range : Span} (hstart : Boundary area.text range.start)
    (hstop : Boundary area.text range.stop) :
    range.Within (area.expandRangeToElementBoundaries range) ∧
      Boundary area.text (area.expandRangeToElementBoundaries range).start ∧
      Boundary area.text (area.expandRangeToElementBoundaries range).stop ∧
      ∀ e ∈ area.elements, Span.Whole (area.expandRangeToElementBoundaries range) e.range := by
  have hends : ∀ span ∈ area.elements.map TextElement.range,
      Boundary area.text span.start ∧ Boundary area.text span.stop := by
    intro span hspan
    obtain ⟨e, he, rfl⟩ := List.mem_map.mp hspan
    exact ⟨h.starts e he, h.stops e he⟩
  obtain ⟨hfirst, hlast⟩ := Span.expand_ends hends hstart hstop (area.elements.length + 1)
  refine ⟨Span.within_expand _ _ _, hfirst, hlast, fun e he => ?_⟩
  have hwhole := @Span.whole_expand e.range range _ (List.mem_map_of_mem he)
  rwa [List.length_map] at hwhole

end TextArea

end Codrex.Composer
