import Mathlib.Data.List.Count
import Mathlib.Data.List.Sort
import Mathlib.Tactic.Common

/-!
# Ranges that stay whole

A range grows until every span that it meets lies within it. An edit of such a range takes out the spans within it, and
moves those behind it.
-/

structure Span where
  start : Nat
  stop : Nat
  deriving DecidableEq

namespace Span

variable {span other range grown : Span} {spans : List Span} {p : Nat}

/-- Strictly inside. -/
def Inside (span : Span) (p : Nat) : Prop := span.start < p ∧ p < span.stop

def Meets (span range : Span) : Prop := span.start < range.stop ∧ range.start < span.stop

def Within (span range : Span) : Prop := range.start ≤ span.start ∧ span.stop ≤ range.stop

/-- In front of the range, behind it or within it. -/
def Whole (range span : Span) : Prop := span.stop ≤ range.start ∨ range.stop ≤ span.start ∨ span.Within range

def Apart (spans : List Span) : Prop := spans.Pairwise fun span other => span.stop ≤ other.start

/-- No position lies in both. -/
def Disjoint (span other : Span) : Prop :=
  ∀ p, ¬ ((span.start ≤ p ∧ p < span.stop) ∧ other.start ≤ p ∧ p < other.stop)

instance (span : Span) (p : Nat) : Decidable (span.Inside p) := inferInstanceAs (Decidable (_ ∧ _))

instance (span range : Span) : Decidable (span.Meets range) := inferInstanceAs (Decidable (_ ∧ _))

instance (span range : Span) : Decidable (span.Within range) := inferInstanceAs (Decidable (_ ∧ _))

theorem Within.refl (span : Span) : span.Within span := ⟨Nat.le_refl _, Nat.le_refl _⟩

theorem Within.trans (h : span.Within range) (h' : range.Within grown) : span.Within grown :=
  ⟨Nat.le_trans h'.1 h.1, Nat.le_trans h.2 h'.2⟩

theorem Within.antisymm (h : span.Within other) (h' : other.Within span) : span = other := by
  obtain ⟨start, stop⟩ := span
  obtain ⟨start', stop'⟩ := other
  obtain ⟨hstart, hstop⟩ := h
  obtain ⟨hstart', hstop'⟩ := h'
  simp only at hstart hstop hstart' hstop'
  rw [Nat.le_antisymm hstart' hstart, Nat.le_antisymm hstop hstop']

theorem Disjoint.apart (h : span.Disjoint other) (hspan : span.start < span.stop) (hother : other.start < other.stop) :
    span.stop ≤ other.start ∨ other.stop ≤ span.start := by
  by_contra hnot
  exact h (max span.start other.start) (by omega)

/-- What lies apart and has a length is put one behind the other by its starts. -/
theorem apart_insertionSort {α : Type} (range : α → Span) {items : List α}
    (hapart : items.Pairwise fun a b => (range a).stop ≤ (range b).start ∨ (range b).stop ≤ (range a).start)
    (hne : ∀ a ∈ items, (range a).start < (range a).stop) :
    Apart ((items.insertionSort fun a b => (range a).start ≤ (range b).start).map range) := by
  have hperm := List.perm_insertionSort (fun a b => (range a).start ≤ (range b).start) items
  have htotal : Std.Total fun a b => (range a).start ≤ (range b).start := ⟨fun _ _ => Nat.le_total _ _⟩
  have htrans : IsTrans α fun a b => (range a).start ≤ (range b).start := ⟨fun _ _ _ => Nat.le_trans⟩
  have hsorted := List.pairwise_insertionSort (fun a b => (range a).start ≤ (range b).start) items
  have hapart := (hperm.pairwise_iff fun h => Or.symm h).mpr hapart
  refine List.pairwise_map.mpr ((hsorted.and hapart).imp_of_mem ?_)
  rintro a b ha hb ⟨hle, hfront | hbehind⟩
  · exact hfront
  · -- the other one ends in front of the start that is not behind its own
    have hlt := hne b (hperm.mem_iff.mp hb)
    omega

/-! ## Growing -/

def cover (range span : Span) : Span :=
  if span.Meets range then ⟨min range.start span.start, max range.stop span.stop⟩ else range

def coverAll (spans : List Span) (range : Span) : Span := spans.foldl cover range

/-- Covers the spans that are met, until none of them makes the range grow. -/
def expand (spans : List Span) : (rounds : Nat) → Span → Span
  | 0, range => range
  | rounds + 1, range =>
      if coverAll spans range = range then range else expand spans rounds (coverAll spans range)

theorem within_cover (range span : Span) : range.Within (cover range span) := by
  rw [cover]
  split
  · exact ⟨Nat.min_le_left _ _, Nat.le_max_left _ _⟩
  · exact Within.refl range

theorem cover_of_meets (h : span.Meets range) : span.Within (cover range span) := by
  rw [cover, if_pos h]
  exact ⟨Nat.min_le_right _ _, Nat.le_max_right _ _⟩

theorem within_coverAll (spans : List Span) (range : Span) : range.Within (coverAll spans range) := by
  induction spans generalizing range with
  | nil => exact Within.refl range
  | cons span spans ih => exact (within_cover range span).trans (ih (cover range span))

theorem within_expand (spans : List Span) (rounds : Nat) (range : Span) : range.Within (expand spans rounds range) := by
  induction rounds generalizing range with
  | zero => exact Within.refl range
  | succ rounds ih =>
      rw [expand]
      split
      · exact Within.refl range
      · exact (within_coverAll spans range).trans (ih _)

/-- A round that makes the range grow takes in a span that was not within it. -/
theorem exists_taken (h : coverAll spans range ≠ range) :
    ∃ span ∈ spans, ¬ span.Within range ∧ span.Within (coverAll spans range) := by
  induction spans generalizing range with
  | nil => exact absurd rfl h
  | cons span spans ih =>
      have hstep : coverAll (span :: spans) range = coverAll spans (cover range span) := rfl
      by_cases hsame : cover range span = range
      · rw [hstep, hsame] at h ⊢
        obtain ⟨taken, hmem, hnot, hwithin⟩ := ih h
        exact ⟨taken, List.mem_cons_of_mem _ hmem, hnot, hwithin⟩
      · have hmeets : span.Meets range := by
          by_contra hnot
          exact hsame (if_neg hnot)
        refine ⟨span, List.mem_cons_self .., fun hwithin => hsame ?_, ?_⟩
        · refine Within.antisymm ⟨?_, ?_⟩ (within_cover range span)
          · rw [cover, if_pos hmeets]
            exact Nat.le_min.mpr ⟨Nat.le_refl _, hwithin.1⟩
          · rw [cover, if_pos hmeets]
            exact Nat.max_le.mpr ⟨Nat.le_refl _, hwithin.2⟩
        · rw [hstep]
          exact (cover_of_meets hmeets).trans (within_coverAll spans _)

theorem countP_outside_lt (h : coverAll spans range ≠ range) :
    spans.countP (fun span => ¬ span.Within (coverAll spans range)) < spans.countP fun span => ¬ span.Within range := by
  obtain ⟨taken, hmem, hnot, hwithin⟩ := exists_taken h
  obtain ⟨front, back, hspans⟩ := List.append_of_mem hmem
  have hgrows : range.Within (coverAll spans range) := within_coverAll spans range
  generalize coverAll spans range = grown at hgrows hwithin ⊢
  rw [hspans, List.countP_append, List.countP_append, List.countP_cons_of_neg (by simpa using hwithin),
    List.countP_cons_of_pos (by simpa using hnot)]
  have hmono (l : List Span) : l.countP (fun span => ¬ span.Within grown) ≤ l.countP fun span => ¬ span.Within range :=
    List.countP_mono_left fun span _ hout => by
      simp only [decide_eq_true_eq] at hout ⊢
      exact fun hin => hout (hin.trans hgrows)
  have hfront := hmono front
  have hback := hmono back
  omega

/-- Every round takes in a span, so there are enough rounds. -/
theorem expand_fixed {rounds : Nat} (h : spans.countP (fun span => ¬ span.Within range) < rounds) :
    coverAll spans (expand spans rounds range) = expand spans rounds range := by
  induction rounds generalizing range with
  | zero => omega
  | succ rounds ih =>
      rw [expand]
      split
      · next hsame => exact hsame
      · next hgrew =>
          have hfewer := countP_outside_lt hgrew
          exact ih (by omega)

theorem coverAll_expand (spans : List Span) (range : Span) :
    coverAll spans (expand spans (spans.length + 1) range) = expand spans (spans.length + 1) range :=
  expand_fixed (Nat.lt_succ_of_le List.countP_le_length)

theorem whole_of_fixed (h : coverAll spans range = range) (hmem : span ∈ spans) : Whole range span := by
  induction spans generalizing range with
  | nil => cases hmem
  | cons first spans ih =>
      have hstep : coverAll (first :: spans) range = coverAll spans (cover range first) := rfl
      have hsame : cover range first = range := by
        refine Within.antisymm ?_ (within_cover range first)
        have hgrows := within_coverAll spans (cover range first)
        rwa [← hstep, h] at hgrows
      rcases List.mem_cons.mp hmem with rfl | hmem
      · by_cases hmeets : span.Meets range
        · have hcovered := cover_of_meets hmeets
          rw [hsame] at hcovered
          exact .inr (.inr hcovered)
        · simp only [Meets, not_and_or, Nat.not_lt] at hmeets
          rcases hmeets with hbehind | hfront
          · exact .inr (.inl hbehind)
          · exact .inl hfront
      · rw [hstep, hsame] at h
        exact ih h hmem

theorem whole_expand (hmem : span ∈ spans) : Whole (expand spans (spans.length + 1) range) span :=
  whole_of_fixed (coverAll_expand spans range) hmem

/-- A range that cuts no span does not grow. -/
theorem expand_of_whole (rounds : Nat) (h : ∀ span ∈ spans, Whole range span) : expand spans rounds range = range := by
  have hcover : ∀ span ∈ spans, cover range span = range := by
    intro span hspan
    rw [cover]
    split
    · next hmeets =>
        obtain ⟨hstart, hstop⟩ := hmeets
        rcases h span hspan with hfront | hbehind | ⟨hle, hge⟩
        · omega
        · omega
        · rw [Nat.min_eq_left hle, Nat.max_eq_left hge]
    · rfl
  have hall : coverAll spans range = range := by
    clear h
    induction spans with
    | nil => rfl
    | cons span spans ih =>
        have hstep : coverAll (span :: spans) range = coverAll spans (cover range span) := rfl
        rw [hstep, hcover span (List.mem_cons_self ..)]
        exact ih fun other hother => hcover other (List.mem_cons_of_mem _ hother)
  cases rounds with
  | zero => rfl
  | succ rounds => rw [expand, if_pos hall]

/-- What holds of all ends holds of the ends of the grown range. -/
theorem expand_ends {P : Nat → Prop} (hspans : ∀ span ∈ spans, P span.start ∧ P span.stop) (hstart : P range.start)
    (hstop : P range.stop) (rounds : Nat) : P (expand spans rounds range).start ∧ P (expand spans rounds range).stop := by
  have hcover (range span : Span) (hspan : P span.start ∧ P span.stop) (h : P range.start ∧ P range.stop) :
      P (cover range span).start ∧ P (cover range span).stop := by
    rw [cover]
    split
    · constructor
      · show P (min range.start span.start)
        rw [Nat.min_def]
        split
        · exact h.1
        · exact hspan.1
      · show P (max range.stop span.stop)
        rw [Nat.max_def]
        split
        · exact hspan.2
        · exact h.2
    · exact h
  have hall : ∀ range : Span, P range.start ∧ P range.stop →
      P (coverAll spans range).start ∧ P (coverAll spans range).stop := by
    induction spans with
    | nil => exact fun _ h => h
    | cons span spans ih =>
        intro range h
        exact ih (fun other hmem => hspans other (List.mem_cons_of_mem _ hmem)) (cover range span)
          (hcover range span (hspans span (List.mem_cons_self ..)) h)
  induction rounds generalizing range with
  | zero => exact ⟨hstart, hstop⟩
  | succ rounds ih =>
      rw [expand]
      split
      · exact ⟨hstart, hstop⟩
      · have hgrown := hall range ⟨hstart, hstop⟩
        exact ih hgrown.1 hgrown.2

/-! ## Moving -/

/-- Where a span stands once the range has become `inserted` long. -/
def moved (range : Span) (inserted : Nat) (span : Span) : Span :=
  if span.stop ≤ range.start then span
  else ⟨span.start - (range.stop - range.start) + inserted, span.stop - (range.stop - range.start) + inserted⟩

theorem moved_start (range : Span) (inserted : Nat) (span : Span) : (moved range inserted span).start =
    if span.stop ≤ range.start then span.start else span.start - (range.stop - range.start) + inserted := by
  rw [moved]
  split <;> rfl

theorem moved_stop (range : Span) (inserted : Nat) (span : Span) : (moved range inserted span).stop =
    if span.stop ≤ range.start then span.stop else span.stop - (range.stop - range.start) + inserted := by
  rw [moved]
  split <;> rfl

theorem moved_apart {inserted : Nat} (hle : range.start ≤ range.stop) (hother : other.start < other.stop)
    (hout' : other.stop ≤ range.start ∨ range.stop ≤ other.start) (h : span.stop ≤ other.start) :
    (moved range inserted span).stop ≤ (moved range inserted other).start := by
  rw [moved_stop, moved_start]
  split <;> split <;> omega

theorem moved_nonempty {inserted : Nat} (hle : range.start ≤ range.stop) (hspan : span.start < span.stop)
    (hout : span.stop ≤ range.start ∨ range.stop ≤ span.start) :
    (moved range inserted span).start < (moved range inserted span).stop := by
  rw [moved_stop, moved_start]
  split <;> omega

/-- A position outside of a span stays outside of it when text is inserted. -/
theorem moved_inside {at_ inserted : Nat} (h : ¬ span.Inside p) :
    ¬ (moved ⟨at_, at_⟩ inserted span).Inside (if at_ ≤ p then p + inserted else p) := by
  rw [Inside, moved_stop, moved_start]
  simp only [Inside] at h ⊢
  split <;> split <;> omega

end Span
