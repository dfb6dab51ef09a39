import Mathlib.Data.List.Flatten
import Mathlib.Data.List.Forall2
import Mathlib.Data.List.Nodup

/-!
# Numbers given out to the elements of columns

New elements come to the last column, some of them under the next number. Elements without a number may come to any
column. When the columns are cut, the next number is counted anew from the elements that are left: that no number is
given twice rests on a bound for every prefix of the columns.
-/

namespace Numbering

variable {α β : Type} (label : Nat → β) (labelOf : α → Option β)

def labels (l : List α) : List β := l.filterMap labelOf

/-- The labels of `l` are those of numbers from `1` up to `n`. -/
def Within (n : Nat) (l : List α) : Prop := ∀ b ∈ labels labelOf l, ∃ i, 1 ≤ i ∧ i ≤ n ∧ b = label i

structure Sound (columns : List (List α)) (next : Nat) : Prop where
  distinct : (labels labelOf columns.flatten).Nodup
  /-- What is left after a cut has only numbers up to its size. -/
  covered : ∀ k, Within label labelOf (columns.take k).flatten.length (columns.take k).flatten
  below : Within label labelOf (next - 1) columns.flatten
  positive : 1 ≤ next
  counted : next ≤ columns.flatten.length + 1

/-- A column lost at most labels, and no size. -/
def Kept (old new : List α) : Prop := (labels labelOf new).Sublist (labels labelOf old) ∧ old.length ≤ new.length

variable {label labelOf} {columns columns' : List (List α)} {next : Nat} {l l' : List α}

theorem Within.mono {m n : Nat} (h : Within label labelOf m l) (hle : m ≤ n) : Within label labelOf n l := by
  intro b hb
  obtain ⟨i, hpos, hi, rfl⟩ := h b hb
  exact ⟨i, hpos, Nat.le_trans hi hle, rfl⟩

theorem Within.of_sublist {n : Nat} (h : Within label labelOf n l)
    (hsub : (labels labelOf l').Sublist (labels labelOf l)) : Within label labelOf n l' :=
  fun b hb => h b (hsub.subset hb)

theorem Sound.nil : Sound label labelOf [] 1 where
  distinct := by simp [labels]
  covered := by simp [Within, labels]
  below := by simp [Within, labels]
  positive := Nat.le_refl 1
  counted := by simp

theorem labels_concat_none {x : α} (h : labelOf x = none) (l : List α) :
    labels labelOf (l ++ [x]) = labels labelOf l := by
  simp [labels, h]

/-! ## Columns that keep their numbers -/

theorem Kept.refl (l : List α) : Kept labelOf l l := ⟨List.Sublist.refl _, Nat.le_refl _⟩

theorem Kept.append {m m' : List α} (h : Kept labelOf l l') (h' : Kept labelOf m m') :
    Kept labelOf (l ++ m) (l' ++ m') := by
  refine ⟨?_, by simpa using Nat.add_le_add h.2 h'.2⟩
  simpa [labels] using h.1.append h'.1

theorem Kept.flatten (h : List.Forall₂ (Kept labelOf) columns columns') :
    Kept labelOf columns.flatten columns'.flatten := by
  induction h with
  | nil => exact Kept.refl []
  | cons hcol _ ih => exact hcol.append ih

theorem Sound.kept (h : Sound label labelOf columns next) (hkept : List.Forall₂ (Kept labelOf) columns columns') :
    Sound label labelOf columns' next where
  distinct := h.distinct.sublist (Kept.flatten hkept).1
  covered k := by
    have htake := Kept.flatten (List.forall₂_take k hkept)
    exact ((h.covered k).of_sublist htake.1).mono htake.2
  below := h.below.of_sublist (Kept.flatten hkept).1
  positive := h.positive
  counted := Nat.le_trans h.counted (Nat.add_le_add_right (Kept.flatten hkept).2 1)

theorem forall₂_kept_refl (columns : List (List α)) : List.Forall₂ (Kept labelOf) columns columns := by
  induction columns with
  | nil => exact .nil
  | cons col columns ih => exact .cons (Kept.refl col) ih

theorem Sound.replace {front rest : List (List α)} (h : Sound label labelOf (front ++ l :: rest) next)
    (hkept : Kept labelOf l l') : Sound label labelOf (front ++ l' :: rest) next :=
  h.kept (List.rel_append (forall₂_kept_refl front) (.cons hkept (forall₂_kept_refl rest)))

/-! ## The last column -/

/-- The columns change at the end only; the whole is within a bound. -/
theorem covered_append {front last : List (List α)}
    (hfront : ∀ k, Within label labelOf (front.take k).flatten.length (front.take k).flatten)
    (hall : ∀ k, 1 ≤ k → Within label labelOf (front ++ last.take k).flatten.length (front ++ last.take k).flatten)
    (k : Nat) : Within label labelOf ((front ++ last).take k).flatten.length ((front ++ last).take k).flatten := by
  rw [List.take_append]
  rcases Nat.lt_or_ge front.length k with hk | hk
  · rw [List.take_of_length_le (Nat.le_of_lt hk)]
    exact hall (k - front.length) (by omega)
  · have hzero : k - front.length = 0 := by omega
    simpa [hzero] using hfront k

theorem Sound.open (h : Sound label labelOf columns next) : Sound label labelOf (columns ++ [[]]) next where
  distinct := by simpa using h.distinct
  covered := by
    refine covered_append h.covered fun k hk => ?_
    have hwhole := h.covered columns.length
    rw [List.take_of_length_le (Nat.le_refl _)] at hwhole
    simpa [List.take_of_length_le (show [([] : List α)].length ≤ k from hk)] using hwhole
  below := by simpa using h.below
  positive := h.positive
  counted := by simpa using h.counted

theorem flatten_concat (front : List (List α)) (last : List α) (x : α) :
    (front ++ [last ++ [x]]).flatten = (front ++ [last]).flatten ++ [x] := by
  simp

/-- The label of the next number is not in use. -/
theorem Sound.fresh (h : Sound label labelOf columns next) (hinj : Function.Injective label) :
    label next ∉ labels labelOf columns.flatten := by
  intro hmem
  obtain ⟨i, hpos, hi, heq⟩ := h.below _ hmem
  have hnext : next = i := hinj heq
  omega

theorem Sound.issue (hinj : Function.Injective label) {front : List (List α)} {last : List α} {x : α}
    (h : Sound label labelOf (front ++ [last]) next) (hx : labelOf x = some (label next)) :
    Sound label labelOf (front ++ [last ++ [x]]) (next + 1) := by
  have hpos := h.positive
  have hlabels : labels labelOf (front ++ [last ++ [x]]).flatten =
      labels labelOf (front ++ [last]).flatten ++ [label next] := by
    rw [flatten_concat]
    simp [labels, hx]
  have hbelow : Within label labelOf next (front ++ [last ++ [x]]).flatten := by
    intro b hb
    rw [hlabels, List.mem_append, List.mem_singleton] at hb
    rcases hb with hb | rfl
    · obtain ⟨i, hi, hle, rfl⟩ := h.below b hb
      exact ⟨i, hi, by omega, rfl⟩
    · exact ⟨next, hpos, Nat.le_refl _, rfl⟩
  have hlength : (front ++ [last ++ [x]]).flatten.length = (front ++ [last]).flatten.length + 1 := by
    rw [flatten_concat, List.length_append]
    rfl
  have hcounted := h.counted
  refine ⟨?_, covered_append (fun k => ?_) fun k hk => ?_, hbelow, by omega, by omega⟩
  · rw [hlabels]
    exact (List.nodup_append_comm.2 (List.nodup_cons.2 ⟨h.fresh hinj, h.distinct⟩))
  · have hcov := h.covered (min k front.length)
    rw [List.take_append_of_le_length (Nat.min_le_right _ _), ← List.take_take, List.take_length] at hcov
    exact hcov
  · rw [List.take_of_length_le (show [last ++ [x]].length ≤ k from hk)]
    exact hbelow.mono (by omega)

/-! ## Cuts -/

theorem Sound.cut (h : Sound label labelOf columns next) (k : Nat) :
    Sound label labelOf (columns.take k) ((columns.take k).flatten.length + 1) where
  distinct := by
    refine h.distinct.sublist ?_
    simp only [labels]
    exact (List.take_sublist k columns).flatten.filterMap labelOf
  covered j := by
    rw [List.take_take]
    exact h.covered (min j k)
  below := h.covered k
  positive := Nat.le_add_left 1 _
  counted := Nat.le_refl _

end Numbering
