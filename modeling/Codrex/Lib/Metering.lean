import Mathlib

/-!
# Charges for the growth of a counter

A counter only grows, and its growth is charged to accounts piece by piece. A weight says what a piece costs.
-/

namespace Metering

variable {α γ : Type} [Preorder α]

/-- The growth of the counter from `since` to `upto`, charged to an account. -/
structure Charge (α γ : Type) where
  account : γ
  since : α
  upto : α
  amount : Int

/-- Any two values that a growing counter has had are comparable. -/
theorem comparable {values : List α} (h : values.Pairwise fun later earlier => earlier ≤ later) {u v : α}
    (hu : u ∈ values) (hv : v ∈ values) : u ≤ v ∨ v ≤ u := by
  have hforth : values.Pairwise fun u v => u ≤ v ∨ v ≤ u := h.imp fun hle => .inr hle
  have hback : values.Pairwise fun v u => u ≤ v ∨ v ≤ u := h.imp fun hle => .inl hle
  exact hforth.forall_of_forall_of_flip (fun u _ => .inl le_rfl) hback hu hv

/-- Nothing behind the value has been charged. -/
def Above (charges : List (Charge α γ)) (value : α) : Prop := ∀ charge ∈ charges, charge.upto ≤ value

theorem Above.trans {charges : List (Charge α γ)} {value other : α} (h : Above charges value) (hle : value ≤ other) :
    Above charges other :=
  fun charge hcharge => (h charge hcharge).trans hle

theorem above_concat {charges : List (Charge α γ)} {charge : Charge α γ} {value : α} :
    Above (charges ++ [charge]) value ↔ Above charges value ∧ charge.upto ≤ value := by
  simp [Above, or_imp, forall_and]

/-- No growth is charged twice, and the charges add up to no more than the growth since the origin. -/
structure Metered (weight : α → Int) (origin : α) (charges : List (Charge α γ)) : Prop where
  apart : charges.Pairwise fun earlier later => earlier.upto ≤ later.since
  total : ∀ value, origin ≤ value → Above charges value →
    (charges.map Charge.amount).sum ≤ weight value - weight origin

variable {weight : α → Int} {origin : α} {charges : List (Charge α γ)}

theorem Metered.nil (hweight : Monotone weight) : Metered weight origin ([] : List (Charge α γ)) where
  apart := List.Pairwise.nil
  total value hle _ := by
    have := hweight hle
    simp only [List.map_nil, List.sum_nil]
    omega

/-- A charge from a value on behind which nothing has been charged. A charge against the order costs nothing. -/
theorem Metered.concat (hweight : Monotone weight) (h : Metered weight origin charges) {charge : Charge α γ}
    (hsince : Above charges charge.since) (horigin : origin ≤ charge.since)
    (hamount : charge.since ≤ charge.upto ∧ charge.amount ≤ weight charge.upto - weight charge.since ∨
      charge.amount ≤ 0) : Metered weight origin (charges ++ [charge]) where
  apart := by
    rw [List.pairwise_append]
    refine ⟨h.apart, List.pairwise_singleton _ _, ?_⟩
    intro earlier hearlier later hlater
    rw [List.mem_singleton.mp hlater]
    exact hsince earlier hearlier
  total value hle habove := by
    obtain ⟨hold, hupto⟩ := above_concat.mp habove
    simp only [List.map_append, List.map_cons, List.map_nil, List.sum_append, List.sum_cons, List.sum_nil, add_zero]
    rcases hamount with ⟨-, hamount⟩ | hamount
    · have hbefore := h.total charge.since horigin hsince
      have hbehind := hweight hupto
      omega
    · have hbefore := h.total value hle hold
      omega

end Metering
