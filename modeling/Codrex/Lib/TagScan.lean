import Codrex.Lib.Text

/-!
# Scanning for alternating tags

A string is cut at the leftmost tag, then at the leftmost tag of the other kind, and so on. A scanner that sees the
string in chunks has to hold back what may still become a tag.
-/

namespace TagScan

open Text

/-! ## Holding back -/

/-- A partial tag: what may still become the tag with more text. -/
def IsPartial (tag p : Str) : Prop := p <+: tag ∧ p.length < tag.length

/-- From the index on, the string is held back: this is its longest end that is a partial tag. -/
structure HoldsBack (tag s : Str) (index : Nat) : Prop where
  le_length : index ≤ s.length
  isPartial : IsPartial tag (s.drop index)
  least : ∀ j, j ≤ s.length → IsPartial tag (s.drop j) → index ≤ j

variable {tag s : Str} {index : Nat}

theorem HoldsBack.split (h : HoldsBack tag s index) (t : Str) :
    s ++ t = s.take index ++ (s.drop index ++ t) ∧ (s.take index).length = index := by
  constructor
  · rw [← List.append_assoc, List.take_append_drop]
  · rw [List.length_take, Nat.min_eq_left h.le_length]

/-- No tag starts in the text in front of what is held back. -/
theorem HoldsBack.find_append (h : HoldsBack tag s index) (hnone : find tag s = none) (t : Str) :
    find tag (s ++ t) = (find tag (s.drop index ++ t)).map (· + index) := by
  obtain ⟨hsplit, hlen⟩ := h.split t
  have hno : ∀ j < (s.take index).length, ¬ tag <+: (s.take index).drop j ++ (s.drop index ++ t) := by
    intro j hj hp
    rw [hlen] at hj
    have hle := h.le_length
    rw [← List.append_assoc, ← List.drop_append_of_le_length (by omega), List.take_append_drop] at hp
    by_cases hshort : tag.length ≤ s.length - j
    · exact find_eq_none.mp hnone j (by omega)
        (List.prefix_of_prefix_length_le hp (List.prefix_append _ _) (by simpa using hshort))
    · have hpre : IsPartial tag (s.drop j) :=
        ⟨List.prefix_of_prefix_length_le (List.prefix_append _ t) hp (by simp; omega), by simp; omega⟩
      exact absurd (h.least j (by omega) hpre) (by omega)
  rw [hsplit, Text.find_append hno, hlen]

theorem HoldsBack.find_drop (h : HoldsBack tag s index) (hnone : find tag s = none) :
    find tag (s.drop index) = none := by
  have hfind := h.find_append hnone []
  rw [List.append_nil, List.append_nil, hnone] at hfind
  exact Option.map_eq_none_iff.mp hfind.symm

/-- A search for the largest number, from the top down. -/
theorem find?_reverse_range' (p : Nat → Bool) (max : Nat) :
    let best := ((List.range' 1 max).reverse.find? p).getD 0
    best ≤ max ∧ (best = 0 ∨ p best = true) ∧ ∀ j, 0 < j → j ≤ max → p j = true → j ≤ best := by
  induction max with
  | zero => exact ⟨Nat.le_refl _, Or.inl rfl, fun j hj hle _ => by omega⟩
  | succ max ih =>
      rw [List.range'_1_concat, List.reverse_concat, List.find?_cons]
      cases hp : p (1 + max) with
      | true => exact ⟨by simp [Nat.add_comm], Or.inr hp, fun j _ hle _ => by simpa [Nat.add_comm] using hle⟩
      | false =>
          obtain ⟨hle, hbest, hmax⟩ := ih
          refine ⟨Nat.le_succ_of_le hle, hbest, ?_⟩
          intro j hj hjle hpj
          rcases Nat.lt_or_ge max j with hlt | hge
          · have heq : j = 1 + max := by omega
            rw [heq, hp] at hpj
            cases hpj
          · exact hmax j hj hge hpj

/-! ## The pieces between the tags -/

/-- The pieces of a string between the tags; `tag inside` ends a piece. -/
def pieces (tag : Bool → Str) (inside : Bool) (s : Str) : List (Bool × Str) :=
  match _h : find (tag inside) s with
  | none => [(inside, s)]
  | some idx =>
      if 0 < (tag inside).length then
        (inside, s.take idx) :: pieces tag (!inside) (s.drop (idx + (tag inside).length))
      else [(inside, s)]
termination_by s.length
decreasing_by
  have hlen := length_le_of_find _h
  simp only [List.length_drop]
  omega

/-- The string that the pieces were cut from. -/
def rebuild (tag : Bool → Str) : List (Bool × Str) → Str
  | [] => []
  | [(_, s)] => s
  | (inside, s) :: rest => s ++ tag inside ++ rebuild tag rest

section Pieces

variable {tag : Bool → Str} {inside : Bool}

theorem pieces_of_none (h : find (tag inside) s = none) : pieces tag inside s = [(inside, s)] := by
  rw [pieces]
  split
  · rfl
  · rename_i hsome
    rw [h] at hsome
    cases hsome

theorem pieces_of_some {idx : Nat} (hpos : 0 < (tag inside).length) (h : find (tag inside) s = some idx) :
    pieces tag inside s = (inside, s.take idx) :: pieces tag (!inside) (s.drop (idx + (tag inside).length)) := by
  rw [pieces]
  split
  · rename_i hnone
    rw [h] at hnone
    cases hnone
  · rename_i i hsome
    rw [h] at hsome
    cases hsome
    rw [if_pos hpos]

theorem pieces_ne_nil (tag : Bool → Str) (inside : Bool) (s : Str) : pieces tag inside s ≠ [] := by
  rw [pieces]
  split
  · exact List.cons_ne_nil _ _
  · split
    · exact List.cons_ne_nil _ _
    · exact List.cons_ne_nil _ _

/-- Induction along the cuts. -/
theorem pieces_induction (hpos : ∀ inside, 0 < (tag inside).length) {P : Bool → Str → Prop}
    (last : ∀ inside s, find (tag inside) s = none → P inside s)
    (cut : ∀ inside s idx, find (tag inside) s = some idx →
      P (!inside) (s.drop (idx + (tag inside).length)) → P inside s) (inside : Bool) (s : Str) : P inside s := by
  induction hn : s.length using Nat.strong_induction_on generalizing inside s with
  | _ n ih =>
      cases h : find (tag inside) s with
      | none => exact last inside s h
      | some idx =>
          have hlen := length_le_of_find h
          have htag := hpos inside
          exact cut inside s idx h (ih _ (by simp only [List.length_drop]; omega) _ _ rfl)

theorem rebuild_pieces (hpos : ∀ inside, 0 < (tag inside).length) (inside : Bool) (s : Str) :
    rebuild tag (pieces tag inside s) = s := by
  induction inside, s using pieces_induction hpos with
  | last inside s h =>
      rw [pieces_of_none h]
      rfl
  | cut inside s idx h ih =>
      obtain ⟨p, ps, hps⟩ := List.exists_cons_of_ne_nil
        (pieces_ne_nil tag (!inside) (s.drop (idx + (tag inside).length)))
      rw [pieces_of_some (hpos inside) h, hps, rebuild, ← hps, ih]
      · obtain ⟨t, ht⟩ := prefix_of_find h
        rw [← List.drop_drop, ← ht, List.drop_left, List.append_assoc, ht, List.take_append_drop]
      · exact List.cons_ne_nil _ _

/-- A tag that is there stays the leftmost one, whatever text is still to come. -/
theorem pieces_append_of_some (tag : Bool → Str) (inside : Bool) {idx : Nat} (hpos : 0 < (tag inside).length) (h : find (tag inside) s = some idx)
    (future : Str) :
    pieces tag inside (s ++ future) =
      (inside, s.take idx) :: pieces tag (!inside) (s.drop (idx + (tag inside).length) ++ future) := by
  have hlen := length_le_of_find h
  rw [pieces_of_some hpos (find_append_of_some future h), List.take_append_of_le_length (by omega),
    List.drop_append_of_le_length (by omega)]

/-- The text in front of what is held back belongs to the piece that goes on with it. -/
theorem pieces_append_of_none (tag : Bool → Str) (inside : Bool) (hpos : 0 < (tag inside).length) (h : HoldsBack (tag inside) s index)
    (hnone : find (tag inside) s = none) (future : Str) :
    ∃ head rest, pieces tag inside (s.drop index ++ future) = (inside, head) :: rest ∧
      pieces tag inside (s ++ future) = (inside, s.take index ++ head) :: rest := by
  obtain ⟨hsplit, hlen⟩ := h.split future
  have hfind := h.find_append hnone future
  cases hrest : find (tag inside) (s.drop index ++ future) with
  | none =>
      rw [hrest] at hfind
      exact ⟨_, [], pieces_of_none hrest, by rw [pieces_of_none hfind, hsplit]⟩
  | some j =>
      rw [hrest, Option.map_some] at hfind
      have htake : (s ++ future).take (j + index) = s.take index ++ (s.drop index ++ future).take j := by
        rw [hsplit, List.take_append, hlen, Nat.add_sub_cancel, List.take_of_length_le (by rw [hlen]; omega)]
      have hdrop : (s ++ future).drop (j + index + (tag inside).length) =
          (s.drop index ++ future).drop (j + (tag inside).length) := by
        rw [hsplit, show j + index + (tag inside).length = index + (j + (tag inside).length) by omega,
          ← List.drop_drop, List.drop_left' hlen]
      exact ⟨_, _, pieces_of_some hpos hrest, by rw [pieces_of_some hpos hfind, htake, hdrop]⟩

end Pieces

end TagScan

/-!
## The choice among several tags

Of the tags that occur in a string the leftmost is taken, there the longest, and of equal tags the one listed first. In a
longer string the choice may be another one, if a tag occurs inside of an unfinished other one.
-/

namespace TagScan

open Text

structure Best (tags : List Str) (s : Str) (pos idx : Nat) (tag : Str) : Prop where
  listed : tags[idx]? = some tag
  found : tag <+: s.drop pos
  leftmost : ∀ other ∈ tags, ∀ j < pos, ¬ other <+: s.drop j
  longest : ∀ other ∈ tags, other <+: s.drop pos → other.length ≤ tag.length
  first : ∀ j < idx, tags[j]? ≠ some tag

variable {tags : List Str} {s : Str} {pos idx : Nat} {tag : Str}

namespace Best

theorem mem (h : Best tags s pos idx tag) : tag ∈ tags := List.mem_of_getElem? h.listed

theorem end_le (h : Best tags s pos idx tag) (hpos : tag ≠ []) : pos + tag.length ≤ s.length := by
  have hlength := h.found.length_le
  have htag := List.length_pos_of_ne_nil hpos
  rw [List.length_drop] at hlength
  omega

theorem split (h : Best tags s pos idx tag) : s = s.take pos ++ tag ++ s.drop (pos + tag.length) := by
  obtain ⟨rest, hrest⟩ := h.found
  rw [← List.drop_drop, ← hrest, List.drop_left, List.append_assoc, hrest, List.take_append_drop]

theorem unique {pos' idx' : Nat} {tag' : Str} (h : Best tags s pos idx tag) (h' : Best tags s pos' idx' tag') :
    pos' = pos ∧ idx' = idx ∧ tag' = tag := by
  obtain rfl : pos' = pos := by
    rcases Nat.lt_trichotomy pos' pos with hlt | heq | hgt
    · exact absurd h'.found (h.leftmost tag' h'.mem pos' hlt)
    · exact heq
    · exact absurd h.found (h'.leftmost tag h.mem pos hgt)
  have hlength := Nat.le_antisymm (h.longest tag' h'.mem h'.found) (h'.longest tag h.mem h.found)
  obtain rfl : tag' = tag :=
    (List.prefix_of_prefix_length_le h'.found h.found (Nat.le_of_eq hlength)).eq_of_length hlength
  refine ⟨rfl, ?_, rfl⟩
  rcases Nat.lt_trichotomy idx' idx with hlt | heq | hgt
  · exact absurd h'.listed (h.first idx' hlt)
  · exact heq
  · exact absurd h.listed (h'.first idx hgt)

/-- Text in front in which no tag starts moves the choice. -/
theorem append_left (h : Best tags s pos idx tag) {front : Str}
    (hfront : ∀ other ∈ tags, ∀ j < front.length, ¬ other <+: (front ++ s).drop j) :
    Best tags (front ++ s) (front.length + pos) idx tag := by
  have hdrop : (front ++ s).drop (front.length + pos) = s.drop pos := by
    rw [← List.drop_drop, List.drop_left]
  refine ⟨h.listed, hdrop ▸ h.found, ?_, ?_, h.first⟩
  · intro other hother j hj hstarts
    by_cases hlt : j < front.length
    · exact hfront other hother j hlt hstarts
    · obtain ⟨behind, rfl⟩ : ∃ behind, j = front.length + behind := ⟨j - front.length, by omega⟩
      rw [← List.drop_drop, List.drop_left] at hstarts
      exact h.leftmost other hother behind (by omega) hstarts
  · intro other hother hstarts
    rw [hdrop] at hstarts
    exact h.longest other hother hstarts

end Best

/-- Some tag occurs inside of another one that is not finished. -/
def Nested (tags : List Str) : Prop := ∃ tag ∈ tags, ∃ other ∈ tags, tag <:+: other.dropLast

/-- A tag that goes beyond a string in which another tag stands behind its start is unfinished there. -/
theorem nested_of_starts {seen s other : Str} {j : Nat} (h : Best tags seen pos idx tag) (hne : tag ≠ [])
    (hseen : seen <+: s) (hother : other ∈ tags) (hj : j ≤ pos) (hstarts : other <+: s.drop j)
    (hlong : seen.length < j + other.length) : Nested tags := by
  refine ⟨tag, h.mem, other, hother, ?_⟩
  have hend := h.end_le hne
  obtain ⟨rest, rfl⟩ := hseen
  have hdrop : seen.drop j <+: (seen ++ rest).drop j := by
    rw [List.drop_append_of_le_length (by omega)]
    exact List.prefix_append _ _
  have hcut : seen.drop j <+: other := by
    apply List.prefix_of_prefix_length_le hdrop hstarts
    rw [List.length_drop]
    omega
  have hunfinished : seen.drop j <+: other.dropLast := by
    rw [List.dropLast_eq_take, List.prefix_take_iff]
    refine ⟨hcut, ?_⟩
    rw [List.length_drop]
    omega
  have hinside : tag <:+: seen.drop j := by
    obtain ⟨behind, hbehind⟩ : ∃ behind, pos = j + behind := ⟨pos - j, by omega⟩
    have hfound := h.found
    rw [hbehind, ← List.drop_drop] at hfound
    exact hfound.isInfix.trans (List.drop_suffix _ _).isInfix
  exact hinside.trans hunfinished.isInfix

/-- If no tag is nested, more text does not change the choice. -/
theorem Best.mono {seen : Str} (h : Best tags seen pos idx tag) (hnested : ¬ Nested tags) (hne : tag ≠ [])
    (hseen : seen <+: s) : Best tags s pos idx tag := by
  have hend := h.end_le hne
  have hdrop (j : Nat) (hj : j ≤ pos) : seen.drop j <+: s.drop j := by
    obtain ⟨rest, rfl⟩ := hseen
    rw [List.drop_append_of_le_length (by omega)]
    exact List.prefix_append _ _
  have hback {other : Str} {j : Nat} (hother : other ∈ tags) (hj : j ≤ pos) (hstarts : other <+: s.drop j) :
      other <+: seen.drop j := by
    apply List.prefix_of_prefix_length_le hstarts (hdrop j hj)
    rw [List.length_drop]
    by_contra hlong
    exact hnested (nested_of_starts h hne hseen hother hj hstarts (by omega))
  refine ⟨h.listed, h.found.trans (hdrop pos (Nat.le_refl _)), ?_, ?_, h.first⟩
  · intro other hother j hj hstarts
    exact h.leftmost other hother j hj (hback hother (Nat.le_of_lt hj) hstarts)
  · intro other hother hstarts
    exact h.longest other hother (hback hother (Nat.le_refl _) hstarts)

/-! ## Holding back for all tags -/

/-- Where no tag occurs, none starts in front of what is held back for each of them. -/
theorem not_starts_of_holdsBack (hnone : find tag s = none) {index : Nat} (h : HoldsBack tag s index) (t : Str) {j : Nat}
    (hj : j < index) : ¬ tag <+: (s ++ t).drop j := by
  intro hstarts
  have hle := h.le_length
  rw [List.drop_append_of_le_length (by omega)] at hstarts
  by_cases hshort : tag.length ≤ (s.drop j).length
  · exact find_eq_none.mp hnone j (by omega)
      (List.prefix_of_prefix_length_le hstarts (List.prefix_append _ _) hshort)
  · have hpartial : IsPartial tag (s.drop j) :=
      ⟨List.prefix_of_prefix_length_le (List.prefix_append _ t) hstarts (by omega), by omega⟩
    exact absurd (h.least j (by omega) hpartial) (by omega)

end TagScan
