import Mathlib.Data.List.Sort
import Mathlib.Data.List.Flatten
import Mathlib.Tactic.Common

/-!
# Replacing ranges of a list

Edits replace ranges of one list. Done one after the other from the back, edits that do not overlap come to the
same as all of them at once.
-/

namespace Splice

variable {α : Type} {xs : List α}

theorem insertIdx_append_length (front : List α) (x : α) (rest : List α) :
    (front ++ rest).insertIdx front.length x = front ++ x :: rest := by
  induction front with
  | nil => rfl
  | cons head tail ih => simp [ih]

/-- The `len` elements from `start` on become `new`. -/
structure Edit (α : Type) where
  start : Nat
  len : Nat
  new : List α

def Edit.stop (e : Edit α) : Nat := e.start + e.len

def Edit.Covers (e : Edit α) (i : Nat) : Prop := e.start ≤ i ∧ i < e.stop

instance (e : Edit α) (i : Nat) : Decidable (e.Covers i) := inferInstanceAs (Decidable (_ ∧ _))

def splice (xs : List α) (e : Edit α) : List α := xs.take e.start ++ e.new ++ xs.drop e.stop

/-- One edit after the other, the last one first. -/
def spliceAll (xs : List α) (es : List (Edit α)) : List α := es.foldr (fun e xs => splice xs e) xs

def Inside (xs : List α) (es : List (Edit α)) : Prop := ∀ e ∈ es, e.stop ≤ xs.length

/-- Each edit ends where a later one starts, or before. -/
def Apart (es : List (Edit α)) : Prop := es.Pairwise fun e e' => e.stop ≤ e'.start

/-! ## All edits at once -/

/-- What the edits leave of one place: new elements first, then the element itself unless it is replaced. -/
def piece (xs : List α) (es : List (Edit α)) (i : Nat) : List α :=
  (es.filter fun e => e.start = i).flatMap Edit.new ++
    if ∃ e ∈ es, e.Covers i then [] else xs[i]?.toList

def substitute (xs : List α) (es : List (Edit α)) : List α :=
  (List.range' 0 (xs.length + 1)).flatMap (piece xs es)

variable {es : List (Edit α)}

theorem piece_eq_of_not_touched {i : Nat} (h : ∀ e ∈ es, i < e.start) : piece xs es i = xs[i]?.toList := by
  have hfilter : es.filter (fun e => e.start = i) = [] := by
    rw [List.filter_eq_nil_iff]
    intro e he
    simpa using Nat.ne_of_gt (h e he)
  have hcovers : ¬ ∃ e ∈ es, e.Covers i := by
    rintro ⟨e, he, hle, -⟩
    exact absurd hle (Nat.not_le.mpr (h e he))
  rw [piece, hfilter, if_neg hcovers]
  rfl

theorem piece_cons_of_not_touched {e : Edit α} {i : Nat} (hstart : e.start ≠ i) (hcovers : ¬ e.Covers i) :
    piece xs (e :: es) i = piece xs es i := by
  simp [piece, hstart, hcovers]

theorem flatMap_getElem? (xs : List α) (start n : Nat) :
    (List.range' start n).flatMap (fun i => xs[i]?.toList) = (xs.drop start).take n := by
  induction n generalizing start with
  | zero => rfl
  | succ n ih =>
      rw [List.range'_succ, List.flatMap_cons, ih]
      by_cases h : start < xs.length
      · rw [List.getElem?_eq_getElem h, List.drop_eq_getElem_cons h, List.take_succ_cons]
        rfl
      · have hle : xs.length ≤ start := Nat.le_of_not_lt h
        rw [List.getElem?_eq_none hle, List.drop_eq_nil_of_le hle, List.drop_eq_nil_of_le (Nat.le_succ_of_le hle)]
        simp

/-- In front of every edit nothing changes. -/
theorem substitute_eq_take_append {m : Nat} (hm : m ≤ xs.length) (h : ∀ e ∈ es, m ≤ e.start) :
    substitute xs es = xs.take m ++ (List.range' m (xs.length + 1 - m)).flatMap (piece xs es) := by
  have hsplit : List.range' 0 (xs.length + 1) = List.range' 0 m ++ List.range' m (xs.length + 1 - m) := by
    have happ := @List.range'_append_1 0 m (xs.length + 1 - m)
    rw [Nat.zero_add] at happ
    rw [happ, Nat.add_sub_cancel' (Nat.le_succ_of_le hm)]
  have hfront : (List.range' 0 m).flatMap (piece xs es) = (List.range' 0 m).flatMap fun i => xs[i]?.toList := by
    apply List.flatMap_congr
    intro i hi
    apply piece_eq_of_not_touched
    intro e he
    have := h e he
    have := (List.mem_range'_1.mp hi).2
    omega
  rw [substitute, hsplit, List.flatMap_append, hfront, flatMap_getElem?, List.drop_zero]

theorem substitute_nil (xs : List α) : substitute xs [] = xs := by
  rw [substitute_eq_take_append (Nat.le_refl _) (by simp), List.take_length]
  have hlast : (List.range' xs.length (xs.length + 1 - xs.length)).flatMap (piece xs []) = [] := by
    rw [Nat.add_sub_cancel_left]
    simp [piece]
  rw [hlast, List.append_nil]

/-- The pieces from the start of the first edit on: its new elements, then what the other edits leave behind it. -/
theorem flatMap_piece_cons {e : Edit α} (hstop : e.stop ≤ xs.length) (hrest : ∀ e' ∈ es, e.stop ≤ e'.start) :
    (List.range' e.start (xs.length + 1 - e.start)).flatMap (piece xs (e :: es)) =
      e.new ++ (List.range' e.stop (xs.length + 1 - e.stop)).flatMap (piece xs es) := by
  have hle : e.start ≤ e.stop := Nat.le_add_right _ _
  have hbehind : ∀ i, e.stop ≤ i → e.start ≠ i → piece xs (e :: es) i = piece xs es i := by
    intro i hi hne
    exact piece_cons_of_not_touched hne fun hcov => absurd hcov.2 (Nat.not_lt.mpr hi)
  rcases Nat.eq_or_lt_of_le hle with heq | hlt
  · -- An insertion: the element at its place stays.
    have hcovers : ¬ e.Covers e.start := fun hcov => absurd hcov.2 (by omega)
    have hpiece : piece xs (e :: es) e.start = e.new ++ piece xs es e.start := by
      simp [piece, hcovers, List.append_assoc]
    have hn : xs.length + 1 - e.start = xs.length - e.start + 1 := by omega
    rw [← heq, hn, List.range'_succ, List.flatMap_cons, List.flatMap_cons, hpiece, List.append_assoc]
    congr 2
    apply List.flatMap_congr
    intro i hi
    have := (List.mem_range'_1.mp hi).1
    exact hbehind i (by omega) (by omega)
  · have hfirst : piece xs (e :: es) e.start = e.new := by
      have hfilter : es.filter (fun e' => e'.start = e.start) = [] := by
        rw [List.filter_eq_nil_iff]
        intro e' he'
        have := hrest e' he'
        simpa using (by omega : e'.start ≠ e.start)
      have hcovers : ∃ e' ∈ e :: es, e'.Covers e.start := ⟨e, by simp, Nat.le_refl _, hlt⟩
      rw [piece, if_pos hcovers, List.filter_cons_of_pos (by simp), hfilter]
      simp
    have hinner : ∀ i, e.start < i → i < e.stop → piece xs (e :: es) i = [] := by
      intro i hi hi'
      have hfilter : (e :: es).filter (fun e' => e'.start = i) = [] := by
        rw [List.filter_eq_nil_iff]
        intro e' he'
        rcases List.mem_cons.mp he' with rfl | he'
        · simpa using (by omega : e'.start ≠ i)
        · have := hrest e' he'
          simpa using (by omega : e'.start ≠ i)
      have hcovers : ∃ e' ∈ e :: es, e'.Covers i := ⟨e, by simp, Nat.le_of_lt hi, hi'⟩
      rw [piece, if_pos hcovers, hfilter]
      rfl
    have hsplit : List.range' e.start (xs.length + 1 - e.start) =
        e.start :: (List.range' (e.start + 1) (e.len - 1) ++ List.range' e.stop (xs.length + 1 - e.stop)) := by
      have hstop' : e.stop = e.start + 1 + (e.len - 1) := by
        rw [Edit.stop] at hlt ⊢
        omega
      have hn : xs.length + 1 - e.start = e.len - 1 + (xs.length + 1 - e.stop) + 1 := by
        rw [Edit.stop] at hstop hlt ⊢
        omega
      rw [hn, List.range'_succ, hstop', List.range'_append_1]
    have hmiddle : (List.range' (e.start + 1) (e.len - 1)).flatMap (piece xs (e :: es)) = [] := by
      rw [List.flatMap_eq_nil_iff]
      intro i hi
      have := List.mem_range'_1.mp hi
      rw [Edit.stop] at hlt
      exact hinner i (by omega) (by rw [Edit.stop]; omega)
    rw [hsplit, List.flatMap_cons, List.flatMap_append, hfirst, hmiddle, List.nil_append]
    congr 1
    apply List.flatMap_congr
    intro i hi
    have := (List.mem_range'_1.mp hi).1
    exact hbehind i this (by omega)

theorem spliceAll_eq_substitute (hinside : Inside xs es) (hapart : Apart es) : spliceAll xs es = substitute xs es := by
  induction es with
  | nil => exact (substitute_nil xs).symm
  | cons e es ih =>
      obtain ⟨hrest, hapart⟩ := List.pairwise_cons.mp hapart
      have hstop : e.stop ≤ xs.length := hinside e (by simp)
      have hle : e.start ≤ e.stop := Nat.le_add_right _ _
      have hstart : ∀ e' ∈ e :: es, e.start ≤ e'.start := by
        intro e' he'
        rcases List.mem_cons.mp he' with rfl | he'
        · exact Nat.le_refl _
        · exact Nat.le_trans hle (hrest e' he')
      have hbehind := substitute_eq_take_append hstop hrest
      have hlen : (xs.take e.stop).length = e.stop := by rw [List.length_take, Nat.min_eq_left hstop]
      have htake : (substitute xs es).take e.start = xs.take e.start := by
        rw [hbehind, List.take_append_of_le_length (by omega), List.take_take, Nat.min_eq_left hle]
      have hdrop : (substitute xs es).drop e.stop =
          (List.range' e.stop (xs.length + 1 - e.stop)).flatMap (piece xs es) := by
        rw [hbehind, List.drop_left' hlen]
      calc spliceAll xs (e :: es)
          = splice (spliceAll xs es) e := rfl
        _ = splice (substitute xs es) e := by rw [ih (fun e' he' => hinside e' (by simp [he'])) hapart]
        _ = xs.take e.start ++ (e.new ++ (List.range' e.stop (xs.length + 1 - e.stop)).flatMap (piece xs es)) := by
            rw [splice, htake, hdrop, List.append_assoc]
        _ = substitute xs (e :: es) := by
            rw [← flatMap_piece_cons hstop hrest, ← substitute_eq_take_append (Nat.le_trans hle hstop) hstart]

/-! ## What is left -/

/-- The elements that no edit replaces. -/
def kept (xs : List α) (es : List (Edit α)) : List α :=
  (List.range' 0 xs.length).flatMap fun i => if ∃ e ∈ es, e.Covers i then [] else xs[i]?.toList

theorem kept_sublist_substitute (xs : List α) (es : List (Edit α)) : (kept xs es).Sublist (substitute xs es) := by
  have hrange : List.range' 0 (xs.length + 1) = List.range' 0 xs.length ++ [xs.length] := by
    rw [List.range'_concat]
    simp
  rw [kept, substitute, hrange, List.flatMap_append]
  refine List.Sublist.trans ?_ (List.sublist_append_left _ _)
  generalize List.range' 0 xs.length = places
  induction places with
  | nil => exact List.Sublist.refl _
  | cons i places ih =>
      rw [List.flatMap_cons, List.flatMap_cons]
      exact (List.sublist_append_right _ _).append ih

/-- Edits that put back what they replace change nothing. -/
theorem spliceAll_eq_self (h : ∀ e ∈ es, (xs.drop e.start).take e.len = e.new) : spliceAll xs es = xs := by
  induction es with
  | nil => rfl
  | cons e es ih =>
      have hrest : spliceAll xs es = xs := ih fun e' he' => h e' (by simp [he'])
      have hback : xs.take e.start ++ ((xs.drop e.start).take e.len ++ (xs.drop e.start).drop e.len) = xs := by
        rw [List.take_append_drop, List.take_append_drop]
      calc spliceAll xs (e :: es)
          = splice (spliceAll xs es) e := rfl
        _ = xs.take e.start ++ e.new ++ xs.drop e.stop := by rw [hrest, splice]
        _ = xs := by rw [← h e (by simp), Edit.stop, ← List.drop_drop, List.append_assoc, hback]

theorem getLast?_flatMap_range' {f : Nat → List α} {a n : Nat} {x : α} :
    ((List.range' a n).flatMap f).getLast? = some x ↔
      ∃ i, a ≤ i ∧ i < a + n ∧ (f i).getLast? = some x ∧ ∀ j, i < j → j < a + n → f j = [] := by
  induction n generalizing a with
  | zero =>
      refine iff_of_false (by simp) ?_
      rintro ⟨i, hle, hlt, -⟩
      omega
  | succ n ih =>
      rw [List.range'_succ, List.flatMap_cons, List.getLast?_append]
      constructor
      · intro h
        cases hrest : ((List.range' (a + 1) n).flatMap f).getLast? with
        | some y =>
            rw [hrest] at h
            obtain ⟨i, hle, hlt, hlast, hbehind⟩ := ih.mp (hrest.trans h)
            exact ⟨i, by omega, by omega, hlast, fun j hj hj' => hbehind j hj (by omega)⟩
        | none =>
            rw [hrest] at h
            have hnil := List.flatMap_eq_nil_iff.mp (List.getLast?_eq_none_iff.mp hrest)
            exact ⟨a, Nat.le_refl _, by omega, h, fun j hj hj' => hnil j (List.mem_range'_1.mpr ⟨hj, by omega⟩)⟩
      · rintro ⟨i, hle, hlt, hlast, hbehind⟩
        rcases Nat.eq_or_lt_of_le hle with rfl | hlt'
        · have hnil : (List.range' (a + 1) n).flatMap f = [] := by
            rw [List.flatMap_eq_nil_iff]
            intro j hj
            have := List.mem_range'_1.mp hj
            exact hbehind j (by omega) (by omega)
          rw [hnil]
          exact hlast
        · rw [ih.mpr ⟨i, hlt', by omega, hlast, fun j hj hj' => hbehind j hj (by omega)⟩]
          rfl

/-! ## Ranges in the order of their starts -/

section

variable {β : Type} (start stop : β → Nat)

/-- Neither range reaches into the other, where the first stays in front of the second if both start alike. -/
def Clear (a b : β) : Prop := if start a ≤ start b then stop a ≤ start b else stop b ≤ start a

variable {start stop}

theorem pairwise_orderedInsert_iff {a : β} {l : List β} (hsorted : l.Pairwise fun a b => start a ≤ start b) :
    (l.orderedInsert (fun a b => start a ≤ start b) a).Pairwise (fun a b => stop a ≤ start b) ↔
      (∀ b ∈ l, Clear start stop a b) ∧ l.Pairwise fun a b => stop a ≤ start b := by
  induction l with
  | nil => simp
  | cons b l ih =>
      obtain ⟨hb, hsorted⟩ := List.pairwise_cons.mp hsorted
      by_cases hab : start a ≤ start b
      · rw [List.orderedInsert, if_pos hab, List.pairwise_cons]
        have hclear : ∀ c ∈ b :: l, Clear start stop a c ↔ stop a ≤ start c := by
          intro c hc
          have hac : start a ≤ start c := by
            rcases List.mem_cons.mp hc with rfl | hc
            · exact hab
            · exact Nat.le_trans hab (hb c hc)
          rw [Clear, if_pos hac]
        rw [forall₂_congr hclear]
      · rw [List.orderedInsert, if_neg hab, List.pairwise_cons, ih hsorted, List.pairwise_cons, List.forall_mem_cons]
        have hclear : Clear start stop a b ↔ stop b ≤ start a := by rw [Clear, if_neg hab]
        have hmem : (∀ c ∈ l.orderedInsert (fun a b => start a ≤ start b) a, stop b ≤ start c) ↔
            stop b ≤ start a ∧ ∀ c ∈ l, stop b ≤ start c := by
          simp only [(List.perm_orderedInsert _ a l).mem_iff, List.forall_mem_cons]
        rw [hclear, hmem]
        tauto

/-- Sorted by their starts, ranges do not overlap exactly when they are clear of each other in their order. -/
theorem pairwise_insertionSort_iff (start stop : β → Nat) (l : List β) :
    (l.insertionSort fun a b => start a ≤ start b).Pairwise (fun a b => stop a ≤ start b) ↔
      l.Pairwise (Clear start stop) := by
  induction l with
  | nil => simp
  | cons a l ih =>
      have hsorted : (l.insertionSort fun a b => start a ≤ start b).Pairwise fun a b => start a ≤ start b :=
        List.pairwise_insertionSort _ l
      rw [List.insertionSort_cons, pairwise_orderedInsert_iff hsorted, List.pairwise_cons, ih]
      have hmem : ∀ b, b ∈ l.insertionSort (fun a b => start a ≤ start b) ↔ b ∈ l :=
        fun b => (List.perm_insertionSort _ l).mem_iff
      simp only [hmem]

end

end Splice
