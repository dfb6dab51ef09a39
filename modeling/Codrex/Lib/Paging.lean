import Mathlib.Order.Lattice
import Mathlib.Data.List.Basic
import Mathlib.Tactic.Common

/-!
# Pages of a sorted list

A list is sorted by descending keys, and is read page by page. A page goes on behind the key that the last one ended
with, so what shares this key is left out.
-/

namespace Paging

variable {α β κ : Type}

/-- What is read in all: page after page, each with the cursor of the one before, until there is no cursor. -/
inductive Enumerates (get : Option κ → List β × Option κ) : Option κ → List β → Prop
  | last {cursor : Option κ} (h : (get cursor).2 = none) : Enumerates get cursor (get cursor).1
  | next {cursor : Option κ} {next : κ} {rest : List β} (h : (get cursor).2 = some next)
      (hrest : Enumerates get (some next) rest) : Enumerates get cursor ((get cursor).1 ++ rest)

theorem Enumerates.unique {get : Option κ → List β × Option κ} {cursor : Option κ} {first second : List β}
    (h : Enumerates get cursor first) (h' : Enumerates get cursor second) : first = second := by
  induction h generalizing second with
  | last hnone =>
      cases h' with
      | last _ => rfl
      | next hsome _ => exact nomatch hnone.symm.trans hsome
  | next hsome _ ih =>
      cases h' with
      | last hnone => exact nomatch hnone.symm.trans hsome
      | next hsome' hrest' =>
          obtain rfl := Option.some.inj (hsome.symm.trans hsome')
          rw [ih hrest']

variable [LinearOrder κ]

/-- The elements behind the cursor. -/
def after (key : α → κ) (cursor : Option κ) (xs : List α) : List α :=
  xs.filter fun x => cursor.all fun k => decide (key x < k)

/-- Pages of the given size; what shares the key of the last element of a page is left out behind it. -/
def resumed (key : α → κ) (size : Nat) (xs : List α) : List α :=
  match _h : (xs.take size).getLast? with
  | none => []
  | some last => xs.take size ++ resumed key size ((xs.drop size).filter fun x => decide (key x ≠ key last))
termination_by xs.length
decreasing_by
  have hlt : 0 < (xs.take size).length := List.length_pos_iff.mpr fun hnil => by simp [hnil] at _h
  have hle := List.length_filter_le (fun x => decide (key x ≠ key last)) (xs.drop size)
  rw [List.length_take] at hlt
  rw [List.length_drop] at hle
  omega

/-- The pages hold what is behind the cursor, up to their size. -/
structure Serves (key : α → κ) (build : α → Option β) (cursorOf : β → Option κ) (size : Nat) (xs : List α)
    (get : Option κ → List β × Option κ) : Prop where
  items : ∀ cursor, (get cursor).1 = ((after key cursor xs).filterMap build).take size
  stop : ∀ cursor, (get cursor).2 = none → ((after key cursor xs).filterMap build).length ≤ size
  next : ∀ cursor k, (get cursor).2 = some k → (get cursor).1.getLast?.bind cursorOf = some k

variable {key : α → κ} {build : α → Option β} {cursorOf : β → Option κ} {size : Nat} {xs : List α}

theorem resumed_of_length_le (h : xs.length ≤ size) : resumed key size xs = xs := by
  rw [resumed]
  rw [List.take_of_length_le h, List.drop_of_length_le h]
  split
  · rename_i hnone
    exact (List.getLast?_eq_none_iff.mp hnone).symm
  · rw [List.filter_nil, resumed, List.take_nil, List.getLast?_nil, List.append_nil]

/-- Where no key comes twice, nothing is left out. -/
theorem resumed_eq_self (hsize : 0 < size) (h : xs.Pairwise fun x y => key x ≠ key y) : resumed key size xs = xs := by
  induction xs using resumed.induct key size with
  | case1 xs hnone =>
      have hnil := List.getLast?_eq_none_iff.mp hnone
      rw [List.take_eq_nil_iff] at hnil
      obtain rfl : xs = [] := hnil.resolve_left (Nat.ne_of_gt hsize)
      exact resumed_of_length_le (Nat.zero_le _)
  | case2 xs last hlast ih =>
      have hsplit := h
      rw [← List.take_append_drop size xs, List.pairwise_append] at hsplit
      obtain ⟨-, hrest, hcross⟩ := hsplit
      have hfilter : (xs.drop size).filter (fun x => decide (key x ≠ key last)) = xs.drop size := by
        rw [List.filter_eq_self]
        intro x hx
        exact decide_eq_true (hcross last (List.mem_of_getLast? hlast) x hx).symm
      rw [hfilter] at ih
      rw [resumed]
      split
      · rename_i hnone
        rw [hlast] at hnone
        cases hnone
      · rename_i last' hlast'
        obtain rfl := Option.some.inj (hlast.symm.trans hlast')
        rw [hfilter, ih hrest, List.take_append_drop]

theorem length_filterMap_of_isSome (h : ∀ x ∈ xs, (build x).isSome = true) :
    (xs.filterMap build).length = xs.length := by
  induction xs with
  | nil => rfl
  | cons x xs ih =>
      obtain ⟨y, hy⟩ := Option.isSome_iff_exists.mp (h x List.mem_cons_self)
      rw [List.filterMap_cons_some hy, List.length_cons, List.length_cons,
        ih fun x' hx' => h x' (List.mem_cons_of_mem _ hx')]

theorem take_filterMap_of_isSome (h : ∀ x ∈ xs, (build x).isSome = true) (n : Nat) :
    (xs.filterMap build).take n = (xs.take n).filterMap build := by
  induction xs generalizing n with
  | nil => simp
  | cons x xs ih =>
      obtain ⟨y, hy⟩ := Option.isSome_iff_exists.mp (h x List.mem_cons_self)
      cases n with
      | zero => rfl
      | succ n =>
          rw [List.filterMap_cons_some hy, List.take_succ_cons, List.take_succ_cons, List.filterMap_cons_some hy,
            ih fun x' hx' => h x' (List.mem_cons_of_mem _ hx')]

theorem filterMap_filter_isSome (xs : List α) : (xs.filter fun x => (build x).isSome).filterMap build =
    xs.filterMap build := by
  rw [List.filterMap_filter]
  congr 1
  funext x
  cases build x <;> rfl

theorem after_filter (p : α → Bool) (cursor : Option κ) (xs : List α) :
    after key cursor (xs.filter p) = (after key cursor xs).filter p := by
  rw [after, after, List.filter_filter, List.filter_filter]
  simp only [Bool.and_comm]

/-- Behind a page that ends with `last`, the elements with its key are gone, and those before it. -/
theorem after_last {cursor : Option κ} {last : α} (hsorted : xs.Pairwise fun x y => key y ≤ key x)
    (hlast : ((after key cursor xs).take size).getLast? = some last) :
    after key (some (key last)) xs =
      ((after key cursor xs).drop size).filter fun x => decide (key x ≠ key last) := by
  have hmem : last ∈ after key cursor xs := List.mem_of_mem_take (List.mem_of_getLast? hlast)
  rw [after, List.mem_filter] at hmem
  have hnested : after key (some (key last)) xs = after key (some (key last)) (after key cursor xs) := by
    rw [after, after, after, List.filter_filter]
    apply List.filter_congr
    intro x _
    cases cursor with
    | none => simp
    | some k =>
        have hk : key last < k := by simpa using hmem.2
        by_cases hx : key x < key last
        · simp [hx, hx.trans hk]
        · simp [hx]
  have hpairs : (after key cursor xs).Pairwise fun x y => key y ≤ key x := hsorted.filter _
  rw [hnested]
  generalize after key cursor xs = ys at hlast hpairs
  obtain ⟨front, hfront⟩ := List.getLast?_eq_some_iff.mp hlast
  have hsplit := hpairs
  rw [← List.take_append_drop size ys, List.pairwise_append] at hsplit
  obtain ⟨hpage, -, hcross⟩ := hsplit
  -- Before the last element of the page the keys are not smaller, behind it they are not greater.
  have hbefore : ∀ x ∈ ys.take size, ¬ key x < key last := by
    intro x hx
    rw [hfront, List.mem_append, List.mem_singleton] at hx
    rcases hx with hx | rfl
    · rw [hfront, List.pairwise_append] at hpage
      exact not_lt.mpr (hpage.2.2 x hx last List.mem_cons_self)
    · exact lt_irrefl _
  have hbehind : ∀ x ∈ ys.drop size, key x ≤ key last :=
    fun x hx => hcross last (List.mem_of_getLast? hlast) x hx
  have hnone : after key (some (key last)) (ys.take size) = [] := by
    rw [after, List.filter_eq_nil_iff]
    intro x hx
    simpa using hbefore x hx
  have hrest : after key (some (key last)) (ys.drop size) =
      (ys.drop size).filter fun x => decide (key x ≠ key last) := by
    apply List.filter_congr
    intro x hx
    exact decide_eq_decide.mpr (hbehind x hx).lt_iff_ne
  calc after key (some (key last)) ys
      = after key (some (key last)) (ys.take size ++ ys.drop size) := by rw [List.take_append_drop]
    _ = after key (some (key last)) (ys.take size) ++ after key (some (key last)) (ys.drop size) :=
        List.filter_append ..
    _ = (ys.drop size).filter fun x => decide (key x ≠ key last) := by rw [hnone, hrest, List.nil_append]

/-- The pages come to an end, and together they are the sorted list without what is left out behind them. -/
theorem Serves.enumerates {get : Option κ → List β × Option κ} (h : Serves key build cursorOf size xs get)
    (hsorted : xs.Pairwise fun x y => key y ≤ key x) (hsize : 0 < size)
    (hcursor : ∀ x ∈ xs, ∀ item, build x = some item → cursorOf item = some (key x)) (cursor : Option κ) :
    Enumerates get cursor
      ((resumed key size (after key cursor (xs.filter fun x => (build x).isSome))).filterMap build) := by
  generalize hms : after key cursor (xs.filter fun x => (build x).isSome) = ms
  induction hn : ms.length using Nat.strongRecOn generalizing ms cursor with
  | ind n ih =>
      have hsome : ∀ x ∈ ms, (build x).isSome = true := by
        intro x hx
        rw [← hms] at hx
        exact (List.mem_filter.mp (List.mem_of_mem_filter hx)).2
      have hall : (after key cursor xs).filterMap build = ms.filterMap build := by
        rw [← hms, after_filter, filterMap_filter_isSome]
      have hitems : (get cursor).1 = (ms.take size).filterMap build := by
        rw [h.items, hall, take_filterMap_of_isSome hsome]
      cases hnext : (get cursor).2 with
      | none =>
          have hle := h.stop cursor hnext
          rw [hall, length_filterMap_of_isSome hsome] at hle
          rw [resumed_of_length_le hle]
          rw [List.take_of_length_le hle] at hitems
          rw [← hitems]
          exact .last hnext
      | some k =>
          have hk := h.next cursor k hnext
          rw [hitems] at hk
          obtain ⟨item, hitem, hcursorOf⟩ := Option.bind_eq_some_iff.mp hk
          cases hlast : (ms.take size).getLast? with
          | none =>
              rw [List.getLast?_eq_none_iff.mp hlast] at hitem
              cases hitem
          | some last =>
              obtain ⟨front, hfront⟩ := List.getLast?_eq_some_iff.mp hlast
              have hin : last ∈ ms := List.mem_of_mem_take (List.mem_of_getLast? hlast)
              obtain ⟨item', hitem'⟩ := Option.isSome_iff_exists.mp (hsome last hin)
              -- The cursor is the key of the last element of the page.
              rw [hfront, List.filterMap_append, List.filterMap_cons_some hitem', List.filterMap_nil,
                List.getLast?_concat] at hitem
              obtain rfl := Option.some.inj hitem
              have hlast' : last ∈ xs := by
                rw [← hms] at hin
                exact List.mem_of_mem_filter (List.mem_of_mem_filter hin)
              obtain rfl := Option.some.inj ((hcursor last hlast' item' hitem').symm.trans hcursorOf)
              have hrest : after key (some (key last)) (xs.filter fun x => (build x).isSome) =
                  (ms.drop size).filter fun x => decide (key x ≠ key last) := by
                rw [← hms]
                rw [← hms] at hlast
                exact after_last (hsorted.filter _) hlast
              have hshort : ((ms.drop size).filter fun x => decide (key x ≠ key last)).length < n := by
                have hfilter := List.length_filter_le (fun x => decide (key x ≠ key last)) (ms.drop size)
                have hpos := List.length_pos_of_mem hin
                rw [List.length_drop] at hfilter
                omega
              have hstep : resumed key size ms = ms.take size ++
                  resumed key size ((ms.drop size).filter fun x => decide (key x ≠ key last)) := by
                rw [resumed]
                split
                · rename_i hnone
                  rw [hlast] at hnone
                  cases hnone
                · rename_i last' hlast'
                  obtain rfl := Option.some.inj (hlast.symm.trans hlast')
                  rfl
              rw [hstep, List.filterMap_append, ← hitems]
              exact .next hnext (ih _ hshort (some (key last)) _ hrest rfl)

end Paging
