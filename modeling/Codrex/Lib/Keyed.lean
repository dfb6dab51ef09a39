import Mathlib.Data.List.Basic
import Mathlib.Data.List.Induction

/-!
# Lists of elements with keys

A key may come more than once: what is looked up or changed is the first element with it.
-/

namespace Keyed

variable {α κ β : Type} [DecidableEq κ] (key : α → κ)

/-- The first element with the key of `x` gives way to `x`. Without one, `x` comes to the end. -/
def upsert (x : α) : List α → List α
  | [] => [x]
  | y :: l => if key y = key x then x :: l else y :: upsert x l

attribute [local simp] upsert

def update (k : κ) (f : α → α) : List α → List α
  | [] => []
  | y :: l => if key y = k then f y :: l else y :: update k f l

attribute [local simp] update

def find (k : κ) (l : List α) : Option α := l.find? fun y => decide (key y = k)

variable {key} {x y : α} {k : κ} {l rest : List α}

/-! ## The element that is put in -/

theorem find_cons_self (l : List α) : find key (key y) (y :: l) = some y := by
  simp [find]

theorem find_cons_ne (h : key y ≠ k) (l : List α) : find key k (y :: l) = find key k l := by
  simp [find, h]

theorem find_append (h : find key k l = some y) (more : List α) : find key k (l ++ more) = some y := by
  simp only [find] at h ⊢
  simp [List.find?_append, h]

theorem find_upsert_self (x : α) (l : List α) : find key (key x) (upsert key x l) = some x := by
  induction l with
  | nil => exact find_cons_self []
  | cons y l ih =>
      by_cases h : key y = key x
      · simpa [upsert, h] using find_cons_self l
      · simpa [upsert, h, find_cons_ne h] using ih

theorem find_upsert_ne (h : key x ≠ k) (l : List α) : find key k (upsert key x l) = find key k l := by
  induction l with
  | nil => exact find_cons_ne h []
  | cons y l ih =>
      by_cases heq : key y = key x
      · have hy : key y ≠ k := heq ▸ h
        simp [upsert, heq, find_cons_ne h, find_cons_ne hy]
      · simp only [upsert, heq, if_false, find] at ih ⊢
        simp [List.find?_cons, ih]

/-! ## The elements that stay -/

theorem length_le_upsert (x : α) (l : List α) : l.length ≤ (upsert key x l).length := by
  induction l with
  | nil => simp
  | cons y l ih => by_cases h : key y = key x <;> simp [upsert, h, ih]

theorem upsert_ne_nil (x : α) (l : List α) : upsert key x l ≠ [] := by
  cases l with
  | nil => simp [upsert]
  | cons y l => by_cases h : key y = key x <;> simp [upsert, h]

/-- What only other elements have is at most lost with the element that gives way. -/
theorem filterMap_upsert {f : α → Option β} (h : f x = none) (l : List α) :
    ((upsert key x l).filterMap f).Sublist (l.filterMap f) := by
  induction l with
  | nil => simp [upsert, h]
  | cons y l ih =>
      by_cases heq : key y = key x
      · simp only [upsert, heq, if_true, List.filterMap_cons, h]
        cases f y with
        | none => exact List.Sublist.refl _
        | some b => exact List.sublist_cons_self ..
      · simp only [upsert, heq, if_false, List.filterMap_cons]
        cases f y with
        | none => exact ih
        | some b => exact ih.cons_cons b

/-! ## Changes -/

theorem update_eq_self (f : α → α) (h : ∀ y ∈ l, key y ≠ k) : update key k f l = l := by
  induction l with
  | nil => rfl
  | cons y l ih =>
      have hl : update key k f l = l := ih fun z hz => h z (by simp [hz])
      simp [update, h y (by simp), hl]

theorem update_eq_set (f : α → α) (h : ∃ y ∈ l, key y = k) :
    ∃ i y, l[i]? = some y ∧ key y = k ∧ update key k f l = l.set i (f y) := by
  induction l with
  | nil => simp at h
  | cons y l ih =>
      by_cases heq : key y = k
      · exact ⟨0, y, by simp, heq, by simp [update, heq]⟩
      · obtain ⟨i, z, hget, hz, hset⟩ := ih (by simpa [heq] using h)
        exact ⟨i + 1, z, by simpa using hget, hz, by simp [update, heq, hset]⟩

/-! ## The first element of each key -/

/-- The elements whose keys have not been seen before. -/
def firsts (key : α → κ) : (seen : List κ) → List α → List α
  | _, [] => []
  | seen, x :: l => if key x ∈ seen then firsts key seen l else x :: firsts key (key x :: seen) l

attribute [local simp] firsts

variable {seen seen' : List κ}

theorem firsts_cons_of_mem (h : key x ∈ seen) (l : List α) : firsts key seen (x :: l) = firsts key seen l := by
  rw [firsts, if_pos h]

theorem firsts_cons_of_not (h : key x ∉ seen) (l : List α) :
    firsts key seen (x :: l) = x :: firsts key (key x :: seen) l := by
  rw [firsts, if_neg h]

theorem firsts_sublist (seen : List κ) (l : List α) : (firsts key seen l).Sublist l := by
  induction l generalizing seen with
  | nil => exact List.Sublist.refl _
  | cons x l ih =>
      rw [firsts]
      split
      · exact (ih seen).cons x
      · exact (ih _).cons_cons x

/-- The first element of all is kept. -/
theorem firsts_head (h : firsts key [] l = x :: rest) : ∃ rest, l = x :: rest := by
  cases l with
  | nil => cases h
  | cons y l =>
      rw [firsts_cons_of_not List.not_mem_nil] at h
      cases h
      exact ⟨l, rfl⟩

end Keyed

/-!
## The last element with a property
-/

variable {α : Type} {p : α → Prop} {l : List α} {x y next : α} {after rest : List α}

/-- The element has the property, and none behind it does. -/
structure LastWith (p : α → Prop) (l : List α) (x : α) (after : List α) : Prop where
  here : p x
  split : ∃ before, l = before ++ x :: after
  noneAfter : ∀ y ∈ after, ¬ p y

namespace LastWith

theorem concat_cases (h : LastWith p (l ++ [next]) x after) :
    (x = next ∧ after = []) ∨ (¬ p next ∧ ∃ rest, after = rest ++ [next] ∧ LastWith p l x rest) := by
  obtain ⟨hhere, ⟨before, hsplit⟩, hnone⟩ := h
  rcases List.eq_nil_or_concat' after with rfl | ⟨rest, last, rfl⟩
  · have hlast := List.append_inj_right' hsplit rfl
    exact .inl ⟨(List.cons.inj hlast).1.symm, rfl⟩
  · rw [← List.cons_append, ← List.append_assoc] at hsplit
    obtain ⟨hl, hlast⟩ := List.append_inj' hsplit rfl
    obtain rfl := (List.cons.inj hlast).1
    exact .inr ⟨hnone next (by simp), rest, rfl, hhere, ⟨before, hl⟩, fun y hy => hnone y (by simp [hy])⟩

theorem last (h : p next) (l : List α) : LastWith p (l ++ [next]) next [] := ⟨h, ⟨l, rfl⟩, by simp⟩

theorem concat (h : LastWith p l x after) (hnext : ¬ p next) : LastWith p (l ++ [next]) x (after ++ [next]) := by
  obtain ⟨hhere, ⟨before, rfl⟩, hnone⟩ := h
  refine ⟨hhere, ⟨before, by simp⟩, fun y hy => ?_⟩
  rcases List.mem_append.mp hy with hy | hy
  · exact hnone y hy
  · rw [List.mem_singleton.mp hy]
    exact hnext

theorem mem (h : LastWith p l x after) : x ∈ l := by
  obtain ⟨before, rfl⟩ := h.split
  simp

theorem exists_of_mem (hx : x ∈ l) (h : p x) : ∃ last after, LastWith p l last after := by
  induction l using List.reverseRecOn with
  | nil => cases hx
  | append_singleton l next ih =>
      by_cases hnext : p next
      · exact ⟨next, [], last hnext l⟩
      · have hmem : x ∈ l := by
          rcases List.mem_append.mp hx with hx | hx
          · exact hx
          · exact absurd (List.mem_singleton.mp hx ▸ h) hnext
        obtain ⟨found, after, hfound⟩ := ih hmem
        exact ⟨found, after ++ [next], hfound.concat hnext⟩

theorem unique (h : LastWith p l x after) (h' : LastWith p l y rest) : x = y ∧ after = rest := by
  induction l using List.reverseRecOn generalizing after rest with
  | nil => exact absurd h.mem List.not_mem_nil
  | append_singleton l next ih =>
      rcases h.concat_cases with ⟨rfl, rfl⟩ | ⟨hnext, first, rfl, hfirst⟩
      · rcases h'.concat_cases with ⟨rfl, rfl⟩ | ⟨hnext, -⟩
        · exact ⟨rfl, rfl⟩
        · exact absurd h.here hnext
      · rcases h'.concat_cases with ⟨rfl, -⟩ | ⟨-, second, rfl, hsecond⟩
        · exact absurd h'.here hnext
        · obtain ⟨rfl, rfl⟩ := ih hfirst hsecond
          exact ⟨rfl, rfl⟩

end LastWith
