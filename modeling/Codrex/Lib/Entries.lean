import Mathlib.Algebra.GroupWithZero.Nat
import Mathlib.Data.List.AList
import Mathlib.Data.List.Nodup
import Mathlib.Tactic.Common

/-!
# Maps as association lists

What is found in an `AList` after one entry is written or erased, and what its values add up to.
-/

namespace Assoc

variable {κ ν : Type} [DecidableEq κ] {map : AList fun _ : κ => ν} {key found : κ} {value result : ν}

theorem lookup_erase : (map.erase key).lookup found = some result ↔ found ≠ key ∧ map.lookup found = some result := by
  by_cases h : found = key
  · rw [h, AList.lookup_erase]
    simp
  · rw [AList.lookup_erase_ne h]
    simp [h]

theorem lookup_insert : (map.insert key value).lookup found = some result ↔
    (found = key ∧ value = result) ∨ (found ≠ key ∧ map.lookup found = some result) := by
  by_cases h : found = key
  · rw [h, AList.lookup_insert]
    simp
  · rw [AList.lookup_insert_ne h]
    simp [h]

theorem entries_erase (map : AList fun _ : κ => ν) (key : κ) : (map.erase key).entries = map.entries.kerase key := rfl

theorem length_erase (h : map.lookup key = some value) :
    (map.erase key).entries.length + 1 = map.entries.length := by
  have hkey : key ∈ map := AList.lookup_isSome.mp (by rw [h]; rfl)
  obtain ⟨_, before, after, -, hentries, herase⟩ := List.exists_of_kerase hkey
  have hlength : (map.erase key).entries.length = (before ++ after).length := by rw [← herase, entries_erase]
  rw [hlength, hentries]
  simp only [List.length_append, List.length_cons]
  omega

def sumValues (f : ν → Nat) (map : AList fun _ : κ => ν) : Nat := (map.entries.map fun entry => f entry.2).sum

theorem sumValues_insert (f : ν → Nat) :
    sumValues f (map.insert key value) = f value + sumValues f (map.erase key) := by
  rw [sumValues, AList.entries_insert]
  rfl

theorem sumValues_erase (f : ν → Nat) (key : κ) :
    sumValues f map = ((map.lookup key).map f).getD 0 + sumValues f (map.erase key) := by
  cases h : map.lookup key with
  | none =>
      have hkey : key ∉ map := AList.lookup_eq_none.mp h
      simp [sumValues, entries_erase, List.kerase_of_notMem_keys hkey]
  | some value =>
      have hkey : key ∈ map := AList.lookup_isSome.mp (by rw [h]; rfl)
      obtain ⟨found, before, after, -, hentries, herase⟩ := List.exists_of_kerase hkey
      have hfound : map.lookup key = some found := AList.mem_lookup_iff.mpr (by simp [hentries])
      obtain rfl : value = found := Option.some.inj (h.symm.trans hfound)
      have hsum : sumValues f (map.erase key) = ((before ++ after).map fun entry => f entry.2).sum := by
        rw [sumValues, entries_erase, ← herase]
      rw [hsum, sumValues, hentries]
      simp only [List.map_append, List.map_cons, List.sum_append, List.sum_cons, Option.map_some, Option.getD_some]
      omega

end Assoc

/-!
## Maps as lists of entries

What `List.lookup` finds in a list of pairs after one is written or erased. The keys of a map stand once.
-/

namespace Entries

variable {κ ν μ : Type} [DecidableEq κ] [BEq κ] [LawfulBEq κ] {entries : List (κ × ν)} {key other : κ} {value : ν}

def keys (entries : List (κ × ν)) : List κ := entries.map Prod.fst

omit [DecidableEq κ] in
theorem mem_of_lookup (h : entries.lookup key = some value) : (key, value) ∈ entries := by
  obtain ⟨front, back, rfl, -⟩ := List.lookup_eq_some_iff.mp h
  simp

omit [DecidableEq κ] in
theorem lookup_eq_none : entries.lookup key = none ↔ key ∉ keys entries := by
  simp only [keys, List.lookup_eq_none_iff, List.mem_map, not_exists, not_and, bne_iff_ne, ne_eq]
  exact ⟨fun h entry hmem heq => h entry hmem heq.symm, fun h entry hmem heq => h entry hmem heq.symm⟩

theorem lookup_cons_eq (first : κ) (own : ν) (entries : List (κ × ν)) :
    ((first, own) :: entries).lookup key = if key = first then some own else entries.lookup key := by
  rw [List.lookup_cons]
  by_cases h : key = first
  · simp [h]
  · have hbeq : (key == first) = false := by simpa using h
    rw [hbeq, if_neg h]

theorem lookup_of_mem (hnodup : (keys entries).Nodup) (h : (key, value) ∈ entries) : entries.lookup key = some value := by
  induction entries with
  | nil => cases h
  | cons entry entries ih =>
      obtain ⟨first, own⟩ := entry
      obtain ⟨hnot, hrest⟩ := List.nodup_cons.mp hnodup
      rw [lookup_cons_eq]
      rcases List.mem_cons.mp h with heq | hmem
      · cases heq
        exact if_pos rfl
      · have hkey : key ∈ keys entries := List.mem_map_of_mem hmem
        have hne : key ≠ first := by
          rintro rfl
          exact hnot hkey
        rw [if_neg hne]
        exact ih hrest hmem

/-! ## Writing and erasing -/

def erase (key : κ) (entries : List (κ × ν)) : List (κ × ν) := entries.filter fun entry => entry.1 ≠ key

/-- An entry is written in its place, or at the end if there is none. -/
def upsert (key : κ) (value : ν) (entries : List (κ × ν)) : List (κ × ν) :=
  if (entries.lookup key).isSome then entries.map fun entry => if entry.1 = key then (key, value) else entry
  else entries ++ [(key, value)]

theorem lookup_erase (entries : List (κ × ν)) :
    (erase key entries).lookup other = if other = key then none else entries.lookup other := by
  induction entries with
  | nil => simp [erase]
  | cons entry entries ih =>
      obtain ⟨first, own⟩ := entry
      rw [lookup_cons_eq]
      by_cases hfirst : first = key
      · have herase : erase key ((first, own) :: entries) = erase key entries := by simp [erase, hfirst]
        rw [herase, ih]
        by_cases hother : other = key
        · simp [hother]
        · rw [if_neg hother, if_neg hother, if_neg fun heq => hother (heq.trans hfirst)]
      · have herase : erase key ((first, own) :: entries) = (first, own) :: erase key entries := by simp [erase, hfirst]
        rw [herase, lookup_cons_eq, ih]
        by_cases hother : other = first
        · rw [if_pos hother, if_neg fun heq => hfirst (hother.symm.trans heq), if_pos hother]
        · rw [if_neg hother, if_neg hother]

theorem lookup_overwrite (entries : List (κ × ν)) :
    (entries.map fun entry => if entry.1 = key then (key, value) else entry).lookup other =
      if other = key then (entries.lookup key).map fun _ => value else entries.lookup other := by
  induction entries with
  | nil => simp
  | cons entry entries ih =>
      obtain ⟨first, own⟩ := entry
      rw [List.map_cons]
      by_cases hfirst : first = key
      · subst hfirst
        rw [if_pos rfl, lookup_cons_eq, ih, lookup_cons_eq, lookup_cons_eq]
        by_cases hother : other = first
        · simp [hother]
        · simp [hother]
      · rw [if_neg hfirst, lookup_cons_eq, ih, lookup_cons_eq, lookup_cons_eq]
        by_cases hother : other = first
        · rw [if_pos hother, if_neg fun heq => hfirst (hother.symm.trans heq), if_pos hother]
        · simp [hother, Ne.symm hfirst]

theorem lookup_upsert (entries : List (κ × ν)) :
    (upsert key value entries).lookup other = if other = key then some value else entries.lookup other := by
  rw [upsert]
  split
  next hsome =>
    obtain ⟨own, hown⟩ := Option.isSome_iff_exists.mp hsome
    rw [lookup_overwrite, hown]
    rfl
  next hnone =>
    have hkey : entries.lookup key = none := Option.not_isSome_iff_eq_none.mp hnone
    rw [List.lookup_append, lookup_cons_eq]
    by_cases hother : other = key
    · simp [hother, hkey]
    · simp [hother]

omit [BEq κ] [LawfulBEq κ] in
theorem nodup_erase (h : (keys entries).Nodup) : (keys (erase key entries)).Nodup :=
  h.sublist (List.filter_sublist.map Prod.fst)

omit [DecidableEq κ] in
theorem nodup_concat (h : (keys entries).Nodup) (hkey : entries.lookup key = none) :
    (keys (entries ++ [(key, value)])).Nodup := by
  have hnot := lookup_eq_none.mp hkey
  rw [keys, List.map_append, List.map_singleton, List.nodup_append]
  refine ⟨h, List.nodup_singleton _, fun own hown last hlast heq => ?_⟩
  obtain rfl : own = key := heq.trans (List.mem_singleton.mp hlast)
  exact hnot hown

theorem nodup_upsert (h : (keys entries).Nodup) : (keys (upsert key value entries)).Nodup := by
  rw [upsert]
  split
  · have hkeys : keys (entries.map fun entry => if entry.1 = key then (key, value) else entry) = keys entries := by
      rw [keys, List.map_map]
      apply List.map_congr_left
      intro entry _
      by_cases heq : entry.1 = key
      · simp [heq]
      · simp [heq]
    rw [hkeys]
    exact h
  next hnone => exact nodup_concat h (Option.not_isSome_iff_eq_none.mp hnone)

/-! ## Values -/

theorem lookup_map (f : κ → ν → μ) (entries : List (κ × ν)) :
    (entries.map fun entry => (entry.1, f entry.1 entry.2)).lookup key = (entries.lookup key).map (f key) := by
  induction entries with
  | nil => rfl
  | cons entry entries ih =>
      obtain ⟨first, own⟩ := entry
      rw [List.map_cons, lookup_cons_eq, lookup_cons_eq, ih]
      by_cases h : key = first
      · simp [h]
      · simp [h]

/-- Each of the updates is made of the value that is there before. -/
def updateAll (combine : κ → Option ν → μ → ν) (updates : List (κ × μ)) (entries : List (κ × ν)) : List (κ × ν) :=
  updates.foldl (fun entries update =>
    upsert update.1 (combine update.1 (entries.lookup update.1) update.2) entries) entries

theorem lookup_updateAll (combine : κ → Option ν → μ → ν) {updates : List (κ × μ)} (h : (keys updates).Nodup)
    (entries : List (κ × ν)) : (updateAll combine updates entries).lookup key =
      match updates.lookup key with
      | none => entries.lookup key
      | some update => some (combine key (entries.lookup key) update) := by
  induction updates generalizing entries with
  | nil => rfl
  | cons update updates ih =>
      obtain ⟨first, own⟩ := update
      obtain ⟨hnot, hrest⟩ := List.nodup_cons.mp h
      have hstep : updateAll combine ((first, own) :: updates) entries =
        updateAll combine updates (upsert first (combine first (entries.lookup first) own) entries) := rfl
      rw [hstep, ih hrest, lookup_cons_eq, lookup_upsert]
      by_cases hkey : key = first
      · subst hkey
        have hnone : updates.lookup key = none := lookup_eq_none.mpr hnot
        simp [hnone]
      · simp [hkey]

theorem nodup_updateAll (combine : κ → Option ν → μ → ν) (updates : List (κ × μ)) {entries : List (κ × ν)}
    (h : (keys entries).Nodup) : (keys (updateAll combine updates entries)).Nodup := by
  induction updates generalizing entries with
  | nil => exact h
  | cons update updates ih => exact ih (nodup_upsert h)

end Entries
