import Codrex.Lib.Entries
import Mathlib.Order.Bounds.Basic

/-!
# Numbered items in their order

Items carry numbers from 1 on and may come in any order, more than once. A buffer gives them out in the order of
their numbers, each once, and holds back what comes too early.
-/

namespace Reorder

variable {α : Type}

structure Buffer (α : Type) where
  last : Nat
  pending : AList fun _ : Nat => α

namespace Buffer

def empty : Buffer α := ⟨0, ∅⟩

/-- Gives out items as long as the next one is there; each round takes one out of the pending ones. -/
def drain : Nat → Buffer α → Buffer α × List α
  | 0, buffer => (buffer, [])
  | rounds + 1, buffer =>
      match buffer.pending.lookup (buffer.last + 1) with
      | none => (buffer, [])
      | some item =>
          let (buffer, items) := drain rounds ⟨buffer.last + 1, buffer.pending.erase (buffer.last + 1)⟩
          (buffer, item :: items)

/-- The first item with a number is kept. -/
def hold (buffer : Buffer α) (number : Nat) (item : α) : Buffer α :=
  match buffer.pending.lookup number with
  | some _ => buffer
  | none => { buffer with pending := buffer.pending.insert number item }

def offer (buffer : Buffer α) (number : Nat) (item : α) : Buffer α × List α :=
  if number ≤ buffer.last then (buffer, [])
  else
    let buffer := buffer.hold number item
    buffer.drain buffer.pending.entries.length

end Buffer

/-- All of 1 to `k` have come, and not `k + 1`. -/
def GapFree (received : List Nat) (k : Nat) : Prop :=
  IsGreatest {k | ∀ number, 1 ≤ number → number ≤ k → number ∈ received} k

/-- The buffer holds items of the source only, and has seen the received numbers. -/
structure Holds (source : List α) (received : List Nat) (buffer : Buffer α) : Prop where
  pending : ∀ number item, buffer.pending.lookup number = some item →
    buffer.last < number ∧ source[number - 1]? = some item
  last : buffer.last ≤ source.length
  seen : ∀ number, number ∈ received ↔
    (1 ≤ number ∧ number ≤ buffer.last) ∨ (buffer.pending.lookup number).isSome = true

variable {source more : List α} {received : List Nat} {buffer : Buffer α} {number : Nat} {item : α}

theorem holds_empty (source : List α) : Holds source [] Buffer.empty := by
  refine ⟨nofun, Nat.zero_le _, ?_⟩
  intro number
  simp only [Buffer.empty, List.not_mem_nil, AList.lookup_empty, Option.isSome_none, Bool.false_eq_true, or_false,
    false_iff]
  omega

theorem Holds.append (h : Holds source received buffer) : Holds (source ++ more) received buffer := by
  refine ⟨?_, ?_, h.seen⟩
  · intro number item hpending
    obtain ⟨hlt, hget⟩ := h.pending number item hpending
    exact ⟨hlt, (List.getElem?_append_left (List.getElem?_eq_some_iff.mp hget).1).trans hget⟩
  · rw [List.length_append]
    exact Nat.le_add_right_of_le h.last

theorem Holds.hold (h : Holds source received buffer) (hlt : buffer.last < number)
    (hget : source[number - 1]? = some item) :
    Holds source (number :: received) (buffer.hold number item) := by
  rw [Buffer.hold]
  split
  · rename_i other hlookup
    refine ⟨h.pending, h.last, ?_⟩
    intro number'
    rw [List.mem_cons, ← h.seen number']
    refine ⟨?_, .inr⟩
    rintro (rfl | hseen)
    · exact (h.seen number').mpr (.inr (by rw [hlookup]; rfl))
    · exact hseen
  · rename_i hlookup
    refine ⟨?_, h.last, ?_⟩
    · intro number' item' hlookup'
      rcases Assoc.lookup_insert.mp hlookup' with ⟨rfl, rfl⟩ | ⟨-, hlookup'⟩
      · exact ⟨hlt, hget⟩
      · exact h.pending number' item' hlookup'
    · intro number'
      rw [List.mem_cons, h.seen number']
      by_cases heq : number' = number
      · rw [heq, AList.lookup_insert]
        simp
      · rw [AList.lookup_insert_ne heq]
        simp [heq]

/-- A round of the loop moves the next item from the pending ones to those given out. -/
theorem Holds.take (h : Holds source received buffer) (hlookup : buffer.pending.lookup (buffer.last + 1) = some item) :
    Holds source received ⟨buffer.last + 1, buffer.pending.erase (buffer.last + 1)⟩ ∧
      source.take (buffer.last + 1) = source.take buffer.last ++ [item] := by
  obtain ⟨-, hget⟩ := h.pending _ item hlookup
  rw [Nat.add_sub_cancel] at hget
  obtain ⟨hlt, heq⟩ := List.getElem?_eq_some_iff.mp hget
  refine ⟨⟨?_, hlt, ?_⟩, ?_⟩
  · intro number item' hlookup'
    obtain ⟨hne, hlookup'⟩ := Assoc.lookup_erase.mp hlookup'
    obtain ⟨hlast, hget'⟩ := h.pending number item' hlookup'
    exact ⟨by dsimp only; omega, hget'⟩
  · intro number
    rw [h.seen number]
    by_cases hne : number = buffer.last + 1
    · rw [hne, hlookup]
      simp
    · rw [AList.lookup_erase_ne hne]
      dsimp only
      have hrange : 1 ≤ number ∧ number ≤ buffer.last ↔ 1 ≤ number ∧ number ≤ buffer.last + 1 := by omega
      rw [hrange]
  · rw [List.take_add_one, hget]
    rfl

/-- With as many rounds as there are pending items, the loop goes on to the first gap. -/
theorem Holds.drain (h : Holds source received buffer) {rounds : Nat}
    (hrounds : buffer.pending.entries.length ≤ rounds) :
    Holds source received (buffer.drain rounds).1 ∧
      (buffer.drain rounds).1.pending.lookup ((buffer.drain rounds).1.last + 1) = none ∧
      source.take (buffer.drain rounds).1.last = source.take buffer.last ++ (buffer.drain rounds).2 := by
  induction rounds generalizing buffer with
  | zero =>
      refine ⟨h, ?_, (List.append_nil _).symm⟩
      rw [Buffer.drain]
      cases hlookup : buffer.pending.lookup (buffer.last + 1) with
      | none => rfl
      | some item =>
          have hlength := Assoc.length_erase hlookup
          omega
  | succ rounds ih =>
      rw [Buffer.drain]
      split
      · rename_i hlookup
        exact ⟨h, hlookup, (List.append_nil _).symm⟩
      · rename_i item hlookup
        obtain ⟨hholds, htake⟩ := h.take hlookup
        have hlength := Assoc.length_erase hlookup
        obtain ⟨hholds', hgap, htake'⟩ := ih hholds (by dsimp only; omega)
        refine ⟨hholds', hgap, ?_⟩
        rw [htake', htake, List.append_assoc]
        rfl

/-- The buffer has given out all items up to the first gap. -/
structure Released (source : List α) (received : List Nat) (buffer : Buffer α) : Prop extends
    Holds source received buffer where
  gap : buffer.pending.lookup (buffer.last + 1) = none

theorem released_empty (source : List α) : Released source [] Buffer.empty := ⟨holds_empty source, rfl⟩

theorem Released.append (h : Released source received buffer) : Released (source ++ more) received buffer :=
  ⟨h.toHolds.append, h.gap⟩

/-- What is offered a second time changes nothing. -/
theorem Released.again (h : Released source received buffer) (hpos : 0 < number) (hle : number ≤ buffer.last) :
    Released source (number :: received) buffer := by
  refine ⟨⟨h.pending, h.last, ?_⟩, h.gap⟩
  intro number'
  rw [List.mem_cons, ← h.seen number']
  refine ⟨?_, .inr⟩
  rintro (rfl | hseen)
  · exact (h.seen number').mpr (.inl ⟨hpos, hle⟩)
  · exact hseen

theorem Released.offer (h : Released source received buffer) (hpos : 0 < number)
    (hget : source[number - 1]? = some item) :
    Released source (number :: received) (buffer.offer number item).1 ∧
      source.take (buffer.offer number item).1.last = source.take buffer.last ++ (buffer.offer number item).2 := by
  rw [Buffer.offer]
  split
  · rename_i hle
    exact ⟨h.again hpos hle, (List.append_nil _).symm⟩
  · rename_i hlt
    have hlast : (buffer.hold number item).last = buffer.last := by
      rw [Buffer.hold]
      split <;> rfl
    obtain ⟨hholds, hgap, htake⟩ := (h.toHolds.hold (by omega) hget).drain (Nat.le_refl _)
    rw [hlast] at htake
    exact ⟨⟨hholds, hgap⟩, htake⟩

theorem Released.gapFree (h : Released source received buffer) : GapFree received buffer.last := by
  refine ⟨fun number hpos hle => (h.seen number).mpr (.inl ⟨hpos, hle⟩), ?_⟩
  intro k hk
  by_contra hlt
  have hseen := (h.seen (buffer.last + 1)).mp (hk _ (by omega) (by omega))
  rw [h.gap] at hseen
  rcases hseen with ⟨-, hle⟩ | hsome
  · omega
  · cases hsome

/-- When all items have come, all are given out. -/
theorem Released.complete (h : Released source received buffer)
    (hall : ∀ number, 1 ≤ number → number ≤ source.length → number ∈ received) : buffer.last = source.length :=
  Nat.le_antisymm h.last (h.gapFree.2 hall)

end Reorder
