import Mathlib.Tactic.Common

/-!
# A stack with rollbacks, from its end

Elements are pushed on a stack, and a rollback pops until it has popped so many that count. What is left can be found
without the stack, from the newest event to the oldest: the pops that wait are added up and passed by at the next
elements. The sum may stop at a cap that no stack reaches.
-/

namespace RollbackStack

variable {α : Type} (counts : α → Bool)

inductive Event (α : Type)
  | push (element : α)
  | rollback (n : Nat)

/-- The top is the head. -/
def pop : Nat → List α → List α
  | 0, stack => stack
  | _ + 1, [] => []
  | n + 1, top :: stack => if counts top then pop n stack else pop (n + 1) stack

def apply (stack : List α) : Event α → List α
  | .push element => element :: stack
  | .rollback n => pop counts n stack

def stackOf (events : List (Event α)) : List α := events.foldl (apply counts) []

/-- One event before the others: the pops that wait, and what survives of the others. -/
def before (cap : Nat) (event : Event α) (scan : Nat × List α) : Nat × List α :=
  match event, scan with
  | .push element, (0, survivors) => (0, survivors ++ [element])
  | .push element, (n + 1, survivors) => (if counts element then n else n + 1, survivors)
  | .rollback n, (pending, survivors) => (min (pending + n) cap, survivors)

def fromEnd (cap : Nat) (events : List (Event α)) : Nat × List α := events.foldr (before counts cap) (0, [])

variable {counts}

theorem pop_zero (stack : List α) : pop counts 0 stack = stack := by
  cases stack <;> rfl

theorem pop_nil (n : Nat) : pop counts n [] = [] := by
  cases n <;> rfl

theorem pop_cons (n : Nat) (top : α) (stack : List α) :
    pop counts (n + 1) (top :: stack) = if counts top then pop counts n stack else pop counts (n + 1) stack := rfl

theorem length_pop_le (n : Nat) (stack : List α) : (pop counts n stack).length ≤ stack.length := by
  induction stack generalizing n with
  | nil => exact Nat.le_of_eq (congrArg List.length (pop_nil n))
  | cons top stack ih =>
      cases n with
      | zero => exact Nat.le_refl _
      | succ n =>
          rw [pop_cons]
          split
          · exact Nat.le_succ_of_le (ih n)
          · exact Nat.le_succ_of_le (ih (n + 1))

theorem pop_pop (m n : Nat) (stack : List α) : pop counts m (pop counts n stack) = pop counts (m + n) stack := by
  induction stack generalizing n with
  | nil => simp [pop_nil]
  | cons top stack ih =>
      cases n with
      | zero => rfl
      | succ n =>
          rw [pop_cons, ← Nat.add_assoc, pop_cons]
          split
          · exact ih n
          · exact ih (n + 1)

theorem pop_eq_nil {n : Nat} {stack : List α} (h : stack.length < n) : pop counts n stack = [] := by
  induction stack generalizing n with
  | nil => exact pop_nil n
  | cons top stack ih =>
      cases n with
      | zero => exact absurd h (Nat.not_lt_zero _)
      | succ n =>
          simp only [List.length_cons] at h
          rw [pop_cons]
          split
          · exact ih (by omega)
          · exact ih (by omega)

theorem pop_min {cap : Nat} (n : Nat) {stack : List α} (h : stack.length < cap) :
    pop counts (min n cap) stack = pop counts n stack := by
  by_cases hle : n ≤ cap
  · rw [Nat.min_eq_left hle]
  · rw [pop_eq_nil (by omega), pop_eq_nil (by omega)]

/-- What survives comes on top, and the pops that wait are done below it. -/
theorem foldl_apply {cap : Nat} {events : List (Event α)} {stack : List α} (h : stack.length + events.length < cap) :
    events.foldl (apply counts) stack =
      (fromEnd counts cap events).2 ++ pop counts (fromEnd counts cap events).1 stack := by
  induction events generalizing stack with
  | nil => exact (pop_zero stack).symm
  | cons event events ih =>
      simp only [List.length_cons] at h
      have hlast : fromEnd counts cap (event :: events) = before counts cap event (fromEnd counts cap events) := rfl
      rw [List.foldl_cons, hlast]
      cases event with
      | push element =>
          rw [ih (by simp only [apply, List.length_cons]; omega)]
          cases hscan : fromEnd counts cap events with
          | mk pending survivors =>
              cases pending with
              | zero => simp [before, apply, pop_zero]
              | succ n =>
                  simp only [before, apply, pop_cons]
                  split
                  · rfl
                  · rfl
      | rollback n =>
          have hlength : (pop counts n stack).length ≤ stack.length := length_pop_le n stack
          rw [ih (by simp only [apply]; omega), apply, pop_pop]
          simp only [before]
          rw [pop_min _ (by omega)]

theorem stackOf_eq_fromEnd {cap : Nat} {events : List (Event α)} (h : events.length < cap) :
    stackOf counts events = (fromEnd counts cap events).2 := by
  rw [stackOf, foldl_apply (by simpa using h), pop_nil, List.append_nil]

end RollbackStack
