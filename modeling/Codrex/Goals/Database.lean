import Codrex.Goals.Session
import Codrex.Lib.Transition

/-!
# The goals of all threads

`state/src/runtime/goals.rs`: every statement is about the row of one thread. What any sequence of them keeps.
-/

namespace Codrex.Goals

open Text Transition

abbrev ThreadId := Nat

inductive Operation
  | replace (objective : Str) (status : ThreadGoalStatus) (tokenBudget : Option Int)
  | insert (objective : Str) (status : ThreadGoalStatus) (tokenBudget : Option Int)
  | update (changes : ThreadGoalUpdate)
  | pauseActive
  | account (timeDeltaSeconds tokenDelta : Int) (mode : ThreadGoalAccountingMode) (expectedGoalId : Option GoalId)
  | delete

namespace Operation

def apply (store : Store) : Operation → Store
  | .replace objective status tokenBudget => (store.replaceThreadGoal objective status tokenBudget).1
  | .insert objective status tokenBudget => (store.insertThreadGoal objective status tokenBudget).1
  | .update changes => (store.updateThreadGoal changes).1
  | .pauseActive => store.pauseActiveThreadGoal.1
  | .account timeDeltaSeconds tokenDelta mode expectedGoalId =>
      (store.accountThreadGoalUsage timeDeltaSeconds tokenDelta mode expectedGoalId).1
  | .delete => store.deleteThreadGoal.1

def expectedGoalId : Operation → Option GoalId
  | .update changes => changes.expectedGoalId
  | .account _ _ _ expectedGoalId => expectedGoalId
  | _ => none

/-- The operations that may give a complete goal another status. -/
def setsStatus : Operation → Bool
  | .replace _ _ _ => true
  | .update _ => true
  | _ => false

end Operation

/-- The table, and the number that the next random id gets. -/
structure Database where
  goals : ThreadId → Option ThreadGoal
  nextUuid : GoalId

namespace Database

def empty : Database := ⟨fun _ => none, 0⟩

def store (database : Database) (thread : ThreadId) : Store := ⟨database.goals thread, database.nextUuid⟩

def step (database : Database) : ThreadId × Operation → Database
  | (thread, operation) =>
      let store := operation.apply (database.store thread)
      ⟨Function.update database.goals thread store.goal, store.nextUuid⟩

end Database

/-- An active goal has not used up its budget. -/
def ThreadGoal.WithinBudget (goal : ThreadGoal) : Prop :=
  goal.status = .active → ∀ budget ∈ goal.tokenBudget, goal.tokensUsed < budget

/-! ## The status rule -/

theorem overBudget_eq_false_iff {tokensUsed : Int} {tokenBudget : Option Int} :
    overBudget tokensUsed tokenBudget = false ↔ ∀ budget ∈ tokenBudget, tokensUsed < budget := by
  cases tokenBudget with
  | none => simp [overBudget]
  | some budget => simp [overBudget]

theorem statusAfterBudgetLimit_active {status : ThreadGoalStatus} {tokensUsed : Int} {tokenBudget : Option Int}
    (h : statusAfterBudgetLimit status tokensUsed tokenBudget = .active) :
    overBudget tokensUsed tokenBudget = false := by
  rw [statusAfterBudgetLimit] at h
  split at h
  · cases h
  next hlimited =>
    rw [Bool.eq_false_iff]
    exact fun hover => hlimited ⟨h, hover⟩

theorem updatedStatus_active {goal : ThreadGoal} {status : ThreadGoalStatus} {tokenBudget : Option Int}
    (h : Store.updatedStatus goal status tokenBudget = .active) : overBudget goal.tokensUsed tokenBudget = false := by
  rw [Store.updatedStatus] at h
  split at h
  next hlimited =>
    rw [hlimited.1] at h
    cases h
  · split at h
    · cases h
    next hover =>
      rw [Bool.eq_false_iff]
      exact fun hlimit => hover ⟨h, hlimit⟩

theorem withinBudget_newGoal (store : Store) (objective : Str) (status : ThreadGoalStatus) (tokenBudget : Option Int) :
    (store.newGoal objective status tokenBudget).WithinBudget :=
  fun hactive => overBudget_eq_false_iff.mp (statusAfterBudgetLimit_active hactive)

theorem withinBudget_updateRow {goal : ThreadGoal} (h : goal.WithinBudget) (changes : ThreadGoalUpdate) :
    (Store.updateRow goal changes).WithinBudget := by
  rw [Store.updateRow]
  split
  next status tokenBudget _ _ =>
    intro hactive
    have hunder : overBudget goal.tokensUsed tokenBudget = false := updatedStatus_active hactive
    exact overBudget_eq_false_iff.mp hunder
  next status _ _ =>
    intro hactive
    have hunder : overBudget goal.tokensUsed goal.tokenBudget = false := updatedStatus_active hactive
    exact overBudget_eq_false_iff.mp hunder
  next tokenBudget _ _ =>
    intro hactive
    have hunder : overBudget goal.tokensUsed tokenBudget = false := statusAfterBudgetLimit_active hactive
    exact overBudget_eq_false_iff.mp hunder
  next => exact h

/-! ## One operation -/

/-- The usage only grows. -/
def UsageLe (goal later : ThreadGoal) : Prop :=
  goal.tokensUsed ≤ later.tokensUsed ∧ goal.timeUsedSeconds ≤ later.timeUsedSeconds

/-- What an operation makes of the row that was there: nothing, a goal with a new id, no goal at all, or the same goal
with at least the usage it had. -/
inductive RowStep (store : Store) : Operation → Store → Prop
  | unchanged (operation : Operation) (nextUuid : GoalId) (hnext : store.nextUuid ≤ nextUuid) :
      RowStep store operation ⟨store.goal, nextUuid⟩
  | created (operation : Operation) (goal : ThreadGoal) (hid : goal.goalId = store.nextUuid)
      (hbudget : goal.WithinBudget) (hexpected : operation.expectedGoalId = none)
      (hstatus : store.goal = none ∨ operation.setsStatus = true) :
      RowStep store operation ⟨some goal, store.nextUuid + 1⟩
  | deleted : RowStep store .delete ⟨none, store.nextUuid⟩
  | changed (operation : Operation) (goal later : ThreadGoal) (hgoal : store.goal = some goal)
      (hid : later.goalId = goal.goalId) (husage : UsageLe goal later)
      (hbudget : goal.WithinBudget → later.WithinBudget)
      (hexpected : operation.expectedGoalId.all (· = goal.goalId) = true)
      (hstatus : goal.status = .complete → later.status = .complete ∨ operation.setsStatus = true) :
      RowStep store operation ⟨some later, store.nextUuid⟩

variable {store : Store} {operation : Operation}

theorem RowStep.refl (store : Store) (operation : Operation) : RowStep store operation store :=
  .unchanged operation store.nextUuid (Nat.le_refl _)

theorem rowStep_update (store : Store) (changes : ThreadGoalUpdate) :
    RowStep store (.update changes) (store.updateThreadGoal changes).1 := by
  rw [Store.updateThreadGoal]
  split
  · exact RowStep.refl store _
  next goal hgoal =>
    split
    next hexpected =>
      refine .changed _ goal _ hgoal ?_ ?_ (fun h => withinBudget_updateRow h changes) hexpected (fun _ => .inr rfl)
      · unfold Store.updateRow
        split <;> rfl
      · unfold Store.updateRow UsageLe
        split <;> exact ⟨Int.le_refl _, Int.le_refl _⟩
    · exact RowStep.refl store _

theorem rowStep_pauseActive (store : Store) : RowStep store .pauseActive store.pauseActiveThreadGoal.1 := by
  rw [Store.pauseActiveThreadGoal]
  split
  next goal hgoal =>
    split
    next hactive =>
      refine .changed _ goal _ hgoal rfl ⟨Int.le_refl _, Int.le_refl _⟩ (fun _ hpaused => ?_) rfl fun hcomplete => ?_
      · cases hpaused
      · rw [hactive] at hcomplete
        cases hcomplete
    · exact RowStep.refl store _
  · exact RowStep.refl store _

theorem rowStep_account (store : Store) (timeDeltaSeconds tokenDelta : Int) (mode : ThreadGoalAccountingMode)
    (expectedGoalId : Option GoalId) : RowStep store (.account timeDeltaSeconds tokenDelta mode expectedGoalId)
      (store.accountThreadGoalUsage timeDeltaSeconds tokenDelta mode expectedGoalId).1 := by
  unfold Store.accountThreadGoalUsage
  dsimp only
  split
  · exact RowStep.refl store _
  · split
    · exact RowStep.refl store _
    next goal hgoal =>
      split
      next hfilter =>
        refine .changed _ goal _ hgoal rfl ⟨?_, ?_⟩ (fun _ hactive => ?_) hfilter.2 fun hcomplete => .inl ?_
        · dsimp only
          omega
        · dsimp only
          omega
        · -- every mode watches the budget of an active goal
          have hwatched : Store.budgetLimitStatusFilter mode .active = true := by cases mode <;> rfl
          dsimp only at hactive ⊢
          split at hactive
          · cases hactive
          next hlimited =>
            rw [hactive, hwatched, Bool.true_and, Bool.not_eq_true] at hlimited
            exact overBudget_eq_false_iff.mp hlimited
        · have hunwatched : Store.budgetLimitStatusFilter mode .complete = false := by cases mode <;> rfl
          simp [hcomplete, hunwatched]
      · exact RowStep.refl store _

theorem rowStep_apply (store : Store) (operation : Operation) : RowStep store operation (operation.apply store) := by
  cases operation with
  | replace objective status tokenBudget =>
      exact .created _ _ rfl (withinBudget_newGoal store objective status tokenBudget) rfl (.inr rfl)
  | insert objective status tokenBudget =>
      rw [Operation.apply, Store.insertThreadGoal]
      split
      · exact .unchanged _ _ (Nat.le_succ _)
      next hnone => exact .created _ _ rfl (withinBudget_newGoal store objective status tokenBudget) rfl (.inl hnone)
  | update changes => exact rowStep_update store changes
  | pauseActive => exact rowStep_pauseActive store
  | account timeDeltaSeconds tokenDelta mode expectedGoalId =>
      exact rowStep_account store timeDeltaSeconds tokenDelta mode expectedGoalId
  | delete => exact .deleted

/-! ## Runs -/

namespace Database

variable {database : Database} {thread : ThreadId} {goal later : ThreadGoal}

/-- Every goal is within its budget, and its id was given before. -/
structure Inv (database : Database) : Prop where
  budget : ∀ thread, ∀ goal ∈ database.goals thread, goal.WithinBudget
  given : ∀ thread, ∀ goal ∈ database.goals thread, goal.goalId < database.nextUuid

theorem inv_empty : empty.Inv := by
  constructor
  · intro thread goal hgoal
    cases hgoal
  · intro thread goal hgoal
    cases hgoal

theorem goals_step_self (database : Database) (thread : ThreadId) (operation : Operation) :
    (database.step (thread, operation)).goals thread = (operation.apply (database.store thread)).goal := by
  simp [step]

theorem goals_step_of_ne (database : Database) {thread other : ThreadId} (hne : other ≠ thread) (operation : Operation) :
    (database.step (thread, operation)).goals other = database.goals other := by
  simp [step, hne]

theorem nextUuid_le_step (database : Database) (next : ThreadId × Operation) :
    database.nextUuid ≤ (database.step next).nextUuid := by
  obtain ⟨thread, operation⟩ := next
  have hrow := rowStep_apply (database.store thread) operation
  change database.nextUuid ≤ (operation.apply (database.store thread)).nextUuid
  generalize operation.apply (database.store thread) = result at hrow
  cases hrow with
  | unchanged _ nextUuid hnext => exact hnext
  | created => exact Nat.le_succ _
  | deleted => exact Nat.le_refl _
  | changed => exact Nat.le_refl _

theorem Inv.step (h : database.Inv) (next : ThreadId × Operation) : (database.step next).Inv := by
  have hnext := nextUuid_le_step database next
  obtain ⟨acted, operation⟩ := next
  have hrow := rowStep_apply (database.store acted) operation
  have hkeeps : ∀ goal ∈ (operation.apply (database.store acted)).goal, goal.WithinBudget ∧
      goal.goalId < (database.step (acted, operation)).nextUuid := by
    change ∀ goal ∈ (operation.apply (database.store acted)).goal, goal.WithinBudget ∧
      goal.goalId < (operation.apply (database.store acted)).nextUuid
    generalize operation.apply (database.store acted) = result at hrow
    intro goal hgoal
    cases hrow with
    | unchanged _ nextUuid hle => exact ⟨h.budget acted goal hgoal, (h.given acted goal hgoal).trans_le hle⟩
    | created _ made hid hbudget =>
        obtain rfl := Option.some.inj hgoal
        exact ⟨hbudget, hid ▸ Nat.lt_succ_self _⟩
    | deleted => cases hgoal
    | changed _ old made hold hid _ hbudget =>
        obtain rfl := Option.some.inj hgoal
        exact ⟨hbudget (h.budget acted old hold), hid ▸ h.given acted old hold⟩
  constructor
  · intro thread goal hgoal
    by_cases hthread : thread = acted
    · subst hthread
      rw [goals_step_self] at hgoal
      exact (hkeeps goal hgoal).1
    · rw [goals_step_of_ne database hthread] at hgoal
      exact h.budget thread goal hgoal
  · intro thread goal hgoal
    by_cases hthread : thread = acted
    · subst hthread
      rw [goals_step_self] at hgoal
      exact (hkeeps goal hgoal).2
    · rw [goals_step_of_ne database hthread] at hgoal
      exact (h.given thread goal hgoal).trans_le hnext

/-- The goal with this id, if it is still there, has at least this usage. Once it is gone the id is not given again. -/
structure Grown (thread : ThreadId) (goal : ThreadGoal) (database : Database) : Prop where
  given : goal.goalId < database.nextUuid
  usage : ∀ later ∈ database.goals thread, later.goalId = goal.goalId → UsageLe goal later

theorem Grown.step (h : Grown thread goal database) (next : ThreadId × Operation) :
    Grown thread goal (database.step next) := by
  refine ⟨h.given.trans_le (nextUuid_le_step database next), fun later hlater hid => ?_⟩
  obtain ⟨acted, operation⟩ := next
  by_cases hthread : thread = acted
  · subst hthread
    rw [goals_step_self] at hlater
    have hrow := rowStep_apply (database.store thread) operation
    generalize operation.apply (database.store thread) = result at hrow hlater
    cases hrow with
    | unchanged => exact h.usage later hlater hid
    | created _ made hnew =>
        obtain rfl := Option.some.inj hlater
        have hlt := h.given
        rw [← hid, hnew] at hlt
        exact absurd hlt (Nat.lt_irrefl _)
    | deleted => cases hlater
    | changed _ old made hold hsame husage =>
        obtain rfl := Option.some.inj hlater
        have hgrown := h.usage old hold (hsame.symm.trans hid)
        exact ⟨Int.le_trans hgrown.1 husage.1, Int.le_trans hgrown.2 husage.2⟩
  · rw [goals_step_of_ne database hthread] at hlater
    exact h.usage later hlater hid

theorem Inv.grown (h : database.Inv) (hgoal : goal ∈ database.goals thread) : Grown thread goal database := by
  refine ⟨h.given thread goal hgoal, fun later hlater _ => ?_⟩
  obtain rfl := Option.some.inj (hgoal.symm.trans hlater)
  exact ⟨Int.le_refl _, Int.le_refl _⟩

/-! ## Single operations -/

theorem step_of_unexpected {operation : Operation} {expected : GoalId}
    (hexpected : operation.expectedGoalId = some expected)
    (hother : ∀ goal ∈ database.goals thread, goal.goalId ≠ expected) :
    database.step (thread, operation) = database := by
  have hrefused : operation.apply (database.store thread) = database.store thread := by
    cases operation with
    | update changes =>
        have hchanges : changes.expectedGoalId = some expected := hexpected
        rw [Operation.apply, Store.updateThreadGoal]
        split
        · rfl
        next goal hgoal => simp [hchanges, (hother goal hgoal).symm]
    | account timeDeltaSeconds tokenDelta mode given =>
        obtain rfl : given = some expected := hexpected
        unfold Operation.apply Store.accountThreadGoalUsage
        dsimp only
        split
        · rfl
        · split
          · rfl
          next goal hgoal => simp [(hother goal hgoal).symm]
    | replace | insert | pauseActive | delete => cases hexpected
  rw [step, hrefused, store, Function.update_eq_self]

/-- A complete goal stays complete unless its row is replaced or updated. -/
theorem complete_step (next : ThreadId × Operation) (hgoal : goal ∈ database.goals thread)
    (hcomplete : goal.status = .complete) (hlater : later ∈ (database.step next).goals thread) :
    later.status = .complete ∨ next.1 = thread ∧ next.2.setsStatus = true := by
  obtain ⟨acted, operation⟩ := next
  by_cases hthread : thread = acted
  · subst hthread
    rw [goals_step_self] at hlater
    have hrow := rowStep_apply (database.store thread) operation
    generalize operation.apply (database.store thread) = result at hrow hlater
    cases hrow with
    | unchanged =>
        obtain rfl := Option.some.inj (hgoal.symm.trans hlater)
        exact .inl hcomplete
    | created _ made _ _ _ hstatus =>
        rcases hstatus with hnone | hsets
        · cases hgoal.symm.trans hnone
        · exact .inr ⟨rfl, hsets⟩
    | deleted => cases hlater
    | changed _ old made hold _ _ _ _ hstatus =>
        obtain rfl := Option.some.inj hlater
        obtain rfl := Option.some.inj (hgoal.symm.trans hold)
        exact (hstatus hcomplete).imp_right fun hsets => ⟨rfl, hsets⟩
  · rw [goals_step_of_ne database hthread] at hlater
    obtain rfl := Option.some.inj (hgoal.symm.trans hlater)
    exact .inl hcomplete

end Database

end Codrex.Goals
