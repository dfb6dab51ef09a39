import Codrex.Goals.Database
import Codrex.Goals.Lemmas.Steps

/-!
# Results for goal accounting
-/

namespace Codrex.Goals

open Metering Transition

/-! ## Runs -/

structure Inv (state : State) : Prop where
  session : SessionInv state.shared
  tasks : ∀ task ∈ state.tasks, ∀ next ∈ task, StepOk state.shared next

theorem inv_new (goalsEnabled ephemeral : Bool) (usage : TokenUsage) (store : Store) :
    Inv (State.new goalsEnabled ephemeral usage store) := by
  refine ⟨⟨List.pairwise_singleton _ _, ?_, ?_, ?_, fun _ => rfl, ?_, ?_, ?_, ?_⟩, ?_⟩ <;>
    simp [State.new, GrowthFits, Above]

/-- A call goes on with other steps, in a session that knows at least what it knew before. -/
theorem Inv.moved {state : State} (h : Inv state) {session : Session} (hinv : SessionInv session)
    (hext : Extends state.shared session) {index : Nat} {steps : List Step}
    (hsteps : ∀ next ∈ steps, StepOk session next) : Inv ⟨session, state.tasks.set index steps ++ []⟩ := by
  refine ⟨hinv, fun task htask next hnext => ?_⟩
  rw [List.append_nil] at htask
  rcases List.mem_or_eq_of_mem_set htask with hold | rfl
  · exact (h.tasks task hold next hnext).extends hext
  · exact hsteps next hnext

theorem request_steps_ok (session : Session) (request : Request) : ∀ next ∈ request.steps, StepOk session next := by
  refine stepsOk_of_free ?_
  cases request <;> simp [Request.steps, Step.overwrites, Step.needsTurn]

theorem Inv.step {state : State} {action : Action} (hguard : UpToDate state action) (h : Inv state) :
    Inv (step state action) := by
  refine Tasks.step_keeps Inv h ?_ ?_
  · intro request _
    refine ⟨h.session, fun task htask next hnext => ?_⟩
    rcases List.mem_append.mp htask with hold | hnew
    · exact h.tasks task hold next hnext
    · rw [List.mem_singleton.mp hnew] at hnext
      exact request_steps_ok _ request next hnext
  · rintro index choice task rfl htask
    have hmem := List.mem_of_getElem? htask
    cases task with
    | nil => exact h.moved h.session (Extends.refl _) (by simp [move])
    | cons next rest =>
        have hrest : ∀ other ∈ rest, StepOk state.shared other :=
          fun other hother => h.tasks _ hmem other (List.mem_cons_of_mem _ hother)
        cases choice with
        | proceed elapsed =>
            obtain ⟨hover, hgrow⟩ := hguard _ htask next rfl
            have hkeeps := exec_keeps h.session (h.tasks _ hmem next List.mem_cons_self) elapsed hover hgrow
            refine h.moved hkeeps.inv hkeeps.extends' fun other hother => ?_
            rcases List.mem_append.mp hother with hnew | hold
            · exact hkeeps.steps other hnew
            · exact (hrest other hold).extends hkeeps.extends'
        | drop =>
            by_cases hpermit : next = .withPermit
            · subst hpermit
              have hgiven : SessionInv { state.shared with permit := none } := by
                refine h.session.setPermit ?_ (fun _ hnone => nomatch hnone)
                refine not_awaitsMark rfl fun turn steering current status hmark => ?_
                exact absurd (hguard _ htask .withPermit rfl rfl _ hmark) (by simp [Accounting.awaitsMark])
              show Inv ⟨{ state.shared with permit := none }, state.tasks.set index [] ++ []⟩
              exact h.moved hgiven ⟨fun _ h => h, fun _ h => h⟩ (by simp)
            · have hdropped : move state .drop (next :: rest) = ⟨state.shared, [], []⟩ := by
                cases next <;> first | exact absurd rfl hpermit | rfl
              rw [hdropped]
              exact h.moved h.session (Extends.refl _) (by simp)

theorem Inv.chargedOnce {state : State} (h : Inv state) : ChargedOnce state.shared := by
  cases hfirst : state.shared.firstUsage with
  | none =>
      have hnone := h.session.uncharged hfirst
      refine ⟨?_, ?_⟩
      · simp [Session.chargeable, hfirst, hnone]
      · simp [hnone]
  | some first =>
      have hle := h.session.first_le first hfirst
      have hmetered := h.session.metered first hfirst
      refine ⟨?_, hmetered.apart⟩
      rw [Session.chargeable, hfirst]
      simp only
      rw [delta_eq hle (h.session.fits first hfirst)]
      exact hmetered.total _ hle h.session.above

/-- Goal tokens are charged at most once, in every run in which the baseline is not overwritten with a usage that
is out of date. -/
theorem goal_tokens_charged_once (goalsEnabled ephemeral : Bool) (usage : TokenUsage) (store : Store)
    (actions : List Action)
    (h : Guarded step UpToDate (State.new goalsEnabled ephemeral usage store) actions) :
    ChargedOnce (run step (State.new goalsEnabled ephemeral usage store) actions).shared :=
  (h.invariant (fun _ _ hguard hinv => Inv.step hguard hinv) (inv_new goalsEnabled ephemeral usage store)).chargedOnce

/-! ### A goal that is set while its turn runs -/

def onlyTurn : TurnContext := ⟨1, false⟩

def tenTokens : ResponseUsage := ⟨10, 0, 0, 0, 10, Nat.zero_le _⟩

/-- The call with an index takes a number of steps. -/
def moves (index count : Nat) : List Action := List.replicate count (.move index (.proceed 0))

/-- A turn starts and creates a goal. A client sets the goal active again, up to where its call has read the usage:
none so far. -/
def goalSet : List Action :=
  .start (.startTask onlyTurn) :: moves 0 5 ++
    .start (.tool onlyTurn (.createThreadGoal "goal".toList none)) :: moves 1 6 ++
    .start (.client (.setGoal ⟨none, some .active, none⟩)) :: moves 2 11

/-- Ten tokens are used, and a tool call accounts for them. -/
def tokensAccounted : List Action :=
  .start (.recordUsage tenTokens) :: moves 3 1 ++ .start (.tool onlyTurn (.completed false)) :: moves 4 7

/-- The client's call goes on with the usage that it has read, and another tool call completes. -/
def accountedAgain : List Action :=
  moves 2 1 ++ .start (.tool onlyTurn (.completed false)) :: moves 5 7

def newSession : State := State.new true false {} ⟨none, 0⟩

theorem tokensAccounted_once :
    Guarded step UpToDate newSession (goalSet ++ moves 2 1 ++ tokensAccounted) ∧
      ChargedOnce (run step newSession (goalSet ++ moves 2 1 ++ tokensAccounted)).shared := by
  have hguarded : Guarded step UpToDate newSession (goalSet ++ moves 2 1 ++ tokensAccounted) := by decide
  exact ⟨hguarded, goal_tokens_charged_once true false {} ⟨none, 0⟩ _ hguarded⟩

/-- The usage that the client's call has read takes the baseline back behind the charge, and the ten tokens are
charged again. -/
theorem accountedAgain_not_once :
    ¬ ChargedOnce (run step newSession (goalSet ++ tokensAccounted ++ accountedAgain)).shared := by
  intro h
  exact absurd h.total (by decide)

/-! ## The table -/

/-- What can be said of the goals after some operations, and of what further ones do to them. -/
structure Database.GoalRules (database : Database) : Prop where
  withinBudget : ∀ thread, ∀ goal ∈ database.goals thread, goal.status = .active →
    ∀ budget ∈ goal.tokenBudget, goal.tokensUsed < budget
  usageGrows : ∀ operations thread, ∀ goal ∈ database.goals thread,
    ∀ later ∈ (run Database.step database operations).goals thread, later.goalId = goal.goalId → UsageLe goal later
  unexpected : ∀ thread operation expected, operation.expectedGoalId = some expected →
    (∀ goal ∈ database.goals thread, goal.goalId ≠ expected) → database.step (thread, operation) = database
  complete : ∀ next thread, ∀ goal ∈ database.goals thread, goal.status = .complete →
    ∀ later ∈ (database.step next).goals thread, later.status ≠ .complete →
      next.1 = thread ∧ next.2.setsStatus = true

/-- Whatever is done to the goals, none that is over its budget is active. -/
theorem run_goalRules (operations : List (ThreadId × Operation)) :
    (run Database.step Database.empty operations).GoalRules := by
  have hinv : (run Database.step Database.empty operations).Inv :=
    Transition.invariant (fun _ next h => h.step next) Database.inv_empty operations
  refine ⟨hinv.budget, ?_, fun _ _ _ => Database.step_of_unexpected, ?_⟩
  · intro operations thread goal hgoal
    exact (Transition.invariant (fun _ next h => h.step next) (hinv.grown hgoal) operations).usage
  · intro next thread goal hgoal hcomplete later hlater hother
    exact (Database.complete_step next hgoal hcomplete hlater).resolve_left hother

end Codrex.Goals
