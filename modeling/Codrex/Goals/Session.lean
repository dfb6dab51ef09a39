import Codrex.Lib.Metering
import Codrex.Lib.Text
import Codrex.Lib.Transition
import Mathlib.Order.Basic

/-!
# Thread goals in the state database

`state/src/runtime/goals.rs`: the row of one thread in `thread_goals`. Each definition is one SQL statement.
-/

namespace Codrex.Goals

open Text

abbrev GoalId := Nat

inductive ThreadGoalStatus
  | active
  | paused
  | budgetLimited
  | complete
  deriving DecidableEq

structure ThreadGoal where
  goalId : GoalId
  objective : Str
  status : ThreadGoalStatus
  tokenBudget : Option Int
  tokensUsed : Int
  timeUsedSeconds : Int
  deriving DecidableEq

inductive ThreadGoalAccountingMode
  | activeStatusOnly
  | activeOnly
  | activeOrComplete
  | activeOrStopped
  deriving DecidableEq

structure ThreadGoalUpdate where
  status : Option ThreadGoalStatus
  tokenBudget : Option (Option Int)
  expectedGoalId : Option GoalId

/-- The row, and the number of the next random id. Ids are only compared, and no two of them are the same. -/
structure Store where
  goal : Option ThreadGoal
  nextUuid : GoalId
  deriving DecidableEq

def overBudget (tokensUsed : Int) (tokenBudget : Option Int) : Bool :=
  tokenBudget.any fun budget => budget ≤ tokensUsed

def statusAfterBudgetLimit (status : ThreadGoalStatus) (tokensUsed : Int) (tokenBudget : Option Int) :
    ThreadGoalStatus :=
  if status = .active ∧ overBudget tokensUsed tokenBudget then .budgetLimited else status

namespace Store

variable (store : Store)

def newGoal (objective : Str) (status : ThreadGoalStatus) (tokenBudget : Option Int) : ThreadGoal :=
  ⟨store.nextUuid, objective, statusAfterBudgetLimit status 0 tokenBudget, tokenBudget, 0, 0⟩

def replaceThreadGoal (objective : Str) (status : ThreadGoalStatus) (tokenBudget : Option Int) : Store × ThreadGoal :=
  let goal := store.newGoal objective status tokenBudget
  (⟨some goal, store.nextUuid + 1⟩, goal)

def insertThreadGoal (objective : Str) (status : ThreadGoalStatus) (tokenBudget : Option Int) :
    Store × Option ThreadGoal :=
  match store.goal with
  | some _ => ({ store with nextUuid := store.nextUuid + 1 }, none)
  | none =>
      let goal := store.newGoal objective status tokenBudget
      (⟨some goal, store.nextUuid + 1⟩, some goal)

def updatedStatus (goal : ThreadGoal) (status : ThreadGoalStatus) (tokenBudget : Option Int) : ThreadGoalStatus :=
  if goal.status = .budgetLimited ∧ status = .paused then goal.status
  else if status = .active ∧ overBudget goal.tokensUsed tokenBudget then .budgetLimited
  else status

def updateRow (goal : ThreadGoal) (update : ThreadGoalUpdate) : ThreadGoal :=
  match update.status, update.tokenBudget with
  | some status, some tokenBudget =>
      { goal with status := updatedStatus goal status tokenBudget, tokenBudget := tokenBudget }
  | some status, none => { goal with status := updatedStatus goal status goal.tokenBudget }
  | none, some tokenBudget =>
      { goal with
        tokenBudget := tokenBudget
        status := statusAfterBudgetLimit goal.status goal.tokensUsed tokenBudget }
  | none, none => goal

/-- The first statement of `update_thread_goal`, and whether it met the row; the second one reads the row. With
nothing to update there is only the read. -/
def updateThreadGoal (update : ThreadGoalUpdate) : Store × Bool :=
  match store.goal with
  | none => (store, false)
  | some goal =>
      if update.expectedGoalId.all (· = goal.goalId) then
        ({ store with goal := some (updateRow goal update) }, true)
      else (store, false)

def pauseActiveThreadGoal : Store × Bool :=
  match store.goal with
  | some goal =>
      if goal.status = .active then ({ store with goal := some { goal with status := .paused } }, true)
      else (store, false)
  | none => (store, false)

def deleteThreadGoal : Store × Bool := ({ store with goal := none }, store.goal.isSome)

def statusFilter : ThreadGoalAccountingMode → ThreadGoalStatus → Bool
  | .activeStatusOnly, status => status = .active
  | .activeOnly, status => status = .active || status = .budgetLimited
  | .activeOrComplete, status => status = .active || status = .budgetLimited || status = .complete
  | .activeOrStopped, status => status = .active || status = .paused || status = .budgetLimited

def budgetLimitStatusFilter : ThreadGoalAccountingMode → ThreadGoalStatus → Bool
  | .activeOrStopped, status => status = .active || status = .paused || status = .budgetLimited
  | _, status => status = .active

/-- The goal with the usage added, if the row is the expected one and of a status that is accounted. -/
def accountThreadGoalUsage (timeDeltaSeconds tokenDelta : Int) (mode : ThreadGoalAccountingMode)
    (expectedGoalId : Option GoalId) : Store × Option ThreadGoal :=
  let timeDeltaSeconds := max timeDeltaSeconds 0
  let tokenDelta := max tokenDelta 0
  if timeDeltaSeconds = 0 ∧ tokenDelta = 0 then (store, none)
  else
    match store.goal with
    | none => (store, none)
    | some goal =>
        if statusFilter mode goal.status ∧ expectedGoalId.all (· = goal.goalId) then
          let limited := budgetLimitStatusFilter mode goal.status && overBudget (goal.tokensUsed + tokenDelta) goal.tokenBudget
          let goal := { goal with
            timeUsedSeconds := goal.timeUsedSeconds + timeDeltaSeconds
            tokensUsed := goal.tokensUsed + tokenDelta
            status := if limited then .budgetLimited else goal.status }
          ({ store with goal := some goal }, some goal)
        else (store, none)

end Store

/-! ## Checks of a request -/

def validateGoalBudget (value : Option Int) : Except String Unit :=
  if value.any (· ≤ 0) then .error "goal budgets must be positive when provided" else .ok ()

def maxThreadGoalObjectiveChars : Nat := 4000

def validateThreadGoalObjective (value : Str) : Except String Unit :=
  if value = [] then .error "goal objective must not be empty"
  else if maxThreadGoalObjectiveChars < value.length then .error "goal objective must be at most 4000 characters"
  else .ok ()

end Codrex.Goals

/-!
## Goal accounting of a session

`core/src/goals.rs`, and what calls it. A call is the list of the steps it has still to take: a step is what the
call does between two awaits, a section under a lock or one SQL statement. Real time is not kept: the seconds that
have passed are given with the step that asks for them.
-/

namespace Codrex.Goals

open Text

abbrev TurnId := Nat

structure TurnContext where
  subId : TurnId
  planMode : Bool
  deriving DecidableEq

/-! ## Token usage -/

structure TokenUsage where
  inputTokens : Int := 0
  cachedInputTokens : Int := 0
  outputTokens : Int := 0
  reasoningOutputTokens : Int := 0
  totalTokens : Int := 0
  deriving DecidableEq

def i64Max : Int := 2 ^ 63 - 1

def saturate (value : Int) : Int := max (-i64Max - 1) (min i64Max value)

def saturatingSub (a b : Int) : Int := saturate (a - b)

def saturatingAdd (a b : Int) : Int := saturate (a + b)

namespace TokenUsage

def cachedInput (usage : TokenUsage) : Int := max usage.cachedInputTokens 0

def nonCachedInput (usage : TokenUsage) : Int := max (usage.inputTokens - usage.cachedInput) 0

end TokenUsage

def goalTokenDeltaForUsage (usage : TokenUsage) : Int :=
  saturatingAdd usage.nonCachedInput (max usage.outputTokens 0)

/-- How far the usage has grown, component by component. -/
def usageGrowth (last current : TokenUsage) : TokenUsage where
  inputTokens := saturatingSub current.inputTokens last.inputTokens
  cachedInputTokens := saturatingSub current.cachedInputTokens last.cachedInputTokens
  outputTokens := saturatingSub current.outputTokens last.outputTokens
  reasoningOutputTokens := saturatingSub current.reasoningOutputTokens last.reasoningOutputTokens
  totalTokens := saturatingSub current.totalTokens last.totalTokens

/-- The usage that a response adds: the input includes what was cached of it. -/
structure ResponseUsage where
  inputTokens : Nat
  cachedInputTokens : Nat
  outputTokens : Nat
  reasoningOutputTokens : Nat
  totalTokens : Nat
  cached_le : cachedInputTokens ≤ inputTokens

def TokenUsage.addAssign (usage : TokenUsage) (other : ResponseUsage) : TokenUsage where
  inputTokens := usage.inputTokens + other.inputTokens
  cachedInputTokens := usage.cachedInputTokens + other.cachedInputTokens
  outputTokens := usage.outputTokens + other.outputTokens
  reasoningOutputTokens := usage.reasoningOutputTokens + other.reasoningOutputTokens
  totalTokens := usage.totalTokens + other.totalTokens

/-! ## The accounting snapshot -/

structure GoalTurnAccountingSnapshot where
  turnId : TurnId
  lastAccountedTokenUsage : TokenUsage
  activeGoalId : Option GoalId := none
  deriving DecidableEq

namespace GoalTurnAccountingSnapshot

def markActiveGoal (turn : GoalTurnAccountingSnapshot) (goalId : GoalId) : GoalTurnAccountingSnapshot :=
  { turn with activeGoalId := some goalId }

def clearActiveGoal (turn : GoalTurnAccountingSnapshot) : GoalTurnAccountingSnapshot :=
  { turn with activeGoalId := none }

def resetBaseline (turn : GoalTurnAccountingSnapshot) (usage : TokenUsage) : GoalTurnAccountingSnapshot :=
  { turn with lastAccountedTokenUsage := usage }

def tokenDeltaSinceLastAccounting (turn : GoalTurnAccountingSnapshot) (current : TokenUsage) : Int :=
  goalTokenDeltaForUsage (usageGrowth turn.lastAccountedTokenUsage current)

def markAccounted (turn : GoalTurnAccountingSnapshot) (current : TokenUsage) : GoalTurnAccountingSnapshot :=
  { turn with lastAccountedTokenUsage := current }

end GoalTurnAccountingSnapshot

structure GoalAccountingSnapshot where
  turn : Option GoalTurnAccountingSnapshot := none
  /-- The goal that the wall clock runs for. -/
  wallClockGoalId : Option GoalId := none
  deriving DecidableEq

inductive BudgetLimitSteering
  | allowed
  | suppressed
  deriving DecidableEq

/-! ## The section under the accounting permit -/

/-- What an accounting has read: the baseline, the usage, and what it is about to add to which goal. -/
structure Progress where
  since : TokenUsage
  current : TokenUsage
  tokenDelta : Int
  timeDeltaSeconds : Int
  expectedGoalId : Option GoalId
  deriving DecidableEq

/-- Where the call that holds the permit stands, with its local variables. -/
inductive Accounting
  | readUsage (turn : TurnContext) (steering : BudgetLimitSteering)
  | readBaseline (turn : TurnContext) (steering : BudgetLimitSteering) (current : TokenUsage)
  | accountUsage (turn : TurnContext) (steering : BudgetLimitSteering) (progress : Progress)
  | markAccounted (turn : TurnContext) (steering : BudgetLimitSteering) (current : TokenUsage)
      (status : ThreadGoalStatus)
  | readWallClock (mode : ThreadGoalAccountingMode)
  | accountWallClock (mode : ThreadGoalAccountingMode) (timeDeltaSeconds : Int) (expectedGoalId : Option GoalId)
  | markWallClock (updated : Bool)
  | leaving
  deriving DecidableEq

abbrev GoalCharge := Metering.Charge TokenUsage GoalId

structure Session where
  goalsEnabled : Bool
  ephemeral : Bool
  usage : TokenUsage
  store : Store
  accounting : GoalAccountingSnapshot
  /-- The semaphore has one permit. The local variables of the call that holds it are kept with it. -/
  permit : Option Accounting
  activeTurn : Option TurnContext
  /-- Turns whose task has been started. -/
  started : List TurnContext
  /-- The usage that the first turn start read. -/
  firstUsage : Option TokenUsage
  /-- Earlier values of the usage, the newest first. -/
  past : List TokenUsage
  /-- What has been added to goals, the newest last. -/
  charges : List GoalCharge

namespace Session

def setTurn (session : Session) (turn : Option GoalTurnAccountingSnapshot) : Session :=
  { session with accounting := { session.accounting with turn := turn } }

def setWallClockGoal (session : Session) (goalId : Option GoalId) : Session :=
  { session with accounting := { session.accounting with wallClockGoalId := goalId } }

/-- Change the snapshot of a turn, if it is the current one. -/
def modifyTurn (session : Session) (turnId : TurnId)
    (f : GoalTurnAccountingSnapshot → GoalTurnAccountingSnapshot) : Session :=
  session.setTurn (session.accounting.turn.map fun turn => if turn.turnId = turnId then f turn else turn)

def clearActiveGoalAccounting (session : Session) (turn : TurnContext) : Session :=
  (session.modifyTurn turn.subId .clearActiveGoal).setWallClockGoal none

def clearStoppedThreadGoalRuntimeState (session : Session) : Session :=
  (session.setTurn (session.accounting.turn.map .clearActiveGoal)).setWallClockGoal none

def markActiveGoalAccounting (session : Session) (goalId : GoalId) (turnId : Option TurnId) (usage : TokenUsage) :
    Session :=
  let marked :=
    match turnId with
    | none => session
    | some turnId =>
        let turn :=
          match session.accounting.turn with
          | some turn => if turn.turnId = turnId then turn.resetBaseline usage else ⟨turnId, usage, none⟩
          | none => ⟨turnId, usage, none⟩
        session.setTurn (some (turn.markActiveGoal goalId))
  marked.setWallClockGoal (some goalId)

/-- The statement of an accounting of tokens, with the record of what it added. -/
def chargeUsage (session : Session) (progress : Progress) : Session × Option ThreadGoal :=
  let (store, updated) := session.store.accountThreadGoalUsage progress.timeDeltaSeconds progress.tokenDelta
    .activeOnly progress.expectedGoalId
  match updated with
  | none => ({ session with store := store }, none)
  | some goal =>
      let charge : GoalCharge := ⟨goal.goalId, progress.since, progress.current, max progress.tokenDelta 0⟩
      ({ session with store := store, charges := session.charges ++ [charge] }, some goal)

/-- The goal that has been accounted is not active any more. -/
def clearsActiveGoal (steering : BudgetLimitSteering) : ThreadGoalStatus → Bool
  | .active => false
  | .budgetLimited => steering = .suppressed
  | .paused => true
  | .complete => true

/-- One step of the call that holds the permit; `none` gives the permit back. -/
def moveAccounting (session : Session) (elapsed : Nat) : Accounting → Session × Option Accounting
  | .readUsage turn steering => (session, some (.readBaseline turn steering session.usage))
  | .readBaseline turn steering current =>
      match session.accounting.turn.filter (·.turnId = turn.subId) with
      | none => (session, none)
      | some snapshot =>
          match snapshot.activeGoalId with
          | none => (session, none)
          | some goalId =>
              let tokenDelta := snapshot.tokenDeltaSinceLastAccounting current
              if elapsed = 0 ∧ tokenDelta ≤ 0 then (session, none)
              else
                let progress := ⟨snapshot.lastAccountedTokenUsage, current, tokenDelta, elapsed, some goalId⟩
                (session, some (.accountUsage turn steering progress))
  | .accountUsage turn steering progress =>
      match session.chargeUsage progress with
      | (session, none) => (session, some .leaving)
      | (session, some goal) => (session, some (.markAccounted turn steering progress.current goal.status))
  | .markAccounted turn steering current status =>
      let session := session.modifyTurn turn.subId (·.markAccounted current)
      (if clearsActiveGoal steering status then session.clearActiveGoalAccounting turn else session, some .leaving)
  | .readWallClock mode =>
      if elapsed = 0 then (session, none)
      else (session, some (.accountWallClock mode elapsed session.accounting.wallClockGoalId))
  | .accountWallClock mode timeDeltaSeconds expectedGoalId =>
      let (store, updated) := session.store.accountThreadGoalUsage timeDeltaSeconds 0 mode expectedGoalId
      ({ session with store := store }, some (.markWallClock updated.isSome))
  | .markWallClock updated => (if updated then session else session.setWallClockGoal none, none)
  | .leaving => (session, none)

end Session

/-! ## Steps of calls -/

structure SetGoalRequest where
  objective : Option Str
  status : Option ThreadGoalStatus
  tokenBudget : Option (Option Int)

/-- What a tool of a turn calls. `update_goal` accounts for itself. -/
inductive ToolCall
  | completed (updateGoalTool : Bool)
  | completedGoal
  | setThreadGoal (request : SetGoalRequest)
  | createThreadGoal (objective : Str) (tokenBudget : Option Int)

/-- The handlers of the server. -/
inductive ClientCall
  | setGoal (request : SetGoalRequest)
  | clearGoal

/-- Who changes the goal: `set_thread_goal` of a tool, which replaces the goal or knows its status before, or a
client of the server. -/
inductive Caller
  | tool (turn : TurnContext) (replacing : Bool) (previous : Option ThreadGoalStatus)
  | client

inductive Step
  -- `start_task` with `mark_thread_goal_turn_started`
  | readTurnUsage (turn : TurnContext)
  | markTurnStarted (turn : TurnContext) (usage : TokenUsage)
  | readTurnGoal (turn : TurnContext)
  | markTurnGoal (turn : TurnContext) (goalId : GoalId)
  | clearActiveGoal (turn : TurnContext)
  | clearWallClock
  | activateTurn (turn : TurnContext)
  -- A tool runs once the task of its turn has been started.
  | callTool (turn : TurnContext) (call : ToolCall)
  | callClient (call : ClientCall)
  -- `account_thread_goal_progress` and `account_thread_goal_wall_clock_usage`
  | accountProgress (turn : TurnContext) (steering : BudgetLimitSteering)
  | accountWallClock (mode : ThreadGoalAccountingMode)
  | withPermit
  -- `finish_thread_goal_turn` and `handle_thread_goal_task_abort`
  | removeTurn (turn : TurnContext)
  | takeTurn (interrupted planMode : Bool)
  | clearTurn (turn : TurnContext)
  | pauseGoal
  -- `set_thread_goal`, `create_thread_goal`, the handlers of the server and `apply_external_thread_goal_status`
  | readExistingGoal (turn : TurnContext) (request : SetGoalRequest)
  | readGoalForClient (request : SetGoalRequest)
  | updateGoal (caller : Caller) (update : ThreadGoalUpdate)
  | readUpdated (caller : Caller)
  | replaceGoal (caller : Caller) (objective : Str) (status : ThreadGoalStatus) (tokenBudget : Option Int)
  | insertGoal (turn : TurnContext) (objective : Str) (tokenBudget : Option Int)
  | readMarkUsage (goalId : GoalId) (turnId : Option TurnId)
  | markActiveGoal (goalId : GoalId) (turnId : Option TurnId) (usage : TokenUsage)
  | prepareExternal
  | readExternalGoal
  | readActiveTurn (goalId : GoalId)
  | clearIfIdle
  | clearStopped
  | deleteGoal
  -- The usage of a response is recorded.
  | recordUsage (usage : ResponseUsage)

def validateSetGoalRequest (request : SetGoalRequest) : Except String Unit := do
  validateGoalBudget request.tokenBudget.join
  match request.objective.map trim with
  | some objective => validateThreadGoalObjective objective
  | none => pure ()

/-- The steps behind the checks of a request: the feature is enabled, the thread has a state database, and the
request is valid. -/
def whenValid (session : Session) (check : Except String Unit) (steps : List Step) : List Step :=
  if session.goalsEnabled ∧ ¬ session.ephemeral ∧ check.isOk then steps else []

def toolSteps (session : Session) (turn : TurnContext) : ToolCall → List Step
  | .completed updateGoalTool => if updateGoalTool then [] else [.accountProgress turn .allowed]
  | .completedGoal => [.accountProgress turn .suppressed]
  | .setThreadGoal request =>
      whenValid session (validateSetGoalRequest request)
        [.accountWallClock .activeOnly, .readExistingGoal turn request]
  | .createThreadGoal objective tokenBudget =>
      whenValid session (do validateGoalBudget tokenBudget; validateThreadGoalObjective (trim objective))
        [.accountWallClock .activeOnly, .insertGoal turn (trim objective) tokenBudget]

def clientSteps (session : Session) : ClientCall → List Step
  | .setGoal request =>
      whenValid session (validateSetGoalRequest request) [.prepareExternal, .readGoalForClient request]
  | .clearGoal => whenValid session (.ok ()) [.prepareExternal, .deleteGoal]

/-- What the caller does with the goal that its statement returned. -/
def settle (goal : ThreadGoal) : Caller → List Step
  | .tool turn replacing previous =>
      if goal.status = .active ∧ (replacing = true ∨ previous.any (· ≠ .active) = true) then
        [.readMarkUsage goal.goalId (some turn.subId)]
      else if goal.status ≠ .active then [.clearActiveGoal turn]
      else []
  | .client =>
      match goal.status with
      | .active => [.readExternalGoal]
      | .budgetLimited => [.clearIfIdle]
      | .paused => [.clearStopped]
      | .complete => [.clearStopped]

/-- The objective that is set again does not replace a goal that is not complete. -/
def sameNonterminalGoal (existing : Option ThreadGoal) (objective : Str) : Bool :=
  existing.any fun goal => goal.objective = objective ∧ goal.status ≠ .complete

def readExistingGoal (session : Session) (turn : TurnContext) (request : SetGoalRequest) : List Step :=
  let existing := session.store.goal
  let previous := existing.map ThreadGoal.status
  let expected := existing.map ThreadGoal.goalId
  match request.objective.map trim with
  | some objective =>
      if sameNonterminalGoal existing objective then
        [.updateGoal (.tool turn false previous) ⟨request.status.or (some .active), request.tokenBudget, expected⟩]
      else
        [.replaceGoal (.tool turn true previous) objective (request.status.getD .active) request.tokenBudget.join]
  | none => [.updateGoal (.tool turn false previous) ⟨request.status, request.tokenBudget, expected⟩]

def readGoalForClient (session : Session) (request : SetGoalRequest) : List Step :=
  match request.objective.map trim with
  | some objective =>
      if sameNonterminalGoal session.store.goal objective then
        [.updateGoal .client ⟨request.status, request.tokenBudget, session.store.goal.map ThreadGoal.goalId⟩]
      else [.replaceGoal .client objective (request.status.getD .active) request.tokenBudget.join]
  | none => [.updateGoal .client ⟨request.status, request.tokenBudget, none⟩]

/-- One step of a call, and the steps that take its place. A step that has to wait stays. -/
def exec (session : Session) (elapsed : Nat) : Step → Session × List Step
  | .readTurnUsage turn =>
      ({ session with firstUsage := session.firstUsage.or (some session.usage) },
        [.markTurnStarted turn session.usage, .activateTurn turn])
  | .markTurnStarted turn usage =>
      (session.setTurn (some ⟨turn.subId, usage, none⟩),
        if session.goalsEnabled then
          if turn.planMode then [.clearActiveGoal turn]
          else if session.ephemeral then []
          else [.readTurnGoal turn]
        else [])
  | .readTurnGoal turn =>
      match session.store.goal with
      | some goal =>
          if goal.status = .active ∨ goal.status = .budgetLimited then (session, [.markTurnGoal turn goal.goalId])
          else (session, [.clearWallClock])
      | none => (session, [.clearWallClock])
  | .markTurnGoal turn goalId =>
      ((session.modifyTurn turn.subId (·.markActiveGoal goalId)).setWallClockGoal (some goalId), [])
  | .clearActiveGoal turn => (session.clearActiveGoalAccounting turn, [])
  | .clearWallClock => (session.setWallClockGoal none, [])
  | .activateTurn turn => ({ session with activeTurn := some turn, started := turn :: session.started }, [])
  | .callTool turn call =>
      (session, if turn ∈ session.started then toolSteps session turn call else [.callTool turn call])
  | .callClient call => (session, clientSteps session call)
  | .accountProgress turn steering =>
      if ¬ session.goalsEnabled ∨ turn.planMode ∨ session.ephemeral then (session, [])
      else if session.permit.isSome then (session, [.accountProgress turn steering])
      else ({ session with permit := some (.readUsage turn steering) }, [.withPermit])
  | .accountWallClock mode =>
      if session.permit.isSome then (session, [.accountWallClock mode])
      else ({ session with permit := some (.readWallClock mode) }, [.withPermit])
  | .withPermit =>
      match session.permit with
      | none => (session, [])
      | some accounting =>
          let (session, next) := session.moveAccounting elapsed accounting
          ({ session with permit := next }, if next.isSome then [.withPermit] else [])
  | .removeTurn turn =>
      if session.activeTurn.any (·.subId = turn.subId) then
        ({ session with activeTurn := none }, [.accountProgress turn .suppressed, .clearTurn turn])
      else (session, [])
  | .takeTurn interrupted planMode =>
      let pause := if interrupted ∧ ¬ planMode ∧ session.goalsEnabled ∧ ¬ session.ephemeral then
        [.accountWallClock .activeStatusOnly, .pauseGoal] else []
      match session.activeTurn with
      | some turn =>
          ({ session with activeTurn := none }, .accountProgress turn .suppressed :: .clearTurn turn :: pause)
      | none => (session, pause)
  | .clearTurn turn => (session.setTurn (session.accounting.turn.filter (·.turnId ≠ turn.subId)), [])
  | .pauseGoal =>
      let (store, paused) := session.store.pauseActiveThreadGoal
      ({ session with store := store }, if paused then [.clearWallClock] else [])
  | .readExistingGoal turn request => (session, readExistingGoal session turn request)
  | .readGoalForClient request => (session, readGoalForClient session request)
  | .updateGoal caller update =>
      let (store, updated) := session.store.updateThreadGoal update
      ({ session with store := store }, if updated then [.readUpdated caller] else [])
  | .readUpdated caller =>
      match session.store.goal with
      | some goal => (session, settle goal caller)
      | none => (session, [])
  | .replaceGoal caller objective status tokenBudget =>
      let (store, goal) := session.store.replaceThreadGoal objective status tokenBudget
      ({ session with store := store }, settle goal caller)
  | .insertGoal turn objective tokenBudget =>
      match session.store.insertThreadGoal objective .active tokenBudget with
      | (store, some goal) =>
          ({ session with store := store }, [.readMarkUsage goal.goalId (some turn.subId)])
      | (store, none) => ({ session with store := store }, [])
  | .readMarkUsage goalId turnId => (session, [.markActiveGoal goalId turnId session.usage])
  | .markActiveGoal goalId turnId usage => (session.markActiveGoalAccounting goalId turnId usage, [])
  | .prepareExternal =>
      match session.activeTurn with
      | some turn => (session, [.accountProgress turn .suppressed])
      | none => (session, if session.ephemeral then [] else [.accountWallClock .activeOnly])
  | .readExternalGoal =>
      match session.store.goal with
      | some goal => (session, if goal.status = .active then [.readActiveTurn goal.goalId] else [])
      | none => (session, [])
  | .readActiveTurn goalId => (session, [.readMarkUsage goalId (session.activeTurn.map TurnContext.subId)])
  | .clearIfIdle => (session, if session.activeTurn = none then [.clearStopped] else [])
  | .clearStopped => (session.clearStoppedThreadGoalRuntimeState, [])
  | .deleteGoal =>
      let (store, cleared) := session.store.deleteThreadGoal
      ({ session with store := store }, if cleared then [.clearStopped] else [])
  | .recordUsage usage =>
      ({ session with usage := session.usage.addAssign usage, past := session.usage :: session.past }, [])

/-! ## Calls -/

inductive Request
  | startTask (turn : TurnContext)
  | finishTurn (turn : TurnContext)
  | abortTurn (interrupted planMode : Bool)
  | tool (turn : TurnContext) (call : ToolCall)
  | client (call : ClientCall)
  | recordUsage (usage : ResponseUsage)

def Request.steps : Request → List Step
  | startTask turn => [.readTurnUsage turn]
  | finishTurn turn => [.removeTurn turn]
  | abortTurn interrupted planMode => [.takeTurn interrupted planMode]
  | tool turn call => [.callTool turn call]
  | client call => [.callClient call]
  | recordUsage usage => [.recordUsage usage]

/-- The call goes on, with the seconds that have passed since the last accounting, or is dropped: what it holds is
given back and its other steps are not taken. -/
inductive Choice
  | proceed (elapsed : Nat)
  | drop
  deriving DecidableEq

abbrev State := Tasks.System Session (List Step)

def move (state : State) : Choice → List Step → Tasks.Moved Session (List Step)
  | _, [] => ⟨state.shared, [], []⟩
  | .proceed elapsed, next :: rest =>
      let (session, steps) := exec state.shared elapsed next
      ⟨session, steps ++ rest, []⟩
  | .drop, .withPermit :: _ => ⟨{ state.shared with permit := none }, [], []⟩
  | .drop, _ :: _ => ⟨state.shared, [], []⟩

abbrev Action := Tasks.Action Request Choice

def step : State → Action → State := Tasks.step Request.steps move

/-- A session before its first turn. -/
def State.new (goalsEnabled ephemeral : Bool) (usage : TokenUsage) (store : Store) : State :=
  ⟨⟨goalsEnabled, ephemeral, usage, store, {}, none, none, [], none, [], []⟩, []⟩

end Codrex.Goals

/-!
## What goal accounting is for

Growth of the usage is charged to a goal at most once.
-/

namespace Codrex.Goals

open Metering

/-- No component decreases, and the cached input grows at most as fast as the input. -/
instance : Preorder TokenUsage where
  le u v := u.inputTokens ≤ v.inputTokens ∧ u.cachedInputTokens ≤ v.cachedInputTokens ∧
    v.cachedInputTokens - u.cachedInputTokens ≤ v.inputTokens - u.inputTokens ∧
    u.outputTokens ≤ v.outputTokens ∧ u.reasoningOutputTokens ≤ v.reasoningOutputTokens ∧
    u.totalTokens ≤ v.totalTokens
  le_refl u := ⟨le_rfl, le_rfl, by omega, le_rfl, le_rfl, le_rfl⟩
  le_trans u v w := by
    rintro ⟨h1, h2, h3, h4, h5, h6⟩ ⟨k1, k2, k3, k4, k5, k6⟩
    exact ⟨h1.trans k1, h2.trans k2, by omega, h4.trans k4, h5.trans k5, h6.trans k6⟩

theorem usage_le_iff {u v : TokenUsage} :
    u ≤ v ↔ u.inputTokens ≤ v.inputTokens ∧ u.cachedInputTokens ≤ v.cachedInputTokens ∧
      v.cachedInputTokens - u.cachedInputTokens ≤ v.inputTokens - u.inputTokens ∧
      u.outputTokens ≤ v.outputTokens ∧ u.reasoningOutputTokens ≤ v.reasoningOutputTokens ∧
      u.totalTokens ≤ v.totalTokens :=
  Iff.rfl

instance : DecidableLE TokenUsage := fun u v =>
  inferInstanceAs (Decidable (u.inputTokens ≤ v.inputTokens ∧ u.cachedInputTokens ≤ v.cachedInputTokens ∧
    v.cachedInputTokens - u.cachedInputTokens ≤ v.inputTokens - u.inputTokens ∧
    u.outputTokens ≤ v.outputTokens ∧ u.reasoningOutputTokens ≤ v.reasoningOutputTokens ∧
    u.totalTokens ≤ v.totalTokens))

/-- What the growth of the usage since the first turn start costs. -/
def Session.chargeable (session : Session) : Int :=
  match session.firstUsage with
  | none => 0
  | some first => goalTokenDeltaForUsage (usageGrowth first session.usage)

structure ChargedOnce (session : Session) : Prop where
  total : (session.charges.map Charge.amount).sum ≤ session.chargeable
  apart : session.charges.Pairwise fun earlier later => earlier.upto ≤ later.since

/-! ## Runs in which this holds -/

/-- The baseline that a step writes, and its turn. -/
def Step.overwrites : Step → Option (TurnId × TokenUsage)
  | .markTurnStarted turn usage => some (turn.subId, usage)
  | .markActiveGoal _ (some turnId) usage => some (turnId, usage)
  | _ => none

def Step.recorded : Step → Option ResponseUsage
  | .recordUsage usage => some usage
  | _ => none

def Step.holdsPermit : Step → Bool
  | .withPermit => true
  | _ => false

/-- The turn of an accounting that is about to charge, and the usage up to which it does. -/
def Accounting.charges : Accounting → Option (TurnId × TokenUsage)
  | .accountUsage turn _ progress => some (turn.subId, progress.current)
  | _ => none

/-- The accounting has charged, and its mark is outstanding. -/
def Accounting.awaitsMark : Accounting → Bool
  | .markAccounted _ _ _ _ => true
  | _ => false

/-- Nothing behind the usage has been charged, nor is about to be by an accounting of another turn. -/
def NotBehind (session : Session) (turnId : TurnId) (usage : TokenUsage) : Prop :=
  Above session.charges usage ∧ ∀ accounting ∈ session.permit, ∀ charged ∈ accounting.charges,
    charged.1 = turnId ∨ charged.2 ≤ usage

/-- The input and the output since the first turn start are a number of 64 bits. -/
def GrowthFits (session : Session) (usage : TokenUsage) : Prop :=
  ∀ first ∈ session.firstUsage,
    usage.inputTokens - first.inputTokens + (usage.outputTokens - first.outputTokens) ≤ i64Max

/-- The step does not overwrite the baseline with a usage that is out of date, and it is not dropped between the
statement of an accounting and its mark. -/
def UpToDateStep (session : Session) (next : Step) : Choice → Prop
  | .proceed _ =>
      (∀ written ∈ next.overwrites, NotBehind session written.1 written.2) ∧
        ∀ response ∈ next.recorded, GrowthFits session (session.usage.addAssign response)
  | .drop => next.holdsPermit = true → ∀ accounting ∈ session.permit, accounting.awaitsMark = false

def UpToDate (state : State) : Action → Prop
  | .start _ => True
  | .move index choice => ∀ task ∈ state.tasks[index]?, ∀ next ∈ task.head?, UpToDateStep state.shared next choice

instance (session : Session) (turnId : TurnId) (usage : TokenUsage) : Decidable (NotBehind session turnId usage) :=
  inferInstanceAs (Decidable ((∀ charge ∈ session.charges, charge.upto ≤ usage) ∧
    ∀ accounting ∈ session.permit, ∀ charged ∈ accounting.charges, charged.1 = turnId ∨ charged.2 ≤ usage))

instance (session : Session) (usage : TokenUsage) : Decidable (GrowthFits session usage) :=
  inferInstanceAs (Decidable (∀ first ∈ session.firstUsage,
    usage.inputTokens - first.inputTokens + (usage.outputTokens - first.outputTokens) ≤ i64Max))

instance (session : Session) (next : Step) : (choice : Choice) → Decidable (UpToDateStep session next choice)
  | .proceed _ =>
      inferInstanceAs (Decidable ((∀ written ∈ next.overwrites, NotBehind session written.1 written.2) ∧
        ∀ response ∈ next.recorded, GrowthFits session (session.usage.addAssign response)))
  | .drop =>
      inferInstanceAs (Decidable (next.holdsPermit = true →
        ∀ accounting ∈ session.permit, accounting.awaitsMark = false))

instance (state : State) : (action : Action) → Decidable (UpToDate state action)
  | .start _ => .isTrue trivial
  | .move index choice =>
      inferInstanceAs (Decidable (∀ task ∈ state.tasks[index]?, ∀ next ∈ task.head?,
        UpToDateStep state.shared next choice))

end Codrex.Goals
