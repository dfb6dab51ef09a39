import Codrex.Lib.Keyed
import Codrex.ThreadHistory.Items

/-!
# The builder of the turns that are shown (`app-server-protocol/src/protocol/thread_history.rs`)

`fresh` is the id that `Uuid` makes when it is asked for one. The indices are not bounded.
-/

namespace Codrex.ThreadHistory

open Text

inductive TurnStatus
  | completed
  | interrupted
  | failed
  | inProgress
  deriving DecidableEq

structure TurnError where
  message : Str
  codexErrorInfo : Option CodexErrorInfo
  additionalDetails : Option Str
  deriving DecidableEq

structure Turn where
  id : Str
  items : List ThreadItem
  error : Option TurnError
  status : TurnStatus
  startedAt : Option Int
  completedAt : Option Int
  durationMs : Option Int

structure PendingTurn extends Turn where
  /-- The turn comes from `TurnStarted`, and stays without items. -/
  openedExplicitly : Bool
  /-- The turn holds a compaction, and stays without items. -/
  sawCompaction : Bool
  rolloutStartIndex : Nat

structure ThreadHistoryBuilder where
  turns : List Turn
  currentTurn : Option PendingTurn
  nextItemIndex : Nat
  currentRolloutIndex : Nat
  nextRolloutIndex : Nat

def upsertTurnItem (items : List ThreadItem) (item : ThreadItem) : List ThreadItem :=
  Keyed.upsert ThreadItem.id item items

def itemId (index : Nat) : Str := "item-".toList ++ (Nat.repr index).toList

def rolloutTurnId (index : Nat) : Str := "rollout-".toList ++ (Nat.repr index).toList

namespace ThreadHistoryBuilder

def new : ThreadHistoryBuilder := ⟨[], none, 1, 0, 0⟩

def finishCurrentTurn (builder : ThreadHistoryBuilder) : ThreadHistoryBuilder :=
  match builder.currentTurn with
  | some turn =>
      if turn.items.isEmpty && !turn.openedExplicitly && !turn.sawCompaction then { builder with currentTurn := none }
      else { builder with currentTurn := none, turns := builder.turns ++ [turn.toTurn] }
  | none => builder

def finish (builder : ThreadHistoryBuilder) : List Turn := builder.finishCurrentTurn.turns

def activeTurnSnapshot (builder : ThreadHistoryBuilder) : Option Turn :=
  (builder.currentTurn.map PendingTurn.toTurn).or builder.turns.getLast?

def activeTurnPosition (builder : ThreadHistoryBuilder) : Option Nat :=
  if builder.currentTurn.isSome then some builder.turns.length
  else if builder.turns.isEmpty then none
  else some (builder.turns.length - 1)

/-- The id of an implicit turn. -/
def implicitId (fresh : Str) (builder : ThreadHistoryBuilder) : Str :=
  if builder.nextRolloutIndex = 0 then fresh else rolloutTurnId builder.currentRolloutIndex

section Handlers

variable (ext : Externals) (fresh : Str) (builder : ThreadHistoryBuilder)

def newTurn (id : Option Str) : PendingTurn where
  id := id.getD (builder.implicitId fresh)
  items := []
  error := none
  status := .completed
  startedAt := none
  completedAt := none
  durationMs := none
  openedExplicitly := false
  sawCompaction := false
  rolloutStartIndex := builder.currentRolloutIndex

def ensureTurn : PendingTurn := builder.currentTurn.getD (builder.newTurn fresh none)

/-- The turn of `ensure_turn`, changed. -/
def withTurn (f : PendingTurn → PendingTurn) : ThreadHistoryBuilder :=
  { builder with currentTurn := some (f (builder.ensureTurn fresh)) }

def pushItem (item : ThreadItem) (turn : PendingTurn) : PendingTurn := { turn with items := turn.items ++ [item] }

/-- An item under the id of `next_item_id`. -/
def pushNumbered (item : Str → ThreadItem) : ThreadHistoryBuilder :=
  { builder.withTurn fresh (pushItem (item (itemId builder.nextItemIndex))) with
    nextItemIndex := builder.nextItemIndex + 1 }

def upsertItemInCurrentTurn (item : ThreadItem) : ThreadHistoryBuilder :=
  builder.withTurn fresh fun turn => { turn with items := upsertTurnItem turn.items item }

def updateTurn (turns : List Turn) (turnId : Str) (f : Turn → Turn) : List Turn := Keyed.update Turn.id turnId f turns

def upsertItemInTurnId (turnId : Str) (item : ThreadItem) : ThreadHistoryBuilder :=
  let upserted (turn : Turn) : Turn := { turn with items := upsertTurnItem turn.items item }
  match builder.currentTurn with
  | some turn =>
      if turn.id = turnId then { builder with currentTurn := some { turn with toTurn := upserted turn.toTurn } }
      else { builder with turns := updateTurn builder.turns turnId upserted }
  | none => { builder with turns := updateTurn builder.turns turnId upserted }

/-- What the handlers of patches, guardians and dynamic tools do with their item. -/
def upsertItemInTurnOrCurrent (turnId : Str) (item : ThreadItem) : ThreadHistoryBuilder :=
  if turnId = [] then builder.upsertItemInCurrentTurn fresh item else builder.upsertItemInTurnId turnId item

/-! ## Messages -/

/-- User messages stay in explicit turns; an implicit one is closed, unless it is a mere compaction. -/
def handleUserMessage (payload : UserMessageEvent) : ThreadHistoryBuilder :=
  let builder := match builder.currentTurn with
    | some turn =>
        if !turn.openedExplicitly && !(turn.sawCompaction && turn.items.isEmpty) then builder.finishCurrentTurn
        else builder
    | none => builder
  builder.pushNumbered fresh fun id => .userMessage id (buildUserInputs payload)

def handleAgentMessage (payload : AgentMessageEvent) : ThreadHistoryBuilder :=
  if payload.message = [] then builder
  else builder.pushNumbered fresh fun id => .agentMessage id payload.message payload.phase payload.memoryCitation

/-- Both kinds of reasoning: the text goes to the last item if it is a reasoning item, else to a new one. -/
def handleReasoning (text : Str) (extend : List Str × List Str → List Str × List Str) : ThreadHistoryBuilder :=
  if text = [] then builder
  else
    match (builder.ensureTurn fresh).items.getLast? with
    | some (.reasoning id summary content) =>
        let extended := extend (summary, content)
        builder.withTurn fresh fun turn =>
          { turn with items := turn.items.dropLast ++ [.reasoning id extended.1 extended.2] }
    | _ =>
        let extended := extend ([], [])
        builder.pushNumbered fresh fun id => .reasoning id extended.1 extended.2

def handleAgentReasoning (text : Str) : ThreadHistoryBuilder :=
  builder.handleReasoning fresh text fun (summary, content) => (summary ++ [text], content)

def handleAgentReasoningRawContent (text : Str) : ThreadHistoryBuilder :=
  builder.handleReasoning fresh text fun (summary, content) => (summary, content ++ [text])

def handleItemStarted (payload : TurnItemEvent) : ThreadHistoryBuilder :=
  match payload.item with
  | .plan plan => if plan.text = [] then builder else builder.upsertItemInTurnId payload.turnId (.plan plan.id plan.text)
  | .other => builder

def handleItemCompleted (payload : TurnItemEvent) : ThreadHistoryBuilder :=
  match payload.item with
  | .plan plan => if plan.text = [] then builder else builder.upsertItemInTurnId payload.turnId (.plan plan.id plan.text)
  | .other => builder

/-! ## Commands, patches and tools -/

def handleExecCommandBegin (payload : ExecCommandBeginEvent) : ThreadHistoryBuilder :=
  builder.upsertItemInTurnId payload.turnId (buildCommandExecutionBeginItem ext payload)

/-- The end may come when a newer turn is open. -/
def handleExecCommandEnd (payload : ExecCommandEndEvent) : ThreadHistoryBuilder :=
  builder.upsertItemInTurnId payload.turnId (buildCommandExecutionEndItem ext payload)

def guardianStatus : GuardianAssessmentStatus → Option CommandExecutionStatus
  | .inProgress => some .inProgress
  | .denied | .aborted => some .declined
  | .timedOut => some .failed
  | .approved => none

def handleGuardianAssessment (payload : GuardianAssessmentEvent) : ThreadHistoryBuilder :=
  match guardianStatus payload.status with
  | none => builder
  | some status =>
      match buildItemFromGuardianEvent ext payload status with
      | none => builder
      | some item => builder.upsertItemInTurnOrCurrent fresh payload.turnId item

def handleApplyPatchApprovalRequest (payload : PatchEvent) : ThreadHistoryBuilder :=
  builder.upsertItemInTurnOrCurrent fresh payload.turnId (buildFileChangeApprovalRequestItem payload)

def handlePatchApplyBegin (payload : PatchEvent) : ThreadHistoryBuilder :=
  builder.upsertItemInTurnOrCurrent fresh payload.turnId (buildFileChangeBeginItem payload)

def handlePatchApplyEnd (payload : PatchApplyEndEvent) : ThreadHistoryBuilder :=
  builder.upsertItemInTurnOrCurrent fresh payload.turnId (buildFileChangeEndItem payload)

def handleDynamicToolCallRequest (payload : DynamicToolCallRequest) : ThreadHistoryBuilder :=
  builder.upsertItemInTurnOrCurrent fresh payload.turnId (dynamicToolCallRequestItem payload)

def handleDynamicToolCallResponse (payload : DynamicToolCallResponseEvent) : ThreadHistoryBuilder :=
  builder.upsertItemInTurnOrCurrent fresh payload.turnId (dynamicToolCallResponseItem payload)

def handleWebSearchBegin (callId : Str) : ThreadHistoryBuilder :=
  builder.upsertItemInCurrentTurn fresh (.webSearch callId [] none)

def handleWebSearchEnd (payload : WebSearchEndEvent) : ThreadHistoryBuilder :=
  builder.upsertItemInCurrentTurn fresh (.webSearch payload.callId payload.query (some payload.action))

def handleMcpToolCallBegin (payload : McpToolCallBeginEvent) : ThreadHistoryBuilder :=
  builder.upsertItemInCurrentTurn fresh (mcpToolCallBeginItem payload)

def handleMcpToolCallEnd (payload : McpToolCallEndEvent) : ThreadHistoryBuilder :=
  builder.upsertItemInCurrentTurn fresh (mcpToolCallEndItem payload)

def handleViewImageToolCall (payload : ViewImageToolCallEvent) : ThreadHistoryBuilder :=
  builder.upsertItemInCurrentTurn fresh (.imageView payload.callId payload.path)

def handleImageGenerationBegin (callId : Str) : ThreadHistoryBuilder :=
  builder.upsertItemInCurrentTurn fresh (.imageGeneration callId [] none [] none)

def handleImageGenerationEnd (payload : ImageGenerationEndEvent) : ThreadHistoryBuilder :=
  builder.upsertItemInCurrentTurn fresh
    (.imageGeneration payload.callId payload.status payload.revisedPrompt payload.result payload.savedPath)

/-! ## Other agents -/

def handleCollabAgentSpawnBegin (payload : CollabAgentSpawnBeginEvent) : ThreadHistoryBuilder :=
  builder.upsertItemInCurrentTurn fresh (collabAgentSpawnBeginItem payload)

def handleCollabAgentSpawnEnd (payload : CollabAgentSpawnEndEvent) : ThreadHistoryBuilder :=
  builder.upsertItemInCurrentTurn fresh (collabAgentSpawnEndItem payload)

def handleCollabAgentInteractionBegin (payload : CollabAgentInteractionBeginEvent) : ThreadHistoryBuilder :=
  builder.upsertItemInCurrentTurn fresh (collabAgentInteractionBeginItem payload)

def handleCollabAgentInteractionEnd (payload : CollabAgentInteractionEndEvent) : ThreadHistoryBuilder :=
  builder.upsertItemInCurrentTurn fresh (collabAgentInteractionEndItem payload)

def handleCollabWaitingBegin (payload : CollabWaitingBeginEvent) : ThreadHistoryBuilder :=
  builder.upsertItemInCurrentTurn fresh (collabWaitingBeginItem payload)

def handleCollabWaitingEnd (payload : CollabWaitingEndEvent) : ThreadHistoryBuilder :=
  builder.upsertItemInCurrentTurn fresh (collabWaitingEndItem payload)

def handleCollabCloseBegin (payload : CollabReceiverEvent) : ThreadHistoryBuilder :=
  builder.upsertItemInCurrentTurn fresh (collabReceiverBeginItem .closeAgent payload)

def handleCollabCloseEnd (payload : CollabReceiverEndEvent) : ThreadHistoryBuilder :=
  builder.upsertItemInCurrentTurn fresh (collabReceiverEndItem .closeAgent payload)

def handleCollabResumeBegin (payload : CollabReceiverEvent) : ThreadHistoryBuilder :=
  builder.upsertItemInCurrentTurn fresh (collabReceiverBeginItem .resumeAgent payload)

def handleCollabResumeEnd (payload : CollabReceiverEndEvent) : ThreadHistoryBuilder :=
  builder.upsertItemInCurrentTurn fresh (collabReceiverEndItem .resumeAgent payload)

/-! ## Markers -/

def handleContextCompacted : ThreadHistoryBuilder := builder.pushNumbered fresh .contextCompaction

def handleEnteredReviewMode (userFacingHint : Option Str) : ThreadHistoryBuilder :=
  builder.pushNumbered fresh fun id => .enteredReviewMode id (userFacingHint.getD "Review requested.".toList)

def handleExitedReviewMode (overallExplanation : Option Str) : ThreadHistoryBuilder :=
  builder.pushNumbered fresh fun id =>
    .exitedReviewMode id ((overallExplanation.map renderReviewOutputText).getD reviewFallbackMessage)

/-! ## Turns -/

def handleError (payload : ErrorEvent) : ThreadHistoryBuilder :=
  if payload.affectsTurnStatus then
    { builder with
      currentTurn := builder.currentTurn.map fun turn =>
        { turn with status := .failed, error := some ⟨payload.message, payload.codexErrorInfo, none⟩ } }
  else builder

def applyAbort (payload : TurnAbortedEvent) (turn : Turn) : Turn :=
  { turn with status := .interrupted, completedAt := payload.completedAt, durationMs := payload.durationMs }

/-- The turn with the id of the event is interrupted; without one the open turn is. -/
def handleTurnAborted (payload : TurnAbortedEvent) : ThreadHistoryBuilder :=
  let abortCurrent : ThreadHistoryBuilder :=
    { builder with
      currentTurn := builder.currentTurn.map fun turn => { turn with toTurn := applyAbort payload turn.toTurn } }
  match payload.turnId with
  | some turnId =>
      if builder.currentTurn.any fun turn => turn.id = turnId then abortCurrent
      else if builder.turns.any fun turn => turn.id = turnId then
        { builder with turns := updateTurn builder.turns turnId (applyAbort payload) }
      else abortCurrent
  | none => abortCurrent

def handleTurnStarted (payload : TurnStartedEvent) : ThreadHistoryBuilder :=
  let builder := builder.finishCurrentTurn
  { builder with
    currentTurn := some
      { builder.newTurn fresh (some payload.turnId) with
        status := .inProgress, startedAt := payload.startedAt, openedExplicitly := true } }

def markCompleted (payload : TurnCompleteEvent) (turn : Turn) : Turn :=
  { turn with
    status := match turn.status with
      | .completed | .inProgress => .completed
      | status => status
    completedAt := payload.completedAt
    durationMs := payload.durationMs }

def handleTurnComplete (payload : TurnCompleteEvent) : ThreadHistoryBuilder :=
  let completeCurrent : ThreadHistoryBuilder :=
    { builder with
      currentTurn := builder.currentTurn.map fun turn => { turn with toTurn := markCompleted payload turn.toTurn } }
  if builder.currentTurn.any fun turn => turn.id = payload.turnId then completeCurrent.finishCurrentTurn
  else if builder.turns.any fun turn => turn.id = payload.turnId then
    { builder with turns := updateTurn builder.turns payload.turnId (markCompleted payload) }
  else completeCurrent.finishCurrentTurn

def handleCompacted : ThreadHistoryBuilder := builder.withTurn fresh fun turn => { turn with sawCompaction := true }

/-- The next number is counted anew from the items that are left. -/
def handleThreadRollback (numTurns : UInt32) : ThreadHistoryBuilder :=
  let builder := builder.finishCurrentTurn
  let n := numTurns.toNat
  let turns := if n ≥ builder.turns.length then [] else builder.turns.take (builder.turns.length - n)
  let itemCount := (turns.map fun turn => turn.items.length).sum
  { builder with turns := turns, nextItemIndex := itemCount + 1 }

/-! ## Events -/

def handleEvent : EventMsg → ThreadHistoryBuilder
  | .userMessage payload => builder.handleUserMessage fresh payload
  | .agentMessage payload => builder.handleAgentMessage fresh payload
  | .agentReasoning text => builder.handleAgentReasoning fresh text
  | .agentReasoningRawContent text => builder.handleAgentReasoningRawContent fresh text
  | .webSearchBegin callId => builder.handleWebSearchBegin fresh callId
  | .webSearchEnd payload => builder.handleWebSearchEnd fresh payload
  | .execCommandBegin payload => builder.handleExecCommandBegin ext payload
  | .execCommandEnd payload => builder.handleExecCommandEnd ext payload
  | .guardianAssessment payload => builder.handleGuardianAssessment ext fresh payload
  | .applyPatchApprovalRequest payload => builder.handleApplyPatchApprovalRequest fresh payload
  | .patchApplyBegin payload => builder.handlePatchApplyBegin fresh payload
  | .patchApplyEnd payload => builder.handlePatchApplyEnd fresh payload
  | .dynamicToolCallRequest payload => builder.handleDynamicToolCallRequest fresh payload
  | .dynamicToolCallResponse payload => builder.handleDynamicToolCallResponse fresh payload
  | .mcpToolCallBegin payload => builder.handleMcpToolCallBegin fresh payload
  | .mcpToolCallEnd payload => builder.handleMcpToolCallEnd fresh payload
  | .viewImageToolCall payload => builder.handleViewImageToolCall fresh payload
  | .imageGenerationBegin callId => builder.handleImageGenerationBegin fresh callId
  | .imageGenerationEnd payload => builder.handleImageGenerationEnd fresh payload
  | .collabAgentSpawnBegin payload => builder.handleCollabAgentSpawnBegin fresh payload
  | .collabAgentSpawnEnd payload => builder.handleCollabAgentSpawnEnd fresh payload
  | .collabAgentInteractionBegin payload => builder.handleCollabAgentInteractionBegin fresh payload
  | .collabAgentInteractionEnd payload => builder.handleCollabAgentInteractionEnd fresh payload
  | .collabWaitingBegin payload => builder.handleCollabWaitingBegin fresh payload
  | .collabWaitingEnd payload => builder.handleCollabWaitingEnd fresh payload
  | .collabCloseBegin payload => builder.handleCollabCloseBegin fresh payload
  | .collabCloseEnd payload => builder.handleCollabCloseEnd fresh payload
  | .collabResumeBegin payload => builder.handleCollabResumeBegin fresh payload
  | .collabResumeEnd payload => builder.handleCollabResumeEnd fresh payload
  | .contextCompacted => builder.handleContextCompacted fresh
  | .enteredReviewMode userFacingHint => builder.handleEnteredReviewMode fresh userFacingHint
  | .exitedReviewMode overallExplanation => builder.handleExitedReviewMode fresh overallExplanation
  | .itemStarted payload => builder.handleItemStarted payload
  | .itemCompleted payload => builder.handleItemCompleted payload
  | .error payload => builder.handleError payload
  | .threadRolledBack numTurns => builder.handleThreadRollback numTurns
  | .turnAborted payload => builder.handleTurnAborted payload
  | .turnStarted payload => builder.handleTurnStarted fresh payload
  | .turnComplete payload => builder.handleTurnComplete payload
  | .other => builder

def handleResponseItem : History.ResponseItem → ThreadHistoryBuilder
  | .message id role content _ =>
      if role = "user".toList then
        match parseHookPromptMessage ext fresh id content with
        | some (id, fragments) => builder.withTurn fresh (pushItem (.hookPrompt id fragments))
        | none => builder
      else builder
  | _ => builder

def handleRolloutItem (item : RolloutItem) : ThreadHistoryBuilder :=
  let builder :=
    { builder with
      currentRolloutIndex := builder.nextRolloutIndex, nextRolloutIndex := builder.nextRolloutIndex + 1 }
  match item with
  | .eventMsg event => builder.handleEvent ext fresh event
  | .compacted => builder.handleCompacted fresh
  | .responseItem item => builder.handleResponseItem ext fresh item
  | .turnContext | .sessionMeta => builder

end Handlers

end ThreadHistoryBuilder

/-- What is given to the builder: a rollout item on replay, or an event of the running turn. -/
inductive Input
  | rolloutItem (item : RolloutItem)
  | event (event : EventMsg)

/-- Every input comes with the id that `Uuid` would make for it. -/
def ThreadHistoryBuilder.feed (ext : Externals) (builder : ThreadHistoryBuilder) (input : Str × Input) :
    ThreadHistoryBuilder :=
  match input with
  | (fresh, .rolloutItem item) => builder.handleRolloutItem ext fresh item
  | (fresh, .event event) => builder.handleEvent ext fresh event

end Codrex.ThreadHistory
