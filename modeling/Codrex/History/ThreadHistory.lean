import Codrex.History.Rollout

/-!
# The turns that are shown (`app-server-protocol/src/protocol/thread_history.rs`)

Times and errors of turns are left out. An item that shows the work of a tool is known by its id.
-/

namespace Codrex.History

open Text

/-- `UserInput` of the app server. -/
inductive ShownInput
  | text (text : Str)
  | image (url : Str)
  | localImage (path : Str)
  deriving DecidableEq

/-- A hook prompt without an id gets a fresh one, which is no other item's. -/
inductive ThreadItem
  | userMessage (id : Str) (content : List ShownInput)
  | hookPrompt (id : Option Str)
  | agentMessage (id text : Str)
  | reasoning (id : Str) (summary content : List Str)
  | contextCompaction (id : Str)
  | enteredReviewMode (id review : Str)
  | exitedReviewMode (id review : Str)
  | tool (id : Str)
  deriving DecidableEq

def ThreadItem.id : ThreadItem → Option Str
  | userMessage id _ => some id
  | hookPrompt id => id
  | agentMessage id _ => some id
  | reasoning id _ _ => some id
  | contextCompaction id => some id
  | enteredReviewMode id _ => some id
  | exitedReviewMode id _ => some id
  | tool id => some id

inductive TurnStatus
  | completed
  | interrupted
  | failed
  | inProgress
  deriving DecidableEq

structure Turn where
  id : Str
  items : List ThreadItem
  status : TurnStatus
  deriving DecidableEq

structure PendingTurn where
  id : Str
  items : List ThreadItem
  status : TurnStatus
  openedExplicitly : Bool
  sawCompaction : Bool
  deriving DecidableEq

def PendingTurn.toTurn (turn : PendingTurn) : Turn := ⟨turn.id, turn.items, turn.status⟩

structure ThreadHistoryBuilder where
  turns : List Turn
  currentTurn : Option PendingTurn
  nextItemIndex : Nat
  currentRolloutIndex : Nat
  nextRolloutIndex : Nat
  deriving DecidableEq

def upsertTurnItem (items : List ThreadItem) (item : ThreadItem) : List ThreadItem :=
  match items.findIdx? fun existing => existing.id = item.id with
  | some idx => items.set idx item
  | none => items ++ [item]

def itemId (index : Nat) : Str := "item-".toList ++ (Nat.repr index).toList

namespace ThreadHistoryBuilder

def new : ThreadHistoryBuilder := ⟨[], none, 1, 0, 0⟩

/-- The id of an implicit turn is that of the rollout item that opens it. -/
def newTurn (builder : ThreadHistoryBuilder) (id : Option Str) : PendingTurn :=
  ⟨id.getD ("rollout-".toList ++ (Nat.repr builder.currentRolloutIndex).toList), [], .completed, false, false⟩

def finishCurrentTurn (builder : ThreadHistoryBuilder) : ThreadHistoryBuilder :=
  match builder.currentTurn with
  | some turn =>
      if turn.items.isEmpty && !turn.openedExplicitly && !turn.sawCompaction then { builder with currentTurn := none }
      else { builder with currentTurn := none, turns := builder.turns ++ [turn.toTurn] }
  | none => builder

/-- `ensure_turn`, then a change of the turn. -/
def withTurn (builder : ThreadHistoryBuilder) (f : PendingTurn → PendingTurn) : ThreadHistoryBuilder :=
  { builder with currentTurn := some (f (builder.currentTurn.getD (builder.newTurn none))) }

def pushItem (item : ThreadItem) (turn : PendingTurn) : PendingTurn := { turn with items := turn.items ++ [item] }

/-- An item under the next number. -/
def pushNumbered (builder : ThreadHistoryBuilder) (item : Str → ThreadItem) : ThreadHistoryBuilder :=
  { builder.withTurn (pushItem (item (itemId builder.nextItemIndex))) with nextItemIndex := builder.nextItemIndex + 1 }

def upsertItemInCurrentTurn (builder : ThreadHistoryBuilder) (item : ThreadItem) : ThreadHistoryBuilder :=
  builder.withTurn fun turn => { turn with items := upsertTurnItem turn.items item }

/-- The change is made in the first turn with the id. -/
def updateTurn (turns : List Turn) (turnId : Str) (f : Turn → Turn) : List Turn :=
  match turns.findIdx? fun turn => turn.id = turnId with
  | some idx => turns.modify idx f
  | none => turns

def upsertItemInTurnId (builder : ThreadHistoryBuilder) (turnId : Str) (item : ThreadItem) : ThreadHistoryBuilder :=
  match builder.currentTurn with
  | some turn =>
      if turn.id = turnId then
        { builder with currentTurn := some { turn with items := upsertTurnItem turn.items item } }
      else
        { builder with turns := updateTurn builder.turns turnId fun turn =>
            { turn with items := upsertTurnItem turn.items item } }
  | none =>
      { builder with turns := updateTurn builder.turns turnId fun turn =>
          { turn with items := upsertTurnItem turn.items item } }

def buildUserInputs (payload : UserMessageEvent) : List ShownInput :=
  (if trim payload.message = [] then [] else [.text payload.message]) ++
    (payload.images.getD []).map .image ++ payload.localImages.map .localImage

def handleUserMessage (builder : ThreadHistoryBuilder) (payload : UserMessageEvent) : ThreadHistoryBuilder :=
  let builder := match builder.currentTurn with
    | some turn =>
        if !turn.openedExplicitly && !(turn.sawCompaction && turn.items.isEmpty) then builder.finishCurrentTurn
        else builder
    | none => builder
  builder.pushNumbered fun id => .userMessage id (buildUserInputs payload)

def handleAgentMessage (builder : ThreadHistoryBuilder) (text : Str) : ThreadHistoryBuilder :=
  if text = [] then builder else builder.pushNumbered fun id => .agentMessage id text

/-- Both kinds of reasoning: the text goes to the last item if it is a reasoning item, else to a new one. -/
def handleReasoning (builder : ThreadHistoryBuilder) (text : Str) (extend : List Str × List Str → List Str × List Str) :
    ThreadHistoryBuilder :=
  if text = [] then builder
  else
    let turn := builder.currentTurn.getD (builder.newTurn none)
    match turn.items.getLast? with
    | some (.reasoning id summary content) =>
        let (summary, content) := extend (summary, content)
        builder.withTurn fun turn => { turn with items := turn.items.dropLast ++ [.reasoning id summary content] }
    | _ =>
        let (summary, content) := extend ([], [])
        builder.pushNumbered fun id => .reasoning id summary content

def handleAgentReasoning (builder : ThreadHistoryBuilder) (text : Str) : ThreadHistoryBuilder :=
  builder.handleReasoning text fun (summary, content) => (summary ++ [text], content)

def handleAgentReasoningRawContent (builder : ThreadHistoryBuilder) (text : Str) : ThreadHistoryBuilder :=
  builder.handleReasoning text fun (summary, content) => (summary, content ++ [text])

def handleError (builder : ThreadHistoryBuilder) (affectsTurnStatus : Bool) : ThreadHistoryBuilder :=
  if affectsTurnStatus then
    { builder with currentTurn := builder.currentTurn.map fun turn => { turn with status := .failed } }
  else builder

def handleTurnAborted (builder : ThreadHistoryBuilder) (turnId : Option Str) : ThreadHistoryBuilder :=
  let abortCurrent : ThreadHistoryBuilder :=
    { builder with currentTurn := builder.currentTurn.map fun turn => { turn with status := .interrupted } }
  match turnId with
  | some turnId =>
      if builder.currentTurn.any fun turn => turn.id = turnId then abortCurrent
      else if builder.turns.any fun turn => turn.id = turnId then
        { builder with turns := updateTurn builder.turns turnId fun turn => { turn with status := .interrupted } }
      else abortCurrent
  | none => abortCurrent

def handleTurnStarted (builder : ThreadHistoryBuilder) (turnId : Str) : ThreadHistoryBuilder :=
  let builder := builder.finishCurrentTurn
  let turn : PendingTurn := { builder.newTurn (some turnId) with status := .inProgress, openedExplicitly := true }
  { builder with currentTurn := some turn }

def markCompleted (status : TurnStatus) : TurnStatus :=
  match status with
  | .completed | .inProgress => .completed
  | status => status

def handleTurnComplete (builder : ThreadHistoryBuilder) (turnId : Str) : ThreadHistoryBuilder :=
  let completeCurrent : ThreadHistoryBuilder :=
    { builder with
      currentTurn := builder.currentTurn.map fun turn => { turn with status := markCompleted turn.status } }
  if builder.currentTurn.any fun turn => turn.id = turnId then completeCurrent.finishCurrentTurn
  else if builder.turns.any fun turn => turn.id = turnId then
    { builder with
      turns := updateTurn builder.turns turnId fun turn => { turn with status := markCompleted turn.status } }
  else completeCurrent.finishCurrentTurn

def handleThreadRollback (builder : ThreadHistoryBuilder) (numTurns : Nat) : ThreadHistoryBuilder :=
  let builder := builder.finishCurrentTurn
  let turns :=
    if numTurns ≥ builder.turns.length then [] else builder.turns.take (builder.turns.length - numTurns)
  { builder with turns := turns, nextItemIndex := (turns.map fun turn => turn.items.length).sum + 1 }

def handleEvent (builder : ThreadHistoryBuilder) : EventMsg → ThreadHistoryBuilder
  | .userMessage payload => builder.handleUserMessage payload
  | .agentMessage message => builder.handleAgentMessage message
  | .agentReasoning text => builder.handleAgentReasoning text
  | .agentReasoningRawContent text => builder.handleAgentReasoningRawContent text
  | .toolItemInCurrentTurn itemId => builder.upsertItemInCurrentTurn (.tool itemId)
  | .toolItemInTurn turnId itemId => builder.upsertItemInTurnId turnId (.tool itemId)
  | .contextCompacted => builder.pushNumbered .contextCompaction
  | .enteredReviewMode review => builder.pushNumbered fun id => .enteredReviewMode id review
  | .exitedReviewMode review => builder.pushNumbered fun id => .exitedReviewMode id review
  | .error affectsTurnStatus => builder.handleError affectsTurnStatus
  | .threadRolledBack numTurns => builder.handleThreadRollback numTurns.toNat
  | .turnAborted turnId => builder.handleTurnAborted turnId
  | .turnStarted turnId => builder.handleTurnStarted turnId
  | .turnComplete turnId => builder.handleTurnComplete turnId
  | .other => builder

/-- `parse_hook_prompt_message(..).is_some()`. -/
def isHookPromptMessage (env : Externals) (content : List ContentItem) : Bool :=
  !content.isEmpty && content.all fun item => match item with
    | .inputText text => env.isHookPromptFragment text
    | _ => false

def handleResponseItem (env : Externals) (builder : ThreadHistoryBuilder) : ResponseItem → ThreadHistoryBuilder
  | .message id role content _ =>
      if role = "user".toList && isHookPromptMessage env content then builder.withTurn (pushItem (.hookPrompt id))
      else builder
  | _ => builder

def handleRolloutItem (env : Externals) (builder : ThreadHistoryBuilder) (item : RolloutItem) : ThreadHistoryBuilder :=
  let builder :=
    { builder with
      currentRolloutIndex := builder.nextRolloutIndex, nextRolloutIndex := builder.nextRolloutIndex + 1 }
  match item with
  | .eventMsg event => builder.handleEvent event
  | .compacted _ => builder.withTurn fun turn => { turn with sawCompaction := true }
  | .responseItem item => builder.handleResponseItem env item
  | .turnContext _ => builder
  | .sessionMeta => builder

end ThreadHistoryBuilder

end Codrex.History
