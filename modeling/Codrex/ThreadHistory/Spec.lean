import Codrex.Lib.Transition
import Codrex.ThreadHistory.Builder

/-!
# What the turns that are shown promise

Ids that the builder gives to items stay apart, and what an event shows goes to the turn that it names.
-/

namespace Codrex.ThreadHistory

open Text

/-! ## Ids of items -/

/-- The items under an id of `next_item_id`. The others come under an id of their event. -/
def ThreadItem.hasGeneratedId : ThreadItem → Bool
  | userMessage _ _ | agentMessage _ _ _ _ | reasoning _ _ _ | contextCompaction _ | enteredReviewMode _ _
  | exitedReviewMode _ _ => true
  | _ => false

def ThreadItem.isHookPrompt : ThreadItem → Bool
  | hookPrompt _ _ => true
  | _ => false

def TurnItem.shown : TurnItem → Option ThreadItem
  | plan item => if item.text = [] then none else some (.plan item.id item.text)
  | other => none

/-- The item that an event shows under its own id. -/
def EventMsg.item (ext : Externals) : EventMsg → Option ThreadItem
  | webSearchBegin callId => some (.webSearch callId [] none)
  | webSearchEnd payload => some (.webSearch payload.callId payload.query (some payload.action))
  | execCommandBegin payload => some (buildCommandExecutionBeginItem ext payload)
  | execCommandEnd payload => some (buildCommandExecutionEndItem ext payload)
  | guardianAssessment payload =>
      (ThreadHistoryBuilder.guardianStatus payload.status).bind (buildItemFromGuardianEvent ext payload)
  | applyPatchApprovalRequest payload => some (buildFileChangeApprovalRequestItem payload)
  | patchApplyBegin payload => some (buildFileChangeBeginItem payload)
  | patchApplyEnd payload => some (buildFileChangeEndItem payload)
  | dynamicToolCallRequest payload => some (dynamicToolCallRequestItem payload)
  | dynamicToolCallResponse payload => some (dynamicToolCallResponseItem payload)
  | mcpToolCallBegin payload => some (mcpToolCallBeginItem payload)
  | mcpToolCallEnd payload => some (mcpToolCallEndItem payload)
  | viewImageToolCall payload => some (.imageView payload.callId payload.path)
  | imageGenerationBegin callId => some (.imageGeneration callId [] none [] none)
  | imageGenerationEnd payload =>
      some (.imageGeneration payload.callId payload.status payload.revisedPrompt payload.result payload.savedPath)
  | collabAgentSpawnBegin payload => some (collabAgentSpawnBeginItem payload)
  | collabAgentSpawnEnd payload => some (collabAgentSpawnEndItem payload)
  | collabAgentInteractionBegin payload => some (collabAgentInteractionBeginItem payload)
  | collabAgentInteractionEnd payload => some (collabAgentInteractionEndItem payload)
  | collabWaitingBegin payload => some (collabWaitingBeginItem payload)
  | collabWaitingEnd payload => some (collabWaitingEndItem payload)
  | collabCloseBegin payload => some (collabReceiverBeginItem .closeAgent payload)
  | collabCloseEnd payload => some (collabReceiverEndItem .closeAgent payload)
  | collabResumeBegin payload => some (collabReceiverBeginItem .resumeAgent payload)
  | collabResumeEnd payload => some (collabReceiverEndItem .resumeAgent payload)
  | itemStarted payload | itemCompleted payload => payload.item.shown
  | _ => none

/-- The turn that an event names. Patches, assessments and dynamic tools may leave it empty. -/
def EventMsg.turnId : EventMsg → Option Str
  | execCommandBegin payload => some payload.turnId
  | execCommandEnd payload => some payload.turnId
  | itemStarted payload | itemCompleted payload => some payload.turnId
  | guardianAssessment payload => if payload.turnId = [] then none else some payload.turnId
  | applyPatchApprovalRequest payload | patchApplyBegin payload =>
      if payload.turnId = [] then none else some payload.turnId
  | patchApplyEnd payload => if payload.turnId = [] then none else some payload.turnId
  | dynamicToolCallRequest payload => if payload.turnId = [] then none else some payload.turnId
  | dynamicToolCallResponse payload => if payload.turnId = [] then none else some payload.turnId
  | _ => none

/-- The call that an event is about, when it names its turn. -/
def EventMsg.callId : EventMsg → Option Str
  | execCommandBegin payload => some payload.callId
  | execCommandEnd payload => some payload.callId
  | itemStarted payload | itemCompleted payload =>
      match payload.item with
      | .plan plan => some plan.id
      | .other => none
  | guardianAssessment payload => payload.targetItemId
  | applyPatchApprovalRequest payload | patchApplyBegin payload => some payload.callId
  | patchApplyEnd payload => some payload.callId
  | dynamicToolCallRequest payload => some payload.callId
  | dynamicToolCallResponse payload => some payload.callId
  | _ => none

def Input.event? : Input → Option EventMsg
  | rolloutItem (.eventMsg msg) => some msg
  | rolloutItem _ => none
  | event msg => some msg

def Input.item (ext : Externals) (input : Input) : Option ThreadItem := input.event?.bind (EventMsg.item ext)

namespace ThreadHistoryBuilder

/-- The turns, the open one last. -/
def held (builder : ThreadHistoryBuilder) : List Turn :=
  builder.turns ++ (builder.currentTurn.map PendingTurn.toTurn).toList

def items (builder : ThreadHistoryBuilder) : List ThreadItem := builder.held.flatMap Turn.items

def run (ext : Externals) (inputs : List (Str × Input)) : ThreadHistoryBuilder :=
  Transition.run (feed ext) new inputs

def generatedIds (builder : ThreadHistoryBuilder) : List Str :=
  (builder.items.filter ThreadItem.hasGeneratedId).map ThreadItem.id

/-! ## Ids of turns -/

/-- The ids of the turns that an input opens. -/
def opened (ext : Externals) (builder : ThreadHistoryBuilder) (input : Str × Input) : List Str :=
  ((builder.feed ext input).held.drop builder.held.length).map Turn.id

def openedIds (ext : Externals) (inputs : List (Str × Input)) : List Str :=
  Transition.outputs (feed ext) (opened ext) new inputs

end ThreadHistoryBuilder

def Input.startedId (input : Input) : Option Str :=
  match input.event? with
  | some (.turnStarted payload) => some payload.turnId
  | _ => none

def explicitIds (inputs : List (Str × Input)) : List Str := inputs.filterMap fun input => input.2.startedId

/-- No two turns are opened under the id of an explicit one. -/
def DistinctExplicit (ext : Externals) (inputs : List (Str × Input)) : Prop :=
  ∀ turnId ∈ explicitIds inputs, turnId ≠ [] ∧ (ThreadHistoryBuilder.openedIds ext inputs).count turnId = 1

instance (ext : Externals) (inputs : List (Str × Input)) : Decidable (DistinctExplicit ext inputs) :=
  inferInstanceAs (Decidable (∀ turnId ∈ explicitIds inputs,
    turnId ≠ [] ∧ (ThreadHistoryBuilder.openedIds ext inputs).count turnId = 1))

/-! ## Routes -/

/-- The first item with the id gives way to `item`, or `item` comes to the end. -/
def ChangesOnly (item : ThreadItem) (before after : List ThreadItem) : Prop :=
  (∃ (position : Nat) (other : ThreadItem), before[position]? = some other ∧ other.id = item.id ∧
    after = before.set position item) ∨
  ((∀ other ∈ before, other.id ≠ item.id) ∧ after = before ++ [item])

namespace ThreadHistoryBuilder

structure SameTurns (before after : ThreadHistoryBuilder) : Prop where
  turns : after.turns = before.turns
  currentTurn : after.currentTurn = before.currentTurn
  nextItemIndex : after.nextItemIndex = before.nextItemIndex

/-- At most the item goes to the turn with the id, open or finished; all else stays. -/
structure RoutesTo (turnId : Str) (item : Option ThreadItem) (before after : ThreadHistoryBuilder) : Prop where
  dropped : (item = none ∨ ∀ turn ∈ before.held, turn.id ≠ turnId) → SameTurns before after
  routed : ∀ shown ∈ item, (∃ turn ∈ before.held, turn.id = turnId) →
    ∃ (position : Nat) (turn : Turn) (items : List ThreadItem), before.held[position]? = some turn ∧
      turn.id = turnId ∧ ChangesOnly shown turn.items items ∧
      after.held = before.held.set position { turn with items := items }
  isOpen : after.currentTurn.isSome = before.currentTurn.isSome
  nextItemIndex : after.nextItemIndex = before.nextItemIndex

/-- The builder with the index of the next rollout item. -/
def atRolloutItem (builder : ThreadHistoryBuilder) : ThreadHistoryBuilder :=
  { builder with
    currentRolloutIndex := builder.nextRolloutIndex, nextRolloutIndex := builder.nextRolloutIndex + 1 }

/-- The id of the turn in which an event is shown, and its item. -/
def shownBy (ext : Externals) (fresh : Str) (builder : ThreadHistoryBuilder) (event : EventMsg) :
    Option (Str × ThreadItem) :=
  (event.item ext).map fun item => (event.turnId.getD (builder.ensureTurn fresh).id, item)

/-- The same for an input. -/
def shows (ext : Externals) (builder : ThreadHistoryBuilder) (input : Str × Input) : Option (Str × ThreadItem) :=
  match input with
  | (fresh, .rolloutItem (.eventMsg event)) => builder.atRolloutItem.shownBy ext fresh event
  | (_, .rolloutItem _) => none
  | (fresh, .event event) => builder.shownBy ext fresh event

end ThreadHistoryBuilder

open ThreadHistoryBuilder

/-- What is dropped never comes back. -/
def StaysGone (ext : Externals) (inputs : List (Str × Input)) (turnId : Str) : Prop :=
  ∀ front rest, inputs = front ++ rest → turnId ∈ openedIds ext front →
    (∀ turn ∈ (run ext front).held, turn.id ≠ turnId) → ∀ turn ∈ (run ext inputs).held, turn.id ≠ turnId

/-- In a turn that is still there, an item is as the last event for it showed it. -/
def LastShown (ext : Externals) (inputs : List (Str × Input)) (turnId : Str) : Prop :=
  ∀ front input rest, inputs = front ++ input :: rest →
    ∀ item, (run ext front).shows ext input = some (turnId, item) →
    (∃ turn ∈ (run ext (front ++ [input])).held, turn.id = turnId) →
    (∀ between later after, rest = between ++ later :: after →
      ∀ other, (run ext (front ++ input :: between)).shows ext later = some (turnId, other) → other.id ≠ item.id) →
    ∀ turn ∈ (run ext inputs).held, turn.id = turnId → Keyed.find ThreadItem.id item.id turn.items = some item

/-- The snapshot of the active turn is the turn that `finish` puts at its position. -/
def SnapshotFinishes (builder : ThreadHistoryBuilder) : Prop :=
  ∀ turn, builder.activeTurnSnapshot = some turn →
    ∃ position, builder.activeTurnPosition = some position ∧ builder.finish[position]? = some turn

/-- Events that name their turn keep to it, and the snapshot is what will be finished. -/
structure KeepsToTurns (ext : Externals) (inputs : List (Str × Input)) : Prop where
  routed : ∀ {input : Str × Input} {event : EventMsg} {turnId : Str}, input.2.event? = some event →
    event.turnId = some turnId →
    RoutesTo turnId (event.item ext) (run ext inputs) ((run ext inputs).feed ext input)
  alone : ∀ turnId ∈ explicitIds inputs, ((run ext inputs).held.map Turn.id).count turnId ≤ 1
  neverOpened : ∀ turnId ∉ openedIds ext inputs, ∀ turn ∈ (run ext inputs).held, turn.id ≠ turnId
  staysGone : ∀ turnId ∈ explicitIds inputs, StaysGone ext inputs turnId
  lastShown : ∀ turnId, (openedIds ext inputs).count turnId = 1 → LastShown ext inputs turnId
  snapshot : SnapshotFinishes (run ext inputs)

namespace ThreadHistoryBuilder

def itemAt (builder : ThreadHistoryBuilder) (turnId callId : Str) : Option ThreadItem :=
  (builder.held.find? fun turn => turn.id = turnId).bind fun turn => Keyed.find ThreadItem.id callId turn.items

end ThreadHistoryBuilder

/-- The last event that names the turn and the call, whatever it shows, settles the item. -/
def LastEventDetermines (ext : Externals) : Prop :=
  ∀ (first second : List (Str × Input)) (input : Str × Input) (event : EventMsg) (turnId callId : Str),
    input.2.event? = some event → event.turnId = some turnId → event.callId = some callId →
    DistinctExplicit ext (first ++ [input]) → DistinctExplicit ext (second ++ [input]) →
    turnId ∈ (run ext first).held.map Turn.id → turnId ∈ (run ext second).held.map Turn.id →
    (run ext (first ++ [input])).itemAt turnId callId = (run ext (second ++ [input])).itemAt turnId callId

end Codrex.ThreadHistory
