import Codrex.Lib.RollbackStack
import Codrex.History.ThreadHistory
import Mathlib.Data.List.DropRight

/-!
# What a history is for

Calls and the outputs that answer them, the turns of a rollout that hold a checkpoint, and the user messages that are
left after rollbacks. The turns that are left on a stack.
-/

namespace Codrex.History

open Text Fallible

/-! ## Calls and outputs -/

/-- The kinds of outputs; a local shell call is answered like a function call. -/
inductive OutputKind
  | function
  | custom
  | toolSearch
  deriving DecidableEq

def ContentItem.isImage : ContentItem → Bool
  | inputImage _ _ => true
  | _ => false

def FunctionCallOutputContentItem.isImage : FunctionCallOutputContentItem → Bool
  | inputImage _ _ => true
  | _ => false

def FunctionCallOutputPayload.hasImage (output : FunctionCallOutputPayload) : Bool :=
  match output.body with
  | .contentItems items => items.any (·.isImage)
  | .text _ => false

namespace ResponseItem

/-- The kind and the id of the output that a call waits for. -/
def callKey : ResponseItem → Option (OutputKind × Str)
  | functionCall _ _ _ _ callId => some (.function, callId)
  | localShellCall _ (some callId) => some (.function, callId)
  | customToolCall _ _ callId _ _ => some (.custom, callId)
  | toolSearchCall _ (some callId) _ _ _ => some (.toolSearch, callId)
  | _ => none

def isCall (item : ResponseItem) : Bool := item.callKey.isSome

def outputKey : ResponseItem → Option (OutputKind × Str)
  | functionCallOutput callId _ => some (.function, callId)
  | customToolCallOutput callId _ _ => some (.custom, callId)
  | toolSearchOutput (some callId) _ _ _ => some (.toolSearch, callId)
  | _ => none

/-- The call that an output needs. What the server searched for needs none. -/
def neededKey : ResponseItem → Option (OutputKind × Str)
  | toolSearchOutput callId _ execution _ =>
      if execution = "server".toList then none else callId.map fun callId => (.toolSearch, callId)
  | item => item.outputKey

def hasImage : ResponseItem → Bool
  | message _ _ content _ => content.any (·.isImage)
  | functionCallOutput _ output => output.hasImage
  | customToolCallOutput _ _ output => output.hasImage
  | imageGenerationCall _ _ _ result => !result.isEmpty
  | _ => false

/-- An output without its call. -/
def IsOrphan (items : List ResponseItem) (item : ResponseItem) : Prop :=
  ∃ key, item.neededKey = some key ∧ ∀ call ∈ items, call.callKey ≠ some key

end ResponseItem

/-- An item as the model may see it. -/
def strip (inputModalities : List InputModality) (item : ResponseItem) : ResponseItem :=
  if .image ∈ inputModalities then item else item.stripImages

/-- The output that is added for a call. -/
def synthetic : OutputKind × Str → ResponseItem
  | (.function, callId) => .functionCallOutput callId (.fromText "aborted")
  | (.custom, callId) => .customToolCallOutput callId none (.fromText "aborted")
  | (.toolSearch, callId) => .toolSearchOutput (some callId) "completed" "client" []

/-- What stands in the prompt for one item of the history. -/
def render (inputModalities : List InputModality) (items : List ResponseItem) (item : ResponseItem) :
    List ResponseItem :=
  (((item :: (missingOutput items item).toList).filter (hasMatch items)).map (strip inputModalities)).filter
    fun item => !item.isGhostSnapshot

/-! ## Trimming -/

/-- The kind and the id under which an item is a call or an output. -/
def ResponseItem.pairKey (item : ResponseItem) : Option (OutputKind × Str) := item.callKey.or item.outputKey

/-- Every call has an output and every output has a call, under one kind and id. -/
structure PairsUp (items : List ResponseItem) : Prop where
  answered : ∀ call ∈ items, ∀ key, call.callKey = some key → ∃ output ∈ items, output.outputKey = some key
  called : ∀ output ∈ items, ∀ key, output.outputKey = some key → ∃ call ∈ items, call.callKey = some key

def callCount (items : List ResponseItem) (key : OutputKind × Str) : Nat :=
  items.countP fun item => item.callKey = some key

def outputCount (items : List ResponseItem) (key : OutputKind × Str) : Nat :=
  items.countP fun item => item.outputKey = some key

inductive TrimStep
  | first
  | last
  deriving DecidableEq

namespace TrimStep

def removed (items : List ResponseItem) : TrimStep → Option ResponseItem
  | first => items.head?
  | last => items.getLast?

def apply (history : ContextManager) : TrimStep → ContextManager
  | first => history.removeFirstItem
  | last => history.removeLastItem.1

end TrimStep

def trim (history : ContextManager) (steps : List TrimStep) : ContextManager := steps.foldl TrimStep.apply history

/-! ## Dropped turns -/

section DroppedTurns

variable (env : Externals)

/-- A message that the walk back from a turn passes. -/
def ResponseItem.isContext : ResponseItem → Bool
  | message _ role content _ =>
      (role = "developer".toList && isContextualDevMessageContent content) ||
        (role = "user".toList && isContextualUserMessageContent env content)
  | _ => false

/-- A developer message of the initial context, with contextual fragments and others. -/
def ResponseItem.isMixedBundle : ResponseItem → Bool
  | message _ role content _ =>
      role = "developer".toList && isContextualDevMessageContent content && hasNonContextualDevMessageContent content
  | _ => false

def turnCount (items : List ResponseItem) : Nat := (ContextManager.userMessagePositions env items).length

/-- Where the last `numTurns` turns begin; the first turn begins there if there are no more than these. -/
def turnStart (items : List ResponseItem) (numTurns : Nat) : Nat :=
  (ContextManager.userMessagePositions env items)[turnCount env items - numTurns]?.getD items.length

/-- The contextual messages right above the last `numTurns` turns, if a turn stands in front of them. -/
def turnContext (items : List ResponseItem) (numTurns : Nat) : List ResponseItem :=
  if 0 < numTurns ∧ numTurns < turnCount env items then
    (items.take (turnStart env items numTurns)).rtakeWhile (·.isContext env)
  else []

def HasMixedBundle (items : List ResponseItem) : Prop := ∃ item ∈ items, item.isMixedBundle = true

/-- What is promised of a rollback by `n` turns, and of one by `m` more behind it. Nothing that is removed stands in front
of the first turn. -/
structure RollsBack (history : ContextManager) (n m : Nat) : Prop where
  items : ((history.dropLastNUserTurns env n).dropLastNUserTurns env m).items =
    (history.dropLastNUserTurns env (n + m)).items
  reference : ((history.dropLastNUserTurns env n).dropLastNUserTurns env m).referenceContextItem =
    (history.dropLastNUserTurns env (n + m)).referenceContextItem
  starts : (history.dropLastNUserTurns env n).items <+: history.items
  turns : turnCount env (history.dropLastNUserTurns env n).items = turnCount env history.items - n
  front : (history.items.takeWhile fun item => !isUserTurnBoundary env item) <+:
    (history.dropLastNUserTurns env n).items
  clears : HasMixedBundle (history.items.drop (history.dropLastNUserTurns env n).items.length) →
    (history.dropLastNUserTurns env n).referenceContextItem = none

end DroppedTurns

/-! ## Turns with a checkpoint -/

/-- A compaction that says what the history is to be. -/
def RolloutItem.checkpoint : RolloutItem → Option (List ResponseItem)
  | compacted ⟨_, replacementHistory⟩ => replacementHistory
  | _ => none

inductive Fate
  | survives
  | rolledBack
  deriving DecidableEq

/-- What is seen of a turn, from its end back. -/
structure TurnView where
  turnId : Option Str
  isUserTurn : Bool
  hasCheckpoint : Bool
  deriving DecidableEq

/-- A walk back over the turns: the rollbacks that wait for a turn, the turn it is in, and what became of the turns with
a checkpoint, the newest first. -/
structure TurnWalk where
  pending : Nat
  current : Option TurnView
  checkpointTurns : List Fate
  deriving DecidableEq

namespace TurnWalk

def update (walk : TurnWalk) (f : TurnView → TurnView) : TurnWalk :=
  { walk with current := some (f (walk.current.getD ⟨none, false, false⟩)) }

/-- The turn is over; a rollback that waits drops it, and is used up if it is a user turn. -/
def close (walk : TurnWalk) : TurnWalk :=
  match walk.current with
  | none => walk
  | some turn =>
      let fate := if walk.pending > 0 then .rolledBack else .survives
      ⟨if turn.isUserTurn then walk.pending - 1 else walk.pending, none,
        walk.checkpointTurns ++ if turn.hasCheckpoint then [fate] else []⟩

def item (env : Externals) (walk : TurnWalk) : RolloutItem → TurnWalk
  | .compacted compacted =>
      walk.update fun turn => { turn with hasCheckpoint := turn.hasCheckpoint || compacted.replacementHistory.isSome }
  | .eventMsg (.threadRolledBack numTurns) => { walk with pending := saturatingAdd walk.pending numTurns.toNat }
  | .eventMsg (.turnComplete turnId) => walk.update fun turn => { turn with turnId := turn.turnId.or (some turnId) }
  | .eventMsg (.turnAborted turnId) =>
      if walk.current.isSome || turnId.isSome then
        walk.update fun turn => { turn with turnId := turn.turnId.or turnId }
      else walk
  | .eventMsg (.userMessage _) => walk.update fun turn => { turn with isUserTurn := true }
  | .turnContext context => walk.update fun turn => { turn with turnId := turn.turnId.or context.turnId }
  | .eventMsg (.turnStarted turnId) =>
      match walk.current with
      | some turn => if turnIdsAreCompatible turn.turnId (some turnId) then walk.close else walk
      | none => walk
  | .responseItem item =>
      walk.update fun turn => { turn with isUserTurn := turn.isUserTurn || isUserTurnBoundary env item }
  | _ => walk

end TurnWalk

/-- What becomes of the turns that hold a checkpoint, the newest first. -/
def checkpointTurns (env : Externals) (items : List RolloutItem) : List Fate :=
  (items.foldr (fun item walk => walk.item env item) ⟨0, none, []⟩ : TurnWalk).close.checkpointTurns

/-! ## User messages and rollbacks -/

/-- A user message, as the model sees it and as it is shown. -/
structure UserMessage where
  item : ResponseItem
  event : UserMessageEvent
  deriving DecidableEq

/-- A rollout in explicit turns, with rollbacks between them. -/
inductive Entry
  | turn (turnId : Str) (body : List RolloutItem) (message : Option UserMessage)
  | rollback (numTurns : UInt32)
  deriving DecidableEq

def Entry.items : Entry → List RolloutItem
  | turn turnId body _ => .eventMsg (.turnStarted turnId) :: body ++ [.eventMsg (.turnComplete turnId)]
  | rollback numTurns => [.eventMsg (.threadRolledBack numTurns)]

def RolloutItem.userMessageEvent : RolloutItem → Option UserMessageEvent
  | eventMsg (.userMessage payload) => some payload
  | _ => none

def RolloutItem.boundary (env : Externals) : RolloutItem → Option ResponseItem
  | responseItem item => if isUserTurnBoundary env item then some item else none
  | _ => none

/-- What may stand inside of a turn. The id of a tool's item is not one of the numbers under which messages are shown. -/
def RolloutItem.InTurn : RolloutItem → Prop
  | compacted _ => False
  | eventMsg (.turnStarted _) => False
  | eventMsg (.turnComplete _) => False
  | eventMsg (.threadRolledBack _) => False
  | eventMsg (.toolItemInCurrentTurn itemId) => ∀ index, itemId ≠ History.itemId index
  | eventMsg (.toolItemInTurn _ itemId) => ∀ index, itemId ≠ History.itemId index
  | _ => True

/-- The turn has at most one user message, once as a response item and once as an event. -/
def Entry.WellFormed (env : Externals) : Entry → Prop
  | turn _ body message =>
      (∀ item ∈ body, item.InTurn) ∧ body.filterMap (·.userMessageEvent) = message.toList.map (·.event) ∧
        body.filterMap (·.boundary env) = message.toList.map (·.item)
  | rollback _ => True

def messages (entries : List Entry) : List UserMessage :=
  entries.flatMap fun entry => match entry with
    | .turn _ _ message => message.toList
    | .rollback _ => []

def ThreadItem.userContent : ThreadItem → Option (List ShownInput)
  | userMessage _ content => some content
  | _ => none

/-- The user messages of the history. -/
def historyMessages (env : Externals) (items : List ResponseItem) : List ResponseItem :=
  items.filter (isUserTurnBoundary env)

structure FinishedTurn where
  turnId : Str
  body : List RolloutItem
  deriving DecidableEq

namespace FinishedTurn

def items (turn : FinishedTurn) : List RolloutItem :=
  .eventMsg (.turnStarted turn.turnId) :: turn.body ++ [.eventMsg (.turnComplete turn.turnId)]

def isUserTurn (env : Externals) (turn : FinishedTurn) : Bool :=
  turn.body.any fun item => match item with
    | .eventMsg (.userMessage _) => true
    | .responseItem item => isUserTurnBoundary env item
    | _ => false

/-- The context that the item sets for the turn. One that names another turn sets none. -/
def contextOf (turn : FinishedTurn) : RolloutItem → Option TurnContextItem
  | .turnContext context => if context.turnId.all (· = turn.turnId) then some context else none
  | _ => none

/-- Of several contexts, the first one. -/
def settings (turn : FinishedTurn) : Option PreviousTurnSettings :=
  (turn.body.findSome? turn.contextOf).map fun context => ⟨context.model, context.realtimeActive⟩

/-- A baseline event sets the context or, if it is a compaction, clears it. -/
def baselineOf (turn : FinishedTurn) : RolloutItem → Option (Option TurnContextItem)
  | .compacted _ => some none
  | item => (turn.contextOf item).map some

def lastBaseline (turn : FinishedTurn) : Option (Option TurnContextItem) := turn.body.reverse.findSome? turn.baselineOf

end FinishedTurn

/-- A turn, a rollback between turns, or an item beside them that says nothing about a turn. -/
inductive RolloutPart
  | turn (finished : FinishedTurn)
  | rolledBack (numTurns : UInt32)
  | beside (item : RolloutItem)
  deriving DecidableEq

namespace RolloutPart

def items : RolloutPart → List RolloutItem
  | turn finished => finished.items
  | rolledBack numTurns => [.eventMsg (.threadRolledBack numTurns)]
  | beside item => [item]

def event? : RolloutPart → Option (RollbackStack.Event FinishedTurn)
  | turn finished => some (.push finished)
  | rolledBack numTurns => some (.rollback numTurns.toNat)
  | beside _ => none

def turnId? : RolloutPart → Option Str
  | turn finished => some finished.turnId
  | _ => none

end RolloutPart

namespace RolloutItem

/-- What may stand in a turn. A compaction says what the history is to be. -/
def IsInside : RolloutItem → Prop
  | compacted item => item.replacementHistory.isSome = true
  | eventMsg (.turnStarted _) => False
  | eventMsg (.turnComplete _) => False
  | eventMsg (.threadRolledBack _) => False
  | _ => True

def IsBeside : RolloutItem → Prop
  | sessionMeta => True
  | eventMsg (.turnStarted _) => False
  | eventMsg (.turnComplete _) => False
  | eventMsg (.turnAborted _) => False
  | eventMsg (.threadRolledBack _) => False
  | eventMsg (.userMessage _) => False
  | eventMsg _ => True
  | _ => False

end RolloutItem

/-- A rollout of finished turns. It is a slice, which has at most `isize::MAX` items. -/
structure TurnRollout where
  parts : List RolloutPart
  inside : ∀ turn, .turn turn ∈ parts → ∀ item ∈ turn.body, item.IsInside
  beside : ∀ item, .beside item ∈ parts → item.IsBeside
  distinct : (parts.filterMap RolloutPart.turnId?).Nodup
  fits : (parts.flatMap RolloutPart.items).length < 2 ^ 63

namespace TurnRollout

def items (rollout : TurnRollout) : List RolloutItem := rollout.parts.flatMap RolloutPart.items

/-- The turns that survive, the newest first. -/
def stack (env : Externals) (rollout : TurnRollout) : List FinishedTurn :=
  RollbackStack.stackOf (FinishedTurn.isUserTurn env) (rollout.parts.filterMap RolloutPart.event?)

end TurnRollout

/-- From the topmost user turn with a context. -/
def topSettings (env : Externals) (stack : List FinishedTurn) : Option PreviousTurnSettings :=
  stack.findSome? fun turn => if turn.isUserTurn env then turn.settings else none

/-- From the topmost user turn with a baseline event, or any turn where the last one is a compaction. -/
def topBaseline (env : Externals) (stack : List FinishedTurn) : Option (Option TurnContextItem) :=
  stack.findSome? fun turn => turn.lastBaseline.filter fun baseline => turn.isUserTurn env || baseline.isNone

/-- The scan without the early break. -/
def ReverseScan.runWhole (env : Externals) (rolloutItems : List RolloutItem) : ReverseScan :=
  let scan := rolloutItems.zipIdx.reverse.foldl (fun scan entry => scanItem env scan entry.2 entry.1) start
  match scan.activeSegment with
  | some segment => finalizeActiveSegment { scan with activeSegment := none } segment
  | none => scan

end Codrex.History
