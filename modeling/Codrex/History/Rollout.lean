import Codrex.History.ContextManager

/-!
# Rebuilding a history from its rollout (`core/src/session/rollout_reconstruction.rs`)

With the legacy compaction of `core/src/compact.rs`.
-/

namespace Codrex.History

open Text Fallible

structure UserMessageEvent where
  message : Str
  images : Option (List Str)
  localImages : List Str
  deriving DecidableEq

/-- The events a rollout holds. Those that show the work of a tool differ only in the item they show and in the turn
they name; what makes up the item is left out. -/
inductive EventMsg
  | userMessage (payload : UserMessageEvent)
  | turnStarted (turnId : Str)
  | turnComplete (turnId : Str)
  | turnAborted (turnId : Option Str)
  | threadRolledBack (numTurns : UInt32)
  | agentMessage (message : Str)
  | agentReasoning (text : Str)
  | agentReasoningRawContent (text : Str)
  | contextCompacted
  | enteredReviewMode (review : Str)
  | exitedReviewMode (review : Str)
  | toolItemInCurrentTurn (itemId : Str)
  | toolItemInTurn (turnId itemId : Str)
  | error (affectsTurnStatus : Bool)
  | other
  deriving DecidableEq

structure CompactedItem where
  message : Str
  replacementHistory : Option (List ResponseItem)
  deriving DecidableEq

inductive RolloutItem
  | sessionMeta
  | responseItem (item : ResponseItem)
  | compacted (compacted : CompactedItem)
  | turnContext (context : TurnContextItem)
  | eventMsg (event : EventMsg)
  deriving DecidableEq

/-! ## Legacy compaction -/

section

variable (env : Externals)

inductive UserInput
  | text (text : Str)
  | image (imageUrl : Str)
  deriving DecidableEq

def isImageOpenTagText (text : Str) : Bool :=
  text = "<image>".toList ||
    match stripPrefix "<image name=" text with
    | some rest => ">".toList.isSuffixOf rest
    | none => false

def isImageCloseTagText (text : Str) : Bool := text = "</image>".toList

def ContentItem.isInputImage : ContentItem → Bool
  | inputImage _ _ => true
  | _ => false

/-- The inputs of a user message. The tags around an image are left out, and so is output text. -/
def userInputs (message : List ContentItem) : List UserInput :=
  message.zipIdx.flatMap fun (item, idx) => match item with
    | .inputText text =>
        let nextIsImage := (message[idx + 1]?.map (·.isInputImage)).getD false
        let lastIsImage := 0 < idx && (message[idx - 1]?.map (·.isInputImage)).getD false
        if (isImageOpenTagText text && nextIsImage) || (isImageCloseTagText text && lastIsImage) then []
        else [.text text]
    | .inputImage imageUrl _ => [.image imageUrl]
    | .outputText _ => []

def parseUserMessage (message : List ContentItem) : Option (List UserInput) :=
  if isContextualUserMessageContent env message then none else some (userInputs message)

/-- `parse_visible_hook_prompt_message(..).is_some()`. -/
def isVisibleHookPromptMessage (content : List ContentItem) : Bool :=
  (content.all fun item => match item with
    | .inputText text => env.isHookPromptFragment text || isStandardContextualUserText text
    | _ => false) &&
  content.any fun item => match item with
    | .inputText text => env.isHookPromptFragment text
    | _ => false

/-- `parse_turn_item`, where it gives a user message. -/
def parseUserTurnItem : ResponseItem → Option (List UserInput)
  | .message _ role content _ =>
      if role = "user".toList then
        if isVisibleHookPromptMessage env content then none else parseUserMessage env content
      else none
  | _ => none

def userMessageText (content : List UserInput) : Str :=
  content.flatMap fun input => match input with
    | .text text => text
    | .image _ => []

def summaryPrefix : Str :=
  "Another language model started to solve this problem and produced a summary of its thinking process. You also have access to the state of the tools that were used by that language model. Use this to build on the work that has already been done and avoid duplicating work. Here is the summary produced by the other language model, use the information in this summary to assist with your own analysis:"

def isSummaryMessage (message : Str) : Bool := (summaryPrefix ++ ['\n']).isPrefixOf message

def collectUserMessages (items : List ResponseItem) : List Str :=
  items.filterMap fun item =>
    match parseUserTurnItem env item with
    | some user => if isSummaryMessage (userMessageText user) then none else some (userMessageText user)
    | none => none

def compactUserMessageMaxTokens : Nat := 20000

def approxTokenCount (text : Str) : Nat := (byteLen text + 3) / 4

/-- The newest messages that fit, the newest first; the last one may be cut. -/
def selectMessages : List Str → Nat → List Str
  | [], _ => []
  | message :: older, remaining =>
      if remaining = 0 then []
      else
        let tokens := approxTokenCount message
        if tokens ≤ remaining then message :: selectMessages older (remaining - tokens)
        else [env.truncateText message remaining]

def buildCompactedHistory (initialContext : List ResponseItem) (userMessages : List Str) (summaryText : Str) :
    List ResponseItem :=
  let selectedMessages := (selectMessages env userMessages.reverse compactUserMessageMaxTokens).reverse
  let summaryText := if summaryText = [] then "(no summary available)".toList else summaryText
  initialContext ++
    (selectedMessages ++ [summaryText]).map fun message => .message none "user" [.inputText message] none

/-! ## Replay, oldest to newest -/

/-- One turn of the loop that materialises the history. -/
def replayItem (history : ContextManager) : RolloutItem → ContextManager
  | .responseItem item => history.recordItems env [item]
  | .compacted compacted =>
      match compacted.replacementHistory with
      | some replacementHistory => history.replace replacementHistory
      | none =>
          let userMessages := collectUserMessages env history.items
          history.replace (buildCompactedHistory env [] userMessages compacted.message)
  | .eventMsg (.threadRolledBack numTurns) => history.dropLastNUserTurns env numTurns.toNat
  | _ => history

def replay (history : ContextManager) (items : List RolloutItem) : ContextManager :=
  items.foldl (replayItem env) history

end

/-! ## The scan, newest to oldest -/

structure PreviousTurnSettings where
  model : Str
  realtimeActive : Option Bool
  deriving DecidableEq

inductive TurnReferenceContextItem
  | neverSet
  | cleared
  | latest (context : TurnContextItem)
  deriving DecidableEq

structure ActiveReplaySegment where
  turnId : Option Str
  countsAsUserTurn : Bool
  previousTurnSettings : Option PreviousTurnSettings
  referenceContextItem : TurnReferenceContextItem
  baseReplacementHistory : Option (List ResponseItem)
  deriving DecidableEq

def ActiveReplaySegment.default : ActiveReplaySegment := ⟨none, false, none, .neverSet, none⟩

def turnIdsAreCompatible (activeTurnId itemTurnId : Option Str) : Bool :=
  match activeTurnId, itemTurnId with
  | some turnId, some itemTurnId => itemTurnId = turnId
  | _, _ => true

/-- The variables of the reverse loop. `rollout_suffix` is known by the index it starts at. -/
structure ReverseScan where
  baseReplacementHistory : Option (List ResponseItem)
  previousTurnSettings : Option PreviousTurnSettings
  referenceContextItem : TurnReferenceContextItem
  pendingRollbackTurns : Nat
  suffixStart : Nat
  activeSegment : Option ActiveReplaySegment
  deriving DecidableEq

namespace ReverseScan

def start : ReverseScan := ⟨none, none, .neverSet, 0, 0, none⟩

/-- `finalize_active_segment`, for the segment that is given. -/
def finalizeActiveSegment (scan : ReverseScan) (segment : ActiveReplaySegment) : ReverseScan :=
  if scan.pendingRollbackTurns > 0 then
    if segment.countsAsUserTurn then { scan with pendingRollbackTurns := scan.pendingRollbackTurns - 1 } else scan
  else
    { scan with
      baseReplacementHistory := scan.baseReplacementHistory.or segment.baseReplacementHistory
      previousTurnSettings :=
        if scan.previousTurnSettings.isNone && segment.countsAsUserTurn then segment.previousTurnSettings
        else scan.previousTurnSettings
      referenceContextItem :=
        if scan.referenceContextItem = .neverSet &&
            (segment.countsAsUserTurn || segment.referenceContextItem = .cleared) then
          segment.referenceContextItem
        else scan.referenceContextItem }

/-- `get_or_insert_with(ActiveReplaySegment::default)`, then an update. -/
def updateSegment (scan : ReverseScan) (f : ActiveReplaySegment → ActiveReplaySegment) : ReverseScan :=
  { scan with activeSegment := some (f (scan.activeSegment.getD .default)) }

def turnStarted (scan : ReverseScan) (turnId : Str) : ReverseScan :=
  match scan.activeSegment with
  | some segment =>
      if turnIdsAreCompatible segment.turnId (some turnId) then
        finalizeActiveSegment { scan with activeSegment := none } segment
      else scan
  | none => scan

def compacted (scan : ReverseScan) (index : Nat) (compacted : CompactedItem) : ReverseScan :=
  let segment := scan.activeSegment.getD .default
  let segment :=
    if segment.referenceContextItem = .neverSet then { segment with referenceContextItem := .cleared } else segment
  match segment.baseReplacementHistory, compacted.replacementHistory with
  | none, some replacementHistory =>
      { scan with
        activeSegment := some { segment with baseReplacementHistory := some replacementHistory }
        suffixStart := index + 1 }
  | _, _ => { scan with activeSegment := some segment }

def turnContext (context : TurnContextItem) (segment : ActiveReplaySegment) : ActiveReplaySegment :=
  let segment := { segment with turnId := segment.turnId.or context.turnId }
  if turnIdsAreCompatible segment.turnId context.turnId then
    { segment with
      previousTurnSettings := some ⟨context.model, context.realtimeActive⟩
      referenceContextItem :=
        if segment.referenceContextItem = .neverSet then .latest context else segment.referenceContextItem }
  else segment

def turnAborted (scan : ReverseScan) (turnId : Option Str) : ReverseScan :=
  match scan.activeSegment, turnId with
  | some segment, _ => { scan with activeSegment := some { segment with turnId := segment.turnId.or turnId } }
  | none, some turnId => { scan with activeSegment := some { ActiveReplaySegment.default with turnId := some turnId } }
  | none, none => scan

section

variable (env : Externals)

def scanItem (scan : ReverseScan) (index : Nat) : RolloutItem → ReverseScan
  | .compacted compacted => scan.compacted index compacted
  | .eventMsg (.threadRolledBack numTurns) =>
      { scan with pendingRollbackTurns := saturatingAdd scan.pendingRollbackTurns numTurns.toNat }
  | .eventMsg (.turnComplete turnId) =>
      scan.updateSegment fun segment => { segment with turnId := segment.turnId.or (some turnId) }
  | .eventMsg (.turnAborted turnId) => scan.turnAborted turnId
  | .eventMsg (.userMessage _) => scan.updateSegment fun segment => { segment with countsAsUserTurn := true }
  | .turnContext context => scan.updateSegment (turnContext context)
  | .eventMsg (.turnStarted turnId) => scan.turnStarted turnId
  | .responseItem item =>
      scan.updateSegment fun segment =>
        { segment with countsAsUserTurn := segment.countsAsUserTurn || isUserTurnBoundary env item }
  | .eventMsg _ => scan
  | .sessionMeta => scan

/-- Nothing older can matter. -/
def isDone (scan : ReverseScan) : Bool :=
  scan.baseReplacementHistory.isSome && scan.previousTurnSettings.isSome && scan.referenceContextItem ≠ .neverSet

def scanLoop : List (RolloutItem × Nat) → ReverseScan → ReverseScan
  | [], scan => scan
  | (item, index) :: older, scan =>
      let scan := scan.scanItem env index item
      if scan.isDone then scan else scanLoop older scan

/-- The loop, and the segment that is left behind it. -/
def run (rolloutItems : List RolloutItem) : ReverseScan :=
  let scan := scanLoop env rolloutItems.zipIdx.reverse start
  match scan.activeSegment with
  | some segment => finalizeActiveSegment { scan with activeSegment := none } segment
  | none => scan

end

end ReverseScan

/-! ## Reconstruction -/

structure RolloutReconstruction where
  history : List ResponseItem
  previousTurnSettings : Option PreviousTurnSettings
  referenceContextItem : Option TurnContextItem
  deriving DecidableEq

def isLegacyCompaction : RolloutItem → Bool
  | .compacted ⟨_, none⟩ => true
  | _ => false

def reconstructHistoryFromRollout (env : Externals) (rolloutItems : List RolloutItem) : RolloutReconstruction :=
  let scan := ReverseScan.run env rolloutItems
  let rolloutSuffix := rolloutItems.drop scan.suffixStart
  let history := match scan.baseReplacementHistory with
    | some base => ContextManager.new.replace base
    | none => ContextManager.new
  let history := replay env history rolloutSuffix
  let referenceContextItem := match scan.referenceContextItem with
    | .latest context => some context
    | _ => none
  ⟨history.items, scan.previousTurnSettings,
    if rolloutSuffix.any isLegacyCompaction then none else referenceContextItem⟩

end Codrex.History
