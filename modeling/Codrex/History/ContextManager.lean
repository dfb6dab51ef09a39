import Codrex.History.Normalize
import Codrex.Lib.Transition

/-!
# The history of a thread (`core/src/context_manager/history.rs`)

Which messages are contextual is decided in `core/src/event_mapping.rs` and `core/src/context`.
-/

namespace Codrex.History

open Text Fallible

/-- What is decided outside of this repository or with floating point numbers: which texts the XML and the JSON parser
accept, and how a tool output or a message is truncated. -/
structure Externals where
  isHookPromptFragment : Str → Bool
  isInterAgentCommunication : Str → Bool
  truncateFunctionOutputPayload : FunctionCallOutputPayload → FunctionCallOutputPayload
  truncateText : Str → Nat → Str

/-! ## Contextual messages -/

def contextualUserFragments : List (Str × Str) :=
  [("# AGENTS.md instructions for ", "</INSTRUCTIONS>"),
    ("<environment_context>", "</environment_context>"),
    ("<skill>", "</skill>"),
    ("<user_shell_command>", "</user_shell_command>"),
    ("<turn_aborted>", "</turn_aborted>"),
    ("<subagent_notification>", "</subagent_notification>")]

/-- `ContextualUserFragment::matches_text`; the markers are ASCII. -/
def matchesText (markers : Str × Str) (text : Str) : Bool :=
  let (startMarker, endMarker) := markers
  if startMarker.isEmpty || endMarker.isEmpty then false
  else
    let trimmed := trimStart text
    let startsWithMarker := eqIgnoreAsciiCase (trimmed.take startMarker.length) startMarker
    let trimmed := trimEnd trimmed
    let endsWithMarker := eqIgnoreAsciiCase (trimmed.drop (trimmed.length - endMarker.length)) endMarker
    startsWithMarker && endsWithMarker

def isStandardContextualUserText (text : Str) : Bool := contextualUserFragments.any fun markers => matchesText markers text

def contextualDeveloperPrefixes : List Str :=
  ["<permissions instructions>", "<model_switch>", "<collaboration_mode>", "<realtime_conversation>",
    "<personality_spec>"]

def isContextualDevFragment : ContentItem → Bool
  | .inputText text =>
      contextualDeveloperPrefixes.any fun start => eqIgnoreAsciiCase ((trimStart text).take start.length) start
  | _ => false

def isContextualDevMessageContent (message : List ContentItem) : Bool := message.any isContextualDevFragment

def hasNonContextualDevMessageContent (message : List ContentItem) : Bool :=
  message.any fun item => !isContextualDevFragment item

section

variable (env : Externals)

def isContextualUserFragment : ContentItem → Bool
  | .inputText text => env.isHookPromptFragment text || isStandardContextualUserText text
  | _ => false

def isContextualUserMessageContent (message : List ContentItem) : Bool := message.any (isContextualUserFragment env)

def isInterAgentInstructionContent : List ContentItem → Bool
  | [.inputText text] => env.isInterAgentCommunication text
  | [.outputText text] => env.isInterAgentCommunication text
  | _ => false

def isUserTurnBoundary : ResponseItem → Bool
  | .message _ role content _ =>
      (role = "user".toList && !isContextualUserMessageContent env content) ||
        (role = "assistant".toList && isInterAgentInstructionContent env content)
  | _ => false

end

/-! ## The transcript -/

/-- What the replay reads of a `TurnContextItem`. -/
structure TurnContextItem where
  turnId : Option Str
  model : Str
  realtimeActive : Option Bool
  deriving DecidableEq

structure ContextManager where
  items : List ResponseItem
  historyVersion : Nat
  referenceContextItem : Option TurnContextItem
  deriving DecidableEq

def isApiMessage : ResponseItem → Bool
  | .message _ role _ _ => role ≠ "system".toList
  | .ghostSnapshot _ => false
  | .other => false
  | _ => true

namespace ContextManager

def new : ContextManager := ⟨[], 0, none⟩

def replace (history : ContextManager) (items : List ResponseItem) : ContextManager :=
  { history with items := items, historyVersion := saturatingAdd history.historyVersion 1 }

def removeFirstItem (history : ContextManager) : ContextManager :=
  match history.items with
  | [] => history
  | removed :: items => { history with items := removeCorrespondingFor items removed }

def removeLastItem (history : ContextManager) : ContextManager × Bool :=
  match history.items.getLast? with
  | some removed =>
      (⟨removeCorrespondingFor history.items.dropLast removed, saturatingAdd history.historyVersion 1,
        history.referenceContextItem⟩, true)
  | none => (history, false)

def forPrompt (history : ContextManager) (inputModalities : List InputModality) : List ResponseItem :=
  History.forPrompt inputModalities history.items

section

variable (env : Externals)

def processItem : ResponseItem → ResponseItem
  | .functionCallOutput callId output => .functionCallOutput callId (env.truncateFunctionOutputPayload output)
  | .customToolCallOutput callId name output =>
      .customToolCallOutput callId name (env.truncateFunctionOutputPayload output)
  | item => item

def recordItem (history : ContextManager) (item : ResponseItem) : ContextManager :=
  if !isApiMessage item && !item.isGhostSnapshot then history
  else { history with items := history.items ++ [processItem env item] }

def recordItems (history : ContextManager) (items : List ResponseItem) : ContextManager :=
  items.foldl (recordItem env) history

def userMessagePositions (items : List ResponseItem) : List Nat :=
  items.zipIdx.filterMap fun (item, idx) => if isUserTurnBoundary env item then some idx else none

/-- The walk back from the cut, over contextual messages that stand right above it. -/
def trimPreTurnContextUpdates (snapshot : List ResponseItem) (firstInstructionTurnIdx : Nat) :
    Nat → Option TurnContextItem → Nat × Option TurnContextItem
  | 0, reference => (0, reference)
  | cutIdx + 1, reference =>
      if cutIdx + 1 > firstInstructionTurnIdx then
        match snapshot[cutIdx]? with
        | some (.message _ role content _) =>
            if role = "developer".toList && isContextualDevMessageContent content then
              let reference := if hasNonContextualDevMessageContent content then none else reference
              trimPreTurnContextUpdates snapshot firstInstructionTurnIdx cutIdx reference
            else if role = "user".toList && isContextualUserMessageContent env content then
              trimPreTurnContextUpdates snapshot firstInstructionTurnIdx cutIdx reference
            else (cutIdx + 1, reference)
        | _ => (cutIdx + 1, reference)
      else (cutIdx + 1, reference)

def dropLastNUserTurns (history : ContextManager) (numTurns : Nat) : ContextManager :=
  if numTurns = 0 then history
  else
    let snapshot := history.items
    let userPositions := userMessagePositions env snapshot
    match userPositions with
    | [] => history.replace snapshot
    | firstInstructionTurnIdx :: _ =>
        let cutIdx :=
          if numTurns ≥ userPositions.length then firstInstructionTurnIdx
          else userPositions[userPositions.length - numTurns]?.getD 0
        let (cutIdx, reference) :=
          trimPreTurnContextUpdates env snapshot firstInstructionTurnIdx cutIdx history.referenceContextItem
        { history with referenceContextItem := reference }.replace (snapshot.take cutIdx)

end

end ContextManager

end Codrex.History
