import Codrex.AbsolutePath
import Codrex.Lib.Json
import Codrex.History.Normalize

/-!
# The events of a thread (`protocol/src/protocol.rs`, `approvals.rs`, `items.rs`)

The payloads with the fields that the history reads. What is only carried along is JSON. Types that the app server
repeats with the same cases are given once.
-/

namespace Codrex.ThreadHistory

open Text

abbrev ThreadId := Str

/-- A hash map, in the order in which it gives its entries. -/
abbrev Entries (κ ν : Type) := List (κ × ν)

/-! ## Messages -/

structure UserMessageEvent where
  message : Str
  images : Option (List Str)
  localImages : List Str
  textElements : List Json

inductive MessagePhase
  | commentary
  | finalAnswer
  deriving DecidableEq

structure AgentMessageEvent where
  message : Str
  phase : Option MessagePhase
  memoryCitation : Option Json

structure PlanItem where
  id : Str
  text : Str

/-- Of the items of a turn only plans are looked at. -/
inductive TurnItem
  | plan (plan : PlanItem)
  | other

/-- `ItemStartedEvent` and `ItemCompletedEvent`. -/
structure TurnItemEvent where
  turnId : Str
  item : TurnItem

/-! ## Commands -/

inductive ExecCommandSource
  | agent
  | userShell
  | unifiedExecStartup
  | unifiedExecInteraction
  deriving DecidableEq

inductive ExecCommandStatus
  | completed
  | failed
  | declined
  deriving DecidableEq

inductive ParsedCommand
  | read (cmd name path : Str)
  | listFiles (cmd : Str) (path : Option Str)
  | search (cmd : Str) (query path : Option Str)
  | unknown (cmd : Str)
  deriving DecidableEq

structure ExecCommandBeginEvent where
  callId : Str
  processId : Option Str
  turnId : Str
  command : List Str
  cwd : AbsolutePathBuf
  parsedCmd : List ParsedCommand
  source : ExecCommandSource

structure ExecCommandEndEvent extends ExecCommandBeginEvent where
  aggregatedOutput : Str
  exitCode : Int
  durationMillis : Nat
  status : ExecCommandStatus

inductive GuardianAssessmentStatus
  | inProgress
  | approved
  | denied
  | timedOut
  | aborted
  deriving DecidableEq

/-- The actions of the other kinds make no item. -/
inductive GuardianAssessmentAction
  | command (command : Str) (cwd : AbsolutePathBuf)
  | execve (program : Str) (argv : List Str) (cwd : AbsolutePathBuf)
  | applyPatch
  | networkAccess
  | mcpToolCall
  | requestPermissions

structure GuardianAssessmentEvent where
  targetItemId : Option Str
  turnId : Str
  status : GuardianAssessmentStatus
  action : GuardianAssessmentAction

/-! ## Patches -/

inductive FileChange
  | add (content : Str)
  | delete (content : Str)
  | update (unifiedDiff : Str) (movePath : Option Str)
  deriving DecidableEq

/-- `ApplyPatchApprovalRequestEvent` and `PatchApplyBeginEvent`. -/
structure PatchEvent where
  callId : Str
  turnId : Str
  changes : Entries Str FileChange

structure PatchApplyEndEvent extends PatchEvent where
  status : ExecCommandStatus

/-! ## Tools -/

structure DynamicToolCallRequest where
  callId : Str
  turnId : Str
  namespaceName : Option Str
  tool : Str
  arguments : Json

inductive DynamicToolCallOutputContentItem
  | inputText (text : Str)
  | inputImage (imageUrl : Str)
  deriving DecidableEq

structure DynamicToolCallResponseEvent extends DynamicToolCallRequest where
  contentItems : List DynamicToolCallOutputContentItem
  success : Bool
  durationMillis : Nat

structure McpInvocation where
  server : Str
  tool : Str
  arguments : Option Json

structure McpToolCallBeginEvent where
  callId : Str
  invocation : McpInvocation
  mcpAppResourceUri : Option Str

structure CallToolResult where
  content : List Json
  structuredContent : Option Json
  isError : Option Bool
  metadata : Option Json

structure McpToolCallEndEvent extends McpToolCallBeginEvent where
  durationMillis : Nat
  result : Except Str CallToolResult

inductive WebSearchAction
  | search (query : Option Str) (queries : Option (List Str))
  | openPage (url : Option Str)
  | findInPage (url pattern : Option Str)
  | other
  deriving DecidableEq

structure WebSearchEndEvent where
  callId : Str
  query : Str
  action : WebSearchAction

structure ViewImageToolCallEvent where
  callId : Str
  path : AbsolutePathBuf

structure ImageGenerationEndEvent where
  callId : Str
  status : Str
  revisedPrompt : Option Str
  result : Str
  savedPath : Option AbsolutePathBuf

/-! ## Other agents -/

inductive AgentStatus
  | pendingInit
  | running
  | interrupted
  | completed (message : Option Str)
  | errored (message : Str)
  | shutdown
  | notFound
  deriving DecidableEq

structure CollabAgentSpawnBeginEvent where
  callId : Str
  senderThreadId : ThreadId
  prompt : Str
  model : Str
  reasoningEffort : Str

structure CollabAgentSpawnEndEvent extends CollabAgentSpawnBeginEvent where
  newThreadId : Option ThreadId
  status : AgentStatus

structure CollabAgentInteractionBeginEvent where
  callId : Str
  senderThreadId : ThreadId
  receiverThreadId : ThreadId
  prompt : Str

structure CollabAgentInteractionEndEvent extends CollabAgentInteractionBeginEvent where
  status : AgentStatus

structure CollabWaitingBeginEvent where
  senderThreadId : ThreadId
  receiverThreadIds : List ThreadId
  callId : Str

structure CollabWaitingEndEvent where
  senderThreadId : ThreadId
  callId : Str
  statuses : Entries ThreadId AgentStatus

/-- `CollabCloseBeginEvent` and `CollabResumeBeginEvent`. -/
structure CollabReceiverEvent where
  callId : Str
  senderThreadId : ThreadId
  receiverThreadId : ThreadId

/-- `CollabCloseEndEvent` and `CollabResumeEndEvent`. -/
structure CollabReceiverEndEvent extends CollabReceiverEvent where
  status : AgentStatus

/-! ## Turns -/

inductive CodexErrorInfo
  | contextWindowExceeded
  | usageLimitExceeded
  | serverOverloaded
  | cyberPolicy
  | httpConnectionFailed (httpStatusCode : Option UInt16)
  | responseStreamConnectionFailed (httpStatusCode : Option UInt16)
  | internalServerError
  | unauthorized
  | badRequest
  | sandboxError
  | responseStreamDisconnected (httpStatusCode : Option UInt16)
  | responseTooManyFailedAttempts (httpStatusCode : Option UInt16)
  | activeTurnNotSteerable (turnKind : Str)
  | threadRollbackFailed
  | other
  deriving DecidableEq

def CodexErrorInfo.affectsTurnStatus : CodexErrorInfo → Bool
  | threadRollbackFailed | activeTurnNotSteerable _ => false
  | _ => true

structure ErrorEvent where
  message : Str
  codexErrorInfo : Option CodexErrorInfo

def ErrorEvent.affectsTurnStatus (event : ErrorEvent) : Bool :=
  event.codexErrorInfo.all CodexErrorInfo.affectsTurnStatus

structure TurnStartedEvent where
  turnId : Str
  startedAt : Option Int

structure TurnCompleteEvent where
  turnId : Str
  completedAt : Option Int
  durationMs : Option Int

structure TurnAbortedEvent where
  turnId : Option Str
  completedAt : Option Int
  durationMs : Option Int

inductive EventMsg
  | userMessage (payload : UserMessageEvent)
  | agentMessage (payload : AgentMessageEvent)
  | agentReasoning (text : Str)
  | agentReasoningRawContent (text : Str)
  | webSearchBegin (callId : Str)
  | webSearchEnd (payload : WebSearchEndEvent)
  | execCommandBegin (payload : ExecCommandBeginEvent)
  | execCommandEnd (payload : ExecCommandEndEvent)
  | guardianAssessment (payload : GuardianAssessmentEvent)
  | applyPatchApprovalRequest (payload : PatchEvent)
  | patchApplyBegin (payload : PatchEvent)
  | patchApplyEnd (payload : PatchApplyEndEvent)
  | dynamicToolCallRequest (payload : DynamicToolCallRequest)
  | dynamicToolCallResponse (payload : DynamicToolCallResponseEvent)
  | mcpToolCallBegin (payload : McpToolCallBeginEvent)
  | mcpToolCallEnd (payload : McpToolCallEndEvent)
  | viewImageToolCall (payload : ViewImageToolCallEvent)
  | imageGenerationBegin (callId : Str)
  | imageGenerationEnd (payload : ImageGenerationEndEvent)
  | collabAgentSpawnBegin (payload : CollabAgentSpawnBeginEvent)
  | collabAgentSpawnEnd (payload : CollabAgentSpawnEndEvent)
  | collabAgentInteractionBegin (payload : CollabAgentInteractionBeginEvent)
  | collabAgentInteractionEnd (payload : CollabAgentInteractionEndEvent)
  | collabWaitingBegin (payload : CollabWaitingBeginEvent)
  | collabWaitingEnd (payload : CollabWaitingEndEvent)
  | collabCloseBegin (payload : CollabReceiverEvent)
  | collabCloseEnd (payload : CollabReceiverEndEvent)
  | collabResumeBegin (payload : CollabReceiverEvent)
  | collabResumeEnd (payload : CollabReceiverEndEvent)
  | contextCompacted
  | enteredReviewMode (userFacingHint : Option Str)
  | exitedReviewMode (overallExplanation : Option Str)
  | itemStarted (payload : TurnItemEvent)
  | itemCompleted (payload : TurnItemEvent)
  | error (payload : ErrorEvent)
  | threadRolledBack (numTurns : UInt32)
  | turnAborted (payload : TurnAbortedEvent)
  | turnStarted (payload : TurnStartedEvent)
  | turnComplete (payload : TurnCompleteEvent)
  /-- Hooks, token counts, undone turns, and all that a rollout does not hold. -/
  | other

inductive RolloutItem
  | eventMsg (event : EventMsg)
  | compacted
  | responseItem (item : History.ResponseItem)
  | turnContext
  | sessionMeta

end Codrex.ThreadHistory
