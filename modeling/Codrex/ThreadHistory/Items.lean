import Codrex.ThreadHistory.Events

/-!
# The items of a turn (`app-server-protocol/src/protocol/v2.rs`, `item_builders.rs`)
-/

namespace Codrex.ThreadHistory

open Text

inductive UserInput
  | text (text : Str) (textElements : List Json)
  | image (url : Str)
  | localImage (path : Str)

structure HookPromptFragment where
  text : Str
  hookRunId : Str
  deriving DecidableEq

inductive CommandAction
  | read (command name : Str) (path : AbsolutePathBuf)
  | listFiles (command : Str) (path : Option Str)
  | search (command : Str) (query path : Option Str)
  | unknown (command : Str)
  deriving DecidableEq

inductive CommandExecutionStatus
  | inProgress
  | completed
  | failed
  | declined
  deriving DecidableEq

inductive PatchApplyStatus
  | inProgress
  | completed
  | failed
  | declined
  deriving DecidableEq

/-- `McpToolCallStatus`, `DynamicToolCallStatus` and `CollabAgentToolCallStatus`. -/
inductive ToolCallStatus
  | inProgress
  | completed
  | failed
  deriving DecidableEq

inductive PatchChangeKind
  | add
  | delete
  | update (movePath : Option Str)
  deriving DecidableEq

structure FileUpdateChange where
  path : Str
  kind : PatchChangeKind
  diff : Str
  deriving DecidableEq

structure McpToolCallResult where
  content : List Json
  structuredContent : Option Json
  metadata : Option Json

inductive CollabAgentTool
  | spawnAgent
  | sendInput
  | resumeAgent
  | wait
  | closeAgent
  deriving DecidableEq

inductive CollabAgentStatus
  | pendingInit
  | running
  | interrupted
  | completed
  | errored
  | shutdown
  | notFound
  deriving DecidableEq

structure CollabAgentState where
  status : CollabAgentStatus
  message : Option Str
  deriving DecidableEq

inductive ThreadItem
  | userMessage (id : Str) (content : List UserInput)
  | hookPrompt (id : Str) (fragments : List HookPromptFragment)
  | agentMessage (id text : Str) (phase : Option MessagePhase) (memoryCitation : Option Json)
  | plan (id text : Str)
  | reasoning (id : Str) (summary content : List Str)
  | commandExecution (id command : Str) (cwd : AbsolutePathBuf) (processId : Option Str) (source : ExecCommandSource)
      (status : CommandExecutionStatus) (commandActions : List CommandAction) (aggregatedOutput : Option Str)
      (exitCode durationMs : Option Int)
  | fileChange (id : Str) (changes : List FileUpdateChange) (status : PatchApplyStatus)
  | mcpToolCall (id server tool : Str) (status : ToolCallStatus) (arguments : Json) (mcpAppResourceUri : Option Str)
      (result : Option McpToolCallResult) (error : Option Str) (durationMs : Option Int)
  | dynamicToolCall (id : Str) (namespaceName : Option Str) (tool : Str) (arguments : Json) (status : ToolCallStatus)
      (contentItems : Option (List DynamicToolCallOutputContentItem)) (success : Option Bool)
      (durationMs : Option Int)
  | collabAgentToolCall (id : Str) (tool : CollabAgentTool) (status : ToolCallStatus) (senderThreadId : Str)
      (receiverThreadIds : List Str) (prompt model reasoningEffort : Option Str)
      (agentsStates : Entries Str CollabAgentState)
  | webSearch (id query : Str) (action : Option WebSearchAction)
  | imageView (id : Str) (path : AbsolutePathBuf)
  | imageGeneration (id status : Str) (revisedPrompt : Option Str) (result : Str)
      (savedPath : Option AbsolutePathBuf)
  | enteredReviewMode (id review : Str)
  | exitedReviewMode (id review : Str)
  | contextCompaction (id : Str)

def ThreadItem.id : ThreadItem → Str
  | userMessage id _ | hookPrompt id _ | agentMessage id _ _ _ | plan id _ | reasoning id _ _
  | commandExecution id _ _ _ _ _ _ _ _ _ | fileChange id _ _ | mcpToolCall id _ _ _ _ _ _ _ _
  | dynamicToolCall id _ _ _ _ _ _ _ | collabAgentToolCall id _ _ _ _ _ _ _ _ | webSearch id _ _
  | imageView id _ | imageGeneration id _ _ _ _ | enteredReviewMode id _ | exitedReviewMode id _
  | contextCompaction id => id

/-- The crates behind the items: paths of the host, `shlex`, the command parser and the XML of hook prompts. -/
structure Externals where
  env : HostEnv
  shlexJoin : List Str → Str
  parseCommand : List Str → List ParsedCommand
  parseHookPromptFragment : Str → Option HookPromptFragment

/-! ## Conversions -/

/-- `i64::try_from(duration.as_millis())`. -/
def millisAsI64 (millis : Nat) : Option Int := if millis < 2 ^ 63 then some millis else none

def i64Max : Int := 2 ^ 63 - 1

def CommandAction.fromCoreWithCwd (ext : Externals) (value : ParsedCommand) (cwd : AbsolutePathBuf) : CommandAction :=
  match value with
  | .read cmd name path => .read cmd name (cwd.join ext.env path)
  | .listFiles cmd path => .listFiles cmd path
  | .search cmd query path => .search cmd query path
  | .unknown cmd => .unknown cmd

def CommandExecutionStatus.ofCore : ExecCommandStatus → CommandExecutionStatus
  | .completed => .completed
  | .failed => .failed
  | .declined => .declined

def PatchApplyStatus.ofCore : ExecCommandStatus → PatchApplyStatus
  | .completed => .completed
  | .failed => .failed
  | .declined => .declined

def CollabAgentState.ofCore : AgentStatus → CollabAgentState
  | .pendingInit => ⟨.pendingInit, none⟩
  | .running => ⟨.running, none⟩
  | .interrupted => ⟨.interrupted, none⟩
  | .completed message => ⟨.completed, message⟩
  | .errored message => ⟨.errored, some message⟩
  | .shutdown => ⟨.shutdown, none⟩
  | .notFound => ⟨.notFound, none⟩

def mapPatchChangeKind : FileChange → PatchChangeKind
  | .add _ => .add
  | .delete _ => .delete
  | .update _ movePath => .update movePath

def formatFileChangeDiff : FileChange → Str
  | .add content => content
  | .delete content => content
  | .update unifiedDiff movePath =>
      match movePath with
      | some path => unifiedDiff ++ "\n\nMoved to: ".toList ++ path
      | none => unifiedDiff

def convertPatchChanges (changes : Entries Str FileChange) : List FileUpdateChange :=
  (changes.map fun (path, change) => ⟨path, mapPatchChangeKind change, formatFileChangeDiff change⟩).mergeSort
    fun a b => decide (a.path ≤ b.path)

/-! ## Builders -/

def buildFileChangeApprovalRequestItem (payload : PatchEvent) : ThreadItem :=
  .fileChange payload.callId (convertPatchChanges payload.changes) .inProgress

def buildFileChangeBeginItem (payload : PatchEvent) : ThreadItem :=
  .fileChange payload.callId (convertPatchChanges payload.changes) .inProgress

def buildFileChangeEndItem (payload : PatchApplyEndEvent) : ThreadItem :=
  .fileChange payload.callId (convertPatchChanges payload.changes) (.ofCore payload.status)

section Commands

variable (ext : Externals)

def buildCommandExecutionBeginItem (payload : ExecCommandBeginEvent) : ThreadItem :=
  .commandExecution payload.callId (ext.shlexJoin payload.command) payload.cwd payload.processId payload.source
    .inProgress (payload.parsedCmd.map fun parsed => .fromCoreWithCwd ext parsed payload.cwd) none none none

def buildCommandExecutionEndItem (payload : ExecCommandEndEvent) : ThreadItem :=
  let aggregatedOutput := if payload.aggregatedOutput = [] then none else some payload.aggregatedOutput
  let durationMs := (millisAsI64 payload.durationMillis).getD i64Max
  .commandExecution payload.callId (ext.shlexJoin payload.command) payload.cwd payload.processId payload.source
    (.ofCore payload.status) (payload.parsedCmd.map fun parsed => .fromCoreWithCwd ext parsed payload.cwd)
    aggregatedOutput (some payload.exitCode) (some durationMs)

def buildItemFromGuardianEvent (assessment : GuardianAssessmentEvent) (status : CommandExecutionStatus) :
    Option ThreadItem :=
  match assessment.action with
  | .command command cwd =>
      assessment.targetItemId.map fun id =>
        .commandExecution id command cwd none .agent status [.unknown command] none none none
  | .execve program argv cwd =>
      assessment.targetItemId.map fun id =>
        let argv := if argv = [] then [program] else program :: argv.drop 1
        let command := ext.shlexJoin argv
        let parsedCmd := ext.parseCommand argv
        let commandActions :=
          if parsedCmd = [] then [.unknown command]
          else parsedCmd.map fun parsed => .fromCoreWithCwd ext parsed cwd
        .commandExecution id command cwd none .agent status commandActions none none none
  | .applyPatch | .networkAccess | .mcpToolCall | .requestPermissions => none

end Commands

/-! ## Items made by the handlers of the builder -/

def buildUserInputs (payload : UserMessageEvent) : List UserInput :=
  (if trim payload.message = [] then [] else [.text payload.message payload.textElements]) ++
    (payload.images.getD []).map .image ++ payload.localImages.map .localImage

def dynamicToolCallRequestItem (payload : DynamicToolCallRequest) : ThreadItem :=
  .dynamicToolCall payload.callId payload.namespaceName payload.tool payload.arguments .inProgress none none none

def dynamicToolCallResponseItem (payload : DynamicToolCallResponseEvent) : ThreadItem :=
  .dynamicToolCall payload.callId payload.namespaceName payload.tool payload.arguments
    (if payload.success then .completed else .failed) (some payload.contentItems) (some payload.success)
    (millisAsI64 payload.durationMillis)

def mcpToolCallBeginItem (payload : McpToolCallBeginEvent) : ThreadItem :=
  .mcpToolCall payload.callId payload.invocation.server payload.invocation.tool .inProgress
    (payload.invocation.arguments.getD .null) payload.mcpAppResourceUri none none none

def McpToolCallEndEvent.isSuccess (payload : McpToolCallEndEvent) : Bool :=
  match payload.result with
  | .ok result => !result.isError.getD false
  | .error _ => false

def mcpToolCallEndItem (payload : McpToolCallEndEvent) : ThreadItem :=
  let (result, error) := match payload.result with
    | .ok value => (some ⟨value.content, value.structuredContent, value.metadata⟩, none)
    | .error message => (none, some message)
  .mcpToolCall payload.callId payload.invocation.server payload.invocation.tool
    (if payload.isSuccess then .completed else .failed) (payload.invocation.arguments.getD .null)
    payload.mcpAppResourceUri result error (millisAsI64 payload.durationMillis)

/-- `AgentStatus::Errored(_) | AgentStatus::NotFound`. -/
def AgentStatus.isFailure : AgentStatus → Bool
  | errored _ | notFound => true
  | _ => false

def collabAgentSpawnBeginItem (payload : CollabAgentSpawnBeginEvent) : ThreadItem :=
  .collabAgentToolCall payload.callId .spawnAgent .inProgress payload.senderThreadId [] (some payload.prompt)
    (some payload.model) (some payload.reasoningEffort) []

def collabAgentSpawnEndItem (payload : CollabAgentSpawnEndEvent) : ThreadItem :=
  let hasReceiver := payload.newThreadId.isSome
  let status := if payload.status.isFailure then .failed else if hasReceiver then .completed else .failed
  let (receiverThreadIds, agentsStates) := match payload.newThreadId with
    | some id => ([id], [(id, .ofCore payload.status)])
    | none => ([], [])
  .collabAgentToolCall payload.callId .spawnAgent status payload.senderThreadId receiverThreadIds
    (some payload.prompt) (some payload.model) (some payload.reasoningEffort) agentsStates

def collabAgentInteractionBeginItem (payload : CollabAgentInteractionBeginEvent) : ThreadItem :=
  .collabAgentToolCall payload.callId .sendInput .inProgress payload.senderThreadId [payload.receiverThreadId]
    (some payload.prompt) none none []

def collabAgentInteractionEndItem (payload : CollabAgentInteractionEndEvent) : ThreadItem :=
  .collabAgentToolCall payload.callId .sendInput (if payload.status.isFailure then .failed else .completed)
    payload.senderThreadId [payload.receiverThreadId] (some payload.prompt) none none
    [(payload.receiverThreadId, .ofCore payload.status)]

def collabWaitingBeginItem (payload : CollabWaitingBeginEvent) : ThreadItem :=
  .collabAgentToolCall payload.callId .wait .inProgress payload.senderThreadId payload.receiverThreadIds none none
    none []

def collabWaitingEndItem (payload : CollabWaitingEndEvent) : ThreadItem :=
  let status := if payload.statuses.any fun (_, status) => status.isFailure then .failed else .completed
  .collabAgentToolCall payload.callId .wait status payload.senderThreadId
    ((payload.statuses.map Prod.fst).mergeSort fun a b => decide (a ≤ b)) none none none
    (payload.statuses.map fun (id, status) => (id, .ofCore status))

/-- What the handlers of closing and resuming an agent have in common. -/
def collabReceiverBeginItem (tool : CollabAgentTool) (payload : CollabReceiverEvent) : ThreadItem :=
  .collabAgentToolCall payload.callId tool .inProgress payload.senderThreadId [payload.receiverThreadId] none none none
    []

def collabReceiverEndItem (tool : CollabAgentTool) (payload : CollabReceiverEndEvent) : ThreadItem :=
  .collabAgentToolCall payload.callId tool (if payload.status.isFailure then .failed else .completed)
    payload.senderThreadId [payload.receiverThreadId] none none none
    [(payload.receiverThreadId, .ofCore payload.status)]

def reviewFallbackMessage : Str := "Reviewer failed to output a response.".toList

/-- The argument is the `overall_explanation` of the output. -/
def renderReviewOutputText (overallExplanation : Str) : Str :=
  let explanation := trim overallExplanation
  if explanation = [] then reviewFallbackMessage else explanation

/-- `parse_hook_prompt_message`; an item without an id gets the one that `Uuid` makes. -/
def parseHookPromptMessage (ext : Externals) (fresh : Str) (id : Option Str) (content : List History.ContentItem) :
    Option (Str × List HookPromptFragment) := do
  let fragments ← content.mapM fun item => match item with
    | .inputText text => ext.parseHookPromptFragment text
    | _ => none
  if fragments = [] then none else some (id.getD fresh, fragments)

end Codrex.ThreadHistory
