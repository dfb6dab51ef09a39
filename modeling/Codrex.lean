import Codrex.ExecPolicy.Policy
import Codrex.ExecPolicy.Theorems
import Codrex.Minimax.Bridge
import Codrex.Minimax.Lemmas.ThinkParser
import Codrex.Minimax.Theorems
import Codrex.Minimax.Lemmas.Bridge
import Codrex.Lib.Transition
import Codrex.Lib.Json
import Codrex.Orchestrator.Spec
import Codrex.Orchestrator.Decision
import Codrex.Orchestrator.Runner
import Codrex.Orchestrator.Lemmas.Runner
import Codrex.Orchestrator.Theorems
import Codrex.Orchestrator.Audit
import Codrex.ApplyPatch.Parser
import Codrex.ApplyPatch.Grammar
import Codrex.ApplyPatch.Lemmas.Grammar
import Codrex.ApplyPatch.Theorems
import Codrex.ApplyPatch.Replace
import Codrex.ApplyPatch.Apply
import Codrex.ApplyPatch.Lemmas.Apply
import Codrex.ApplyPatch.Lemmas.Preview
import Codrex.ApplyPatch.Lemmas.Reparse
import Codrex.MinimaxDelegate.SensitiveOutput
import Codrex.MinimaxDelegate.ResponseParser
import Codrex.MinimaxDelegate.Lemmas.ResponseParser
import Codrex.MinimaxDelegate.Theorems
import Codrex.FileSystem
import Codrex.MinimaxDelegate.ContextPacker
import Codrex.MinimaxDelegate.Lemmas.ContextPacker
import Codrex.Lib.TagScan
import Codrex.StreamParser.AssistantText
import Codrex.StreamParser.Lemmas.InlineHiddenTag
import Codrex.StreamParser.Lemmas.TaggedLine
import Codrex.StreamParser.Lemmas.AssistantText
import Codrex.StreamParser.Theorems
import Codrex.History.Normalize
import Codrex.History.Lemmas.Normalize
import Codrex.History.Theorems
import Codrex.History.ContextManager
import Codrex.History.Rollout
import Codrex.History.Lemmas.Rollout
import Codrex.History.Lemmas.ThreadHistory
import Codrex.History.Lemmas.Rollback
import Codrex.Lib.Glob
import Codrex.NetworkProxy.Policy
import Codrex.NetworkProxy.Runtime
import Codrex.NetworkProxy.Lemmas.Policy
import Codrex.NetworkProxy.Theorems
import Codrex.RemoteControl.ClientTracker
import Codrex.RemoteControl.Spec
import Codrex.Lib.Entries
import Codrex.RemoteControl.Lemmas.ClientTracker
import Codrex.RemoteControl.Lemmas.Closing
import Codrex.RemoteControl.Theorems
import Codrex.RemoteControl.Lemmas.Outbound
import Codrex.Lib.MostSpecific
import Codrex.Permissions.Policy
import Codrex.Permissions.Lemmas.Access
import Codrex.Permissions.Lemmas.FullDisk
import Codrex.Permissions.Theorems
import Codrex.ApplyPatch.Lemmas.Seek
import Codrex.ApplyPatch.Updates
import Codrex.ApplyPatch.Lemmas.Replace
import Codrex.Readiness.Flag
import Codrex.Readiness.Theorems
import Codrex.ExecServer.SessionRegistry
import Codrex.ExecServer.Client
import Codrex.ExecServer.Lemmas.SessionRegistry
import Codrex.ExecServer.Lemmas.RegistryInvariant
import Codrex.ExecServer.Lemmas.Connections
import Codrex.ExecServer.Theorems
import Codrex.Lib.Reorder
import Codrex.ExecServer.Lemmas.Process
import Codrex.ExecServer.Lemmas.Exchange
import Codrex.Lib.Paging
import Codrex.Rollout.ThreadItem
import Codrex.Rollout.Listing
import Codrex.Rollout.Lemmas.Walk
import Codrex.Rollout.Lemmas.Page
import Codrex.Rollout.Theorems
import Codrex.MessageHistory.Theorems
import Codrex.Goals.Session
import Codrex.Goals.Lemmas.Accounting
import Codrex.Goals.Lemmas.Steps
import Codrex.Goals.Theorems
import Codrex.ApplyPatch.Lemmas.RoundTrip
import Codrex.ApplyPatch.Lemmas.Streaming
import Codrex.Minimax.Lemmas.ToolCalls
import Codrex.Orchestrator.Lemmas.LoopDetection
import Codrex.Lib.LineEndings
import Codrex.MinimaxDelegate.Lemmas.Wrapping
import Codrex.MinimaxDelegate.Lemmas.Normalization
import Codrex.MinimaxDelegate.Lemmas.Shape
import Codrex.MinimaxDelegate.Lemmas.Budget
import Codrex.Permissions.PolicyTransforms
import Codrex.Permissions.Lemmas.Intersect
import Codrex.UnifiedExec.Theorems
import Codrex.Lib.Utf8
import Codrex.StreamParser.Utf8Stream
import Codrex.StreamParser.Lemmas.Utf8Stream
import Codrex.Truncation.Theorems
import Codrex.History.Lemmas.Trim
import Codrex.History.Lemmas.DropTurns
import Codrex.StreamParser.Lemmas.HiddenTags
import Codrex.NetworkProxy.Lemmas.Updates
import Codrex.MinimaxDelegate.Lemmas.DiffRedaction
import Codrex.ExecPolicy.Approval
import Codrex.ExecPolicy.Lemmas.Amendment
import Codrex.ExecPolicy.Lemmas.Approval
import Codrex.Templates.Template
import Codrex.Templates.Theorems
import Codrex.Config.Layers
import Codrex.Lib.Overlay
import Codrex.Config.Lemmas.Aliases
import Codrex.Config.Lemmas.Merge
import Codrex.Config.Lemmas.Origins
import Codrex.Config.Theorems
import Codrex.TurnDiff.Spec
import Codrex.TurnDiff.Lemmas.Steps
import Codrex.TurnDiff.Lemmas.Order
import Codrex.TurnDiff.Lemmas.Diffs
import Codrex.TurnDiff.Lemmas.Baselines
import Codrex.TurnDiff.Lemmas.Turns
import Codrex.TurnDiff.Theorems
import Codrex.ThreadHistory.Events
import Codrex.ThreadHistory.Items
import Codrex.Lib.Numbering
import Codrex.ThreadHistory.Builder
import Codrex.ThreadHistory.Lemmas.Routes
import Codrex.ThreadHistory.Lemmas.Effects
import Codrex.ThreadHistory.Lemmas.Numbers
import Codrex.ThreadHistory.Lemmas.Turns
import Codrex.ThreadHistory.Theorems
import Codrex.Permissions.Lemmas.MoreRoots
import Codrex.ExecServer.Lemmas.ProcessRead
import Codrex.History.Compaction
import Codrex.Agents.Registry
import Codrex.Agents.Theorems
import Codrex.ExecServer.HttpBodyStream
import Codrex.ExecServer.Lemmas.HttpBodyStream
import Codrex.ExecServer.Lemmas.HttpBodyMoves
import Codrex.ListDir.Listing
import Codrex.ListDir.Theorems
import Codrex.Mcp.Theorems
import Codrex.ShellCommand.Safety
import Codrex.ShellCommand.Theorems
import Codrex.Composer.Moves
import Codrex.Composer.Lemmas.Edits
import Codrex.Composer.Lemmas.Moves
import Codrex.Composer.Lemmas.Elements
import Codrex.Composer.Theorems
import Codrex.Permissions.Lemmas.Additional
import Codrex.Lib.Escapes
import Codrex.ShellCommand.Bash
import Codrex.ShellCommand.QuoteRemoval
import Codrex.Streaming.Controller
import Codrex.Streaming.Theorems
import Codrex.GitApply.Parser
import Codrex.Composer.Submission
import Codrex.GitApply.Theorems
import Codrex.Composer.AtToken
import Codrex.ComposerHistory.History
import Codrex.ComposerHistory.Search
import Codrex.ComposerHistory.Theorems
import Codrex.PasteBurst.Burst
import Codrex.PasteBurst.Theorems
import Codrex.MinimaxDelegate.GitStatus
