import Codrex.Minimax.Bridge
import Codrex.Orchestrator.Decision

/-!
# The orchestration loop

`run_orchestration_loop` of `orchestrator/src/runner.rs`, over any sink, any auditor and the world `σ`
they act on. A run keeps what each attempt did: its context, the sink's answer, the auditor's report and
the rows it wrote to the log.
-/

namespace Codrex.Orchestrator

open Text

structure DispatchOutcome where
  responseText : Str
  latencyMs : Nat
  totalTokens : Option Nat
  deriving DecidableEq

inductive DispatchError
  | model (message : Str)
  | transport (message : Str)
  | clarificationRequested (question : Str)
  deriving DecidableEq

def DispatchError.display : DispatchError → Str
  | .model message => "model returned an error: ".toList ++ message
  | .transport message => "transport error: ".toList ++ message
  | .clarificationRequested question => "model requested clarification: ".toList ++ question

/-- A sink acts on the world and may answer differently each time. -/
structure DispatchSink (σ : Type) where
  dispatch : σ → DelegationSpec → DelegationContext → σ × Except DispatchError DispatchOutcome

structure Auditor (σ : Type) where
  audit : σ → DelegationSpec → DelegationContext → DispatchOutcome → σ × AuditReport

inductive LogStage
  | classify
  | dispatchStart
  | dispatchEnd
  | auditCriterion
  | audit
  | decision
  | clarify
  deriving DecidableEq

structure LogRow where
  ctx : DelegationContext
  stage : LogStage
  payload : Json

inductive OrchestrateOutcome
  | ok (responseText : Str)
  | clarify (question : Str)
  | escalate (reason blockingIssue : Str) (attemptsExhausted : Option Nat)
  | drop (reason : Str) (repeatedSignature : Option Str)
  deriving DecidableEq

def repeatedErrorLoopThreshold : Nat := 2

def clarifyRationale : Str := "model requested clarification before generating output"

def clarifyDecisionPayload (question : Str) : Json :=
  (AuditDecision.clarify question).toJson.insert "rationale" (.str clarifyRationale)

def startPayload (model : Str) : Json := .obj [("provider", .str "minimax"), ("model", .str model)]

def endPayload (outcome : DispatchOutcome) : Json :=
  .obj [("latency_ms", .num outcome.latencyMs),
    ("total_tokens", Json.ofOption (fun n => .num (Int.ofNat n)) outcome.totalTokens),
    ("response_len", .num (byteLen outcome.responseText))]

def criterionPayload (criterion : CriterionResult) : Json :=
  .obj [("name", .str criterion.name), ("passed", .bool criterion.passed),
    ("duration_ms", .num criterion.durationMs), ("details", criterion.details)]

/-! ## One attempt -/

structure LoopState where
  ctx : DelegationContext
  repeatedSignature : Option Str
  repeatedCount : Nat
  deriving DecidableEq

def LoopState.init (spec : DelegationSpec) : LoopState := ⟨.forTopLevel spec, none, 0⟩

/-- The bookkeeping of repeated signatures on a `Retry`. -/
def LoopState.count (state : LoopState) (signature : Option Str) : LoopState :=
  match signature with
  | some current =>
      { state with
        repeatedCount :=
          if state.repeatedSignature = some current then saturatingSucc state.repeatedCount else 1
        repeatedSignature := some current }
  | none => { state with repeatedCount := 0, repeatedSignature := none }

inductive Next
  | done (result : Except Str OrchestrateOutcome)
  | again (state : LoopState)
  deriving DecidableEq

/-- The match on the auditor's decision: the payload of the decision row, and what follows. -/
def settle (env : SignatureEnv) (spec : DelegationSpec) (state : LoopState) (outcome : DispatchOutcome) :
    AuditDecision → Json × Next
  | .ok _ => (.obj [("verdict", .str "ok")], .done (.ok (.ok outcome.responseText)))
  | .escalate reason blockingIssue =>
      (.obj [("verdict", .str "escalate"), ("reason", .str reason), ("blocking_issue", .str blockingIssue)],
        .done (.ok (.escalate reason blockingIssue none)))
  | .clarify question => (clarifyDecisionPayload question, .done (.ok (.clarify question)))
  | .drop reason =>
      (.obj [("verdict", .str "drop"), ("reason", .str reason)], .done (.ok (.drop reason none)))
  | .retry feedback attempt =>
      let signature := env.errorSignatureForRetryFeedback feedback
      let counted := state.count signature
      if signature.isSome ∧ counted.repeatedCount ≥ repeatedErrorLoopThreshold ∧ state.ctx.attempt > 0 then
        (.obj [("verdict", .str "drop"), ("reason", .str "loop_detected"),
            ("repeated_signature", Json.ofOption .str signature), ("attempt", .num attempt)],
          .done (.ok (.drop "loop_detected" signature)))
      else if state.ctx.attempt ≥ spec.maxRetries then
        let attemptsExhausted := saturatingSucc state.ctx.attempt
        (.obj [("verdict", .str "escalate"), ("reason", .str "max_retries_exhausted"),
            ("attempts_exhausted", .num attemptsExhausted)],
          .done (.ok (.escalate "max_retries_exhausted" "retries exhausted" (some attemptsExhausted))))
      else
        (.obj [("verdict", .str "retry"), ("reason", .str "criteria_failed"), ("next_attempt", .num attempt),
            ("signature", Json.ofOption .str signature)],
          .again { counted with ctx := state.ctx.nextAttemptWithFeedback feedback })

structure Attempt where
  ctx : DelegationContext
  response : Except DispatchError DispatchOutcome
  report : Option AuditReport
  rows : List LogRow

section Loop

variable {σ : Type} (env : SignatureEnv) (spec : DelegationSpec) (model : Str) (sink : DispatchSink σ)
  (auditor : Auditor σ)

def attemptOnce (state : LoopState) (world : σ) : Attempt × σ × Next :=
  let row stage payload : LogRow := ⟨state.ctx, stage, payload⟩
  let start := row .dispatchStart (startPayload model)
  match sink.dispatch world spec state.ctx with
  | (world, .error (.clarificationRequested question)) =>
      (⟨state.ctx, .error (.clarificationRequested question), none,
          [start, row .clarify (.obj [("question", .str question), ("handled", .bool false)]),
            row .decision (clarifyDecisionPayload question)]⟩,
        world, .done (.ok (.clarify question)))
  | (world, .error other) =>
      (⟨state.ctx, .error other, none, [start, row .dispatchEnd (.obj [("error", .str other.display)])]⟩,
        world, .done (.error ("dispatch failed: ".toList ++ other.display)))
  | (world, .ok outcome) =>
      let (world, report) := auditor.audit world spec state.ctx outcome
      let (payload, next) := settle env spec state outcome report.decision
      (⟨state.ctx, .ok outcome, some report,
          [start, row .dispatchEnd (endPayload outcome)] ++
            report.criterionResults.map (fun criterion => row .auditCriterion (criterionPayload criterion)) ++
            [row .audit report.decision.toJson, row .decision payload]⟩,
        world, next)

structure Run (σ : Type) where
  attempts : List Attempt
  world : σ
  result : Except Str OrchestrateOutcome

/-- The loop, for at most `fuel` turns; it is `none` when it would go on. -/
def loop : Nat → LoopState → σ → Option (Run σ)
  | 0, _, _ => none
  | fuel + 1, state, world =>
      match attemptOnce env spec model sink auditor state world with
      | (attempt, world, .done result) => some ⟨[attempt], world, result⟩
      | (attempt, world, .again state) =>
          (loop fuel state world).map fun run => { run with attempts := attempt :: run.attempts }

def runOrchestrationLoop (fuel : Nat) (world : σ) : Option (Run σ) :=
  loop env spec model sink auditor fuel (.init spec) world

end Loop

def Run.log {σ : Type} (run : Run σ) : List LogRow := run.attempts.flatMap Attempt.rows

end Codrex.Orchestrator

/-!
## The MiniMax dispatch sink

`MinimaxDispatchSink::dispatch` of `orchestrator/src/dispatch.rs`, from the opened stream on. Credentials,
the request and the HTTP stream are one given function of the spec and the retry feedback.
-/

namespace Codrex.Orchestrator

open Text
open Minimax (ChatCompletionChunk ResponseEvent ResponseEventBridge textDeltas)

/-- The service behind the sink: an opened stream is a list of chunks, with an error where reading it
failed. -/
structure MinimaxDispatchSink (σ : Type) where
  chatCompletionStream : σ → DelegationSpec → Option RetryFeedback →
    σ × Except DispatchError (List (Except Str ChatCompletionChunk))
  uuid : Str
  latencyMs : DelegationContext → Nat

def drainStream (uuid : Str) : ResponseEventBridge → Str → List (Except Str ChatCompletionChunk) →
    Except DispatchError (ResponseEventBridge × Str)
  | bridge, text, [] => .ok (bridge, text)
  | _, _, .error err :: _ => .error (.transport err)
  | bridge, text, .ok chunk :: rest =>
      let (bridge, events) := bridge.ingest uuid chunk
      drainStream uuid bridge (text ++ textDeltas events) rest

def totalTokens (events : List ResponseEvent) : Option Nat :=
  events.foldl (fun total event =>
    match event with
    | .completed _ tokenUsage _ => tokenUsage.map fun usage => usage.totalTokens.toInt.toNat
    | _ => total) none

/-- A response that asks for clarification is an error. A blank response is only warned about. -/
def finishDispatch (text : Str) (latencyMs : Nat) (totalTokens : Option Nat) :
    Except DispatchError DispatchOutcome :=
  match stripPrefix "CLARIFY:" (trimStart text) with
  | some rest => .error (.clarificationRequested (trim rest))
  | none => .ok ⟨text, latencyMs, totalTokens⟩

namespace MinimaxDispatchSink

variable {σ : Type}

def dispatch (self : MinimaxDispatchSink σ) (world : σ) (spec : DelegationSpec) (ctx : DelegationContext) :
    σ × Except DispatchError DispatchOutcome :=
  match self.chatCompletionStream world spec ctx.retryFeedback with
  | (world, .error err) => (world, .error err)
  | (world, .ok stream) =>
      (world, do
        let (bridge, text) ← drainStream self.uuid {} [] stream
        let finalEvents := bridge.finalize self.uuid
        finishDispatch (text ++ textDeltas finalEvents) (self.latencyMs ctx) (totalTokens finalEvents))

def sink (self : MinimaxDispatchSink σ) : DispatchSink σ := ⟨self.dispatch⟩

end MinimaxDispatchSink

end Codrex.Orchestrator
