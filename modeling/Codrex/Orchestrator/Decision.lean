import Codrex.Lib.Json
import Codrex.Orchestrator.Spec

/-!
# Audit decisions

`orchestrator/src/decision.rs` with the report types of `traits.rs` and the context of `context.rs`.
-/

namespace Codrex.Orchestrator

open Text

inductive CriterionKind
  | outputMatches
  | testsPass
  | custom
  deriving DecidableEq

inductive FailureDetails
  | outputMatches (regex outputExcerpt : Str)
  | testsPass (exitCode : Int) (stderrExcerpt : Str) (command : List Str)
  | custom (exitCode : Int) (stderrExcerpt : Str)
  deriving DecidableEq

structure FailedCriterion where
  name : Str
  kind : CriterionKind
  details : FailureDetails
  deriving DecidableEq

structure RetryFeedback where
  failedCriteria : List FailedCriterion
  deriving DecidableEq

inductive AuditDecision
  | ok (rationale : Str)
  | retry (feedback : RetryFeedback) (attempt : Nat)
  | escalate (reason blockingIssue : Str)
  | clarify (question : Str)
  | drop (reason : Str)
  deriving DecidableEq

inductive DecisionKind
  | ok
  | retry
  | escalate
  | clarify
  | drop
  deriving DecidableEq

def AuditDecision.kind : AuditDecision → DecisionKind
  | .ok _ => .ok
  | .retry _ _ => .retry
  | .escalate _ _ => .escalate
  | .clarify _ => .clarify
  | .drop _ => .drop

structure CriterionResult where
  name : Str
  passed : Bool
  durationMs : Nat
  details : Json

structure AuditReport where
  decision : AuditDecision
  criterionResults : List CriterionResult

/-! ## The context of an attempt -/

/-- `started_at` is left out: it only feeds the latency column of the log. -/
structure DelegationContext where
  runId : Uuid
  parentRunId : Option Uuid
  attempt : Nat
  retryFeedback : Option RetryFeedback
  deriving DecidableEq

def saturatingSucc (n : Nat) : Nat := min (n + 1) 255

namespace DelegationContext

def forTopLevel (spec : DelegationSpec) : DelegationContext := ⟨spec.runId, none, 0, none⟩

def nextAttemptWithFeedback (ctx : DelegationContext) (feedback : RetryFeedback) : DelegationContext :=
  { ctx with attempt := saturatingSucc ctx.attempt, retryFeedback := some feedback }

end DelegationContext

/-! ## Signatures of failures -/

/-- The two library functions behind a signature: SHA-256 of a text in UTF-8, and the replacement of
uuids, process ids and timestamps by regular expressions. -/
structure SignatureEnv where
  sha256 : Str → List UInt8
  normalizeSignatureNoise : Str → Str

def hexDigit (n : Nat) : Char := "0123456789abcdef".toList.getD n '0'

def hexByte (b : UInt8) : Str := [hexDigit (b.toNat / 16), hexDigit (b.toNat % 16)]

def signaturePreviewLimit : Nat := 200

def replaceChar (a b : Char) (s : Str) : Str := s.map fun c => if c = a then b else c

def normalizeSignaturePaths (text : Str) : Str := replaceChar '\\' '/' text

def CriterionKind.kindId : CriterionKind → Str
  | .outputMatches => "output_matches"
  | .testsPass => "tests_pass"
  | .custom => "custom"

namespace SignatureEnv

variable (env : SignatureEnv)

def normalizeSignatureExcerpt (input : Str) : Str :=
  let normalized := replaceChar '\r' ' ' (replaceChar '\n' ' ' input)
  (env.normalizeSignatureNoise (normalizeSignaturePaths normalized)).take signaturePreviewLimit

def normalizeSignaturePath (path : Str) : Str := normalizeSignaturePaths (env.normalizeSignatureNoise path)

def normalizedFailureDetails : FailureDetails → Str
  | .outputMatches regex outputExcerpt =>
      "regex=".toList ++ regex ++ ",output_excerpt=".toList ++ env.normalizeSignatureExcerpt outputExcerpt
  | .testsPass exitCode stderrExcerpt command =>
      "exit_code=".toList ++ (toString exitCode).toList ++ ",stderr_excerpt=".toList ++
        env.normalizeSignatureExcerpt stderrExcerpt ++ ",command=".toList ++
        [' '].intercalate (command.map env.normalizeSignaturePath)
  | .custom exitCode stderrExcerpt =>
      "exit_code=".toList ++ (toString exitCode).toList ++ ",stderr_excerpt=".toList ++
        env.normalizeSignatureExcerpt stderrExcerpt

def errorSignature (criterion : FailedCriterion) : Str :=
  (env.sha256 (criterion.name ++ ['|'] ++ criterion.kind.kindId ++ ['|'] ++
    env.normalizedFailureDetails criterion.details)).flatMap hexByte

/-- The signatures are sorted, so that their order in the feedback does not matter. -/
def errorSignatureForRetryFeedback (feedback : RetryFeedback) : Option Str :=
  if feedback.failedCriteria.isEmpty then none
  else
    let sigs := (feedback.failedCriteria.map env.errorSignature).mergeSort fun a b => decide (a ≤ b)
    some (((env.sha256 (['|'].intercalate sigs)).take 16).flatMap hexByte)

end SignatureEnv

/-! ## The serialised form -/

def CriterionKind.toJson (kind : CriterionKind) : Json := .obj [("kind", .str kind.kindId)]

def FailureDetails.toJson : FailureDetails → Json
  | .outputMatches regex outputExcerpt =>
      .obj [("kind", .str "output_matches"), ("regex", .str regex), ("output_excerpt", .str outputExcerpt)]
  | .testsPass exitCode stderrExcerpt command =>
      .obj [("kind", .str "tests_pass"), ("exit_code", .num exitCode),
        ("stderr_excerpt", .str stderrExcerpt), ("command", .arr (command.map .str))]
  | .custom exitCode stderrExcerpt =>
      .obj [("kind", .str "custom"), ("exit_code", .num exitCode), ("stderr_excerpt", .str stderrExcerpt)]

def FailedCriterion.toJson (criterion : FailedCriterion) : Json :=
  .obj [("name", .str criterion.name), ("kind", criterion.kind.toJson), ("details", criterion.details.toJson)]

def RetryFeedback.toJson (feedback : RetryFeedback) : Json :=
  .obj [("failed_criteria", .arr (feedback.failedCriteria.map FailedCriterion.toJson))]

def AuditDecision.toJson : AuditDecision → Json
  | .ok rationale => .obj [("verdict", .str "ok"), ("rationale", .str rationale)]
  | .retry feedback attempt =>
      .obj [("verdict", .str "retry"), ("feedback", feedback.toJson), ("attempt", .num attempt)]
  | .escalate reason blockingIssue =>
      .obj [("verdict", .str "escalate"), ("reason", .str reason), ("blocking_issue", .str blockingIssue)]
  | .clarify question => .obj [("verdict", .str "clarify"), ("question", .str question)]
  | .drop reason => .obj [("verdict", .str "drop"), ("reason", .str reason)]

end Codrex.Orchestrator
