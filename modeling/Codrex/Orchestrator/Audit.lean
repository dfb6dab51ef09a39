import Codrex.Orchestrator.Runner

/-!
# The pattern auditor

`PatternAuditor` of `orchestrator/src/audit.rs`. Regular expressions, processes, the clock and the text
form of JSON are given functions.
-/

namespace Codrex.Orchestrator

open Text

structure Command where
  program : Str
  args : List Str
  currentDir : Option Str
  deriving DecidableEq

/-- How a process ended. The output is decoded; a process ended by a signal has no exit code. -/
inductive ProcessResult
  | spawnFailed (err : Str)
  | waitFailed (err : Str)
  | timedOut
  | exited (code : Option Int) (stdout stderr : Str)
  deriving DecidableEq

def ProcessResult.success : ProcessResult → Bool
  | .exited code _ _ => code = some 0
  | _ => false

/-- What the auditor asks the outside: the leftmost match of a regular expression in a text as byte
offsets, a process run in the audit of an attempt, and the time a criterion took. -/
structure AuditEnv where
  regexFind : Str → Str → Option (Nat × Nat)
  process : Nat → Command → ProcessResult
  durationMs : Nat → Str → Nat
  displayJson : Json → Str

/-- `str::get` with byte offsets: `none` off a character boundary. -/
def splitAtByte : Nat → Str → Option (Str × Str)
  | 0, s => some ([], s)
  | _ + 1, [] => none
  | n + 1, c :: s =>
      if c.utf8Size ≤ n + 1 then (splitAtByte (n + 1 - c.utf8Size) s).map fun (a, b) => (c :: a, b) else none

def byteSlice (text : Str) (start stop : Nat) : Option Str :=
  (splitAtByte start text).bind fun (_, rest) => (splitAtByte (stop - start) rest).map Prod.fst

def snippetAround (text : Str) (start stop context : Nat) : Str :=
  let s := start - context
  let e := min (stop + context) (byteLen text)
  ((byteSlice text s e).getD []).flatMap fun c => if c = '\n' then "\\n".toList else [c]

def excerptLimit : Nat := 2048

def processOutputLimit : Nat := 4096

def truncatedText (text : Str) : Str := text.take excerptLimit

def toI32 : Option Int → Int
  | some value => if -2147483648 ≤ value ∧ value ≤ 2147483647 then value else -1
  | none => -1

/-! ## Failures -/

def indexed (label : String) (idx : Nat) : Str := label.toList ++ ['['] ++ (toString idx).toList ++ [']']

def customLabel (idx : Nat) (name : Str) : Str :=
  "custom[".toList ++ (toString idx).toList ++ [':'] ++ name ++ [']']

def failedOutputMatch (idx : Nat) (regex : ValidatedRegex) (details : Json) : FailedCriterion :=
  ⟨indexed "output_matches" idx, .outputMatches,
    .outputMatches regex.source (details.strField "output_excerpt")⟩

def failedTestsPass (testSpec : TestSpec) (details : Json) : FailedCriterion :=
  ⟨"tests_pass", .testsPass,
    .testsPass (toI32 ((details.get? "exit_code").bind Json.asInt?)) (truncatedText (details.strField "stderr"))
      testSpec.command⟩

def failedCustom (idx : Nat) (name : Str) (details : Json) : FailedCriterion :=
  ⟨customLabel idx name, .custom,
    .custom (toI32 ((details.get? "exit_code").bind Json.asInt?)) (truncatedText (details.strField "stderr"))⟩

def formatBlockingIssue (env : AuditEnv) (label : Str) (details : Json) : Str :=
  let issue := label ++ " failed: ".toList ++ env.displayJson details
  if label = "no_forbidden_patterns".toList then
    match (details.get? "matches").bind Json.asArr? with
    | some (m :: ms) =>
        let summary := (m :: ms).filterMap fun entry =>
          ((entry.get? "pattern").bind Json.asStr?).map fun pat =>
            ['`'] ++ pat ++ "` matched: ".toList ++
              ((entry.get? "snippet").bind Json.asStr?).getD "<no snippet>"
        "forbidden patterns matched: ".toList ++ "; ".toList.intercalate summary
    | _ => issue
  else issue

def earlyEscalate (env : AuditEnv) (results : List CriterionResult) (details : Json) (label : Str) :
    AuditReport :=
  ⟨.escalate (label ++ " failed — manual intervention required".toList)
    (formatBlockingIssue env label details), results⟩

def earlyRetry (results : List CriterionResult) (failed : FailedCriterion) (ctx : DelegationContext) :
    AuditReport :=
  ⟨.retry ⟨[failed]⟩ (saturatingSucc ctx.attempt), results⟩

/-! ## Criteria -/

def checkOutputMatches (env : AuditEnv) (attempt idx : Nat) (regex : ValidatedRegex) (text : Str) :
    CriterionResult :=
  let matched := (env.regexFind regex.source text).isSome
  let name := indexed "output_matches" idx
  ⟨name, matched, env.durationMs attempt name,
    .obj [("regex", .str regex.source), ("matched", .bool matched), ("output_excerpt", .str (truncatedText text))]⟩

def forbiddenMatch (env : AuditEnv) (text : Str) (pattern : ValidatedRegex) : Option Json :=
  (env.regexFind pattern.source text).map fun (start, stop) =>
    .obj [("pattern", .str pattern.source), ("match_start", .num start), ("match_end", .num stop),
      ("snippet", .str (snippetAround text start stop 80))]

def checkNoForbiddenPatterns (env : AuditEnv) (attempt : Nat) (spec : DelegationSpec) (text : Str) :
    CriterionResult :=
  let hits := spec.forbiddenPatterns.filterMap (forbiddenMatch env text)
  let name : Str := "no_forbidden_patterns"
  ⟨name, hits.isEmpty, env.durationMs attempt name, .obj [("matches", .arr hits)]⟩

def runSubprocess (env : AuditEnv) (attempt : Nat) (name : Str) (cmd : Command) (timeoutMs : Nat) :
    CriterionResult :=
  let result := env.process attempt cmd
  let details : Json := match result with
    | .spawnFailed err => .obj [("error", .str ("spawn failed: ".toList ++ err))]
    | .waitFailed err => .obj [("error", .str ("wait failed: ".toList ++ err))]
    | .timedOut => .obj [("error", .str "timeout"), ("timeout_ms", .num timeoutMs)]
    | .exited code stdout stderr =>
        .obj [("exit_code", .num (code.getD (-1))), ("stdout", .str (stdout.take processOutputLimit)),
          ("stderr", .str (stderr.take processOutputLimit))]
  ⟨name, result.success, env.durationMs attempt name, details⟩

def testCommand (bin : Str) (args : List Str) (workingDir : Option Str) : Command := ⟨bin, args, workingDir⟩

def runTestSpec (env : AuditEnv) (attempt : Nat) (testSpec : TestSpec) (timeoutMs : Nat) : CriterionResult :=
  match testSpec.command with
  | [] => ⟨"tests_pass", false, 0, .obj [("error", .str "empty command")]⟩
  | bin :: args =>
      runSubprocess env attempt "tests_pass" (testCommand bin args testSpec.workingDir) timeoutMs

def scriptCommand (script : ScriptRef) : Command := ⟨script.path, script.args, none⟩

def runCustomScript (env : AuditEnv) (attempt idx : Nat) (name : Str) (script : ScriptRef) (timeoutMs : Nat) :
    CriterionResult :=
  runSubprocess env attempt (customLabel idx name) (scriptCommand script) timeoutMs

/-! ## The audit -/

def outputMatches (acceptance : List AcceptanceCriterion) : List (Nat × ValidatedRegex) :=
  acceptance.zipIdx.filterMap fun
    | (.outputMatches regex, idx) => some (idx, regex)
    | _ => none

def customCriteria (acceptance : List AcceptanceCriterion) : List (Nat × Str × ScriptRef) :=
  acceptance.zipIdx.filterMap fun
    | (.custom name check, idx) => some (idx, name, check)
    | _ => none

/-- Checks made one after the other; the first that fails ends the audit with the report of `fail`. -/
def runChecks {α : Type} (check : α → CriterionResult)
    (fail : List CriterionResult → α → Json → AuditReport) :
    List α → List CriterionResult → Except AuditReport (List CriterionResult)
  | [], results => .ok results
  | x :: xs, results =>
      let result := check x
      let results := results ++ [result]
      if result.passed then runChecks check fail xs results
      else .error (fail results x result.details)

/-- The checks that are made, up to the first that fails. -/
def checksMade {α : Type} (check : α → CriterionResult) : List α → List α
  | [] => []
  | x :: xs => x :: if (check x).passed then checksMade check xs else []

structure PatternAuditor where
  processTimeoutMs : Nat := 30000

namespace PatternAuditor

variable (self : PatternAuditor) (env : AuditEnv) (spec : DelegationSpec) (ctx : DelegationContext)
  (text : Str)

def checkForbidden (results : List CriterionResult) : Except AuditReport (List CriterionResult) :=
  if .noForbiddenPatterns ∈ spec.acceptance then
    runChecks (fun _ : Unit => checkNoForbiddenPatterns env ctx.attempt spec text)
      (fun results _ details => earlyEscalate env results details "no_forbidden_patterns") [()] results
  else .ok results

def checkOutputs (results : List CriterionResult) : Except AuditReport (List CriterionResult) :=
  runChecks (fun (idx, regex) => checkOutputMatches env ctx.attempt idx regex text)
    (fun results (idx, regex) details => earlyRetry results (failedOutputMatch idx regex details) ctx)
    (outputMatches spec.acceptance) results

def checkTests (results : List CriterionResult) : Except AuditReport (List CriterionResult) :=
  if .testsPass ∈ spec.acceptance then
    match spec.expectedTests with
    | none =>
        .error ⟨.drop "TestsPass criterion present but expected_tests is None (spec validation failure)",
          results⟩
    | some testSpec =>
        runChecks (fun testSpec => runTestSpec env ctx.attempt testSpec self.processTimeoutMs)
          (fun results testSpec details => earlyRetry results (failedTestsPass testSpec details) ctx)
          [testSpec] results
  else .ok results

def checkCustom (results : List CriterionResult) : Except AuditReport (List CriterionResult) :=
  runChecks (fun (idx, name, check) => runCustomScript env ctx.attempt idx name check self.processTimeoutMs)
    (fun results (idx, name, _) details => earlyRetry results (failedCustom idx name details) ctx)
    (customCriteria spec.acceptance) results

def allPassed (results : List CriterionResult) : AuditReport :=
  ⟨.ok (if results.isEmpty then "no acceptance criteria configured; treating as pass-through Ok".toList
    else "all ".toList ++ (toString results.length).toList ++ " acceptance criteria passed".toList), results⟩

/-- The kinds of criteria are checked from the cheap to the expensive, and the first failure decides. -/
def audit (outcome : DispatchOutcome) : AuditReport :=
  let checked := do
    let results ← checkForbidden env spec ctx outcome.responseText []
    let results ← checkOutputs env spec ctx outcome.responseText results
    let results ← self.checkTests env spec ctx results
    self.checkCustom env spec ctx results
  match checked with
  | .ok results => allPassed results
  | .error report => report

/-! ## The processes of an audit -/

def testProcess (testSpec : TestSpec) : Option Command :=
  match testSpec.command with
  | [] => none
  | bin :: args => some (testCommand bin args testSpec.workingDir)

def customProcesses : List Command :=
  (checksMade (fun (idx, name, check) => runCustomScript env ctx.attempt idx name check self.processTimeoutMs)
    (customCriteria spec.acceptance)).map fun (_, _, check) => scriptCommand check

/-- The processes that an audit starts, in order. Each stage is reached when those before it have passed. -/
def started (outcome : DispatchOutcome) : List Command :=
  let cheap := do
    let results ← checkForbidden env spec ctx outcome.responseText []
    checkOutputs env spec ctx outcome.responseText results
  match cheap with
  | .error _ => []
  | .ok results =>
      let tests := if .testsPass ∈ spec.acceptance then (spec.expectedTests.bind testProcess).toList else []
      match self.checkTests env spec ctx results with
      | .error _ => tests
      | .ok _ => tests ++ self.customProcesses env spec ctx

def auditor (σ : Type) : Auditor σ where
  audit world spec ctx outcome := (world, self.audit env spec ctx outcome)

end PatternAuditor

end Codrex.Orchestrator
