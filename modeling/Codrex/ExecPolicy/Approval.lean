import Codrex.ExecPolicy.Policy

/-!
# Approval of commands (`core/src/exec_policy.rs`)

What has to be asked before a command runs, the amendment that is proposed with it, and the update of the policy by an
amendment. The shell parser, the quoting of `shlex` and the write to the rules file are parameters, and so is the decision
on commands without a rule.
-/

namespace Codrex.ExecPolicy
open Text

structure GranularApprovalConfig where
  sandboxApproval : Bool
  rules : Bool
  deriving DecidableEq

inductive AskForApproval
  | unlessTrusted
  | onFailure
  | onRequest
  | granular (config : GranularApprovalConfig)
  | never
  deriving DecidableEq

structure ExecPolicyAmendment where
  command : List Str
  deriving DecidableEq

inductive ExecApprovalRequirement
  | skip (bypassSandbox : Bool) (proposedExecpolicyAmendment : Option ExecPolicyAmendment)
  | needsApproval (reason : Option Str) (proposedExecpolicyAmendment : Option ExecPolicyAmendment)
  | forbidden (reason : Str)
  deriving DecidableEq

structure ExecApprovalRequest where
  command : List Str
  approvalPolicy : AskForApproval
  prefixRule : Option (List Str)
  deriving DecidableEq

/-- `parse_shell_lc_plain_commands` and `parse_shell_lc_single_command_prefix`, and `shlex::try_join`. -/
structure Shell where
  parseShellLcPlainCommands : List Str → Option (List (List Str))
  parseShellLcSingleCommandPrefix : List Str → Option (List Str)
  tryJoin : List Str → Option Str

def RuleMatch.isPolicyMatch : RuleMatch → Bool
  | prefixRuleMatch _ _ _ _ => true
  | heuristicsRuleMatch _ _ => false

def promptConflictReason : Str := "approval required by policy, but AskForApproval is set to Never"

def rejectSandboxApprovalReason : Str :=
  "approval required by policy, but AskForApproval::Granular.sandbox_approval is false"

def rejectRulesApprovalReason : Str :=
  "approval required by policy rule, but AskForApproval::Granular.rules is false"

def promptIsRejectedByPolicy (approvalPolicy : AskForApproval) (promptIsRule : Bool) : Option Str :=
  match approvalPolicy with
  | .never => some promptConflictReason
  | .onFailure => none
  | .onRequest => none
  | .unlessTrusted => none
  | .granular config =>
      if promptIsRule then if config.rules then none else some rejectRulesApprovalReason
      else if config.sandboxApproval then none
      else some rejectSandboxApprovalReason

/-- The segments of the command, and whether only the parser for here-documents could read it. -/
def commandsForExecPolicy (shell : Shell) (command : List Str) : List (List Str) × Bool :=
  match (shell.parseShellLcPlainCommands command).filter (· ≠ []) with
  | some commands => (commands, false)
  | none =>
      match shell.parseShellLcSingleCommandPrefix command with
      | some singleCommand => ([singleCommand], true)
      | none => ([command], false)

/-! ## Reasons -/

def renderShlexCommand (shell : Shell) (args : List Str) : Str := (shell.tryJoin args).getD ([' '].intercalate args)

/-- `Iterator::max_by_key`: the last of the elements with the greatest key. -/
def maxByKey {α : Type} (key : α → Nat) (elements : List α) : Option α :=
  elements.foldl (fun best element => match best with
    | none => some element
    | some best => if key best ≤ key element then some element else some best) none

/-- The longest matched prefix of a rule with the decision, and its justification. -/
def mostSpecific (decision : Decision) (matchedRules : List RuleMatch) : Option (List Str × Option Str) :=
  maxByKey (fun found => found.1.length) (matchedRules.filterMap fun
    | .prefixRuleMatch matchedPrefix own _ justification =>
        if own = decision then some (matchedPrefix, justification) else none
    | .heuristicsRuleMatch _ _ => none)

def derivePromptReason (shell : Shell) (commandArgs : List Str) (evaluation : Evaluation) : Option Str :=
  let command := renderShlexCommand shell commandArgs
  match mostSpecific .prompt evaluation.matchedRules with
  | some (_, some justification) => some ("`".toList ++ command ++ "` requires approval: ".toList ++ justification)
  | some (_, none) => some ("`".toList ++ command ++ "` requires approval by policy".toList)
  | none => none

def deriveForbiddenReason (shell : Shell) (commandArgs : List Str) (evaluation : Evaluation) : Str :=
  let command := renderShlexCommand shell commandArgs
  match mostSpecific .forbidden evaluation.matchedRules with
  | some (_, some justification) => "`".toList ++ command ++ "` rejected: ".toList ++ justification
  | some (matchedPrefix, none) =>
      "`".toList ++ command ++ "` rejected: policy forbids commands starting with `".toList ++
        renderShlexCommand shell matchedPrefix ++ "`".toList
  | none => "`".toList ++ command ++ "` rejected: blocked by policy".toList

/-! ## Amendments -/

def bannedPrefixSuggestions : List (List Str) :=
  List.map (List.map String.toList) [["python3"], ["python3", "-"], ["python3", "-c"], ["python"], ["python", "-"], ["python", "-c"], ["py"],
    ["py", "-3"], ["pythonw"], ["pyw"], ["pypy"], ["pypy3"], ["git"], ["bash"], ["bash", "-lc"], ["sh"], ["sh", "-c"],
    ["sh", "-lc"], ["zsh"], ["zsh", "-lc"], ["/bin/zsh"], ["/bin/zsh", "-lc"], ["/bin/bash"], ["/bin/bash", "-lc"],
    ["pwsh"], ["pwsh", "-Command"], ["pwsh", "-c"], ["powershell"], ["powershell", "-Command"], ["powershell", "-c"],
    ["powershell.exe"], ["powershell.exe", "-Command"], ["powershell.exe", "-c"], ["env"], ["sudo"], ["node"],
    ["node", "-e"], ["perl"], ["perl", "-e"], ["ruby"], ["ruby", "-e"], ["php"], ["php", "-r"], ["lua"], ["lua", "-e"],
    ["osascript"]]

/-- The first command on which the fallback has the decision. -/
def firstHeuristics (decision : Decision) (matchedRules : List RuleMatch) : Option ExecPolicyAmendment :=
  matchedRules.findSome? fun
    | .heuristicsRuleMatch command own => if own = decision then some ⟨command⟩ else none
    | .prefixRuleMatch _ _ _ _ => none

def tryDeriveExecpolicyAmendmentForPromptRules (matchedRules : List RuleMatch) : Option ExecPolicyAmendment :=
  if matchedRules.any fun ruleMatch => ruleMatch.isPolicyMatch && ruleMatch.decision = .prompt then none
  else firstHeuristics .prompt matchedRules

def tryDeriveExecpolicyAmendmentForAllowRules (matchedRules : List RuleMatch) : Option ExecPolicyAmendment :=
  if matchedRules.any RuleMatch.isPolicyMatch then none else firstHeuristics .allow matchedRules

section

variable (env : HostEnv) (shell : Shell) (fallback : List Str → Decision)

def prefixRuleWouldApproveAllCommands (policy : Policy) (tokens : List Str) (commands : List (List Str)) : Bool :=
  match policy.addPrefixRule tokens .allow with
  | .error _ => false
  | .ok policyWithPrefixRule => commands.all fun command =>
      ((policyWithPrefixRule.checkWithOptions env command fallback ⟨true⟩).map (·.decision)) = some .allow

def deriveRequestedExecpolicyAmendmentFromPrefixRule (prefixRule : Option (List Str)) (matchedRules : List RuleMatch)
    (policy : Policy) (commands : List (List Str)) : Option ExecPolicyAmendment :=
  match prefixRule with
  | none => none
  | some tokens =>
      if tokens = [] then none
      else if tokens ∈ bannedPrefixSuggestions then none
      else if matchedRules.any RuleMatch.isPolicyMatch then none
      else if prefixRuleWouldApproveAllCommands env fallback policy tokens commands then some ⟨tokens⟩
      else none

/-- `create_exec_approval_requirement_for_command`, for the current policy. There is none if the source panics. -/
def createExecApprovalRequirementForCommand (policy : Policy) (request : ExecApprovalRequest) :
    Option ExecApprovalRequirement := do
  let (commands, usedComplexParsing) := commandsForExecPolicy shell request.command
  let autoAmendmentAllowed := !usedComplexParsing
  let evaluation ← policy.checkMultipleWithOptions env commands fallback ⟨true⟩
  let requestedAmendment := deriveRequestedExecpolicyAmendmentFromPrefixRule env fallback request.prefixRule
    evaluation.matchedRules policy commands
  match evaluation.decision with
  | .forbidden => return .forbidden (deriveForbiddenReason shell request.command evaluation)
  | .prompt =>
      let promptIsRule := evaluation.matchedRules.any fun ruleMatch =>
        ruleMatch.isPolicyMatch && ruleMatch.decision = .prompt
      match promptIsRejectedByPolicy request.approvalPolicy promptIsRule with
      | some reason => return .forbidden reason
      | none =>
          return .needsApproval (derivePromptReason shell request.command evaluation)
            (requestedAmendment.or
              (if autoAmendmentAllowed then tryDeriveExecpolicyAmendmentForPromptRules evaluation.matchedRules else none))
  | .allow =>
      let bypassSandbox := commands.all fun command =>
        (policy.matchesForCommandWithOptions env command none ⟨true⟩).any fun ruleMatch =>
          ruleMatch.isPolicyMatch && ruleMatch.decision = .allow
      return .skip bypassSandbox
        (if autoAmendmentAllowed then tryDeriveExecpolicyAmendmentForAllowRules evaluation.matchedRules else none)

/-! ## The update -/

inductive AmendError
  | emptyPrefix
  | io
  deriving DecidableEq

inductive ExecPolicyUpdateError
  | appendRule (source : AmendError)
  | addRule (source : Str)
  deriving DecidableEq

/-- `append` writes the line of the rule to the rules file. -/
def blockingAppendAllowPrefixRule (append : List Str → Except AmendError Unit) (tokens : List Str) :
    Except AmendError Unit :=
  if tokens = [] then .error .emptyPrefix else append tokens

/-- `append_amendment_and_update`: the policy that is current behind it. There is none if the source panics. -/
def appendAmendmentAndUpdate (append : List Str → Except AmendError Unit) (policy : Policy)
    (amendment : ExecPolicyAmendment) : Option (Except ExecPolicyUpdateError Policy) :=
  match blockingAppendAllowPrefixRule append amendment.command with
  | .error source => some (.error (.appendRule source))
  | .ok () => do
      let existingEvaluation ← policy.checkMultipleWithOptions env [amendment.command] (fun _ => .forbidden) ⟨true⟩
      let alreadyAllowed := existingEvaluation.decision = .allow &&
        existingEvaluation.matchedRules.any fun ruleMatch => ruleMatch.isPolicyMatch && ruleMatch.decision = .allow
      if alreadyAllowed then return .ok policy
      else return (policy.addPrefixRule amendment.command .allow).mapError .addRule

end

end Codrex.ExecPolicy

/-!
## What an amendment is for

A proposed amendment takes effect: with it, fewer segments of the command have to be asked for. A command runs without the
sandbox only if rules allow all of it.
-/

namespace Codrex.ExecPolicy
open Text

/-! ## Segments -/

section

variable (env : HostEnv) (shell : Shell) (fallback : List Str → Decision) (policy : Policy)

def ExecApprovalRequest.segments (request : ExecApprovalRequest) : List (List Str) :=
  (commandsForExecPolicy shell request.command).1

def Policy.ruleMatches (command : List Str) : List RuleMatch :=
  policy.matchesForCommandWithOptions env command none ⟨true⟩

def Policy.decisionOf (command : List Str) : Option Decision :=
  (policy.checkWithOptions env command fallback ⟨true⟩).map (·.decision)

def Policy.promptCount (commands : List (List Str)) : Nat :=
  commands.countP fun command => policy.decisionOf env fallback command = some .prompt

/-- There are rules that match the command, and all of them allow it. -/
def Policy.AllowedByRules (command : List Str) : Prop :=
  policy.ruleMatches env command ≠ [] ∧ ∀ ruleMatch ∈ policy.ruleMatches env command, ruleMatch.decision = .allow

instance (command : List Str) : Decidable (policy.AllowedByRules env command) :=
  inferInstanceAs (Decidable (_ ∧ _))

/-! ## Amendments that take effect -/

/-- The amendment that is made of the prefix rule of the request. -/
def requestedAmendment (request : ExecApprovalRequest) : Option ExecPolicyAmendment :=
  (policy.checkMultipleWithOptions env (request.segments shell) fallback ⟨true⟩).bind fun evaluation =>
    deriveRequestedExecpolicyAmendmentFromPrefixRule env fallback request.prefixRule evaluation.matchedRules policy
      (request.segments shell)

/-- The request is asked again under the updated policy. -/
structure TakesEffect (request : ExecApprovalRequest) (amendment : ExecPolicyAmendment) (updated : Policy) : Prop where
  fewer : updated.promptCount env fallback (request.segments shell) <
    policy.promptCount env fallback (request.segments shell)
  noStricter : ∀ command ∈ request.segments shell, ∀ before after, policy.decisionOf env fallback command = some before →
    updated.decisionOf env fallback command = some after → after ≤ before
  skips : requestedAmendment env shell fallback policy request = some amendment →
    ∃ bypassSandbox proposed, createExecApprovalRequirementForCommand env shell fallback updated request =
      some (.skip bypassSandbox proposed)

structure EffectiveAmendments (request : ExecApprovalRequest) : Prop where
  effect : ∀ reason amendment append updated,
    createExecApprovalRequirementForCommand env shell fallback policy request =
      some (.needsApproval reason (some amendment)) →
    appendAmendmentAndUpdate env append policy amendment = some (.ok updated) →
    TakesEffect env shell fallback policy request amendment updated
  bypass : ∀ proposed, createExecApprovalRequirementForCommand env shell fallback policy request =
      some (.skip true proposed) →
    ∀ command ∈ request.segments shell, policy.AllowedByRules env command

/-! ## Prefix rules that are hidden by another rule -/

/-- A rule with these tokens matches the command, by its program or by the name of the file the program stands for. -/
def Policy.WouldMatch (tokens command : List Str) : Prop :=
  tokens <+: command ∨ ∃ first args program basename, command = first :: args ∧
    resolveProgram env first = some (program, basename) ∧ policy.hostExecutableAllowed basename program = true ∧
    tokens <+: basename :: args

/-- The prefix rule of the request is what is proposed. -/
structure ProposesPrefixRule (request : ExecApprovalRequest) (tokens : List Str) : Prop where
  asked : request.prefixRule = some tokens
  notBanned : tokens ∉ bannedPrefixSuggestions
  accepted : promptIsRejectedByPolicy request.approvalPolicy false = none
  unmatched : ∀ command ∈ request.segments shell, policy.ruleMatches env command = []
  prompts : ∃ command ∈ request.segments shell, fallback command = .prompt
  notForbidden : ∀ command ∈ request.segments shell, fallback command ≠ .forbidden
  approves : ∀ command ∈ request.segments shell, fallback command = .allow ∨ policy.WouldMatch env tokens command

/-- The prefix rule is for a program `~` and is proposed. As a command, the program is the home directory, and rules for
the name of that directory allow it already. -/
def HidesPrefixRule (request : ExecApprovalRequest) : Prop :=
  ∃ args, ProposesPrefixRule env shell fallback policy request (['~'] :: args) ∧
    policy.AllowedByRules env (['~'] :: args)

end

end Codrex.ExecPolicy
