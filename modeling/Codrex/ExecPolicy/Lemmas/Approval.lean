import Codrex.ExecPolicy.Lemmas.Amendment

/-!
# Approval and update of a request

What is proposed for a request is one of its segments or its prefix rule, and the update adds it unless rules allow it
already.
-/

namespace Codrex.ExecPolicy
open Text UnixPath

variable {env : HostEnv} {shell : Shell} {fallback : List Str → Decision} {policy amended updated : Policy}
  {request : ExecApprovalRequest} {evaluation : Evaluation} {amendment : ExecPolicyAmendment}
  {commands : List (List Str)} {command : List Str}

/-! ## The evaluation of the segments -/

theorem segments_ne_nil (shell : Shell) (request : ExecApprovalRequest) : request.segments shell ≠ [] := by
  rw [ExecApprovalRequest.segments, commandsForExecPolicy]
  split
  next commands hcommands =>
    obtain ⟨-, hne⟩ := Option.filter_eq_some_iff.mp hcommands
    simpa using hne
  next =>
    split
    · exact List.cons_ne_nil _ _
    · exact List.cons_ne_nil _ _

theorem strictest_flatMap {matched : List Str → List RuleMatch} {d : Decision} :
    strictest (commands.flatMap matched) = some d ↔
      (∃ command ∈ commands, strictest (matched command) = some d) ∧
        ∀ command ∈ commands, ∀ own, strictest (matched command) = some own → own ≤ d := by
  constructor
  · intro h
    obtain ⟨⟨ruleMatch, hmem, hd⟩, hall⟩ := strictest_eq_some.mp h
    obtain ⟨command, hcommand, hmatched⟩ := List.mem_flatMap.mp hmem
    refine ⟨⟨command, hcommand, strictest_eq_some.mpr ⟨⟨ruleMatch, hmatched, hd⟩, fun other hother => ?_⟩⟩, ?_⟩
    · exact hall other (List.mem_flatMap.mpr ⟨command, hcommand, hother⟩)
    · intro command hcommand own hown
      obtain ⟨⟨ruleMatch, hmatched, rfl⟩, -⟩ := strictest_eq_some.mp hown
      exact hall ruleMatch (List.mem_flatMap.mpr ⟨command, hcommand, hmatched⟩)
  · rintro ⟨⟨command, hcommand, hd⟩, hall⟩
    obtain ⟨⟨ruleMatch, hmatched, hd⟩, -⟩ := strictest_eq_some.mp hd
    refine strictest_eq_some.mpr ⟨⟨ruleMatch, List.mem_flatMap.mpr ⟨command, hcommand, hmatched⟩, hd⟩, ?_⟩
    intro other hother
    obtain ⟨command, hcommand, hmatched⟩ := List.mem_flatMap.mp hother
    obtain ⟨own, hown⟩ := exists_strictest (List.ne_nil_of_mem hmatched)
    exact ((strictest_eq_some.mp hown).2 other hmatched).trans (hall command hcommand own hown)

namespace Policy

variable {commands : List (List Str)} {d : Decision}

theorem exists_decisionOf (command : List Str) : ∃ d, policy.decisionOf env fallback command = some d := by
  rw [decisionOf_eq_strictest]
  exact exists_strictest (matchesForCommand_ne_nil fallback command)

theorem checkMultiple_eq_some (h : policy.checkMultipleWithOptions env commands fallback ⟨true⟩ = some evaluation) :
    evaluation.matchedRules =
        commands.flatMap (fun command => policy.matchesForCommandWithOptions env command (some fallback) ⟨true⟩) ∧
      (∃ command ∈ commands, policy.decisionOf env fallback command = some evaluation.decision) ∧
      ∀ command ∈ commands, ∀ own, policy.decisionOf env fallback command = some own → own ≤ evaluation.decision := by
  obtain ⟨decision, hdecision, rfl⟩ := Option.map_eq_some_iff.mp h
  refine ⟨rfl, ?_⟩
  simp only [decisionOf_eq_strictest]
  exact strictest_flatMap.mp hdecision

theorem exists_checkMultiple (hne : commands ≠ []) :
    ∃ evaluation, policy.checkMultipleWithOptions env commands fallback ⟨true⟩ = some evaluation := by
  obtain ⟨command, hcommand⟩ := List.exists_mem_of_ne_nil commands hne
  have hmatched : commands.flatMap (fun command =>
      policy.matchesForCommandWithOptions env command (some fallback) ⟨true⟩) ≠ [] := fun hnil =>
    matchesForCommand_ne_nil fallback command (List.flatMap_eq_nil_iff.mp hnil command hcommand)
  obtain ⟨d, hd⟩ := exists_strictest hmatched
  exact ⟨_, Option.map_eq_some_iff.mpr ⟨d, hd, rfl⟩⟩

end Policy

/-! ## The update -/

/-- The shortcut of the update is taken if rules allow the prefix as a command. -/
theorem alreadyAllowed_iff
    (h : policy.checkMultipleWithOptions env [command] (fun _ => .forbidden) ⟨true⟩ = some evaluation) :
    (evaluation.decision = .allow ∧ ∃ ruleMatch ∈ evaluation.matchedRules,
        ruleMatch.isPolicyMatch = true ∧ ruleMatch.decision = .allow) ↔ policy.AllowedByRules env command := by
  obtain ⟨hmatched, ⟨other, hother, hdecision⟩, -⟩ := Policy.checkMultiple_eq_some h
  obtain rfl := List.mem_singleton.mp hother
  rw [Policy.allowedByRules_iff]
  by_cases hrules : policy.ruleMatches env other = []
  · rw [Policy.decisionOf_unmatched hrules] at hdecision
    obtain hforbidden := Option.some.inj hdecision
    simp [← hforbidden, hrules, strictest]
  · rw [Policy.decisionOf_matched hrules] at hdecision
    rw [hdecision, Option.some.injEq]
    refine ⟨And.left, fun hallow => ⟨hallow, ?_⟩⟩
    rw [hallow] at hdecision
    obtain ⟨⟨ruleMatch, hmem, hown⟩, -⟩ := strictest_eq_some.mp hdecision
    refine ⟨ruleMatch, ?_, Policy.isPolicyMatch_of_ruleMatches hmem, hown⟩
    rw [hmatched, List.flatMap_singleton, Policy.matchesForCommand_fallback, if_neg hrules]
    exact hmem

theorem appendAmendmentAndUpdate_eq {append : List Str → Except AmendError Unit}
    (h : blockingAppendAllowPrefixRule append amendment.command = .ok ()) :
    appendAmendmentAndUpdate env append policy amendment = some
      (if policy.AllowedByRules env amendment.command then .ok policy
        else (policy.addPrefixRule amendment.command .allow).mapError .addRule) := by
  obtain ⟨evaluation, hevaluation⟩ : ∃ evaluation,
      policy.checkMultipleWithOptions env [amendment.command] (fun _ => .forbidden) ⟨true⟩ = some evaluation :=
    Policy.exists_checkMultiple (List.cons_ne_nil _ _)
  simp only [appendAmendmentAndUpdate, h, hevaluation, Option.bind_eq_bind, Option.bind_some]
  by_cases hallowed : policy.AllowedByRules env amendment.command
  · rw [if_pos hallowed, if_pos (by simpa using (alreadyAllowed_iff hevaluation).mpr hallowed)]
    rfl
  · rw [if_neg hallowed, if_neg (by simpa using mt (alreadyAllowed_iff hevaluation).mp hallowed)]
    rfl

theorem appendAmendmentAndUpdate_eq_ok {append : List Str → Except AmendError Unit}
    (h : appendAmendmentAndUpdate env append policy amendment = some (.ok updated)) :
    (policy.AllowedByRules env amendment.command ∧ updated = policy) ∨
      (¬ policy.AllowedByRules env amendment.command ∧ policy.addPrefixRule amendment.command .allow = .ok updated) := by
  cases happend : blockingAppendAllowPrefixRule append amendment.command with
  | error source =>
      rw [appendAmendmentAndUpdate, happend] at h
      cases h
  | ok =>
      have hupdated := Option.some.inj ((appendAmendmentAndUpdate_eq happend).symm.trans h)
      split at hupdated
      next hallowed => exact .inl ⟨hallowed, (Except.ok.inj hupdated).symm⟩
      next hallowed =>
        cases hadded : policy.addPrefixRule amendment.command .allow with
        | error source =>
            rw [hadded] at hupdated
            cases hupdated
        | ok added =>
            rw [hadded] at hupdated
            exact .inr ⟨hallowed, congrArg _ (Except.ok.inj hupdated)⟩

/-! ## The requirement -/

theorem create_eq (h : policy.checkMultipleWithOptions env (request.segments shell) fallback ⟨true⟩ = some evaluation) :
    createExecApprovalRequirementForCommand env shell fallback policy request = some
      (match evaluation.decision with
      | .forbidden => .forbidden (deriveForbiddenReason shell request.command evaluation)
      | .prompt =>
          match promptIsRejectedByPolicy request.approvalPolicy (evaluation.matchedRules.any fun ruleMatch =>
              ruleMatch.isPolicyMatch && ruleMatch.decision = .prompt) with
          | some reason => .forbidden reason
          | none => .needsApproval (derivePromptReason shell request.command evaluation)
              ((requestedAmendment env shell fallback policy request).or
                (if !(commandsForExecPolicy shell request.command).2 then
                  tryDeriveExecpolicyAmendmentForPromptRules evaluation.matchedRules
                else none))
      | .allow => .skip
          ((request.segments shell).all fun command => (policy.ruleMatches env command).any fun ruleMatch =>
            ruleMatch.isPolicyMatch && ruleMatch.decision = .allow)
          (if !(commandsForExecPolicy shell request.command).2 then
            tryDeriveExecpolicyAmendmentForAllowRules evaluation.matchedRules
          else none)) := by
  have hrequested : requestedAmendment env shell fallback policy request =
      deriveRequestedExecpolicyAmendmentFromPrefixRule env fallback request.prefixRule evaluation.matchedRules policy
        (request.segments shell) := by
    rw [requestedAmendment, h]
    rfl
  rw [hrequested]
  rw [ExecApprovalRequest.segments] at h ⊢
  simp only [createExecApprovalRequirementForCommand, h, Option.bind_eq_bind, Option.bind_some]
  cases evaluation.decision with
  | forbidden => rfl
  | allow => rfl
  | prompt =>
      cases promptIsRejectedByPolicy request.approvalPolicy (evaluation.matchedRules.any fun ruleMatch =>
          ruleMatch.isPolicyMatch && ruleMatch.decision = .prompt) with
      | some reason => rfl
      | none => rfl

theorem isPolicyMatch_of_mem_matched {ruleMatch : RuleMatch}
    (h : ruleMatch ∈ policy.matchesForCommandWithOptions env command (some fallback) ⟨true⟩) :
    (policy.ruleMatches env command = [] ∧ ruleMatch = .heuristicsRuleMatch command (fallback command)) ∨
      (ruleMatch ∈ policy.ruleMatches env command ∧ ruleMatch.isPolicyMatch = true) := by
  rw [Policy.matchesForCommand_fallback] at h
  split at h
  next hrules => exact .inl ⟨hrules, List.mem_singleton.mp h⟩
  next hrules => exact .inr ⟨h, Policy.isPolicyMatch_of_ruleMatches h⟩

/-- No rule takes part in the evaluation exactly if none matches a segment. -/
theorem any_isPolicyMatch_eq_false_iff
    (h : policy.checkMultipleWithOptions env commands fallback ⟨true⟩ = some evaluation) :
    evaluation.matchedRules.any RuleMatch.isPolicyMatch = false ↔
      ∀ command ∈ commands, policy.ruleMatches env command = [] := by
  rw [(Policy.checkMultiple_eq_some h).1, List.any_eq_false]
  constructor
  · intro hnone command hcommand
    by_contra hrules
    obtain ⟨ruleMatch, hmem⟩ := List.exists_mem_of_ne_nil _ hrules
    refine hnone ruleMatch (List.mem_flatMap.mpr ⟨command, hcommand, ?_⟩) (Policy.isPolicyMatch_of_ruleMatches hmem)
    rw [Policy.matchesForCommand_fallback, if_neg hrules]
    exact hmem
  · intro hnone ruleMatch hmem
    obtain ⟨command, hcommand, hmatched⟩ := List.mem_flatMap.mp hmem
    rcases isPolicyMatch_of_mem_matched hmatched with ⟨-, rfl⟩ | ⟨hrules, -⟩
    · exact Bool.false_ne_true
    · rw [hnone command hcommand] at hrules
      cases hrules

/-- The amendment that is derived without a prefix rule is a segment that no rule matches. -/
theorem unmatched_of_tryDerive (h : policy.checkMultipleWithOptions env commands fallback ⟨true⟩ = some evaluation)
    (hderived : tryDeriveExecpolicyAmendmentForPromptRules evaluation.matchedRules = some amendment) :
    amendment.command ∈ commands ∧ policy.ruleMatches env amendment.command = [] ∧
      fallback amendment.command = .prompt := by
  rw [tryDeriveExecpolicyAmendmentForPromptRules] at hderived
  split at hderived
  · cases hderived
  · obtain ⟨ruleMatch, hmem, hfound⟩ := List.exists_of_findSome?_eq_some hderived
    rw [(Policy.checkMultiple_eq_some h).1] at hmem
    obtain ⟨command, hcommand, hmatched⟩ := List.mem_flatMap.mp hmem
    rcases isPolicyMatch_of_mem_matched hmatched with ⟨hrules, rfl⟩ | ⟨-, hpolicy⟩
    · obtain ⟨hprompt, heq⟩ := Option.ite_none_right_eq_some.mp hfound
      cases heq
      exact ⟨hcommand, hrules, hprompt⟩
    · cases ruleMatch with
      | prefixRuleMatch => cases hfound
      | heuristicsRuleMatch => cases hpolicy

/-! ## The prefix rule of the request -/

variable {tokens : List Str}

theorem prefixRuleWouldApprove_iff (hadd : policy.addPrefixRule tokens .allow = .ok amended)
    (commands : List (List Str)) : prefixRuleWouldApproveAllCommands env fallback policy tokens commands = true ↔
      ∀ command ∈ commands, amended.decisionOf env fallback command = some .allow := by
  rw [prefixRuleWouldApproveAllCommands, hadd]
  simp [Policy.decisionOf]

theorem exists_addPrefixRule (policy : Policy) (h : tokens ≠ []) :
    ∃ amended, policy.addPrefixRule tokens .allow = .ok amended := by
  cases tokens with
  | nil => exact absurd rfl h
  | cons first rest => exact ⟨_, rfl⟩

theorem deriveRequested_eq_some_iff {matchedRules : List RuleMatch} {prefixRule : Option (List Str)} :
    deriveRequestedExecpolicyAmendmentFromPrefixRule env fallback prefixRule matchedRules policy commands =
        some amendment ↔
      prefixRule = some amendment.command ∧ amendment.command ≠ [] ∧ amendment.command ∉ bannedPrefixSuggestions ∧
        matchedRules.any RuleMatch.isPolicyMatch = false ∧
        prefixRuleWouldApproveAllCommands env fallback policy amendment.command commands = true := by
  cases prefixRule with
  | none => simp [deriveRequestedExecpolicyAmendmentFromPrefixRule]
  | some tokens =>
      obtain ⟨command⟩ := amendment
      simp only [deriveRequestedExecpolicyAmendmentFromPrefixRule, Option.some.injEq]
      constructor
      · intro h
        split at h
        · cases h
        · split at h
          · cases h
          · split at h
            · cases h
            · split at h
              next hempty hbanned hnone happroves =>
                cases h
                exact ⟨rfl, hempty, hbanned, by simpa using hnone, happroves⟩
              · cases h
      · rintro ⟨rfl, hempty, hbanned, hnone, happroves⟩
        rw [if_neg hempty, if_neg hbanned, if_neg (by simp [hnone]), if_pos happroves]

/-- The prefix rule is the requested amendment exactly if it is what the specification calls proposed. -/
theorem proposesPrefixRule_iff
    (h : policy.checkMultipleWithOptions env (request.segments shell) fallback ⟨true⟩ = some evaluation)
    (hne : tokens ≠ []) :
    ProposesPrefixRule env shell fallback policy request tokens ↔
      evaluation.decision = .prompt ∧ promptIsRejectedByPolicy request.approvalPolicy false = none ∧
        requestedAmendment env shell fallback policy request = some ⟨tokens⟩ := by
  obtain ⟨amended, hadd⟩ := exists_addPrefixRule policy hne
  obtain ⟨-, ⟨segment, hsegment, hown⟩, hall⟩ := Policy.checkMultiple_eq_some h
  have happroves : (∀ command ∈ request.segments shell, policy.ruleMatches env command = []) →
      (prefixRuleWouldApproveAllCommands env fallback policy tokens (request.segments shell) = true ↔
        ∀ command ∈ request.segments shell, fallback command = .allow ∨ policy.WouldMatch env tokens command) := by
    intro hunmatched
    rw [prefixRuleWouldApprove_iff hadd]
    exact forall₂_congr fun command hcommand => Policy.decisionOf_amended_of_unmatched hadd (hunmatched command hcommand)
  rw [requestedAmendment, h, Option.bind_some, deriveRequested_eq_some_iff, any_isPolicyMatch_eq_false_iff h]
  constructor
  · rintro ⟨hasked, hbanned, haccepted, hunmatched, ⟨command, hcommand, hprompt⟩, hforbidden, hallowed⟩
    refine ⟨le_antisymm ?_ ?_, haccepted, hasked, hne, hbanned, hunmatched, (happroves hunmatched).mpr hallowed⟩
    · rw [Policy.decisionOf_unmatched (hunmatched segment hsegment), Option.some.injEq] at hown
      rw [← hown]
      exact Decision.le_prompt_iff.mpr (hforbidden segment hsegment)
    · apply hall command hcommand
      rw [Policy.decisionOf_unmatched (hunmatched command hcommand), hprompt]
  · rintro ⟨hdecision, haccepted, hasked, -, hbanned, hunmatched, hallowed⟩
    rw [hdecision, Policy.decisionOf_unmatched (hunmatched segment hsegment), Option.some.injEq] at hown
    refine ⟨hasked, hbanned, haccepted, hunmatched, ⟨segment, hsegment, hown⟩, fun command hcommand => ?_,
      (happroves hunmatched).mp hallowed⟩
    have hle := hall command hcommand _ (Policy.decisionOf_unmatched (hunmatched command hcommand))
    rw [hdecision] at hle
    exact Decision.le_prompt_iff.mp hle

/-! ## A prefix rule that rules allow already -/

theorem hostCommand_named {program : AbsolutePathBuf} {named : List Str}
    (h : policy.hostCommand env command = some (program, named)) :
    ∃ basename args, named = basename :: args ∧ IsName basename := by
  cases command with
  | nil => cases h
  | cons first args =>
      obtain ⟨⟨resolved, basename⟩, hresolved, hnamed⟩ := Option.bind_eq_some_iff.mp h
      obtain ⟨-, heq⟩ := Option.ite_none_right_eq_some.mp hnamed
      cases heq
      obtain ⟨path, -, hname⟩ := Option.bind_eq_some_iff.mp hresolved
      obtain ⟨other, hlast, heq⟩ := Option.map_eq_some_iff.mp hname
      cases heq
      exact ⟨basename, args, rfl, program.isName basename (List.mem_of_getLast? hlast)⟩

/-- Only a tilde stands for a file of another name. -/
theorem hostCommand_eq_of_isName {basename : Str} {args named : List Str} {program : AbsolutePathBuf}
    (hname : IsName basename) (htilde : basename ≠ ['~'])
    (h : policy.hostCommand env (basename :: args) = some (program, named)) : named = basename :: args := by
  obtain ⟨⟨resolved, other⟩, hresolved, hnamed⟩ := Option.bind_eq_some_iff.mp h
  obtain ⟨-, heq⟩ := Option.ite_none_right_eq_some.mp hnamed
  cases heq
  rw [Policy.resolveProgram, AbsolutePathBuf.fromAbsolutePath_of_isName hname htilde] at hresolved
  obtain ⟨path, hpath, hother⟩ := Option.bind_eq_some_iff.mp hresolved
  obtain ⟨dir, -, rfl⟩ := Option.map_eq_some_iff.mp hpath
  simp only [AbsolutePathBuf.fileName, AbsolutePathBuf.push, List.getLast?_concat, Option.map_some,
    Option.some.injEq, Prod.mk.injEq] at hother
  rw [hother.2]

theorem hostCommand_append {program : AbsolutePathBuf} {named : List Str}
    (h : policy.hostCommand env command = some (program, named)) (rest : List Str) :
    policy.hostCommand env (command ++ rest) = some (program, named ++ rest) := by
  cases command with
  | nil => cases h
  | cons first args =>
      obtain ⟨⟨resolved, basename⟩, hresolved, hnamed⟩ := Option.bind_eq_some_iff.mp h
      obtain ⟨hallowed, heq⟩ := Option.ite_none_right_eq_some.mp hnamed
      cases heq
      simp [Policy.hostCommand, hresolved, hallowed]

/-- A prefix rule that would match an unmatched command is matched itself only if its program is a tilde. -/
theorem tilde_of_ruleMatches (hunmatched : policy.ruleMatches env command = [])
    (hmatch : policy.WouldMatch env tokens command) (h : policy.ruleMatches env tokens ≠ []) :
    ∃ args, tokens = ['~'] :: args := by
  obtain ⟨hexact, hhosts⟩ := Policy.ruleMatches_eq_nil_iff.mp hunmatched
  by_contra hno
  apply h
  rw [Policy.ruleMatches_eq_nil_iff]
  rcases Policy.wouldMatch_iff.mp hmatch with hprefix | ⟨program, named, hhost, hprefix⟩
  · -- What the rule stands for goes on to what the command stands for.
    refine ⟨Policy.matchExactRules_eq_nil_of_prefix hexact hprefix, fun program named hhost => ?_⟩
    obtain ⟨rest, rfl⟩ := hprefix
    exact Policy.matchExactRules_eq_nil_of_prefix (hhosts program (named ++ rest) (hostCommand_append hhost rest))
      (List.prefix_append named rest)
  · have hnil := Policy.matchExactRules_eq_nil_of_prefix (hhosts program named hhost) hprefix
    refine ⟨hnil, fun other otherNamed hother => ?_⟩
    obtain ⟨basename, args, rfl, hname⟩ := hostCommand_named hhost
    cases tokens with
    | nil => cases hother
    | cons first rest =>
        obtain ⟨rfl, -⟩ := List.cons_prefix_cons.mp hprefix
        have htilde : first ≠ ['~'] := fun heq => hno ⟨rest, by rw [heq]⟩
        rw [hostCommand_eq_of_isName hname htilde hother]
        exact hnil

/-! ## The effect of the update -/

theorem countP_lt_countP {α : Type} {l : List α} {p q : α → Bool} (h : ∀ x ∈ l, p x = true → q x = true)
    {x : α} (hmem : x ∈ l) (hp : p x = false) (hq : q x = true) : l.countP p < l.countP q := by
  obtain ⟨front, back, rfl⟩ := List.append_of_mem hmem
  have hfront : front.countP p ≤ front.countP q := List.countP_mono_left fun y hy => h y (by simp [hy])
  have hback : back.countP p ≤ back.countP q := List.countP_mono_left fun y hy => h y (by simp [hy])
  rw [List.countP_append, List.countP_append, List.countP_cons_of_neg (by simp [hp]), List.countP_cons_of_pos hq]
  omega

/-- With one more rule there is less to be asked if a segment that was to be asked for is allowed. -/
theorem promptCount_amended_lt (hadd : policy.addPrefixRule tokens .allow = .ok amended)
    (hall : ∀ command ∈ commands, ∀ own, policy.decisionOf env fallback command = some own → own ≤ .prompt)
    (hmem : command ∈ commands) (hbefore : policy.decisionOf env fallback command = some .prompt)
    (hafter : amended.decisionOf env fallback command = some .allow) :
    amended.promptCount env fallback commands < policy.promptCount env fallback commands := by
  refine countP_lt_countP (fun other hother hprompt => ?_) hmem (by simp [hafter]) (by simp [hbefore])
  obtain ⟨own, hown⟩ : ∃ own, policy.decisionOf env fallback other = some own := Policy.exists_decisionOf other
  have hge := Policy.decisionOf_amended_le hadd hown (by simpa using hprompt)
  simp [hown, le_antisymm (hall other hother own hown) hge]

theorem takesEffect_of_segment
    (h : policy.checkMultipleWithOptions env (request.segments shell) fallback ⟨true⟩ = some evaluation)
    (hprompt : evaluation.decision = .prompt) (hrequested : requestedAmendment env shell fallback policy request = none)
    (hderived : tryDeriveExecpolicyAmendmentForPromptRules evaluation.matchedRules = some amendment)
    (hadd : policy.addPrefixRule amendment.command .allow = .ok amended) :
    TakesEffect env shell fallback policy request amendment amended := by
  obtain ⟨hmem, hunmatched, hfallback⟩ := unmatched_of_tryDerive h hderived
  have hall := (Policy.checkMultiple_eq_some h).2.2
  rw [hprompt] at hall
  constructor
  case fewer =>
    apply promptCount_amended_lt hadd hall hmem
    · rw [Policy.decisionOf_unmatched hunmatched, hfallback]
    · exact (Policy.decisionOf_amended_of_unmatched hadd hunmatched).mpr (.inr (.inl (List.prefix_refl _)))
  case noStricter => exact fun command _ before after => Policy.decisionOf_amended_le hadd
  case skips =>
    intro hsome
    rw [hrequested] at hsome
    cases hsome

theorem takesEffect_of_requested
    (h : policy.checkMultipleWithOptions env (request.segments shell) fallback ⟨true⟩ = some evaluation)
    (hprompt : evaluation.decision = .prompt)
    (hrequested : requestedAmendment env shell fallback policy request = some amendment)
    (hadd : policy.addPrefixRule amendment.command .allow = .ok amended) :
    TakesEffect env shell fallback policy request amendment amended := by
  obtain ⟨-, ⟨segment, hsegment, hown⟩, hall⟩ := Policy.checkMultiple_eq_some h
  rw [hprompt] at hown hall
  rw [requestedAmendment, h, Option.bind_some, deriveRequested_eq_some_iff] at hrequested
  obtain ⟨-, -, -, -, happroves⟩ := hrequested
  have hallowed := (prefixRuleWouldApprove_iff hadd _).mp happroves
  constructor
  case fewer => exact promptCount_amended_lt hadd hall hsegment hown (hallowed segment hsegment)
  case noStricter => exact fun command _ before after => Policy.decisionOf_amended_le hadd
  case skips =>
    intro _
    obtain ⟨again, hagain⟩ : ∃ again,
        amended.checkMultipleWithOptions env (request.segments shell) fallback ⟨true⟩ = some again :=
      Policy.exists_checkMultiple (segments_ne_nil shell request)
    obtain ⟨-, ⟨command, hcommand, hdecision⟩, -⟩ := Policy.checkMultiple_eq_some hagain
    rw [hallowed command hcommand, Option.some.injEq] at hdecision
    rw [create_eq hagain, ← hdecision]
    exact ⟨_, _, rfl⟩

/-- What is proposed is the prefix rule of the request or a segment that no rule matches. -/
theorem create_eq_needsApproval {reason : Option Str}
    (h : policy.checkMultipleWithOptions env (request.segments shell) fallback ⟨true⟩ = some evaluation)
    (hcreate : createExecApprovalRequirementForCommand env shell fallback policy request =
      some (.needsApproval reason (some amendment))) :
    evaluation.decision = .prompt ∧
      promptIsRejectedByPolicy request.approvalPolicy (evaluation.matchedRules.any fun ruleMatch =>
        ruleMatch.isPolicyMatch && ruleMatch.decision = .prompt) = none ∧
      (requestedAmendment env shell fallback policy request = some amendment ∨
        requestedAmendment env shell fallback policy request = none ∧
          tryDeriveExecpolicyAmendmentForPromptRules evaluation.matchedRules = some amendment) := by
  rw [create_eq h, Option.some.injEq] at hcreate
  cases hdecision : evaluation.decision with
  | forbidden =>
      rw [hdecision] at hcreate
      cases hcreate
  | allow =>
      rw [hdecision] at hcreate
      cases hcreate
  | prompt =>
      simp only [hdecision] at hcreate
      split at hcreate
      · cases hcreate
      next haccepted =>
        simp only [ExecApprovalRequirement.needsApproval.injEq, Option.or_eq_some_iff] at hcreate
        refine ⟨rfl, haccepted, hcreate.2.imp_right fun hauto => ⟨hauto.1, ?_⟩⟩
        exact (Option.ite_none_right_eq_some.mp hauto.2).2

/-- Under a prompt without rules it does not matter whose prompt it is. -/
theorem any_prompt_eq_false (h : evaluation.matchedRules.any RuleMatch.isPolicyMatch = false) :
    (evaluation.matchedRules.any fun ruleMatch => ruleMatch.isPolicyMatch && ruleMatch.decision = .prompt) = false := by
  rw [List.any_eq_false] at h ⊢
  intro ruleMatch hmem
  simp [h ruleMatch hmem]

theorem create_of_proposes (h : ProposesPrefixRule env shell fallback policy request tokens) (hne : tokens ≠ []) :
    ∃ reason, createExecApprovalRequirementForCommand env shell fallback policy request =
      some (.needsApproval reason (some ⟨tokens⟩)) := by
  obtain ⟨evaluation, hevaluation⟩ : ∃ evaluation,
      policy.checkMultipleWithOptions env (request.segments shell) fallback ⟨true⟩ = some evaluation :=
    Policy.exists_checkMultiple (segments_ne_nil shell request)
  obtain ⟨hprompt, haccepted, hrequested⟩ := (proposesPrefixRule_iff hevaluation hne).mp h
  have hnone := any_prompt_eq_false ((any_isPolicyMatch_eq_false_iff hevaluation).mpr h.unmatched)
  refine ⟨derivePromptReason shell request.command evaluation, (create_eq hevaluation).trans ?_⟩
  simp only [hprompt, hnone, haccepted, hrequested, Option.some_or]

/-- Without the sandbox, all segments have rules, and these allow them. -/
theorem allowedByRules_of_bypass {proposed : Option ExecPolicyAmendment}
    (h : createExecApprovalRequirementForCommand env shell fallback policy request = some (.skip true proposed)) :
    ∀ command ∈ request.segments shell, policy.AllowedByRules env command := by
  obtain ⟨evaluation, hevaluation⟩ : ∃ evaluation,
      policy.checkMultipleWithOptions env (request.segments shell) fallback ⟨true⟩ = some evaluation :=
    Policy.exists_checkMultiple (segments_ne_nil shell request)
  have hall := (Policy.checkMultiple_eq_some hevaluation).2.2
  rw [create_eq hevaluation, Option.some.injEq] at h
  cases hdecision : evaluation.decision with
  | forbidden =>
      rw [hdecision] at h
      cases h
  | prompt =>
      simp only [hdecision] at h
      split at h
      · cases h
      · cases h
  | allow =>
      simp only [hdecision, ExecApprovalRequirement.skip.injEq, List.all_eq_true, List.any_eq_true] at h
      intro command hcommand
      obtain ⟨ruleMatch, hmem, -⟩ := h.1 command hcommand
      have hrules := List.ne_nil_of_mem hmem
      obtain ⟨own, hown⟩ := exists_strictest hrules
      have hle := hall command hcommand own ((Policy.decisionOf_matched hrules).trans hown)
      rw [hdecision] at hle
      rw [Policy.allowedByRules_iff, hown, Decision.le_allow hle]

end Codrex.ExecPolicy
