import Codrex.ExecPolicy.Lemmas.Approval
import Codrex.ExecPolicy.Policy

/-!
# Managed requirements and amendments

When the policy that `ExecPolicyManager::load` returns is at least as strict as the managed
requirements alone, and when an amendment that is proposed takes effect.
-/

namespace Codrex.ExecPolicy
open Text

/-! ## Matching against a merged policy -/

namespace Policy

variable (p o : Policy)

@[simp] theorem getVec_mergeOverlay (program : Str) :
    (p.mergeOverlay o).getVec program = p.getVec program ++ o.getVec program := by
  simp [getVec, mergeOverlay]

theorem matchExactRules_mergeOverlay (cmd : List Str) :
    (p.mergeOverlay o).matchExactRules cmd = p.matchExactRules cmd ++ o.matchExactRules cmd := by
  cases cmd with
  | nil => rfl
  | cons first args => simp [matchExactRules]

theorem hostExecutableAllowed_mergeOverlay (basename : Str) (program : AbsolutePathBuf) :
    (p.mergeOverlay o).hostExecutableAllowed basename program =
      if (o.hostExecutablesByName.lookup basename).isSome then o.hostExecutableAllowed basename program
      else p.hostExecutableAllowed basename program := by
  unfold hostExecutableAllowed mergeOverlay
  rw [List.lookup_append]
  cases o.hostExecutablesByName.lookup basename <;> simp

variable {p o}

theorem matchHost_ne_nil {env : HostEnv} {cmd : List Str} {d : Decision}
    (hd : strictest (p.matchesForCommandWithOptions env cmd none ⟨true⟩) = some d)
    (hexact : p.matchExactRules cmd = []) : p.matchHostExecutableRules env cmd ≠ [] := by
  intro hhost
  simp [matchesForCommandWithOptions, hexact, hhost, strictest] at hd

/-- Under the host executables of `base` and `overlay` together, the overlay's rules for the
command's program still apply. -/
def KeepsHostExecutable (env : HostEnv) (base overlay : Policy) (cmd : List Str) : Prop :=
  ∀ first args program basename, cmd = first :: args →
    resolveProgram env first = some (program, basename) →
    (overlay.hostExecutablesByName.lookup basename).isSome ∨
      base.hostExecutableAllowed basename program = true

theorem matchHost_mergeOverlay {env : HostEnv} {cmd : List Str}
    (hhost : o.matchHostExecutableRules env cmd ≠ []) (hkeep : KeepsHostExecutable env p o cmd) :
    o.matchHostExecutableRules env cmd ⊆ (p.mergeOverlay o).matchHostExecutableRules env cmd := by
  cases cmd with
  | nil => exact absurd rfl hhost
  | cons first args =>
      cases hr : resolveProgram env first with
      | none => simp [matchHostExecutableRules, hr]
      | some resolved =>
          obtain ⟨program, basename⟩ := resolved
          simp only [matchHostExecutableRules, hr] at hhost ⊢
          have hallowed : o.hostExecutableAllowed basename program = true := by
            by_contra hno
            simp [hno] at hhost
          have hmerged : (p.mergeOverlay o).hostExecutableAllowed basename program = true := by
            rw [hostExecutableAllowed_mergeOverlay]
            rcases hkeep first args program basename rfl hr with hsome | hbase
            · simp [hsome, hallowed]
            · simp [hbase, hallowed]
          simp only [hallowed, hmerged, ↓reduceIte, getVec_mergeOverlay, List.filterMap_append,
            List.map_append]
          exact List.subset_append_right _ _

theorem matchHost_mergeOverlay_eq_nil {env : HostEnv} {cmd : List Str}
    (hkeep : ¬ KeepsHostExecutable env p o cmd) :
    (p.mergeOverlay o).matchHostExecutableRules env cmd = [] := by
  unfold KeepsHostExecutable at hkeep
  push Not at hkeep
  obtain ⟨first, args, program, basename, rfl, hr, hnone, hbase⟩ := hkeep
  simp only [matchHostExecutableRules, hr, hostExecutableAllowed_mergeOverlay]
  simp [hnone, hbase]

end Policy

/-! ## The loaded policy -/

/-- The evaluation of the command exists, and its decision is at least as strict as `d`. -/
def Policy.AtLeastAsStrict (env : HostEnv) (p : Policy) (cmd : List Str)
    (fallback : List Str → Decision) (d : Decision) : Prop :=
  ∃ evaluation, p.checkWithOptions env cmd fallback ⟨true⟩ = some evaluation ∧ d ≤ evaluation.decision

instance (env : HostEnv) (p : Policy) (cmd : List Str) (fallback : List Str → Decision) (d : Decision) :
    Decidable (p.AtLeastAsStrict env cmd fallback d) :=
  decidable_of_iff ((p.checkWithOptions env cmd fallback ⟨true⟩).any fun e => decide (d ≤ e.decision))
    (by cases h : p.checkWithOptions env cmd fallback ⟨true⟩ <;> simp [Policy.AtLeastAsStrict, h])

variable {env : HostEnv} {cmd : List Str} {fallback : List Str → Decision} {d : Decision}

theorem atLeastAsStrict_iff {p : Policy} {own : Decision}
    (h : strictest (p.matchesForCommandWithOptions env cmd (some fallback) ⟨true⟩) = some own) :
    p.AtLeastAsStrict env cmd fallback d ↔ d ≤ own := by
  simp [Policy.AtLeastAsStrict, Policy.checkWithOptions, Evaluation.fromMatches, h]

theorem atLeastAsStrict_of_subset {p : Policy} {few : List RuleMatch} (hd : strictest few = some d)
    (hsub : few ⊆ p.matchesForCommandWithOptions env cmd (some fallback) ⟨true⟩) :
    p.AtLeastAsStrict env cmd fallback d := by
  have hne : p.matchesForCommandWithOptions env cmd (some fallback) ⟨true⟩ ≠ [] := by
    intro hnil
    rw [hnil] at hsub
    rw [List.subset_nil.mp hsub] at hd
    cases hd
  obtain ⟨own, hown⟩ := Option.ne_none_iff_exists'.mp (mt strictest_eq_none.mp hne)
  exact (atLeastAsStrict_iff hown).mpr (strictest_le_of_subset hd hown hsub)

theorem atLeastAsStrict_of_no_rule {p : Policy} (hexact : p.matchExactRules cmd = [])
    (hhost : p.matchHostExecutableRules env cmd = []) : p.AtLeastAsStrict env cmd fallback d ↔ d ≤ fallback cmd := by
  apply atLeastAsStrict_iff
  rw [Policy.matchesForCommand_of_no_rule fallback hexact hhost]
  rfl

theorem atLeastAsStrict_empty : Policy.empty.AtLeastAsStrict env cmd fallback d ↔ d ≤ fallback cmd := by
  apply atLeastAsStrict_of_no_rule
  · cases cmd <;> simp [Policy.matchExactRules, Policy.getVec, Policy.empty]
  · cases cmd with
    | nil => rfl
    | cons first args =>
        simp only [Policy.matchHostExecutableRules]
        split <;> simp [Policy.getVec, Policy.empty]

/-- The requirements' decision `d` stands over the policy of the rules files: the requirements match
the command's exact program, or the rules files leave that match alone. -/
def StandsOver (env : HostEnv) (base requirements : Policy) (cmd : List Str)
    (fallback : List Str → Decision) (d : Decision) : Prop :=
  requirements.matchExactRules cmd ≠ [] ∨
    match strictest (base.matchExactRules cmd) with
    | some own => d ≤ own
    | none => Policy.KeepsHostExecutable env base requirements cmd ∨ d ≤ fallback cmd

theorem mergeOverlay_atLeastAsStrict_iff {base requirements : Policy}
    (hd : strictest (requirements.matchesForCommandWithOptions env cmd none ⟨true⟩) = some d) :
    (base.mergeOverlay requirements).AtLeastAsStrict env cmd fallback d ↔
      StandsOver env base requirements cmd fallback d := by
  have hmerge := Policy.matchExactRules_mergeOverlay base requirements cmd
  unfold StandsOver
  by_cases hexact : requirements.matchExactRules cmd = []
  · have hhost := Policy.matchHost_ne_nil hd hexact
    rw [Policy.matchesForCommand_of_host none hexact hhost] at hd
    rw [hexact, List.append_nil] at hmerge
    simp only [hexact, ne_eq, not_true_eq_false, false_or]
    cases hown : strictest (base.matchExactRules cmd) with
    | some own =>
        have hbase : base.matchExactRules cmd ≠ [] := by
          intro he; rw [strictest_eq_none.mpr he] at hown; cases hown
        apply atLeastAsStrict_iff
        rw [Policy.matchesForCommand_of_exact _ (by rw [hmerge]; exact hbase), hmerge, hown]
    | none =>
        rw [strictest_eq_none.mp hown] at hmerge
        by_cases hkeep : Policy.KeepsHostExecutable env base requirements cmd
        · have hsub := Policy.matchHost_mergeOverlay hhost hkeep
          have hne : (base.mergeOverlay requirements).matchHostExecutableRules env cmd ≠ [] := by
            intro he
            rw [he] at hsub
            exact hhost (List.subset_nil.mp hsub)
          refine ⟨fun _ => Or.inl hkeep, fun _ => atLeastAsStrict_of_subset hd ?_⟩
          rw [Policy.matchesForCommand_of_host _ hmerge hne]
          exact hsub
        · rw [atLeastAsStrict_of_no_rule hmerge (Policy.matchHost_mergeOverlay_eq_nil hkeep)]
          exact ⟨Or.inr, fun h => h.resolve_left hkeep⟩
  · rw [Policy.matchesForCommand_of_exact none hexact] at hd
    have hne : (base.mergeOverlay requirements).matchExactRules cmd ≠ [] := by
      rw [hmerge]
      intro he
      exact hexact (List.append_eq_nil_iff.mp he).2
    refine ⟨fun _ => Or.inl hexact, fun _ => atLeastAsStrict_of_subset hd ?_⟩
    rw [Policy.matchesForCommand_of_exact _ hne, hmerge]
    exact List.subset_append_right _ _

/-- Loading keeps the requirements' decision: on a rules file that does not parse the fallback has to
reach it, and otherwise it has to stand over the policy of the rules files. -/
def LoadKeeps (env : HostEnv) (fs : RulesFs) (parse : PolicyParser) (stack : ConfigLayerStack)
    (requirements : Policy) (cmd : List Str) (fallback : List Str → Decision) (d : Decision) : Prop :=
  match loadRulesFiles fs parse stack with
  | .ok base => StandsOver env base requirements cmd fallback d
  | .error (.parsePolicy _ _) => d ≤ fallback cmd
  | .error _ => True

/-- A command on which the managed requirements alone decide `d` gets a decision at least as strict
from the loaded policy exactly when `LoadKeeps` holds. -/
theorem load_atLeastAsStrict_iff (env : HostEnv) (fs : RulesFs) (parse : PolicyParser)
    (stack : ConfigLayerStack) (requirements : Policy)
    (hreq : stack.requirementsExecPolicy = some requirements) (cmd : List Str)
    (fallback : List Str → Decision) (d : Decision)
    (hd : strictest (requirements.matchesForCommandWithOptions env cmd none ⟨true⟩) = some d) :
    (∀ policy, ExecPolicyManager.load fs parse stack = .ok policy →
        policy.AtLeastAsStrict env cmd fallback d) ↔
      LoadKeeps env fs parse stack requirements cmd fallback d := by
  unfold ExecPolicyManager.load loadExecPolicyWithWarning loadExecPolicy LoadKeeps
  cases loadRulesFiles fs parse stack with
  | ok base =>
      simp only [hreq, Except.ok.injEq, forall_eq']
      exact mergeOverlay_atLeastAsStrict_iff hd
  | error err =>
      cases err with
      | parsePolicy path source =>
          simp only [Except.ok.injEq, forall_eq']
          exact atLeastAsStrict_empty
      | readDir dir source => simp
      | readFile path source => simp

/-! ## Runs in which the rules files weaken the requirements -/

def userLayerFs (contents : Str) : RulesFs where
  readDir dir := .ok [⟨dir.push "default.rules" (by decide), true⟩]
  readToString _ := .ok contents

def rmRule (program : Str) (decision : Decision) : PrefixRule := ⟨⟨program, []⟩, decision, none⟩

def rmForbiddenStack : ConfigLayerStack where
  layers := [⟨.user (AbsolutePathBuf.normalizePath "/home/me/.codex/config.toml"), none⟩]
  requirementsExecPolicy := some ⟨[("rm", rmRule "rm" .forbidden)], [], []⟩
  ignoreUserAndProjectExecPolicyRules := false

def allowBinRm : Str := "prefix_rule(pattern = [\"/bin/rm\"], decision = \"allow\")"

def rmElsewhere : Str := "host_executable(name = \"rm\", paths = [\"/usr/bin/rm\"])"

/-- The rules parser on the two texts above; any other text is malformed. -/
def sampleParser : PolicyParser := fun builder _ contents =>
  if contents = allowBinRm then .ok { builder with rules := builder.rules ++ [rmRule "/bin/rm" .allow] }
  else if contents = rmElsewhere then
    .ok { builder with
      hostExecutables := ("rm", [AbsolutePathBuf.normalizePath "/usr/bin/rm"]) :: builder.hostExecutables }
  else .error "parse error"

def ForbidsRm (contents : Str) (cmd : List Str) : Prop :=
  ∀ policy, ExecPolicyManager.load (userLayerFs contents) sampleParser rmForbiddenStack = .ok policy →
    policy.AtLeastAsStrict ⟨none, none⟩ cmd (fun _ => .allow) .forbidden

theorem load_atLeastAsStrict_rm : ForbidsRm allowBinRm ["rm", "notes"] :=
  (load_atLeastAsStrict_iff ⟨none, none⟩ (userLayerFs allowBinRm) sampleParser rmForbiddenStack _ rfl
    ["rm", "notes"] (fun _ => .allow) .forbidden (by decide)).mpr (Or.inl (by decide))

/-- A malformed rules file, an exact rule for the program's path, and a list of host executables
without that path each let a forbidden command through. -/
theorem load_weakens_requirements :
    strictest (Policy.matchesForCommandWithOptions ⟨none, none⟩ ⟨[("rm", rmRule "rm" .forbidden)], [], []⟩
        ["/bin/rm", "notes"] none ⟨true⟩) = some .forbidden ∧
      ¬ ForbidsRm "prefix_rule(" ["/bin/rm", "notes"] ∧ ¬ ForbidsRm allowBinRm ["/bin/rm", "notes"] ∧
      ¬ ForbidsRm rmElsewhere ["/bin/rm", "notes"] := by
  refine ⟨by decide, fun h => ?_, fun h => ?_, fun h => ?_⟩
  · exact absurd (h _ rfl) (by decide)
  · exact absurd (h _ rfl) (by decide)
  · exact absurd (h _ rfl) (by decide)

/-! ## Amendments -/

/-- What is proposed takes effect, except for a prefix rule that the home directory hides. -/
theorem effectiveAmendments_iff_not_hides (env : HostEnv) (shell : Shell) (fallback : List Str → Decision)
    (policy : Policy) (request : ExecApprovalRequest) :
    EffectiveAmendments env shell fallback policy request ↔ ¬ HidesPrefixRule env shell fallback policy request := by
  constructor
  · rintro heffective ⟨args, hproposes, hallowed⟩
    -- The update leaves the policy as it is, so as much has to be asked as before.
    obtain ⟨reason, hcreate⟩ := create_of_proposes hproposes (List.cons_ne_nil _ _)
    have hupdate : appendAmendmentAndUpdate env (fun _ => .ok ()) policy ⟨['~'] :: args⟩ = some (.ok policy) := by
      rw [appendAmendmentAndUpdate_eq rfl, if_pos hallowed]
    exact absurd (heffective.effect _ _ _ _ hcreate hupdate).fewer (lt_irrefl _)
  · intro hhides
    refine ⟨fun reason amendment append updated hcreate hupdate => ?_, fun proposed => allowedByRules_of_bypass⟩
    obtain ⟨evaluation, hevaluation⟩ : ∃ evaluation,
        policy.checkMultipleWithOptions env (request.segments shell) fallback ⟨true⟩ = some evaluation :=
      Policy.exists_checkMultiple (segments_ne_nil shell request)
    obtain ⟨hprompt, haccepted, hproposed⟩ := create_eq_needsApproval hevaluation hcreate
    rcases appendAmendmentAndUpdate_eq_ok hupdate with ⟨hallowed, -⟩ | ⟨-, hadd⟩
    · exfalso
      rcases hproposed with hrequested | ⟨-, hderived⟩
      · have hderive := hrequested
        rw [requestedAmendment, hevaluation, Option.bind_some, deriveRequested_eq_some_iff] at hderive
        obtain ⟨-, hne, -, hnone, -⟩ := hderive
        rw [any_prompt_eq_false hnone] at haccepted
        have hproposes := (proposesPrefixRule_iff hevaluation hne).mpr ⟨hprompt, haccepted, hrequested⟩
        obtain ⟨command, hcommand, hfallback⟩ := hproposes.prompts
        have hmatch := (hproposes.approves command hcommand).resolve_left (by simp [hfallback])
        obtain ⟨args, hargs⟩ := tilde_of_ruleMatches (hproposes.unmatched command hcommand) hmatch hallowed.1
        rw [hargs] at hproposes hallowed
        exact hhides ⟨args, hproposes, hallowed⟩
      · exact hallowed.1 (unmatched_of_tryDerive hevaluation hderived).2.1
    · rcases hproposed with hrequested | ⟨hrequested, hderived⟩
      · exact takesEffect_of_requested hevaluation hprompt hrequested hadd
      · exact takesEffect_of_segment hevaluation hprompt hrequested hderived hadd

/-- A rule for `me` hides the prefix rule `~` of the home directory `/home/me`. -/
theorem homeRule_hides_tilde :
    ¬ EffectiveAmendments ⟨some "/home/me", none⟩ ⟨fun _ => none, fun _ => none, fun _ => none⟩ (fun _ => .prompt)
      ⟨[("me", ⟨⟨"me", []⟩, .allow, none⟩)], [], []⟩ ⟨["/x/~"], .unlessTrusted, some ["~"]⟩ := by
  intro h
  have heffect := h.effect none ⟨["~"]⟩ (fun _ => .ok ()) _ (by decide) (by rfl)
  exact absurd heffect.fewer (by decide)

end Codrex.ExecPolicy
