import Codrex.AbsolutePath
import Codrex.ExecPolicy.Lemmas.Matching
import Codrex.ExecPolicy.Approval

/-!
# The evaluation of a policy with one more rule

A rule that allows commands is one more match for some commands and changes nothing for the others, so that no decision
gets stricter.
-/

namespace Codrex.ExecPolicy
open Text UnixPath

variable {env : HostEnv} {shell : Shell} {fallback : List Str → Decision} {policy amended : Policy}

/-! ## Matches by rules -/

theorem isPolicyMatch_of_matches {rule : PrefixRule} {command : List Str} {ruleMatch : RuleMatch}
    (h : rule.matches command = some ruleMatch) : ruleMatch.isPolicyMatch = true := by
  obtain ⟨matchedPrefix, -, rfl⟩ := Option.map_eq_some_iff.mp h
  rfl

@[simp] theorem isPolicyMatch_withResolvedProgram (program : AbsolutePathBuf) (ruleMatch : RuleMatch) :
    (ruleMatch.withResolvedProgram program).isPolicyMatch = ruleMatch.isPolicyMatch := by
  cases ruleMatch <;> rfl

namespace Policy

variable {command tokens : List Str} {ruleMatch : RuleMatch}

theorem isPolicyMatch_of_matchExact (h : ruleMatch ∈ policy.matchExactRules command) :
    ruleMatch.isPolicyMatch = true := by
  cases command with
  | nil => cases h
  | cons first args =>
      obtain ⟨rule, -, hmatches⟩ := List.mem_filterMap.mp h
      exact isPolicyMatch_of_matches hmatches

theorem matchExactRules_eq_nil_of_prefix {short long : List Str} (h : policy.matchExactRules long = [])
    (hstarts : short <+: long) : policy.matchExactRules short = [] := by
  cases short with
  | nil => rfl
  | cons first args =>
      obtain ⟨rest, rfl⟩ := hstarts
      rw [List.cons_append, matchExactRules, List.filterMap_eq_nil_iff] at h
      rw [matchExactRules, List.filterMap_eq_nil_iff]
      intro rule hrule
      exact matches_eq_none_of_prefix (h rule hrule) (List.prefix_append (first :: args) rest)

theorem ruleMatches_of_exact (h : policy.matchExactRules command ≠ []) :
    policy.ruleMatches env command = policy.matchExactRules command := matchesForCommand_of_exact none h

theorem ruleMatches_of_not_exact (h : policy.matchExactRules command = []) :
    policy.ruleMatches env command = policy.matchHostExecutableRules env command := by
  by_cases hhost : policy.matchHostExecutableRules env command = []
  · simp [ruleMatches, matchesForCommandWithOptions, h, hhost]
  · exact matchesForCommand_of_host none h hhost

theorem ruleMatches_of_hostCommand {program : AbsolutePathBuf} {named : List Str}
    (h : policy.matchExactRules command = []) (hhost : policy.hostCommand env command = some (program, named)) :
    policy.ruleMatches env command = (policy.matchExactRules named).map (·.withResolvedProgram program) := by
  rw [ruleMatches_of_not_exact h, matchHost_of_hostCommand hhost]

theorem ruleMatches_of_no_hostCommand (h : policy.matchExactRules command = [])
    (hhost : policy.hostCommand env command = none) : policy.ruleMatches env command = [] := by
  rw [ruleMatches_of_not_exact h, matchHost_of_no_hostCommand hhost]

theorem ruleMatches_eq_nil_iff : policy.ruleMatches env command = [] ↔
    policy.matchExactRules command = [] ∧
      ∀ program named, policy.hostCommand env command = some (program, named) → policy.matchExactRules named = [] := by
  by_cases hexact : policy.matchExactRules command = []
  · cases hhost : policy.hostCommand env command with
    | none => simp [hexact, ruleMatches_of_no_hostCommand hexact hhost]
    | some host =>
        obtain ⟨program, named⟩ := host
        rw [ruleMatches_of_hostCommand hexact hhost, List.map_eq_nil_iff]
        constructor
        · intro hnil
          refine ⟨hexact, ?_⟩
          rintro _ _ ⟨⟩
          exact hnil
        · rintro ⟨-, hnamed⟩
          exact hnamed program named rfl
  · rw [ruleMatches_of_exact hexact]
    exact iff_of_false hexact fun h => hexact h.1

theorem isPolicyMatch_of_ruleMatches (h : ruleMatch ∈ policy.ruleMatches env command) :
    ruleMatch.isPolicyMatch = true := by
  by_cases hexact : policy.matchExactRules command = []
  · cases hhost : policy.hostCommand env command with
    | none =>
        rw [ruleMatches_of_no_hostCommand hexact hhost] at h
        cases h
    | some host =>
        rw [ruleMatches_of_hostCommand hexact hhost] at h
        obtain ⟨inner, hinner, rfl⟩ := List.mem_map.mp h
        rw [isPolicyMatch_withResolvedProgram]
        exact isPolicyMatch_of_matchExact hinner
  · rw [ruleMatches_of_exact hexact] at h
    exact isPolicyMatch_of_matchExact h

theorem matchesForCommand_fallback (command : List Str) :
    policy.matchesForCommandWithOptions env command (some fallback) ⟨true⟩ =
      if policy.ruleMatches env command = [] then [.heuristicsRuleMatch command (fallback command)]
      else policy.ruleMatches env command := by
  by_cases hexact : policy.matchExactRules command = []
  · rw [ruleMatches_of_not_exact hexact]
    split
    next hhost => exact matchesForCommand_of_no_rule fallback hexact hhost
    next hhost => exact matchesForCommand_of_host _ hexact hhost
  · rw [ruleMatches_of_exact hexact, if_neg hexact]
    exact matchesForCommand_of_exact _ hexact

theorem matchesForCommand_ne_nil (fallback : List Str → Decision) (command : List Str) :
    policy.matchesForCommandWithOptions env command (some fallback) ⟨true⟩ ≠ [] := by
  rw [matchesForCommand_fallback]
  split
  · exact List.cons_ne_nil _ _
  next h => exact h

/-! ## Decisions -/

theorem decisionOf_eq_strictest (command : List Str) : policy.decisionOf env fallback command =
    strictest (policy.matchesForCommandWithOptions env command (some fallback) ⟨true⟩) := by
  rw [decisionOf, checkWithOptions, Evaluation.fromMatches, Option.map_map]
  exact Option.map_id'

theorem decisionOf_eq (command : List Str) :
    policy.decisionOf env fallback command =
      if policy.ruleMatches env command = [] then some (fallback command)
      else strictest (policy.ruleMatches env command) := by
  rw [decisionOf_eq_strictest, matchesForCommand_fallback]
  split
  · rfl
  · rfl

theorem decisionOf_unmatched (h : policy.ruleMatches env command = []) :
    policy.decisionOf env fallback command = some (fallback command) := by
  rw [decisionOf_eq, if_pos h]

theorem decisionOf_matched (h : policy.ruleMatches env command ≠ []) :
    policy.decisionOf env fallback command = strictest (policy.ruleMatches env command) := by
  rw [decisionOf_eq, if_neg h]

theorem allowedByRules_iff :
    policy.AllowedByRules env command ↔ strictest (policy.ruleMatches env command) = some .allow :=
  strictest_eq_allow.symm

/-! ## One more rule -/

theorem matchExactRules_amended (h : policy.addPrefixRule tokens .allow = .ok amended) (command : List Str) :
    amended.matchExactRules command = policy.matchExactRules command ++
      if tokens <+: command then [.prefixRuleMatch tokens .allow none none] else [] := by
  cases tokens with
  | nil => cases h
  | cons first rest =>
      obtain rfl := Except.ok.inj h
      cases command with
      | nil => rfl
      | cons program args =>
          simp only [matchExactRules, getVec, List.filter_append, List.map_append, List.filterMap_append]
          congr 1
          by_cases hprogram : first = program
          · subst hprogram
            by_cases hstarts : first :: rest <+: first :: args
            · simp [matches_single, hstarts]
            · simp [matches_single, hstarts]
          · have hnot : ¬ first :: rest <+: program :: args := fun hstarts =>
              hprogram (List.cons_prefix_cons.mp hstarts).1
            rw [if_neg hnot, List.filter_cons_of_neg (by simpa using hprogram)]
            rfl

theorem hostCommand_amended (h : policy.addPrefixRule tokens .allow = .ok amended) (command : List Str) :
    amended.hostCommand env command = policy.hostCommand env command := by
  cases tokens with
  | nil => cases h
  | cons first rest =>
      obtain rfl := Except.ok.inj h
      cases command <;> rfl

theorem wouldMatch_iff : policy.WouldMatch env tokens command ↔
    tokens <+: command ∨ ∃ program named, policy.hostCommand env command = some (program, named) ∧ tokens <+: named := by
  apply or_congr_right
  constructor
  · rintro ⟨first, args, program, basename, rfl, hresolved, hallowed, hstarts⟩
    exact ⟨program, basename :: args, by simp [hostCommand, hresolved, hallowed], hstarts⟩
  · rintro ⟨program, named, hhost, hstarts⟩
    cases command with
    | nil => cases hhost
    | cons first args =>
        obtain ⟨⟨resolved, basename⟩, hresolved, hnamed⟩ := Option.bind_eq_some_iff.mp hhost
        obtain ⟨hallowed, heq⟩ := Option.ite_none_right_eq_some.mp hnamed
        cases heq
        exact ⟨first, args, program, basename, rfl, hresolved, hallowed, hstarts⟩

theorem matchExactRules_amended_eq_nil_iff (h : policy.addPrefixRule tokens .allow = .ok amended) :
    amended.matchExactRules command = [] ↔ policy.matchExactRules command = [] ∧ ¬ tokens <+: command := by
  rw [matchExactRules_amended h, List.append_eq_nil_iff]
  simp

/-- The rule is one more match for the commands it would match. -/
theorem ruleMatches_amended_eq_nil_iff (h : policy.addPrefixRule tokens .allow = .ok amended) :
    amended.ruleMatches env command = [] ↔
      policy.ruleMatches env command = [] ∧ ¬ policy.WouldMatch env tokens command := by
  rw [ruleMatches_eq_nil_iff, ruleMatches_eq_nil_iff, wouldMatch_iff, hostCommand_amended h,
    matchExactRules_amended_eq_nil_iff h]
  constructor
  · rintro ⟨⟨hexact, hnot⟩, hnamed⟩
    refine ⟨⟨hexact, fun program named hhost => ?_⟩, ?_⟩
    · exact ((matchExactRules_amended_eq_nil_iff h).mp (hnamed program named hhost)).1
    · rintro (hstarts | ⟨program, named, hhost, hstarts⟩)
      · exact hnot hstarts
      · exact ((matchExactRules_amended_eq_nil_iff h).mp (hnamed program named hhost)).2 hstarts
  · rintro ⟨⟨hexact, hnamed⟩, hnot⟩
    refine ⟨⟨hexact, fun hstarts => hnot (.inl hstarts)⟩, fun program named hhost => ?_⟩
    exact (matchExactRules_amended_eq_nil_iff h).mpr
      ⟨hnamed program named hhost, fun hstarts => hnot (.inr ⟨program, named, hhost, hstarts⟩)⟩

theorem mem_matchExactRules_amended (h : policy.addPrefixRule tokens .allow = .ok amended)
    (hmem : ruleMatch ∈ amended.matchExactRules command) :
    ruleMatch ∈ policy.matchExactRules command ∨ ruleMatch.decision = .allow := by
  rw [matchExactRules_amended h] at hmem
  refine (List.mem_append.mp hmem).imp_right fun hnew => ?_
  split at hnew
  · rw [List.mem_singleton.mp hnew]
    rfl
  · cases hnew

theorem mem_ruleMatches_amended (h : policy.addPrefixRule tokens .allow = .ok amended)
    (hmem : ruleMatch ∈ amended.ruleMatches env command) :
    ruleMatch ∈ policy.ruleMatches env command ∨ ruleMatch.decision = .allow := by
  by_cases hexact : policy.matchExactRules command = []
  · by_cases hamended : amended.matchExactRules command = []
    · -- The matches are those of the name, in both policies.
      cases hhost : policy.hostCommand env command with
      | none =>
          rw [ruleMatches_of_no_hostCommand hamended ((hostCommand_amended h command).trans hhost)] at hmem
          cases hmem
      | some host =>
          rw [ruleMatches_of_hostCommand hamended ((hostCommand_amended h command).trans hhost)] at hmem
          obtain ⟨inner, hinner, rfl⟩ := List.mem_map.mp hmem
          rw [ruleMatches_of_hostCommand hexact hhost, RuleMatch.decision_withResolvedProgram]
          exact (mem_matchExactRules_amended h hinner).imp_left (List.mem_map_of_mem ·)
    · -- The new rule is the only match by the program.
      rw [ruleMatches_of_exact hamended] at hmem
      have hnew := mem_matchExactRules_amended h hmem
      rw [hexact] at hnew
      exact hnew.imp_left fun hnil => absurd hnil List.not_mem_nil
  · have hamended : amended.matchExactRules command ≠ [] := fun hnil =>
      hexact ((matchExactRules_amended_eq_nil_iff h).mp hnil).1
    rw [ruleMatches_of_exact hamended] at hmem
    rw [ruleMatches_of_exact hexact]
    exact mem_matchExactRules_amended h hmem

/-- No decision gets stricter. -/
theorem decisionOf_amended_le (h : policy.addPrefixRule tokens .allow = .ok amended) {before after : Decision}
    (hbefore : policy.decisionOf env fallback command = some before)
    (hafter : amended.decisionOf env fallback command = some after) : after ≤ before := by
  by_cases hamended : amended.ruleMatches env command = []
  · have hunmatched := ((ruleMatches_amended_eq_nil_iff h).mp hamended).1
    rw [decisionOf_unmatched hunmatched] at hbefore
    rw [decisionOf_unmatched hamended] at hafter
    exact (Option.some.inj (hafter.symm.trans hbefore)).le
  · rw [decisionOf_matched hamended] at hafter
    obtain ⟨⟨ruleMatch, hmem, rfl⟩, -⟩ := strictest_eq_some.mp hafter
    rcases mem_ruleMatches_amended h hmem with hold | hallow
    · rw [decisionOf_matched (List.ne_nil_of_mem hold)] at hbefore
      exact (strictest_eq_some.mp hbefore).2 ruleMatch hold
    · rw [hallow]
      exact Decision.allow_le before

/-- A command without a match is allowed by the new rule if that matches. -/
theorem decisionOf_amended_of_unmatched (h : policy.addPrefixRule tokens .allow = .ok amended)
    (hunmatched : policy.ruleMatches env command = []) :
    amended.decisionOf env fallback command = some .allow ↔
      fallback command = .allow ∨ policy.WouldMatch env tokens command := by
  by_cases hmatch : policy.WouldMatch env tokens command
  · have hne : amended.ruleMatches env command ≠ [] := fun hnil =>
      ((ruleMatches_amended_eq_nil_iff h).mp hnil).2 hmatch
    refine iff_of_true ?_ (.inr hmatch)
    rw [decisionOf_matched hne, strictest_eq_allow]
    refine ⟨hne, fun ruleMatch hmem => (mem_ruleMatches_amended h hmem).resolve_left ?_⟩
    rw [hunmatched]
    exact List.not_mem_nil
  · rw [decisionOf_unmatched ((ruleMatches_amended_eq_nil_iff h).mpr ⟨hunmatched, hmatch⟩)]
    simp [hmatch]

end Policy

end Codrex.ExecPolicy
