import Mathlib.Data.List.Forall2
import Codrex.ExecPolicy.Policy

/-!
# Matches of a command

The matches by the program of the command come first, then those by the name of the file it stands for, and the fallback
decides if there are none.
-/

namespace Codrex.ExecPolicy
open Text

/-! ## The strictest decision -/

theorem Decision.allow_le (d : Decision) : Decision.allow ≤ d := by
  cases d <;> decide

theorem Decision.le_allow {d : Decision} (h : d ≤ .allow) : d = .allow := le_antisymm h (allow_le d)

theorem Decision.le_prompt_iff {d : Decision} : d ≤ .prompt ↔ d ≠ .forbidden := by
  cases d <;> decide

variable {matched : List RuleMatch}

theorem strictest_eq_none : strictest matched = none ↔ matched = [] := by
  simp [strictest]

theorem strictest_eq_some {d : Decision} :
    strictest matched = some d ↔
      (∃ ruleMatch ∈ matched, ruleMatch.decision = d) ∧ ∀ ruleMatch ∈ matched, ruleMatch.decision ≤ d := by
  rw [strictest, List.max?_eq_some_iff]
  simp

theorem exists_strictest (h : matched ≠ []) : ∃ d, strictest matched = some d :=
  Option.ne_none_iff_exists'.mp (mt strictest_eq_none.mp h)

theorem strictest_le_of_subset {few many : List RuleMatch} {d d' : Decision}
    (hd : strictest few = some d) (hd' : strictest many = some d') (h : few ⊆ many) : d ≤ d' := by
  obtain ⟨⟨ruleMatch, hmem, rfl⟩, -⟩ := strictest_eq_some.mp hd
  exact (strictest_eq_some.mp hd').2 ruleMatch (h hmem)

theorem strictest_eq_allow :
    strictest matched = some .allow ↔ matched ≠ [] ∧ ∀ ruleMatch ∈ matched, ruleMatch.decision = .allow := by
  rw [strictest_eq_some]
  constructor
  · rintro ⟨⟨ruleMatch, hmem, -⟩, hall⟩
    exact ⟨List.ne_nil_of_mem hmem, fun ruleMatch hmem => Decision.le_allow (hall ruleMatch hmem)⟩
  · rintro ⟨hne, hall⟩
    obtain ⟨ruleMatch, hmem⟩ := List.exists_mem_of_ne_nil matched hne
    exact ⟨⟨ruleMatch, hmem, hall ruleMatch hmem⟩, fun ruleMatch hmem => (hall ruleMatch hmem).le⟩

/-! ## Matches of one rule -/

/-- The tokens match the first of the arguments. -/
def FrontMatches (tokens : List PatternToken) (args : List Str) : Prop :=
  ∃ front, List.Forall₂ (fun token arg => token.matches arg = true) tokens front ∧ front <+: args

theorem frontMatches_iff {tokens : List PatternToken} {args : List Str} :
    FrontMatches tokens args ↔
      tokens.length ≤ args.length ∧ (tokens.zip args).all (fun (token, arg) => token.matches arg) = true := by
  induction tokens generalizing args with
  | nil => simp [FrontMatches]
  | cons token tokens ih =>
      cases args with
      | nil => simp [FrontMatches]
      | cons arg args =>
          have hcons : FrontMatches (token :: tokens) (arg :: args) ↔
              token.matches arg = true ∧ FrontMatches tokens args := by
            constructor
            · rintro ⟨front, hfront, hstarts⟩
              cases hfront with
              | cons htoken hrest =>
                  obtain ⟨rfl, hargs⟩ := List.cons_prefix_cons.mp hstarts
                  exact ⟨htoken, _, hrest, hargs⟩
            · rintro ⟨htoken, front, hfront, hstarts⟩
              exact ⟨arg :: front, .cons htoken hfront, List.cons_prefix_cons.mpr ⟨rfl, hstarts⟩⟩
          rw [hcons, ih]
          simp [and_left_comm]

theorem frontMatches_single {rest args : List Str} : FrontMatches (rest.map .single) args ↔ rest <+: args := by
  have hfront : ∀ front, List.Forall₂ (fun token arg => PatternToken.matches arg token = true)
      (rest.map PatternToken.single) front ↔ rest = front := by
    intro front
    rw [List.forall₂_map_left_iff, ← List.forall₂_eq_eq_eq]
    simp [PatternToken.matches]
  simp [FrontMatches, hfront]

theorem matchesPrefix_eq {p : PrefixPattern} (program : Str) (args : List Str) [Decidable (FrontMatches p.rest args)] :
    p.matchesPrefix (program :: args) =
      if program = p.first ∧ FrontMatches p.rest args then some ((program :: args).take (p.rest.length + 1)) else none := by
  rw [PrefixPattern.matchesPrefix]
  by_cases h : program = p.first ∧ FrontMatches p.rest args
  · obtain ⟨hlength, hall⟩ := frontMatches_iff.mp h.2
    rw [if_pos h, if_neg (by simpa [h.1] using hlength), if_pos hall]
  · rw [if_neg h]
    split
    · rfl
    next hguard =>
      obtain ⟨hlength, hprogram⟩ : p.rest.length ≤ args.length ∧ program = p.first := by simpa using hguard
      rw [if_neg fun hall => h ⟨hprogram, frontMatches_iff.mpr ⟨hlength, hall⟩⟩]

theorem matches_eq_none_iff {rule : PrefixRule} {program : Str} {args : List Str} :
    rule.matches (program :: args) = none ↔ ¬ (program = rule.pattern.first ∧ FrontMatches rule.pattern.rest args) := by
  classical
  rw [PrefixRule.matches, Option.map_eq_none_iff, matchesPrefix_eq]
  simp

/-- A rule that matches a command matches what goes on from it. -/
theorem matches_eq_none_of_prefix {rule : PrefixRule} {short long : List Str} (h : rule.matches long = none)
    (hstarts : short <+: long) : rule.matches short = none := by
  cases short with
  | nil => rfl
  | cons program args =>
      obtain ⟨rest, rfl⟩ := hstarts
      rw [List.cons_append, matches_eq_none_iff] at h
      rw [matches_eq_none_iff]
      rintro ⟨hprogram, front, hfront, hargs⟩
      exact h ⟨hprogram, front, hfront, hargs.trans (List.prefix_append args rest)⟩

/-- A rule for single tokens. -/
theorem matches_single (first : Str) (rest : List Str) (decision : Decision) (cmd : List Str) :
    PrefixRule.matches ⟨⟨first, rest.map .single⟩, decision, none⟩ cmd =
      if first :: rest <+: cmd then some (.prefixRuleMatch (first :: rest) decision none none) else none := by
  classical
  cases cmd with
  | nil => simp [PrefixRule.matches, PrefixPattern.matchesPrefix]
  | cons program args =>
      rw [PrefixRule.matches, matchesPrefix_eq, frontMatches_single]
      by_cases h : first :: rest <+: program :: args
      · obtain ⟨rfl, hrest⟩ := List.cons_prefix_cons.mp h
        have htake : args.take rest.length = rest := (List.prefix_iff_eq_take.mp hrest).symm
        simp [hrest, htake]
      · rw [if_neg h, if_neg fun hboth => h (List.cons_prefix_cons.mpr ⟨hboth.1.symm, hboth.2⟩)]
        rfl

/-! ## Matches of a policy -/

namespace Policy

variable {env : HostEnv} {p : Policy} {cmd : List Str}

theorem matchesForCommand_of_exact {options : MatchOptions} (fallback : Option (List Str → Decision))
    (h : p.matchExactRules cmd ≠ []) :
    p.matchesForCommandWithOptions env cmd fallback options = p.matchExactRules cmd := by
  unfold matchesForCommandWithOptions
  simp only [h, ne_eq, not_false_eq_true, ↓reduceIte]
  split
  · rename_i he; exact absurd he h
  · rfl

theorem matchesForCommand_of_host (fallback : Option (List Str → Decision)) (hexact : p.matchExactRules cmd = [])
    (hhost : p.matchHostExecutableRules env cmd ≠ []) :
    p.matchesForCommandWithOptions env cmd fallback ⟨true⟩ = p.matchHostExecutableRules env cmd := by
  unfold matchesForCommandWithOptions
  simp only [hexact, ne_eq, not_true_eq_false, ↓reduceIte]
  split
  · rename_i he; exact absurd he hhost
  · rfl

theorem matchesForCommand_of_no_rule (fallback : List Str → Decision)
    (hexact : p.matchExactRules cmd = []) (hhost : p.matchHostExecutableRules env cmd = []) :
    p.matchesForCommandWithOptions env cmd (some fallback) ⟨true⟩ =
      [.heuristicsRuleMatch cmd (fallback cmd)] := by
  simp [matchesForCommandWithOptions, hexact, hhost]

/-- The command under the name of the file its program stands for. -/
def hostCommand (env : HostEnv) (p : Policy) : List Str → Option (AbsolutePathBuf × List Str)
  | [] => none
  | first :: args =>
      (resolveProgram env first).bind fun (program, basename) =>
        if p.hostExecutableAllowed basename program then some (program, basename :: args) else none

theorem matchHost_of_hostCommand {program : AbsolutePathBuf} {named : List Str}
    (h : p.hostCommand env cmd = some (program, named)) :
    p.matchHostExecutableRules env cmd = (p.matchExactRules named).map (·.withResolvedProgram program) := by
  cases cmd with
  | nil => cases h
  | cons first args =>
      obtain ⟨⟨resolved, basename⟩, hresolved, hnamed⟩ := Option.bind_eq_some_iff.mp h
      obtain ⟨hallowed, heq⟩ := Option.ite_none_right_eq_some.mp hnamed
      cases heq
      simp [matchHostExecutableRules, hresolved, hallowed, matchExactRules]

theorem matchHost_of_no_hostCommand (h : p.hostCommand env cmd = none) : p.matchHostExecutableRules env cmd = [] := by
  cases cmd with
  | nil => rfl
  | cons first args =>
      rw [matchHostExecutableRules]
      cases hresolved : resolveProgram env first with
      | none => rfl
      | some resolved =>
          simp only [hostCommand, hresolved, Option.bind_some] at h
          exact if_neg (by simpa using h)

end Policy

end Codrex.ExecPolicy
