import Codrex.Orchestrator.Lemmas.Runner

/-!
# Detecting loops

The loop keeps the signature of the last retry. Two equal signatures in a row end the run, so the count never
has to go beyond two.
-/

namespace Codrex.Orchestrator

open Text

/-! ## Signatures -/

namespace SignatureEnv

variable (env : SignatureEnv)

theorem mergeSort_eq_of_perm {ls ls' : List Str} (h : ls.Perm ls') :
    ls.mergeSort (fun a b => decide (a ≤ b)) = ls'.mergeSort (fun a b => decide (a ≤ b)) := by
  have htrans : ∀ a b c : Str, decide (a ≤ b) = true → decide (b ≤ c) = true → decide (a ≤ c) = true := by
    intro a b c hab hbc
    exact decide_eq_true (le_trans (of_decide_eq_true hab) (of_decide_eq_true hbc))
  have htotal : ∀ a b : Str, (decide (a ≤ b) || decide (b ≤ a)) = true := by
    intro a b
    simpa using le_total a b
  have hperm : (ls.mergeSort fun a b => decide (a ≤ b)).Perm (ls'.mergeSort fun a b => decide (a ≤ b)) :=
    (List.mergeSort_perm _ _).trans (h.trans (List.mergeSort_perm _ _).symm)
  apply hperm.eq_of_pairwise
  · intro a b _ _ hab hba
    exact le_antisymm (of_decide_eq_true hab) (of_decide_eq_true hba)
  · exact List.pairwise_mergeSort htrans htotal ls
  · exact List.pairwise_mergeSort htrans htotal ls'

/-- The order of the failures does not matter. -/
theorem errorSignatureForRetryFeedback_perm {feedback feedback' : RetryFeedback}
    (h : feedback.failedCriteria.Perm feedback'.failedCriteria) :
    env.errorSignatureForRetryFeedback feedback = env.errorSignatureForRetryFeedback feedback' := by
  have hempty : feedback.failedCriteria.isEmpty = feedback'.failedCriteria.isEmpty := by
    rw [Bool.eq_iff_iff, List.isEmpty_iff, List.isEmpty_iff]
    exact ⟨fun hnil => (hnil ▸ h).nil_eq.symm, fun hnil => (hnil ▸ h).eq_nil⟩
  unfold errorSignatureForRetryFeedback
  rw [hempty, mergeSort_eq_of_perm (h.map env.errorSignature)]

theorem errorSignatureForRetryFeedback_isSome {feedback : RetryFeedback} :
    (env.errorSignatureForRetryFeedback feedback).isSome = true ↔ feedback.failedCriteria ≠ [] := by
  unfold errorSignatureForRetryFeedback
  cases feedback.failedCriteria with
  | nil => simp
  | cons criterion criteria => simp

end SignatureEnv

def AuditDecision.signature (env : SignatureEnv) : AuditDecision → Option Str
  | .retry feedback _ => env.errorSignatureForRetryFeedback feedback
  | _ => none

/-! ## One turn -/

/-- A signature that the loop keeps has been seen once, in an attempt before. -/
def LoopState.Tracks (state : LoopState) : Prop :=
  ∀ s, state.repeatedSignature = some s → state.repeatedCount = 1 ∧ 0 < state.ctx.attempt

theorem tracks_init (spec : DelegationSpec) : (LoopState.init spec).Tracks := by
  intro s hs
  cases hs

variable {σ : Type} {env : SignatureEnv} {spec : DelegationSpec} {model : Str} {sink : DispatchSink σ}
  {auditor : Auditor σ} {state : LoopState} {world : σ} {attempt : Attempt}

theorem saturatingSucc_pos (n : Nat) : 0 < saturatingSucc n := by
  unfold saturatingSucc
  omega

theorem LoopState.count_repeatedSignature (state : LoopState) (signature : Option Str) :
    (state.count signature).repeatedSignature = signature := by
  cases signature with
  | none => rfl
  | some s => rfl

/-- The signature of the audit is the one that the loop keeps. -/
def Repeated (env : SignatureEnv) (state : LoopState) (decision : AuditDecision) : Prop :=
  ∃ s, state.repeatedSignature = some s ∧ decision.signature env = some s

theorem settle_repeated (htracks : state.Tracks) (outcome : DispatchOutcome) {decision : AuditDecision} {s : Str}
    (hkept : state.repeatedSignature = some s) (hs : decision.signature env = some s) :
    (settle env spec state outcome decision).2 = .done (.ok (.drop "loop_detected" (some s))) := by
  cases decision with
  | retry feedback attempt =>
      obtain ⟨hcount, hpos⟩ := htracks s hkept
      have hs : env.errorSignatureForRetryFeedback feedback = some s := hs
      have hcounted : (state.count (some s)).repeatedCount = 2 := by
        simp only [LoopState.count]
        rw [if_pos hkept, hcount]
        rfl
      simp only [settle, hs]
      rw [if_pos ⟨rfl, Nat.le_of_eq hcounted.symm, hpos⟩]
  | _ => cases hs

theorem settle_fresh (outcome : DispatchOutcome) {decision : AuditDecision}
    (hfresh : ¬ Repeated env state decision) :
    (∃ result, (settle env spec state outcome decision).2 = .done result ∧
        ∀ reason signature, result = .ok (.drop reason signature) ↔ signature = none ∧ decision = .drop reason) ∨
      ∃ next feedback attempt, (settle env spec state outcome decision).2 = .again next ∧
        decision = .retry feedback attempt ∧ next.Tracks ∧ next.repeatedSignature = decision.signature env := by
  cases decision with
  | ok rationale => exact Or.inl ⟨_, rfl, by simp⟩
  | escalate reason blockingIssue => exact Or.inl ⟨_, rfl, by simp⟩
  | clarify question => exact Or.inl ⟨_, rfl, by simp⟩
  | drop reason => exact Or.inl ⟨_, rfl, by simp [eq_comm, and_comm]⟩
  | retry feedback attempt =>
      have hcount : ∀ s, env.errorSignatureForRetryFeedback feedback = some s →
          (state.count (some s)).repeatedCount = 1 := by
        intro s hs
        have hne : state.repeatedSignature ≠ some s := fun hkept => hfresh ⟨s, hkept, hs⟩
        simp only [LoopState.count]
        rw [if_neg hne]
      simp only [settle]
      split
      · rename_i hloop
        obtain ⟨s, hs⟩ := Option.isSome_iff_exists.mp hloop.1
        have hone := hcount s hs
        rw [hs] at hloop
        have htwo : repeatedErrorLoopThreshold = 2 := rfl
        omega
      · split
        · exact Or.inl ⟨_, rfl, by simp⟩
        · refine Or.inr ⟨_, feedback, attempt, rfl, rfl, ?_, LoopState.count_repeatedSignature state _⟩
          intro s hs
          have hs : env.errorSignatureForRetryFeedback feedback = some s :=
            (LoopState.count_repeatedSignature state _).symm.trans hs
          rw [hs]
          exact ⟨hcount s hs, saturatingSucc_pos _⟩

/-! ## Whole runs -/

def Run.audits (run : Run σ) : List AuditDecision :=
  run.attempts.filterMap fun attempt => attempt.report.map AuditReport.decision

/-- What a run makes of the signatures, the one from before included. -/
structure Detects (env : SignatureEnv) (previous : Option Str) (run : Run σ) : Prop where
  found : ∀ s, run.result = .ok (.drop "loop_detected" (some s)) ↔
    ∃ earlier, previous :: run.audits.map (AuditDecision.signature env) = earlier ++ [some s, some s]
  first : ∀ earlier s rest,
    previous :: run.audits.map (AuditDecision.signature env) = earlier ++ some s :: some s :: rest → rest = []
  own : run.result = .ok (.drop "loop_detected" none) ↔ run.audits.getLast? = some (.drop "loop_detected")

theorem pair_cons {previous : Option Str} {signatures earlier rest : List (Option Str)} {s : Str}
    (hfresh : ¬ (previous = some s ∧ signatures.head? = some (some s)))
    (h : previous :: signatures = earlier ++ some s :: some s :: rest) :
    ∃ earlier', signatures = earlier' ++ some s :: some s :: rest := by
  cases earlier with
  | nil =>
      cases h
      exact absurd ⟨rfl, rfl⟩ hfresh
  | cons first earlier => exact ⟨earlier, (List.cons.inj h).2⟩

theorem not_pair_singleton {signature : Option Str} {earlier rest : List (Option Str)} {s : Str} :
    [signature] ≠ earlier ++ some s :: some s :: rest := by
  intro h
  have hlen := congrArg List.length h
  simp only [List.length_cons, List.length_nil, List.length_append] at hlen
  omega

/-- A last turn whose audit repeats the signature that is kept. -/
theorem detects_repeated {world' : σ} {report : AuditReport} {s : Str} (hreport : attempt.report = some report)
    (hkept : state.repeatedSignature = some s) (hs : report.decision.signature env = some s) :
    Detects env state.repeatedSignature ⟨[attempt], world', .ok (.drop "loop_detected" (some s))⟩ := by
  have haudits : (⟨[attempt], world', .ok (.drop "loop_detected" (some s))⟩ : Run σ).audits = [report.decision] := by
    simp [Run.audits, hreport]
  refine ⟨?_, ?_, ?_⟩
  · intro s'
    rw [haudits, List.map_singleton, hkept, hs]
    constructor
    · intro h
      cases h
      exact ⟨[], rfl⟩
    · rintro ⟨earlier, h⟩
      have hlast := congrArg List.getLast? h
      simp only [List.getLast?_append, List.getLast?_cons_cons, List.getLast?_singleton, Option.some_or,
        Option.some.injEq] at hlast
      rw [hlast]
  · intro earlier s' rest h
    have hlen := congrArg List.length h
    rw [haudits] at hlen
    simp only [List.map_singleton, List.length_cons, List.length_nil, List.length_append] at hlen
    exact List.length_eq_zero_iff.mp (by omega)
  · rw [haudits, List.getLast?_singleton]
    constructor
    · intro h
      cases h
    · intro h
      rw [Option.some.inj h] at hs
      cases hs

/-- A last turn that ends for another reason. -/
theorem detects_fresh {world' : σ} {report : AuditReport} {result : Except Str OrchestrateOutcome}
    (hreport : attempt.report = some report) (hfresh : ¬ Repeated env state report.decision)
    (hresult : ∀ reason signature, result = .ok (.drop reason signature) ↔
      signature = none ∧ report.decision = .drop reason) :
    Detects env state.repeatedSignature ⟨[attempt], world', result⟩ := by
  have haudits : (⟨[attempt], world', result⟩ : Run σ).audits = [report.decision] := by
    simp [Run.audits, hreport]
  have hnone : ∀ earlier s rest, state.repeatedSignature :: [report.decision.signature env] ≠
      earlier ++ some s :: some s :: rest := by
    intro earlier s rest h
    have hpair : ¬ (state.repeatedSignature = some s ∧
        [report.decision.signature env].head? = some (some s)) :=
      fun hboth => hfresh ⟨s, hboth.1, Option.some.inj hboth.2⟩
    obtain ⟨earlier', h'⟩ := pair_cons hpair h
    exact not_pair_singleton h'
  refine ⟨?_, ?_, ?_⟩
  · intro s
    rw [haudits, List.map_singleton]
    constructor
    · intro h
      cases ((hresult _ _).mp h).1
    · rintro ⟨earlier, h⟩
      exact absurd h (hnone earlier s [])
  · intro earlier s rest h
    rw [haudits] at h
    exact absurd h (hnone earlier s rest)
  · rw [haudits, List.getLast?_singleton, hresult, Option.some.injEq]
    simp

/-- A last turn without an audit. -/
theorem detects_unaudited {world' : σ} {result : Except Str OrchestrateOutcome} (previous : Option Str)
    (hreport : attempt.report = none)
    (hresult : ∀ outcome, result = .ok outcome → ∃ question, outcome = .clarify question) :
    Detects env previous ⟨[attempt], world', result⟩ := by
  have haudits : (⟨[attempt], world', result⟩ : Run σ).audits = [] := by
    simp [Run.audits, hreport]
  have hdrop : ∀ reason signature, result ≠ .ok (.drop reason signature) := by
    intro reason signature h
    obtain ⟨question, hquestion⟩ := hresult _ h
    cases hquestion
  refine ⟨?_, ?_, ?_⟩
  · intro s
    rw [haudits]
    constructor
    · intro h
      exact absurd h (hdrop _ _)
    · rintro ⟨earlier, h⟩
      exact absurd h not_pair_singleton
  · intro earlier s rest h
    rw [haudits] at h
    exact absurd h not_pair_singleton
  · rw [haudits]
    constructor
    · intro h
      exact absurd h (hdrop _ _)
    · intro h
      cases h

/-- A turn that tries again hands its signature on. -/
theorem Detects.again {run : Run σ} {report : AuditReport} {feedback : RetryFeedback} {n : Nat}
    (hreport : attempt.report = some report) (hdecision : report.decision = .retry feedback n)
    (hfresh : ¬ Repeated env state report.decision) (h : Detects env (report.decision.signature env) run) :
    Detects env state.repeatedSignature { run with attempts := attempt :: run.attempts } := by
  have haudits : ({ run with attempts := attempt :: run.attempts } : Run σ).audits = report.decision :: run.audits := by
    simp [Run.audits, hreport]
  have hhanded : ∀ {earlier : List (Option Str)} {s : Str} {rest : List (Option Str)},
      state.repeatedSignature :: report.decision.signature env :: run.audits.map (AuditDecision.signature env) =
        earlier ++ some s :: some s :: rest →
      ∃ earlier', report.decision.signature env :: run.audits.map (AuditDecision.signature env) =
        earlier' ++ some s :: some s :: rest :=
    fun heq => pair_cons (fun hboth => hfresh ⟨_, hboth.1, Option.some.inj hboth.2⟩) heq
  refine ⟨?_, ?_, ?_⟩
  · intro s
    rw [haudits, List.map_cons]
    constructor
    · intro hres
      obtain ⟨earlier, heq⟩ := (h.found s).mp hres
      exact ⟨state.repeatedSignature :: earlier, by rw [heq, List.cons_append]⟩
    · rintro ⟨earlier, heq⟩
      obtain ⟨earlier', heq'⟩ := hhanded heq
      exact (h.found s).mpr ⟨earlier', heq'⟩
  · intro earlier s rest heq
    rw [haudits, List.map_cons] at heq
    obtain ⟨earlier', heq'⟩ := hhanded heq
    exact h.first earlier' s rest heq'
  · rw [haudits]
    cases hrest : run.audits with
    | nil =>
        have hown := h.own
        rw [hrest] at hown
        rw [List.getLast?_singleton, hdecision]
        constructor
        · intro hres
          cases hown.mp hres
        · intro hlast
          cases hlast
    | cons next others =>
        rw [List.getLast?_cons_cons, ← hrest]
        exact h.own

theorem detects_of_loop {fuel : Nat} {run : Run σ} (htracks : state.Tracks)
    (h : loop env spec model sink auditor fuel state world = some run) :
    Detects env state.repeatedSignature run := by
  revert htracks
  refine loop_induction (P := fun state run => state.Tracks → Detects env state.repeatedSignature run) ?_ ?_ h
  · intro state world attempt world' result hstep htracks
    rcases attemptOnce_response hstep with ⟨outcome, w, -, hreport, hnext⟩ | ⟨-, hreport, result', hnext, hclarify⟩
    · by_cases hrepeated : Repeated env state (auditor.audit w spec attempt.ctx outcome).2.decision
      · obtain ⟨s, hkept, hs⟩ := hrepeated
        rw [settle_repeated htracks outcome hkept hs] at hnext
        cases hnext
        exact detects_repeated hreport hkept hs
      · rcases settle_fresh outcome hrepeated with ⟨result', hdone, hresult⟩ | ⟨next, _, _, hagain, -⟩
        · rw [hdone] at hnext
          cases hnext
          exact detects_fresh hreport hrepeated hresult
        · rw [hagain] at hnext
          cases hnext
    · cases hnext
      exact detects_unaudited _ hreport hclarify
  · intro state world attempt world' state' run hstep ih htracks
    rcases attemptOnce_response hstep with ⟨outcome, w, -, hreport, hnext⟩ | ⟨-, -, result', hnext, -⟩
    · by_cases hrepeated : Repeated env state (auditor.audit w spec attempt.ctx outcome).2.decision
      · obtain ⟨s, hkept, hs⟩ := hrepeated
        rw [settle_repeated htracks outcome hkept hs] at hnext
        cases hnext
      · rcases settle_fresh outcome hrepeated with
          ⟨result', hdone, -⟩ | ⟨next, feedback, n, hagain, hdecision, hnexttracks, hsignature⟩
        · rw [hdone] at hnext
          cases hnext
        · rw [hagain] at hnext
          cases hnext
          have hrun := ih hnexttracks
          rw [hsignature] at hrun
          exact hrun.again hreport hdecision hrepeated
    · cases hnext

end Codrex.Orchestrator
