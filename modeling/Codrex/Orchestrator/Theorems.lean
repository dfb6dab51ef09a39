import Codrex.Orchestrator.Runner
import Codrex.Orchestrator.Lemmas.Audit
import Codrex.Orchestrator.Lemmas.LoopDetection
import Codrex.Orchestrator.Lemmas.Runner

/-!
# Results for the orchestrator
-/

namespace Codrex.Orchestrator

open Text

/-! ## Runs are bounded and well formed -/

/-- What every run of the loop looks like. An escalation is the auditor's own, or the loop ran out of
retries and counts its dispatches. -/
structure WellFormedRun {σ : Type} (spec : DelegationSpec) (run : Run σ) : Prop where
  bounded : run.attempts.length ≤ spec.maxRetries + 1
  numbers : run.attempts.map (fun a => a.ctx.attempt) = List.range run.attempts.length
  firstFeedback : run.attempts.head?.map (fun a => a.ctx.retryFeedback) = some none
  feedback : run.attempts.IsChain HandsOn
  exhausted : ∀ reason issue count, run.result = .ok (.escalate reason issue count) →
    (count = none ∧ ∃ last report, run.attempts.getLast? = some last ∧ last.report = some report ∧
        report.decision = .escalate reason issue) ∨
      (reason = "max_retries_exhausted".toList ∧ count = some run.attempts.length)
  rows : ∃ front last v, run.attempts = front ++ [last] ∧
    (∀ a ∈ front, AttemptRows a.ctx a.rows (some "retry".toList)) ∧
    AttemptRows last.ctx last.rows v ∧ v ≠ some "retry".toList
  logged : ∀ a ∈ run.attempts, run.log.filter (fun row => row.ctx.attempt == a.ctx.attempt) = a.rows

section

variable {σ : Type} (env : SignatureEnv) {spec : DelegationSpec} (model : Str) (sink : DispatchSink σ)
  (auditor : Auditor σ) (world : σ)

theorem number_of_last {front : List Attempt} {last : Attempt}
    (hnumbers : (front ++ [last]).map (fun a => a.ctx.attempt) = List.range' 0 (front ++ [last]).length) :
    last.ctx.attempt = front.length := by
  have hlast : ((front ++ [last]).map (fun a => a.ctx.attempt))[front.length]? = some last.ctx.attempt := by simp
  rw [hnumbers, List.getElem?_range' (by simp), Nat.zero_add, Nat.one_mul] at hlast
  exact (Option.some.inj hlast).symm

theorem wellFormedRun_of_attempts {run : Run σ} (hvalid : spec.Valid)
    (h : Attempts spec (.forTopLevel spec) run.attempts run.result) : WellFormedRun spec run := by
  have hnumbers := h.numbers hvalid.maxRetries_le_u8
  have hlength := h.length_le hvalid.maxRetries_le_u8 (Nat.zero_le _)
  obtain ⟨front, last, heq, ⟨⟨v, hrows, hv⟩, hescalate⟩, hfront⟩ := h.split
  refine ⟨?_, ?_, ?_, h.handsOn, ?_, ⟨front, last, v, heq, hfront, hrows, hv⟩, ?_⟩
  · simpa [DelegationContext.forTopLevel] using hlength
  · rw [hnumbers, List.range_eq_range']
    rfl
  · have hhead := h.head
    obtain ⟨a, ha, hctx⟩ := Option.map_eq_some_iff.mp hhead
    rw [ha, Option.map_some, hctx]
    rfl
  · intro reason issue count hres
    rcases hescalate reason issue count hres with ⟨hnone, report, hreport, hdecision⟩ | ⟨hreason, hmax, hcount⟩
    · exact Or.inl ⟨hnone, last, report, by rw [heq, List.getLast?_concat], hreport, hdecision⟩
    · -- The last attempt is the one with number `max_retries`, so the counter is the number of dispatches.
      refine Or.inr ⟨hreason, ?_⟩
      have hlen : run.attempts.length = front.length + 1 := by rw [heq, List.length_append]; rfl
      have hlast : last.ctx.attempt = front.length := number_of_last (heq ▸ hnumbers)
      have hsmall : last.ctx.attempt ≤ spec.maxRetries := by
        rw [hlast]
        simp only [DelegationContext.forTopLevel] at hlength
        omega
      have hmax := hvalid.maxRetries_le
      unfold maxAllowedRetries at hmax
      rw [hcount, hlen, ← hlast]
      unfold saturatingSucc
      congr 1
      omega
  · apply filter_rows
    · intro a ha
      rw [heq] at ha
      rcases List.mem_append.mp ha with ha | ha
      · exact ⟨_, hfront a ha⟩
      · rw [List.mem_singleton.mp ha]
        exact ⟨v, hrows⟩
    · rw [hnumbers]
      exact List.nodup_range'

/-- Whatever the sink and the auditor answer, the loop ends within `max_retries + 1` turns, and the run
is well formed. -/
theorem runOrchestrationLoop_wellFormed (hvalid : spec.validate = .ok ()) :
    ∃ run, (∀ fuel, spec.maxRetries < fuel →
        runOrchestrationLoop env spec model sink auditor fuel world = some run) ∧
      WellFormedRun spec run := by
  have hspec := DelegationSpec.valid_of_validate hvalid
  obtain ⟨run, hrun, hattempts⟩ := loop_spec hspec.maxRetries_le_u8 (Nat.le_add_left _ _)
  exact ⟨run, hrun, wellFormedRun_of_attempts hspec hattempts⟩

end

def oneRetrySpec : DelegationSpec :=
  { runId := "run", parentRunId := none, intent := "explain", acceptance := [], forbiddenPatterns := [],
    expectedTests := none, utilityRefs := [], maxRetries := 1 }

theorem validate_oneRetrySpec : oneRetrySpec.validate = .ok () := rfl

def countingSink : DispatchSink Nat where
  dispatch world _ _ := (world + 1, .ok ⟨"answer", 0, none⟩)

def unhappyAuditor : Auditor Nat where
  audit world _ _ _ := (world, ⟨.retry ⟨[]⟩ 1, []⟩)

def idleSignatures : SignatureEnv := ⟨fun _ => [], id⟩

theorem unhappyAuditor_wellFormed :
    ∃ run, (∀ fuel, 1 < fuel →
        runOrchestrationLoop idleSignatures oneRetrySpec "M2" countingSink unhappyAuditor fuel 0 = some run) ∧
      WellFormedRun oneRetrySpec run :=
  runOrchestrationLoop_wellFormed idleSignatures "M2" countingSink unhappyAuditor 0 validate_oneRetrySpec

def escalatingAuditor : Auditor Nat where
  audit world _ _ _ := (world, ⟨.escalate "max_retries_exhausted" "no way on", []⟩)

/-- An auditor may escalate for this reason itself, and then the dispatches are not counted. -/
theorem escalatingAuditor_uncounted :
    oneRetrySpec.validate = .ok () ∧
      ¬ ∀ run, runOrchestrationLoop idleSignatures oneRetrySpec "M2" countingSink escalatingAuditor 2 0 = some run →
        ∀ issue count, run.result = .ok (.escalate "max_retries_exhausted" issue count) →
          count = some run.attempts.length := by
  refine ⟨validate_oneRetrySpec, fun h => ?_⟩
  cases h _ rfl _ none rfl

/-! ## Accepted responses -/

def IsBlank (text : Str) : Prop := trim text = []

/-- A run accepts a response only if it has text and every criterion of the spec holds for it. -/
def AcceptsOnlyUsable {σ : Type} (auditEnv : AuditEnv) (spec : DelegationSpec) (run : Run σ) : Prop :=
  ∀ text, run.result = .ok (.ok text) →
    ¬ IsBlank text ∧ ∃ last, run.attempts.getLast? = some last ∧
      CriteriaHold auditEnv spec last.ctx.attempt text

/-- A blank response for which all criteria hold came back from a dispatch of the run. -/
def GetsBlankUnopposed {σ : Type} (auditEnv : AuditEnv) (spec : DelegationSpec) (run : Run σ) : Prop :=
  ∃ a ∈ run.attempts, ∃ outcome, a.response = .ok outcome ∧ IsBlank outcome.responseText ∧
    CriteriaHold auditEnv spec a.ctx.attempt outcome.responseText

theorem acceptsOnlyUsable_of_accepted {σ : Type} {self : PatternAuditor} {auditEnv : AuditEnv}
    {spec : DelegationSpec} {run : Run σ} (h : AcceptedRun (self.auditor auditEnv σ) spec run) :
    AcceptsOnlyUsable auditEnv spec run ↔ ¬ GetsBlankUnopposed auditEnv spec run := by
  constructor
  · rintro husable ⟨a, ha, outcome, hresponse, hblank, hcriteria⟩
    obtain ⟨w, haccept⟩ := h.audited a ha outcome hresponse
    have hres := haccept ((PatternAuditor.audit_ok_iff outcome).mpr hcriteria)
    exact (husable _ hres).1 hblank
  · intro hblank text hres
    obtain ⟨last, outcome, w, rationale, hlast, hresponse, rfl, hok⟩ := h.accepted text hres
    have hcriteria := (PatternAuditor.audit_ok_iff outcome).mp ⟨rationale, hok⟩
    refine ⟨fun hb => hblank ?_, last, hlast, hcriteria⟩
    exact ⟨last, List.mem_of_getLast? hlast, outcome, hresponse, hb, hcriteria⟩

/-- With the pattern auditor a run accepts only usable responses exactly when no dispatch brings a blank
response that meets the criteria: nothing between the sink and the verdict looks at blankness. -/
theorem patternAuditor_acceptsOnlyUsable_iff {σ : Type} (env : SignatureEnv) (auditEnv : AuditEnv)
    (self : PatternAuditor) {spec : DelegationSpec} (hvalid : spec.validate = .ok ()) (model : Str)
    (sink : DispatchSink σ) (world : σ) :
    ∃ run, (∀ fuel, spec.maxRetries < fuel →
        runOrchestrationLoop env spec model sink (self.auditor auditEnv σ) fuel world = some run) ∧
      (AcceptsOnlyUsable auditEnv spec run ↔ ¬ GetsBlankUnopposed auditEnv spec run) := by
  have hmax := (DelegationSpec.valid_of_validate hvalid).maxRetries_le_u8
  obtain ⟨run, hrun, -⟩ := loop_spec hmax (Nat.le_add_left _ _)
  have haccepted := acceptedRun_of_loop (hrun (spec.maxRetries + 1) (Nat.lt_succ_self _))
  exact ⟨run, hrun, acceptsOnlyUsable_of_accepted haccepted⟩

def quietEnv : AuditEnv := ⟨fun _ _ => none, fun _ _ => .exited (some 0) [] [], fun _ _ => 0, fun _ => []⟩

theorem countingSink_acceptsOnlyUsable_iff :
    ∃ run, (∀ fuel, 1 < fuel →
        runOrchestrationLoop idleSignatures oneRetrySpec "M2" countingSink
          (PatternAuditor.auditor {} quietEnv Nat) fuel 0 = some run) ∧
      (AcceptsOnlyUsable quietEnv oneRetrySpec run ↔ ¬ GetsBlankUnopposed quietEnv oneRetrySpec run) :=
  patternAuditor_acceptsOnlyUsable_iff idleSignatures quietEnv {} validate_oneRetrySpec "M2" countingSink 0

/-- A service that closes its stream without a word. -/
def silentService : MinimaxDispatchSink Unit where
  chatCompletionStream world _ _ := (world, .ok [])
  uuid := "id"
  latencyMs _ := 0

def SilentServiceUsable : Prop :=
  ∀ run, runOrchestrationLoop idleSignatures oneRetrySpec "M2" silentService.sink
      (PatternAuditor.auditor {} quietEnv Unit) 2 () = some run →
    AcceptsOnlyUsable quietEnv oneRetrySpec run

theorem silent_service_accepted : oneRetrySpec.validate = .ok () ∧ ¬ SilentServiceUsable := by
  refine ⟨rfl, fun h => ?_⟩
  exact (h _ rfl [] rfl).1 rfl

/-! ## Loops -/

/-- Two audits that ask for a retry because of the same failures. -/
def Repeats (env : SignatureEnv) (before after : AuditDecision) : Prop :=
  ∃ feedback n feedback' n', before = .retry feedback n ∧ after = .retry feedback' n' ∧
    feedback.failedCriteria ≠ [] ∧ feedback'.failedCriteria ≠ [] ∧
    env.errorSignatureForRetryFeedback feedback = env.errorSignatureForRetryFeedback feedback'

theorem repeats_iff {env : SignatureEnv} {before after : AuditDecision} :
    Repeats env before after ↔ ∃ s, before.signature env = some s ∧ after.signature env = some s := by
  constructor
  · rintro ⟨feedback, n, feedback', n', rfl, rfl, hne, -, heq⟩
    obtain ⟨s, hs⟩ := Option.isSome_iff_exists.mp (env.errorSignatureForRetryFeedback_isSome.mpr hne)
    exact ⟨s, hs, heq.symm.trans hs⟩
  · rintro ⟨s, hbefore, hafter⟩
    cases before with
    | retry feedback n =>
        cases after with
        | retry feedback' n' =>
            refine ⟨feedback, n, feedback', n', rfl, rfl, ?_, ?_, hbefore.trans hafter.symm⟩
            · exact env.errorSignatureForRetryFeedback_isSome.mp (Option.isSome_iff_exists.mpr ⟨s, hbefore⟩)
            · exact env.errorSignatureForRetryFeedback_isSome.mp (Option.isSome_iff_exists.mpr ⟨s, hafter⟩)
        | _ => cases hafter
    | _ => cases hbefore

/-- The last two audits of a run repeat. -/
def EndsRepeating {σ : Type} (env : SignatureEnv) (run : Run σ) : Prop :=
  ∃ earlier before after, run.audits = earlier ++ [before, after] ∧ Repeats env before after

structure DetectsLoops {σ : Type} (env : SignatureEnv) (run : Run σ) : Prop where
  detected : (∃ s, run.result = .ok (.drop "loop_detected" (some s))) ↔ EndsRepeating env run
  passedOn : run.result = .ok (.drop "loop_detected" none) ↔ run.audits.getLast? = some (.drop "loop_detected")
  first : ∀ earlier before after rest, run.audits = earlier ++ before :: after :: rest →
    Repeats env before after → rest = []

theorem detectsLoops_of_detects {σ : Type} {env : SignatureEnv} {run : Run σ} (h : Detects env none run) :
    DetectsLoops env run := by
  refine ⟨⟨?_, ?_⟩, h.own, ?_⟩
  · rintro ⟨s, hres⟩
    obtain ⟨earlier, heq⟩ := (h.found s).mp hres
    cases earlier with
    | nil => cases heq
    | cons first earlier =>
        obtain ⟨front, back, haudits, -, hback⟩ := List.map_eq_append_iff.mp (List.cons.inj heq).2
        obtain ⟨before, rest, rfl, hbefore, hrest⟩ := List.map_eq_cons_iff.mp hback
        obtain ⟨after, rest', rfl, hafter, hnil⟩ := List.map_eq_cons_iff.mp hrest
        rw [List.map_eq_nil_iff.mp hnil] at haudits
        exact ⟨front, before, after, haudits, repeats_iff.mpr ⟨s, hbefore, hafter⟩⟩
  · rintro ⟨earlier, before, after, haudits, hrepeats⟩
    obtain ⟨s, hbefore, hafter⟩ := repeats_iff.mp hrepeats
    refine ⟨s, (h.found s).mpr ⟨none :: earlier.map (AuditDecision.signature env), ?_⟩⟩
    rw [haudits]
    simp [hbefore, hafter]
  · intro earlier before after rest haudits hrepeats
    obtain ⟨s, hbefore, hafter⟩ := repeats_iff.mp hrepeats
    have hfirst := h.first (none :: earlier.map (AuditDecision.signature env)) s
      (rest.map (AuditDecision.signature env)) (by rw [haudits]; simp [hbefore, hafter])
    exact List.map_eq_nil_iff.mp hfirst

/-- A run is dropped with a repeated signature exactly when its last two audits repeat, which no two audits
before do; without a signature the reason is the auditor's own. The order of the failures never matters. -/
theorem runOrchestrationLoop_detectsLoops {σ : Type} (env : SignatureEnv) {spec : DelegationSpec}
    (hu8 : spec.maxRetries ≤ 255) (model : Str) (sink : DispatchSink σ) (auditor : Auditor σ) (world : σ) :
    (∃ run, (∀ fuel, spec.maxRetries < fuel →
        runOrchestrationLoop env spec model sink auditor fuel world = some run) ∧ DetectsLoops env run) ∧
      ∀ feedback feedback' : RetryFeedback, feedback.failedCriteria.Perm feedback'.failedCriteria →
        env.errorSignatureForRetryFeedback feedback = env.errorSignatureForRetryFeedback feedback' := by
  obtain ⟨run, hrun, -⟩ := loop_spec hu8 (Nat.le_add_left _ _)
  refine ⟨⟨run, hrun, ?_⟩, fun feedback feedback' h => env.errorSignatureForRetryFeedback_perm h⟩
  exact detectsLoops_of_detects (detects_of_loop (tracks_init spec) (hrun (spec.maxRetries + 1) (Nat.lt_succ_self _)))

theorem unhappyAuditor_detectsLoops :
    (∃ run, (∀ fuel, 1 < fuel →
        runOrchestrationLoop idleSignatures oneRetrySpec "M2" countingSink unhappyAuditor fuel 0 = some run) ∧
      DetectsLoops idleSignatures run) ∧
      ∀ feedback feedback' : RetryFeedback, feedback.failedCriteria.Perm feedback'.failedCriteria →
        idleSignatures.errorSignatureForRetryFeedback feedback =
          idleSignatures.errorSignatureForRetryFeedback feedback' := by
  have hu8 : oneRetrySpec.maxRetries ≤ 255 := by decide
  exact runOrchestrationLoop_detectsLoops idleSignatures hu8 "M2" countingSink unhappyAuditor 0

def droppingAuditor : Auditor Nat where
  audit world _ _ _ := (world, ⟨.drop "loop_detected", []⟩)

/-- An auditor may drop a run for this reason itself, in the first attempt. -/
theorem droppingAuditor_not_repeating :
    ¬ ∀ run, runOrchestrationLoop idleSignatures oneRetrySpec "M2" countingSink droppingAuditor 2 0 = some run →
      ((∃ signature, run.result = .ok (.drop "loop_detected" signature)) ↔ EndsRepeating idleSignatures run) := by
  intro h
  obtain ⟨earlier, before, after, haudits, -⟩ := (h _ rfl).mp ⟨none, rfl⟩
  have hlen : 1 = (earlier ++ [before, after]).length := congrArg List.length haudits
  rw [List.length_append] at hlen
  simp at hlen

/-! ## The verdict and the order of the criteria -/

/-- What an audit decides does not depend on the order in which the criteria are listed. -/
structure SettledVerdict (self : PatternAuditor) (env : AuditEnv) (spec : DelegationSpec) (ctx : DelegationContext)
    (outcome : DispatchOutcome) : Prop where
  perm : ∀ acceptance : List AcceptanceCriterion, acceptance.Perm spec.acceptance →
    (self.audit env { spec with acceptance } ctx outcome).decision.kind =
      (self.audit env spec ctx outcome).decision.kind
  escalates : (self.audit env spec ctx outcome).decision.kind = .escalate ↔
    .noForbiddenPatterns ∈ spec.acceptance ∧
      ∃ pattern ∈ spec.forbiddenPatterns, (env.regexFind pattern.source outcome.responseText).isSome = true
  quiet : (self.audit env spec ctx outcome).decision.kind = .escalate → self.started env spec ctx outcome = []
  passed : ∀ result ∈ (self.audit env spec ctx outcome).criterionResults.dropLast, result.passed = true

theorem DelegationSpec.Valid.perm {spec : DelegationSpec} {acceptance : List AcceptanceCriterion}
    (hvalid : spec.Valid) (h : acceptance.Perm spec.acceptance) : { spec with acceptance }.Valid where
  maxRetries_le := hvalid.maxRetries_le
  testsPass hmem := hvalid.testsPass (h.mem_iff.mp hmem)
  noForbiddenPatterns hmem := hvalid.noForbiddenPatterns (h.mem_iff.mp hmem)
  command := hvalid.command

theorem not_nothingForbidden_iff {env : AuditEnv} {spec : DelegationSpec} {text : Str} :
    ¬ PatternAuditor.NothingForbidden env spec text ↔ .noForbiddenPatterns ∈ spec.acceptance ∧
      ∃ pattern ∈ spec.forbiddenPatterns, (env.regexFind pattern.source text).isSome = true := by
  unfold PatternAuditor.NothingForbidden
  simp only [Classical.not_imp, not_forall, Option.ne_none_iff_isSome]

/-- The verdict of the pattern auditor on a valid spec is the same in every order of its criteria, escalates
exactly on a forbidden match and then before any process is started. -/
theorem audit_settledVerdict (self : PatternAuditor) (env : AuditEnv) {spec : DelegationSpec}
    (hvalid : spec.validate = .ok ()) (ctx : DelegationContext) (outcome : DispatchOutcome) :
    SettledVerdict self env spec ctx outcome := by
  have hspec := DelegationSpec.valid_of_validate hvalid
  have hescalate := PatternAuditor.audit_escalate_iff self env ctx outcome hspec
  refine ⟨fun acceptance hperm => ?_, hescalate.trans not_nothingForbidden_iff, fun hkind => ?_, ?_⟩
  · apply PatternAuditor.audit_kind_congr hspec (hspec.perm hperm)
    · exact forall_congr' fun criterion => imp_congr hperm.mem_iff (by cases criterion <;> rfl)
    · exact imp_congr hperm.mem_iff Iff.rfl
  · exact (PatternAuditor.audit_of_forbidden (hescalate.mp hkind)).2.2
  · by_cases h : PatternAuditor.NothingForbidden env spec outcome.responseText
    · exact (PatternAuditor.audit_of_nothingForbidden self ctx hspec h).2
    · exact (PatternAuditor.audit_of_forbidden h).2.1

/-- A spec that lists the tests before the forbidden pattern. -/
def guardedSpec : DelegationSpec :=
  { oneRetrySpec with
    acceptance := [.testsPass, .noForbiddenPatterns], forbiddenPatterns := [⟨"unsafe"⟩],
    expectedTests := some ⟨["cargo", "test"], none⟩ }

/-- An environment in which a literal is found where a text begins with it. -/
def literalEnv : AuditEnv :=
  { quietEnv with
    regexFind := fun pattern text => if pattern.isPrefixOf text then some (0, byteLen pattern) else none }

theorem guardedSpec_settledVerdict :
    guardedSpec.validate = .ok () ∧
      SettledVerdict {} literalEnv guardedSpec (.forTopLevel guardedSpec) ⟨"unsafe block", 0, none⟩ :=
  ⟨rfl, audit_settledVerdict {} literalEnv rfl _ _⟩

end Codrex.Orchestrator
