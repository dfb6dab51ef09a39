import Codrex.Lib.Transition
import Codrex.Orchestrator.Audit
import Codrex.Orchestrator.Lemmas.Runner

/-!
# What the pattern auditor accepts
-/

namespace Codrex.Orchestrator

open Text

def AcceptanceCriterion.Holds (env : AuditEnv) (spec : DelegationSpec) (attempt : Nat) (text : Str) :
    AcceptanceCriterion → Prop
  | .noForbiddenPatterns => ∀ pattern ∈ spec.forbiddenPatterns, env.regexFind pattern.source text = none
  | .outputMatches regex => (env.regexFind regex.source text).isSome = true
  | .testsPass => ∃ tests bin args, spec.expectedTests = some tests ∧ tests.command = bin :: args ∧
      (env.process attempt (testCommand bin args tests.workingDir)).success = true
  | .custom _ check => (env.process attempt (scriptCommand check)).success = true

def CriteriaHold (env : AuditEnv) (spec : DelegationSpec) (attempt : Nat) (text : Str) : Prop :=
  ∀ criterion ∈ spec.acceptance, criterion.Holds env spec attempt text

/-! ## Checks in a row -/

section Checks

variable {α : Type} {check : α → CriterionResult} {fail : List CriterionResult → α → Json → AuditReport}

theorem runChecks_eq_ok_iff {xs : List α} {results : List CriterionResult} :
    (∃ r, runChecks check fail xs results = .ok r) ↔ ∀ x ∈ xs, (check x).passed = true := by
  induction xs generalizing results with
  | nil => simp [runChecks]
  | cons x xs ih =>
      simp only [runChecks, List.mem_cons, forall_eq_or_imp]
      by_cases hx : (check x).passed = true
      · simp only [hx, if_true, true_and]
        exact ih
      · simp [hx]

theorem runChecks_error {xs : List α} {results : List CriterionResult} {report : AuditReport}
    (h : runChecks check fail xs results = .error report) : ∃ results x details, report = fail results x details := by
  induction xs generalizing results with
  | nil => cases h
  | cons x xs ih =>
      simp only [runChecks] at h
      split at h
      · exact ih h
      · cases h
        exact ⟨_, _, _, rfl⟩

/-- A report in which only the last result may be a failure. -/
def LastMayFail (report : AuditReport) : Prop := ∀ result ∈ report.criterionResults.dropLast, result.passed = true

/-- Checks in a row keep the results passed, and a failure comes last. -/
theorem runChecks_passed {xs : List α} {results : List CriterionResult} (hpassed : ∀ r ∈ results, r.passed = true)
    (hkeeps : ∀ results x details, (fail results x details).criterionResults = results) :
    (∀ r, runChecks check fail xs results = .ok r → ∀ result ∈ r, result.passed = true) ∧
      ∀ report, runChecks check fail xs results = .error report → LastMayFail report := by
  induction xs generalizing results with
  | nil =>
      refine ⟨fun r h => ?_, fun report h => ?_⟩
      · cases h
        exact hpassed
      · cases h
  | cons x xs ih =>
      simp only [runChecks]
      split
      · rename_i hx
        apply ih
        intro r hr
        rcases List.mem_append.mp hr with hr | hr
        · exact hpassed r hr
        · rw [List.mem_singleton.mp hr]
          exact hx
      · refine ⟨fun r h => ?_, fun report h => ?_⟩
        · cases h
        · cases h
          intro result hresult
          rw [hkeeps, List.dropLast_concat] at hresult
          exact hpassed result hresult

end Checks

theorem mem_outputMatches {acceptance : List AcceptanceCriterion} {regex : ValidatedRegex} :
    (∃ idx, (idx, regex) ∈ outputMatches acceptance) ↔ .outputMatches regex ∈ acceptance := by
  unfold outputMatches
  constructor
  · rintro ⟨idx, h⟩
    obtain ⟨⟨criterion, i⟩, hmem, heq⟩ := List.mem_filterMap.mp h
    cases criterion with
    | outputMatches r =>
        simp only [Option.some.injEq, Prod.mk.injEq] at heq
        obtain ⟨-, rfl⟩ := heq
        exact List.fst_mem_of_mem_zipIdx hmem
    | _ => cases heq
  · intro h
    obtain ⟨i, hi⟩ := List.mem_iff_getElem?.mp h
    exact ⟨i, List.mem_filterMap.mpr ⟨(_, i), List.mem_zipIdx_iff_getElem?.mpr hi, rfl⟩⟩

theorem mem_customCriteria {acceptance : List AcceptanceCriterion} {name : Str} {script : ScriptRef} :
    (∃ idx, (idx, name, script) ∈ customCriteria acceptance) ↔ .custom name script ∈ acceptance := by
  unfold customCriteria
  constructor
  · rintro ⟨idx, h⟩
    obtain ⟨⟨criterion, i⟩, hmem, heq⟩ := List.mem_filterMap.mp h
    cases criterion with
    | custom n c =>
        simp only [Option.some.injEq, Prod.mk.injEq] at heq
        obtain ⟨-, rfl, rfl⟩ := heq
        exact List.fst_mem_of_mem_zipIdx hmem
    | _ => cases heq
  · intro h
    obtain ⟨i, hi⟩ := List.mem_iff_getElem?.mp h
    exact ⟨i, List.mem_filterMap.mpr ⟨(_, i), List.mem_zipIdx_iff_getElem?.mpr hi, rfl⟩⟩

theorem passed_checkNoForbiddenPatterns {env : AuditEnv} {attempt : Nat} {spec : DelegationSpec} {text : Str} :
    (checkNoForbiddenPatterns env attempt spec text).passed = true ↔
      AcceptanceCriterion.noForbiddenPatterns.Holds env spec attempt text := by
  unfold checkNoForbiddenPatterns forbiddenMatch
  simp only [List.isEmpty_iff, List.filterMap_eq_nil_iff, Option.map_eq_none_iff]
  rfl

theorem passed_runTestSpec {env : AuditEnv} {attempt timeoutMs : Nat} {spec : DelegationSpec} {text : Str}
    {tests : TestSpec} (hsome : spec.expectedTests = some tests) :
    (runTestSpec env attempt tests timeoutMs).passed = true ↔
      AcceptanceCriterion.testsPass.Holds env spec attempt text := by
  unfold runTestSpec
  constructor
  · intro h
    split at h
    · cases h
    · rename_i bin args hcommand
      exact ⟨tests, bin, args, hsome, hcommand, h⟩
  · rintro ⟨tests', bin, args, hsome', hcommand, hsuccess⟩
    rw [hsome] at hsome'
    cases hsome'
    rw [hcommand]
    exact hsuccess

/-! ## The whole audit -/

namespace PatternAuditor

variable {self : PatternAuditor} {env : AuditEnv} {spec : DelegationSpec} {ctx : DelegationContext} {text : Str}
  {results : List CriterionResult} {outcome : DispatchOutcome}

def Rejects (report : AuditReport) : Prop := ∀ rationale, report.decision ≠ .ok rationale

section

variable (self env spec ctx text results)

theorem checkForbidden_spec :
    ((∃ r, checkForbidden env spec ctx text results = .ok r) ↔
        (.noForbiddenPatterns ∈ spec.acceptance →
          AcceptanceCriterion.noForbiddenPatterns.Holds env spec ctx.attempt text)) ∧
      ∀ report, checkForbidden env spec ctx text results = .error report → Rejects report := by
  unfold checkForbidden
  by_cases hmem : .noForbiddenPatterns ∈ spec.acceptance
  · simp only [hmem, if_true, true_imp_iff]
    refine ⟨?_, fun report h => ?_⟩
    · rw [runChecks_eq_ok_iff]
      simp only [List.mem_singleton, forall_const]
      rw [passed_checkNoForbiddenPatterns]
    · obtain ⟨rs, x, details, rfl⟩ := runChecks_error h
      intro rationale hok
      cases hok
  · simp [hmem]

theorem checkOutputs_spec :
    ((∃ r, checkOutputs env spec ctx text results = .ok r) ↔
        ∀ regex, .outputMatches regex ∈ spec.acceptance →
          (AcceptanceCriterion.outputMatches regex).Holds env spec ctx.attempt text) ∧
      ∀ report, checkOutputs env spec ctx text results = .error report → Rejects report := by
  unfold checkOutputs
  refine ⟨?_, fun report h => ?_⟩
  · rw [runChecks_eq_ok_iff]
    constructor
    · intro h regex hmem
      obtain ⟨idx, hidx⟩ := mem_outputMatches.mpr hmem
      exact h (idx, regex) hidx
    · rintro h ⟨idx, regex⟩ hidx
      exact h regex (mem_outputMatches.mp ⟨idx, hidx⟩)
  · obtain ⟨rs, ⟨idx, regex⟩, details, rfl⟩ := runChecks_error h
    intro rationale hok
    cases hok

theorem checkTests_spec :
    ((∃ r, self.checkTests env spec ctx results = .ok r) ↔
        (.testsPass ∈ spec.acceptance → AcceptanceCriterion.testsPass.Holds env spec ctx.attempt text)) ∧
      ∀ report, self.checkTests env spec ctx results = .error report → Rejects report := by
  unfold checkTests
  by_cases hmem : .testsPass ∈ spec.acceptance
  · simp only [hmem, if_true, true_imp_iff]
    cases hsome : spec.expectedTests with
    | none =>
        refine ⟨⟨?_, ?_⟩, fun report h => ?_⟩
        · rintro ⟨r, hr⟩
          cases hr
        · rintro ⟨tests, bin, args, hsome', -⟩
          rw [hsome] at hsome'
          cases hsome'
        · cases h
          intro rationale hok
          cases hok
    | some tests =>
        refine ⟨?_, fun report h => ?_⟩
        · simp only [runChecks_eq_ok_iff, List.mem_singleton, forall_eq]
          exact passed_runTestSpec hsome
        · obtain ⟨rs, x, details, rfl⟩ := runChecks_error h
          intro rationale hok
          cases hok
  · simp [hmem]

theorem checkCustom_spec :
    ((∃ r, self.checkCustom env spec ctx results = .ok r) ↔
        ∀ name check, .custom name check ∈ spec.acceptance →
          (AcceptanceCriterion.custom name check).Holds env spec ctx.attempt text) ∧
      ∀ report, self.checkCustom env spec ctx results = .error report → Rejects report := by
  unfold checkCustom
  refine ⟨?_, fun report h => ?_⟩
  · rw [runChecks_eq_ok_iff]
    constructor
    · intro h name check hmem
      obtain ⟨idx, hidx⟩ := mem_customCriteria.mpr hmem
      exact h (idx, name, check) hidx
    · rintro h ⟨idx, name, check⟩ hidx
      exact h name check (mem_customCriteria.mp ⟨idx, hidx⟩)
  · obtain ⟨rs, ⟨idx, name, check⟩, details, rfl⟩ := runChecks_error h
    intro rationale hok
    cases hok

end

/-- A stage that fails decides against the response, and a stage that succeeds leaves it to the rest. -/
theorem accepts_bind {ε : Type} {stage : Except AuditReport ε} {rest : ε → Except AuditReport (List CriterionResult)}
    {P Q : Prop} (hstage : ((∃ r, stage = .ok r) ↔ P) ∧ ∀ report, stage = .error report → Rejects report)
    (hrest : ∀ r, ((∃ r', rest r = .ok r') ↔ Q) ∧ ∀ report, rest r = .error report → Rejects report) :
    ((∃ r, stage >>= rest = .ok r) ↔ P ∧ Q) ∧ ∀ report, stage >>= rest = .error report → Rejects report := by
  cases stage with
  | ok a =>
      obtain ⟨hrest, hreject⟩ := hrest a
      refine ⟨?_, hreject⟩
      rw [Fallible.ok_bind, hrest]
      exact ⟨fun hq => ⟨hstage.1.mp ⟨a, rfl⟩, hq⟩, And.right⟩
  | error report =>
      rw [Fallible.error_bind]
      refine ⟨⟨?_, ?_⟩, fun report' h => ?_⟩
      · rintro ⟨r, hr⟩
        cases hr
      · rintro ⟨hp, -⟩
        obtain ⟨r, hr⟩ := hstage.1.mpr hp
        cases hr
      · cases h
        exact hstage.2 report rfl

/-- The auditor accepts exactly the responses for which every listed criterion holds. -/
theorem audit_ok_iff (outcome : DispatchOutcome) :
    (∃ rationale, (self.audit env spec ctx outcome).decision = .ok rationale) ↔
      CriteriaHold env spec ctx.attempt outcome.responseText := by
  have hstages := accepts_bind (checkForbidden_spec env spec ctx outcome.responseText []) fun results₁ =>
    accepts_bind (checkOutputs_spec env spec ctx outcome.responseText results₁) fun results₂ =>
    accepts_bind (checkTests_spec self env spec ctx outcome.responseText results₂) fun results₃ =>
    checkCustom_spec self env spec ctx outcome.responseText results₃
  have hall : CriteriaHold env spec ctx.attempt outcome.responseText ↔
      (.noForbiddenPatterns ∈ spec.acceptance →
        AcceptanceCriterion.noForbiddenPatterns.Holds env spec ctx.attempt outcome.responseText) ∧
      (∀ regex, .outputMatches regex ∈ spec.acceptance →
        (AcceptanceCriterion.outputMatches regex).Holds env spec ctx.attempt outcome.responseText) ∧
      (.testsPass ∈ spec.acceptance →
        AcceptanceCriterion.testsPass.Holds env spec ctx.attempt outcome.responseText) ∧
      ∀ name check, .custom name check ∈ spec.acceptance →
        (AcceptanceCriterion.custom name check).Holds env spec ctx.attempt outcome.responseText := by
    constructor
    · intro h
      exact ⟨h _, fun regex => h _, h _, fun name check => h _⟩
    · rintro ⟨hforbidden, houtputs, htests, hcustom⟩ criterion hmem
      cases criterion with
      | noForbiddenPatterns => exact hforbidden hmem
      | outputMatches regex => exact houtputs regex hmem
      | testsPass => exact htests hmem
      | custom name check => exact hcustom name check hmem
  rw [hall, ← hstages.1]
  unfold audit
  simp only
  split
  · rename_i results hok
    exact ⟨fun _ => ⟨results, hok⟩, fun _ => ⟨_, rfl⟩⟩
  · rename_i report herror
    refine ⟨?_, ?_⟩
    · rintro ⟨rationale, hok⟩
      exact absurd hok (hstages.2 report herror rationale)
    · rintro ⟨r, hr⟩
      rw [herror] at hr
      cases hr

/-! ## The kind of the decision -/

/-- What a stage hands on when it passes, and what its report is when it fails. -/
structure StageReports (kind : DecisionKind) (stage : Except AuditReport (List CriterionResult)) : Prop where
  passed : ∀ r, stage = .ok r → ∀ result ∈ r, result.passed = true
  failed : ∀ report, stage = .error report → report.decision.kind = kind ∧ LastMayFail report

theorem StageReports.ok {kind : DecisionKind} (hpassed : ∀ r ∈ results, r.passed = true) :
    StageReports kind (.ok results) where
  passed r h := by
    cases h
    exact hpassed
  failed report h := by cases h

/-- Checks in a row, each failure of which is reported with the results so far and a decision of one kind. -/
theorem runChecks_reports {α : Type} {check : α → CriterionResult}
    {fail : List CriterionResult → α → Json → AuditReport} {xs : List α} {kind : DecisionKind}
    (hkind : ∀ results x details, (fail results x details).decision.kind = kind)
    (hkeeps : ∀ results x details, (fail results x details).criterionResults = results)
    (hpassed : ∀ r ∈ results, r.passed = true) : StageReports kind (runChecks check fail xs results) := by
  obtain ⟨hok, herror⟩ := runChecks_passed hpassed hkeeps
  refine ⟨hok, fun report h => ⟨?_, herror report h⟩⟩
  obtain ⟨rs, x, details, rfl⟩ := runChecks_error h
  exact hkind rs x details

section

variable (self env spec ctx text)

theorem checkForbidden_reports (hpassed : ∀ r ∈ results, r.passed = true) :
    StageReports .escalate (checkForbidden env spec ctx text results) := by
  unfold checkForbidden
  split
  · exact runChecks_reports (fun _ _ _ => rfl) (fun _ _ _ => rfl) hpassed
  · exact .ok hpassed

theorem checkOutputs_reports (hpassed : ∀ r ∈ results, r.passed = true) :
    StageReports .retry (checkOutputs env spec ctx text results) :=
  runChecks_reports (fun _ _ _ => rfl) (fun _ _ _ => rfl) hpassed

/-- A valid spec that asks for passing tests says which, so that the audit has no drop of its own. -/
theorem checkTests_reports (hvalid : spec.Valid) (hpassed : ∀ r ∈ results, r.passed = true) :
    StageReports .retry (self.checkTests env spec ctx results) := by
  unfold checkTests
  split
  · rename_i hmem
    obtain ⟨tests, htests⟩ := hvalid.testsPass hmem
    rw [htests]
    exact runChecks_reports (fun _ _ _ => rfl) (fun _ _ _ => rfl) hpassed
  · exact .ok hpassed

theorem checkCustom_reports (hpassed : ∀ r ∈ results, r.passed = true) :
    StageReports .retry (self.checkCustom env spec ctx results) :=
  runChecks_reports (fun _ _ _ => rfl) (fun _ _ _ => rfl) hpassed

end

theorem StageReports.bind {kind : DecisionKind} {stage : Except AuditReport (List CriterionResult)}
    {rest : List CriterionResult → Except AuditReport (List CriterionResult)} (hstage : StageReports kind stage)
    (hrest : ∀ results, (∀ r ∈ results, r.passed = true) → StageReports kind (rest results)) :
    StageReports kind (stage >>= rest) := by
  cases stage with
  | ok results => exact hrest results (hstage.passed results rfl)
  | error report =>
      refine ⟨fun r h => ?_, fun report' h => ?_⟩
      · cases h
      · cases h
        exact hstage.failed report rfl

/-- No forbidden pattern is asked about, or none of them matches. -/
def NothingForbidden (env : AuditEnv) (spec : DelegationSpec) (text : Str) : Prop :=
  .noForbiddenPatterns ∈ spec.acceptance →
    ∀ pattern ∈ spec.forbiddenPatterns, env.regexFind pattern.source text = none

/-- A forbidden match ends the audit at once. -/
theorem audit_of_forbidden (h : ¬ NothingForbidden env spec outcome.responseText) :
    (self.audit env spec ctx outcome).decision.kind = .escalate ∧
      LastMayFail (self.audit env spec ctx outcome) ∧ self.started env spec ctx outcome = [] := by
  have hspec := (checkForbidden_spec env spec ctx outcome.responseText []).1
  have hreports := checkForbidden_reports env spec ctx outcome.responseText (List.forall_mem_nil _)
  unfold audit started
  cases hstage : checkForbidden env spec ctx outcome.responseText [] with
  | ok results => exact absurd (hspec.mp ⟨results, hstage⟩) h
  | error report =>
      simp only [Fallible.error_bind]
      obtain ⟨hkind, hlast⟩ := hreports.failed report hstage
      exact ⟨hkind, hlast, trivial⟩

/-- Without a forbidden match the later stages decide, and they ask for a retry at most. -/
theorem audit_of_nothingForbidden (self : PatternAuditor) (ctx : DelegationContext) (hvalid : spec.Valid)
    (h : NothingForbidden env spec outcome.responseText) :
    ((self.audit env spec ctx outcome).decision.kind = .ok ∨
        (self.audit env spec ctx outcome).decision.kind = .retry) ∧
      LastMayFail (self.audit env spec ctx outcome) := by
  obtain ⟨results, hstage⟩ := (checkForbidden_spec env spec ctx outcome.responseText []).1.mpr h
  have hpassed := (checkForbidden_reports env spec ctx outcome.responseText (List.forall_mem_nil _)).passed _ hstage
  have hrest := (checkOutputs_reports env spec ctx outcome.responseText hpassed).bind fun results₂ hpassed₂ =>
    (checkTests_reports self env spec ctx hvalid hpassed₂).bind fun results₃ hpassed₃ =>
    checkCustom_reports self env spec ctx hpassed₃
  unfold audit
  simp only [hstage, Fallible.ok_bind]
  split
  · rename_i results' hok
    refine ⟨Or.inl rfl, fun result hresult => ?_⟩
    exact hrest.passed _ hok result (List.dropLast_subset _ hresult)
  · rename_i report herror
    obtain ⟨hkind, hlast⟩ := hrest.failed report herror
    exact ⟨Or.inr hkind, hlast⟩

theorem audit_escalate_iff (self : PatternAuditor) (env : AuditEnv) (ctx : DelegationContext)
    (outcome : DispatchOutcome) (hvalid : spec.Valid) :
    (self.audit env spec ctx outcome).decision.kind = .escalate ↔
      ¬ NothingForbidden env spec outcome.responseText := by
  constructor
  · intro hkind h
    rcases (audit_of_nothingForbidden self ctx hvalid h).1 with hother | hother
    · rw [hkind] at hother
      cases hother
    · rw [hkind] at hother
      cases hother
  · intro h
    exact (audit_of_forbidden h).1

theorem audit_kind_ok_iff :
    (self.audit env spec ctx outcome).decision.kind = .ok ↔
      CriteriaHold env spec ctx.attempt outcome.responseText := by
  rw [← audit_ok_iff]
  cases (self.audit env spec ctx outcome).decision with
  | ok rationale => simp [AuditDecision.kind]
  | _ => simp [AuditDecision.kind]

/-- Two audits decide alike when they agree on which responses are accepted and which escalated. -/
theorem audit_kind_congr {spec' : DelegationSpec} (hvalid : spec.Valid) (hvalid' : spec'.Valid)
    (hcriteria : CriteriaHold env spec' ctx.attempt outcome.responseText ↔
      CriteriaHold env spec ctx.attempt outcome.responseText)
    (hforbidden : NothingForbidden env spec' outcome.responseText ↔ NothingForbidden env spec outcome.responseText) :
    (self.audit env spec' ctx outcome).decision.kind = (self.audit env spec ctx outcome).decision.kind := by
  by_cases h : NothingForbidden env spec outcome.responseText
  · have hok : (self.audit env spec' ctx outcome).decision.kind = .ok ↔
        (self.audit env spec ctx outcome).decision.kind = .ok := by
      rw [audit_kind_ok_iff, audit_kind_ok_iff]
      exact hcriteria
    rcases (audit_of_nothingForbidden self ctx hvalid h).1 with hkind | hkind
    · rw [hkind, hok.mpr hkind]
    · rcases (audit_of_nothingForbidden self ctx hvalid' (hforbidden.mpr h)).1 with hkind' | hkind'
      · rw [hkind', hok.mp hkind']
      · rw [hkind, hkind']
  · rw [(audit_of_forbidden h).1, (audit_of_forbidden (hforbidden.not.mpr h)).1]

end PatternAuditor

end Codrex.Orchestrator
