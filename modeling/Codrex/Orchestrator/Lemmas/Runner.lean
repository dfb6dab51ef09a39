import Codrex.Orchestrator.Runner

/-!
# Attempts of the orchestration loop

What one turn of the loop writes and where it goes, and what follows for a whole run.
-/

namespace Codrex.Orchestrator

open Text

/-! ## The rows of one attempt -/

def verdict (payload : Json) : Option Str := (payload.get? "verdict").bind Json.asStr?

inductive AttemptRows (ctx : DelegationContext) : List LogRow → Option Str → Prop
  | clarified {started asked decided : Json} (hv : verdict decided = some "clarify".toList) :
      AttemptRows ctx [⟨ctx, .dispatchStart, started⟩, ⟨ctx, .clarify, asked⟩, ⟨ctx, .decision, decided⟩]
        (some "clarify".toList)
  | failed {started ended : Json} (herror : (ended.get? "error").isSome = true) :
      AttemptRows ctx [⟨ctx, .dispatchStart, started⟩, ⟨ctx, .dispatchEnd, ended⟩] none
  | audited {started ended audited decided : Json} {v : Str} (criteria : List Json)
      (hend : ended.get? "error" = none) (hv : verdict decided = some v) :
      AttemptRows ctx ([⟨ctx, .dispatchStart, started⟩, ⟨ctx, .dispatchEnd, ended⟩] ++
        criteria.map (fun payload => ⟨ctx, .auditCriterion, payload⟩) ++
        [⟨ctx, .audit, audited⟩, ⟨ctx, .decision, decided⟩]) (some v)

theorem AttemptRows.ctx_eq {ctx : DelegationContext} {rows : List LogRow} {v : Option Str}
    (h : AttemptRows ctx rows v) : ∀ row ∈ rows, row.ctx = ctx := by
  intro row hrow
  cases h with
  | clarified hv =>
      simp only [List.mem_cons, List.not_mem_nil, or_false] at hrow
      rcases hrow with rfl | rfl | rfl
      · rfl
      · rfl
      · rfl
  | failed herror =>
      simp only [List.mem_cons, List.not_mem_nil, or_false] at hrow
      rcases hrow with rfl | rfl
      · rfl
      · rfl
  | audited criteria hend hv =>
      simp only [List.mem_append, List.mem_cons, List.mem_map, List.not_mem_nil, or_false] at hrow
      rcases hrow with ((rfl | rfl) | ⟨payload, -, rfl⟩) | rfl | rfl
      · rfl
      · rfl
      · rfl
      · rfl
      · rfl

inductive Ends (spec : DelegationSpec) (state : LoopState) (outcome : DispatchOutcome) :
    AuditDecision → Except Str OrchestrateOutcome → Prop
  | ok (rationale : Str) : Ends spec state outcome (.ok rationale) (.ok (.ok outcome.responseText))
  | escalate (reason blockingIssue : Str) :
      Ends spec state outcome (.escalate reason blockingIssue) (.ok (.escalate reason blockingIssue none))
  | clarify (question : Str) : Ends spec state outcome (.clarify question) (.ok (.clarify question))
  | drop (reason : Str) : Ends spec state outcome (.drop reason) (.ok (.drop reason none))
  | looped (feedback : RetryFeedback) (attempt : Nat) (signature : Option Str) :
      Ends spec state outcome (.retry feedback attempt) (.ok (.drop "loop_detected" signature))
  | exhausted (feedback : RetryFeedback) (attempt : Nat) (hmax : spec.maxRetries ≤ state.ctx.attempt) :
      Ends spec state outcome (.retry feedback attempt)
        (.ok (.escalate "max_retries_exhausted" "retries exhausted"
          (some (saturatingSucc state.ctx.attempt))))

variable {σ : Type} {env : SignatureEnv} {spec : DelegationSpec} {model : Str} {sink : DispatchSink σ}
  {auditor : Auditor σ} {state : LoopState} {world : σ} {attempt : Attempt}

theorem verdict_clarifyDecisionPayload (question : Str) :
    verdict (clarifyDecisionPayload question) = some "clarify".toList := rfl

theorem settle_cases (outcome : DispatchOutcome) (decision : AuditDecision) :
    (∃ result v, (settle env spec state outcome decision).2 = .done result ∧
        verdict (settle env spec state outcome decision).1 = some v ∧ v ≠ "retry".toList ∧
        Ends spec state outcome decision result) ∨
      ∃ feedback attempt next, decision = .retry feedback attempt ∧
        (settle env spec state outcome decision).2 = .again next ∧
        verdict (settle env spec state outcome decision).1 = some "retry".toList ∧
        state.ctx.attempt < spec.maxRetries ∧ next.ctx = state.ctx.nextAttemptWithFeedback feedback := by
  cases decision with
  | ok rationale => exact Or.inl ⟨_, _, rfl, rfl, by decide, .ok rationale⟩
  | escalate reason blockingIssue =>
      exact Or.inl ⟨_, _, rfl, rfl, by decide, .escalate reason blockingIssue⟩
  | clarify question =>
      exact Or.inl ⟨_, "clarify".toList, rfl, verdict_clarifyDecisionPayload question, by decide,
        .clarify question⟩
  | drop reason => exact Or.inl ⟨_, _, rfl, rfl, by decide, .drop reason⟩
  | retry feedback attempt =>
      simp only [settle]
      split
      · exact Or.inl ⟨_, _, rfl, rfl, by decide, .looped feedback attempt _⟩
      · split
        · rename_i hmax
          exact Or.inl ⟨_, _, rfl, rfl, by decide, .exhausted feedback attempt hmax⟩
        · rename_i hmax
          exact Or.inr ⟨feedback, attempt, _, rfl, rfl, rfl, Nat.lt_of_not_le hmax, rfl⟩

/-- The last turn of a run: no retry, and an escalation is the auditor's own or comes from the end of
the retries. -/
def IsLast (spec : DelegationSpec) (attempt : Attempt) (result : Except Str OrchestrateOutcome) : Prop :=
  (∃ v, AttemptRows attempt.ctx attempt.rows v ∧ v ≠ some "retry".toList) ∧
    ∀ reason issue count, result = .ok (.escalate reason issue count) →
      (count = none ∧ ∃ report, attempt.report = some report ∧ report.decision = .escalate reason issue) ∨
        (reason = "max_retries_exhausted".toList ∧ spec.maxRetries ≤ attempt.ctx.attempt ∧
          count = some (saturatingSucc attempt.ctx.attempt))

def IsRetry (spec : DelegationSpec) (attempt : Attempt) (next : DelegationContext) : Prop :=
  AttemptRows attempt.ctx attempt.rows (some "retry".toList) ∧ attempt.ctx.attempt < spec.maxRetries ∧
    ∃ report feedback n, attempt.report = some report ∧ report.decision = .retry feedback n ∧
      next = attempt.ctx.nextAttemptWithFeedback feedback

theorem attemptRows_of_report (ctx : DelegationContext) (model : Str) (outcome : DispatchOutcome) (report : AuditReport)
    {payload : Json} {v : Str} (hv : verdict payload = some v) :
    AttemptRows ctx ([⟨ctx, .dispatchStart, startPayload model⟩, ⟨ctx, .dispatchEnd, endPayload outcome⟩] ++
      report.criterionResults.map (fun criterion => ⟨ctx, .auditCriterion, criterionPayload criterion⟩) ++
      [⟨ctx, .audit, report.decision.toJson⟩, ⟨ctx, .decision, payload⟩]) (some v) := by
  have hmap : report.criterionResults.map (fun criterion =>
        (⟨ctx, .auditCriterion, criterionPayload criterion⟩ : LogRow)) =
      (report.criterionResults.map criterionPayload).map (fun payload => ⟨ctx, .auditCriterion, payload⟩) :=
    List.map_map.symm
  rw [hmap]
  exact .audited _ rfl hv

theorem attemptOnce_cases (attempt : Attempt) (world' : σ) (next : Next)
    (h : attemptOnce env spec model sink auditor state world = (attempt, world', next)) :
    attempt.ctx = state.ctx ∧
      ((∃ result, next = .done result ∧ IsLast spec attempt result) ∨
        ∃ state', next = .again state' ∧ IsRetry spec attempt state'.ctx) := by
  unfold attemptOnce at h
  simp only at h
  split at h
  · rename_i w question _
    cases h
    refine ⟨rfl, Or.inl ⟨_, rfl, ⟨_, .clarified (verdict_clarifyDecisionPayload question), by decide⟩, ?_⟩⟩
    intro reason issue count hres
    cases hres
  · cases h
    refine ⟨rfl, Or.inl ⟨_, rfl, ⟨none, .failed rfl, by decide⟩, ?_⟩⟩
    intro reason issue count hres
    cases hres
  · rename_i w outcome hdispatch
    cases h
    refine ⟨rfl, ?_⟩
    rcases settle_cases outcome
      (auditor.audit w spec state.ctx outcome).2.decision with
      ⟨result, v, hnext, hv, hne, hends⟩ | ⟨feedback, n, next, hdecision, hnext, hv, hlt, hctx⟩
    · refine Or.inl ⟨result, hnext, ⟨some v, attemptRows_of_report state.ctx model outcome _ hv, ?_⟩, ?_⟩
      · intro heq
        exact hne (Option.some.inj heq)
      · intro reason issue count hres
        subst hres
        generalize hd : (auditor.audit w spec state.ctx outcome).2.decision = decision at hends
        cases hends with
        | escalate => exact Or.inl ⟨rfl, _, rfl, hd⟩
        | exhausted feedback n hmax => exact Or.inr ⟨rfl, hmax, rfl⟩
    · have hrows := attemptRows_of_report state.ctx model outcome (auditor.audit w spec state.ctx outcome).2 hv
      exact Or.inr ⟨next, hnext, hrows, hlt, _, feedback, n, rfl, hdecision, hctx⟩

/-! ## Whole runs -/

/-- The attempts of a run that starts with a given context. -/
inductive Attempts (spec : DelegationSpec) :
    DelegationContext → List Attempt → Except Str OrchestrateOutcome → Prop
  | last {attempt : Attempt} {result : Except Str OrchestrateOutcome} (h : IsLast spec attempt result) :
      Attempts spec attempt.ctx [attempt] result
  | retry {attempt : Attempt} {next : DelegationContext} {rest : List Attempt}
      {result : Except Str OrchestrateOutcome} (h : IsRetry spec attempt next)
      (hrest : Attempts spec next rest result) : Attempts spec attempt.ctx (attempt :: rest) result

theorem saturatingSucc_of_lt {n m : Nat} (hm : m ≤ 255) (hn : n < m) :
    saturatingSucc n = n + 1 := by
  unfold saturatingSucc
  omega

theorem loop_of_done {world' : σ} {result : Except Str OrchestrateOutcome} (fuel : Nat)
    (h : attemptOnce env spec model sink auditor state world = (attempt, world', .done result)) :
    loop env spec model sink auditor (fuel + 1) state world = some ⟨[attempt], world', result⟩ := by
  simp only [loop, h]

theorem loop_of_again {world' : σ} {state' : LoopState} (fuel : Nat)
    (h : attemptOnce env spec model sink auditor state world = (attempt, world', .again state')) :
    loop env spec model sink auditor (fuel + 1) state world =
      (loop env spec model sink auditor fuel state' world').map
        (fun run => { run with attempts := attempt :: run.attempts }) := by
  simp only [loop, h]

/-- The loop ends: a retry brings the counter closer to `max_retries`. -/
theorem loop_spec (hvalid : spec.maxRetries ≤ 255) {k : Nat}
    (hk : spec.maxRetries ≤ state.ctx.attempt + k) :
    ∃ run, (∀ fuel, k < fuel → loop env spec model sink auditor fuel state world = some run) ∧
      Attempts spec state.ctx run.attempts run.result := by
  induction k generalizing state world with
  | zero =>
      rcases hstep : attemptOnce env spec model sink auditor state world with ⟨attempt, world', next⟩
      obtain ⟨hctx, ⟨result, rfl, hlast⟩ | ⟨state', rfl, -, hlt, -⟩⟩ := attemptOnce_cases _ _ _ hstep
      · refine ⟨⟨[attempt], world', result⟩, fun fuel hfuel => ?_, hctx ▸ .last hlast⟩
        obtain ⟨f, rfl⟩ := Nat.exists_eq_succ_of_ne_zero (Nat.ne_zero_of_lt hfuel)
        exact loop_of_done f hstep
      · rw [hctx] at hlt
        omega
  | succ k ih =>
      rcases hstep : attemptOnce env spec model sink auditor state world with ⟨attempt, world', next⟩
      obtain ⟨hctx, ⟨result, rfl, hlast⟩ | ⟨state', rfl, hretry⟩⟩ := attemptOnce_cases _ _ _ hstep
      · refine ⟨⟨[attempt], world', result⟩, fun fuel hfuel => ?_, hctx ▸ .last hlast⟩
        obtain ⟨f, rfl⟩ := Nat.exists_eq_succ_of_ne_zero (Nat.ne_zero_of_lt hfuel)
        exact loop_of_done f hstep
      · obtain ⟨hrows, hlt, report, feedback, n, hreport, hdecision, hnext⟩ := id hretry
        have hsucc := saturatingSucc_of_lt hvalid hlt
        have hnum : state'.ctx.attempt = attempt.ctx.attempt + 1 := by
          rw [hnext]
          exact hsucc
        obtain ⟨run, hrun, hattempts⟩ := ih (by rw [hnum, hctx]; omega)
        refine ⟨{ run with attempts := attempt :: run.attempts }, fun fuel hfuel => ?_,
          hctx ▸ .retry hretry hattempts⟩
        obtain ⟨f, rfl⟩ := Nat.exists_eq_succ_of_ne_zero (Nat.ne_zero_of_lt hfuel)
        rw [loop_of_again f hstep, hrun f (by omega)]
        rfl

/-- A property of runs that the last turn has and that each earlier turn keeps. -/
theorem loop_induction {P : LoopState → Run σ → Prop}
    (hdone : ∀ {state world attempt world' result},
      attemptOnce env spec model sink auditor state world = (attempt, world', .done result) →
      P state ⟨[attempt], world', result⟩)
    (hagain : ∀ {state world attempt world' state' run},
      attemptOnce env spec model sink auditor state world = (attempt, world', .again state') → P state' run →
      P state { run with attempts := attempt :: run.attempts })
    {fuel : Nat} {run : Run σ} (h : loop env spec model sink auditor fuel state world = some run) :
    P state run := by
  induction fuel generalizing state world run with
  | zero => cases h
  | succ fuel ih =>
      rcases hstep : attemptOnce env spec model sink auditor state world with ⟨attempt, world', next⟩
      cases next with
      | done result =>
          rw [loop_of_done fuel hstep] at h
          cases h
          exact hdone hstep
      | again state' =>
          rw [loop_of_again fuel hstep] at h
          obtain ⟨run', hrun', rfl⟩ := Option.map_eq_some_iff.mp h
          exact hagain hstep (ih hrun')

/-! ## Accepted responses -/

theorem settle_eq_accepted {outcome : DispatchOutcome} {decision : AuditDecision} {text : Str}
    (h : (settle env spec state outcome decision).2 = .done (.ok (.ok text))) :
    text = outcome.responseText ∧ ∃ rationale, decision = .ok rationale := by
  rcases settle_cases outcome decision with
    ⟨result, v, hnext, -, -, hends⟩ | ⟨feedback, attempt, next, -, hnext, -⟩
  · rw [h] at hnext
    cases hnext
    cases hends with
    | ok rationale => exact ⟨rfl, rationale, rfl⟩
  · rw [h] at hnext
    cases hnext

theorem attemptOnce_response {world' : σ} {next : Next}
    (h : attemptOnce env spec model sink auditor state world = (attempt, world', next)) :
    (∃ outcome w, attempt.response = .ok outcome ∧
        attempt.report = some (auditor.audit w spec attempt.ctx outcome).2 ∧
        next = (settle env spec state outcome (auditor.audit w spec attempt.ctx outcome).2.decision).2) ∨
      ((∃ err, attempt.response = .error err) ∧ attempt.report = none ∧
        ∃ result, next = .done result ∧ ∀ outcome, result = .ok outcome → ∃ question, outcome = .clarify question) := by
  unfold attemptOnce at h
  simp only at h
  split at h
  · cases h
    refine Or.inr ⟨⟨_, rfl⟩, rfl, _, rfl, fun outcome hres => ?_⟩
    cases hres
    exact ⟨_, rfl⟩
  · cases h
    refine Or.inr ⟨⟨_, rfl⟩, rfl, _, rfl, fun outcome hres => ?_⟩
    cases hres
  · rename_i w outcome _
    cases h
    exact Or.inl ⟨outcome, w, rfl, rfl, rfl⟩

/-- The result of a run is the accepted response of its last attempt, and no attempt before was
accepted. -/
structure AcceptedRun (auditor : Auditor σ) (spec : DelegationSpec) (run : Run σ) : Prop where
  audited : ∀ a ∈ run.attempts, ∀ outcome, a.response = .ok outcome →
    ∃ w, (∃ rationale, (auditor.audit w spec a.ctx outcome).2.decision = .ok rationale) →
      run.result = .ok (.ok outcome.responseText)
  accepted : ∀ text, run.result = .ok (.ok text) →
    ∃ last outcome w rationale, run.attempts.getLast? = some last ∧ last.response = .ok outcome ∧
      outcome.responseText = text ∧ (auditor.audit w spec last.ctx outcome).2.decision = .ok rationale

/-- An accepted response ends the run. -/
theorem audited_of_attemptOnce {world' : σ} {next : Next} {outcome : DispatchOutcome}
    (h : attemptOnce env spec model sink auditor state world = (attempt, world', next))
    (hout : attempt.response = .ok outcome) :
    ∃ w, (∃ rationale, (auditor.audit w spec attempt.ctx outcome).2.decision = .ok rationale) →
      next = .done (.ok (.ok outcome.responseText)) := by
  rcases attemptOnce_response h with ⟨outcome', w, hresponse, -, hnext⟩ | ⟨⟨err, hresponse⟩, -⟩
  · rw [hresponse] at hout
    cases hout
    refine ⟨w, ?_⟩
    rintro ⟨rationale, hok⟩
    rw [hok] at hnext
    exact hnext
  · rw [hresponse] at hout
    cases hout

theorem acceptedRun_of_loop {fuel : Nat} {run : Run σ}
    (h : loop env spec model sink auditor fuel state world = some run) : AcceptedRun auditor spec run := by
  refine loop_induction (P := fun _ run => AcceptedRun auditor spec run) ?_ ?_ h
  · intro state world attempt world' result hstep
    constructor
    · intro a ha outcome hout
      obtain rfl := List.mem_singleton.mp ha
      obtain ⟨w, hends⟩ := audited_of_attemptOnce hstep hout
      exact ⟨w, fun hok => Next.done.inj (hends hok)⟩
    · intro text hres
      simp only at hres
      rcases attemptOnce_response hstep with ⟨outcome, w, hresponse, -, hnext⟩ | ⟨-, -, result, hnext, hclarify⟩
      · obtain ⟨htext, rationale, hok⟩ := settle_eq_accepted (hres ▸ hnext.symm)
        exact ⟨attempt, outcome, w, rationale, rfl, hresponse, htext.symm, hok⟩
      · cases hnext
        obtain ⟨question, hquestion⟩ := hclarify _ hres
        cases hquestion
  · intro state world attempt world' state' run hstep hrun
    constructor
    · intro a ha outcome hout
      rcases List.mem_cons.mp ha with rfl | ha
      · obtain ⟨w, hends⟩ := audited_of_attemptOnce hstep hout
        refine ⟨w, fun hok => ?_⟩
        cases hends hok
      · exact hrun.audited a ha outcome hout
    · intro text hres
      obtain ⟨last, outcome, w, rationale, hlast, hrest⟩ := hrun.accepted text hres
      have hne : run.attempts ≠ [] := by
        intro hnil
        rw [hnil] at hlast
        cases hlast
      refine ⟨last, outcome, w, rationale, ?_, hrest⟩
      rw [List.getLast?_cons_of_ne_nil hne]
      exact hlast

section Attempts

variable {ctx : DelegationContext} {attempts : List Attempt} {result : Except Str OrchestrateOutcome}

theorem Attempts.head (h : Attempts spec ctx attempts result) : attempts.head?.map Attempt.ctx = some ctx := by
  cases h with
  | last hlast => rfl
  | retry hretry hrest => rfl

theorem IsRetry.next {attempt : Attempt} {next : DelegationContext}
    (hvalid : spec.maxRetries ≤ 255) (h : IsRetry spec attempt next) :
    next.attempt = attempt.ctx.attempt + 1 ∧ next.attempt ≤ spec.maxRetries := by
  obtain ⟨-, hlt, report, feedback, n, -, -, rfl⟩ := h
  have hsucc : (attempt.ctx.nextAttemptWithFeedback feedback).attempt = attempt.ctx.attempt + 1 :=
    saturatingSucc_of_lt hvalid hlt
  exact ⟨hsucc, by omega⟩

theorem Attempts.numbers (hvalid : spec.maxRetries ≤ 255) (h : Attempts spec ctx attempts result) :
    attempts.map (fun a => a.ctx.attempt) = List.range' ctx.attempt attempts.length := by
  induction h with
  | last hlast => rfl
  | retry hretry hrest ih =>
      rw [List.map_cons, ih, (hretry.next hvalid).1]
      rfl

theorem Attempts.length_le (hvalid : spec.maxRetries ≤ 255)
    (h : Attempts spec ctx attempts result) (hle : ctx.attempt ≤ spec.maxRetries) :
    ctx.attempt + attempts.length ≤ spec.maxRetries + 1 := by
  induction h with
  | last hlast => simpa using hle
  | retry hretry hrest ih =>
      obtain ⟨hnum, hmax⟩ := hretry.next hvalid
      have := ih hmax
      rw [List.length_cons]
      omega

def HandsOn (a b : Attempt) : Prop :=
  ∃ report feedback n, a.report = some report ∧ report.decision = .retry feedback n ∧
    b.ctx.retryFeedback = some feedback

theorem Attempts.handsOn (h : Attempts spec ctx attempts result) : attempts.IsChain HandsOn := by
  induction h with
  | last hlast => exact .singleton _
  | @retry attempt next rest result hretry hrest ih =>
      obtain ⟨-, -, report, feedback, n, hreport, hdecision, hnext⟩ := hretry
      cases rest with
      | nil => exact .singleton _
      | cons b rest =>
          have hb : b.ctx = next := Option.some.inj hrest.head
          refine .cons_cons ⟨report, feedback, n, hreport, hdecision, ?_⟩ ih
          rw [hb, hnext]
          rfl

theorem Attempts.split (h : Attempts spec ctx attempts result) :
    ∃ front last, attempts = front ++ [last] ∧ IsLast spec last result ∧
      ∀ a ∈ front, AttemptRows a.ctx a.rows (some "retry".toList) := by
  induction h with
  | @last attempt result hlast =>
      refine ⟨[], attempt, rfl, hlast, ?_⟩
      intro a ha
      cases ha
  | @retry attempt next rest result hretry hrest ih =>
      obtain ⟨front, last, rfl, hlast, hfront⟩ := ih
      refine ⟨attempt :: front, last, rfl, hlast, ?_⟩
      intro a ha
      rcases List.mem_cons.mp ha with rfl | ha
      · exact hretry.1
      · exact hfront a ha

theorem filter_rows {attempts : List Attempt} (hrows : ∀ a ∈ attempts, ∃ v, AttemptRows a.ctx a.rows v)
    (hnodup : (attempts.map (fun a => a.ctx.attempt)).Nodup) :
    ∀ a ∈ attempts, (attempts.flatMap Attempt.rows).filter
      (fun row => row.ctx.attempt == a.ctx.attempt) = a.rows := by
  have hkeep : ∀ a ∈ attempts, ∀ n, a.rows.filter (fun row => row.ctx.attempt == n) =
      if a.ctx.attempt = n then a.rows else [] := by
    intro a ha n
    obtain ⟨v, hv⟩ := hrows a ha
    split
    · rename_i hn
      apply List.filter_eq_self.mpr
      intro row hrow
      rw [hv.ctx_eq row hrow, hn]
      exact beq_self_eq_true n
    · rename_i hn
      apply List.filter_eq_nil_iff.mpr
      intro row hrow
      rw [hv.ctx_eq row hrow]
      simpa using hn
  induction attempts with
  | nil =>
      intro a ha
      cases ha
  | cons b rest ih =>
      rw [List.map_cons, List.nodup_cons] at hnodup
      have hrest := ih (fun a ha => hrows a (List.mem_cons_of_mem _ ha)) hnodup.2
        (fun a ha => hkeep a (List.mem_cons_of_mem _ ha))
      intro a ha
      rw [List.flatMap_cons, List.filter_append, hkeep b List.mem_cons_self]
      rcases List.mem_cons.mp ha with rfl | ha
      · have hnil : (rest.flatMap Attempt.rows).filter (fun row => row.ctx.attempt == a.ctx.attempt) = [] := by
          apply List.filter_eq_nil_iff.mpr
          intro row hrow
          obtain ⟨c, hc, hrow⟩ := List.mem_flatMap.mp hrow
          obtain ⟨v, hv⟩ := hrows c (List.mem_cons_of_mem _ hc)
          rw [hv.ctx_eq row hrow]
          intro heq
          exact hnodup.1 (List.mem_map.mpr ⟨c, hc, beq_iff_eq.mp heq⟩)
        rw [if_pos rfl, hnil, List.append_nil]
      · have hne : b.ctx.attempt ≠ a.ctx.attempt := by
          intro heq
          exact hnodup.1 (List.mem_map.mpr ⟨a, ha, heq.symm⟩)
        rw [if_neg hne, List.nil_append]
        exact hrest a ha

end Attempts

end Codrex.Orchestrator
