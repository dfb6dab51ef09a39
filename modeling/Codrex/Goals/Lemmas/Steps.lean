import Codrex.Goals.Lemmas.Accounting

/-!
# The steps of the calls keep the invariant
-/

namespace Codrex.Goals

open Metering

/-! ## What a call holds -/

/-- The step belongs to a turn that has been started. -/
def Step.needsTurn : Step → Bool
  | .activateTurn _ => true
  | .accountProgress _ _ => true
  | .readExistingGoal _ _ => true
  | .updateGoal (.tool _ _ _) _ => true
  | .readUpdated (.tool _ _ _) => true
  | .replaceGoal (.tool _ _ _) _ _ _ => true
  | .insertGoal _ _ _ => true
  | .readMarkUsage _ (some _) => true
  | _ => false

structure StepOk (session : Session) (step : Step) : Prop where
  turn : step.needsTurn = true → session.firstUsage.isSome = true
  usage : ∀ turnId usage, step.overwrites = some (turnId, usage) → Held session usage

/-- The usage that was read stays read. -/
structure Extends (old new : Session) : Prop where
  known : ∀ usage, usage ∈ old.usage :: old.past → usage ∈ new.usage :: new.past
  first : ∀ first, old.firstUsage = some first → new.firstUsage = some first

theorem Extends.refl (session : Session) : Extends session session := ⟨fun _ h => h, fun _ h => h⟩

theorem Kept.extends {old new : Session} (h : Kept old new) : Extends old new := by
  obtain ⟨_, _, _, _, rfl, -⟩ := h
  exact ⟨fun _ h => h, fun _ h => h⟩

theorem StepOk.extends {old new : Session} {step : Step} (h : StepOk old step) (hext : Extends old new) :
    StepOk new step where
  turn hneeds := by
    obtain ⟨first, hfirst⟩ := Option.isSome_iff_exists.mp (h.turn hneeds)
    rw [hext.first first hfirst]
    rfl
  usage turnId usage hover := by
    obtain ⟨hmem, first, hfirst, hle⟩ := h.usage turnId usage hover
    exact ⟨hext.known usage hmem, first, hext.first first hfirst, hle⟩

variable {session : Session} {steps : List Step}

/-- Steps that write no baseline. -/
theorem stepsOk_of_first (hfirst : session.firstUsage.isSome = true) (h : ∀ step ∈ steps, step.overwrites = none) :
    ∀ step ∈ steps, StepOk session step := by
  intro step hstep
  refine ⟨fun _ => hfirst, fun turnId usage hover => ?_⟩
  rw [h step hstep] at hover
  cases hover

/-- Steps that write no baseline and belong to no turn. -/
theorem stepsOk_of_free (h : ∀ step ∈ steps, step.overwrites = none ∧ step.needsTurn = false) :
    ∀ step ∈ steps, StepOk session step := by
  intro step hstep
  obtain ⟨hover, hfree⟩ := h step hstep
  refine ⟨fun hneeds => ?_, fun turnId usage hover' => ?_⟩
  · rw [hfree] at hneeds
    cases hneeds
  · rw [hover] at hover'
    cases hover'

/-- A step keeps the invariant, and the steps that take its place are in order. -/
structure StepKeeps (old : Session) (result : Session × List Step) : Prop where
  inv : SessionInv result.1
  extends' : Extends old result.1
  steps : ∀ step ∈ result.2, StepOk result.1 step

theorem stepKeeps_of_kept {old new : Session} (h : SessionInv old) (hkept : Kept old new)
    (hsteps : ∀ step ∈ steps, StepOk old step) : StepKeeps old (new, steps) :=
  ⟨h.kept hkept, hkept.extends, fun step hstep => (hsteps step hstep).extends hkept.extends⟩

/-! ## The call that holds the permit -/

theorem moveAccounting_keeps (h : SessionInv session) {accounting : Accounting}
    (hpermit : session.permit = some accounting) (elapsed : Nat) :
    SessionInv { (session.moveAccounting elapsed accounting).1 with
        permit := (session.moveAccounting elapsed accounting).2 } ∧
      Extends session (session.moveAccounting elapsed accounting).1 := by
  have hok := h.permit _ hpermit
  have hgiven : ∀ {session : Session} (accounting : Accounting), none = some accounting →
      PermitOk session accounting := fun _ hnone => nomatch hnone
  cases accounting with
  | readUsage turn steering =>
      refine ⟨h.setPermit (not_awaitsMark hpermit (by simp)) ?_, Extends.refl _⟩
      rintro _ ⟨⟩
      exact ⟨held_usage h hok, h.above⟩
  | readBaseline turn steering current =>
      have hmark := not_awaitsMark hpermit (by simp)
      simp only [Session.moveAccounting]
      split
      · exact ⟨h.setPermit hmark hgiven, Extends.refl _⟩
      · rename_i snapshot hfilter
        obtain ⟨hsnapshot, hid⟩ := Option.filter_eq_some_iff.mp hfilter
        split
        · exact ⟨h.setPermit hmark hgiven, Extends.refl _⟩
        · rename_i goalId _
          split
          · exact ⟨h.setPermit hmark hgiven, Extends.refl _⟩
          · refine ⟨h.setPermit hmark ?_, Extends.refl _⟩
            rintro _ ⟨⟩
            exact permitOk_accountUsage h hpermit hsnapshot (of_decide_eq_true hid) elapsed (some goalId)
  | accountUsage turn steering progress =>
      simp only [Session.moveAccounting, Session.chargeUsage]
      cases hstmt : session.store.accountThreadGoalUsage progress.timeDeltaSeconds progress.tokenDelta .activeOnly
          progress.expectedGoalId with
      | mk store updated =>
          cases updated with
          | none =>
              have hkept := (Kept.refl h).setStore store
              refine ⟨(h.kept hkept).setPermit (not_awaitsMark hpermit (by simp)) ?_, hkept.extends⟩
              rintro _ ⟨⟩
              trivial
          | some goal => exact ⟨h.charged hpermit store goal.goalId goal.status, fun _ h => h, fun _ h => h⟩
  | markAccounted turn steering current status =>
      have hmarked := h.marked hpermit
      simp only [Session.moveAccounting]
      cases Session.clearsActiveGoal steering status with
      | false => exact ⟨hmarked, fun _ h => h, fun _ h => h⟩
      | true => exact ⟨hmarked.kept ((Kept.refl hmarked).clearActiveGoalAccounting turn), fun _ h => h, fun _ h => h⟩
  | readWallClock mode =>
      have hmark := not_awaitsMark hpermit (by simp)
      simp only [Session.moveAccounting]
      split
      · exact ⟨h.setPermit hmark hgiven, Extends.refl _⟩
      · refine ⟨h.setPermit hmark ?_, Extends.refl _⟩
        rintro _ ⟨⟩
        trivial
  | accountWallClock mode timeDeltaSeconds expectedGoalId =>
      have hkept := (Kept.refl h).setStore
        (session.store.accountThreadGoalUsage timeDeltaSeconds 0 mode expectedGoalId).1
      refine ⟨(h.kept hkept).setPermit (not_awaitsMark hpermit (by simp)) ?_, hkept.extends⟩
      rintro _ ⟨⟩
      trivial
  | markWallClock updated =>
      have hmark := not_awaitsMark hpermit (by simp)
      cases updated with
      | true => exact ⟨h.setPermit hmark hgiven, Extends.refl _⟩
      | false =>
          have hkept := (Kept.refl h).setWallClockGoal none
          exact ⟨(h.kept hkept).setPermit (not_awaitsMark hpermit (by simp)) hgiven, hkept.extends⟩
  | leaving => exact ⟨h.setPermit (not_awaitsMark hpermit (by simp)) hgiven, Extends.refl _⟩

/-! ## Other changes -/

/-- The baseline is overwritten with a usage that is not out of date. -/
theorem SessionInv.overwritten (h : SessionInv session) {turnId : TurnId} {usage : TokenUsage}
    (hheld : Held session usage) (hnot : NotBehind session turnId usage) (goalId : Option GoalId) :
    SessionInv (session.setTurn (some ⟨turnId, usage, goalId⟩)) := by
  refine ⟨h.chain, h.first_le, h.fits, h.metered, h.uncharged, h.above, h.begun, ?_, ?_⟩
  · rintro _ ⟨⟩
    exact ⟨hheld, .inl hnot.1⟩
  · intro accounting hpermit
    have hok := h.permit accounting hpermit
    cases accounting with
    | accountUsage turn steering progress =>
        obtain ⟨hsince, hsinceAbove, hcurrent, hcurrentAbove, hdelta, -⟩ := hok
        refine ⟨hsince, hsinceAbove, hcurrent, hcurrentAbove, hdelta, ?_⟩
        rintro _ ⟨⟩
        exact (hnot.2 _ hpermit _ rfl).imp_left Eq.symm
    | _ => exact hok

theorem not_held_of_none (hfirst : session.firstUsage = none) (usage : TokenUsage) : ¬ Held session usage := by
  rintro ⟨-, first, hsome, -⟩
  exact absurd (hfirst.symm.trans hsome) (by simp)

/-- Before the first turn start there is nothing to account for. -/
theorem SessionInv.firstRead (h : SessionInv session) (hfirst : session.firstUsage = none) :
    SessionInv { session with firstUsage := some session.usage } := by
  refine ⟨h.chain, ?_, ?_, ?_, ?_, h.above, fun _ => rfl, ?_, ?_⟩
  · rintro _ ⟨⟩
    exact le_rfl
  · rintro _ ⟨⟩
    simp only [sub_self]
    decide
  · rintro _ ⟨⟩
    rw [h.uncharged hfirst]
    exact Metered.nil weight_mono
  · rintro ⟨⟩
  · intro snapshot hsnapshot
    exact absurd (h.turn snapshot hsnapshot).1 (not_held_of_none hfirst _)
  · intro accounting hpermit
    have hok := h.permit accounting hpermit
    cases accounting with
    | readUsage turn steering => exact absurd hok (by simp [PermitOk, hfirst])
    | readBaseline turn steering current => exact absurd hok.1 (not_held_of_none hfirst _)
    | accountUsage turn steering progress => exact absurd hok.1 (not_held_of_none hfirst _)
    | markAccounted turn steering current status => exact absurd hok.1 (not_held_of_none hfirst _)
    | _ => exact hok

theorem SessionInv.recorded (h : SessionInv session) {response : ResponseUsage}
    (hfits : GrowthFits session (session.usage.addAssign response)) :
    SessionInv { session with usage := session.usage.addAssign response, past := session.usage :: session.past } := by
  have hgrows := le_addAssign session.usage response
  have hheld : ∀ usage, Held session usage →
      Held { session with usage := session.usage.addAssign response, past := session.usage :: session.past } usage :=
    fun usage hheld => ⟨List.mem_cons_of_mem _ hheld.1, hheld.2⟩
  refine ⟨?_, fun first hfirst => (h.first_le first hfirst).trans hgrows, hfits, h.metered, h.uncharged,
    h.above.trans hgrows, h.begun, ?_, ?_⟩
  · refine List.pairwise_cons.mpr ⟨fun earlier hearlier => ?_, h.chain⟩
    rcases List.mem_cons.mp hearlier with rfl | hpast
    · exact hgrows
    · exact ((List.pairwise_cons.mp h.chain).1 earlier hpast).trans hgrows
  · intro snapshot hsnapshot
    obtain ⟨hlast, habove⟩ := h.turn snapshot hsnapshot
    exact ⟨hheld _ hlast, habove⟩
  · intro accounting hpermit
    have hok := h.permit accounting hpermit
    cases accounting with
    | readBaseline turn steering current => exact ⟨hheld _ hok.1, hok.2⟩
    | accountUsage turn steering progress =>
        obtain ⟨hsince, hsinceAbove, hcurrent, hrest⟩ := hok
        exact ⟨hheld _ hsince, hsinceAbove, hheld _ hcurrent, hrest⟩
    | markAccounted turn steering current status => exact ⟨hheld _ hok.1, hok.2⟩
    | _ => exact hok

/-! ## Each step -/

theorem settle_ok (goal : ThreadGoal) {caller : Caller}
    (hfirst : ∀ turn replacing previous, caller = .tool turn replacing previous → session.firstUsage.isSome = true) :
    ∀ step ∈ settle goal caller, StepOk session step := by
  cases caller with
  | tool turn replacing previous =>
      refine stepsOk_of_first (hfirst turn replacing previous rfl) ?_
      simp only [settle]
      split
      · simp [Step.overwrites]
      · split <;> simp [Step.overwrites]
  | client =>
      refine stepsOk_of_free ?_
      simp only [settle]
      split <;> simp [Step.overwrites, Step.needsTurn]

theorem whenValid_mem {check : Except String Unit} {step : Step} (h : step ∈ whenValid session check steps) :
    step ∈ steps := by
  rw [whenValid] at h
  split at h
  · exact h
  · cases h

theorem toolSteps_overwrites {turn : TurnContext} {call : ToolCall} :
    ∀ step ∈ toolSteps session turn call, step.overwrites = none := by
  intro step hstep
  cases call with
  | completed updateGoalTool =>
      rw [toolSteps] at hstep
      split at hstep
      · cases hstep
      · rw [List.mem_singleton.mp hstep]
        rfl
  | completedGoal =>
      rw [List.mem_singleton.mp hstep]
      rfl
  | setThreadGoal request =>
      have hmem := whenValid_mem hstep
      simp only [List.mem_cons, List.not_mem_nil, or_false] at hmem
      rcases hmem with rfl | rfl <;> rfl
  | createThreadGoal objective tokenBudget =>
      have hmem := whenValid_mem hstep
      simp only [List.mem_cons, List.not_mem_nil, or_false] at hmem
      rcases hmem with rfl | rfl <;> rfl

theorem clientSteps_free {call : ClientCall} :
    ∀ step ∈ clientSteps session call, step.overwrites = none ∧ step.needsTurn = false := by
  intro step hstep
  cases call with
  | setGoal request =>
      have hmem := whenValid_mem hstep
      simp only [List.mem_cons, List.not_mem_nil, or_false] at hmem
      rcases hmem with rfl | rfl <;> exact ⟨rfl, rfl⟩
  | clearGoal =>
      have hmem := whenValid_mem hstep
      simp only [List.mem_cons, List.not_mem_nil, or_false] at hmem
      rcases hmem with rfl | rfl <;> exact ⟨rfl, rfl⟩

theorem readExistingGoal_overwrites {turn : TurnContext} {request : SetGoalRequest} :
    ∀ step ∈ readExistingGoal session turn request, step.overwrites = none := by
  simp only [readExistingGoal]
  split
  · split <;> simp [Step.overwrites]
  · simp [Step.overwrites]

theorem readGoalForClient_free {request : SetGoalRequest} :
    ∀ step ∈ readGoalForClient session request, step.overwrites = none ∧ step.needsTurn = false := by
  simp only [readGoalForClient]
  split
  · split <;> simp [Step.overwrites, Step.needsTurn]
  · simp [Step.overwrites, Step.needsTurn]

theorem markActiveGoalAccounting_some (session : Session) (goalId : GoalId) (turnId : TurnId) (usage : TokenUsage) :
    session.markActiveGoalAccounting goalId (some turnId) usage =
      (session.setTurn (some ⟨turnId, usage, some goalId⟩)).setWallClockGoal (some goalId) := by
  simp only [Session.markActiveGoalAccounting]
  cases session.accounting.turn with
  | none => rfl
  | some turn =>
      by_cases hid : turn.turnId = turnId
      · simp [hid, GoalTurnAccountingSnapshot.resetBaseline, GoalTurnAccountingSnapshot.markActiveGoal]
      · simp [hid, GoalTurnAccountingSnapshot.markActiveGoal]

theorem acquired (h : SessionInv session) (hfree : ¬ session.permit.isSome = true) {accounting : Accounting}
    (hok : PermitOk session accounting) :
    StepKeeps session ({ session with permit := some accounting }, [.withPermit]) := by
  have hnone : session.permit = none := by simpa using hfree
  refine ⟨h.setPermit (not_awaitsMark hnone (by simp)) ?_, ⟨fun _ h => h, fun _ h => h⟩, ?_⟩
  · rintro _ ⟨⟩
    exact hok
  · exact stepsOk_of_free (by simp [Step.overwrites, Step.needsTurn])

theorem exec_keeps (h : SessionInv session) {next : Step} (hok : StepOk session next) (elapsed : Nat)
    (hover : ∀ written ∈ next.overwrites, NotBehind session written.1 written.2)
    (hgrow : ∀ response ∈ next.recorded, GrowthFits session (session.usage.addAssign response)) :
    StepKeeps session (exec session elapsed next) := by
  have hrefl := Kept.refl h
  have hdone : ∀ step ∈ ([] : List Step), StepOk session step := by simp
  have hsame : ∀ steps : List Step, (∀ step ∈ steps, StepOk session step) → StepKeeps session (session, steps) :=
    fun steps hsteps => stepKeeps_of_kept h hrefl hsteps
  cases next with
  | readTurnUsage turn =>
      have hread : SessionInv { session with firstUsage := session.firstUsage.or (some session.usage) } ∧
          Extends session { session with firstUsage := session.firstUsage.or (some session.usage) } := by
        cases hfirst : session.firstUsage with
        | none => exact ⟨h.firstRead hfirst, fun _ h => h, by simp [hfirst]⟩
        | some first =>
            have hnew : { session with firstUsage := (some first).or (some session.usage) } = session := by
              rw [Option.some_or, ← hfirst]
            rw [hnew]
            exact ⟨h, Extends.refl session⟩
      have hsome : (session.firstUsage.or (some session.usage)).isSome = true := by simp
      refine ⟨hread.1, hread.2, ?_⟩
      intro step hstep
      simp only [exec, List.mem_cons, List.not_mem_nil, or_false] at hstep
      rcases hstep with rfl | rfl
      · refine ⟨fun hneeds => (nomatch hneeds), ?_⟩
        rintro _ _ ⟨⟩
        exact held_usage hread.1 hsome
      · exact ⟨fun _ => hsome, fun _ _ hnone => (nomatch hnone)⟩
  | markTurnStarted turn usage =>
      have hinv := h.overwritten (hok.usage _ _ rfl) (hover _ rfl) none
      refine ⟨hinv, ⟨fun _ h => h, fun _ h => h⟩, ?_⟩
      refine stepsOk_of_free ?_
      simp only [exec]
      split
      · split
        · simp [Step.overwrites, Step.needsTurn]
        · split <;> simp [Step.overwrites, Step.needsTurn]
      · simp
  | readTurnGoal turn =>
      simp only [exec]
      split
      · split
        · exact hsame _ (stepsOk_of_free (by simp [Step.overwrites, Step.needsTurn]))
        · exact hsame _ (stepsOk_of_free (by simp [Step.overwrites, Step.needsTurn]))
      · exact hsame _ (stepsOk_of_free (by simp [Step.overwrites, Step.needsTurn]))
  | markTurnGoal turn goalId =>
      refine stepKeeps_of_kept h (Kept.setWallClockGoal ?_ _) hdone
      exact hrefl.modifyTurn turn.subId (fun _ => rfl) (fun _ => rfl)
  | clearActiveGoal turn => exact stepKeeps_of_kept h (hrefl.clearActiveGoalAccounting turn) hdone
  | clearWallClock => exact stepKeeps_of_kept h (hrefl.setWallClockGoal none) hdone
  | activateTurn turn =>
      refine stepKeeps_of_kept h ⟨_, _, _, _, rfl, fun _ => hok.turn rfl, ?_⟩ hdone
      exact fun snapshot hsnapshot => ⟨snapshot, hsnapshot, rfl, rfl⟩
  | callTool turn call =>
      refine hsame _ ?_
      split
      · rename_i hstarted
        exact stepsOk_of_first (h.begun (.inl (List.ne_nil_of_mem hstarted))) toolSteps_overwrites
      · exact stepsOk_of_free (by simp [Step.overwrites, Step.needsTurn])
  | callClient call => exact hsame _ (stepsOk_of_free clientSteps_free)
  | accountProgress turn steering =>
      simp only [exec]
      split
      · exact hsame _ hdone
      · split
        · exact hsame _ (stepsOk_of_first (hok.turn rfl) (by simp [Step.overwrites]))
        · rename_i hfree
          exact acquired h hfree (hok.turn rfl)
  | accountWallClock mode =>
      simp only [exec]
      split
      · exact hsame _ (stepsOk_of_free (by simp [Step.overwrites, Step.needsTurn]))
      · rename_i hfree
        exact acquired h hfree trivial
  | withPermit =>
      simp only [exec]
      split
      · exact hsame _ hdone
      · rename_i accounting hpermit
        obtain ⟨hinv, hext⟩ := moveAccounting_keeps h hpermit elapsed
        refine ⟨hinv, ⟨hext.known, hext.first⟩, stepsOk_of_free ?_⟩
        split <;> simp [Step.overwrites, Step.needsTurn]
  | removeTurn turn =>
      simp only [exec]
      split
      · rename_i hactive
        have hne : session.activeTurn ≠ none := by
          intro hnone
          simp [hnone] at hactive
        exact stepKeeps_of_kept h hrefl.clearActive
          (stepsOk_of_first (h.begun (.inr hne)) (by simp [Step.overwrites]))
      · exact hsame _ hdone
  | takeTurn interrupted planMode =>
      simp only [exec]
      split
      · rename_i turn hactive
        refine stepKeeps_of_kept h hrefl.clearActive
          (stepsOk_of_first (h.begun (.inr (by simp [hactive]))) ?_)
        split <;> simp [Step.overwrites]
      · refine hsame _ (stepsOk_of_free ?_)
        split <;> simp [Step.overwrites, Step.needsTurn]
  | clearTurn turn =>
      refine stepKeeps_of_kept h (hrefl.setTurn fun snapshot hsnapshot => ?_) hdone
      exact ⟨snapshot, (Option.filter_eq_some_iff.mp hsnapshot).1, rfl, rfl⟩
  | pauseGoal =>
      refine stepKeeps_of_kept h (hrefl.setStore _) (stepsOk_of_free ?_)
      split <;> simp [Step.overwrites, Step.needsTurn]
  | readExistingGoal turn request =>
      exact hsame _ (stepsOk_of_first (hok.turn rfl) readExistingGoal_overwrites)
  | readGoalForClient request => exact hsame _ (stepsOk_of_free readGoalForClient_free)
  | updateGoal caller update =>
      have hread : StepOk session (.readUpdated caller) := by
        refine ⟨fun hneeds => ?_, fun _ _ hnone => (nomatch hnone)⟩
        cases caller with
        | tool turn replacing previous => exact hok.turn rfl
        | client => cases hneeds
      simp only [exec]
      generalize session.store.updateThreadGoal update = result
      obtain ⟨store, updated⟩ := result
      cases updated with
      | false => exact stepKeeps_of_kept h (hrefl.setStore store) hdone
      | true => exact stepKeeps_of_kept h (hrefl.setStore store) fun step hstep => List.mem_singleton.mp hstep ▸ hread
  | readUpdated caller =>
      simp only [exec]
      split
      · rename_i goal _
        refine hsame _ (settle_ok goal fun turn replacing previous hcaller => ?_)
        subst hcaller
        exact hok.turn rfl
      · exact hsame _ hdone
  | replaceGoal caller objective status tokenBudget =>
      refine stepKeeps_of_kept h (hrefl.setStore _) (settle_ok _ fun turn replacing previous hcaller => ?_)
      subst hcaller
      exact hok.turn rfl
  | insertGoal turn objective tokenBudget =>
      simp only [exec]
      split
      · exact stepKeeps_of_kept h (hrefl.setStore _) (stepsOk_of_first (hok.turn rfl) (by simp [Step.overwrites]))
      · exact stepKeeps_of_kept h (hrefl.setStore _) hdone
  | readMarkUsage goalId turnId =>
      refine hsame _ fun step hstep => ?_
      rw [List.mem_singleton.mp hstep]
      refine ⟨fun hneeds => (nomatch hneeds), ?_⟩
      cases turnId with
      | none => exact fun _ _ hnone => (nomatch hnone)
      | some turnId =>
          rintro _ _ ⟨⟩
          exact held_usage h (hok.turn rfl)
  | markActiveGoal goalId turnId usage =>
      cases turnId with
      | none => exact stepKeeps_of_kept h (hrefl.setWallClockGoal _) hdone
      | some turnId =>
          have hinv := h.overwritten (hok.usage _ _ rfl) (hover _ rfl) (some goalId)
          have hkept := (Kept.refl hinv).setWallClockGoal (some goalId)
          simp only [exec, markActiveGoalAccounting_some]
          exact ⟨hinv.kept hkept, ⟨fun _ h => h, fun _ h => h⟩, by simp⟩
  | prepareExternal =>
      simp only [exec]
      split
      · rename_i turn hactive
        exact hsame _ (stepsOk_of_first (h.begun (.inr (by simp [hactive]))) (by simp [Step.overwrites]))
      · refine hsame _ (stepsOk_of_free ?_)
        split <;> simp [Step.overwrites, Step.needsTurn]
  | readExternalGoal =>
      simp only [exec]
      split
      · refine hsame _ (stepsOk_of_free ?_)
        split <;> simp [Step.overwrites, Step.needsTurn]
      · exact hsame _ hdone
  | readActiveTurn goalId =>
      refine hsame _ ?_
      cases hactive : session.activeTurn with
      | none => exact stepsOk_of_free (by simp [Step.overwrites, Step.needsTurn])
      | some turn => exact stepsOk_of_first (h.begun (.inr (by simp [hactive]))) (by simp [Step.overwrites])
  | clearIfIdle =>
      refine hsame _ (stepsOk_of_free ?_)
      split <;> simp [Step.overwrites, Step.needsTurn]
  | clearStopped => exact stepKeeps_of_kept h hrefl.clearStopped hdone
  | deleteGoal =>
      refine stepKeeps_of_kept h (hrefl.setStore _) (stepsOk_of_free ?_)
      split <;> simp [Step.overwrites, Step.needsTurn]
  | recordUsage usage =>
      exact ⟨h.recorded (hgrow usage rfl), ⟨fun _ hmem => List.mem_cons_of_mem _ hmem, fun _ h => h⟩, by simp [exec]⟩

end Codrex.Goals
