import Codrex.Goals.Session

/-!
# The baseline and the charges

Only one accounting is under way at a time, so what it charges lies behind all that was charged before. This leaves
the baseline: it must not fall behind a charge.
-/

namespace Codrex.Goals

open Metering

/-! ## Usage -/

/-- The tokens of a usage that are charged for. -/
def TokenUsage.weight (usage : TokenUsage) : Int :=
  usage.inputTokens - usage.cachedInputTokens + usage.outputTokens

theorem weight_mono : Monotone TokenUsage.weight := by
  intro u v h
  obtain ⟨h1, h2, h3, h4, -⟩ := usage_le_iff.mp h
  simp only [TokenUsage.weight]
  omega

variable {current : TokenUsage} {session : Session}

/-- A charge for growth is at most its weight. -/
theorem delta_le {last : TokenUsage} (h : last ≤ current) :
    max (goalTokenDeltaForUsage (usageGrowth last current)) 0 ≤ current.weight - last.weight := by
  obtain ⟨h1, h2, h3, h4, -⟩ := usage_le_iff.mp h
  simp only [goalTokenDeltaForUsage, usageGrowth, TokenUsage.nonCachedInput, TokenUsage.cachedInput, saturatingAdd,
    saturatingSub, saturate, i64Max, TokenUsage.weight]
  omega

/-- Against the order nothing is charged. -/
theorem delta_nonpos {last : TokenUsage} (h : current ≤ last) :
    max (goalTokenDeltaForUsage (usageGrowth last current)) 0 ≤ 0 := by
  obtain ⟨h1, h2, h3, h4, -⟩ := usage_le_iff.mp h
  simp only [goalTokenDeltaForUsage, usageGrowth, TokenUsage.nonCachedInput, TokenUsage.cachedInput, saturatingAdd,
    saturatingSub, saturate, i64Max]
  omega

theorem delta_eq {last : TokenUsage} (h : last ≤ current)
    (hfits : current.inputTokens - last.inputTokens + (current.outputTokens - last.outputTokens) ≤ i64Max) :
    goalTokenDeltaForUsage (usageGrowth last current) = current.weight - last.weight := by
  obtain ⟨h1, h2, h3, h4, -⟩ := usage_le_iff.mp h
  simp only [goalTokenDeltaForUsage, usageGrowth, TokenUsage.nonCachedInput, TokenUsage.cachedInput, saturatingAdd,
    saturatingSub, saturate, i64Max, TokenUsage.weight] at hfits ⊢
  omega

theorem le_addAssign (usage : TokenUsage) (response : ResponseUsage) : usage ≤ usage.addAssign response := by
  have := response.cached_le
  rw [usage_le_iff]
  simp only [TokenUsage.addAssign]
  omega

/-! ## The invariant -/

/-- The usage has been read, and not before the first turn start. -/
def Held (session : Session) (usage : TokenUsage) : Prop :=
  usage ∈ session.usage :: session.past ∧ ∃ first, session.firstUsage = some first ∧ first ≤ usage

/-- What is known of the call that holds the permit. -/
def PermitOk (session : Session) : Accounting → Prop
  | .readUsage _ _ => session.firstUsage.isSome = true
  | .readBaseline _ _ current => Held session current ∧ Above session.charges current
  | .accountUsage turn _ progress =>
      Held session progress.since ∧ Above session.charges progress.since ∧
      Held session progress.current ∧ Above session.charges progress.current ∧
      progress.tokenDelta = goalTokenDeltaForUsage (usageGrowth progress.since progress.current) ∧
      ∀ snapshot, session.accounting.turn = some snapshot →
        snapshot.turnId = turn.subId ∨ progress.current ≤ snapshot.lastAccountedTokenUsage
  | .markAccounted _ _ current _ => Held session current ∧ Above session.charges current
  | .readWallClock _ => True
  | .accountWallClock _ _ _ => True
  | .markWallClock _ => True
  | .leaving => True

/-- The baseline of the turn is about to be marked by the call that holds the permit. -/
def AwaitsMark (session : Session) (turnId : TurnId) : Prop :=
  ∃ turn steering current status, session.permit = some (.markAccounted turn steering current status) ∧
    turn.subId = turnId

structure SessionInv (session : Session) : Prop where
  chain : (session.usage :: session.past).Pairwise fun later earlier => earlier ≤ later
  first_le : ∀ first, session.firstUsage = some first → first ≤ session.usage
  fits : GrowthFits session session.usage
  metered : ∀ first, session.firstUsage = some first → Metered TokenUsage.weight first session.charges
  uncharged : session.firstUsage = none → session.charges = []
  above : Above session.charges session.usage
  begun : session.started ≠ [] ∨ session.activeTurn ≠ none → session.firstUsage.isSome = true
  turn : ∀ snapshot, session.accounting.turn = some snapshot →
    Held session snapshot.lastAccountedTokenUsage ∧
      (Above session.charges snapshot.lastAccountedTokenUsage ∨ AwaitsMark session snapshot.turnId)
  permit : ∀ accounting, session.permit = some accounting → PermitOk session accounting

/-! ## Changes that keep the baseline -/

/-- The change leaves the usage, the charges and the permit, and the snapshot of a turn keeps its baseline. -/
def Kept (old new : Session) : Prop :=
  ∃ store accounting activeTurn started,
    new = { old with store := store, accounting := accounting, activeTurn := activeTurn, started := started } ∧
    (started ≠ [] ∨ activeTurn ≠ none → old.firstUsage.isSome = true) ∧
    ∀ snapshot, accounting.turn = some snapshot → ∃ before, old.accounting.turn = some before ∧
      before.turnId = snapshot.turnId ∧ before.lastAccountedTokenUsage = snapshot.lastAccountedTokenUsage

namespace Kept

variable {old new : Session}

theorem refl (h : SessionInv old) : Kept old old :=
  ⟨_, _, _, _, rfl, h.begun, fun snapshot hsnapshot => ⟨snapshot, hsnapshot, rfl, rfl⟩⟩

theorem setStore (h : Kept old new) (store : Store) : Kept old { new with store := store } := by
  obtain ⟨_, accounting, activeTurn, started, rfl, hbegun, hturn⟩ := h
  exact ⟨store, accounting, activeTurn, started, rfl, hbegun, hturn⟩

theorem setWallClockGoal (h : Kept old new) (goalId : Option GoalId) : Kept old (new.setWallClockGoal goalId) := by
  obtain ⟨store, accounting, activeTurn, started, rfl, hbegun, hturn⟩ := h
  exact ⟨store, { accounting with wallClockGoalId := goalId }, activeTurn, started, rfl, hbegun, hturn⟩

theorem clearActive (h : Kept old new) : Kept old { new with activeTurn := none } := by
  obtain ⟨store, accounting, activeTurn, started, rfl, hbegun, hturn⟩ := h
  refine ⟨store, accounting, none, started, rfl, fun hnew => hbegun (.inl ?_), hturn⟩
  exact hnew.resolve_right (fun hne => hne rfl)

/-- A snapshot is kept, dropped, or replaced by one with the same turn and the same baseline. -/
theorem setTurn (h : Kept old new) {turn : Option GoalTurnAccountingSnapshot}
    (hturn : ∀ snapshot, turn = some snapshot → ∃ before, new.accounting.turn = some before ∧
      before.turnId = snapshot.turnId ∧ before.lastAccountedTokenUsage = snapshot.lastAccountedTokenUsage) :
    Kept old (new.setTurn turn) := by
  obtain ⟨store, accounting, activeTurn, started, rfl, hbegun, hold⟩ := h
  refine ⟨store, { accounting with turn := turn }, activeTurn, started, rfl, hbegun, ?_⟩
  intro snapshot hsnapshot
  obtain ⟨middle, hmiddle, hid, hlast⟩ := hturn snapshot hsnapshot
  obtain ⟨before, hbefore, hid', hlast'⟩ := hold middle hmiddle
  exact ⟨before, hbefore, hid'.trans hid, hlast'.trans hlast⟩

theorem mapTurn (h : Kept old new) {f : GoalTurnAccountingSnapshot → GoalTurnAccountingSnapshot}
    (hid : ∀ snapshot, (f snapshot).turnId = snapshot.turnId)
    (hlast : ∀ snapshot, (f snapshot).lastAccountedTokenUsage = snapshot.lastAccountedTokenUsage) :
    Kept old (new.setTurn (new.accounting.turn.map f)) := by
  refine h.setTurn fun snapshot hsnapshot => ?_
  obtain ⟨before, hbefore, rfl⟩ := Option.map_eq_some_iff.mp hsnapshot
  exact ⟨before, hbefore, (hid before).symm, (hlast before).symm⟩

theorem modifyTurn (h : Kept old new) (turnId : TurnId)
    {f : GoalTurnAccountingSnapshot → GoalTurnAccountingSnapshot}
    (hid : ∀ snapshot, (f snapshot).turnId = snapshot.turnId)
    (hlast : ∀ snapshot, (f snapshot).lastAccountedTokenUsage = snapshot.lastAccountedTokenUsage) :
    Kept old (new.modifyTurn turnId f) := by
  refine h.mapTurn (fun snapshot => ?_) (fun snapshot => ?_)
  · split
    · exact hid snapshot
    · rfl
  · split
    · exact hlast snapshot
    · rfl

theorem clearActiveGoalAccounting (h : Kept old new) (turn : TurnContext) :
    Kept old (new.clearActiveGoalAccounting turn) := by
  refine Kept.setWallClockGoal ?_ none
  exact h.modifyTurn turn.subId (fun _ => rfl) (fun _ => rfl)

theorem clearStopped (h : Kept old new) : Kept old new.clearStoppedThreadGoalRuntimeState := by
  refine Kept.setWallClockGoal ?_ none
  exact h.mapTurn (fun _ => rfl) (fun _ => rfl)

end Kept

theorem PermitOk.kept {old new : Session} {accounting : Accounting} (h : PermitOk old accounting)
    (hkept : Kept old new) : PermitOk new accounting := by
  obtain ⟨_, _, _, _, rfl, -, hturn⟩ := hkept
  cases accounting with
  | accountUsage turn steering progress =>
      obtain ⟨hsince, hsinceAbove, hcurrent, hcurrentAbove, hdelta, hsnapshot⟩ := h
      refine ⟨hsince, hsinceAbove, hcurrent, hcurrentAbove, hdelta, ?_⟩
      intro snapshot hnew
      obtain ⟨before, hbefore, hid, hlast⟩ := hturn snapshot hnew
      rw [← hid, ← hlast]
      exact hsnapshot before hbefore
  | _ => exact h

theorem SessionInv.kept {old new : Session} (h : SessionInv old) (hkept : Kept old new) : SessionInv new := by
  have hpermit : ∀ accounting, new.permit = some accounting → PermitOk new accounting := by
    intro accounting haccounting
    have hsame : new.permit = old.permit := by
      obtain ⟨_, _, _, _, rfl, -⟩ := hkept
      rfl
    exact (h.permit accounting (hsame ▸ haccounting)).kept hkept
  obtain ⟨_, _, _, _, rfl, hbegun, hturn⟩ := hkept
  refine ⟨h.chain, h.first_le, h.fits, h.metered, h.uncharged, h.above, hbegun, ?_, hpermit⟩
  intro snapshot hsnapshot
  obtain ⟨before, hbefore, hid, hlast⟩ := hturn snapshot hsnapshot
  rw [← hid, ← hlast]
  exact h.turn before hbefore

/-! ## The call that holds the permit -/

/-- No mark is outstanding, so the baseline lies behind no charge. -/
theorem SessionInv.baseline_above (h : SessionInv session) (hmark : ∀ turnId, ¬ AwaitsMark session turnId)
    {snapshot : GoalTurnAccountingSnapshot} (hsnapshot : session.accounting.turn = some snapshot) :
    Held session snapshot.lastAccountedTokenUsage ∧ Above session.charges snapshot.lastAccountedTokenUsage := by
  obtain ⟨hheld, habove⟩ := h.turn snapshot hsnapshot
  exact ⟨hheld, habove.resolve_right (hmark _)⟩

theorem SessionInv.setPermit (h : SessionInv session) (hmark : ∀ turnId, ¬ AwaitsMark session turnId)
    {permit : Option Accounting} (hpermit : ∀ accounting, permit = some accounting → PermitOk session accounting) :
    SessionInv { session with permit := permit } := by
  refine ⟨h.chain, h.first_le, h.fits, h.metered, h.uncharged, h.above, h.begun, ?_, hpermit⟩
  intro snapshot hsnapshot
  obtain ⟨hheld, habove⟩ := h.baseline_above hmark hsnapshot
  exact ⟨hheld, .inl habove⟩

theorem not_awaitsMark {permit : Option Accounting} (hpermit : session.permit = permit)
    (hmark : ∀ turn steering current status, permit ≠ some (.markAccounted turn steering current status))
    (turnId : TurnId) : ¬ AwaitsMark session turnId := by
  rintro ⟨turn, steering, current, status, heq, -⟩
  exact hmark turn steering current status (hpermit.symm.trans heq)

theorem held_usage (h : SessionInv session) (hfirst : session.firstUsage.isSome = true) :
    Held session session.usage := by
  obtain ⟨first, hfirst⟩ := Option.isSome_iff_exists.mp hfirst
  exact ⟨List.mem_cons_self, first, hfirst, h.first_le first hfirst⟩

/-- An accounting reads the baseline of its own turn. -/
theorem permitOk_accountUsage (h : SessionInv session) {turn : TurnContext} {steering : BudgetLimitSteering}
    (hpermit : session.permit = some (.readBaseline turn steering current)) {snapshot : GoalTurnAccountingSnapshot}
    (hsnapshot : session.accounting.turn = some snapshot) (hid : snapshot.turnId = turn.subId) (elapsed : Int)
    (expected : Option GoalId) :
    PermitOk session (.accountUsage turn steering ⟨snapshot.lastAccountedTokenUsage, current,
      snapshot.tokenDeltaSinceLastAccounting current, elapsed, expected⟩) := by
  have hmark := not_awaitsMark hpermit (by simp)
  obtain ⟨hsince, hsinceAbove⟩ := h.baseline_above hmark hsnapshot
  obtain ⟨hcurrent, hcurrentAbove⟩ := h.permit _ hpermit
  refine ⟨hsince, hsinceAbove, hcurrent, hcurrentAbove, rfl, ?_⟩
  intro other hother
  rw [hsnapshot] at hother
  cases hother
  exact .inl hid

/-- The statement of an accounting. What it charges lies behind all that was charged before. -/
theorem SessionInv.charged (h : SessionInv session) {turn : TurnContext} {steering : BudgetLimitSteering}
    {progress : Progress} (hpermit : session.permit = some (.accountUsage turn steering progress)) (store : Store)
    (goalId : GoalId) (status : ThreadGoalStatus) :
    SessionInv { session with
      store := store
      charges := session.charges ++ [⟨goalId, progress.since, progress.current, max progress.tokenDelta 0⟩]
      permit := some (.markAccounted turn steering progress.current status) } := by
  obtain ⟨hsince, hsinceAbove, hcurrent, hcurrentAbove, hdelta, hsnapshot⟩ := h.permit _ hpermit
  obtain ⟨hsinceMem, first, hfirst, hfirstSince⟩ := hsince
  have hmark := not_awaitsMark hpermit (by simp)
  refine ⟨h.chain, h.first_le, h.fits, ?_, ?_, ?_, h.begun, ?_, ?_⟩
  · intro other hother
    obtain rfl : first = other := Option.some.inj (hfirst.symm.trans hother)
    refine (h.metered first hfirst).concat weight_mono hsinceAbove hfirstSince ?_
    rw [hdelta]
    rcases comparable h.chain hsinceMem hcurrent.1 with hle | hle
    · exact .inl ⟨hle, delta_le hle⟩
    · exact .inr (delta_nonpos hle)
  · intro hnone
    exact absurd (hfirst.symm.trans hnone) (by simp)
  · refine above_concat.mpr ⟨h.above, ?_⟩
    rcases List.mem_cons.mp hcurrent.1 with heq | hpast
    · exact le_of_eq heq
    · exact (List.pairwise_cons.mp h.chain).1 _ hpast
  · intro snapshot hturn
    obtain ⟨hheld, habove⟩ := h.baseline_above hmark hturn
    refine ⟨hheld, ?_⟩
    rcases hsnapshot snapshot hturn with hid | hle
    · exact .inr ⟨turn, steering, progress.current, status, rfl, hid.symm⟩
    · exact .inl (above_concat.mpr ⟨habove, hle⟩)
  · intro accounting haccounting
    obtain rfl := Option.some.inj haccounting
    exact ⟨hcurrent, above_concat.mpr ⟨hcurrentAbove, le_rfl⟩⟩

/-- The baseline of the turn moves to what has been charged. -/
theorem SessionInv.marked (h : SessionInv session) {turn : TurnContext} {steering : BudgetLimitSteering}
    {status : ThreadGoalStatus} (hpermit : session.permit = some (.markAccounted turn steering current status)) :
    SessionInv { session.modifyTurn turn.subId (·.markAccounted current) with permit := some .leaving } := by
  obtain ⟨hcurrent, hcurrentAbove⟩ := h.permit _ hpermit
  refine ⟨h.chain, h.first_le, h.fits, h.metered, h.uncharged, h.above, h.begun, ?_, ?_⟩
  · intro snapshot hsnapshot
    obtain ⟨before, hbefore, rfl⟩ := Option.map_eq_some_iff.mp hsnapshot
    split
    · exact ⟨hcurrent, .inl hcurrentAbove⟩
    · rename_i hid
      obtain ⟨hheld, habove⟩ := h.turn before hbefore
      refine ⟨hheld, .inl (habove.resolve_right ?_)⟩
      rintro ⟨turn', _, _, _, heq, hid'⟩
      rw [hpermit] at heq
      cases heq
      exact hid hid'.symm
  · intro accounting haccounting
    obtain rfl := Option.some.inj haccounting
    trivial

end Codrex.Goals
