import Codrex.ThreadHistory.Spec

/-!
# Items on their way to a turn
-/

namespace Codrex.ThreadHistory

open Text

/-! ## What events show -/

theorem eq_of_item_eq {ext : Externals} {event : EventMsg} {item : ThreadItem} (h : event.item ext = some item) :
    item.hasGeneratedId = false ∧ item.isHookPrompt = false := by
  have hguardian {assessment : GuardianAssessmentEvent} {status : CommandExecutionStatus}
      (h : buildItemFromGuardianEvent ext assessment status = some item) :
      item.hasGeneratedId = false ∧ item.isHookPrompt = false := by
    unfold buildItemFromGuardianEvent at h
    split at h
    all_goals simp only [Option.map_eq_some_iff, reduceCtorEq] at h
    all_goals obtain ⟨id, -, rfl⟩ := h; exact ⟨rfl, rfl⟩
  have hplan {item' : TurnItem} (h : item'.shown = some item) :
      item.hasGeneratedId = false ∧ item.isHookPrompt = false := by
    cases item' with
    | plan plan =>
        simp only [TurnItem.shown] at h
        split at h
        · cases h
        · cases h; exact ⟨rfl, rfl⟩
    | other => cases h
  cases event with
  | guardianAssessment payload =>
      obtain ⟨status, -, hbuild⟩ := Option.bind_eq_some_iff.1 h
      exact hguardian hbuild
  | itemStarted payload => exact hplan h
  | itemCompleted payload => exact hplan h
  | _ => cases h <;> exact ⟨rfl, rfl⟩

namespace ThreadHistoryBuilder

variable {ext : Externals} {fresh : Str} {builder : ThreadHistoryBuilder} {event : EventMsg} {item : ThreadItem}

/-- What an event with an item does. -/
def route (fresh : Str) (builder : ThreadHistoryBuilder) (turnId : Option Str) (item : ThreadItem) :
    ThreadHistoryBuilder :=
  match turnId with
  | some turnId => builder.upsertItemInTurnId turnId item
  | none => builder.upsertItemInCurrentTurn fresh item

theorem upsertItemInTurnOrCurrent_eq_route (fresh : Str) (builder : ThreadHistoryBuilder) (turnId : Str)
    (item : ThreadItem) :
    builder.upsertItemInTurnOrCurrent fresh turnId item =
      builder.route fresh (if turnId = [] then none else some turnId) item := by
  unfold upsertItemInTurnOrCurrent
  split <;> rfl

theorem handleItemStarted_eq (fresh : Str) (builder : ThreadHistoryBuilder) (payload : TurnItemEvent) :
    builder.handleItemStarted payload =
      match payload.item.shown with
      | some item => builder.route fresh (some payload.turnId) item
      | none => builder := by
  unfold handleItemStarted TurnItem.shown
  cases payload.item with
  | plan plan => by_cases htext : plan.text = [] <;> simp [htext, route]
  | other => rfl

theorem handleEvent_eq_route (h : event.item ext = some item) :
    builder.handleEvent ext fresh event = builder.route fresh event.turnId item := by
  cases event with
  | guardianAssessment payload =>
      obtain ⟨status, hstatus, hbuild⟩ := Option.bind_eq_some_iff.1 h
      simp only [handleEvent, handleGuardianAssessment, hstatus, hbuild]
      exact upsertItemInTurnOrCurrent_eq_route ..
  | itemStarted payload =>
      have h : payload.item.shown = some item := h
      exact (handleItemStarted_eq ..).trans (by rw [h]; rfl)
  | itemCompleted payload =>
      have h : payload.item.shown = some item := h
      exact (handleItemStarted_eq ..).trans (by rw [h]; rfl)
  | applyPatchApprovalRequest payload => cases h; exact upsertItemInTurnOrCurrent_eq_route ..
  | patchApplyBegin payload => cases h; exact upsertItemInTurnOrCurrent_eq_route ..
  | patchApplyEnd payload => cases h; exact upsertItemInTurnOrCurrent_eq_route ..
  | dynamicToolCallRequest payload => cases h; exact upsertItemInTurnOrCurrent_eq_route ..
  | dynamicToolCallResponse payload => cases h; exact upsertItemInTurnOrCurrent_eq_route ..
  | _ => cases h <;> rfl

/-- An event that names a turn but has no item to show changes nothing. -/
theorem handleEvent_eq_self {turnId : Str} (hturn : event.turnId = some turnId) (h : event.item ext = none) :
    builder.handleEvent ext fresh event = builder := by
  cases event with
  | guardianAssessment payload =>
      simp only [handleEvent, handleGuardianAssessment]
      split
      · rfl
      · next status hstatus =>
          have hbuild : buildItemFromGuardianEvent ext payload status = none := by
            simpa [EventMsg.item, hstatus] using h
          simp only [hbuild]
  | itemStarted payload =>
      have h : payload.item.shown = none := h
      exact (handleItemStarted_eq fresh ..).trans (by rw [h])
  | itemCompleted payload =>
      have h : payload.item.shown = none := h
      exact (handleItemStarted_eq fresh ..).trans (by rw [h])
  | _ => first | exact absurd h (Option.some_ne_none _) | exact absurd hturn.symm (Option.some_ne_none _)

/-! ## The turn with an id -/

theorem changesOnly_upsertTurnItem (items : List ThreadItem) (item : ThreadItem) :
    ChangesOnly item items (upsertTurnItem items item) := by
  unfold upsertTurnItem
  induction items with
  | nil => exact .inr ⟨by simp, rfl⟩
  | cons other items ih =>
      by_cases hid : other.id = item.id
      · exact .inl ⟨0, other, rfl, hid, by simp [Keyed.upsert, hid]⟩
      · simp only [Keyed.upsert, hid, if_false]
        rcases ih with ⟨position, same, hget, hsame, heq⟩ | ⟨hnone, heq⟩
        · exact .inl ⟨position + 1, same, by simpa using hget, hsame, by simp [heq]⟩
        · exact .inr ⟨by simpa [hid] using hnone, by simp [heq]⟩

theorem SameTurns.refl (builder : ThreadHistoryBuilder) : SameTurns builder builder := ⟨rfl, rfl, rfl⟩

theorem held_of_currentTurn {turn : PendingTurn} (h : builder.currentTurn = some turn) :
    builder.held = builder.turns ++ [turn.toTurn] := by
  simp [held, h]

theorem held_of_none (h : builder.currentTurn = none) : builder.held = builder.turns := by
  simp [held, h]

theorem updateTurn_cases (turns : List Turn) (turnId : Str) (f : Turn → Turn) :
    ((∀ turn ∈ turns, turn.id ≠ turnId) ∧ updateTurn turns turnId f = turns) ∨
    ∃ (position : Nat) (turn : Turn), turns[position]? = some turn ∧ turn.id = turnId ∧
      updateTurn turns turnId f = turns.set position (f turn) := by
  by_cases h : ∃ turn ∈ turns, turn.id = turnId
  · exact .inr (Keyed.update_eq_set f h)
  · push Not at h
    exact .inl ⟨h, Keyed.update_eq_self f h⟩

/-- Where the item goes: nowhere, or to one of the turns with the id. -/
theorem upsertItemInTurnId_cases (builder : ThreadHistoryBuilder) (turnId : Str) (item : ThreadItem) :
    ((∀ turn ∈ builder.held, turn.id ≠ turnId) ∧ builder.upsertItemInTurnId turnId item = builder) ∨
    ∃ (position : Nat) (turn : Turn), builder.held[position]? = some turn ∧ turn.id = turnId ∧
      (builder.upsertItemInTurnId turnId item).held =
        builder.held.set position { turn with items := upsertTurnItem turn.items item } := by
  cases hcurrent : builder.currentTurn with
  | none =>
      have hheld := held_of_none hcurrent
      simp only [upsertItemInTurnId, hcurrent]
      rcases updateTurn_cases builder.turns turnId fun turn =>
        { turn with items := upsertTurnItem turn.items item } with ⟨hnone, heq⟩ | ⟨position, turn, hget, hid, heq⟩
      · exact .inl ⟨hheld ▸ hnone, by rw [heq]; simp [← hcurrent]⟩
      · refine .inr ⟨position, turn, hheld ▸ hget, hid, ?_⟩
        rw [heq, hheld]
        simp [held]
  | some current =>
      have hheld := held_of_currentTurn hcurrent
      simp only [upsertItemInTurnId, hcurrent]
      by_cases hid : current.id = turnId
      · refine .inr ⟨builder.turns.length, current.toTurn, by simp [hheld], hid, ?_⟩
        rw [hheld]
        simp [held, hid]
      · simp only [hid, if_false]
        rcases updateTurn_cases builder.turns turnId fun turn =>
          { turn with items := upsertTurnItem turn.items item } with ⟨hnone, heq⟩ | ⟨position, turn, hget, hturn, heq⟩
        · refine .inl ⟨?_, by rw [heq]; simp [← hcurrent]⟩
          rw [hheld]
          simpa [or_imp, forall_and] using ⟨hnone, hid⟩
        · have hlt : position < builder.turns.length := (List.getElem?_eq_some_iff.1 hget).1
          refine .inr ⟨position, turn, ?_, hturn, ?_⟩
          · rw [hheld, List.getElem?_append_left hlt]
            exact hget
          · rw [heq, hheld, List.set_append_left _ _ hlt]
            simp [held]

theorem upsertItemInTurnId_rest (builder : ThreadHistoryBuilder) (turnId : Str) (item : ThreadItem) :
    (builder.upsertItemInTurnId turnId item).currentTurn.isSome = builder.currentTurn.isSome ∧
    (builder.upsertItemInTurnId turnId item).nextItemIndex = builder.nextItemIndex := by
  unfold upsertItemInTurnId
  cases builder.currentTurn with
  | none => exact ⟨rfl, rfl⟩
  | some turn => by_cases hid : turn.id = turnId <;> simp [hid]

/-- An event that names its turn goes there, wherever the turn is. -/
theorem handleEvent_routesTo {turnId : Str} (hturn : event.turnId = some turnId) :
    RoutesTo turnId (event.item ext) builder (builder.handleEvent ext fresh event) := by
  cases hitem : event.item ext with
  | none =>
      rw [handleEvent_eq_self hturn hitem]
      exact ⟨fun _ => SameTurns.refl builder, by simp, rfl, rfl⟩
  | some item =>
      have heq : builder.handleEvent ext fresh event = builder.upsertItemInTurnId turnId item := by
        rw [handleEvent_eq_route hitem, hturn]
        rfl
      obtain ⟨hopen, hnext⟩ := upsertItemInTurnId_rest builder turnId item
      rw [heq]
      rcases upsertItemInTurnId_cases builder turnId item with ⟨hnone, hsame⟩ | ⟨position, turn, hget, hid, hset⟩
      · refine ⟨fun _ => by rw [hsame]; exact SameTurns.refl builder, ?_, hopen, hnext⟩
        rintro _ - ⟨turn, hmem, hid⟩
        exact absurd hid (hnone turn hmem)
      · refine ⟨?_, ?_, hopen, hnext⟩
        · rintro (hnone | hnone)
          · cases hnone
          · exact absurd hid (hnone turn (List.mem_of_getElem? hget))
        · rintro shown hshown -
          obtain rfl : item = shown := by simpa using hshown
          exact ⟨position, turn, _, hget, hid, changesOnly_upsertTurnItem turn.items item, hset⟩

theorem shows_eq {input : Str × Input} {pair : Str × ThreadItem} (h : builder.shows ext input = some pair) :
    input.2.item ext = some pair.2 := by
  have hshownBy {fresh : Str} {builder : ThreadHistoryBuilder} {event : EventMsg}
      (h : builder.shownBy ext fresh event = some pair) : event.item ext = some pair.2 := by
    obtain ⟨item, hitem, rfl⟩ := Option.map_eq_some_iff.1 h
    exact hitem
  obtain ⟨fresh, input⟩ := input
  cases input with
  | event event => exact hshownBy h
  | rolloutItem item =>
      cases item with
      | eventMsg event => exact hshownBy h
      | _ => cases h

end ThreadHistoryBuilder

end Codrex.ThreadHistory
