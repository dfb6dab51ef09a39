import Codrex.ThreadHistory.Lemmas.Routes

/-!
# What an input does to the turns

Every input opens a turn, changes the items of one, or takes turns away. An implicit turn that is open is never empty,
so that finishing a turn loses nothing.
-/

namespace Codrex.ThreadHistory.ThreadHistoryBuilder

open Text

variable {ext : Externals} {fresh : Str} {builder after : ThreadHistoryBuilder}

/-- The open turn has an item, or stays without one. -/
def WellOpened (builder : ThreadHistoryBuilder) : Prop :=
  ∀ turn ∈ builder.currentTurn, turn.items ≠ [] ∨ turn.openedExplicitly = true ∨ turn.sawCompaction = true

/-- The items of every turn, under its id. -/
def columns (builder : ThreadHistoryBuilder) : List (Str × List ThreadItem) :=
  builder.held.map fun turn => (turn.id, turn.items)

/-- `items` are those of the turn with the id behind `front`, which may not be there yet. -/
def HasColumn (builder : ThreadHistoryBuilder) (front : List (Str × List ThreadItem)) (id : Str)
    (items : List ThreadItem) (rest : List (Str × List ThreadItem)) : Prop :=
  builder.columns = front ++ (id, items) :: rest ∨ (builder.columns = front ∧ items = [] ∧ rest = [])

inductive Effect (shown : Option (Str × ThreadItem)) (before after : ThreadHistoryBuilder) : Prop
  | same (hcolumns : after.columns = before.columns) (hnext : after.nextItemIndex = before.nextItemIndex)
  | started (turnId : Str) (hcolumns : after.columns = before.columns ++ [(turnId, [])])
      (hnext : after.nextItemIndex = before.nextItemIndex)
  | upserted {front : List (Str × List ThreadItem)} {id : Str} {items : List ThreadItem}
      {rest : List (Str × List ThreadItem)} {item : ThreadItem} (hshown : shown = some (id, item))
      (hcolumn : before.HasColumn front id items rest)
      (hcolumns : after.columns = front ++ (id, upsertTurnItem items item) :: rest)
      (hnext : after.nextItemIndex = before.nextItemIndex)
  | numbered {front : List (Str × List ThreadItem)} {id : Str} {items : List ThreadItem} {item : ThreadItem}
      (hgenerated : item.hasGeneratedId = true) (hid : item.id = itemId before.nextItemIndex)
      (hcolumn : before.HasColumn front id items []) (hcolumns : after.columns = front ++ [(id, items ++ [item])])
      (hnext : after.nextItemIndex = before.nextItemIndex + 1)
  | prompted {front : List (Str × List ThreadItem)} {id : Str} {items : List ThreadItem} {item : ThreadItem}
      (hprompt : item.isHookPrompt = true) (hcolumn : before.HasColumn front id items [])
      (hcolumns : after.columns = front ++ [(id, items ++ [item])])
      (hnext : after.nextItemIndex = before.nextItemIndex)
  | extended {front : List (Str × List ThreadItem)} {id : Str} {items : List ThreadItem} {reasoningId : Str}
      {summary content summary' content' : List Str}
      (hcolumn : before.columns = front ++ [(id, items ++ [.reasoning reasoningId summary content])])
      (hcolumns : after.columns = front ++ [(id, items ++ [.reasoning reasoningId summary' content'])])
      (hnext : after.nextItemIndex = before.nextItemIndex)
  | compacted {front : List (Str × List ThreadItem)} {id : Str} {items : List ThreadItem}
      (hcolumn : before.HasColumn front id items []) (hcolumns : after.columns = front ++ [(id, items)])
      (hnext : after.nextItemIndex = before.nextItemIndex)
  | cut (left : Nat) (hcolumns : after.columns = before.columns.take left)
      (hnext : after.nextItemIndex = (after.columns.map Prod.snd).flatten.length + 1)

theorem Effect.congr {shown : Option (Str × ThreadItem)} {before other : ThreadHistoryBuilder}
    (h : Effect shown before after) (hcolumns : before.columns = other.columns)
    (hnext : before.nextItemIndex = other.nextItemIndex) : Effect shown other after := by
  cases h with
  | same hafter hindex => exact .same (hafter.trans hcolumns) (hindex.trans hnext)
  | started turnId hafter hindex => exact .started turnId (by rw [hafter, hcolumns]) (hindex.trans hnext)
  | upserted hshown hcolumn hafter hindex =>
      exact .upserted hshown (by rwa [HasColumn, ← hcolumns]) hafter (hindex.trans hnext)
  | numbered hgenerated hid hcolumn hafter hindex =>
      exact .numbered hgenerated (hnext ▸ hid) (by rwa [HasColumn, ← hcolumns]) hafter (by rw [hindex, hnext])
  | prompted hprompt hcolumn hafter hindex =>
      exact .prompted hprompt (by rwa [HasColumn, ← hcolumns]) hafter (hindex.trans hnext)
  | extended hcolumn hafter hindex => exact .extended (hcolumns.symm.trans hcolumn) hafter (hindex.trans hnext)
  | compacted hcolumn hafter hindex =>
      exact .compacted (by rwa [HasColumn, ← hcolumns]) hafter (hindex.trans hnext)
  | cut left hafter hindex => exact .cut left (by rw [hafter, hcolumns]) hindex

/-! ## Finishing a turn -/

theorem columns_of_currentTurn {turn : PendingTurn} (h : builder.currentTurn = some turn) :
    builder.columns = (builder.turns.map fun turn => (turn.id, turn.items)) ++ [(turn.id, turn.items)] := by
  simp [columns, held_of_currentTurn h]

theorem finishCurrentTurn_eq (h : builder.WellOpened) :
    builder.finishCurrentTurn = { builder with turns := builder.held, currentTurn := none } := by
  cases hcurrent : builder.currentTurn with
  | none =>
      have hself : builder = { builder with currentTurn := none } := by rw [← hcurrent]
      simpa [finishCurrentTurn, hcurrent, held] using hself
  | some turn =>
      have hkept : (turn.items.isEmpty && !turn.openedExplicitly && !turn.sawCompaction) = false := by
        rcases h turn hcurrent with hitems | hexplicit | hcompaction <;> simp [*]
      simp [finishCurrentTurn, hcurrent, hkept, held]

theorem finishCurrentTurn_held (h : builder.WellOpened) : builder.finishCurrentTurn.held = builder.held := by
  rw [finishCurrentTurn_eq h]
  simp [held]

theorem finishCurrentTurn_columns (h : builder.WellOpened) : builder.finishCurrentTurn.columns = builder.columns := by
  simp only [columns, finishCurrentTurn_held h]

/-! ## Changes of the open turn -/

theorem withTurn_columns (fresh : Str) (builder : ThreadHistoryBuilder) (f : PendingTurn → PendingTurn) :
    ∃ front, builder.HasColumn front (builder.ensureTurn fresh).id (builder.ensureTurn fresh).items [] ∧
      (builder.withTurn fresh f).columns =
        front ++ [((f (builder.ensureTurn fresh)).id, (f (builder.ensureTurn fresh)).items)] := by
  refine ⟨builder.turns.map fun turn => (turn.id, turn.items), ?_, by simp [withTurn, columns, held]⟩
  cases hcurrent : builder.currentTurn with
  | none => exact .inr ⟨by simp [columns, held_of_none hcurrent], by simp [ensureTurn, hcurrent, newTurn], rfl⟩
  | some turn =>
      refine .inl ?_
      rw [columns_of_currentTurn hcurrent]
      simp [ensureTurn, hcurrent]

theorem pushNumbered_effect (shown : Option (Str × ThreadItem)) {item : Str → ThreadItem}
    (hgenerated : ∀ id, (item id).hasGeneratedId = true) (hid : ∀ id, (item id).id = id) :
    (builder.pushNumbered fresh item).WellOpened ∧ Effect shown builder (builder.pushNumbered fresh item) := by
  constructor
  · intro turn hturn
    obtain rfl : pushItem (item (itemId builder.nextItemIndex)) (builder.ensureTurn fresh) = turn := by
      simpa [pushNumbered, withTurn] using hturn
    exact .inl (by simp [pushItem])
  · obtain ⟨front, hcolumn, hcolumns⟩ :=
      withTurn_columns fresh builder (pushItem (item (itemId builder.nextItemIndex)))
    exact .numbered (hgenerated _) (hid _) hcolumn hcolumns rfl

theorem ensureTurn_of_getLast? {item : ThreadItem} (h : (builder.ensureTurn fresh).items.getLast? = some item) :
    ∃ turn, builder.currentTurn = some turn ∧ builder.ensureTurn fresh = turn := by
  cases hcurrent : builder.currentTurn with
  | none => simp [ensureTurn, hcurrent, newTurn] at h
  | some turn => exact ⟨turn, rfl, by simp [ensureTurn, hcurrent]⟩

theorem handleHookPrompt_effect (shown : Option (Str × ThreadItem)) (id : Str) (fragments : List HookPromptFragment) :
    (builder.withTurn fresh (pushItem (.hookPrompt id fragments))).WellOpened ∧
      Effect shown builder (builder.withTurn fresh (pushItem (.hookPrompt id fragments))) := by
  constructor
  · intro turn hturn
    obtain rfl := Option.some.inj hturn
    exact .inl (by simp [pushItem])
  · obtain ⟨front, hcolumn, hcolumns⟩ := withTurn_columns fresh builder (pushItem (.hookPrompt id fragments))
    exact .prompted rfl hcolumn hcolumns rfl

theorem handleCompacted_effect (shown : Option (Str × ThreadItem)) (fresh : Str) (builder : ThreadHistoryBuilder) :
    (builder.handleCompacted fresh).WellOpened ∧ Effect shown builder (builder.handleCompacted fresh) := by
  constructor
  · intro turn hturn
    obtain rfl := Option.some.inj hturn
    exact .inr (.inr rfl)
  · obtain ⟨front, hcolumn, hcolumns⟩ := withTurn_columns fresh builder fun turn => { turn with sawCompaction := true }
    exact .compacted hcolumn hcolumns rfl

/-- An implicit turn may be finished first, which changes no column. -/
theorem handleUserMessage_effect (shown : Option (Str × ThreadItem)) (h : builder.WellOpened)
    (payload : UserMessageEvent) :
    (builder.handleUserMessage fresh payload).WellOpened ∧
      Effect shown builder (builder.handleUserMessage fresh payload) := by
  have hpush (other : ThreadHistoryBuilder) :
      (other.pushNumbered fresh fun id => .userMessage id (buildUserInputs payload)).WellOpened ∧
        Effect shown other (other.pushNumbered fresh fun id => .userMessage id (buildUserInputs payload)) :=
    pushNumbered_effect shown (fun _ => rfl) fun _ => rfl
  unfold handleUserMessage
  split
  · split
    · obtain ⟨hopened, heffect⟩ := hpush builder.finishCurrentTurn
      refine ⟨hopened, heffect.congr (finishCurrentTurn_columns h) ?_⟩
      rw [finishCurrentTurn_eq h]
    · exact hpush builder
  · exact hpush builder

theorem handleReasoning_effect (shown : Option (Str × ThreadItem)) (h : builder.WellOpened) (text : Str)
    (extend : List Str × List Str → List Str × List Str) :
    (builder.handleReasoning fresh text extend).WellOpened ∧
      Effect shown builder (builder.handleReasoning fresh text extend) := by
  unfold handleReasoning
  split
  · exact ⟨h, .same rfl rfl⟩
  · split
    · next id summary content hlast =>
        obtain ⟨turn, hcurrent, hensure⟩ := ensureTurn_of_getLast? hlast
        obtain ⟨items, hitems⟩ := List.getLast?_eq_some_iff.1 (hensure ▸ hlast)
        constructor
        · intro extended hextended
          obtain rfl := Option.some.inj hextended
          exact .inl (by simp)
        · have hcolumn := columns_of_currentTurn hcurrent
          rw [hitems] at hcolumn
          obtain ⟨summary', content'⟩ := extend (summary, content)
          have hcolumns : (builder.withTurn fresh fun turn =>
              { turn with items := turn.items.dropLast ++ [.reasoning id summary' content'] }).columns =
              (builder.turns.map fun turn => (turn.id, turn.items)) ++
                [(turn.id, items ++ [.reasoning id summary' content'])] := by
            simp [withTurn, hensure, columns, held, hitems]
          exact .extended hcolumn hcolumns rfl
    · exact pushNumbered_effect shown (fun _ => rfl) fun _ => rfl

theorem upsertItemInCurrentTurn_effect (fresh : Str) (builder : ThreadHistoryBuilder) (item : ThreadItem) :
    (builder.upsertItemInCurrentTurn fresh item).WellOpened ∧
      Effect (some ((builder.ensureTurn fresh).id, item)) builder (builder.upsertItemInCurrentTurn fresh item) := by
  constructor
  · intro turn hturn
    obtain rfl := Option.some.inj hturn
    exact .inl (Keyed.upsert_ne_nil item _)
  · obtain ⟨front, hcolumn, hcolumns⟩ := withTurn_columns fresh builder fun turn =>
      { turn with items := upsertTurnItem turn.items item }
    exact .upserted rfl hcolumn hcolumns rfl

/-! ## Changes of a turn that is named -/

theorem columns_set {position : Nat} {turn : Turn} {items : List ThreadItem}
    (hget : builder.held[position]? = some turn)
    (hset : after.held = builder.held.set position { turn with items := items }) :
    ∃ front rest, builder.columns = front ++ (turn.id, turn.items) :: rest ∧
      after.columns = front ++ (turn.id, items) :: rest := by
  obtain ⟨hlt, hturn⟩ := List.getElem?_eq_some_iff.1 hget
  refine ⟨(builder.held.take position).map fun turn => (turn.id, turn.items),
    (builder.held.drop (position + 1)).map fun turn => (turn.id, turn.items), ?_, ?_⟩
  · rw [columns, ← hturn, ← List.map_cons (f := fun turn : Turn => (turn.id, turn.items)), ← List.map_append,
      List.getElem_cons_drop, List.take_append_drop]
  · rw [columns, hset, List.set_eq_take_append_cons_drop, if_pos hlt]
    simp

theorem upsertItemInTurnId_wellOpened (h : builder.WellOpened) (turnId : Str) (item : ThreadItem) :
    (builder.upsertItemInTurnId turnId item).WellOpened := by
  unfold upsertItemInTurnId
  cases hcurrent : builder.currentTurn with
  | none => intro turn hturn; simp at hturn
  | some current =>
      by_cases hid : current.id = turnId
      · intro turn hturn
        obtain rfl := Option.some.inj (show some _ = some turn by simpa [hid] using hturn)
        exact .inl (Keyed.upsert_ne_nil item _)
      · simpa [hid, WellOpened, hcurrent] using h current hcurrent

theorem upsertItemInTurnId_effect (builder : ThreadHistoryBuilder) (turnId : Str) (item : ThreadItem) :
    Effect (some (turnId, item)) builder (builder.upsertItemInTurnId turnId item) := by
  have hnext := (upsertItemInTurnId_rest builder turnId item).2
  rcases upsertItemInTurnId_cases builder turnId item with ⟨-, heq⟩ | ⟨position, turn, hget, rfl, hset⟩
  · rw [heq]
    exact .same rfl rfl
  · obtain ⟨front, rest, hcolumn, hcolumns⟩ := columns_set hget hset
    exact .upserted rfl (.inl hcolumn) hcolumns hnext

/-! ## Changes of the state of a turn -/

theorem updateTurn_columns (turnId : Str) {f : Turn → Turn}
    (hf : ∀ turn, (f turn).id = turn.id ∧ (f turn).items = turn.items) :
    ({ builder with turns := updateTurn builder.turns turnId f } : ThreadHistoryBuilder).columns = builder.columns := by
  have hturns : ((updateTurn builder.turns turnId f).map fun turn => (turn.id, turn.items)) =
      builder.turns.map fun turn => (turn.id, turn.items) := by
    rcases updateTurn_cases builder.turns turnId f with ⟨-, heq⟩ | ⟨position, turn, hget, -, heq⟩
    · rw [heq]
    · obtain ⟨hlt, hturn⟩ := List.getElem?_eq_some_iff.1 hget
      rw [heq, List.map_set, (hf turn).1, (hf turn).2]
      have hlt : position < (builder.turns.map fun turn => (turn.id, turn.items)).length := by simpa using hlt
      have hself : (turn.id, turn.items) = (builder.turns.map fun turn => (turn.id, turn.items))[position] := by
        simp [hturn]
      rw [hself, List.set_getElem_self]
  simp [columns, held, hturns]

theorem mapCurrent_columns {f : PendingTurn → PendingTurn}
    (hf : ∀ turn, (f turn).id = turn.id ∧ (f turn).items = turn.items) :
    ({ builder with currentTurn := builder.currentTurn.map f } : ThreadHistoryBuilder).columns = builder.columns := by
  cases hcurrent : builder.currentTurn with
  | none => simp [columns, held, hcurrent]
  | some turn => simp [columns, held, hcurrent, hf turn]

theorem mapCurrent_wellOpened (h : builder.WellOpened) {f : PendingTurn → PendingTurn}
    (hf : ∀ turn, (f turn).items = turn.items ∧ (f turn).openedExplicitly = turn.openedExplicitly ∧
      (f turn).sawCompaction = turn.sawCompaction) :
    ({ builder with currentTurn := builder.currentTurn.map f } : ThreadHistoryBuilder).WellOpened := by
  intro turn hturn
  obtain ⟨current, hcurrent, rfl⟩ := Option.map_eq_some_iff.1 hturn
  obtain ⟨hitems, hexplicit, hcompaction⟩ := hf current
  simpa [hitems, hexplicit, hcompaction] using h current hcurrent

theorem handleError_effect (shown : Option (Str × ThreadItem)) (h : builder.WellOpened) (payload : ErrorEvent) :
    (builder.handleError payload).WellOpened ∧ Effect shown builder (builder.handleError payload) := by
  unfold handleError
  split
  · exact ⟨mapCurrent_wellOpened h fun _ => ⟨rfl, rfl, rfl⟩, .same (mapCurrent_columns fun _ => ⟨rfl, rfl⟩) rfl⟩
  · exact ⟨h, .same rfl rfl⟩

theorem handleTurnAborted_effect (shown : Option (Str × ThreadItem)) (h : builder.WellOpened)
    (payload : TurnAbortedEvent) :
    (builder.handleTurnAborted payload).WellOpened ∧ Effect shown builder (builder.handleTurnAborted payload) := by
  have hcurrent : ({ builder with currentTurn := builder.currentTurn.map fun turn =>
        { turn with toTurn := applyAbort payload turn.toTurn } } : ThreadHistoryBuilder).WellOpened ∧
      Effect shown builder { builder with currentTurn := builder.currentTurn.map fun turn =>
        { turn with toTurn := applyAbort payload turn.toTurn } } :=
    ⟨mapCurrent_wellOpened h fun _ => ⟨rfl, rfl, rfl⟩, .same (mapCurrent_columns fun _ => ⟨rfl, rfl⟩) rfl⟩
  unfold handleTurnAborted
  cases payload.turnId with
  | none => exact hcurrent
  | some turnId =>
      simp only
      split
      · exact hcurrent
      · split
        · exact ⟨h, .same (updateTurn_columns turnId fun _ => ⟨rfl, rfl⟩) rfl⟩
        · exact hcurrent

theorem finishCurrentTurn_wellOpened (h : builder.WellOpened) : builder.finishCurrentTurn.WellOpened := by
  rw [finishCurrentTurn_eq h]
  intro turn hturn
  cases hturn

theorem handleTurnComplete_effect (shown : Option (Str × ThreadItem)) (h : builder.WellOpened)
    (payload : TurnCompleteEvent) :
    (builder.handleTurnComplete payload).WellOpened ∧ Effect shown builder (builder.handleTurnComplete payload) := by
  have hmark : ({ builder with currentTurn := builder.currentTurn.map fun turn =>
      { turn with toTurn := markCompleted payload turn.toTurn } } : ThreadHistoryBuilder).WellOpened :=
    mapCurrent_wellOpened h fun _ => ⟨rfl, rfl, rfl⟩
  have hfinished := finishCurrentTurn_wellOpened hmark
  have hcolumns := (finishCurrentTurn_columns hmark).trans (mapCurrent_columns fun _ => ⟨rfl, rfl⟩)
  unfold handleTurnComplete
  simp only
  split
  · exact ⟨hfinished, .same hcolumns (by rw [finishCurrentTurn_eq hmark])⟩
  · split
    · exact ⟨h, .same (updateTurn_columns payload.turnId fun _ => ⟨rfl, rfl⟩) rfl⟩
    · exact ⟨hfinished, .same hcolumns (by rw [finishCurrentTurn_eq hmark])⟩

theorem handleTurnStarted_effect (shown : Option (Str × ThreadItem)) (h : builder.WellOpened)
    (payload : TurnStartedEvent) :
    (builder.handleTurnStarted fresh payload).WellOpened ∧
      Effect shown builder (builder.handleTurnStarted fresh payload) := by
  constructor
  · intro turn hturn
    obtain rfl := Option.some.inj hturn
    exact .inr (.inl rfl)
  · refine .started payload.turnId ?_ ?_
    · simp [handleTurnStarted, finishCurrentTurn_eq h, columns, held, newTurn]
    · simp [handleTurnStarted, finishCurrentTurn_eq h]

theorem handleThreadRollback_effect (shown : Option (Str × ThreadItem)) (h : builder.WellOpened) (numTurns : UInt32) :
    (builder.handleThreadRollback numTurns).WellOpened ∧
      Effect shown builder (builder.handleThreadRollback numTurns) := by
  have hturns : (builder.handleThreadRollback numTurns).held =
      builder.held.take (builder.held.length - numTurns.toNat) := by
    simp only [handleThreadRollback, finishCurrentTurn_eq h, held, Option.map_none, Option.toList_none, List.append_nil]
    split
    · next hle => rw [Nat.sub_eq_zero_of_le hle, List.take_zero]
    · rfl
  constructor
  · intro turn hturn
    simp [handleThreadRollback, finishCurrentTurn_eq h] at hturn
  · refine .cut (builder.held.length - numTurns.toNat) ?_ ?_
    · rw [columns, hturns, columns, List.map_take]
    · have hheld : (builder.handleThreadRollback numTurns).held = (builder.handleThreadRollback numTurns).turns := by
        simp [handleThreadRollback, finishCurrentTurn_eq h, held]
      simp only [columns, hheld]
      simp [handleThreadRollback, List.length_flatten, Function.comp_def]

/-! ## Every input -/

theorem handleEvent_effect (h : builder.WellOpened) (event : EventMsg) :
    (builder.handleEvent ext fresh event).WellOpened ∧
      Effect (builder.shownBy ext fresh event) builder (builder.handleEvent ext fresh event) := by
  cases hitem : event.item ext with
  | some item =>
      rw [handleEvent_eq_route hitem, shownBy, hitem]
      cases hturn : event.turnId with
      | none => exact upsertItemInCurrentTurn_effect fresh builder item
      | some turnId =>
          exact ⟨upsertItemInTurnId_wellOpened h turnId item, upsertItemInTurnId_effect builder turnId item⟩
  | none =>
      cases event with
      | userMessage payload => exact handleUserMessage_effect _ h payload
      | agentMessage payload =>
          simp only [handleEvent, handleAgentMessage]
          split
          · exact ⟨h, .same rfl rfl⟩
          · exact pushNumbered_effect _ (fun _ => rfl) fun _ => rfl
      | agentReasoning text => exact handleReasoning_effect _ h text _
      | agentReasoningRawContent text => exact handleReasoning_effect _ h text _
      | contextCompacted => exact pushNumbered_effect _ (fun _ => rfl) fun _ => rfl
      | enteredReviewMode userFacingHint => exact pushNumbered_effect _ (fun _ => rfl) fun _ => rfl
      | exitedReviewMode overallExplanation => exact pushNumbered_effect _ (fun _ => rfl) fun _ => rfl
      | error payload => exact handleError_effect _ h payload
      | threadRolledBack numTurns => exact handleThreadRollback_effect _ h numTurns
      | turnAborted payload => exact handleTurnAborted_effect _ h payload
      | turnStarted payload => exact handleTurnStarted_effect _ h payload
      | turnComplete payload => exact handleTurnComplete_effect _ h payload
      | other => exact ⟨h, .same rfl rfl⟩
      | guardianAssessment payload =>
          have hsame : builder.handleEvent ext fresh (.guardianAssessment payload) = builder := by
            simp only [handleEvent, handleGuardianAssessment]
            cases hstatus : guardianStatus payload.status with
            | none => rfl
            | some status =>
                have hbuild : buildItemFromGuardianEvent ext payload status = none := by
                  simpa [EventMsg.item, hstatus] using hitem
                simp only [hbuild]
          rw [hsame]
          exact ⟨h, .same rfl rfl⟩
      | itemStarted payload =>
          rw [handleEvent_eq_self rfl hitem]
          exact ⟨h, .same rfl rfl⟩
      | itemCompleted payload =>
          rw [handleEvent_eq_self rfl hitem]
          exact ⟨h, .same rfl rfl⟩
      | _ => exact absurd hitem (Option.some_ne_none _)

theorem feed_effect (h : builder.WellOpened) (input : Str × Input) :
    (builder.feed ext input).WellOpened ∧ Effect (builder.shows ext input) builder (builder.feed ext input) := by
  have hrollout : builder.atRolloutItem.WellOpened := h
  obtain ⟨fresh, input⟩ := input
  cases input with
  | event event => exact handleEvent_effect h event
  | rolloutItem item =>
      have hmoved {shown : Option (Str × ThreadItem)} {after : ThreadHistoryBuilder}
          (heffect : after.WellOpened ∧ Effect shown builder.atRolloutItem after) :
          after.WellOpened ∧ Effect shown builder after := ⟨heffect.1, heffect.2.congr rfl rfl⟩
      cases item with
      | eventMsg event => exact hmoved (handleEvent_effect hrollout event)
      | compacted => exact hmoved (handleCompacted_effect _ fresh _)
      | responseItem item =>
          cases item with
          | message id role content phase =>
              simp only [feed, handleRolloutItem, handleResponseItem]
              split
              · split
                · exact hmoved (handleHookPrompt_effect _ _ _)
                · exact ⟨h, .same rfl rfl⟩
              · exact ⟨h, .same rfl rfl⟩
          | _ => exact ⟨h, .same rfl rfl⟩
      | turnContext => exact ⟨h, .same rfl rfl⟩
      | sessionMeta => exact ⟨h, .same rfl rfl⟩

theorem run_wellOpened (ext : Externals) (inputs : List (Str × Input)) : (run ext inputs).WellOpened := by
  have hstep (builder : ThreadHistoryBuilder) (input : Str × Input) (h : builder.WellOpened) :
      (builder.feed ext input).WellOpened := (feed_effect h input).1
  refine Transition.invariant hstep ?_ inputs
  intro turn hturn
  cases hturn

end Codrex.ThreadHistory.ThreadHistoryBuilder
