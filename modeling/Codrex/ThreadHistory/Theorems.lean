import Codrex.ThreadHistory.Lemmas.Numbers
import Codrex.ThreadHistory.Lemmas.Turns

/-!
# The history keeps its items apart, and in their turns
-/

namespace Codrex.ThreadHistory

open Text ThreadHistoryBuilder

/-! ## Ids of items -/

/-- Whatever is fed, late items and rollbacks included: no id is given to two items, and the next number is above all
of them but no higher than the count of the items. Where no event brings an id that the builder might give, the items
with such ids, apart from hook prompts, are those that the builder numbered. -/
theorem generatedIds_distinct (ext : Externals) (inputs : List (Str × Input)) :
    (run ext inputs).generatedIds.Nodup ∧
    (∀ id ∈ (run ext inputs).generatedIds,
      ∃ index, 1 ≤ index ∧ index < (run ext inputs).nextItemIndex ∧ id = itemId index) ∧
    (run ext inputs).nextItemIndex - 1 ≤ (run ext inputs).items.length ∧
    ((∀ input ∈ inputs, ∀ item ∈ input.2.item ext, ∀ index, item.id ≠ itemId index) →
      ∀ item ∈ (run ext inputs).items,
        item.hasGeneratedId = true ∨ item.isHookPrompt = true ∨ ∀ index, item.id ≠ itemId index) := by
  have hsound := run_sound ext inputs
  have hids : Numbering.labels ThreadItem.generatedId ((run ext inputs).columns.map Prod.snd).flatten =
      (run ext inputs).generatedIds := by
    rw [generatedIds, items_eq, labels_generatedId]
  have hpositive := hsound.positive
  refine ⟨hids ▸ hsound.distinct, fun id hid => ?_, ?_, run_ownIds⟩
  · obtain ⟨index, hpos, hle, heq⟩ := hsound.below id (hids ▸ hid)
    exact ⟨index, hpos, by omega, heq⟩
  · rw [items_eq]
    have hcounted := hsound.counted
    omega

/-! ## Turns -/

theorem feed_routesTo {ext : Externals} {builder : ThreadHistoryBuilder} {input : Str × Input} {event : EventMsg}
    {turnId : Str} (hevent : input.2.event? = some event) (hturn : event.turnId = some turnId) :
    RoutesTo turnId (event.item ext) builder (builder.feed ext input) := by
  obtain ⟨fresh, input⟩ := input
  cases input with
  | event msg =>
      obtain rfl : msg = event := Option.some.inj hevent
      exact handleEvent_routesTo hturn
  | rolloutItem item =>
      cases item with
      | eventMsg msg =>
          obtain rfl : msg = event := Option.some.inj hevent
          have hroutes : RoutesTo turnId (msg.item ext) builder.atRolloutItem
              (builder.atRolloutItem.handleEvent ext fresh msg) := handleEvent_routesTo hturn
          obtain ⟨hdropped, hrouted, hopen, hnext⟩ := hroutes
          exact ⟨fun h => ⟨(hdropped h).1, (hdropped h).2, (hdropped h).3⟩, hrouted, hopen, hnext⟩
      | _ => cases hevent

theorem run_keepsToTurns {ext : Externals} {inputs : List (Str × Input)} (h : DistinctExplicit ext inputs) :
    KeepsToTurns ext inputs where
  routed := feed_routesTo
  alone turnId hturn := ((run_ids_sublist ext inputs).count_le turnId).trans (h turnId hturn).2.le
  neverOpened _ hturn turn hheld hid :=
    hturn ((run_ids_sublist ext inputs).subset (mem_ids.2 ⟨turn, hheld, hid⟩))
  staysGone turnId hturn := run_staysGone (h turnId hturn).2
  lastShown _ hcount := run_lastShown hcount
  snapshot := snapshotFinishes (run_wellOpened ext inputs)

def bareExternals : Externals := ⟨⟨none, none⟩, fun words => words.flatten, fun _ => [], fun _ => none⟩

def turnStarted (turnId : Str) : Str × Input := ([], .event (.turnStarted ⟨turnId, none⟩))

def commandBegin : ExecCommandBeginEvent := ⟨['c'], none, ['t'], [], .root, [], .agent⟩

def commandEnd : ExecCommandEndEvent := ⟨commandBegin, [], 0, 0, .completed⟩

/-- The command ends when the next turn is open. -/
def lateEnd : List (Str × Input) :=
  [turnStarted ['t'], ([], .event (.execCommandBegin commandBegin)), turnStarted ['u'],
    ([], .event (.execCommandEnd commandEnd))]

theorem lateEnd_keepsToTurns : KeepsToTurns bareExternals lateEnd := run_keepsToTurns (by decide)

/-- An approval shows no item: what it finds stays. -/
theorem lastEvent_not_determines : ¬ LastEventDetermines bareExternals := by
  intro h
  have happroved := h [turnStarted ['t'], ([], .event (.execCommandBegin commandBegin))]
    [turnStarted ['t'], ([], .event (.execCommandEnd commandEnd))]
    ([], .event (.guardianAssessment ⟨some ['c'], ['t'], .approved, .command [] .root⟩)) _ ['t'] ['c'] rfl rfl rfl
    (by decide) (by decide) (by decide) (by decide)
  have hstatus := congrArg (Option.map fun item => match item with
    | .commandExecution _ _ _ _ _ status _ _ _ _ => some status
    | _ => none) happroved
  revert hstatus
  decide

end Codrex.ThreadHistory
