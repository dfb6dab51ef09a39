import Codrex.Lib.Numbering
import Codrex.ThreadHistory.Lemmas.Effects

/-!
# The numbers of the items

The columns of numbered items are the items of the turns; late items may come to any of them.
-/

namespace Codrex.ThreadHistory

open Text Numbering

theorem itemId_injective : Function.Injective itemId := by
  intro i j h
  exact repr_injective (List.append_cancel_left h)

/-- The id of an item, if the builder gave it. -/
def ThreadItem.generatedId (item : ThreadItem) : Option Str := if item.hasGeneratedId then some item.id else none

theorem generatedId_eq_none {item : ThreadItem} (h : item.hasGeneratedId = false) : item.generatedId = none := by
  simp [ThreadItem.generatedId, h]

theorem labels_generatedId (items : List ThreadItem) :
    labels ThreadItem.generatedId items = (items.filter ThreadItem.hasGeneratedId).map ThreadItem.id := by
  induction items with
  | nil => rfl
  | cons item items ih =>
      simp only [labels] at ih
      cases h : item.hasGeneratedId <;> simp [labels, ThreadItem.generatedId, h, ih]

theorem not_generated_of_isHookPrompt {item : ThreadItem} (h : item.isHookPrompt = true) :
    item.hasGeneratedId = false := by
  cases item with
  | hookPrompt id fragments => rfl
  | _ => cases h

namespace ThreadHistoryBuilder

variable {ext : Externals} {builder after : ThreadHistoryBuilder} {shown : Option (Str × ThreadItem)}
  {items : List ThreadItem}

abbrev Sound (builder : ThreadHistoryBuilder) : Prop :=
  Numbering.Sound itemId ThreadItem.generatedId (builder.columns.map Prod.snd) builder.nextItemIndex

theorem items_eq (builder : ThreadHistoryBuilder) : builder.items = (builder.columns.map Prod.snd).flatten := by
  simp [items, columns, List.flatMap_def, Function.comp_def]

/-- A turn that is not there yet counts as one without items. -/
theorem Sound.hasColumn (h : builder.Sound) {front rest : List (Str × List ThreadItem)} {id : Str}
    (hcolumn : builder.HasColumn front id items rest) :
    Numbering.Sound itemId ThreadItem.generatedId (front.map Prod.snd ++ items :: rest.map Prod.snd)
      builder.nextItemIndex := by
  rcases hcolumn with hcolumns | ⟨hcolumns, rfl, rfl⟩
  · rw [Sound, hcolumns] at h
    simpa using h
  · rw [Sound, hcolumns] at h
    exact h.open

theorem Sound.effect (h : builder.Sound) (heffect : Effect shown builder after)
    (hshown : ∀ pair ∈ shown, pair.2.hasGeneratedId = false) : after.Sound := by
  unfold Sound
  cases heffect with
  | same hcolumns hnext => rwa [hcolumns, hnext]
  | started turnId hcolumns hnext =>
      rw [hcolumns, hnext, List.map_append]
      exact h.open
  | upserted heq hcolumn hcolumns hnext =>
      rw [hcolumns, hnext, List.map_append]
      have hnone := generatedId_eq_none (hshown _ heq)
      exact (h.hasColumn hcolumn).replace ⟨Keyed.filterMap_upsert hnone _, Keyed.length_le_upsert _ _⟩
  | numbered hgenerated hid hcolumn hcolumns hnext =>
      rw [hcolumns, hnext, List.map_append]
      refine Numbering.Sound.issue itemId_injective (h.hasColumn hcolumn) ?_
      simp [ThreadItem.generatedId, hgenerated, hid]
  | prompted hprompt hcolumn hcolumns hnext =>
      rw [hcolumns, hnext, List.map_append]
      have hlabels := labels_concat_none (generatedId_eq_none (not_generated_of_isHookPrompt hprompt))
      exact (h.hasColumn hcolumn).replace ⟨by rw [hlabels], by simp⟩
  | extended hcolumn hcolumns hnext =>
      rw [hcolumns, hnext, List.map_append]
      refine (h.hasColumn (.inl hcolumn)).replace ⟨?_, by simp⟩
      simp [labels, ThreadItem.generatedId, ThreadItem.hasGeneratedId, ThreadItem.id]
  | compacted hcolumn hcolumns hnext =>
      rw [hcolumns, hnext, List.map_append]
      exact h.hasColumn hcolumn
  | cut left hcolumns hnext =>
      rw [hnext, hcolumns, List.map_take]
      exact Numbering.Sound.cut h left

theorem feed_sound (hopened : builder.WellOpened) (h : builder.Sound) (input : Str × Input) :
    (builder.feed ext input).Sound := by
  refine h.effect (feed_effect hopened input).2 fun pair hpair => ?_
  obtain ⟨event, -, hitem⟩ := Option.bind_eq_some_iff.1 (shows_eq hpair)
  exact (eq_of_item_eq hitem).1

theorem run_sound (ext : Externals) (inputs : List (Str × Input)) : (run ext inputs).Sound := by
  have hstep (builder : ThreadHistoryBuilder) (input : Str × Input) (h : builder.WellOpened ∧ builder.Sound) :
      (builder.feed ext input).WellOpened ∧ (builder.feed ext input).Sound :=
    ⟨(feed_effect h.1 input).1, feed_sound h.1 h.2 input⟩
  refine (Transition.invariant hstep ⟨?_, ?_⟩ inputs).2
  · intro turn hturn
    cases hturn
  · exact Numbering.Sound.nil

/-! ## Items with ids of their own -/

/-- Apart from hook prompts, the items that the builder did not number have no id that it might give. -/
def OwnIds (builder : ThreadHistoryBuilder) : Prop :=
  ∀ item ∈ builder.items, item.hasGeneratedId = true ∨ item.isHookPrompt = true ∨ ∀ index, item.id ≠ itemId index

theorem mem_upsert {x y : ThreadItem} (h : y ∈ upsertTurnItem items x) : y = x ∨ y ∈ items := by
  rcases changesOnly_upsertTurnItem items x with ⟨position, other, -, -, heq⟩ | ⟨-, heq⟩
  · rw [heq] at h
    exact (List.mem_or_eq_of_mem_set h).symm
  · rw [heq] at h
    simpa [or_comm] using h

theorem mem_of_hasColumn {front rest : List (Str × List ThreadItem)} {id : Str}
    (hcolumn : builder.HasColumn front id items rest) {item : ThreadItem}
    (h : item ∈ ((front ++ (id, items) :: rest).map Prod.snd).flatten) : item ∈ builder.items := by
  rw [items_eq]
  rcases hcolumn with hcolumns | ⟨hcolumns, rfl, rfl⟩
  · rwa [hcolumns]
  · rw [hcolumns]
    simpa using h

/-- The items of the columns after a change of one are those before, or in the changed column. -/
theorem mem_columns_cases {front rest : List (Str × List ThreadItem)} {id : Str}
    (hcolumns : after.columns = front ++ (id, items) :: rest) {item : ThreadItem} (h : item ∈ after.items)
    (old : List ThreadItem) : item ∈ items ∨ item ∈ ((front ++ (id, old) :: rest).map Prod.snd).flatten := by
  rw [items_eq, hcolumns] at h
  simp only [List.map_append, List.map_cons, List.flatten_append, List.flatten_cons, List.mem_append] at h ⊢
  tauto

theorem OwnIds.effect (h : builder.OwnIds) (heffect : Effect shown builder after)
    (hshown : ∀ pair ∈ shown, ∀ index, pair.2.id ≠ itemId index) : after.OwnIds := by
  intro item hitem
  cases heffect with
  | same hcolumns hnext =>
      rw [items_eq, hcolumns, ← items_eq] at hitem
      exact h item hitem
  | started turnId hcolumns hnext =>
      rw [items_eq, hcolumns] at hitem
      exact h item (by rw [items_eq]; simpa using hitem)
  | upserted heq hcolumn hcolumns hnext =>
      rcases mem_columns_cases hcolumns hitem _ with hmem | hmem
      · rcases mem_upsert hmem with rfl | hmem
        · exact .inr (.inr (hshown _ heq))
        · exact h item (mem_of_hasColumn hcolumn (by simp [hmem]))
      · exact h item (mem_of_hasColumn hcolumn hmem)
  | numbered hgenerated hid hcolumn hcolumns hnext =>
      rcases mem_columns_cases hcolumns hitem _ with hmem | hmem
      · rcases List.mem_append.1 hmem with hmem | hmem
        · exact h item (mem_of_hasColumn hcolumn (by simp [hmem]))
        · exact .inl (List.mem_singleton.1 hmem ▸ hgenerated)
      · exact h item (mem_of_hasColumn hcolumn hmem)
  | prompted hprompt hcolumn hcolumns hnext =>
      rcases mem_columns_cases hcolumns hitem _ with hmem | hmem
      · rcases List.mem_append.1 hmem with hmem | hmem
        · exact h item (mem_of_hasColumn hcolumn (by simp [hmem]))
        · exact .inr (.inl (List.mem_singleton.1 hmem ▸ hprompt))
      · exact h item (mem_of_hasColumn hcolumn hmem)
  | extended hcolumn hcolumns hnext =>
      rcases mem_columns_cases hcolumns hitem _ with hmem | hmem
      · rcases List.mem_append.1 hmem with hmem | hmem
        · exact h item (mem_of_hasColumn (.inl hcolumn) (by simp [hmem]))
        · exact .inl (List.mem_singleton.1 hmem ▸ rfl)
      · exact h item (mem_of_hasColumn (.inl hcolumn) hmem)
  | compacted hcolumn hcolumns hnext =>
      rw [items_eq, hcolumns] at hitem
      exact h item (mem_of_hasColumn hcolumn hitem)
  | cut left hcolumns hnext =>
      rw [items_eq, hcolumns, List.map_take] at hitem
      refine h item ?_
      rw [items_eq]
      exact (List.take_sublist left _).flatten.subset hitem

theorem run_ownIds {inputs : List (Str × Input)}
    (h : ∀ input ∈ inputs, ∀ item ∈ input.2.item ext, ∀ index, item.id ≠ itemId index) : (run ext inputs).OwnIds := by
  have hguarded : Transition.Guarded (feed ext)
      (fun _ input => ∀ item ∈ input.2.item ext, ∀ index, item.id ≠ itemId index) new inputs :=
    Transition.guarded_iff.2 fun before input after heq => h input (by simp [heq])
  have hstep (builder : ThreadHistoryBuilder) (input : Str × Input)
      (hinput : ∀ item ∈ input.2.item ext, ∀ index, item.id ≠ itemId index)
      (h : builder.WellOpened ∧ builder.OwnIds) :
      (builder.feed ext input).WellOpened ∧ (builder.feed ext input).OwnIds := by
    obtain ⟨hopened, heffect⟩ := feed_effect h.1 input
    exact ⟨hopened, h.2.effect heffect fun pair hpair => hinput _ (shows_eq hpair)⟩
  refine (hguarded.invariant hstep ⟨?_, ?_⟩).2
  · intro turn hturn
    cases hturn
  · intro item hitem
    cases hitem

end ThreadHistoryBuilder

end Codrex.ThreadHistory
