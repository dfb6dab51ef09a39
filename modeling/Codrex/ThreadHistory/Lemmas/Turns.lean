import Codrex.ThreadHistory.Lemmas.Effects

/-!
# Turns over a run

The ids of the turns that are held are among those under which turns were opened, in their order. So a turn whose id
no other one has is found again by it, and once gone it stays gone.
-/

namespace Codrex.ThreadHistory.ThreadHistoryBuilder

open Text

variable {ext : Externals} {builder before after : ThreadHistoryBuilder} {shown : Option (Str × ThreadItem)}
  {inputs : List (Str × Input)} {turnId : Str} {items : List ThreadItem} {item : ThreadItem}

def ids (builder : ThreadHistoryBuilder) : List Str := builder.held.map Turn.id

theorem ids_eq (builder : ThreadHistoryBuilder) : builder.ids = builder.columns.map Prod.fst := by
  simp [ids, columns, Function.comp_def]

theorem mem_ids : turnId ∈ builder.ids ↔ ∃ turn ∈ builder.held, turn.id = turnId := by
  simp [ids]

theorem opened_eq (ext : Externals) (builder : ThreadHistoryBuilder) (input : Str × Input) :
    builder.opened ext input = (builder.feed ext input).ids.drop builder.ids.length := by
  simp [opened, ids, List.map_drop]

/-! ## Ids of the turns -/

theorem HasColumn.ids {front rest : List (Str × List ThreadItem)} {id : Str}
    (h : before.HasColumn front id items rest) :
    (front ++ (id, items) :: rest).map Prod.fst = before.ids ∨
      (front ++ (id, items) :: rest).map Prod.fst = before.ids ++ [id] := by
  rcases h with hcolumns | ⟨hcolumns, -, rfl⟩
  · exact .inl (by rw [ids_eq, hcolumns])
  · exact .inr (by rw [ids_eq, hcolumns]; simp)

/-- Turns are added at the end, or taken from there. -/
theorem Effect.ids (h : Effect shown before after) :
    (∃ new, after.ids = before.ids ++ new) ∨ ∃ left, after.ids = before.ids.take left := by
  have hchanged {front rest : List (Str × List ThreadItem)} {id : Str} {items items' : List ThreadItem}
      (hcolumn : before.HasColumn front id items rest) (hcolumns : after.columns = front ++ (id, items') :: rest) :
      ∃ new, after.ids = before.ids ++ new := by
    have hids : after.ids = (front ++ (id, items) :: rest).map Prod.fst := by
      rw [ids_eq, hcolumns]
      simp
    rcases hcolumn.ids with hsame | hnew
    · exact ⟨[], by rw [hids, hsame, List.append_nil]⟩
    · exact ⟨[id], by rw [hids, hnew]⟩
  cases h with
  | same hcolumns hnext => exact .inl ⟨[], by rw [ids_eq, hcolumns, ← ids_eq, List.append_nil]⟩
  | started turnId hcolumns hnext => exact .inl ⟨[turnId], by rw [ids_eq, hcolumns, ids_eq]; simp⟩
  | upserted hshown hcolumn hcolumns hnext => exact .inl (hchanged hcolumn hcolumns)
  | numbered hgenerated hid hcolumn hcolumns hnext => exact .inl (hchanged hcolumn hcolumns)
  | prompted hprompt hcolumn hcolumns hnext => exact .inl (hchanged hcolumn hcolumns)
  | extended hcolumn hcolumns hnext => exact .inl (hchanged (.inl hcolumn) hcolumns)
  | compacted hcolumn hcolumns hnext => exact .inl (hchanged hcolumn hcolumns)
  | cut left hcolumns hnext => exact .inr ⟨left, by rw [ids_eq, hcolumns, ids_eq, List.map_take]⟩

theorem Effect.ids_sublist (h : Effect shown before after) {seen : List Str} (hseen : before.ids.Sublist seen) :
    after.ids.Sublist (seen ++ after.ids.drop before.ids.length) := by
  rcases h.ids with ⟨new, hnew⟩ | ⟨left, hleft⟩
  · rw [hnew, List.drop_left]
    exact hseen.append (List.Sublist.refl new)
  · rw [hleft]
    exact ((List.take_sublist left _).trans hseen).trans (List.sublist_append_left seen _)

theorem Effect.mem_ids (h : Effect shown before after) (hmem : turnId ∈ after.ids) :
    turnId ∈ before.ids ∨ turnId ∈ after.ids.drop before.ids.length := by
  simpa using (h.ids_sublist (List.Sublist.refl before.ids)).subset hmem

/-- The ids of the turns that are held, against all under which turns were opened. -/
theorem run_ids_sublist (ext : Externals) (inputs : List (Str × Input)) :
    (run ext inputs).ids.Sublist (openedIds ext inputs) := by
  have hguarded : Transition.Guarded (feed ext) (fun _ _ => True) new inputs :=
    Transition.guarded_iff.2 fun _ _ _ _ => trivial
  have hstep (builder : ThreadHistoryBuilder) (seen : List Str) (input : Str × Input) (_ : True)
      (h : builder.WellOpened ∧ builder.ids.Sublist seen) :
      (builder.feed ext input).WellOpened ∧ (builder.feed ext input).ids.Sublist (seen ++ builder.opened ext input) := by
    obtain ⟨hopened, heffect⟩ := feed_effect h.1 input
    exact ⟨hopened, by rw [opened_eq]; exact heffect.ids_sublist h.2⟩
  have hstart : new.WellOpened ∧ new.ids.Sublist [] := ⟨run_wellOpened ext [], List.Sublist.refl []⟩
  exact (hguarded.invariant_outputs hstep hstart).2

theorem run_append (ext : Externals) (first second : List (Str × Input)) :
    run ext (first ++ second) = Transition.run (feed ext) (run ext first) second :=
  Transition.run_append ..

theorem openedIds_append (ext : Externals) (first second : List (Str × Input)) :
    openedIds ext (first ++ second) =
      openedIds ext first ++ Transition.outputs (feed ext) (opened ext) (run ext first) second :=
  Transition.outputs_append ..

/-- An id under which one turn was opened is not opened again. -/
theorem not_mem_opened {front between rest : List (Str × Input)} {later : Str × Input}
    (hcount : (openedIds ext (front ++ between ++ later :: rest)).count turnId = 1)
    (hmem : turnId ∈ openedIds ext front) : turnId ∉ (run ext (front ++ between)).opened ext later := by
  have hone : 1 ≤ (openedIds ext front).count turnId := List.one_le_count_iff.2 hmem
  rw [openedIds_append, openedIds_append, Transition.outputs, List.count_append, List.count_append,
    List.count_append] at hcount
  intro hopened
  have hagain := List.one_le_count_iff.2 hopened
  omega

/-! ## Turns that are gone -/

theorem run_staysGone (hcount : (openedIds ext inputs).count turnId = 1) : StaysGone ext inputs turnId := by
  rintro front rest rfl hmem hgone
  have hguarded : Transition.Guarded (feed ext) (fun builder later => turnId ∉ builder.opened ext later)
      (run ext front) rest := by
    refine Transition.guarded_iff.2 fun between later after heq => ?_
    rw [← run_append]
    have hcount : (openedIds ext (front ++ between ++ later :: after)).count turnId = 1 := by simpa [heq] using hcount
    exact not_mem_opened hcount hmem
  have hstep (builder : ThreadHistoryBuilder) (later : Str × Input) (hlater : turnId ∉ builder.opened ext later)
      (h : builder.WellOpened ∧ turnId ∉ builder.ids) :
      (builder.feed ext later).WellOpened ∧ turnId ∉ (builder.feed ext later).ids := by
    obtain ⟨hopened, heffect⟩ := feed_effect h.1 later
    refine ⟨hopened, fun hheld => ?_⟩
    rcases heffect.mem_ids hheld with hbefore | hnew
    · exact h.2 hbefore
    · exact hlater (by rwa [opened_eq])
  have hstart : (run ext front).WellOpened ∧ turnId ∉ (run ext front).ids := by
    refine ⟨run_wellOpened ext front, fun hheld => ?_⟩
    obtain ⟨turn, hturn, hid⟩ := mem_ids.1 hheld
    exact hgone turn hturn hid
  have hend := (hguarded.invariant hstep hstart).2
  rw [← run_append] at hend
  exact fun turn hturn hid => hend (mem_ids.2 ⟨turn, hturn, hid⟩)

/-! ## The last event for an item -/

/-- In every turn with the id, the item is the one that is found under its id. -/
def Shows (builder : ThreadHistoryBuilder) (turnId : Str) (item : ThreadItem) : Prop :=
  ∀ items, (turnId, items) ∈ builder.columns → Keyed.find ThreadItem.id item.id items = some item

/-- The column that an input changes, without the turn being new, was there before. -/
theorem HasColumn.mem_columns {front rest : List (Str × List ThreadItem)} {items' : List ThreadItem}
    (h : before.HasColumn front turnId items rest) (hcolumns : after.columns = front ++ (turnId, items') :: rest)
    (hnew : turnId ∉ after.ids.drop before.ids.length) : (turnId, items) ∈ before.columns := by
  rcases h with hbefore | ⟨hbefore, -, rfl⟩
  · simp [hbefore]
  · refine absurd ?_ hnew
    rw [ids_eq, ids_eq, hcolumns, hbefore]
    simp

/-- What holds of the columns with the id stays so when that of one of them changes accordingly. -/
theorem Shows.changed (h : before.Shows turnId item) {front rest : List (Str × List ThreadItem)} {id : Str}
    {items' : List ThreadItem} (hcolumn : before.HasColumn front id items rest)
    (hcolumns : after.columns = front ++ (id, items') :: rest) (hnew : turnId ∉ after.ids.drop before.ids.length)
    (hitems : id = turnId → Keyed.find ThreadItem.id item.id items = some item →
      Keyed.find ThreadItem.id item.id items' = some item) :
    after.Shows turnId item := by
  intro found hfound
  have hother (hmem : (turnId, found) ∈ front ∨ (turnId, found) ∈ rest) : (turnId, found) ∈ before.columns := by
    rcases hcolumn with hbefore | ⟨hbefore, -, rfl⟩
    · rw [hbefore]
      simp only [List.mem_append, List.mem_cons]
      tauto
    · rw [hbefore]
      simpa using hmem
  rw [hcolumns, List.mem_append, List.mem_cons] at hfound
  rcases hfound with hfront | hhere | hrest
  · exact h found (hother (.inl hfront))
  · obtain ⟨rfl, rfl⟩ := Prod.mk.inj hhere
    exact hitems rfl (h items (hcolumn.mem_columns hcolumns hnew))
  · exact h found (hother (.inr hrest))

/-- A reasoning item that grows was not the item that is looked up. -/
theorem find_extended (hitem : item.hasGeneratedId = false) {reasoningId : Str} {summary content : List Str}
    (h : Keyed.find ThreadItem.id item.id (items ++ [.reasoning reasoningId summary content]) = some item) :
    Keyed.find ThreadItem.id item.id items = some item := by
  simp only [Keyed.find, List.find?_append, Option.or_eq_some_iff] at h ⊢
  rcases h with h | ⟨-, h⟩
  · exact h
  · have hmem := List.mem_of_find?_eq_some h
    rw [List.mem_singleton] at hmem
    rw [hmem] at hitem
    cases hitem

theorem Shows.effect (h : before.Shows turnId item) (hitem : item.hasGeneratedId = false)
    (heffect : Effect shown before after) (hnew : turnId ∉ after.ids.drop before.ids.length)
    (hshown : ∀ other, shown = some (turnId, other) → other.id ≠ item.id) : after.Shows turnId item := by
  cases heffect with
  | same hcolumns hnext => rwa [Shows, hcolumns]
  | started other hcolumns hnext =>
      have hne : turnId ≠ other := by
        rintro rfl
        refine hnew ?_
        rw [ids_eq, ids_eq, hcolumns]
        simp
      intro items hmem
      rw [hcolumns] at hmem
      exact h items (by simpa [hne] using hmem)
  | upserted heq hcolumn hcolumns hnext =>
      refine h.changed hcolumn hcolumns hnew ?_
      rintro rfl hfind
      rw [upsertTurnItem, Keyed.find_upsert_ne (hshown _ heq)]
      exact hfind
  | numbered hgenerated hid hcolumn hcolumns hnext =>
      exact h.changed hcolumn hcolumns hnew fun _ hfind => Keyed.find_append hfind _
  | prompted hprompt hcolumn hcolumns hnext =>
      exact h.changed hcolumn hcolumns hnew fun _ hfind => Keyed.find_append hfind _
  | extended hcolumn hcolumns hnext =>
      exact h.changed (.inl hcolumn) hcolumns hnew fun _ hfind => Keyed.find_append (find_extended hitem hfind) _
  | compacted hcolumn hcolumns hnext => exact h.changed hcolumn hcolumns hnew fun _ hfind => hfind
  | cut left hcolumns hnext =>
      intro items hmem
      rw [hcolumns] at hmem
      exact h items (List.mem_of_mem_take hmem)

/-- Right after an item is shown, it is in its turn, unless there is none with the id. -/
theorem feed_shows {input : Str × Input} (h : builder.shows ext input = some (turnId, item)) :
    turnId ∉ (builder.feed ext input).ids ∨
      ∃ front items rest, (builder.feed ext input).columns = front ++ (turnId, upsertTurnItem items item) :: rest := by
  have hevent {fresh : Str} {builder : ThreadHistoryBuilder} {event : EventMsg}
      (h : builder.shownBy ext fresh event = some (turnId, item)) :
      turnId ∉ (builder.handleEvent ext fresh event).ids ∨
        ∃ front items rest, (builder.handleEvent ext fresh event).columns =
          front ++ (turnId, upsertTurnItem items item) :: rest := by
    obtain ⟨item, hitem, heq⟩ := Option.map_eq_some_iff.1 h
    obtain ⟨hid, rfl⟩ := Prod.mk.inj heq
    rw [handleEvent_eq_route hitem]
    cases hturn : event.turnId with
    | none =>
        rw [hturn] at hid
        obtain rfl : (builder.ensureTurn fresh).id = turnId := hid
        obtain ⟨front, -, hcolumns⟩ := withTurn_columns fresh builder fun turn =>
          { turn with items := upsertTurnItem turn.items item }
        exact .inr ⟨front, _, [], hcolumns⟩
    | some named =>
        rw [hturn] at hid
        obtain rfl : named = turnId := hid
        rcases upsertItemInTurnId_cases builder named item with ⟨hnone, heq⟩ | ⟨position, turn, hget, rfl, hset⟩
        · refine .inl fun hmem => ?_
          obtain ⟨turn, hheld, hid⟩ := mem_ids.1 (show named ∈ builder.ids by simpa [route, heq] using hmem)
          exact hnone turn hheld hid
        · obtain ⟨front, rest, -, hcolumns⟩ := columns_set hget hset
          exact .inr ⟨front, turn.items, rest, hcolumns⟩
  obtain ⟨fresh, input⟩ := input
  cases input with
  | event event => exact hevent h
  | rolloutItem rollout =>
      cases rollout with
      | eventMsg event => exact hevent h
      | _ => cases h

/-- An id that one turn has picks out its column. -/
theorem shows_of_count {front rest : List (Str × List ThreadItem)}
    (hcolumns : builder.columns = front ++ (turnId, upsertTurnItem items item) :: rest)
    (hcount : builder.ids.count turnId ≤ 1) : builder.Shows turnId item := by
  rw [ids_eq, hcolumns, List.map_append, List.map_cons, List.count_append, List.count_cons_self] at hcount
  have hnone {l : List (Str × List ThreadItem)} (h : (l.map Prod.fst).count turnId = 0) (found : List ThreadItem) :
      (turnId, found) ∉ l := fun hmem => List.count_eq_zero.1 h (List.mem_map_of_mem (f := Prod.fst) hmem)
  intro found hfound
  rw [hcolumns, List.mem_append, List.mem_cons] at hfound
  rcases hfound with hfront | hhere | hrest
  · exact absurd hfront (hnone (by omega) found)
  · obtain ⟨-, rfl⟩ := Prod.mk.inj hhere
    exact Keyed.find_upsert_self item items
  · exact absurd hrest (hnone (by omega) found)

theorem run_lastShown (hcount : (openedIds ext inputs).count turnId = 1) : LastShown ext inputs turnId := by
  rintro front input rest rfl item hshows hheld hlater
  have hrun : run ext (front ++ [input]) = (run ext front).feed ext input := run_append ext front [input]
  have hmem : turnId ∈ (run ext (front ++ [input])).ids := mem_ids.2 hheld
  have hopenedOnce : turnId ∈ openedIds ext (front ++ [input]) := (run_ids_sublist ext _).subset hmem
  have hstart : (run ext (front ++ [input])).Shows turnId item := by
    rw [hrun] at hmem ⊢
    rcases feed_shows hshows with hgone | ⟨before, items, after, hcolumns⟩
    · exact absurd hmem hgone
    · refine shows_of_count hcolumns ?_
      rw [← hrun]
      refine ((run_ids_sublist ext _).count_le turnId).trans ?_
      rw [show front ++ input :: rest = front ++ [input] ++ rest by simp, openedIds_append, List.count_append] at hcount
      omega
  have hgenerated : item.hasGeneratedId = false := by
    obtain ⟨event, -, hitem⟩ := Option.bind_eq_some_iff.1 (shows_eq hshows)
    exact (eq_of_item_eq hitem).1
  have hguarded : Transition.Guarded (feed ext)
      (fun builder later => turnId ∉ builder.opened ext later ∧
        ∀ other, builder.shows ext later = some (turnId, other) → other.id ≠ item.id)
      (run ext (front ++ [input])) rest := by
    refine Transition.guarded_iff.2 fun between later after heq => ?_
    rw [← run_append]
    have hcount : (openedIds ext (front ++ [input] ++ between ++ later :: after)).count turnId = 1 := by
      simpa [heq] using hcount
    exact ⟨not_mem_opened hcount hopenedOnce, fun other hother =>
      hlater between later after heq other (by simpa using hother)⟩
  have hstep (builder : ThreadHistoryBuilder) (later : Str × Input)
      (hquiet : turnId ∉ builder.opened ext later ∧
        ∀ other, builder.shows ext later = some (turnId, other) → other.id ≠ item.id)
      (h : builder.WellOpened ∧ builder.Shows turnId item) :
      (builder.feed ext later).WellOpened ∧ (builder.feed ext later).Shows turnId item := by
    obtain ⟨hopened, heffect⟩ := feed_effect h.1 later
    exact ⟨hopened, h.2.effect hgenerated heffect (by rw [← opened_eq]; exact hquiet.1) hquiet.2⟩
  have hend := (hguarded.invariant hstep ⟨run_wellOpened ext _, hstart⟩).2
  rw [← run_append, List.append_assoc] at hend
  rintro turn hturn rfl
  exact hend turn.items (List.mem_map_of_mem (f := fun turn : Turn => (turn.id, turn.items)) hturn)

/-! ## The snapshot -/

theorem snapshotFinishes (h : builder.WellOpened) : SnapshotFinishes builder := by
  intro turn hturn
  cases hcurrent : builder.currentTurn with
  | some current =>
      obtain rfl : current.toTurn = turn := by simpa [activeTurnSnapshot, hcurrent] using hturn
      refine ⟨builder.turns.length, by simp [activeTurnPosition, hcurrent], ?_⟩
      simp [finish, finishCurrentTurn_eq h, held_of_currentTurn hcurrent]
  | none =>
      have hlast : builder.turns.getLast? = some turn := by simpa [activeTurnSnapshot, hcurrent] using hturn
      have hne : builder.turns ≠ [] := by
        rintro hnil
        simp [hnil] at hlast
      refine ⟨builder.turns.length - 1, by simp [activeTurnPosition, hcurrent, hne], ?_⟩
      rw [finish, finishCurrentTurn_eq h, held_of_none hcurrent, ← List.getLast?_eq_getElem?]
      exact hlast

end Codrex.ThreadHistory.ThreadHistoryBuilder
