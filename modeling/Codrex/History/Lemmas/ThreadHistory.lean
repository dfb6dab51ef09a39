import Codrex.History.Spec

/-!
# The user messages of the turns that are shown
-/

namespace Codrex.History

open Text

variable {env : Externals}

def userContents (items : List ThreadItem) : List (List ShownInput) := items.filterMap (·.userContent)

/-- Messages are shown under numbers. -/
def Numbered (items : List ThreadItem) : Prop :=
  ∀ id content, .userMessage id content ∈ items → ∃ index, id = itemId index

theorem Numbered.append {first second : List ThreadItem} (hfirst : Numbered first) (hsecond : Numbered second) :
    Numbered (first ++ second) := by
  intro id content hmem
  rcases List.mem_append.mp hmem with hmem | hmem
  · exact hfirst id content hmem
  · exact hsecond id content hmem

theorem numbered_singleton {item : ThreadItem} (h : item.userContent = none) : Numbered [item] := by
  intro id content hmem
  rw [← List.mem_singleton.mp hmem] at h
  cases h

/-! ## Items that replace others -/

theorem updateTurn_cons (turn : Turn) (turns : List Turn) (turnId : Str) (f : Turn → Turn) :
    ThreadHistoryBuilder.updateTurn (turn :: turns) turnId f =
      if turn.id = turnId then f turn :: turns else turn :: ThreadHistoryBuilder.updateTurn turns turnId f := by
  unfold ThreadHistoryBuilder.updateTurn
  by_cases h : turn.id = turnId
  · simp [List.findIdx?_cons, h]
  · cases hfind : turns.findIdx? fun turn => decide (turn.id = turnId) with
    | none => simp [List.findIdx?_cons, h, hfind]
    | some idx => simp [List.findIdx?_cons, h, hfind]

/-- The turns show these messages. -/
structure ShowsTurns (turns : List Turn) (past : List (List (List ShownInput))) : Prop where
  contents : turns.map (fun turn => userContents turn.items) = past
  numbered : ∀ turn ∈ turns, Numbered turn.items

theorem ShowsTurns.updateTurn {turns : List Turn} {past : List (List (List ShownInput))} (h : ShowsTurns turns past)
    (turnId : Str) {f : Turn → Turn}
    (hf : ∀ turn, Numbered turn.items →
      userContents (f turn).items = userContents turn.items ∧ Numbered (f turn).items) :
    ShowsTurns (ThreadHistoryBuilder.updateTurn turns turnId f) past := by
  obtain ⟨rfl, hnumbered⟩ := h
  induction turns with
  | nil => exact ⟨rfl, hnumbered⟩
  | cons turn turns ih =>
      obtain ⟨hcontents, hrest⟩ := ih fun other hother => hnumbered other (List.mem_cons_of_mem _ hother)
      obtain ⟨hturn, hnew⟩ := hf turn (hnumbered turn List.mem_cons_self)
      rw [updateTurn_cons]
      split
      · refine ⟨by simp [hturn], ?_⟩
        intro other hother
        rcases List.mem_cons.mp hother with rfl | hother
        · exact hnew
        · exact hnumbered other (List.mem_cons_of_mem _ hother)
      · refine ⟨by simp [hcontents], ?_⟩
        intro other hother
        rcases List.mem_cons.mp hother with rfl | hother
        · exact hnumbered other List.mem_cons_self
        · exact hrest other hother

/-! ## Inside of a turn -/

namespace ThreadHistoryBuilder

/-- A builder in an explicit turn, with the messages of the turns before and of this one. -/
structure InTurn (builder : ThreadHistoryBuilder) (turnId : Str) (past : List (List (List ShownInput)))
    (now : List (List ShownInput)) : Prop where
  past : ShowsTurns builder.turns past
  current : ∃ turn, builder.currentTurn = some turn ∧ turn.id = turnId ∧ turn.openedExplicitly = true ∧
    userContents turn.items = now ∧ Numbered turn.items

variable {builder : ThreadHistoryBuilder} {turnId : Str} {past : List (List (List ShownInput))}
  {now : List (List ShownInput)}

theorem InTurn.withTurn (h : InTurn builder turnId past now) {f : PendingTurn → PendingTurn}
    {added : List (List ShownInput)} (hid : ∀ turn, (f turn).id = turn.id)
    (hopened : ∀ turn, (f turn).openedExplicitly = turn.openedExplicitly)
    (hitems : ∀ turn, Numbered turn.items →
      userContents (f turn).items = userContents turn.items ++ added ∧ Numbered (f turn).items) :
    InTurn (builder.withTurn f) turnId past (now ++ added) := by
  obtain ⟨turn, hturn, rfl, hexplicit, rfl, hnumbered⟩ := h.current
  refine ⟨h.past, f turn, ?_, hid turn, (hopened turn).trans hexplicit, hitems turn hnumbered⟩
  simp [ThreadHistoryBuilder.withTurn, hturn]

theorem InTurn.pushItem (h : InTurn builder turnId past now) {item : ThreadItem} (hitem : Numbered [item]) :
    InTurn (builder.withTurn (pushItem item)) turnId past (now ++ item.userContent.toList) := by
  apply h.withTurn
  · exact fun _ => rfl
  · exact fun _ => rfl
  · intro turn hturn
    refine ⟨?_, hturn.append hitem⟩
    simp only [ThreadHistoryBuilder.pushItem, userContents, List.filterMap_append]
    cases hcontent : item.userContent with
    | none => rw [List.filterMap_cons_none hcontent]; rfl
    | some content => rw [List.filterMap_cons_some hcontent]; rfl

theorem InTurn.pushNumbered (h : InTurn builder turnId past now) {item : Str → ThreadItem}
    (hitem : Numbered [item (itemId builder.nextItemIndex)]) :
    InTurn (builder.pushNumbered item) turnId past
      (now ++ (item (itemId builder.nextItemIndex)).userContent.toList) := by
  have hpush := h.pushItem hitem
  exact ⟨hpush.past, hpush.current⟩

/-- An item that is no message, under the next number. -/
theorem InTurn.pushOther (h : InTurn builder turnId past now) {item : Str → ThreadItem}
    (hitem : ∀ id, (item id).userContent = none) : InTurn (builder.pushNumbered item) turnId past now := by
  have hpush := h.pushNumbered (numbered_singleton (hitem (itemId builder.nextItemIndex)))
  rwa [hitem, Option.toList_none, List.append_nil] at hpush

/-- A change of the turn that is not of its items. -/
theorem InTurn.mapStatus (h : InTurn builder turnId past now) (f : TurnStatus → TurnStatus) :
    InTurn { builder with currentTurn := builder.currentTurn.map fun turn => { turn with status := f turn.status } }
      turnId past now := by
  obtain ⟨turn, hturn, hid, hexplicit, hcontents, hnumbered⟩ := h.current
  exact ⟨h.past, { turn with status := f turn.status }, by simp [hturn], hid, hexplicit, hcontents, hnumbered⟩

theorem InTurn.handleUserMessage (h : InTurn builder turnId past now) (payload : UserMessageEvent) :
    InTurn (builder.handleUserMessage payload) turnId past (now ++ [buildUserInputs payload]) := by
  obtain ⟨turn, hturn, -, hexplicit, -, -⟩ := h.current
  have hsame : builder.handleUserMessage payload =
      builder.pushNumbered fun id => .userMessage id (buildUserInputs payload) := by
    simp [ThreadHistoryBuilder.handleUserMessage, hturn, hexplicit]
  rw [hsame]
  apply h.pushNumbered
  intro id content hmem
  cases List.mem_singleton.mp hmem
  exact ⟨_, rfl⟩

theorem InTurn.handleReasoning (h : InTurn builder turnId past now) (text : Str)
    (extend : List Str × List Str → List Str × List Str) :
    InTurn (builder.handleReasoning text extend) turnId past now := by
  obtain ⟨turn, hturn, hid, hexplicit, hcontents, hnumbered⟩ := h.current
  unfold ThreadHistoryBuilder.handleReasoning
  split
  · exact h
  · simp only [hturn, Option.getD_some]
    split
    · next id summary content hlast =>
        obtain ⟨front, hfront⟩ : ∃ front, turn.items = front ++ [.reasoning id summary content] :=
          ⟨_, (List.dropLast_append_getLast? _ hlast).symm⟩
        have hnew : ∀ item, item.userContent = none →
            userContents (turn.items.dropLast ++ [item]) = now ∧ Numbered (turn.items.dropLast ++ [item]) := by
          intro item hitem
          rw [hfront, List.dropLast_concat]
          constructor
          · rw [← hcontents, hfront]
            simp only [userContents, List.filterMap_append]
            rw [List.filterMap_cons_none hitem, List.filterMap_cons_none rfl]
          · refine Numbered.append ?_ (numbered_singleton hitem)
            intro other content hmem
            exact hnumbered other content (by rw [hfront]; exact List.mem_append_left _ hmem)
        obtain ⟨hcontents', hnumbered'⟩ := hnew (.reasoning id (extend (summary, content)).1 (extend (summary, content)).2) rfl
        refine ⟨h.past, _, rfl, ?_, ?_, ?_⟩
        · simpa [hturn] using hid
        · simpa [hturn] using hexplicit
        · simpa [hturn] using ⟨hcontents', hnumbered'⟩
    · exact h.pushOther fun _ => rfl

theorem InTurn.handleTurnAborted (h : InTurn builder turnId past now) (other : Option Str) :
    InTurn (builder.handleTurnAborted other) turnId past now := by
  unfold ThreadHistoryBuilder.handleTurnAborted
  cases other with
  | none => exact h.mapStatus fun _ => .interrupted
  | some other =>
      simp only
      split
      · exact h.mapStatus fun _ => .interrupted
      · split
        · exact ⟨h.past.updateTurn other fun turn hnumbered => ⟨rfl, hnumbered⟩, h.current⟩
        · exact h.mapStatus fun _ => .interrupted

theorem ShowsTurns.concat {turns : List Turn} (h : ShowsTurns turns past) {turn : Turn}
    (hcontents : userContents turn.items = now) (hnumbered : Numbered turn.items) :
    ShowsTurns (turns ++ [turn]) (past ++ [now]) := by
  refine ⟨by simp [h.contents, hcontents], ?_⟩
  intro other hother
  rcases List.mem_append.mp hother with hother | hother
  · exact h.numbered other hother
  · rw [List.mem_singleton.mp hother]
    exact hnumbered

end ThreadHistoryBuilder

end Codrex.History
