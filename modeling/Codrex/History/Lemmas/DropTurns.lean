import Codrex.History.Lemmas.Rollback

/-!
# Where a rollback cuts
-/

namespace Codrex.History

open ContextManager

variable {env : Externals} {items : List ResponseItem} {position : Nat}

/-! ## The walk back from the cut -/

theorem not_isContext_of_boundary {item : ResponseItem} (h : isUserTurnBoundary env item = true) :
    item.isContext env = false := by
  cases item with
  | message id role content phase =>
      simp only [isUserTurnBoundary, Bool.or_eq_true, Bool.and_eq_true, Bool.not_eq_true', decide_eq_true_eq] at h
      rcases h with ⟨rfl, hcontent⟩ | ⟨rfl, -⟩
      · simp [ResponseItem.isContext, hcontent]
      · simp [ResponseItem.isContext]
  | _ => rfl

/-- The baseline that is left when items are trimmed. -/
def baseline (trimmed : List ResponseItem) (reference : Option TurnContextItem) : Option TurnContextItem :=
  if trimmed.any (·.isMixedBundle) then none else reference

theorem trimPreTurnContextUpdates_stop {snapshot : List ResponseItem} {first cut : Nat} {item : ResponseItem}
    (hitem : snapshot[cut]? = some item) (hcontext : item.isContext env = false) (reference : Option TurnContextItem) :
    trimPreTurnContextUpdates env snapshot first (cut + 1) reference = (cut + 1, reference) := by
  rw [trimPreTurnContextUpdates, hitem]
  cases item with
  | message id role content phase =>
      obtain ⟨hdev, huser⟩ := Bool.or_eq_false_iff.mp hcontext
      dsimp only
      rw [hdev, huser, if_neg Bool.false_ne_true, if_neg Bool.false_ne_true, ite_self]
  | _ => exact ite_self _

theorem trimPreTurnContextUpdates_pass {snapshot : List ResponseItem} {first cut : Nat} {item : ResponseItem}
    (hfirst : first < cut + 1) (hitem : snapshot[cut]? = some item) (hcontext : item.isContext env = true)
    (reference : Option TurnContextItem) :
    trimPreTurnContextUpdates env snapshot first (cut + 1) reference =
      trimPreTurnContextUpdates env snapshot first cut (baseline [item] reference) := by
  rw [trimPreTurnContextUpdates, if_pos hfirst, hitem]
  cases item with
  | message id role content phase =>
      dsimp only
      by_cases hdev : (role = "developer".toList && isContextualDevMessageContent content) = true
      · rw [if_pos hdev, baseline, List.any_cons, List.any_nil, Bool.or_false, ResponseItem.isMixedBundle, hdev,
          Bool.true_and]
      · have huser := (Bool.or_eq_true_iff.mp hcontext).resolve_left hdev
        rw [if_neg hdev, if_pos huser, baseline, List.any_cons, List.any_nil, Bool.or_false,
          ResponseItem.isMixedBundle, Bool.not_eq_true _ |>.mp hdev, Bool.false_and, if_neg Bool.false_ne_true]
  | _ => cases hcontext

/-- Above the first turn the walk stops by itself. -/
theorem trimPreTurnContextUpdates_eq {snapshot : List ResponseItem} {first : Nat} {boundary : ResponseItem}
    (hboundary : snapshot[first]? = some boundary) (hcontext : boundary.isContext env = false) {cut : Nat}
    (hfirst : first < cut) (hcut : cut ≤ snapshot.length) (reference : Option TurnContextItem) :
    trimPreTurnContextUpdates env snapshot first cut reference =
      (((snapshot.take cut).rdropWhile (·.isContext env)).length,
        baseline ((snapshot.take cut).rtakeWhile (·.isContext env)) reference) := by
  induction cut generalizing reference with
  | zero => exact absurd hfirst (Nat.not_lt_zero first)
  | succ cut ih =>
      have hitem : snapshot[cut]? = some snapshot[cut] := List.getElem?_eq_getElem (by omega)
      rw [List.take_add_one, hitem, Option.toList_some]
      by_cases hpass : snapshot[cut].isContext env = true
      · have hne : first ≠ cut := by
          rintro rfl
          rw [hboundary] at hitem
          rw [Option.some.inj hitem, hpass] at hcontext
          cases hcontext
        rw [trimPreTurnContextUpdates_pass hfirst hitem hpass, ih (by omega) (by omega),
          List.rdropWhile_concat_pos _ _ _ hpass, List.rtakeWhile_concat_pos _ _ _ hpass]
        simp only [baseline, List.any_append, List.any_cons, List.any_nil, Bool.or_false]
        by_cases hmixed : snapshot[cut].isMixedBundle = true
        · simp [hmixed]
        · simp [hmixed]
      · rw [Bool.not_eq_true] at hpass
        have hstop : ¬ snapshot[cut].isContext env = true := by simp [hpass]
        rw [trimPreTurnContextUpdates_stop hitem hpass, List.rdropWhile_concat_neg _ _ _ hstop,
          List.rtakeWhile_concat_neg _ _ _ hstop]
        simp only [List.length_append, List.length_take, List.length_singleton, baseline, List.any_nil,
          Bool.false_eq_true, if_false, Prod.mk.injEq, and_true]
        omega

theorem trimPreTurnContextUpdates_self (env : Externals) (snapshot : List ResponseItem) (first : Nat) (reference : Option TurnContextItem) :
    trimPreTurnContextUpdates env snapshot first first reference = (first, reference) := by
  cases first with
  | zero => rfl
  | succ first => rw [trimPreTurnContextUpdates, if_neg (Nat.lt_irrefl _)]

/-! ## Positions -/

theorem positionsFrom_append (front rest : List ResponseItem) (start : Nat) :
    positionsFrom env (front ++ rest) start =
      positionsFrom env front start ++ positionsFrom env rest (start + front.length) := by
  rw [positionsFrom, List.zipIdx_append, List.filterMap_append]
  rfl

theorem sorted_positionsFrom (items : List ResponseItem) (start : Nat) :
    (positionsFrom env items start).Pairwise (· < ·) ∧ ∀ position ∈ positionsFrom env items start, start ≤ position := by
  induction items generalizing start with
  | nil => exact ⟨.nil, nofun⟩
  | cons item items ih =>
      obtain ⟨hsorted, hle⟩ := ih (start + 1)
      rw [positionsFrom_cons]
      split
      · constructor
        · exact hsorted.cons fun position hposition => hle position hposition
        · intro position hposition
          rcases List.mem_cons.mp hposition with rfl | hlater
          · exact Nat.le_refl _
          · have := hle position hlater
            omega
      · refine ⟨hsorted, fun position hposition => ?_⟩
        have := hle position hposition
        omega

theorem mem_userMessagePositions :
    position ∈ userMessagePositions env items ↔
      ∃ item, items[position]? = some item ∧ isUserTurnBoundary env item = true := by
  simp only [userMessagePositions, List.mem_filterMap, Prod.exists, List.mem_zipIdx_iff_getElem?]
  constructor
  · rintro ⟨item, idx, hitem, hsome⟩
    split at hsome
    · obtain rfl := Option.some.inj hsome
      exact ⟨item, hitem, ‹_›⟩
    · cases hsome
  · rintro ⟨item, hitem, hboundary⟩
    exact ⟨item, position, hitem, if_pos hboundary⟩

theorem lt_length_of_mem_positions (h : position ∈ userMessagePositions env items) : position < items.length := by
  obtain ⟨item, hitem, -⟩ := mem_userMessagePositions.mp h
  exact (List.getElem?_eq_some_iff.mp hitem).1

/-- The turns of a part in front are the first turns. -/
theorem userMessagePositions_of_starts {front : List ResponseItem} (h : front <+: items) :
    userMessagePositions env front = (userMessagePositions env items).take (turnCount env front) := by
  obtain ⟨rest, rfl⟩ := h
  have hitems : userMessagePositions env (front ++ rest) =
      userMessagePositions env front ++ positionsFrom env rest (0 + front.length) := positionsFrom_append front rest 0
  rw [hitems, turnCount, List.take_left]

theorem turnStart_of_some {numTurns : Nat}
    (h : (userMessagePositions env items)[turnCount env items - numTurns]? = some position) :
    turnStart env items numTurns = position := by
  rw [turnStart, h, Option.getD_some]

theorem turnCount_eq (items : List ResponseItem) : turnCount env items = (historyMessages env items).length :=
  length_positionsFrom items 0

/-- From a later turn the walk goes back over the context above it. -/
theorem trim_to_context {first index : Nat} {rest : List Nat}
    (hpositions : userMessagePositions env items = first :: rest)
    (hposition : (userMessagePositions env items)[index]? = some position) (hindex : 0 < index)
    (reference : Option TurnContextItem) :
    trimPreTurnContextUpdates env items first position reference =
      (((items.take position).rdropWhile (·.isContext env)).length,
        baseline ((items.take position).rtakeWhile (·.isContext env)) reference) := by
  have hmem : first ∈ userMessagePositions env items := by simp [hpositions]
  obtain ⟨boundary, hboundary, hturn⟩ := mem_userMessagePositions.mp hmem
  have hle := lt_length_of_mem_positions (List.mem_of_getElem? hposition)
  have hsorted : (userMessagePositions env items).Pairwise (· < ·) := (sorted_positionsFrom items 0).1
  obtain ⟨index, rfl⟩ : ∃ before, index = before + 1 := ⟨index - 1, by omega⟩
  rw [hpositions] at hsorted hposition
  rw [List.getElem?_cons_succ] at hposition
  have hfirst := (List.pairwise_cons.mp hsorted).1 position (List.mem_of_getElem? hposition)
  exact trimPreTurnContextUpdates_eq hboundary (not_isContext_of_boundary hturn) hfirst (Nat.le_of_lt hle) reference

/-! ## One rollback -/

theorem turnContext_of_not {numTurns : Nat} (h : ¬ (0 < numTurns ∧ numTurns < turnCount env items)) :
    turnContext env items numTurns = [] := if_neg h

theorem dropLastNUserTurns_nil {history : ContextManager} {numTurns : Nat} (hzero : numTurns ≠ 0)
    (hpositions : userMessagePositions env history.items = []) :
    history.dropLastNUserTurns env numTurns = history.replace history.items := by
  simp only [dropLastNUserTurns, if_neg hzero, hpositions]

theorem dropLastNUserTurns_cons {history : ContextManager} {numTurns first cut : Nat} {rest : List Nat}
    {reference : Option TurnContextItem} (hzero : numTurns ≠ 0)
    (hpositions : userMessagePositions env history.items = first :: rest)
    (hcut : (if numTurns ≥ (first :: rest).length then first else
      (first :: rest)[(first :: rest).length - numTurns]?.getD 0) = position)
    (htrim : trimPreTurnContextUpdates env history.items first position history.referenceContextItem = (cut, reference)) :
    history.dropLastNUserTurns env numTurns =
      { history with referenceContextItem := reference }.replace (history.items.take cut) := by
  simp only [dropLastNUserTurns, if_neg hzero, hpositions, hcut, htrim]

/-- What is left, with the context that goes with the dropped turns. -/
theorem dropLastNUserTurns_spec (env : Externals) (history : ContextManager) (numTurns : Nat) :
    (history.dropLastNUserTurns env numTurns).items ++ turnContext env history.items numTurns =
        history.items.take (turnStart env history.items numTurns) ∧
      (history.dropLastNUserTurns env numTurns).referenceContextItem =
        baseline (turnContext env history.items numTurns) history.referenceContextItem := by
  by_cases hzero : numTurns = 0
  · subst hzero
    have hend : (userMessagePositions env history.items)[turnCount env history.items - 0]? = none := by
      rw [Nat.sub_zero, turnCount]
      exact List.getElem?_eq_none (Nat.le_refl _)
    rw [dropLastNUserTurns, if_pos rfl, turnContext_of_not (by omega), turnStart, hend, Option.getD_none,
      List.take_length, List.append_nil]
    exact ⟨rfl, rfl⟩
  cases hpositions : userMessagePositions env history.items with
  | nil =>
      have hcount : turnCount env history.items = 0 := by rw [turnCount, hpositions, List.length_nil]
      rw [dropLastNUserTurns_nil hzero hpositions, turnContext_of_not (by omega), turnStart, hpositions,
        List.getElem?_nil, Option.getD_none, List.take_length, List.append_nil]
      exact ⟨rfl, rfl⟩
  | cons first rest =>
      have hcount : turnCount env history.items = (first :: rest).length := by rw [turnCount, hpositions]
      by_cases hall : numTurns ≥ (first :: rest).length
      · have hstart : turnStart env history.items numTurns = first := by
          apply turnStart_of_some
          rw [hcount, hpositions, Nat.sub_eq_zero_of_le hall]
          rfl
        have htrim := trimPreTurnContextUpdates_self env history.items first history.referenceContextItem
        rw [dropLastNUserTurns_cons hzero hpositions (if_pos hall) htrim, turnContext_of_not (by omega), hstart,
          List.append_nil]
        exact ⟨rfl, rfl⟩
      · obtain ⟨position, hposition⟩ : ∃ position, (first :: rest)[(first :: rest).length - numTurns]? = some position :=
          ⟨_, List.getElem?_eq_getElem (by rw [List.length_cons]; omega)⟩
        have hstart : turnStart env history.items numTurns = position := by
          apply turnStart_of_some
          rw [hcount, hpositions, hposition]
        have hcontext : turnContext env history.items numTurns =
            (history.items.take position).rtakeWhile (·.isContext env) := by
          rw [turnContext, if_pos ⟨Nat.pos_of_ne_zero hzero, by omega⟩, hstart]
        have hkept := List.prefix_iff_eq_take.mp
          ((List.rdropWhile_prefix (·.isContext env) (history.items.take position)).trans (List.take_prefix _ _))
        have hlookup : (userMessagePositions env history.items)[(first :: rest).length - numTurns]? = some position := by
          rw [hpositions]
          exact hposition
        have htrim := trim_to_context hpositions hlookup (by omega) history.referenceContextItem
        have hcut : (if numTurns ≥ (first :: rest).length then first
            else (first :: rest)[(first :: rest).length - numTurns]?.getD 0) = position := by
          rw [if_neg hall, hposition, Option.getD_some]
        rw [dropLastNUserTurns_cons hzero hpositions hcut htrim, hcontext, hstart]
        dsimp only [replace]
        rw [← hkept]
        exact ⟨List.rdropWhile_append_rtakeWhile, rfl⟩

section Rollback

variable (env : Externals) (history : ContextManager) (n m : Nat)

theorem dropLastNUserTurns_starts : (history.dropLastNUserTurns env n).items <+: history.items := by
  have hleft := (dropLastNUserTurns_spec env history n).1
  exact (List.prefix_append _ _).trans (hleft ▸ List.take_prefix _ _)

theorem turnCount_dropLastNUserTurns :
    turnCount env (history.dropLastNUserTurns env n).items = turnCount env history.items - n := by
  rw [turnCount_eq, turnCount_eq, historyMessages_dropLastNUserTurns, List.length_take]
  omega

theorem userMessagePositions_dropLastNUserTurns :
    userMessagePositions env (history.dropLastNUserTurns env n).items =
      (userMessagePositions env history.items).take (turnCount env history.items - n) := by
  rw [userMessagePositions_of_starts (dropLastNUserTurns_starts env history n), turnCount_dropLastNUserTurns]

/-- The next rollback cuts where one of both would. -/
theorem take_turnStart_dropLastNUserTurns (hm : 0 < m) :
    (history.dropLastNUserTurns env n).items.take (turnStart env (history.dropLastNUserTurns env n).items m) =
      history.items.take (turnStart env history.items (n + m)) := by
  have hpositions := userMessagePositions_dropLastNUserTurns env history n
  have hcount := turnCount_dropLastNUserTurns env history n
  by_cases hall : turnCount env history.items ≤ n
  · have hspec := (dropLastNUserTurns_spec env history n).1
    rw [turnContext_of_not (by omega), List.append_nil] at hspec
    have hstart : turnStart env (history.dropLastNUserTurns env n).items m =
        (history.dropLastNUserTurns env n).items.length := by
      rw [turnStart, hpositions, Nat.sub_eq_zero_of_le hall, List.take_zero, List.getElem?_nil, Option.getD_none]
    have hsame : turnStart env history.items n = turnStart env history.items (n + m) := by
      rw [turnStart, turnStart, Nat.sub_eq_zero_of_le hall, Nat.sub_eq_zero_of_le (by omega)]
    rw [hstart, List.take_length, hspec, hsame]
  · have hindex : turnCount env history.items - n - m < turnCount env history.items - n := by omega
    obtain ⟨position, hposition⟩ : ∃ position,
        (userMessagePositions env history.items)[turnCount env history.items - (n + m)]? = some position :=
      ⟨_, List.getElem?_eq_getElem (show _ < turnCount env history.items by omega)⟩
    have hthere : (userMessagePositions env (history.dropLastNUserTurns env n).items)[
        turnCount env (history.dropLastNUserTurns env n).items - m]? = some position := by
      rw [hpositions, hcount, List.getElem?_take_of_lt hindex, Nat.sub_sub]
      exact hposition
    have hlt := lt_length_of_mem_positions (List.mem_of_getElem? hthere)
    rw [turnStart_of_some hthere, turnStart_of_some hposition]
    obtain ⟨rest, hrest⟩ := dropLastNUserTurns_starts env history n
    conv_rhs => rw [← hrest, List.take_append_of_le_length (Nat.le_of_lt hlt)]

theorem turnContext_dropLastNUserTurns (hm : 0 < m) :
    turnContext env (history.dropLastNUserTurns env n).items m = turnContext env history.items (n + m) := by
  have hcount := turnCount_dropLastNUserTurns env history n
  by_cases hlt : n + m < turnCount env history.items
  · rw [turnContext, turnContext, if_pos ⟨hm, by omega⟩, if_pos ⟨by omega, hlt⟩,
      take_turnStart_dropLastNUserTurns env history n m hm]
  · rw [turnContext_of_not (by omega), turnContext_of_not (by omega)]

/-! ## Two rollbacks -/

theorem dropLastNUserTurns_items_add :
    ((history.dropLastNUserTurns env n).dropLastNUserTurns env m).items =
      (history.dropLastNUserTurns env (n + m)).items := by
  by_cases hm : m = 0
  · subst hm
    rfl
  · have hpos := Nat.pos_of_ne_zero hm
    have htwice := (dropLastNUserTurns_spec env (history.dropLastNUserTurns env n) m).1
    have honce := (dropLastNUserTurns_spec env history (n + m)).1
    rw [take_turnStart_dropLastNUserTurns env history n m hpos, turnContext_dropLastNUserTurns env history n m hpos,
      ← honce] at htwice
    exact List.append_cancel_right htwice

theorem hasMixedBundle_iff {items : List ResponseItem} : HasMixedBundle items ↔ items.any (·.isMixedBundle) = true := by
  rw [HasMixedBundle, List.any_eq_true]

theorem hasMixedBundle_append {items more : List ResponseItem} :
    HasMixedBundle (items ++ more) ↔ HasMixedBundle items ∨ HasMixedBundle more := by
  rw [hasMixedBundle_iff, hasMixedBundle_iff, hasMixedBundle_iff, List.any_append, Bool.or_eq_true]

theorem baseline_eq_none {trimmed : List ResponseItem} {reference : Option TurnContextItem} :
    baseline trimmed reference = none ↔ reference = none ∨ HasMixedBundle trimmed := by
  rw [hasMixedBundle_iff, baseline]
  by_cases hmixed : trimmed.any (·.isMixedBundle) = true
  · simp [hmixed]
  · simp [hmixed]

/-- The baseline is the one of a single rollback, unless only the first of both passes a mixed message. -/
theorem dropLastNUserTurns_reference_add :
    ((history.dropLastNUserTurns env n).dropLastNUserTurns env m).referenceContextItem =
        (history.dropLastNUserTurns env (n + m)).referenceContextItem ↔
      history.referenceContextItem = none ∨
        (0 < m → HasMixedBundle (turnContext env history.items n) →
          HasMixedBundle (turnContext env history.items (n + m))) := by
  by_cases hm : m = 0
  · subst hm
    exact iff_of_true rfl (.inr fun hpos => absurd hpos (Nat.lt_irrefl 0))
  · have hpos := Nat.pos_of_ne_zero hm
    have htwice := (dropLastNUserTurns_spec env (history.dropLastNUserTurns env n) m).2
    have hfirst := (dropLastNUserTurns_spec env history n).2
    have honce := (dropLastNUserTurns_spec env history (n + m)).2
    rw [turnContext_dropLastNUserTurns env history n m hpos] at htwice
    rw [htwice, hfirst, honce, hasMixedBundle_iff, hasMixedBundle_iff, baseline, baseline, baseline]
    by_cases hboth : (turnContext env history.items (n + m)).any (·.isMixedBundle) = true
    · simp [hboth]
    · by_cases hone : (turnContext env history.items n).any (·.isMixedBundle) = true
      · simp [hboth, hone, hpos, eq_comm]
      · simp [hboth, hone]

/-! ## What is removed -/

theorem drop_dropLastNUserTurns :
    history.items.drop (history.dropLastNUserTurns env n).items.length =
      turnContext env history.items n ++ history.items.drop (turnStart env history.items n) := by
  have hleft := (dropLastNUserTurns_spec env history n).1
  conv_lhs => rw [← List.take_append_drop (turnStart env history.items n) history.items, ← hleft, List.append_assoc]
  exact List.drop_left

/-- No turn begins in front of the first one. -/
theorem length_takeWhile_le_of_boundary {items : List ResponseItem} {position : Nat}
    (h : position ∈ userMessagePositions env items) :
    (items.takeWhile fun item => !isUserTurnBoundary env item).length ≤ position := by
  obtain ⟨item, hitem, hboundary⟩ := mem_userMessagePositions.mp h
  by_contra hlong
  obtain ⟨rest, hrest⟩ := List.takeWhile_prefix (l := items) fun item => !isUserTurnBoundary env item
  have hfront : (items.takeWhile fun item => !isUserTurnBoundary env item)[position]? = some item := by
    rw [← hitem]
    conv_rhs => rw [← hrest, List.getElem?_append_left (by omega)]
  have hnot := List.mem_takeWhile_imp (List.mem_of_getElem? hfront)
  rw [hboundary] at hnot
  cases hnot

theorem takeWhile_dropLastNUserTurns :
    (history.items.takeWhile fun item => !isUserTurnBoundary env item) <+:
      (history.dropLastNUserTurns env n).items := by
  have hfront := List.takeWhile_prefix (l := history.items) fun item => !isUserTurnBoundary env item
  by_cases hall : turnCount env history.items ≤ n
  · have hspec := (dropLastNUserTurns_spec env history n).1
    rw [turnContext_of_not (by omega), List.append_nil] at hspec
    rw [hspec]
    apply List.prefix_take_iff.mpr ⟨hfront, ?_⟩
    rw [turnStart]
    cases hposition : (userMessagePositions env history.items)[turnCount env history.items - n]? with
    | none => exact hfront.length_le
    | some position => exact length_takeWhile_le_of_boundary env (List.mem_of_getElem? hposition)
  · have hpositions := userMessagePositions_dropLastNUserTurns env history n
    obtain ⟨position, hposition⟩ : ∃ position, (userMessagePositions env history.items)[0]? = some position :=
      ⟨_, List.getElem?_eq_getElem (show _ < turnCount env history.items by omega)⟩
    have hthere : position ∈ userMessagePositions env (history.dropLastNUserTurns env n).items := by
      rw [hpositions]
      refine List.mem_of_getElem? (i := 0) ?_
      rw [List.getElem?_take_of_lt (by omega)]
      exact hposition
    have hlt := lt_length_of_mem_positions hthere
    have hle := length_takeWhile_le_of_boundary env (List.mem_of_getElem? hposition)
    exact List.prefix_of_prefix_length_le hfront (dropLastNUserTurns_starts env history n) (by omega)

end Rollback

end Codrex.History
