import Mathlib.Data.List.ReduceOption
import Codrex.History.Lemmas.ThreadHistory

/-!
# The user messages that the history keeps
-/

namespace Codrex.History

open Text

variable {env : Externals}

/-! ## Positions of user turns -/

def positionsFrom (env : Externals) (items : List ResponseItem) (start : Nat) : List Nat :=
  (items.zipIdx start).filterMap fun (item, idx) => if isUserTurnBoundary env item then some idx else none

theorem positionsFrom_cons (item : ResponseItem) (items : List ResponseItem) (start : Nat) :
    positionsFrom env (item :: items) start =
      if isUserTurnBoundary env item then start :: positionsFrom env items (start + 1)
      else positionsFrom env items (start + 1) := by
  rw [positionsFrom, List.zipIdx_cons, List.filterMap_cons]
  by_cases h : isUserTurnBoundary env item = true
  · simp [h, positionsFrom]
  · simp [h, positionsFrom]

theorem length_positionsFrom (items : List ResponseItem) (start : Nat) :
    (positionsFrom env items start).length = (historyMessages env items).length := by
  induction items generalizing start with
  | nil => rfl
  | cons item items ih =>
      rw [positionsFrom_cons, historyMessages, List.filter_cons]
      split
      · rw [List.length_cons, List.length_cons, ih, historyMessages]
      · rw [ih, historyMessages]

/-- The items in front of a boundary hold the boundaries before it. -/
theorem historyMessages_take_position {items : List ResponseItem} {start index position : Nat}
    (h : (positionsFrom env items start)[index]? = some position) :
    start ≤ position ∧
      historyMessages env (items.take (position - start)) = (historyMessages env items).take index := by
  induction items generalizing start index with
  | nil => simp [positionsFrom] at h
  | cons item items ih =>
      rw [positionsFrom_cons] at h
      by_cases hboundary : isUserTurnBoundary env item = true
      · rw [if_pos hboundary] at h
        cases index with
        | zero =>
            obtain rfl : start = position := by simpa using h
            simp [historyMessages]
        | succ index =>
            obtain ⟨hle, hmessages⟩ := ih h
            refine ⟨by omega, ?_⟩
            obtain ⟨skip, rfl⟩ : ∃ skip, position = start + 1 + skip := ⟨position - (start + 1), by omega⟩
            have hskip : start + 1 + skip - start = skip + 1 := by omega
            rw [Nat.add_sub_cancel_left] at hmessages
            rw [hskip, List.take_succ_cons, historyMessages, List.filter_cons_of_pos hboundary, historyMessages,
              List.filter_cons_of_pos hboundary, List.take_succ_cons, ← historyMessages, hmessages, historyMessages]
      · rw [if_neg hboundary] at h
        obtain ⟨hle, hmessages⟩ := ih h
        refine ⟨by omega, ?_⟩
        obtain ⟨skip, rfl⟩ : ∃ skip, position = start + 1 + skip := ⟨position - (start + 1), by omega⟩
        have hskip : start + 1 + skip - start = skip + 1 := by omega
        rw [Nat.add_sub_cancel_left] at hmessages
        rw [hskip, List.take_succ_cons, historyMessages, List.filter_cons_of_neg hboundary, historyMessages,
          List.filter_cons_of_neg hboundary, ← historyMessages, hmessages, historyMessages]

theorem not_boundary_developer {id : Option Str} {content : List ContentItem} {phase : Option MessagePhase} :
    isUserTurnBoundary env (.message id "developer".toList content phase) = false := by
  simp [isUserTurnBoundary]

theorem not_boundary_contextual {id : Option Str} {content : List ContentItem} {phase : Option MessagePhase}
    (h : isContextualUserMessageContent env content = true) :
    isUserTurnBoundary env (.message id "user".toList content phase) = false := by
  simp [isUserTurnBoundary, h]

/-- The walk back from the cut passes no boundary. -/
theorem historyMessages_trim (snapshot : List ResponseItem) (first cut : Nat) (reference : Option TurnContextItem) :
    historyMessages env
        (snapshot.take (ContextManager.trimPreTurnContextUpdates env snapshot first cut reference).1) =
      historyMessages env (snapshot.take cut) := by
  induction cut generalizing reference with
  | zero => rfl
  | succ cut ih =>
      have hpass : ∀ item, snapshot[cut]? = some item → isUserTurnBoundary env item = false →
          historyMessages env (snapshot.take cut) = historyMessages env (snapshot.take (cut + 1)) := by
        intro item hitem hboundary
        rw [List.take_add_one, hitem]
        simp [historyMessages, hboundary]
      unfold ContextManager.trimPreTurnContextUpdates
      split
      · split
        · next id role content phase hitem =>
            split
            · next hdev =>
                obtain ⟨hrole, -⟩ := Bool.and_eq_true_iff.mp hdev
                obtain rfl := of_decide_eq_true hrole
                rw [ih]
                exact hpass _ hitem not_boundary_developer
            · split
              · next huser =>
                  obtain ⟨hrole, hcontextual⟩ := Bool.and_eq_true_iff.mp huser
                  obtain rfl := of_decide_eq_true hrole
                  rw [ih]
                  exact hpass _ hitem (not_boundary_contextual hcontextual)
              · rfl
        · rfl
      · rfl

/-- A rollback drops the last boundaries. -/
theorem historyMessages_dropLastNUserTurns (history : ContextManager) (numTurns : Nat) :
    historyMessages env (history.dropLastNUserTurns env numTurns).items =
      (historyMessages env history.items).take ((historyMessages env history.items).length - numTurns) := by
  have hlength := @length_positionsFrom env history.items 0
  unfold ContextManager.dropLastNUserTurns
  by_cases hzero : numTurns = 0
  · simp [hzero]
  · have hpositions : ContextManager.userMessagePositions env history.items = positionsFrom env history.items 0 := rfl
    simp only [hzero, if_false, hpositions]
    cases hcases : positionsFrom env history.items 0 with
    | nil =>
        rw [hcases, List.length_nil] at hlength
        rw [List.eq_nil_of_length_eq_zero hlength.symm, List.take_nil]
        exact List.eq_nil_of_length_eq_zero hlength.symm
    | cons first rest =>
        rw [hcases] at hlength
        simp only [ContextManager.replace]
        rw [historyMessages_trim, ← hlength]
        -- The cut is the boundary with the index `length - numTurns`, also where that is 0.
        obtain ⟨position, hposition⟩ : ∃ position,
            (first :: rest)[(first :: rest).length - numTurns]? = some position :=
          ⟨_, List.getElem?_eq_getElem (by rw [List.length_cons]; omega)⟩
        have hcut : (if numTurns ≥ (first :: rest).length then first
            else (first :: rest)[(first :: rest).length - numTurns]?.getD 0) = position := by
          by_cases hall : numTurns ≥ (first :: rest).length
          · rw [Nat.sub_eq_zero_of_le hall] at hposition
            rw [if_pos hall]
            exact Option.some.inj hposition
          · rw [if_neg hall, hposition, Option.getD_some]
        rw [hcut]
        rw [← hcases] at hposition
        have htake := (historyMessages_take_position hposition).2
        rw [Nat.sub_zero, hcases] at htake
        exact htake

/-! ## Recording -/

end Codrex.History
