import Codrex.History.Lemmas.Normalize
import Codrex.History.Lemmas.Rollout
import Codrex.History.Lemmas.Rollback
import Codrex.History.Lemmas.Trim
import Codrex.History.Lemmas.TurnStack
import Codrex.History.Lemmas.DropTurns

/-!
# The history that is sent to the model, the one a thread is resumed with, and the one that is shown
-/

namespace Codrex.History

open Text

/-- The prompt has every call with an output and every output with its call, nothing it should not have, and the items
of the history in their order. To normalise it again changes nothing. -/
theorem forPrompt_paired (inputModalities : List InputModality) (items : List ResponseItem) :
    Paired (forPrompt inputModalities items) ∧
      (∀ before call after key, forPrompt inputModalities items = before ++ call :: after →
        call.callKey = some key → ∃ front rest, items = front ++ call :: rest ∧
          before.filter ResponseItem.isCall = front.filter ResponseItem.isCall ∧
          ((∃ output ∈ after, output.outputKey = some key) ↔
            (∃ output ∈ rest, output.outputKey = some key) ∨ ∀ output ∈ items, output.outputKey ≠ some key)) ∧
      (∀ item ∈ forPrompt inputModalities items, item.isGhostSnapshot = false) ∧
      (.image ∉ inputModalities → ∀ item ∈ forPrompt inputModalities items, item.hasImage = false) ∧
      (∀ kept : List ResponseItem, kept.Sublist items →
        (∀ item ∈ kept, item.isGhostSnapshot = false ∧ ¬ item.IsOrphan items) →
          (kept.map (strip inputModalities)).Sublist (forPrompt inputModalities items)) ∧
      normalizeHistory inputModalities (normalizeHistory inputModalities items) =
        normalizeHistory inputModalities items ∧
      forPrompt inputModalities (forPrompt inputModalities items) = forPrompt inputModalities items := by
  have hpaired := paired_normalizeHistory inputModalities items
  have hstrip : ∀ item ∈ normalizeHistory inputModalities items, strip inputModalities item = item := by
    intro item hitem
    obtain ⟨source, -, -, rfl⟩ := mem_normalizeHistory.mp hitem
    exact strip_strip source
  have hprompt : ∀ item ∈ forPrompt inputModalities items,
      item ∈ normalizeHistory inputModalities items ∧ item.isGhostSnapshot = false := by
    intro item hitem
    obtain ⟨hmem, hghost⟩ := List.mem_filter.mp hitem
    exact ⟨hmem, by simpa using hghost⟩
  refine ⟨hpaired.filter_not_ghost, ?_, fun item hitem => (hprompt item hitem).2, ?_, ?_, ?_, ?_⟩
  · intro before call after key hsplit hkey
    exact output_behind_call hsplit hkey
  · intro himage item hitem
    rw [← hstrip item (hprompt item hitem).1, strip, if_neg himage]
    exact hasImage_stripImages item
  · intro kept hsub hkept
    exact map_strip_sublist hsub hkept
  · exact normalizeHistory_of_paired hpaired hstrip
  · have hagain : normalizeHistory inputModalities (forPrompt inputModalities items) = forPrompt inputModalities items :=
      normalizeHistory_of_paired hpaired.filter_not_ghost fun item hitem => hstrip item (hprompt item hitem).1
    rw [forPrompt, hagain]
    apply List.filter_eq_self.mpr
    intro item hitem
    simp [(hprompt item hitem).2]

/-- An output that comes before its call stays where it is, and the call gets no other. -/
theorem forPrompt_output_before_call :
    ¬ ∀ before call after key,
      forPrompt [.text]
          [.functionCallOutput "a" (.fromText "done"), .functionCall none "shell" none "\x7b\x7d" "a"] =
        before ++ call :: after →
      call.callKey = some key → ∃ output ∈ after, output.outputKey = some key := by
  intro h
  obtain ⟨output, houtput, -⟩ := h [.functionCallOutput "a" (.fromText "done")]
    (.functionCall none "shell" none "\x7b\x7d" "a") [] (.function, "a") (by decide) rfl
  cases houtput

/-- Calls and outputs still pair up after a step that takes the last call and the last output under a key together. They
do so after all steps if there are as many calls as outputs. -/
theorem trim_pairsUp_iff (history : ContextManager) (h : PairsUp history.items) :
    (∀ step : TrimStep, PairsUp (step.apply history).items ↔
      ∀ removed ∈ step.removed history.items, ∀ key, removed.pairKey = some key →
        (callCount history.items key = 1 ↔ outputCount history.items key = 1)) ∧
    ((∀ steps, PairsUp (trim history steps).items) ↔
      ∀ key, callCount history.items key = outputCount history.items key) := by
  refine ⟨fun step => ?_, ?_, ?_⟩
  · cases hremoved : step.removed history.items with
    | none =>
        rw [apply_eq_self hremoved]
        simp [h]
    | some removed =>
        rw [(h.trimmed_apply step hremoved).pairsUp_iff h]
        simp
  · intro hsteps key
    by_contra hne
    obtain ⟨steps, hbroken⟩ := exists_trim_not_pairsUp h hne
    exact hbroken (hsteps steps)
  · intro hcounts steps
    exact pairsUp_of_counts_eq (trim_counts_eq hcounts steps)

/-- A call with its output. -/
def pairOnly : ContextManager :=
  ⟨[.functionCall none "shell" none "\x7b\x7d" "a", .functionCallOutput "a" (.fromText "done")], 0, none⟩

theorem trim_pairsUp_iff_pairOnly :
    PairsUp pairOnly.items ∧
      ((∀ steps, PairsUp (trim pairOnly steps).items) ↔
        ∀ key, callCount pairOnly.items key = outputCount pairOnly.items key) := by
  have h : PairsUp pairOnly.items := by
    constructor
    · intro call hcall key hkey
      simp [pairOnly] at hcall
      rcases hcall with rfl | rfl
      · exact ⟨.functionCallOutput "a" (.fromText "done"), by simp [pairOnly], hkey⟩
      · cases hkey
    · intro output houtput key hkey
      simp [pairOnly] at houtput
      rcases houtput with rfl | rfl
      · cases hkey
      · exact ⟨.functionCall none "shell" none "\x7b\x7d" "a", by simp [pairOnly], hkey⟩
  exact ⟨h, (trim_pairsUp_iff pairOnly h).2⟩

/-- An output that was recorded twice is left over. -/
theorem trim_leaves_output :
    PairsUp (pairOnly.items ++ [.functionCallOutput "a" (.fromText "done")]) ∧
      ¬ PairsUp (ContextManager.removeFirstItem
        ⟨pairOnly.items ++ [.functionCallOutput "a" (.fromText "done")], 0, none⟩).items := by
  constructor
  · constructor
    · intro call hcall key hkey
      simp [pairOnly] at hcall
      rcases hcall with rfl | rfl
      · exact ⟨.functionCallOutput "a" (.fromText "done"), by simp, hkey⟩
      · cases hkey
    · intro output houtput key hkey
      simp [pairOnly] at houtput
      rcases houtput with rfl | rfl
      · cases hkey
      · exact ⟨.functionCall none "shell" none "\x7b\x7d" "a", by simp [pairOnly], hkey⟩
  · intro h
    have hleft : (ContextManager.removeFirstItem
        ⟨pairOnly.items ++ [.functionCallOutput "a" (.fromText "done")], 0, none⟩).items =
          [.functionCallOutput "a" (.fromText "done")] := by decide
    rw [hleft] at h
    obtain ⟨call, hcall, hkey⟩ := h.called _ (List.mem_singleton_self _) (.function, "a".toList) rfl
    rw [List.mem_singleton.mp hcall] at hkey
    cases hkey

/-- The history is rebuilt as it was, unless all checkpoints are in one turn and that turn is rolled back. -/
theorem reconstructHistory_eq_replay (env : Externals) {items : List RolloutItem}
    (h : checkpointTurns env items ≠ [.rolledBack]) :
    (reconstructHistoryFromRollout env items).history = (replay env .new items).items := by
  obtain ⟨older, done, turns, rfl, hknows, hactive, hturns⟩ := ReverseScan.run_knows env items
  cases hknows with
  | nothing hstart hbase hsegment hempty hdone =>
      simp only [reconstructHistoryFromRollout, hbase, hstart, List.drop_zero]
  | current replacement hnewest hbase hsegment hempty => simp [hactive] at hsegment
  | several skip hstart hskip hsurvives hmany =>
      obtain ⟨item, hitem, hcheckpoint⟩ := hskip
      obtain ⟨front, rest, hsplit⟩ := List.append_of_mem hitem
      obtain ⟨replacement, hreplacement⟩ := Option.isSome_iff_exists.mp hcheckpoint
      have hsuffix : (older ++ done).drop (older.length + skip) = front ++ item :: rest := by
        rw [List.drop_append, List.drop_of_length_le (by omega), Nat.add_sub_cancel_left, hsplit, List.nil_append]
      have hwhole : older ++ done = (older ++ done.take skip ++ front) ++ item :: rest := by
        rw [List.append_assoc, List.append_assoc, ← hsplit, List.take_append_drop]
      simp only [reconstructHistoryFromRollout, hstart, hsuffix]
      rw [items_replay_checkpoint hreplacement, hwhole, items_replay_checkpoint hreplacement]
  | closed replacement fate hnewest hbase hsegment hfate =>
      obtain ⟨front, item, rest, rfl, hitem, hrest, hstart⟩ := hnewest.split
      have hwhole : older ++ (front ++ item :: rest) = (older ++ front) ++ item :: rest := by rw [List.append_assoc]
      have hsuffix : (older ++ (front ++ item :: rest)).drop (older.length + front.length + 1) = rest := by
        rw [hwhole, ← List.length_append, ← List.drop_drop, List.drop_left, List.drop_one, List.tail_cons]
      have hreplay : (replay env .new (older ++ (front ++ item :: rest))).items =
          (replay env ⟨replacement, 0, none⟩ rest).items := by
        rw [hwhole, items_replay_checkpoint hitem]
      cases fate with
      | survives =>
          simp only [reconstructHistoryFromRollout, hstart, hsuffix, hbase, if_true]
          have hitems : (ContextManager.new.replace replacement).items =
              (⟨replacement, 0, none⟩ : ContextManager).items := rfl
          rw [hreplay, items_replay hitems]
      | rolledBack =>
          -- the suffix begins behind a checkpoint that is not taken as the base
          rcases hturns with heq | ⟨hsurvives, -⟩
          · exact absurd (heq.symm.trans hfate) h
          · simp [hfate] at hsurvives

/-- A user message as the model sees it. -/
def userMessageItem (text : Str) : ResponseItem := .message none "user" [.inputText text] none

/-- No hook prompts and no messages between agents, and outputs that are short. -/
def plainExternals : Externals := ⟨fun _ => false, fun _ => false, fun output => output, fun text _ => text⟩

/-- Both turns are compacted, and the second one is rolled back. -/
def bothTurnsCompacted : List RolloutItem :=
  [.eventMsg (.turnStarted "1"), .eventMsg (.userMessage ⟨"a", none, []⟩), .responseItem (userMessageItem "a"),
    .compacted ⟨"s", some [userMessageItem "a"]⟩, .eventMsg (.turnComplete "1"),
    .eventMsg (.turnStarted "2"), .eventMsg (.userMessage ⟨"b", none, []⟩), .responseItem (userMessageItem "b"),
    .compacted ⟨"t", some [userMessageItem "a", userMessageItem "t"]⟩, .eventMsg (.turnComplete "2"),
    .eventMsg (.threadRolledBack 1)]

theorem reconstructHistory_bothTurnsCompacted :
    (reconstructHistoryFromRollout plainExternals bothTurnsCompacted).history =
      (replay plainExternals .new bothTurnsCompacted).items :=
  reconstructHistory_eq_replay plainExternals (by decide)

/-- Two turns; the second one is compacted and then rolled back. -/
def compactedTurnRolledBack : List RolloutItem :=
  [.eventMsg (.turnStarted "1"), .eventMsg (.userMessage ⟨"a", none, []⟩), .responseItem (userMessageItem "a"),
    .eventMsg (.turnComplete "1"),
    .eventMsg (.turnStarted "2"), .eventMsg (.userMessage ⟨"b", none, []⟩), .responseItem (userMessageItem "b"),
    .compacted ⟨"s", some [userMessageItem "a", userMessageItem "s"]⟩, .eventMsg (.turnComplete "2"),
    .eventMsg (.threadRolledBack 1)]

/-- The first turn is lost: nothing is left, where the replay leaves its message. -/
theorem reconstructHistory_loses_turn :
    (reconstructHistoryFromRollout plainExternals compactedTurnRolledBack).history ≠
      (replay plainExternals .new compactedTurnRolledBack).items := by
  decide

/-- The baseline is kept though a mixed message is dropped, unless one stands right above the dropped turns. All else that
is promised of rollbacks holds. -/
theorem rollsBack_iff (env : Externals) (history : ContextManager) (n m : Nat) :
    RollsBack env history n m ↔
      history.referenceContextItem = none ∨
        ((HasMixedBundle (history.items.drop (turnStart env history.items n)) →
            HasMixedBundle (turnContext env history.items n)) ∧
          (0 < m → HasMixedBundle (turnContext env history.items n) →
            HasMixedBundle (turnContext env history.items (n + m)))) := by
  have hclears : (HasMixedBundle (history.items.drop (history.dropLastNUserTurns env n).items.length) →
        (history.dropLastNUserTurns env n).referenceContextItem = none) ↔
      history.referenceContextItem = none ∨
        (HasMixedBundle (history.items.drop (turnStart env history.items n)) →
          HasMixedBundle (turnContext env history.items n)) := by
    rw [drop_dropLastNUserTurns, (dropLastNUserTurns_spec env history n).2, baseline_eq_none, hasMixedBundle_append]
    tauto
  constructor
  · intro h
    have hreference := (dropLastNUserTurns_reference_add env history n m).mp h.reference
    have hdropped := hclears.mp h.clears
    tauto
  · intro h
    refine ⟨dropLastNUserTurns_items_add env history n m, (dropLastNUserTurns_reference_add env history n m).mpr ?_,
      dropLastNUserTurns_starts env history n, turnCount_dropLastNUserTurns env history n,
      takeWhile_dropLastNUserTurns env history n, hclears.mpr ?_⟩
    · tauto
    · tauto

/-- Three turns, with a part of the initial context above the last one. -/
def mixedBundleAboveLast : ContextManager :=
  ⟨[.message none "user" [.inputText "a"] none, .message none "user" [.inputText "b"] none,
    .message none "developer" [.inputText "<model_switch>", .inputText "plugins"] none,
    .message none "user" [.inputText "c"] none], 0, some ⟨none, "model", none⟩⟩

/-- The same turns are dropped at once and one by one, but the baseline is kept only if they are dropped at once. -/
theorem rollback_keeps_baseline :
    ¬ RollsBack plainExternals mixedBundleAboveLast 1 1 ∧ ¬ RollsBack plainExternals mixedBundleAboveLast 2 0 := by
  have honce : (mixedBundleAboveLast.dropLastNUserTurns plainExternals 2).referenceContextItem =
      some ⟨none, "model", none⟩ := by decide
  constructor
  · intro h
    have htwice : ((mixedBundleAboveLast.dropLastNUserTurns plainExternals 1).dropLastNUserTurns plainExternals
        1).referenceContextItem = none := by decide
    have hreference := h.reference
    rw [htwice, honce] at hreference
    cases hreference
  · intro h
    have hmixed : HasMixedBundle (mixedBundleAboveLast.items.drop
        (mixedBundleAboveLast.dropLastNUserTurns plainExternals 2).items.length) := by
      rw [hasMixedBundle_iff]
      decide
    rw [h.clears hmixed] at honce
    cases honce

/-! ## Turns on a stack -/

/-- What the scan from the end finds is what a stack of turns has, on which rollbacks pop turns: the settings of the
topmost user turn with a context, and the topmost baseline. To stop early does not change it. -/
theorem reconstructed_eq_stack (env : Externals) (rollout : TurnRollout) :
    (reconstructHistoryFromRollout env rollout.items).previousTurnSettings = topSettings env (rollout.stack env) ∧
      (reconstructHistoryFromRollout env rollout.items).referenceContextItem =
        (topBaseline env (rollout.stack env)).join ∧
      (ReverseScan.run env rollout.items).previousTurnSettings =
        (ReverseScan.runWhole env rollout.items).previousTurnSettings ∧
      (ReverseScan.run env rollout.items).referenceContextItem =
        (ReverseScan.runWhole env rollout.items).referenceContextItem := by
  have hbreak := ReverseScan.run_runWhole env rollout.items
  obtain ⟨hsettings, hreference⟩ := ReverseScan.runWhole_stack env rollout
  have hlegacy : (rollout.items.drop (ReverseScan.run env rollout.items).suffixStart).any isLegacyCompaction = false := by
    rw [List.any_eq_false]
    intro item hitem
    simp [rollout.not_legacy item (List.mem_of_mem_drop hitem)]
  refine ⟨hbreak.settings.trans hsettings, ?_, hbreak.settings, hbreak.reference⟩
  simp only [reconstructHistoryFromRollout, hlegacy, Bool.false_eq_true, if_false, hbreak.reference.trans hreference]
  cases topBaseline env (rollout.stack env) with
  | none => rfl
  | some baseline => cases baseline <;> rfl

end Codrex.History
