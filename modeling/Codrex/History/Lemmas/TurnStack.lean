import Codrex.History.Spec

/-!
# The scan and the stack of turns
-/

namespace Codrex.History

open Text Fallible

variable {env : Externals}

def TurnReferenceContextItem.ofBaseline : Option (Option TurnContextItem) → TurnReferenceContextItem
  | none => .neverSet
  | some none => .cleared
  | some (some context) => .latest context

namespace ReverseScan

variable {scan next : ReverseScan}

/-! ## The early break -/

structure SameResults (scan next : ReverseScan) : Prop where
  base : next.baseReplacementHistory = scan.baseReplacementHistory
  settings : next.previousTurnSettings = scan.previousTurnSettings
  reference : next.referenceContextItem = scan.referenceContextItem

theorem SameResults.isDone (h : SameResults scan next) : next.isDone = scan.isDone := by
  rw [ReverseScan.isDone, h.base, h.settings, h.reference]
  rfl

theorem SameResults.trans {last : ReverseScan} (h : SameResults scan next) (hlast : SameResults next last) :
    SameResults scan last :=
  ⟨hlast.base.trans h.base, hlast.settings.trans h.settings, hlast.reference.trans h.reference⟩

/-- What is known is not changed by a segment. -/
theorem sameResults_finalize (h : scan.isDone = true) (segment : ActiveReplaySegment) :
    SameResults scan (finalizeActiveSegment { scan with activeSegment := none } segment) := by
  simp only [isDone, Bool.and_eq_true, decide_eq_true_eq] at h
  obtain ⟨⟨hbase, hsettings⟩, hreference⟩ := h
  obtain ⟨base, hbase⟩ := Option.isSome_iff_exists.mp hbase
  obtain ⟨settings, hsettings⟩ := Option.isSome_iff_exists.mp hsettings
  unfold finalizeActiveSegment
  split
  · split
    · exact ⟨rfl, rfl, rfl⟩
    · exact ⟨rfl, rfl, rfl⟩
  · refine ⟨?_, ?_, ?_⟩
    · simp [hbase]
    · simp [hsettings]
    · simp [hreference]

theorem sameResults_scanItem (h : scan.isDone = true) (index : Nat) (item : RolloutItem) :
    SameResults scan (scan.scanItem env index item) := by
  cases item with
  | sessionMeta => exact ⟨rfl, rfl, rfl⟩
  | responseItem item => exact ⟨rfl, rfl, rfl⟩
  | turnContext context => exact ⟨rfl, rfl, rfl⟩
  | compacted compacted =>
      simp only [scanItem, ReverseScan.compacted]
      split
      · exact ⟨rfl, rfl, rfl⟩
      · exact ⟨rfl, rfl, rfl⟩
  | eventMsg event =>
      cases event with
      | turnStarted turnId =>
          simp only [scanItem, turnStarted]
          split
          · split
            · exact sameResults_finalize h _
            · exact ⟨rfl, rfl, rfl⟩
          · exact ⟨rfl, rfl, rfl⟩
      | turnAborted turnId =>
          simp only [scanItem, turnAborted]
          split
          · exact ⟨rfl, rfl, rfl⟩
          · exact ⟨rfl, rfl, rfl⟩
          · exact ⟨rfl, rfl, rfl⟩
      | _ => exact ⟨rfl, rfl, rfl⟩

/-- The last segment is taken with the others. -/
def close (scan : ReverseScan) : ReverseScan :=
  match scan.activeSegment with
  | some segment => finalizeActiveSegment { scan with activeSegment := none } segment
  | none => scan

theorem sameResults_close (h : scan.isDone = true) : SameResults scan scan.close := by
  unfold close
  split
  · exact sameResults_finalize h _
  · exact ⟨rfl, rfl, rfl⟩

theorem sameResults_foldl (older : List (RolloutItem × Nat)) (h : scan.isDone = true) :
    SameResults scan (older.foldl (fun scan entry => scanItem env scan entry.2 entry.1) scan) := by
  induction older generalizing scan with
  | nil => exact ⟨rfl, rfl, rfl⟩
  | cons entry older ih =>
      have hsame : SameResults scan (scan.scanItem env entry.2 entry.1) := sameResults_scanItem h entry.2 entry.1
      exact hsame.trans (ih (hsame.isDone.trans h))

theorem scanLoop_foldl (older : List (RolloutItem × Nat)) (scan : ReverseScan) :
    SameResults (older.foldl (fun scan entry => scanItem env scan entry.2 entry.1) scan).close
      (scanLoop env older scan).close := by
  induction older generalizing scan with
  | nil => exact ⟨rfl, rfl, rfl⟩
  | cons entry older ih =>
      obtain ⟨item, index⟩ := entry
      simp only [List.foldl_cons, scanLoop]
      split
      · next hdone =>
          have hfold := @sameResults_foldl env _ older hdone
          have hwhole := hfold.trans (sameResults_close (hfold.isDone.trans hdone))
          have hbroken := sameResults_close hdone
          exact ⟨hbroken.base.trans hwhole.base.symm, hbroken.settings.trans hwhole.settings.symm,
            hbroken.reference.trans hwhole.reference.symm⟩
      · exact ih _

/-- The early break does not change what is found. -/
theorem run_runWhole (env : Externals) (items : List RolloutItem) : SameResults (runWhole env items) (run env items) :=
  scanLoop_foldl items.zipIdx.reverse start

/-! ## The scan without positions -/

/-- All but the position that the replay starts at. -/
def core (scan : ReverseScan) : ReverseScan := { scan with suffixStart := 0 }

theorem core_finalize (scan : ReverseScan) (segment : ActiveReplaySegment) :
    (scan.finalizeActiveSegment segment).core = (scan.core.finalizeActiveSegment segment).core := by
  have hpending : scan.core.pendingRollbackTurns = scan.pendingRollbackTurns := rfl
  unfold finalizeActiveSegment
  rw [hpending]
  split
  · split
    · rfl
    · rfl
  · rfl

theorem core_scanItem (scan : ReverseScan) (index : Nat) (item : RolloutItem) :
    (scan.scanItem env index item).core = (scan.core.scanItem env 0 item).core := by
  have hactive : scan.core.activeSegment = scan.activeSegment := rfl
  cases item with
  | compacted compacted =>
      simp only [scanItem, ReverseScan.compacted, hactive]
      split
      · rfl
      · rfl
  | eventMsg event =>
      cases event with
      | turnStarted turnId =>
          simp only [scanItem, turnStarted, hactive]
          split
          · split
            · exact core_finalize { scan with activeSegment := none } _
            · rfl
          · rfl
      | turnAborted turnId =>
          simp only [scanItem, turnAborted, hactive]
          split
          · rfl
          · rfl
          · rfl
      | _ => rfl
  | _ => rfl

def scanCore (env : Externals) (item : RolloutItem) (scan : ReverseScan) : ReverseScan := (scan.scanItem env 0 item).core

theorem core_foldr_zipIdx (items : List RolloutItem) (first : Nat) (scan : ReverseScan) :
    ((items.zipIdx first).foldr (fun entry scan => scanItem env scan entry.2 entry.1) scan).core =
      items.foldr (scanCore env) scan.core := by
  induction items generalizing first with
  | nil => rfl
  | cons item items ih =>
      rw [List.zipIdx_cons, List.foldr_cons, core_scanItem, ih]
      rfl

/-! ## One turn -/

/-- What the scan has of a turn, at its start. -/
def segmentOf (env : Externals) (turn : FinishedTurn) : ActiveReplaySegment where
  turnId := some turn.turnId
  countsAsUserTurn := turn.isUserTurn env
  previousTurnSettings := turn.settings
  referenceContextItem := .ofBaseline turn.lastBaseline
  baseReplacementHistory := turn.body.reverse.findSome? RolloutItem.checkpoint

theorem turnIdsAreCompatible_some (turnId : Str) (other : Option Str) :
    turnIdsAreCompatible (some turnId) other = other.all (· = turnId) := by
  cases other <;> rfl

theorem settings_cons (turnId : Str) (item : RolloutItem) (body : List RolloutItem) :
    (FinishedTurn.mk turnId (item :: body)).settings =
      (FinishedTurn.mk turnId [item]).settings.or (FinishedTurn.mk turnId body).settings := by
  have hcontext : ∀ body, (FinishedTurn.mk turnId body).contextOf = (FinishedTurn.mk turnId []).contextOf := fun _ => rfl
  simp only [FinishedTurn.settings, hcontext, List.findSome?_cons, List.findSome?_nil]
  cases (FinishedTurn.mk turnId []).contextOf item <;> rfl

theorem lastBaseline_cons (turnId : Str) (item : RolloutItem) (body : List RolloutItem) :
    (FinishedTurn.mk turnId (item :: body)).lastBaseline =
      (FinishedTurn.mk turnId body).lastBaseline.or ((FinishedTurn.mk turnId body).baselineOf item) := by
  have hbaseline : (FinishedTurn.mk turnId (item :: body)).baselineOf = (FinishedTurn.mk turnId body).baselineOf := rfl
  simp only [FinishedTurn.lastBaseline, List.reverse_cons, List.findSome?_append, hbaseline]
  congr 1
  simp only [List.findSome?_cons, List.findSome?_nil]
  cases (FinishedTurn.mk turnId body).baselineOf item <;> rfl

/-- The turn with one item more in front. -/
theorem segmentOf_cons (turnId : Str) (item : RolloutItem) (body : List RolloutItem) :
    segmentOf env ⟨turnId, item :: body⟩ =
      { turnId := some turnId
        countsAsUserTurn := (FinishedTurn.mk turnId [item]).isUserTurn env || (FinishedTurn.mk turnId body).isUserTurn env
        previousTurnSettings := (FinishedTurn.mk turnId [item]).settings.or (FinishedTurn.mk turnId body).settings
        referenceContextItem :=
          .ofBaseline ((FinishedTurn.mk turnId body).lastBaseline.or ((FinishedTurn.mk turnId body).baselineOf item))
        baseReplacementHistory := (segmentOf env ⟨turnId, body⟩).baseReplacementHistory.or item.checkpoint } := by
  have hbase : (item :: body).reverse.findSome? RolloutItem.checkpoint =
      (body.reverse.findSome? RolloutItem.checkpoint).or item.checkpoint := by
    rw [List.reverse_cons, List.findSome?_append]
    congr 1
    simp only [List.findSome?_cons, List.findSome?_nil]
    cases item.checkpoint <;> rfl
  unfold segmentOf
  rw [settings_cons turnId item body, lastBaseline_cons turnId item body, hbase]
  simp only [FinishedTurn.isUserTurn, List.any_cons, List.any_nil, Bool.or_false]

theorem ofBaseline_eq_neverSet {baseline : Option (Option TurnContextItem)} :
    TurnReferenceContextItem.ofBaseline baseline = .neverSet ↔ baseline = none := by
  cases baseline with
  | none => simp [TurnReferenceContextItem.ofBaseline]
  | some context => cases context <;> simp [TurnReferenceContextItem.ofBaseline]

/-- The newest baseline event stands. -/
theorem ofBaseline_or (baseline older : Option (Option TurnContextItem)) :
    TurnReferenceContextItem.ofBaseline (baseline.or older) =
      if TurnReferenceContextItem.ofBaseline baseline = .neverSet then .ofBaseline older else .ofBaseline baseline := by
  cases baseline with
  | none => rfl
  | some context => rw [if_neg (by simp [ofBaseline_eq_neverSet]), Option.some_or]

theorem turnContext_segmentOf (turnId : Str) (context : TurnContextItem) (body : List RolloutItem) :
    turnContext context (segmentOf env ⟨turnId, body⟩) = segmentOf env ⟨turnId, .turnContext context :: body⟩ := by
  have hcontext : (FinishedTurn.mk turnId body).contextOf (.turnContext context) =
      if context.turnId.all (· = turnId) then some context else none := rfl
  have hsettings : (FinishedTurn.mk turnId [.turnContext context]).settings =
      if context.turnId.all (· = turnId) then some ⟨context.model, context.realtimeActive⟩ else none := by
    simp only [FinishedTurn.settings, FinishedTurn.contextOf, List.findSome?_cons, List.findSome?_nil]
    split
    · next hsome =>
        split at hsome
        · obtain rfl := Option.some.inj hsome
          rw [if_pos ‹_›]
          rfl
        · cases hsome
    · next hnone =>
        split at hnone
        · cases hnone
        · rw [if_neg ‹_›]
          rfl
  have hturnId : (segmentOf env ⟨turnId, body⟩).turnId.or context.turnId = some turnId := rfl
  rw [segmentOf_cons, hsettings]
  simp only [turnContext, hturnId, turnIdsAreCompatible_some, FinishedTurn.baselineOf, hcontext]
  by_cases hcompatible : context.turnId.all (· = turnId) = true
  · simp only [hcompatible, if_true, Option.map_some, Option.some_or, ofBaseline_or]
    simp [segmentOf, FinishedTurn.isUserTurn, RolloutItem.checkpoint]
    rfl
  · simp only [hcompatible, Bool.false_eq_true, if_false, Option.map_none, Option.or_none, Option.none_or]
    simp [segmentOf, FinishedTurn.isUserTurn, RolloutItem.checkpoint]

theorem compacted_core {segment : ActiveReplaySegment} (hscan : scan.activeSegment = some segment) {index : Nat}
    {compacted : CompactedItem} {replacement : List ResponseItem}
    (hreplacement : compacted.replacementHistory = some replacement) :
    (scan.compacted index compacted).core =
      { scan.core with
        activeSegment := some
          { segment with
            referenceContextItem :=
              if segment.referenceContextItem = .neverSet then .cleared else segment.referenceContextItem
            baseReplacementHistory := segment.baseReplacementHistory.or (some replacement) } } := by
  simp only [ReverseScan.compacted, hscan, Option.getD_some, hreplacement]
  obtain ⟨turnId, countsAsUserTurn, settings, reference, base⟩ := segment
  cases base with
  | none =>
      by_cases hset : reference = .neverSet
      · simp only [hset, if_true]
        rfl
      · simp only [hset, if_false]
        rfl
  | some base =>
      by_cases hset : reference = .neverSet
      · simp only [hset, if_true]
        rfl
      · simp only [hset, if_false]
        rfl

theorem scanCore_inside {item : RolloutItem} (h : item.IsInside) (turnId : Str) (body : List RolloutItem)
    (hscan : scan.activeSegment = some (segmentOf env ⟨turnId, body⟩)) :
    scanCore env item scan = { scan.core with activeSegment := some (segmentOf env ⟨turnId, item :: body⟩) } := by
  have hneutral : (FinishedTurn.mk turnId [item]).isUserTurn env = false →
      (FinishedTurn.mk turnId [item]).settings = none → (FinishedTurn.mk turnId body).baselineOf item = none →
      item.checkpoint = none → segmentOf env ⟨turnId, item :: body⟩ = segmentOf env ⟨turnId, body⟩ := by
    intro huser hsettings hbaseline hcheckpoint
    rw [segmentOf_cons, huser, hsettings, hbaseline, hcheckpoint]
    simp [segmentOf]
  cases item with
  | sessionMeta =>
      rw [hneutral rfl rfl rfl rfl, ← hscan]
      rfl
  | responseItem item =>
      simp only [scanCore, scanItem, updateSegment, hscan, Option.getD_some, segmentOf_cons]
      simp [core, segmentOf, FinishedTurn.isUserTurn, FinishedTurn.settings, FinishedTurn.contextOf,
        FinishedTurn.baselineOf, RolloutItem.checkpoint, Bool.or_comm]
  | turnContext context =>
      simp only [scanCore, scanItem, updateSegment, hscan, Option.getD_some, turnContext_segmentOf]
      rfl
  | compacted compacted =>
      have hsome : (RolloutItem.compacted compacted).checkpoint = compacted.replacementHistory := rfl
      obtain ⟨replacement, hreplacement⟩ := Option.isSome_iff_exists.mp h
      have hreference : TurnReferenceContextItem.ofBaseline ((FinishedTurn.mk turnId body).baselineOf
        (.compacted compacted)) = .cleared := rfl
      rw [segmentOf_cons, ofBaseline_or, hreference, hsome, hreplacement]
      rw [scanCore, scanItem, compacted_core hscan hreplacement]
      rfl
  | eventMsg event =>
      cases event with
      | turnStarted turnId => cases h
      | turnComplete turnId => cases h
      | threadRolledBack numTurns => cases h
      | turnAborted aborted =>
          rw [hneutral rfl rfl rfl rfl, ← hscan]
          simp [scanCore, scanItem, turnAborted, hscan, segmentOf, core]
      | userMessage payload =>
          simp only [scanCore, scanItem, updateSegment, hscan, Option.getD_some, segmentOf_cons]
          simp [core, segmentOf, FinishedTurn.isUserTurn, FinishedTurn.settings, FinishedTurn.contextOf,
            FinishedTurn.baselineOf, RolloutItem.checkpoint]
      | _ =>
          rw [hneutral rfl rfl rfl rfl, ← hscan]
          rfl

theorem foldr_inside (turnId : Str) {body : List RolloutItem} (h : ∀ item ∈ body, item.IsInside)
    (hscan : scan.activeSegment = some (segmentOf env ⟨turnId, []⟩)) (hcore : scan.core = scan) :
    body.foldr (scanCore env) scan = { scan with activeSegment := some (segmentOf env ⟨turnId, body⟩) } := by
  induction body with
  | nil =>
      rw [List.foldr_nil, ← hscan]
  | cons item body ih =>
      rw [List.foldr_cons, ih fun item hitem => h item (List.mem_cons_of_mem _ hitem),
        scanCore_inside (h item List.mem_cons_self) turnId body rfl]
      rw [← hcore]
      rfl

/-- A turn that is scanned from its end to its start. -/
theorem foldr_turn {turn : FinishedTurn} (h : ∀ item ∈ turn.body, item.IsInside) (hactive : scan.activeSegment = none)
    (hcore : scan.core = scan) :
    turn.items.foldr (scanCore env) scan = (finalizeActiveSegment scan (segmentOf env turn)).core := by
  have hcomplete : scanCore env (.eventMsg (.turnComplete turn.turnId)) scan =
      { scan with activeSegment := some (segmentOf env ⟨turn.turnId, []⟩) } := by
    rw [← hcore]
    simp only [scanCore, scanItem, updateSegment]
    have hnone : scan.core.activeSegment = none := hactive
    rw [hnone]
    rfl
  have hcompatible : turnIdsAreCompatible (some turn.turnId) (some turn.turnId) = true := by
    simp [turnIdsAreCompatible]
  rw [FinishedTurn.items, List.cons_append, List.foldr_cons, List.foldr_append, List.foldr_cons, List.foldr_nil, hcomplete,
    foldr_inside turn.turnId h rfl (by rw [← hcore]; rfl)]
  have hstarted : ∀ segment, segment.turnId = some turn.turnId →
      turnStarted { scan with activeSegment := some segment } turn.turnId =
        finalizeActiveSegment { scan with activeSegment := none } segment := by
    intro segment hsegment
    simp only [turnStarted, hsegment, hcompatible, if_true]
  have hnone : { scan with activeSegment := none } = scan := by rw [← hactive]
  rw [scanCore, scanItem, hstarted _ rfl, hnone]

/-! ## Turn after turn -/

def maxPending : Nat := 2 ^ 64 - 1

/-- The scan has what the turns that survive so far say, and waits for the same number of turns. -/
structure Follows (env : Externals) (scan : ReverseScan) (state : Nat × List FinishedTurn) : Prop where
  core : scan.core = scan
  active : scan.activeSegment = none
  pending : scan.pendingRollbackTurns = state.1
  settings : scan.previousTurnSettings = topSettings env state.2
  reference : scan.referenceContextItem = .ofBaseline (topBaseline env state.2)

theorem topSettings_concat (stack : List FinishedTurn) (turn : FinishedTurn) :
    topSettings env (stack ++ [turn]) =
      (topSettings env stack).or (if turn.isUserTurn env then turn.settings else none) := by
  unfold topSettings
  rw [List.findSome?_append]
  congr 1
  simp only [List.findSome?_cons, List.findSome?_nil]
  split
  · next hsome => exact hsome.symm
  · next hnone => exact hnone.symm

theorem topBaseline_concat (stack : List FinishedTurn) (turn : FinishedTurn) :
    topBaseline env (stack ++ [turn]) =
      (topBaseline env stack).or
        (turn.lastBaseline.filter fun baseline => turn.isUserTurn env || baseline.isNone) := by
  unfold topBaseline
  rw [List.findSome?_append]
  congr 1
  simp only [List.findSome?_cons, List.findSome?_nil]
  split
  · next hsome => exact hsome.symm
  · next hnone => exact hnone.symm

theorem ofBaseline_filter (isUserTurn : Bool) (baseline : Option (Option TurnContextItem)) :
    TurnReferenceContextItem.ofBaseline (baseline.filter fun context => isUserTurn || context.isNone) =
      if isUserTurn || TurnReferenceContextItem.ofBaseline baseline = .cleared then .ofBaseline baseline
      else .neverSet := by
  cases baseline with
  | none => cases isUserTurn <;> rfl
  | some context => cases context <;> cases isUserTurn <;> rfl

/-- A turn that survives, below those that were found. -/
theorem follows_finalize {turn : FinishedTurn} {survivors : List FinishedTurn} (h : Follows env scan (0, survivors)) :
    Follows env (finalizeActiveSegment scan (segmentOf env turn)).core (0, survivors ++ [turn]) := by
  have hpending : ¬ scan.pendingRollbackTurns > 0 := by
    rw [h.pending]
    exact Nat.lt_irrefl 0
  rw [finalizeActiveSegment, if_neg hpending]
  refine ⟨rfl, h.active, h.pending, ?_, ?_⟩
  · rw [topSettings_concat, ← h.settings]
    simp only [core, segmentOf]
    cases scan.previousTurnSettings with
    | none => simp
    | some settings => simp
  · have hsegment : (segmentOf env turn).referenceContextItem = .ofBaseline turn.lastBaseline := rfl
    have huser : (segmentOf env turn).countsAsUserTurn = turn.isUserTurn env := rfl
    rw [topBaseline_concat, ofBaseline_or, ofBaseline_filter, ← h.reference]
    simp only [core, hsegment, huser]
    by_cases hset : scan.referenceContextItem = .neverSet
    · simp only [hset, decide_true, Bool.true_and, if_true]
    · simp only [hset, decide_false, Bool.false_and, Bool.false_eq_true, if_false]

theorem follows_turn {turn : FinishedTurn} {state : Nat × List FinishedTurn} (h : Follows env scan state)
    (hinside : ∀ item ∈ turn.body, item.IsInside) :
    Follows env (turn.items.foldr (scanCore env) scan)
      (RollbackStack.before (FinishedTurn.isUserTurn env) maxPending (.push turn) state) := by
  rw [foldr_turn hinside h.active h.core]
  obtain ⟨pending, survivors⟩ := state
  have hpending := h.pending
  have hactive := h.active
  cases pending with
  | succ n =>
      simp only [finalizeActiveSegment, hpending, segmentOf, RollbackStack.before, gt_iff_lt, Nat.zero_lt_succ, if_true]
      cases turn.isUserTurn env with
      | true => exact ⟨rfl, hactive, rfl, h.settings, h.reference⟩
      | false => exact ⟨rfl, hactive, hpending, h.settings, h.reference⟩
  | zero => exact follows_finalize h

theorem follows_part {part : RolloutPart} {state : Nat × List FinishedTurn} (h : Follows env scan state)
    (hinside : ∀ turn, part = .turn turn → ∀ item ∈ turn.body, item.IsInside)
    (hbeside : ∀ item, part = .beside item → item.IsBeside) :
    Follows env (part.items.foldr (scanCore env) scan)
      (part.event?.toList.foldr (RollbackStack.before (FinishedTurn.isUserTurn env) maxPending) state) := by
  cases part with
  | turn turn => exact follows_turn h (hinside turn rfl)
  | rolledBack numTurns =>
      have hpending : saturatingAdd scan.pendingRollbackTurns numTurns.toNat =
          min (state.1 + numTurns.toNat) maxPending := by
        rw [h.pending]
        rfl
      exact ⟨rfl, h.active, hpending, h.settings, h.reference⟩
  | beside item =>
      have hitem := hbeside item rfl
      have hsame : scanCore env item scan = scan := by
        rw [← h.core]
        cases item with
        | sessionMeta => rfl
        | responseItem item => cases hitem
        | compacted compacted => cases hitem
        | turnContext context => cases hitem
        | eventMsg event =>
            cases event with
            | userMessage payload => cases hitem
            | turnStarted turnId => cases hitem
            | turnComplete turnId => cases hitem
            | turnAborted turnId => cases hitem
            | threadRolledBack numTurns => cases hitem
            | _ => rfl
      have hfold : (RolloutPart.beside item).items.foldr (scanCore env) scan = scan := hsame
      rw [hfold]
      exact h

theorem follows_parts {parts : List RolloutPart}
    (hinside : ∀ turn, .turn turn ∈ parts → ∀ item ∈ turn.body, item.IsInside)
    (hbeside : ∀ item, .beside item ∈ parts → item.IsBeside) :
    Follows env ((parts.flatMap RolloutPart.items).foldr (scanCore env) start)
      (RollbackStack.fromEnd (FinishedTurn.isUserTurn env) maxPending (parts.filterMap RolloutPart.event?)) := by
  induction parts with
  | nil => exact ⟨rfl, rfl, rfl, rfl, rfl⟩
  | cons part parts ih =>
      have hparts := ih (fun turn hturn => hinside turn (List.mem_cons_of_mem _ hturn))
        (fun item hitem => hbeside item (List.mem_cons_of_mem _ hitem))
      have hpart := follows_part hparts (fun turn hturn => hinside turn (hturn ▸ List.mem_cons_self))
        (fun item hitem => hbeside item (hitem ▸ List.mem_cons_self))
      rw [List.flatMap_cons, List.foldr_append, List.filterMap_cons]
      cases hevent : part.event? with
      | none =>
          rw [hevent] at hpart
          exact hpart
      | some event =>
          rw [hevent] at hpart
          exact hpart

/-! ## The whole rollout -/

theorem length_filterMap_le (parts : List RolloutPart) :
    (parts.filterMap RolloutPart.event?).length ≤ (parts.flatMap RolloutPart.items).length := by
  have hitems : ∀ part : RolloutPart, 1 ≤ part.items.length := by
    intro part
    cases part <;> simp [RolloutPart.items, FinishedTurn.items]
  calc (parts.filterMap RolloutPart.event?).length ≤ parts.length := List.length_filterMap_le _ _
    _ ≤ (parts.flatMap RolloutPart.items).length := by
      induction parts with
      | nil => exact Nat.le_refl 0
      | cons part parts ih =>
          have hpart := hitems part
          simp only [List.flatMap_cons, List.length_append, List.length_cons]
          omega

/-- Without the break, the scan finds what the stack has. -/
theorem runWhole_stack (env : Externals) (rollout : TurnRollout) :
    (runWhole env rollout.items).previousTurnSettings = topSettings env (rollout.stack env) ∧
      (runWhole env rollout.items).referenceContextItem = .ofBaseline (topBaseline env (rollout.stack env)) := by
  have hlength : (rollout.parts.filterMap RolloutPart.event?).length < maxPending := by
    have hle := length_filterMap_le rollout.parts
    have hfits := rollout.fits
    unfold maxPending
    omega
  have hfollows := @follows_parts env _ rollout.inside rollout.beside
  have hstack : rollout.stack env =
      (RollbackStack.fromEnd (FinishedTurn.isUserTurn env) maxPending (rollout.parts.filterMap RolloutPart.event?)).2 :=
    RollbackStack.stackOf_eq_fromEnd hlength
  have hcore := @core_foldr_zipIdx env rollout.items 0 start
  have hstart : start.core = start := rfl
  rw [hstart] at hcore
  unfold runWhole
  rw [List.foldl_reverse]
  generalize rollout.items.zipIdx.foldr (fun entry scan => scanItem env scan entry.2 entry.1) start = scan at hcore
  have hscan : Follows env scan.core (RollbackStack.fromEnd (FinishedTurn.isUserTurn env) maxPending
      (rollout.parts.filterMap RolloutPart.event?)) := by
    rw [hcore]
    exact hfollows
  have hactive : scan.activeSegment = none := hscan.active
  simp only [hactive, hstack]
  exact ⟨hscan.settings, hscan.reference⟩

end ReverseScan

theorem not_legacy_of_isInside {item : RolloutItem} (h : item.IsInside) : isLegacyCompaction item = false := by
  cases item with
  | compacted compacted =>
      obtain ⟨message, replacement⟩ := compacted
      obtain ⟨replacement, rfl⟩ := Option.isSome_iff_exists.mp h
      rfl
  | _ => rfl

theorem TurnRollout.not_legacy (rollout : TurnRollout) : ∀ item ∈ rollout.items, isLegacyCompaction item = false := by
  intro item hitem
  obtain ⟨part, hpart, hmem⟩ := List.mem_flatMap.mp hitem
  cases part with
  | turn turn =>
      simp only [RolloutPart.items, FinishedTurn.items, List.cons_append, List.mem_cons, List.mem_append] at hmem
      rcases hmem with rfl | hbody | rfl | hnil
      · rfl
      · exact not_legacy_of_isInside (rollout.inside turn hpart item hbody)
      · rfl
      · cases hnil
  | rolledBack numTurns =>
      obtain rfl := List.mem_singleton.mp hmem
      rfl
  | beside other =>
      obtain rfl := List.mem_singleton.mp hmem
      have hbeside := rollout.beside item hpart
      cases item with
      | compacted compacted => cases hbeside
      | _ => rfl

end Codrex.History
