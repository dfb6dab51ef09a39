import Codrex.History.Spec

/-!
# The scan over a rollout and the plain replay
-/

namespace Codrex.History

open Text Fallible

variable {env : Externals}

/-! ## Replay -/

theorem trimPreTurnContextUpdates_reference (snapshot : List ResponseItem) (first cut : Nat)
    (reference other : Option TurnContextItem) :
    (ContextManager.trimPreTurnContextUpdates env snapshot first cut reference).1 =
      (ContextManager.trimPreTurnContextUpdates env snapshot first cut other).1 := by
  induction cut generalizing reference other with
  | zero => rfl
  | succ cut ih =>
      unfold ContextManager.trimPreTurnContextUpdates
      split
      · split
        · split
          · exact ih _ _
          · split
            · exact ih _ _
            · rfl
        · rfl
      · rfl

theorem items_dropLastNUserTurns {history other : ContextManager} (h : history.items = other.items) (numTurns : Nat) :
    (history.dropLastNUserTurns env numTurns).items = (other.dropLastNUserTurns env numTurns).items := by
  unfold ContextManager.dropLastNUserTurns
  by_cases hzero : numTurns = 0
  · simp [hzero, h]
  · simp only [hzero, if_false, h]
    cases hpositions : ContextManager.userMessagePositions env other.items with
    | nil => rfl
    | cons first rest =>
        simp only [ContextManager.replace]
        rw [trimPreTurnContextUpdates_reference _ _ _ history.referenceContextItem other.referenceContextItem]

/-- What is replayed onto a history depends on its items only. -/
theorem items_replayItem {history other : ContextManager} (h : history.items = other.items) (item : RolloutItem) :
    (replayItem env history item).items = (replayItem env other item).items := by
  cases item with
  | responseItem item =>
      simp only [replayItem, ContextManager.recordItems, List.foldl_cons, List.foldl_nil, ContextManager.recordItem, h]
      split
      · exact h
      · rfl
  | compacted compacted =>
      obtain ⟨message, replacementHistory⟩ := compacted
      cases replacementHistory with
      | some replacementHistory => rfl
      | none => simp only [replayItem, ContextManager.replace, h]
  | eventMsg event =>
      cases event with
      | threadRolledBack numTurns => exact items_dropLastNUserTurns h numTurns.toNat
      | _ => exact h
  | turnContext context => exact h
  | sessionMeta => exact h

theorem items_replay {history other : ContextManager} (h : history.items = other.items) (items : List RolloutItem) :
    (replay env history items).items = (replay env other items).items := by
  induction items generalizing history other with
  | nil => exact h
  | cons item rest ih => exact ih (items_replayItem h item)

/-- A checkpoint makes what came before it irrelevant. -/
theorem items_replay_checkpoint {front rest : List RolloutItem} {item : RolloutItem} {replacement : List ResponseItem}
    (h : item.checkpoint = some replacement) (history : ContextManager) :
    (replay env history (front ++ item :: rest)).items = (replay env ⟨replacement, 0, none⟩ rest).items := by
  rw [replay, List.foldl_append, List.foldl_cons]
  apply items_replay
  cases item with
  | compacted compacted =>
      obtain ⟨message, replacementHistory⟩ := compacted
      obtain rfl : replacementHistory = some replacement := h
      rfl
  | _ => cases h

/-! ## The scan beside the walk over the turns -/

namespace ReverseScan

def view (segment : ActiveReplaySegment) : TurnView :=
  ⟨segment.turnId, segment.countsAsUserTurn, segment.baseReplacementHistory.isSome⟩

/-- The checkpoint of the segment the scan is in. -/
def activeBase (scan : ReverseScan) : Option (List ResponseItem) :=
  scan.activeSegment.bind (·.baseReplacementHistory)

/-- The newest checkpoint of the items that were scanned. The suffix starts behind it. -/
structure Newest (older done : List RolloutItem) (scan : ReverseScan) (replacement : List ResponseItem) : Prop where
  split : ∃ front item rest, done = front ++ item :: rest ∧ item.checkpoint = some replacement ∧
    (∀ later ∈ rest, later.checkpoint = none) ∧ scan.suffixStart = older.length + front.length + 1

/-- What the scan knows of checkpoints: none was met; those of the turn it is in; those of one older turn; or those of
several turns, and then one is in the suffix. -/
inductive Knows (older done : List RolloutItem) (scan : ReverseScan) (turns : List Fate) : Prop
  | nothing (hstart : scan.suffixStart = 0) (hbase : scan.baseReplacementHistory = none) (hactive : scan.activeBase = none)
      (hturns : turns = []) (hdone : ∀ item ∈ done, item.checkpoint = none)
  | current (replacement : List ResponseItem) (hnewest : Newest older done scan replacement)
      (hbase : scan.baseReplacementHistory = none) (hactive : scan.activeBase = some replacement) (hturns : turns = [])
  | closed (replacement : List ResponseItem) (fate : Fate) (hnewest : Newest older done scan replacement)
      (hbase : scan.baseReplacementHistory = if fate = .survives then some replacement else none)
      (hactive : scan.activeBase = none) (hturns : turns = [fate])
  | several (skip : Nat) (hstart : scan.suffixStart = older.length + skip)
      (hskip : ∃ item ∈ done.drop skip, item.checkpoint.isSome)
      (hbase : scan.baseReplacementHistory.isSome → .survives ∈ turns)
      (hturns : 2 ≤ turns.length + scan.activeBase.toList.length)

variable {older done : List RolloutItem} {scan next : ReverseScan} {turns : List Fate}

theorem Newest.cons {item : RolloutItem} {replacement : List ResponseItem}
    (h : Newest (older ++ [item]) done scan replacement) (hstart : next.suffixStart = scan.suffixStart) :
    Newest older (item :: done) next replacement := by
  obtain ⟨front, source, rest, rfl, hsource, hrest, hscan⟩ := h.split
  refine ⟨item :: front, source, rest, rfl, hsource, hrest, ?_⟩
  rw [hstart, hscan]
  simp only [List.length_append, List.length_cons, List.length_nil]
  omega

/-- A step that meets no checkpoint and closes no turn. -/
theorem Knows.keep {item : RolloutItem} (h : Knows (older ++ [item]) done scan turns) (hitem : item.checkpoint = none)
    (hstart : next.suffixStart = scan.suffixStart) (hbase : next.baseReplacementHistory = scan.baseReplacementHistory)
    (hactive : next.activeBase = scan.activeBase) : Knows older (item :: done) next turns := by
  cases h with
  | nothing hscan hnone hsegment hturns hdone =>
      refine .nothing (hstart.trans hscan) (hbase.trans hnone) (hactive.trans hsegment) hturns ?_
      intro other hother
      rcases List.mem_cons.mp hother with rfl | hother
      · exact hitem
      · exact hdone other hother
  | current replacement hnewest hnone hsegment hturns =>
      exact .current replacement (hnewest.cons hstart) (hbase.trans hnone) (hactive.trans hsegment) hturns
  | closed replacement fate hnewest hfate hsegment hturns =>
      exact .closed replacement fate (hnewest.cons hstart) (hbase.trans hfate) (hactive.trans hsegment) hturns
  | several skip hscan hskip hsurvives hturns =>
      refine .several (skip + 1) ?_ hskip (hbase ▸ hsurvives) (hactive ▸ hturns)
      rw [hstart, hscan]
      simp only [List.length_append, List.length_cons, List.length_nil]
      omega

/-- A step that meets a checkpoint; only the newest one of a turn is taken. -/
theorem Knows.checkpoint {item : RolloutItem} {replacement : List ResponseItem}
    (h : Knows (older ++ [item]) done scan turns) (hitem : item.checkpoint = some replacement)
    (hbase : next.baseReplacementHistory = scan.baseReplacementHistory)
    (hactive : next.activeBase = scan.activeBase.or (some replacement))
    (hstart : next.suffixStart = if scan.activeBase.isSome then scan.suffixStart else older.length + 1) :
    Knows older (item :: done) next turns := by
  cases h with
  | nothing hscan hnone hsegment hturns hdone =>
      rw [hsegment] at hactive hstart
      refine .current replacement ⟨[], item, done, rfl, hitem, hdone, ?_⟩ (hbase.trans hnone) hactive hturns
      simpa using hstart
  | current newest hnewest hnone hsegment hturns =>
      rw [hsegment] at hactive hstart
      exact .current newest (hnewest.cons hstart) (hbase.trans hnone) hactive hturns
  | closed newest fate hnewest hfate hsegment hturns =>
      rw [hsegment] at hactive hstart
      obtain ⟨front, source, rest, rfl, hsource, -, -⟩ := hnewest.split
      refine .several 1 (by simpa using hstart) ⟨source, by simp, by simp [hsource]⟩ ?_ (by simp [hturns, hactive])
      intro hsome
      rw [hbase, hfate] at hsome
      cases fate with
      | survives => simp [hturns]
      | rolledBack => simp at hsome
  | several skip hscan hskip hsurvives hturns =>
      cases hsegment : scan.activeBase with
      | some newest =>
          rw [hsegment] at hactive hstart hturns
          refine .several (skip + 1) ?_ hskip (hbase ▸ hsurvives) (by simpa [hactive] using hturns)
          have hstart' : next.suffixStart = scan.suffixStart := hstart
          rw [hstart', hscan]
          simp only [List.length_append, List.length_cons, List.length_nil]
          omega
      | none =>
          rw [hsegment] at hactive hstart hturns
          obtain ⟨source, hsource, hcheckpoint⟩ := hskip
          refine .several 1 hstart ⟨source, ?_, hcheckpoint⟩ (hbase ▸ hsurvives) ?_
          · simpa using List.mem_of_mem_drop hsource
          · simp only [hactive, Option.none_or, Option.toList_some, List.length_singleton]
            simp only [Option.toList_none, List.length_nil, Nat.add_zero] at hturns
            omega

theorem Newest.of_suffixStart {replacement : List ResponseItem} (h : Newest older done scan replacement)
    (hstart : next.suffixStart = scan.suffixStart) : Newest older done next replacement := by
  obtain ⟨front, source, rest, hdone, hsource, hrest, hscan⟩ := h.split
  exact ⟨front, source, rest, hdone, hsource, hrest, hstart.trans hscan⟩

/-- The turn ends; its checkpoint becomes the base if it is the newest to survive. -/
theorem Knows.close (h : Knows older done scan turns) (fate : Fate) (hstart : next.suffixStart = scan.suffixStart)
    (hactive : next.activeBase = none)
    (hbase : next.baseReplacementHistory =
      scan.baseReplacementHistory.or (if fate = .survives then scan.activeBase else none)) :
    Knows older done next (turns ++ if scan.activeBase.isSome then [fate] else []) := by
  cases h with
  | nothing hscan hnone hsegment hturns hdone =>
      rw [hnone, hsegment] at hbase
      refine .nothing (hstart.trans hscan) ?_ hactive (by simp [hturns, hsegment]) hdone
      simpa using hbase
  | current replacement hnewest hnone hsegment hturns =>
      rw [hnone, hsegment] at hbase
      exact .closed replacement fate (hnewest.of_suffixStart hstart) hbase hactive (by simp [hturns, hsegment])
  | closed replacement old hnewest hfate hsegment hturns =>
      rw [hsegment, ite_self, Option.or_none] at hbase
      exact .closed replacement old (hnewest.of_suffixStart hstart) (hbase.trans hfate) hactive
        (by simp [hturns, hsegment])
  | several skip hscan hskip hsurvives hturns =>
      refine .several skip (hstart.trans hscan) hskip ?_ ?_
      · intro hsome
        rw [hbase, Option.isSome_or, Bool.or_eq_true] at hsome
        rcases hsome with hold | hnew
        · exact List.mem_append_left _ (hsurvives hold)
        · cases fate with
          | survives =>
              have hcurrent : scan.activeBase.isSome = true := hnew
              simp [hcurrent]
          | rolledBack => simp at hnew
      · rw [hactive, List.length_append]
        cases hsegment : scan.activeBase with
        | none => simpa [hsegment] using hturns
        | some replacement => simpa [hsegment] using hturns

/-- The scan and the walk stand at the same place. -/
structure Beside (older done : List RolloutItem) (scan : ReverseScan) (walk : TurnWalk) : Prop where
  pending : scan.pendingRollbackTurns = walk.pending
  current : scan.activeSegment.map view = walk.current
  knows : Knows older done scan walk.checkpointTurns

variable {walk : TurnWalk} {item : RolloutItem}

theorem Beside.keep (h : Beside (older ++ [item]) done scan walk) (hitem : item.checkpoint = none) :
    Beside older (item :: done) scan walk :=
  ⟨h.pending, h.current, h.knows.keep hitem rfl rfl rfl⟩

theorem getD_view (h : scan.activeSegment.map view = walk.current) :
    view (scan.activeSegment.getD .default) = walk.current.getD ⟨none, false, false⟩ := by
  rw [← h]
  cases scan.activeSegment with
  | none => rfl
  | some segment => rfl

theorem activeBase_eq (scan : ReverseScan) :
    scan.activeBase = (scan.activeSegment.getD .default).baseReplacementHistory := by
  unfold activeBase
  cases scan.activeSegment with
  | none => rfl
  | some segment => rfl

theorem Beside.update (h : Beside (older ++ [item]) done scan walk) (hitem : item.checkpoint = none)
    {f : ActiveReplaySegment → ActiveReplaySegment} {g : TurnView → TurnView}
    (hview : ∀ segment, view (f segment) = g (view segment))
    (hbase : ∀ segment, (f segment).baseReplacementHistory = segment.baseReplacementHistory) :
    Beside older (item :: done) (scan.updateSegment f) (walk.update g) := by
  refine ⟨h.pending, ?_, h.knows.keep hitem rfl rfl ?_⟩
  · simp only [updateSegment, TurnWalk.update, Option.map_some, hview, getD_view h.current]
  · rw [activeBase_eq, activeBase_eq]
    exact hbase _

/-- The scan is at the end of a turn. -/
theorem Beside.close (h : Beside older done scan walk) {segment : ActiveReplaySegment}
    (hsegment : scan.activeSegment = some segment) :
    Beside older done (finalizeActiveSegment { scan with activeSegment := none } segment) walk.close := by
  have hcurrent : walk.current = some (view segment) := by rw [← h.current, hsegment]; rfl
  have hactive : scan.activeBase = segment.baseReplacementHistory := by rw [activeBase, hsegment]; rfl
  have hview : (view segment).hasCheckpoint = scan.activeBase.isSome := by rw [hactive]; rfl
  have hwalk : walk.close = ⟨if segment.countsAsUserTurn then walk.pending - 1 else walk.pending, none,
      walk.checkpointTurns ++ if scan.activeBase.isSome then [if walk.pending > 0 then .rolledBack else .survives] else []⟩ := by
    rw [TurnWalk.close, hcurrent, ← hview]
    rfl
  rw [hwalk]
  by_cases hwaits : scan.pendingRollbackTurns > 0
  · have hfate : (if walk.pending > 0 then Fate.rolledBack else .survives) = .rolledBack :=
      if_pos (by rw [← h.pending]; exact hwaits)
    rw [hfate]
    refine ⟨?_, ?_, h.knows.close .rolledBack ?_ ?_ ?_⟩
    all_goals simp only [finalizeActiveSegment, hwaits, if_true]
    · split
      · rw [← h.pending]
      · exact h.pending
    all_goals split <;> simp [activeBase]
  · have hfate : (if walk.pending > 0 then Fate.rolledBack else .survives) = .survives :=
      if_neg (by rw [← h.pending]; exact hwaits)
    rw [hfate]
    refine ⟨?_, ?_, h.knows.close .survives ?_ ?_ ?_⟩
    all_goals simp only [finalizeActiveSegment, hwaits, if_false]
    · rw [← h.pending]
      split
      · omega
      · rfl
    · rfl
    · rfl
    · simp [hactive]

theorem Beside.compacted (compacted : CompactedItem) (h : Beside (older ++ [.compacted compacted]) done scan walk) :
    Beside older (.compacted compacted :: done) (scan.compacted older.length compacted)
      (walk.item env (.compacted compacted)) := by
  obtain ⟨message, replacementHistory⟩ := compacted
  -- The baseline of the turn is cleared first, which its view does not show.
  obtain ⟨segment, hsegment, hview, hbase⟩ : ∃ segment,
      (if (scan.activeSegment.getD .default).referenceContextItem = .neverSet then
        { scan.activeSegment.getD .default with referenceContextItem := .cleared }
      else scan.activeSegment.getD .default) = segment ∧
      view segment = walk.current.getD ⟨none, false, false⟩ ∧ segment.baseReplacementHistory = scan.activeBase := by
    refine ⟨_, rfl, ?_, ?_⟩
    · rw [← getD_view h.current]
      split <;> rfl
    · rw [activeBase_eq]
      split <;> rfl
  simp only [ReverseScan.compacted, TurnWalk.item, TurnWalk.update, hsegment, ← hview]
  cases hactive : segment.baseReplacementHistory with
  | some base =>
      refine ⟨h.pending, by simp [view, hactive], ?_⟩
      cases replacementHistory with
      | none => exact h.knows.keep rfl rfl rfl (by rw [← hbase]; rfl)
      | some replacement =>
          refine h.knows.checkpoint rfl rfl ?_ ?_
          · rw [← hbase, hactive]
            exact hactive
          · simp [← hbase, hactive]
  | none =>
      cases replacementHistory with
      | none =>
          refine ⟨h.pending, by simp [view, hactive], h.knows.keep rfl rfl rfl ?_⟩
          rw [← hbase]
          rfl
      | some replacement =>
          refine ⟨h.pending, by simp [view, hactive], h.knows.checkpoint rfl rfl ?_ ?_⟩
          · rw [← hbase, hactive]
            rfl
          · simp [← hbase, hactive]

theorem turnContext_spec (context : TurnContextItem) (segment : ActiveReplaySegment) :
    (turnContext context segment).turnId = segment.turnId.or context.turnId ∧
      (turnContext context segment).countsAsUserTurn = segment.countsAsUserTurn ∧
      (turnContext context segment).baseReplacementHistory = segment.baseReplacementHistory := by
  simp only [turnContext]
  split <;> exact ⟨rfl, rfl, rfl⟩

theorem Beside.aborted (turnId : Option Str)
    (h : Beside (older ++ [.eventMsg (.turnAborted turnId)]) done scan walk) :
    Beside older (.eventMsg (.turnAborted turnId) :: done) (scan.scanItem env older.length (.eventMsg (.turnAborted turnId)))
      (walk.item env (.eventMsg (.turnAborted turnId))) := by
  have hcurrent := h.current
  cases hsegment : scan.activeSegment with
  | some segment =>
      rw [hsegment] at hcurrent
      have hbase : activeBase { scan with activeSegment := some { segment with turnId := segment.turnId.or turnId } } =
          scan.activeBase := by
        simp [activeBase, hsegment]
      simp only [scanItem, TurnWalk.item, turnAborted, hsegment, ← hcurrent, Option.map_some, Option.isSome_some,
        Bool.true_or, if_true]
      refine ⟨h.pending, ?_, h.knows.keep rfl rfl rfl hbase⟩
      simp [TurnWalk.update, ← hcurrent, view]
  | none =>
      rw [hsegment] at hcurrent
      cases turnId with
      | none =>
          simp only [scanItem, TurnWalk.item, turnAborted, hsegment, ← hcurrent]
          exact h.keep rfl
      | some turnId =>
          have hbase : activeBase
              { scan with activeSegment := some { ActiveReplaySegment.default with turnId := some turnId } } =
                scan.activeBase := by
            simp [activeBase, hsegment, ActiveReplaySegment.default]
          simp only [scanItem, TurnWalk.item, turnAborted, hsegment, ← hcurrent]
          refine ⟨h.pending, ?_, h.knows.keep rfl rfl rfl hbase⟩
          simp [TurnWalk.update, ← hcurrent, view, ActiveReplaySegment.default]

theorem Beside.started (turnId : Str) (h : Beside (older ++ [.eventMsg (.turnStarted turnId)]) done scan walk) :
    Beside older (.eventMsg (.turnStarted turnId) :: done) (scan.scanItem env older.length (.eventMsg (.turnStarted turnId)))
      (walk.item env (.eventMsg (.turnStarted turnId))) := by
  have hcurrent := h.current
  have hkeep : Beside older (.eventMsg (.turnStarted turnId) :: done) scan walk := h.keep rfl
  cases hsegment : scan.activeSegment with
  | none =>
      rw [hsegment] at hcurrent
      simp only [scanItem, TurnWalk.item, turnStarted, hsegment, ← hcurrent]
      exact hkeep
  | some segment =>
      rw [hsegment] at hcurrent
      simp only [scanItem, TurnWalk.item, turnStarted, hsegment, ← hcurrent, Option.map_some, view]
      split
      · exact hkeep.close hsegment
      · exact hkeep

theorem scanItem_beside (h : Beside (older ++ [item]) done scan walk) :
    Beside older (item :: done) (scan.scanItem env older.length item) (walk.item env item) := by
  cases item with
  | compacted compacted => exact Beside.compacted compacted h
  | sessionMeta => exact h.keep rfl
  | responseItem response =>
      simp only [scanItem, TurnWalk.item]
      apply h.update rfl
      · exact fun _ => rfl
      · exact fun _ => rfl
  | turnContext context =>
      simp only [scanItem, TurnWalk.item]
      apply h.update rfl
      · intro segment
        obtain ⟨hid, hcounts, hbase⟩ := turnContext_spec context segment
        simp only [view, hid, hcounts, hbase]
      · exact fun segment => (turnContext_spec context segment).2.2
  | eventMsg event =>
      cases event with
      | threadRolledBack numTurns =>
          have hpending : saturatingAdd scan.pendingRollbackTurns numTurns.toNat =
              saturatingAdd walk.pending numTurns.toNat := by
            rw [h.pending]
          exact ⟨hpending, h.current, h.knows.keep rfl rfl rfl rfl⟩
      | turnComplete turnId =>
          simp only [scanItem, TurnWalk.item]
          apply h.update rfl
          · exact fun _ => rfl
          · exact fun _ => rfl
      | userMessage payload =>
          simp only [scanItem, TurnWalk.item]
          apply h.update rfl
          · exact fun _ => rfl
          · exact fun _ => rfl
      | turnAborted turnId => exact Beside.aborted turnId h
      | turnStarted turnId => exact Beside.started turnId h
      | _ => exact h.keep rfl

theorem Knows.survives (h : Knows older done scan turns) (hbase : scan.baseReplacementHistory.isSome) :
    .survives ∈ turns := by
  cases h with
  | nothing hscan hnone hsegment hturns hdone => simp [hnone] at hbase
  | current replacement hnewest hnone hsegment hturns => simp [hnone] at hbase
  | closed replacement fate hnewest hfate hsegment hturns =>
      cases fate with
      | survives => simp [hturns]
      | rolledBack => simp [hfate] at hbase
  | several skip hscan hskip hsurvives hturns => exact hsurvives hbase

/-- The loop stops where it has a base, or has scanned everything. -/
theorem scanLoop_beside (h : Beside older done scan walk) :
    ∃ rest between, older = rest ++ between ∧
      Beside rest (between ++ done) (scanLoop env older.zipIdx.reverse scan)
        (between.foldr (fun item walk => walk.item env item) walk) ∧
      (rest = [] ∨ (scanLoop env older.zipIdx.reverse scan).baseReplacementHistory.isSome) := by
  induction older using List.reverseRecOn generalizing done scan walk with
  | nil => exact ⟨[], [], rfl, h, Or.inl rfl⟩
  | append_singleton older item ih =>
      have hstep := @scanItem_beside env _ _ _ _ _ h
      have hzip : (older ++ [item]).zipIdx.reverse = (item, older.length) :: older.zipIdx.reverse := by
        simp [List.zipIdx_append]
      rw [hzip]
      simp only [scanLoop]
      split
      · next hdone =>
          refine ⟨older, [item], rfl, hstep, Or.inr ?_⟩
          simp only [isDone, Bool.and_eq_true] at hdone
          exact hdone.1.1
      · obtain ⟨rest, between, rfl, hbeside, hend⟩ := ih hstep
        refine ⟨rest, between ++ [item], by rw [List.append_assoc], ?_, hend⟩
        rw [List.append_assoc, List.foldr_append]
        exact hbeside

theorem checkpointTurns_close (walk : TurnWalk) : walk.checkpointTurns <+: walk.close.checkpointTurns := by
  unfold TurnWalk.close
  split
  · exact List.prefix_rfl
  · exact List.prefix_append _ _

theorem checkpointTurns_item (walk : TurnWalk) (item : RolloutItem) :
    walk.checkpointTurns <+: (walk.item env item).checkpointTurns := by
  unfold TurnWalk.item
  split <;> try exact List.prefix_rfl
  · split <;> exact List.prefix_rfl
  · split
    · split
      · exact checkpointTurns_close walk
      · exact List.prefix_rfl
    · exact List.prefix_rfl

theorem checkpointTurns_foldr (walk : TurnWalk) (items : List RolloutItem) :
    walk.checkpointTurns <+: (items.foldr (fun item walk => walk.item env item) walk).checkpointTurns := by
  induction items with
  | nil => exact List.prefix_rfl
  | cons item rest ih => exact ih.trans (checkpointTurns_item _ item)

theorem run_knows (env : Externals) (items : List RolloutItem) :
    ∃ older done turns, items = older ++ done ∧ Knows older done (run env items) turns ∧
      (run env items).activeBase = none ∧
      (turns = checkpointTurns env items ∨ .survives ∈ turns ∧ .survives ∈ checkpointTurns env items) := by
  have hstart : Beside items [] start ⟨0, none, []⟩ := ⟨rfl, rfl, .nothing rfl rfl rfl rfl (by simp)⟩
  obtain ⟨older, done, rfl, hbeside, hend⟩ := @scanLoop_beside env _ _ _ _ hstart
  rw [List.append_nil] at hbeside
  generalize hscan : scanLoop env (older ++ done).zipIdx.reverse start = scan at hbeside hend
  generalize hwalk : done.foldr (fun item walk => walk.item env item) (⟨0, none, []⟩ : TurnWalk) = walk at hbeside
  have hturns : walk.close.checkpointTurns = checkpointTurns env (older ++ done) ∨
      .survives ∈ walk.close.checkpointTurns ∧ .survives ∈ checkpointTurns env (older ++ done) := by
    rcases hend with rfl | hbase
    · left
      rw [checkpointTurns, List.nil_append, hwalk]
    · have hsurvives := hbeside.knows.survives hbase
      have hall : walk.checkpointTurns <+: checkpointTurns env (older ++ done) := by
        rw [checkpointTurns, List.foldr_append, hwalk]
        exact (checkpointTurns_foldr walk older).trans (checkpointTurns_close _)
      exact Or.inr ⟨(checkpointTurns_close walk).subset hsurvives, hall.subset hsurvives⟩
  refine ⟨older, done, walk.close.checkpointTurns, rfl, ?_, ?_, hturns⟩
  all_goals
    simp only [run, hscan]
    cases hsegment : scan.activeSegment with
    | some segment => ?_
    | none => ?_
  · exact (hbeside.close hsegment).knows
  · have hcurrent : walk.current = none := by rw [← hbeside.current, hsegment]; rfl
    simpa [TurnWalk.close, hcurrent] using hbeside.knows
  · simp only [finalizeActiveSegment]
    split
    · split <;> rfl
    · rfl
  · simp [activeBase, hsegment]

end ReverseScan

end Codrex.History
