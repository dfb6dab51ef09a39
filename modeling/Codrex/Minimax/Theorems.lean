import Codrex.Minimax.Lemmas.Bridge
import Codrex.Minimax.Lemmas.ThinkParser
import Codrex.Minimax.Lemmas.ToolCalls
import Mathlib.Data.List.Forall2

/-!
# Results for the MiniMax client
-/

namespace Codrex.Minimax

open Text

/-! ## The parser for think blocks does not depend on the chunks -/

theorem foldl_foldl_pushSegment (acc out segs : List ParsedSegment) :
    (segs.foldl pushSegment out).foldl pushSegment acc =
      segs.foldl pushSegment (out.foldl pushSegment acc) := by
  induction segs generalizing out with
  | nil => rfl
  | cons seg segs ih =>
      rw [List.foldl_cons, List.foldl_cons, ih, foldl_pushSegment]

theorem push_spec (parser : ThinkParser) (chunk : Str) :
    (parser.push chunk).1.Waiting ∧
      (∀ acc future, segmentFrom acc parser.insideThink (parser.pending ++ chunk ++ future) =
        segmentFrom ((parser.push chunk).2.foldl pushSegment acc) (parser.push chunk).1.insideThink
          ((parser.push chunk).1.pending ++ future)) ∧
      ∀ future, endState parser.insideThink (parser.pending ++ chunk ++ future) =
        endState (parser.push chunk).1.insideThink ((parser.push chunk).1.pending ++ future) := by
  obtain ⟨hagrees, hwait⟩ := ThinkParser.pushLoop_spec ⟨parser.pending ++ chunk, parser.insideThink⟩
    (Nat.lt_succ_self _) []
  refine ⟨hwait, fun acc future => ?_, hagrees.state⟩
  have hseg := congrArg (List.foldl pushSegment acc) (hagrees.segments future)
  unfold segmentFrom at hseg ⊢
  rw [foldl_foldl_pushSegment, foldl_foldl_pushSegment] at hseg
  exact hseg

theorem pushAll_spec (parser : ThinkParser) (hwait : parser.Waiting) (chunks : List Str) :
    (parser.pushAll chunks).1.Waiting ∧
      (∀ acc, segmentFrom acc parser.insideThink (parser.pending ++ chunks.flatten) =
        segmentFrom ((parser.pushAll chunks).2.foldl pushSegment acc) (parser.pushAll chunks).1.insideThink
          (parser.pushAll chunks).1.pending) ∧
      endState parser.insideThink (parser.pending ++ chunks.flatten) =
        endState (parser.pushAll chunks).1.insideThink (parser.pushAll chunks).1.pending := by
  induction chunks generalizing parser with
  | nil =>
      refine ⟨hwait, fun acc => ?_, ?_⟩
      · rw [List.flatten_nil, List.append_nil]
        rfl
      · rw [List.flatten_nil, List.append_nil]
        rfl
  | cons chunk chunks ih =>
      obtain ⟨hwait', hsegs, hstate⟩ := push_spec parser chunk
      obtain ⟨hwait'', hsegs', hstate'⟩ := ih _ hwait'
      refine ⟨hwait'', fun acc => ?_, ?_⟩
      · rw [List.flatten_cons, ← List.append_assoc, hsegs, hsegs']
        simp only [ThinkParser.pushAll, List.foldl_append]
      · rw [List.flatten_cons, ← List.append_assoc, hstate, hstate']
        rfl

theorem foldl_flush (parser : ThinkParser) (acc : List ParsedSegment) :
    parser.flush.2.foldl pushSegment acc = emit acc parser.insideThink parser.pending := by
  obtain ⟨pending, inside⟩ := parser
  cases pending with
  | nil => rfl
  | cons c pending =>
      cases inside with
      | false => rfl
      | true => rfl

theorem flush_eq_new_iff (parser : ThinkParser) :
    parser.flush.1 = ThinkParser.new ↔ ¬ (parser.insideThink = true ∧ parser.pending = []) := by
  obtain ⟨pending, inside⟩ := parser
  cases pending with
  | nil => simp [ThinkParser.flush, ThinkParser.new]
  | cons c pending => simp [ThinkParser.flush, ThinkParser.new]

theorem waiting_new : ThinkParser.new.Waiting := by
  exact ⟨by decide, by decide⟩

theorem coalesce_run (chunks : List Str) :
    coalesce (ThinkParser.run chunks).2 = segmentation chunks.flatten := by
  obtain ⟨hwait, hsegs, -⟩ := pushAll_spec _ waiting_new chunks
  calc coalesce (ThinkParser.run chunks).2
      = emit (coalesce (ThinkParser.new.pushAll chunks).2) (ThinkParser.new.pushAll chunks).1.insideThink
          (ThinkParser.new.pushAll chunks).1.pending := by
        simp only [coalesce, ThinkParser.run, List.foldl_append, foldl_flush]
    _ = segmentFrom [] false chunks.flatten := by
        rw [← segmentFrom_of_none hwait.1]
        exact (hsegs []).symm
    _ = segmentation chunks.flatten := rfl

theorem pushAll_endState (chunks : List Str) :
    endState false chunks.flatten = some (ThinkParser.new.pushAll chunks).1 := by
  obtain ⟨hwait, -, hstate⟩ := pushAll_spec _ waiting_new chunks
  rw [endState_of_none hwait.1, hwait.2] at hstate
  exact hstate

theorem getLast_pieces_waiting {inside kind : Bool} {s tail : Str}
    (h : (pieces inside s).getLast? = some (kind, tail)) : find (tagAfter kind) tail = none := by
  induction hn : s.length using Nat.strong_induction_on generalizing inside s with
  | _ n ih =>
      cases hfind : find (tagAfter inside) s with
      | none =>
          rw [pieces_of_none hfind] at h
          cases h
          exact hfind
      | some idx =>
          have hpos := length_tagAfter_pos inside
          have hlen := length_le_of_find hfind
          rw [pieces_of_some hfind, List.getLast?_cons_of_ne_nil (pieces_ne_nil _ _)] at h
          exact ih _ (by simp only [List.length_drop]; omega) h rfl

theorem run_eq_new_iff (chunks : List Str) :
    (ThinkParser.run chunks).1 = ThinkParser.new ↔ ¬ EndsInOpenBlock chunks.flatten := by
  obtain ⟨⟨kind, tail⟩, hlast, hstate⟩ := Option.map_eq_some_iff.mp (pushAll_endState chunks)
  have hnone := getLast_pieces_waiting hlast
  have hend : (ThinkParser.new.pushAll chunks).1 = ⟨heldBack tail (tagAfter kind), kind⟩ := hstate.symm
  have hrun : (ThinkParser.run chunks).1 = (ThinkParser.new.pushAll chunks).1.flush.1 := rfl
  rw [hrun, flush_eq_new_iff, hend, not_iff_not]
  constructor
  · rintro ⟨rfl, hheld⟩
    exact ⟨tail, hlast, (heldBack_eq_nil (length_tagAfter_pos true) hnone).mp hheld⟩
  · rintro ⟨tail', hlast', hno⟩
    rw [hlast] at hlast'
    cases hlast'
    exact ⟨rfl, (heldBack_eq_nil (length_tagAfter_pos true) hnone).mpr hno⟩

theorem channel_pushSegment (kind : Bool) (out : List ParsedSegment) (seg : ParsedSegment) :
    channel kind (pushSegment out seg) = channel kind out ++ channel kind [seg] := by
  obtain ⟨inside, t, rfl⟩ := exists_segment seg
  rcases last_cases out inside with rfl | ⟨front, u, rfl⟩ | ⟨front, u, rfl⟩
  · rw [pushSegment_nil]
    rfl
  · rw [pushSegment_same]
    cases inside with
    | false => cases kind with
      | false => simp [channel, segment]
      | true => simp [channel, segment]
    | true => cases kind with
      | false => simp [channel, segment]
      | true => simp [channel, segment]
  · rw [pushSegment_other]
    simp [channel]

theorem channel_coalesce (kind : Bool) (segs : List ParsedSegment) :
    channel kind (coalesce segs) = channel kind segs := by
  have hfold : ∀ out, channel kind (segs.foldl pushSegment out) = channel kind out ++ channel kind segs := by
    induction segs with
    | nil =>
        intro out
        simp [channel]
    | cons seg segs ih =>
        intro out
        rw [List.foldl_cons, ih, channel_pushSegment]
        simp [channel]
  exact hfold []

theorem channel_segmentsOf (kind : Bool) (ps : List (Bool × Str)) :
    channel kind (segmentsOf ps) = (ps.filter (fun p => p.1 == kind)).flatMap Prod.snd := by
  induction ps with
  | nil => rfl
  | cons p ps ih =>
      obtain ⟨inside, s⟩ := p
      have hcons : channel kind (segmentsOf ((inside, s) :: ps)) =
          (if inside == kind then s else []) ++ channel kind (segmentsOf ps) := by
        cases s with
        | nil => simp [segmentsOf, channel]
        | cons c s =>
            cases inside with
            | false => cases kind with
              | false => simp [segmentsOf, channel, segment]
              | true => simp [segmentsOf, channel, segment]
            | true => cases kind with
              | false => simp [segmentsOf, channel, segment]
              | true => simp [segmentsOf, channel, segment]
      rw [hcons, ih]
      by_cases hk : (inside == kind) = true
      · simp [hk]
      · simp [hk]

/-- A stream of chunks is segmented as the whole string is, each piece between the tags goes to its
channel, and the parser is left as it was. -/
structure SegmentsStream (chunks : List Str) : Prop where
  segments : coalesce (ThinkParser.run chunks).2 = segmentation chunks.flatten
  complete : rebuild (pieces false chunks.flatten) = chunks.flatten
  channels : ∀ kind, channel kind (ThinkParser.run chunks).2 =
    ((pieces false chunks.flatten).filter (fun p => p.1 == kind)).flatMap Prod.snd
  reset : (ThinkParser.run chunks).1 = ThinkParser.new

/-- The segments never depend on the chunks. The parser is not reset when the stream stops inside a
block with an empty buffer. -/
theorem segmentsStream_iff (chunks : List Str) :
    SegmentsStream chunks ↔ ¬ EndsInOpenBlock chunks.flatten := by
  constructor
  · intro h
    exact (run_eq_new_iff chunks).mp h.reset
  · intro h
    refine ⟨coalesce_run chunks, rebuild_pieces _ _, fun kind => ?_, (run_eq_new_iff chunks).mpr h⟩
    rw [← channel_coalesce, coalesce_run, segmentation, channel_coalesce, channel_segmentsOf]

theorem not_segmentsStream_open_block : ¬ SegmentsStream ["<think>abc"] := by
  intro h
  exact absurd h.reset (by decide)

/-! ## The lifecycle of a streamed message -/

open ResponseEvent

def NeverBefore (p q : ResponseEvent → Bool) (events : List ResponseEvent) : Prop :=
  events.Pairwise fun x y => ¬ (p x = true ∧ q y = true)

theorem neverBefore_append {p q : ResponseEvent → Bool} {xs ys : List ResponseEvent}
    (hxs : ∀ x ∈ xs, p x = false) (hys : ∀ y ∈ ys, q y = false) : NeverBefore p q (xs ++ ys) := by
  refine List.pairwise_append.mpr ⟨?_, ?_, ?_⟩
  · apply List.pairwise_of_forall_mem_list
    intro x hx y _ h
    rw [hxs x hx] at h
    cases h.1
  · apply List.pairwise_of_forall_mem_list
    intro x _ y hy h
    rw [hys y hy] at h
    cases h.2
  · intro x hx y _ h
    rw [hxs x hx] at h
    cases h.1

/-- The turn loop's contract for the events of one stream. -/
structure Lifecycle (events : List ResponseEvent) : Prop where
  addedOnce : (events.filterMap addedMessage).length ≤ 1
  addedFirst : ∀ pre e post, events = pre ++ e :: post → e.isDelta = true →
    ∃ a ∈ pre, a.addedMessage.isSome = true
  doneIffAdded : events.filterMap doneMessage = events.filterMap addedMessage
  doneAfterDeltas : NeverBefore (fun e => e.doneMessage.isSome) isDelta events
  doneBeforeCalls : NeverBefore isDoneCall (fun e => e.doneMessage.isSome) events
  text : ∀ id role content phase, .outputItemDone (.message id role content phase) ∈ events →
    contentText content = textDeltas events
  indices : ∃ n, reasoningIndices events = List.range n
  completedLast : ∃ pre e, events = pre ++ [e] ∧ e.isCompleted = true ∧ ∀ x ∈ pre, x.isCompleted = false

namespace ResponseEventBridge

variable {bridge : ResponseEventBridge}

theorem kinds_of_emitted {body : List ResponseEvent} (h : Emitted bridge body) :
    ∀ e ∈ body, e.isToolInput = true ∨ e.isDelta = true ∨ ∃ id, e = opening id := by
  intro e he
  by_cases htool : e.isToolInput = true
  · exact Or.inl htool
  · obtain ⟨deltas, hshape, hall, -⟩ := h.shape
    have hmem : e ∈ body.filter (fun e => !e.isToolInput) :=
      List.mem_filter.mpr ⟨he, by simp [htool]⟩
    rw [hshape] at hmem
    rcases List.mem_append.mp hmem with hmem | hmem
    · split at hmem
      · exact Or.inr (Or.inr ⟨_, List.mem_singleton.mp hmem⟩)
      · cases hmem
    · exact Or.inr (Or.inl (hall e hmem))

theorem body_not_closing {body : List ResponseEvent} (h : Emitted bridge body) {e : ResponseEvent} (he : e ∈ body) :
    e.doneMessage = none ∧ e.isDoneCall = false ∧ e.isCompleted = false := by
  rcases kinds_of_emitted h e he with hk | hk | ⟨id, rfl⟩
  · cases e with
    | toolCallInputDelta itemId callId delta => exact ⟨rfl, rfl, rfl⟩
    | _ => cases hk
  · cases e with
    | outputTextDelta text => exact ⟨rfl, rfl, rfl⟩
    | reasoningContentDelta delta contentIndex => exact ⟨rfl, rfl, rfl⟩
    | _ => cases hk
  · exact ⟨rfl, rfl, rfl⟩

theorem mem_doneCalls {calls : List (Nat × PartialCall)} {e : ResponseEvent} (h : e ∈ doneCalls calls) :
    ∃ name arguments callId, e = .outputItemDone (.functionCall none name none arguments callId) := by
  obtain ⟨⟨index, call⟩, -, hcall⟩ := List.mem_filterMap.mp h
  simp only at hcall
  split at hcall
  · cases hcall
  · exact ⟨call.name, call.arguments, call.callId, (Option.some.inj hcall).symm⟩

theorem filterMap_addedMessage {body : List ResponseEvent} (h : Emitted bridge body) :
    body.filterMap addedMessage = if bridge.messageStarted then [some bridge.messageItemId] else [] := by
  obtain ⟨deltas, hshape, hall, -⟩ := h.shape
  have htool : body.filterMap addedMessage = (body.filter (fun e => !e.isToolInput)).filterMap addedMessage := by
    rw [List.filterMap_filter]
    apply List.filterMap_congr
    intro e _
    cases e with
    | toolCallInputDelta itemId callId delta => rfl
    | _ => rfl
  have hdeltas : deltas.filterMap addedMessage = [] := by
    apply List.filterMap_eq_nil_iff.mpr
    intro e he
    have := hall e he
    cases e with
    | outputItemAdded item => cases this
    | _ => rfl
  rw [htool, hshape, List.filterMap_append, hdeltas, List.append_nil]
  split
  · rfl
  · rfl

def closing (bridge : ResponseEventBridge) : List ResponseEvent :=
  bridge.doneMessage ++ (doneCalls bridge.pendingCalls ++
    [.completed (bridge.responseId.getD []) bridge.lastUsage (bridge.finalFinishReason.map endTurn)])

/-- A stream is a body that keeps the invariant, with the closing events behind it. -/
theorem events_eq (uuid : Uuid) (chunks : List ChatCompletionChunk) :
    ∃ bridge body, Emitted bridge body ∧ events uuid chunks = body ++ closing bridge := by
  have hall := emitted_ingestAll uuid emitted_new chunks
  rw [List.nil_append] at hall
  unfold events finalize
  generalize ingestAll uuid {} chunks = st at hall ⊢
  obtain ⟨self, out⟩ := st
  simp only at hall ⊢
  have hflush : Emitted { self with thinkParser := self.thinkParser.flush.1 } (out ++ []) := by
    rw [List.append_nil]
    exact hall.congr rfl rfl rfl rfl
  refine ⟨_, _, emitted_emitSegments uuid hflush self.thinkParser.flush.2, ?_⟩
  unfold closing
  simp only [List.append_assoc]

theorem closing_not_delta {e : ResponseEvent} (he : e ∈ closing bridge) :
    e.isDelta = false ∧ e.isToolInput = false ∧ e.addedMessage = none ∧ e.textDelta = [] ∧
      e.reasoningIndex = none := by
  rcases List.mem_append.mp he with he | he
  · unfold doneMessage at he
    split at he
    · rw [List.mem_singleton.mp he]
      exact ⟨rfl, rfl, rfl, rfl, rfl⟩
    · cases he
  · rcases List.mem_append.mp he with he | he
    · obtain ⟨name, arguments, callId, rfl⟩ := mem_doneCalls he
      exact ⟨rfl, rfl, rfl, rfl, rfl⟩
    · rw [List.mem_singleton.mp he]
      exact ⟨rfl, rfl, rfl, rfl, rfl⟩

theorem textDeltas_closing (bridge : ResponseEventBridge) : textDeltas (closing bridge) = [] := by
  apply List.flatMap_eq_nil_iff.mpr
  intro e he
  exact (closing_not_delta he).2.2.2.1

theorem reasoningIndices_closing (bridge : ResponseEventBridge) : reasoningIndices (closing bridge) = [] := by
  apply List.filterMap_eq_nil_iff.mpr
  intro e he
  exact (closing_not_delta he).2.2.2.2

theorem filterMap_doneMessage_closing (bridge : ResponseEventBridge) :
    (closing bridge).filterMap ResponseEvent.doneMessage =
      if bridge.messageStarted then [some bridge.messageItemId] else [] := by
  have hcalls : (doneCalls bridge.pendingCalls).filterMap ResponseEvent.doneMessage = [] := by
    apply List.filterMap_eq_nil_iff.mpr
    intro e he
    obtain ⟨name, arguments, callId, rfl⟩ := mem_doneCalls he
    rfl
  unfold closing doneMessage
  rw [List.filterMap_append, List.filterMap_append, hcalls]
  split
  · rfl
  · rfl

section Body

variable {bridge : ResponseEventBridge} {body : List ResponseEvent}

theorem added_before_delta (h : Emitted bridge body) {pre post : List ResponseEvent} {e : ResponseEvent}
    (hsplit : body ++ closing bridge = pre ++ e :: post) (he : e.isDelta = true) :
    ∃ a ∈ pre, a.addedMessage.isSome = true := by
  obtain ⟨deltas, hshape, -, hnil⟩ := h.shape
  have hbody : e ∈ body := by
    have hmem : e ∈ body ++ closing bridge := by
      rw [hsplit]
      exact List.mem_append_right _ List.mem_cons_self
    rcases List.mem_append.mp hmem with hmem | hmem
    · exact hmem
    · rw [(closing_not_delta hmem).1] at he
      cases he
  have htool : e.isToolInput = false := by
    cases e with
    | toolCallInputDelta itemId callId delta => cases he
    | _ => rfl
  have hstarted : bridge.messageStarted = true := by
    by_contra hno
    have hno := Bool.eq_false_iff.mpr hno
    rw [hnil hno, hno] at hshape
    have : e ∈ body.filter (fun e => !e.isToolInput) :=
      List.mem_filter.mpr ⟨hbody, by rw [htool]; rfl⟩
    rw [hshape] at this
    cases this
  rw [hstarted, if_pos rfl] at hshape
  have hfilter := congrArg (List.filter fun e => !e.isToolInput) hsplit
  rw [List.filter_append, hshape, List.filter_append,
    List.filter_cons_of_pos (a := e) (by rw [htool]; rfl)] at hfilter
  cases hpre : pre.filter (fun e => !e.isToolInput) with
  | nil =>
      rw [hpre] at hfilter
      obtain rfl : opening bridge.messageItemId = e := (List.cons.inj hfilter).1
      cases he
  | cons a rest =>
      rw [hpre] at hfilter
      obtain rfl : opening bridge.messageItemId = a := (List.cons.inj hfilter).1
      have hmem : opening bridge.messageItemId ∈ pre.filter (fun e => !e.isToolInput) := by
        rw [hpre]
        exact List.mem_cons_self
      exact ⟨_, (List.mem_filter.mp hmem).1, rfl⟩

theorem done_before_calls (h : Emitted bridge body) :
    NeverBefore isDoneCall (fun e => e.doneMessage.isSome) (body ++ closing bridge) := by
  unfold closing
  rw [← List.append_assoc]
  apply neverBefore_append
  · intro e he
    rcases List.mem_append.mp he with he | he
    · exact (body_not_closing h he).2.1
    · unfold doneMessage at he
      split at he
      · rw [List.mem_singleton.mp he]
        rfl
      · cases he
  · intro e he
    rcases List.mem_append.mp he with he | he
    · obtain ⟨name, arguments, callId, rfl⟩ := mem_doneCalls he
      rfl
    · rw [List.mem_singleton.mp he]
      rfl

theorem text_of_done (h : Emitted bridge body) {id : Option Str} {role : Str} {content : List ContentItem}
    {phase : Option MessagePhase}
    (hmem : .outputItemDone (.message id role content phase) ∈ body ++ closing bridge) :
    contentText content = bridge.accumulatedText := by
  rcases List.mem_append.mp hmem with hmem | hmem
  · cases (body_not_closing h hmem).1
  · rcases List.mem_append.mp hmem with hmem | hmem
    · unfold doneMessage at hmem
      split at hmem
      · cases List.mem_singleton.mp hmem
        cases htext : bridge.accumulatedText with
        | nil => rfl
        | cons c text => simp [contentText]
      · cases hmem
    · rcases List.mem_append.mp hmem with hmem | hmem
      · obtain ⟨name, arguments, callId, hcall⟩ := mem_doneCalls hmem
        cases hcall
      · cases List.mem_singleton.mp hmem

theorem completed_last (h : Emitted bridge body) :
    ∃ pre e, body ++ closing bridge = pre ++ [e] ∧ e.isCompleted = true ∧
      ∀ x ∈ pre, x.isCompleted = false := by
  refine ⟨body ++ (bridge.doneMessage ++ doneCalls bridge.pendingCalls),
    .completed (bridge.responseId.getD []) bridge.lastUsage (bridge.finalFinishReason.map endTurn), ?_, ?_, ?_⟩
  · unfold closing
    simp only [List.append_assoc]
  · rfl
  · intro x hx
    rcases List.mem_append.mp hx with hx | hx
    · exact (body_not_closing h hx).2.2
    · rcases List.mem_append.mp hx with hx | hx
      · unfold doneMessage at hx
        split at hx
        · rw [List.mem_singleton.mp hx]
          rfl
        · cases hx
      · obtain ⟨name, arguments, callId, rfl⟩ := mem_doneCalls hx
        rfl

end Body

/-- Whatever chunks a stream has, the turn loop sees one message opened before its deltas, closed after
them and before the calls, and one last `Completed`. -/
theorem lifecycle_events (uuid : Uuid) (chunks : List ChatCompletionChunk) :
    Lifecycle (events uuid chunks) := by
  obtain ⟨bridge, body, h, heq⟩ := events_eq uuid chunks
  have hadded : (events uuid chunks).filterMap addedMessage =
      if bridge.messageStarted then [some bridge.messageItemId] else [] := by
    have hclosing : (closing bridge).filterMap addedMessage = [] :=
      List.filterMap_eq_nil_iff.mpr fun e he => (closing_not_delta he).2.2.1
    rw [heq, List.filterMap_append, hclosing, List.append_nil, filterMap_addedMessage h]
  have hdone : (events uuid chunks).filterMap ResponseEvent.doneMessage =
      if bridge.messageStarted then [some bridge.messageItemId] else [] := by
    have hbody : body.filterMap ResponseEvent.doneMessage = [] :=
      List.filterMap_eq_nil_iff.mpr fun e he => (body_not_closing h he).1
    rw [heq, List.filterMap_append, hbody, List.nil_append, filterMap_doneMessage_closing]
  refine ⟨?_, ?_, hdone.trans hadded.symm, ?_, ?_, ?_, ?_, ?_⟩
  · rw [hadded]
    split
    · exact Nat.le_refl _
    · exact Nat.zero_le _
  · intro pre e post hsplit he
    rw [heq] at hsplit
    exact added_before_delta h hsplit he
  · rw [heq]
    refine neverBefore_append ?_ fun e he => (closing_not_delta he).1
    intro e he
    rw [(body_not_closing h he).1]
    rfl
  · rw [heq]
    exact done_before_calls h
  · intro id role content phase hmem
    rw [heq] at hmem ⊢
    rw [text_of_done h hmem, textDeltas_append, h.text, textDeltas_closing, List.append_nil]
  · refine ⟨bridge.reasoningIndex, ?_⟩
    rw [heq, reasoningIndices_append, h.indices, reasoningIndices_closing, List.append_nil]
  · rw [heq]
    exact completed_last h

end ResponseEventBridge

/-! ## Streamed tool calls -/

theorem exists_call {R : Nat → PartialCall → Prop} {indices : List Nat} {calls : List PartialCall}
    (h : List.Forall₂ R indices calls) {index : Nat} (hmem : index ∈ indices) : ∃ call ∈ calls, R index call := by
  induction h with
  | nil => cases hmem
  | @cons first firstCall rest restCalls hhead _ ih =>
      rcases List.mem_cons.mp hmem with rfl | hmem
      · exact ⟨firstCall, List.mem_cons_self, hhead⟩
      · obtain ⟨call, hcall, hR⟩ := ih hmem
        exact ⟨call, List.mem_cons_of_mem _ hcall, hR⟩

theorem identified_of_accounted {tcs : List ToolCallChunk} {events : List ResponseEvent} {indices : List Nat}
    (hinputs : events.filterMap ResponseEvent.toolInput = tcs.filterMap inputOf)
    (hcalls : finishedCalls events = ((collect tcs).filter fun entry => isKept entry.2).map Prod.snd)
    (h : Accounted tcs events indices) : Identified tcs := by
  intro tc hmem
  by_cases hkept : isKept (gather tc.index tcs) = true
  · have hentry : (tc.index, gather tc.index tcs) ∈ collect tcs := mem_collect.mpr ⟨⟨tc, hmem, rfl⟩, rfl⟩
    have hfinished : gather tc.index tcs ∈ finishedCalls events := by
      rw [hcalls]
      exact List.mem_map.mpr ⟨_, List.mem_filter.mpr ⟨hentry, hkept⟩, rfl⟩
    exact Or.inl (h.named _ hfinished)
  · rw [isKept_gather_iff, not_or] at hkept
    refine Or.inr ⟨hkept.1, hkept.2, ?_⟩
    intro other hother hindex harguments
    have hdelta := (inputDeltas_ne_nil_iff hinputs tc.index).mpr ⟨other, hother, hindex, harguments⟩
    obtain ⟨call, hcall, hid, -, -⟩ := exists_call h.calls (h.complete _ hdelta)
    apply hkept.1
    rw [HasText, hid]
    exact (h.named call hcall).1

theorem accounted_of_identified {tcs : List ToolCallChunk} {events : List ResponseEvent}
    (hinputs : events.filterMap ResponseEvent.toolInput = tcs.filterMap inputOf)
    (hcalls : finishedCalls events = ((collect tcs).filter fun entry => isKept entry.2).map Prod.snd)
    (h : Identified tcs) :
    Accounted tcs events (((collect tcs).filter fun entry => isKept entry.2).map Prod.fst) := by
  -- An entry that is kept has both texts.
  have hboth : ∀ entry ∈ (collect tcs).filter fun entry => isKept entry.2, entry.2 = gather entry.1 tcs ∧
      HasText (lastOf ToolCallChunk.id entry.1 tcs) ∧ HasText (lastOf ToolCallChunk.name entry.1 tcs) := by
    rintro ⟨index, call⟩ hentry
    obtain ⟨hentry, hkept⟩ := List.mem_filter.mp hentry
    obtain ⟨⟨tc, hmem, rfl⟩, rfl⟩ := mem_collect.mp hentry
    refine ⟨rfl, ?_⟩
    rcases h tc hmem with hboth | ⟨hid, hname, -⟩
    · exact hboth
    · rcases (isKept_gather_iff _ _).mp hkept with hhas | hhas
      · exact absurd hhas hid
      · exact absurd hhas hname
  have hsome : ∀ {text : Option Str}, HasText text → text = some (text.getD []) := by
    intro text htext
    obtain ⟨t, rfl, -⟩ := hasText_iff.mp htext
    rfl
  refine ⟨?_, ?_, ?_, ?_⟩
  · exact List.pairwise_map.mpr ((sortedCalls_collect tcs).sublist List.filter_sublist)
  · intro index hdelta
    obtain ⟨tc, hmem, rfl, harguments⟩ := (inputDeltas_ne_nil_iff hinputs index).mp hdelta
    have hentry : (tc.index, gather tc.index tcs) ∈ collect tcs := mem_collect.mpr ⟨⟨tc, hmem, rfl⟩, rfl⟩
    rcases h tc hmem with ⟨hid, -⟩ | ⟨-, -, hnone⟩
    · exact List.mem_map.mpr ⟨_, List.mem_filter.mpr ⟨hentry, (isKept_gather_iff _ _).mpr (Or.inl hid)⟩, rfl⟩
    · exact absurd harguments (hnone tc hmem rfl)
  · rw [hcalls, List.forall₂_map_left_iff, List.forall₂_map_right_iff, List.forall₂_same]
    intro entry hentry
    obtain ⟨hcall, hid, hname⟩ := hboth entry hentry
    rw [hcall]
    exact ⟨hsome hid, hsome hname, (flatten_inputDeltas hinputs entry.1).symm⟩
  · intro call hcall
    rw [hcalls] at hcall
    obtain ⟨entry, hentry, rfl⟩ := List.mem_map.mp hcall
    obtain ⟨hcall, hid, hname⟩ := hboth entry hentry
    rw [hcall]
    exact ⟨hid, hname⟩

/-- The deltas of a stream are accounted for in its calls exactly when every index that comes up ends with both a
name and an id, or with neither and without arguments. -/
theorem toolCalls_accounted_iff (uuid : ResponseEventBridge.Uuid) (chunks : List ChatCompletionChunk) :
    (∃ indices, Accounted (fragments chunks) (ResponseEventBridge.events uuid chunks) indices) ↔
      Identified (fragments chunks) := by
  obtain ⟨hinputs, hcalls⟩ := ResponseEventBridge.toolEvents uuid chunks
  constructor
  · rintro ⟨indices, h⟩
    exact identified_of_accounted hinputs hcalls h
  · intro h
    exact ⟨_, accounted_of_identified hinputs hcalls h⟩

/-- One call without a name or an id, and one without a name. -/
def unnamedCalls : ChatCompletionChunk where
  id := "r"
  choices := [⟨none, none, none,
    [⟨0, none, some ⟨none, some "x"⟩⟩, ⟨1, some "c", some ⟨none, some "y"⟩⟩]⟩]
  usage := none

/-- The first call is lost although its delta went out, and the second goes out without a name. -/
theorem unnamedCalls_not_accounted :
    ¬ ∃ indices, Accounted (fragments [unnamedCalls]) (ResponseEventBridge.events "u" [unnamedCalls]) indices := by
  rintro ⟨indices, h⟩
  have hcalls : finishedCalls (ResponseEventBridge.events "u" [unnamedCalls]) = [⟨"c", [], "y"⟩] := by decide
  have hnamed := h.named ⟨"c", [], "y"⟩ (by rw [hcalls]; exact List.mem_cons_self)
  exact hnamed.2 rfl

end Codrex.Minimax
