import Codrex.Minimax.Bridge
import Codrex.Minimax.Lemmas.Bridge

/-!
# What a stream says of its tool calls
-/

namespace Codrex.Minimax

open Text

/-! ## The fragments of a call -/

def fragments (chunks : List ChatCompletionChunk) : List ToolCallChunk :=
  chunks.flatMap fun chunk => chunk.choices.flatMap fun choice => choice.delta.toolCalls

def ToolCallChunk.name (tc : ToolCallChunk) : Option Str := tc.function.bind ToolCallFunctionChunk.name

def ToolCallChunk.arguments (tc : ToolCallChunk) : Option Str := tc.function.bind ToolCallFunctionChunk.arguments

/-- The last value of a field that the fragments of the index bring. -/
def lastOf (field : ToolCallChunk → Option Str) (index : Nat) (tcs : List ToolCallChunk) : Option Str :=
  ((tcs.filter (·.index = index)).filterMap field).getLast?

/-! ## The events of a call -/

def itemId (index : Nat) : Str := "call-".toList ++ (toString index).toList

def ResponseEvent.toolInput : ResponseEvent → Option (Str × Str)
  | .toolCallInputDelta itemId _ delta => some (itemId, delta)
  | _ => none

/-- The deltas that were emitted for an index. -/
def inputDeltas (index : Nat) (events : List ResponseEvent) : List Str :=
  ((events.filterMap ResponseEvent.toolInput).filter (·.1 = itemId index)).map Prod.snd

def ResponseEvent.finishedCall : ResponseEvent → Option PartialCall
  | .outputItemDone (.functionCall _ name _ arguments callId) => some ⟨callId, name, arguments⟩
  | _ => none

def finishedCalls (events : List ResponseEvent) : List PartialCall := events.filterMap ResponseEvent.finishedCall

/-- The calls that came out are those of the indices, in increasing order: each index with a delta has one, with
all the deltas of the index and its last name and id, and none has an empty name or id. -/
structure Accounted (tcs : List ToolCallChunk) (events : List ResponseEvent) (indices : List Nat) : Prop where
  increasing : indices.Pairwise (· < ·)
  complete : ∀ index, inputDeltas index events ≠ [] → index ∈ indices
  calls : List.Forall₂ (fun index call =>
      lastOf ToolCallChunk.id index tcs = some call.callId ∧
      lastOf ToolCallChunk.name index tcs = some call.name ∧
      call.arguments = (inputDeltas index events).flatten) indices (finishedCalls events)
  named : ∀ call ∈ finishedCalls events, call.callId ≠ [] ∧ call.name ≠ []

/-! ## Calls that can be told apart -/

def HasText (text : Option Str) : Prop := text.getD [] ≠ []

/-- Every index that comes up ends with a name and an id, or with neither and without arguments. -/
def Identified (tcs : List ToolCallChunk) : Prop :=
  ∀ tc ∈ tcs,
    (HasText (lastOf ToolCallChunk.id tc.index tcs) ∧ HasText (lastOf ToolCallChunk.name tc.index tcs)) ∨
    (¬ HasText (lastOf ToolCallChunk.id tc.index tcs) ∧ ¬ HasText (lastOf ToolCallChunk.name tc.index tcs) ∧
      ∀ other ∈ tcs, other.index = tc.index → ¬ HasText other.arguments)

end Codrex.Minimax

/-!
## Streamed tool calls

The pending calls of a bridge are what the fragments so far add up to, and the deltas it emitted are theirs.
-/

namespace Codrex.Minimax

open Text

/-! ## The calls of the fragments -/

def collect (tcs : List ToolCallChunk) : List (Nat × PartialCall) :=
  tcs.foldl (fun calls tc => updateEntry tc.index (ResponseEventBridge.updateCall tc) calls) []

/-- The call of an index, from the fragments alone. -/
def gather (index : Nat) (tcs : List ToolCallChunk) : PartialCall where
  callId := (lastOf ToolCallChunk.id index tcs).getD []
  name := (lastOf ToolCallChunk.name index tcs).getD []
  arguments := ((tcs.filter (·.index = index)).filterMap ToolCallChunk.arguments).flatten

theorem collect_concat (tcs : List ToolCallChunk) (tc : ToolCallChunk) :
    collect (tcs ++ [tc]) = updateEntry tc.index (ResponseEventBridge.updateCall tc) (collect tcs) := by
  rw [collect, List.foldl_concat]
  rfl

theorem lastOf_concat (field : ToolCallChunk → Option Str) (index : Nat) (tcs : List ToolCallChunk)
    (tc : ToolCallChunk) : lastOf field index (tcs ++ [tc]) =
      if tc.index = index then (field tc).or (lastOf field index tcs) else lastOf field index tcs := by
  unfold lastOf
  by_cases h : tc.index = index
  · cases hfield : field tc with
    | none => simp [List.filter_append, List.filterMap_append, h, hfield]
    | some text => simp [List.filter_append, List.filterMap_append, h, hfield]
  · simp [List.filter_append, h]

variable {index : Nat} {tcs : List ToolCallChunk} {calls : List (Nat × PartialCall)} {events : List ResponseEvent}

theorem gather_of_ne (h : ∀ tc ∈ tcs, tc.index ≠ index) : gather index tcs = {} := by
  have hnone : tcs.filter (·.index = index) = [] := by
    apply List.filter_eq_nil_iff.mpr
    intro tc hmem
    simpa using h tc hmem
  simp [gather, lastOf, hnone]

theorem gather_concat_ne {tc : ToolCallChunk} (h : tc.index ≠ index) (tcs : List ToolCallChunk) :
    gather index (tcs ++ [tc]) = gather index tcs := by
  simp [gather, lastOf_concat, h, List.filter_append]

theorem updateCall_eq (tc : ToolCallChunk) (call : PartialCall) :
    ResponseEventBridge.updateCall tc call =
      ⟨tc.id.getD call.callId, tc.name.getD call.name, call.arguments ++ tc.arguments.getD []⟩ := by
  obtain ⟨index, id, function⟩ := tc
  cases id with
  | none =>
      cases function with
      | none => simp [ResponseEventBridge.updateCall, ToolCallChunk.name, ToolCallChunk.arguments]
      | some function =>
          obtain ⟨name, arguments⟩ := function
          cases name <;> cases arguments <;>
            simp [ResponseEventBridge.updateCall, ToolCallChunk.name, ToolCallChunk.arguments]
  | some id =>
      cases function with
      | none => simp [ResponseEventBridge.updateCall, ToolCallChunk.name, ToolCallChunk.arguments]
      | some function =>
          obtain ⟨name, arguments⟩ := function
          cases name <;> cases arguments <;>
            simp [ResponseEventBridge.updateCall, ToolCallChunk.name, ToolCallChunk.arguments]

theorem getD_or (a b : Option Str) : (a.or b).getD [] = a.getD (b.getD []) := by
  cases a with
  | none => rfl
  | some text => rfl

theorem gather_concat (tcs : List ToolCallChunk) (tc : ToolCallChunk) :
    gather tc.index (tcs ++ [tc]) = ResponseEventBridge.updateCall tc (gather tc.index tcs) := by
  rw [updateCall_eq]
  unfold gather
  rw [lastOf_concat, lastOf_concat, if_pos rfl, if_pos rfl, getD_or, getD_or]
  congr 1
  cases harguments : tc.arguments with
  | none => simp [List.filter_append, harguments]
  | some arguments => simp [List.filter_append, harguments]

/-! ## The order of the calls -/

def SortedCalls (calls : List (Nat × PartialCall)) : Prop := calls.Pairwise fun a b => a.1 < b.1

theorem lookupEntry_cons (index k : Nat) (call : PartialCall) (rest : List (Nat × PartialCall)) :
    lookupEntry index ((k, call) :: rest) = if index = k then call else lookupEntry index rest := by
  unfold lookupEntry
  rw [List.lookup_cons]
  by_cases h : index = k
  · simp [h]
  · rw [beq_false_of_ne h, if_neg h]

theorem lookupEntry_of_ne (h : ∀ entry ∈ calls, entry.1 ≠ index) : lookupEntry index calls = {} := by
  induction calls with
  | nil => rfl
  | cons entry rest ih =>
      obtain ⟨k, call⟩ := entry
      rw [lookupEntry_cons, if_neg (Ne.symm (h _ List.mem_cons_self))]
      exact ih fun other hother => h other (List.mem_cons_of_mem _ hother)

theorem mem_updateEntry (h : SortedCalls calls) {f : PartialCall → PartialCall} {k : Nat} {call : PartialCall} :
    (k, call) ∈ updateEntry index f calls ↔
      (k = index ∧ call = f (lookupEntry index calls)) ∨ (k ≠ index ∧ (k, call) ∈ calls) := by
  induction calls with
  | nil => simp [updateEntry, lookupEntry]
  | cons entry rest ih =>
      obtain ⟨first, firstCall⟩ := entry
      obtain ⟨hfirst, hrest⟩ := List.pairwise_cons.mp h
      unfold updateEntry
      split
      · rename_i hlt
        have hne : ∀ entry ∈ (first, firstCall) :: rest, entry.1 ≠ index := by
          intro entry hentry
          rcases List.mem_cons.mp hentry with rfl | hentry
          · exact Nat.ne_of_gt hlt
          · exact Nat.ne_of_gt (hlt.trans (hfirst entry hentry))
        rw [lookupEntry_of_ne hne, List.mem_cons, Prod.mk.injEq]
        constructor
        · rintro (h | hmem)
          · exact Or.inl h
          · exact Or.inr ⟨hne _ hmem, hmem⟩
        · rintro (h | ⟨-, hmem⟩)
          · exact Or.inl h
          · exact Or.inr hmem
      · split
        · rename_i heq
          subst heq
          rw [lookupEntry_cons, if_pos rfl, List.mem_cons, List.mem_cons, Prod.mk.injEq, Prod.mk.injEq]
          constructor
          · rintro (h | hmem)
            · exact Or.inl h
            · exact Or.inr ⟨Nat.ne_of_gt (hfirst _ hmem), Or.inr hmem⟩
          · rintro (h | ⟨hne, ⟨rfl, -⟩ | hmem⟩)
            · exact Or.inl h
            · exact absurd rfl hne
            · exact Or.inr hmem
        · rename_i hne
          rw [lookupEntry_cons, if_neg hne, List.mem_cons, List.mem_cons, ih hrest, Prod.mk.injEq]
          constructor
          · rintro (⟨rfl, rfl⟩ | h | ⟨hk, hmem⟩)
            · exact Or.inr ⟨Ne.symm hne, Or.inl ⟨rfl, rfl⟩⟩
            · exact Or.inl h
            · exact Or.inr ⟨hk, Or.inr hmem⟩
          · rintro (h | ⟨hk, h | hmem⟩)
            · exact Or.inr (Or.inl h)
            · exact Or.inl h
            · exact Or.inr (Or.inr ⟨hk, hmem⟩)

theorem sortedCalls_updateEntry (h : SortedCalls calls) (index : Nat) (f : PartialCall → PartialCall) :
    SortedCalls (updateEntry index f calls) := by
  induction calls with
  | nil => simp [updateEntry, SortedCalls]
  | cons entry rest ih =>
      obtain ⟨first, firstCall⟩ := entry
      obtain ⟨hfirst, hrest⟩ := List.pairwise_cons.mp h
      unfold updateEntry
      split
      · rename_i hlt
        refine List.pairwise_cons.mpr ⟨?_, h⟩
        intro other hother
        rcases List.mem_cons.mp hother with rfl | hother
        · exact hlt
        · exact hlt.trans (hfirst other hother)
      · rename_i hge
        split
        · exact List.pairwise_cons.mpr ⟨hfirst, hrest⟩
        · rename_i hne
          refine List.pairwise_cons.mpr ⟨?_, ih hrest⟩
          rintro ⟨k, call⟩ hmem
          rcases (mem_updateEntry hrest).mp hmem with ⟨rfl, -⟩ | ⟨-, hmem⟩
          · exact Nat.lt_of_le_of_ne (Nat.le_of_not_lt hge) (Ne.symm hne)
          · exact hfirst _ hmem

theorem sortedCalls_collect (tcs : List ToolCallChunk) : SortedCalls (collect tcs) := by
  induction tcs using List.reverseRecOn with
  | nil => exact List.Pairwise.nil
  | append_singleton tcs tc ih =>
      rw [collect_concat]
      exact sortedCalls_updateEntry ih _ _

theorem lookupEntry_of_mem (h : SortedCalls calls) {call : PartialCall} (hmem : (index, call) ∈ calls) :
    lookupEntry index calls = call := by
  induction calls with
  | nil => cases hmem
  | cons entry rest ih =>
      obtain ⟨k, first⟩ := entry
      obtain ⟨hfirst, hrest⟩ := List.pairwise_cons.mp h
      rw [lookupEntry_cons]
      rcases List.mem_cons.mp hmem with heq | hmem
      · cases heq
        rw [if_pos rfl]
      · rw [if_neg (Nat.ne_of_gt (hfirst _ hmem))]
        exact ih hrest hmem

/-- The pending calls are those of the indices that have come up, each gathered from its fragments. -/
theorem mem_collect {call : PartialCall} :
    (index, call) ∈ collect tcs ↔ (∃ tc ∈ tcs, tc.index = index) ∧ call = gather index tcs := by
  induction tcs using List.reverseRecOn generalizing index call with
  | nil => simp [collect]
  | append_singleton tcs tc ih =>
      have hlookup : lookupEntry tc.index (collect tcs) = gather tc.index tcs := by
        by_cases hex : ∃ other ∈ tcs, other.index = tc.index
        · exact lookupEntry_of_mem (sortedCalls_collect tcs) (ih.mpr ⟨hex, rfl⟩)
        · rw [gather_of_ne fun other hmem heq => hex ⟨other, hmem, heq⟩, lookupEntry_of_ne]
          rintro ⟨k, other⟩ hmem rfl
          exact hex (ih.mp hmem).1
      rw [collect_concat, mem_updateEntry (sortedCalls_collect tcs), hlookup, ← gather_concat, ih]
      by_cases hk : index = tc.index
      · subst hk
        simp
      · rw [gather_concat_ne (Ne.symm hk)]
        simp [hk, Ne.symm hk]

/-! ## The deltas of the calls -/

theorem itemId_injective {i j : Nat} (h : itemId i = itemId j) : i = j := by
  have htail := List.append_cancel_left h
  rw [Nat.toString_eq_repr, Nat.toString_eq_repr] at htail
  exact repr_injective htail

def inputOf (tc : ToolCallChunk) : Option (Str × Str) :=
  (tc.arguments.filter (· ≠ [])).map fun arguments => (itemId tc.index, arguments)

/-- What a bridge has taken from the fragments so far, and has told of them. -/
structure Collected (bridge : ResponseEventBridge) (events : List ResponseEvent) (tcs : List ToolCallChunk) :
    Prop where
  pending : bridge.pendingCalls = collect tcs
  inputs : events.filterMap ResponseEvent.toolInput = tcs.filterMap inputOf
  finished : finishedCalls events = []

/-- A step that tells nothing of tool calls. -/
structure Quiet (before after : ResponseEventBridge × List ResponseEvent) : Prop where
  pending : after.1.pendingCalls = before.1.pendingCalls
  events : ∃ more, after.2 = before.2 ++ more ∧ ∀ e ∈ more, e.toolInput = none ∧ e.finishedCall = none

theorem Quiet.refl (st : ResponseEventBridge × List ResponseEvent) : Quiet st st :=
  ⟨rfl, [], (List.append_nil _).symm, by simp⟩

theorem Quiet.trans {st st' st'' : ResponseEventBridge × List ResponseEvent} (h : Quiet st st') (h' : Quiet st' st'') :
    Quiet st st'' := by
  obtain ⟨more, hmore, hquiet⟩ := h.events
  obtain ⟨more', hmore', hquiet'⟩ := h'.events
  refine ⟨h'.pending.trans h.pending, more ++ more', by rw [hmore', hmore, List.append_assoc], ?_⟩
  intro e he
  rcases List.mem_append.mp he with he | he
  · exact hquiet e he
  · exact hquiet' e he

theorem Quiet.foldl {α : Type} {f : ResponseEventBridge × List ResponseEvent → α →
      ResponseEventBridge × List ResponseEvent} (hstep : ∀ st x, Quiet st (f st x)) (xs : List α)
    (st : ResponseEventBridge × List ResponseEvent) : Quiet st (xs.foldl f st) := by
  induction xs generalizing st with
  | nil => exact .refl st
  | cons x xs ih => exact (hstep st x).trans (ih (f st x))

theorem Collected.quiet {before after : ResponseEventBridge × List ResponseEvent}
    (h : Collected before.1 (events ++ before.2) tcs) (hquiet : Quiet before after) :
    Collected after.1 (events ++ after.2) tcs := by
  obtain ⟨more, hmore, hnone⟩ := hquiet.events
  have hinputs : more.filterMap ResponseEvent.toolInput = [] :=
    List.filterMap_eq_nil_iff.mpr fun e he => (hnone e he).1
  have hfinished : finishedCalls more = [] := List.filterMap_eq_nil_iff.mpr fun e he => (hnone e he).2
  refine ⟨hquiet.pending.trans h.pending, ?_, ?_⟩
  · rw [hmore, ← List.append_assoc, List.filterMap_append, h.inputs, hinputs, List.append_nil]
  · rw [hmore, ← List.append_assoc, finishedCalls, List.filterMap_append]
    exact (congrArg₂ _ h.finished hfinished).trans (List.append_nil _)

/-- An entry that is not dropped at the end. -/
def isKept (call : PartialCall) : Bool := !(call.callId.isEmpty && call.name.isEmpty)

namespace ResponseEventBridge

variable {uuid : Uuid} {self : ResponseEventBridge} {out : List ResponseEvent}

theorem quiet_ensureMessageStarted : Quiet (self, out) (self.ensureMessageStarted uuid out) := by
  unfold ensureMessageStarted
  split
  · exact .refl _
  · exact ⟨rfl, _, rfl, by simp [ResponseEvent.toolInput, ResponseEvent.finishedCall]⟩

theorem quiet_emitReasoning (delta : Str) : Quiet (self, out) (self.emitReasoning uuid out delta) := by
  have hopen : Quiet (self, out) (self.ensureMessageStarted uuid out) := quiet_ensureMessageStarted
  exact hopen.trans ⟨rfl, _, rfl, by simp [ResponseEvent.toolInput, ResponseEvent.finishedCall]⟩

theorem quiet_emitSegment (seg : ParsedSegment) : Quiet (self, out) (self.emitSegment uuid out seg) := by
  cases seg with
  | text text =>
      simp only [emitSegment]
      split
      · exact .refl _
      · have hopen : Quiet (self, out) (self.ensureMessageStarted uuid out) := quiet_ensureMessageStarted
        exact hopen.trans ⟨rfl, _, rfl, by simp [ResponseEvent.toolInput, ResponseEvent.finishedCall]⟩
  | reasoning text =>
      simp only [emitSegment]
      split
      · exact .refl _
      · exact quiet_emitReasoning text

theorem quiet_emitSegments (uuid : Uuid) (segments : List ParsedSegment) :
    Quiet (self, out) (self.emitSegments uuid out segments) :=
  Quiet.foldl (fun _ seg => quiet_emitSegment seg) segments _

theorem quiet_ingestReasoning (uuid : Uuid) (reasoning : Option Str) :
    Quiet (self, out) (self.ingestReasoning uuid out reasoning) := by
  cases reasoning with
  | none => exact .refl _
  | some reasoning =>
      unfold ingestReasoning
      simp only
      split
      · exact .refl _
      · exact quiet_emitReasoning reasoning

theorem quiet_ingestContent (uuid : Uuid) (content : Option Str) :
    Quiet (self, out) (self.ingestContent uuid out content) := by
  cases content with
  | none => exact .refl _
  | some content =>
      unfold ingestContent
      simp only
      split
      · exact .refl _
      · have hparser : Quiet (self, out) ({ self with thinkParser := (self.thinkParser.push content).1 }, out) :=
          ⟨rfl, [], (List.append_nil _).symm, by simp⟩
        exact hparser.trans (quiet_emitSegments uuid _)

/-! ## Whole streams -/

variable {events : List ResponseEvent} {tcs : List ToolCallChunk}

theorem collected_ingestToolCall (h : Collected self (events ++ out) tcs) (tc : ToolCallChunk) :
    Collected (self.ingestToolCall out tc).1 (events ++ (self.ingestToolCall out tc).2) (tcs ++ [tc]) := by
  have hpending : (self.ingestToolCall out tc).1.pendingCalls = collect (tcs ++ [tc]) := by
    rw [collect_concat, ← h.pending]
    rfl
  have hevents : ∃ more, (self.ingestToolCall out tc).2 = out ++ more ∧
      more.filterMap ResponseEvent.toolInput = (inputOf tc).toList ∧ finishedCalls more = [] := by
    refine ⟨_, rfl, ?_, ?_⟩
    · unfold inputOf ToolCallChunk.arguments
      cases tc.function.bind ToolCallFunctionChunk.arguments with
      | none => rfl
      | some arguments =>
          cases arguments with
          | nil => rfl
          | cons c arguments => rfl
    · cases tc.function.bind ToolCallFunctionChunk.arguments with
      | none => rfl
      | some arguments =>
          cases arguments with
          | nil => rfl
          | cons c arguments => rfl
  obtain ⟨more, hmore, hinputs, hfinished⟩ := hevents
  refine ⟨hpending, ?_, ?_⟩
  · rw [hmore, ← List.append_assoc, List.filterMap_append, h.inputs, hinputs, List.filterMap_append]
    cases hinput : inputOf tc with
    | none => simp [hinput]
    | some input => simp [hinput]
  · rw [hmore, ← List.append_assoc, finishedCalls, List.filterMap_append]
    exact (congrArg₂ _ h.finished hfinished).trans (List.append_nil _)

theorem collected_foldl {α : Type} {f : ResponseEventBridge × List ResponseEvent → α →
      ResponseEventBridge × List ResponseEvent} (parts : α → List ToolCallChunk)
    (hstep : ∀ st x tcs, Collected st.1 (events ++ st.2) tcs →
      Collected (f st x).1 (events ++ (f st x).2) (tcs ++ parts x))
    (xs : List α) {st : ResponseEventBridge × List ResponseEvent} (h : Collected st.1 (events ++ st.2) tcs) :
    Collected (xs.foldl f st).1 (events ++ (xs.foldl f st).2) (tcs ++ xs.flatMap parts) := by
  induction xs generalizing st tcs with
  | nil =>
      rw [List.flatMap_nil, List.append_nil]
      exact h
  | cons x xs ih =>
      have hrest := ih (hstep st x tcs h)
      rwa [List.append_assoc, ← List.flatMap_cons] at hrest

theorem collected_ingestChoice (h : Collected self (events ++ out) tcs) (choice : ChunkChoice) :
    Collected (self.ingestChoice uuid out choice).1 (events ++ (self.ingestChoice uuid out choice).2)
      (tcs ++ choice.delta.toolCalls) := by
  have hcontent (next : ResponseEventBridge) (hnext : Quiet (self, out) (next, out)) :=
    (hnext.trans (quiet_ingestReasoning uuid choice.delta.reasoningContent)).trans
      (quiet_ingestContent uuid choice.delta.content)
  have hcalls (next : ResponseEventBridge) (hnext : Quiet (self, out) (next, out)) :=
    collected_foldl (fun tc => [tc]) (fun st tc tcs h => collected_ingestToolCall h tc) choice.delta.toolCalls
      (h.quiet (hcontent next hnext))
  simp only [List.flatMap_singleton'] at hcalls
  unfold ingestChoice
  cases choice.finishReason with
  | none => exact hcalls self (.refl _)
  | some reason => exact hcalls _ ⟨rfl, [], (List.append_nil _).symm, by simp⟩

theorem collected_ingest (uuid : Uuid) (h : Collected self events tcs) (chunk : ChatCompletionChunk) :
    Collected (self.ingest uuid chunk).1 (events ++ (self.ingest uuid chunk).2)
      (tcs ++ chunk.choices.flatMap fun choice => choice.delta.toolCalls) := by
  unfold ingest
  apply collected_foldl _ (fun st choice tcs h => collected_ingestChoice h choice)
  rw [List.append_nil]
  refine ⟨?_, h.inputs, h.finished⟩
  cases chunk.usage with
  | none =>
      simp only
      split
      · exact h.pending
      · exact h.pending
  | some usage =>
      simp only
      split
      · exact h.pending
      · exact h.pending

theorem collected_ingestAll (uuid : Uuid) (h : Collected self events tcs) (chunks : List ChatCompletionChunk) :
    Collected (self.ingestAll uuid chunks).1 (events ++ (self.ingestAll uuid chunks).2)
      (tcs ++ fragments chunks) := by
  induction chunks generalizing self events tcs with
  | nil =>
      simp only [ingestAll, fragments, List.flatMap_nil, List.append_nil]
      exact h
  | cons chunk chunks ih =>
      have hrest := ih (collected_ingest uuid h chunk)
      simp only [ingestAll]
      rw [List.append_assoc, List.append_assoc] at hrest
      exact hrest

theorem doneCalls_cons (index : Nat) (call : PartialCall) (calls : List (Nat × PartialCall)) :
    doneCalls ((index, call) :: calls) = if isKept call then
      .outputItemDone (.functionCall none call.name none call.arguments call.callId) :: doneCalls calls
      else doneCalls calls := by
  unfold doneCalls isKept
  rw [List.filterMap_cons]
  cases hempty : call.callId.isEmpty && call.name.isEmpty with
  | true => simp only [hempty, if_true, Bool.not_true, Bool.false_eq_true, if_false]
  | false => simp only [hempty, Bool.false_eq_true, if_false, Bool.not_false, if_true]

theorem finishedCalls_doneCalls (calls : List (Nat × PartialCall)) :
    finishedCalls (doneCalls calls) = (calls.filter fun entry => isKept entry.2).map Prod.snd := by
  induction calls with
  | nil => rfl
  | cons entry calls ih =>
      obtain ⟨index, call⟩ := entry
      rw [doneCalls_cons, List.filter_cons]
      split
      · rw [List.map_cons, ← ih]
        rfl
      · exact ih

theorem toolInput_doneCalls (calls : List (Nat × PartialCall)) :
    (doneCalls calls).filterMap ResponseEvent.toolInput = [] := by
  induction calls with
  | nil => rfl
  | cons entry calls ih =>
      obtain ⟨index, call⟩ := entry
      rw [doneCalls_cons]
      split
      · exact ih
      · exact ih

theorem finishedCalls_append (xs ys : List ResponseEvent) :
    finishedCalls (xs ++ ys) = finishedCalls xs ++ finishedCalls ys := List.filterMap_append

theorem quiet_doneMessage (self : ResponseEventBridge) :
    self.doneMessage.filterMap ResponseEvent.toolInput = [] ∧ finishedCalls self.doneMessage = [] := by
  unfold doneMessage
  split
  · exact ⟨rfl, rfl⟩
  · exact ⟨rfl, rfl⟩

/-- The deltas and the calls among the events of a stream, from its fragments. -/
theorem toolEvents (uuid : Uuid) (chunks : List ChatCompletionChunk) :
    (ResponseEventBridge.events uuid chunks).filterMap ResponseEvent.toolInput =
        (fragments chunks).filterMap inputOf ∧
      finishedCalls (ResponseEventBridge.events uuid chunks) =
        ((collect (fragments chunks)).filter fun entry => isKept entry.2).map Prod.snd := by
  have hnew : Collected {} [] [] := ⟨rfl, rfl, rfl⟩
  have hall := collected_ingestAll uuid hnew chunks
  rw [List.nil_append, List.nil_append] at hall
  unfold ResponseEventBridge.events finalize
  generalize ingestAll uuid {} chunks = st at hall ⊢
  obtain ⟨self, out⟩ := st
  simp only at hall ⊢
  have hparser : Quiet (self, []) ({ self with thinkParser := self.thinkParser.flush.1 }, []) :=
    ⟨rfl, [], rfl, by simp⟩
  have hflush := hparser.trans (quiet_emitSegments uuid self.thinkParser.flush.2)
  rw [← List.append_nil out] at hall
  have hend := hall.quiet hflush
  generalize ({ self with thinkParser := self.thinkParser.flush.1 } : ResponseEventBridge).emitSegments uuid []
    self.thinkParser.flush.2 = st at hend ⊢
  obtain ⟨self, flushed⟩ := st
  obtain ⟨hinputs, hfinished⟩ := quiet_doneMessage self
  simp only at hend ⊢
  rw [← hend.pending, ← hend.inputs]
  have hclosed : finishedCalls (out ++ flushed) = [] := hend.finished
  simp only [← List.append_assoc]
  constructor
  · simp only [List.filterMap_append, hinputs, toolInput_doneCalls]
    simp [ResponseEvent.toolInput]
  · rw [finishedCalls_append, finishedCalls_append, finishedCalls_append, hclosed, hfinished,
      finishedCalls_doneCalls]
    exact List.append_nil _

end ResponseEventBridge

/-! ## The deltas of an index -/

theorem inputDeltas_eq (h : events.filterMap ResponseEvent.toolInput = tcs.filterMap inputOf) (index : Nat) :
    inputDeltas index events =
      ((tcs.filter (·.index = index)).filterMap ToolCallChunk.arguments).filter (· ≠ []) := by
  rw [inputDeltas, h]
  clear h
  induction tcs with
  | nil => rfl
  | cons tc tcs ih =>
      have hinput : ∀ arguments, tc.arguments = arguments →
          inputOf tc = (arguments.filter (· ≠ [])).map fun arguments => (itemId tc.index, arguments) := by
        rintro arguments rfl
        rfl
      by_cases hindex : tc.index = index
      · subst hindex
        cases harguments : tc.arguments with
        | none => simpa [hinput _ harguments, harguments] using ih
        | some arguments =>
            cases arguments with
            | nil => simpa [hinput _ harguments, harguments] using ih
            | cons c arguments => simpa [hinput _ harguments, harguments] using ih
      · have hitem : itemId tc.index ≠ itemId index := fun heq => hindex (itemId_injective heq)
        cases harguments : tc.arguments with
        | none => simpa [hinput _ harguments, hindex] using ih
        | some arguments =>
            cases arguments with
            | nil => simpa [hinput _ harguments, hindex] using ih
            | cons c arguments => simpa [hinput _ harguments, hindex, hitem] using ih

theorem hasText_iff {text : Option Str} : HasText text ↔ ∃ t, text = some t ∧ t ≠ [] := by
  unfold HasText
  cases text with
  | none => simp
  | some text => simp

theorem inputDeltas_ne_nil_iff (h : events.filterMap ResponseEvent.toolInput = tcs.filterMap inputOf) (index : Nat) :
    inputDeltas index events ≠ [] ↔ ∃ tc ∈ tcs, tc.index = index ∧ HasText tc.arguments := by
  have hmem : ∀ delta, delta ∈ inputDeltas index events ↔
      ∃ tc ∈ tcs, tc.index = index ∧ tc.arguments = some delta ∧ delta ≠ [] := by
    intro delta
    rw [inputDeltas_eq h]
    simp only [List.mem_filter, List.mem_filterMap, decide_eq_true_eq, and_assoc]
    constructor
    · rintro ⟨⟨tc, hmem, hindex, harguments⟩, hne⟩
      exact ⟨tc, hmem, hindex, harguments, hne⟩
    · rintro ⟨tc, hmem, hindex, harguments, hne⟩
      exact ⟨⟨tc, hmem, hindex, harguments⟩, hne⟩
  constructor
  · intro hne
    obtain ⟨delta, hdelta⟩ := List.exists_mem_of_ne_nil _ hne
    obtain ⟨tc, htc, hindex, harguments, hne⟩ := (hmem delta).mp hdelta
    exact ⟨tc, htc, hindex, hasText_iff.mpr ⟨delta, harguments, hne⟩⟩
  · rintro ⟨tc, htc, hindex, htext⟩
    obtain ⟨delta, harguments, hne⟩ := hasText_iff.mp htext
    exact List.ne_nil_of_mem ((hmem delta).mpr ⟨tc, htc, hindex, harguments, hne⟩)

theorem flatten_inputDeltas (h : events.filterMap ResponseEvent.toolInput = tcs.filterMap inputOf) (index : Nat) :
    (inputDeltas index events).flatten = (gather index tcs).arguments := by
  rw [inputDeltas_eq h]
  exact List.flatten_filter_ne_nil

theorem isKept_gather_iff (index : Nat) (tcs : List ToolCallChunk) : isKept (gather index tcs) = true ↔
    HasText (lastOf ToolCallChunk.id index tcs) ∨ HasText (lastOf ToolCallChunk.name index tcs) := by
  simp only [isKept, gather, HasText, Bool.not_eq_true', Bool.and_eq_false_iff, List.isEmpty_eq_false_iff]

end Codrex.Minimax
