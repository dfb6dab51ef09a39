import Codrex.Minimax.Bridge

/-!
# The events of a bridge, call by call

The invariant between the state of a bridge and all the events it has emitted so far.
-/

namespace Codrex.Minimax

open Text

/-! ## Kinds of events -/

namespace ResponseEvent

def isDelta : ResponseEvent → Bool
  | outputTextDelta _ => true
  | reasoningContentDelta _ _ => true
  | _ => false

def isToolInput : ResponseEvent → Bool
  | toolCallInputDelta _ _ _ => true
  | _ => false

def addedMessage : ResponseEvent → Option (Option Str)
  | outputItemAdded (.message id _ _ _) => some id
  | _ => none

def doneMessage : ResponseEvent → Option (Option Str)
  | outputItemDone (.message id _ _ _) => some id
  | _ => none

def isDoneCall : ResponseEvent → Bool
  | outputItemDone (.functionCall _ _ _ _ _) => true
  | _ => false

def isCompleted : ResponseEvent → Bool
  | completed _ _ _ => true
  | _ => false

def reasoningIndex : ResponseEvent → Option Nat
  | reasoningContentDelta _ contentIndex => some contentIndex
  | _ => none

end ResponseEvent

open ResponseEvent

def reasoningIndices (events : List ResponseEvent) : List Nat := events.filterMap reasoningIndex

@[simp] theorem textDeltas_append (xs ys : List ResponseEvent) :
    textDeltas (xs ++ ys) = textDeltas xs ++ textDeltas ys := List.flatMap_append

@[simp] theorem reasoningIndices_append (xs ys : List ResponseEvent) :
    reasoningIndices (xs ++ ys) = reasoningIndices xs ++ reasoningIndices ys := List.filterMap_append

def contentText (content : List ContentItem) : Str :=
  content.flatMap fun
    | .outputText text => text

def opening (id : Str) : ResponseEvent := .outputItemAdded (.message (some id) "assistant" [] none)

/-! ## The invariant -/

/-- What a bridge knows of the events it has emitted. Up to fragments of tool calls they are nothing
before the message is opened, and the opening with deltas behind it afterwards. -/
structure Emitted (bridge : ResponseEventBridge) (events : List ResponseEvent) : Prop where
  shape : ∃ deltas, events.filter (fun e => !e.isToolInput) =
      (if bridge.messageStarted then [opening bridge.messageItemId] else []) ++ deltas ∧
    (∀ e ∈ deltas, e.isDelta = true) ∧ (bridge.messageStarted = false → deltas = [])
  text : textDeltas events = bridge.accumulatedText
  indices : reasoningIndices events = List.range bridge.reasoningIndex

theorem emitted_new : Emitted {} [] := ⟨⟨[], rfl, by simp, fun _ => rfl⟩, rfl, rfl⟩

theorem Emitted.congr {self self' : ResponseEventBridge} {events : List ResponseEvent}
    (h : Emitted self events) (hstarted : self'.messageStarted = self.messageStarted)
    (hid : self'.messageItemId = self.messageItemId) (htext : self'.accumulatedText = self.accumulatedText)
    (hindex : self'.reasoningIndex = self.reasoningIndex) : Emitted self' events := by
  obtain ⟨hshape, ht, hi⟩ := h
  exact ⟨by rw [hstarted, hid]; exact hshape, by rw [htext]; exact ht, by rw [hindex]; exact hi⟩

theorem Emitted.toolInput {self : ResponseEventBridge} {events : List ResponseEvent} {e : ResponseEvent}
    (h : Emitted self events) (he : e.isToolInput = true) : Emitted self (events ++ [e]) := by
  cases e with
  | toolCallInputDelta itemId callId delta =>
      refine ⟨?_, ?_, ?_⟩
      · simpa [List.filter_append, isToolInput] using h.shape
      · simpa [textDeltas, textDelta] using h.text
      · rw [reasoningIndices_append, h.indices]
        exact List.append_nil _
  | _ => cases he

theorem Emitted.delta {self : ResponseEventBridge} {events : List ResponseEvent} {e : ResponseEvent}
    (h : Emitted self events) (hstarted : self.messageStarted = true) (he : e.isDelta = true) :
    ∃ deltas, (events ++ [e]).filter (fun e => !e.isToolInput) = [opening self.messageItemId] ++ deltas ∧
      (∀ e ∈ deltas, e.isDelta = true) := by
  obtain ⟨deltas, hshape, hall, -⟩ := h.shape
  rw [hstarted, if_pos rfl] at hshape
  have hkeep : [e].filter (fun e => !e.isToolInput) = [e] := by
    cases e with
    | outputTextDelta text => rfl
    | reasoningContentDelta delta contentIndex => rfl
    | _ => cases he
  refine ⟨deltas ++ [e], ?_, ?_⟩
  · rw [List.filter_append, hshape, hkeep, List.append_assoc]
  · intro x hx
    rcases List.mem_append.mp hx with hx | hx
    · exact hall x hx
    · rw [List.mem_singleton.mp hx]
      exact he

namespace ResponseEventBridge

variable {uuid : Uuid} {self : ResponseEventBridge} {before out : List ResponseEvent}

theorem emitted_ensureMessageStarted (h : Emitted self (before ++ out)) :
    Emitted (self.ensureMessageStarted uuid out).1 (before ++ (self.ensureMessageStarted uuid out).2) ∧
      (self.ensureMessageStarted uuid out).1.messageStarted = true := by
  unfold ensureMessageStarted
  by_cases hstarted : self.messageStarted = true
  · rw [if_pos hstarted]
    exact ⟨h, hstarted⟩
  · rw [if_neg hstarted]
    refine ⟨?_, rfl⟩
    obtain ⟨deltas, hshape, -, hnil⟩ := h.shape
    obtain rfl := hnil (Bool.eq_false_iff.mpr hstarted)
    rw [if_neg hstarted, List.append_nil] at hshape
    refine ⟨⟨[], ?_, by simp, fun _ => rfl⟩, ?_, ?_⟩
    · rw [← List.append_assoc, List.filter_append, hshape]
      rfl
    · rw [← List.append_assoc, textDeltas_append, h.text]
      exact List.append_nil _
    · rw [← List.append_assoc, reasoningIndices_append, h.indices]
      exact List.append_nil _

theorem emitted_emitReasoning (h : Emitted self (before ++ out)) (delta : Str) :
    Emitted (self.emitReasoning uuid out delta).1 (before ++ (self.emitReasoning uuid out delta).2) := by
  obtain ⟨hopen, hstarted⟩ := emitted_ensureMessageStarted h
  unfold emitReasoning
  generalize self.ensureMessageStarted uuid out = st at hopen hstarted ⊢
  obtain ⟨self, out⟩ := st
  simp only at hopen hstarted ⊢
  rw [← List.append_assoc]
  obtain ⟨deltas, hshape, hall⟩ :=
    hopen.delta (e := .reasoningContentDelta delta self.reasoningIndex) hstarted rfl
  refine ⟨⟨deltas, ?_, hall, fun hno => ?_⟩, ?_, ?_⟩
  · rw [hshape]
    simp only [hstarted, if_true]
  · rw [hstarted] at hno
    cases hno
  · rw [textDeltas_append, hopen.text]
    exact List.append_nil _
  · rw [reasoningIndices_append, hopen.indices, List.range_succ]
    rfl

theorem emitted_emitSegment (h : Emitted self (before ++ out)) (seg : ParsedSegment) :
    Emitted (self.emitSegment uuid out seg).1 (before ++ (self.emitSegment uuid out seg).2) := by
  cases seg with
  | reasoning text =>
      simp only [emitSegment]
      split
      · exact h
      · exact emitted_emitReasoning h text
  | text text =>
      simp only [emitSegment]
      split
      · exact h
      · obtain ⟨hopen, hstarted⟩ := emitted_ensureMessageStarted h
        generalize self.ensureMessageStarted uuid out = st at hopen hstarted ⊢
        obtain ⟨self, out⟩ := st
        simp only at hopen hstarted ⊢
        rw [← List.append_assoc]
        obtain ⟨deltas, hshape, hall⟩ := hopen.delta (e := .outputTextDelta text) hstarted rfl
        refine ⟨⟨deltas, ?_, hall, fun hno => ?_⟩, ?_, ?_⟩
        · rw [hshape]
          simp only [hstarted, if_true]
        · rw [hstarted] at hno
          cases hno
        · rw [textDeltas_append, hopen.text]
          simp [textDeltas, textDelta]
        · rw [reasoningIndices_append, hopen.indices]
          exact List.append_nil _

theorem emitted_foldl {α : Type} {f : ResponseEventBridge × List ResponseEvent → α →
      ResponseEventBridge × List ResponseEvent} {xs : List α}
    (hstep : ∀ st x, Emitted st.1 (before ++ st.2) → Emitted (f st x).1 (before ++ (f st x).2))
    (h : Emitted self (before ++ out)) :
    Emitted (xs.foldl f (self, out)).1 (before ++ (xs.foldl f (self, out)).2) := by
  induction xs generalizing self out with
  | nil => exact h
  | cons x xs ih => exact ih (hstep (self, out) x h)

theorem emitted_emitSegments (uuid : Uuid) (h : Emitted self (before ++ out)) (segments : List ParsedSegment) :
    Emitted (self.emitSegments uuid out segments).1 (before ++ (self.emitSegments uuid out segments).2) :=
  emitted_foldl (fun _ seg hst => emitted_emitSegment hst seg) h

theorem emitted_ingestToolCall (h : Emitted self (before ++ out)) (tc : ToolCallChunk) :
    Emitted (self.ingestToolCall out tc).1 (before ++ (self.ingestToolCall out tc).2) := by
  unfold ingestToolCall
  simp only
  split
  · split
    · rw [List.append_nil]
      exact h.congr rfl rfl rfl rfl
    · rw [← List.append_assoc]
      exact (h.toolInput rfl).congr rfl rfl rfl rfl
  · rw [List.append_nil]
    exact h.congr rfl rfl rfl rfl

theorem emitted_ingestReasoning (h : Emitted self (before ++ out)) (reasoning : Option Str) :
    Emitted (self.ingestReasoning uuid out reasoning).1
      (before ++ (self.ingestReasoning uuid out reasoning).2) := by
  cases reasoning with
  | none => exact h
  | some reasoning =>
      unfold ingestReasoning
      simp only
      split
      · exact h
      · exact emitted_emitReasoning h reasoning

theorem emitted_ingestContent (h : Emitted self (before ++ out)) (content : Option Str) :
    Emitted (self.ingestContent uuid out content).1
      (before ++ (self.ingestContent uuid out content).2) := by
  cases content with
  | none => exact h
  | some content =>
      unfold ingestContent
      simp only
      split
      · exact h
      · refine emitted_emitSegments uuid ?_ _
        exact h.congr rfl rfl rfl rfl

theorem emitted_ingestChoice (h : Emitted self (before ++ out)) (choice : ChunkChoice) :
    Emitted (self.ingestChoice uuid out choice).1 (before ++ (self.ingestChoice uuid out choice).2) := by
  unfold ingestChoice
  apply emitted_foldl (fun _ tc hst => emitted_ingestToolCall hst tc)
  refine emitted_ingestContent (emitted_ingestReasoning ?_ _) _
  cases choice.finishReason with
  | none => exact h
  | some reason => exact h.congr rfl rfl rfl rfl

theorem emitted_ingest (uuid : Uuid) (h : Emitted self before) (chunk : ChatCompletionChunk) :
    Emitted (self.ingest uuid chunk).1 (before ++ (self.ingest uuid chunk).2) := by
  unfold ingest
  apply emitted_foldl (fun _ choice hst => emitted_ingestChoice hst choice)
  rw [List.append_nil]
  have hid : Emitted (if self.responseId.isNone && !chunk.id.isEmpty then
      { self with responseId := some chunk.id } else self) before := by
    split
    · exact h.congr rfl rfl rfl rfl
    · exact h
  cases chunk.usage with
  | none => exact hid
  | some usage => exact hid.congr rfl rfl rfl rfl

theorem emitted_ingestAll (uuid : Uuid) (h : Emitted self before) (chunks : List ChatCompletionChunk) :
    Emitted (self.ingestAll uuid chunks).1 (before ++ (self.ingestAll uuid chunks).2) := by
  induction chunks generalizing self before with
  | nil =>
      simp only [ingestAll, List.append_nil]
      exact h
  | cons chunk chunks ih =>
      have := ih (emitted_ingest uuid h chunk)
      simp only [ingestAll]
      rw [← List.append_assoc]
      exact this

end ResponseEventBridge

end Codrex.Minimax
