import Codrex.Lib.Text

/-!
# The parser for think blocks

The streaming parser of `minimax/src/think_parser.rs`, which takes the `<think>...</think>` blocks out
of the assistant's content.
-/

namespace Codrex.Minimax

open Text

inductive ParsedSegment
  | text (s : Str)
  | reasoning (s : Str)
  deriving DecidableEq

structure ThinkParser where
  pending : Str
  insideThink : Bool
  deriving DecidableEq

def openTag : Str := "<think>"

def closeTag : Str := "</think>"

/-- The index up to which `buf` can be emitted. The source counts bytes; the tags are ASCII, so only
suffixes of as many characters can match. -/
def trailingPartialMatch (buf tag : Str) : Nat :=
  let max := min buf.length (tag.length - 1)
  match (List.range' 1 max).reverse.find? (fun n => (buf.drop (buf.length - n)).isPrefixOf tag) with
  | some n => buf.length - n
  | none => buf.length

def pushSegment (out : List ParsedSegment) (segment : ParsedSegment) : List ParsedSegment :=
  match out.getLast?, segment with
  | some (.text prev), .text next => out.dropLast ++ [.text (prev ++ next)]
  | some (.reasoning prev), .reasoning next => out.dropLast ++ [.reasoning (prev ++ next)]
  | _, _ => out ++ [segment]

namespace ThinkParser

def new : ThinkParser := ⟨[], false⟩

/-- The loop of `push`. Each turn but the last drains a whole tag, so the length of `pending` bounds
the number of turns. -/
def pushLoop : Nat → ThinkParser → List ParsedSegment → ThinkParser × List ParsedSegment
  | 0, parser, out => (parser, out)
  | fuel + 1, ⟨pending, true⟩, out =>
      match find closeTag pending with
      | some idx =>
          let out := if idx > 0 then pushSegment out (.reasoning (pending.take idx)) else out
          pushLoop fuel ⟨pending.drop (idx + closeTag.length), false⟩ out
      | none =>
          let safeEmitTo := trailingPartialMatch pending closeTag
          if safeEmitTo > 0 then
            (⟨pending.drop safeEmitTo, true⟩, pushSegment out (.reasoning (pending.take safeEmitTo)))
          else (⟨pending, true⟩, out)
  | fuel + 1, ⟨pending, false⟩, out =>
      match find openTag pending with
      | some idx =>
          let out := if idx > 0 then pushSegment out (.text (pending.take idx)) else out
          pushLoop fuel ⟨pending.drop (idx + openTag.length), true⟩ out
      | none =>
          let safeEmitTo := trailingPartialMatch pending openTag
          if safeEmitTo > 0 then
            (⟨pending.drop safeEmitTo, false⟩, pushSegment out (.text (pending.take safeEmitTo)))
          else (⟨pending, false⟩, out)

def push (parser : ThinkParser) (input : Str) : ThinkParser × List ParsedSegment :=
  let pending := parser.pending ++ input
  pushLoop (pending.length + 1) ⟨pending, parser.insideThink⟩ []

def flush (parser : ThinkParser) : ThinkParser × List ParsedSegment :=
  if parser.pending.isEmpty then (parser, [])
  else
    let segment := if parser.insideThink then .reasoning parser.pending else .text parser.pending
    (⟨[], false⟩, [segment])

def pushAll : ThinkParser → List Str → ThinkParser × List ParsedSegment
  | parser, [] => (parser, [])
  | parser, chunk :: chunks =>
      let (parser, out) := parser.push chunk
      let (parser, rest) := pushAll parser chunks
      (parser, out ++ rest)

/-- A whole stream: every chunk is pushed, then the parser is flushed. -/
def run (chunks : List Str) : ThinkParser × List ParsedSegment :=
  let (parser, out) := pushAll new chunks
  let (parser, last) := parser.flush
  (parser, out ++ last)

end ThinkParser

/-! ## The segmentation of a whole string -/

def tagAfter (inside : Bool) : Str := if inside then closeTag else openTag

def segment (inside : Bool) (s : Str) : ParsedSegment := if inside then .reasoning s else .text s

theorem length_tagAfter_pos (inside : Bool) : 0 < (tagAfter inside).length := by
  cases inside with
  | false => exact (by decide)
  | true => exact (by decide)

/-- The pieces of `s` between the tags, from the leftmost `<think>` on the outside and from the leftmost
`</think>` on the inside. -/
def pieces (inside : Bool) (s : Str) : List (Bool × Str) :=
  match _h : find (tagAfter inside) s with
  | none => [(inside, s)]
  | some idx => (inside, s.take idx) :: pieces (!inside) (s.drop (idx + (tagAfter inside).length))
termination_by s.length
decreasing_by
  have hpos := length_tagAfter_pos inside
  have hlen := length_le_of_find _h
  simp only [List.length_drop]
  omega

def rebuild : List (Bool × Str) → Str
  | [] => []
  | [(_, s)] => s
  | (inside, s) :: rest => s ++ tagAfter inside ++ rebuild rest

def coalesce (segments : List ParsedSegment) : List ParsedSegment := segments.foldl pushSegment []

def segmentsOf (ps : List (Bool × Str)) : List ParsedSegment :=
  (ps.filter (fun p => !p.2.isEmpty)).map (fun p => segment p.1 p.2)

/-- The reference segmentation: the non-empty pieces, with neighbours of one kind merged. -/
def segmentation (s : Str) : List ParsedSegment := coalesce (segmentsOf (pieces false s))

def channel (inside : Bool) (segments : List ParsedSegment) : Str :=
  segments.flatMap fun seg =>
    match seg, inside with
    | .text s, false => s
    | .reasoning s, true => s
    | _, _ => []

/-- The string ends in a block that is not closed, and no end of that block can start `</think>`. -/
def EndsInOpenBlock (s : Str) : Prop :=
  ∃ tail, (pieces false s).getLast? = some (true, tail) ∧
    ∀ p, p ≠ [] → p <:+ tail → ¬ p <+: closeTag

end Codrex.Minimax

/-!
## The bridge from stream chunks to response events

`minimax/src/bridge.rs`, with the chunk types of `streaming.rs` and `types.rs`. The fields that only the
cost log reads (`run_id`, `model`, `started_at`) are left out.
-/

namespace Codrex.Minimax

open Text

/-! ## Chunks -/

structure ToolCallFunctionChunk where
  name : Option Str
  arguments : Option Str
  deriving DecidableEq

structure ToolCallChunk where
  index : Nat
  id : Option Str
  function : Option ToolCallFunctionChunk
  deriving DecidableEq

structure ChunkDelta where
  content : Option Str
  reasoningContent : Option Str
  toolCalls : List ToolCallChunk
  deriving DecidableEq

structure ChunkChoice where
  finishReason : Option Str
  delta : ChunkDelta
  deriving DecidableEq

/-- The two `*_details` blocks hold one number each. -/
structure Usage where
  promptTokens : UInt64
  completionTokens : UInt64
  totalTokens : UInt64
  cachedTokens : Option UInt64
  reasoningTokens : Option UInt64
  deriving DecidableEq

structure ChatCompletionChunk where
  id : Str
  choices : List ChunkChoice
  usage : Option Usage
  deriving DecidableEq

/-! ## Events -/

structure TokenUsage where
  inputTokens : Int64
  cachedInputTokens : Int64
  outputTokens : Int64
  reasoningOutputTokens : Int64
  totalTokens : Int64
  deriving DecidableEq

inductive ContentItem
  | outputText (text : Str)
  deriving DecidableEq

inductive MessagePhase
  | commentary
  | finalAnswer
  deriving DecidableEq

inductive ResponseItem
  | message (id : Option Str) (role : Str) (content : List ContentItem) (phase : Option MessagePhase)
  | functionCall (id : Option Str) (name : Str) (namespaceName : Option Str) (arguments callId : Str)
  deriving DecidableEq

inductive ResponseEvent
  | outputItemAdded (item : ResponseItem)
  | outputItemDone (item : ResponseItem)
  | outputTextDelta (text : Str)
  | reasoningContentDelta (delta : Str) (contentIndex : Nat)
  | toolCallInputDelta (itemId : Str) (callId : Option Str) (delta : Str)
  | completed (responseId : Str) (tokenUsage : Option TokenUsage) (endTurn : Option Bool)
  deriving DecidableEq

def ResponseEvent.textDelta : ResponseEvent → Str
  | .outputTextDelta text => text
  | _ => []

def textDeltas (events : List ResponseEvent) : Str := events.flatMap ResponseEvent.textDelta

def mapUsage (usage : Usage) : TokenUsage where
  inputTokens := usage.promptTokens.toInt64
  cachedInputTokens := (usage.cachedTokens.getD 0).toInt64
  outputTokens := usage.completionTokens.toInt64
  reasoningOutputTokens := (usage.reasoningTokens.getD 0).toInt64
  totalTokens := usage.totalTokens.toInt64

/-! ## The bridge -/

structure PartialCall where
  callId : Str := []
  name : Str := []
  arguments : Str := []
  deriving DecidableEq

/-- `BTreeMap::entry(index).or_default()` followed by an update: the entries stay in the order of their
indices. -/
def updateEntry (index : Nat) (f : PartialCall → PartialCall) :
    List (Nat × PartialCall) → List (Nat × PartialCall)
  | [] => [(index, f {})]
  | (k, call) :: rest =>
      if index < k then (index, f {}) :: (k, call) :: rest
      else if index = k then (k, f call) :: rest
      else (k, call) :: updateEntry index f rest

def lookupEntry (index : Nat) (calls : List (Nat × PartialCall)) : PartialCall :=
  (calls.lookup index).getD {}

/-- `reasoning_index` grows by one with each event, so the range of `i64` is never left. -/
structure ResponseEventBridge where
  responseId : Option Str := none
  pendingCalls : List (Nat × PartialCall) := []
  lastUsage : Option TokenUsage := none
  finalFinishReason : Option Str := none
  thinkParser : ThinkParser := .new
  reasoningIndex : Nat := 0
  messageStarted : Bool := false
  messageItemId : Str := []
  accumulatedText : Str := []
  deriving DecidableEq

namespace ResponseEventBridge

/-- `Uuid::new_v4`, asked for at most once by a bridge. -/
abbrev Uuid := Str

def ensureMessageStarted (uuid : Uuid) (self : ResponseEventBridge) (out : List ResponseEvent) :
    ResponseEventBridge × List ResponseEvent :=
  if self.messageStarted then (self, out)
  else
    let id := "msg-".toList ++ self.responseId.getD uuid
    ({ self with messageItemId := id, messageStarted := true },
      out ++ [.outputItemAdded (.message (some id) "assistant" [] none)])

def emitReasoning (uuid : Uuid) (self : ResponseEventBridge) (out : List ResponseEvent) (delta : Str) :
    ResponseEventBridge × List ResponseEvent :=
  let (self, out) := self.ensureMessageStarted uuid out
  ({ self with reasoningIndex := self.reasoningIndex + 1 },
    out ++ [.reasoningContentDelta delta self.reasoningIndex])

/-- The body of the loop over the segments, the same in `ingest` and in `finalize`. -/
def emitSegment (uuid : Uuid) (self : ResponseEventBridge) (out : List ResponseEvent) :
    ParsedSegment → ResponseEventBridge × List ResponseEvent
  | .text text =>
      if text.isEmpty then (self, out)
      else
        let (self, out) := self.ensureMessageStarted uuid out
        ({ self with accumulatedText := self.accumulatedText ++ text }, out ++ [.outputTextDelta text])
  | .reasoning text => if text.isEmpty then (self, out) else self.emitReasoning uuid out text

def emitSegments (uuid : Uuid) (self : ResponseEventBridge) (out : List ResponseEvent)
    (segments : List ParsedSegment) : ResponseEventBridge × List ResponseEvent :=
  segments.foldl (fun st seg => st.1.emitSegment uuid st.2 seg) (self, out)

def updateCall (tc : ToolCallChunk) (call : PartialCall) : PartialCall :=
  let call := match tc.id with
    | some id => { call with callId := id }
    | none => call
  match tc.function with
  | none => call
  | some func =>
      let call := match func.name with
        | some name => { call with name := name }
        | none => call
      match func.arguments with
      | some args => { call with arguments := call.arguments ++ args }
      | none => call

def ingestToolCall (self : ResponseEventBridge) (out : List ResponseEvent) (tc : ToolCallChunk) :
    ResponseEventBridge × List ResponseEvent :=
  let pendingCalls := updateEntry tc.index (updateCall tc) self.pendingCalls
  let entry := lookupEntry tc.index pendingCalls
  let event := match tc.function.bind ToolCallFunctionChunk.arguments with
    | some args =>
        if args.isEmpty then []
        else [.toolCallInputDelta ("call-".toList ++ (toString tc.index).toList)
          (if entry.callId.isEmpty then none else some entry.callId) args]
    | none => []
  ({ self with pendingCalls }, out ++ event)

def ingestReasoning (uuid : Uuid) (self : ResponseEventBridge) (out : List ResponseEvent)
    (reasoning : Option Str) : ResponseEventBridge × List ResponseEvent :=
  match reasoning with
  | some reasoning => if reasoning.isEmpty then (self, out) else self.emitReasoning uuid out reasoning
  | none => (self, out)

def ingestContent (uuid : Uuid) (self : ResponseEventBridge) (out : List ResponseEvent)
    (content : Option Str) : ResponseEventBridge × List ResponseEvent :=
  match content with
  | some content =>
      if content.isEmpty then (self, out)
      else
        let (thinkParser, segments) := self.thinkParser.push content
        { self with thinkParser }.emitSegments uuid out segments
  | none => (self, out)

def ingestChoice (uuid : Uuid) (self : ResponseEventBridge) (out : List ResponseEvent)
    (choice : ChunkChoice) : ResponseEventBridge × List ResponseEvent :=
  let self := match choice.finishReason with
    | some reason => { self with finalFinishReason := some reason }
    | none => self
  let (self, out) := self.ingestReasoning uuid out choice.delta.reasoningContent
  let (self, out) := self.ingestContent uuid out choice.delta.content
  choice.delta.toolCalls.foldl (fun st tc => st.1.ingestToolCall st.2 tc) (self, out)

def ingest (uuid : Uuid) (self : ResponseEventBridge) (chunk : ChatCompletionChunk) :
    ResponseEventBridge × List ResponseEvent :=
  let self := if self.responseId.isNone && !chunk.id.isEmpty then
      { self with responseId := some chunk.id }
    else self
  let self := match chunk.usage with
    | some usage => { self with lastUsage := some (mapUsage usage) }
    | none => self
  chunk.choices.foldl (fun st choice => st.1.ingestChoice uuid st.2 choice) (self, [])

def doneMessage (self : ResponseEventBridge) : List ResponseEvent :=
  if self.messageStarted then
    let content := if self.accumulatedText.isEmpty then [] else [.outputText self.accumulatedText]
    [.outputItemDone (.message (some self.messageItemId) "assistant" content none)]
  else []

def doneCalls (calls : List (Nat × PartialCall)) : List ResponseEvent :=
  calls.filterMap fun (_, call) =>
    if call.callId.isEmpty && call.name.isEmpty then none
    else some (.outputItemDone (.functionCall none call.name none call.arguments call.callId))

def endTurn (reason : Str) : Bool :=
  if reason = "stop".toList || reason = "length".toList then true
  else if reason = "tool_calls".toList then false
  else false

def finalize (uuid : Uuid) (self : ResponseEventBridge) : List ResponseEvent :=
  let (thinkParser, segments) := self.thinkParser.flush
  let (self, out) := { self with thinkParser }.emitSegments uuid [] segments
  out ++ self.doneMessage ++ doneCalls self.pendingCalls ++
    [.completed (self.responseId.getD []) self.lastUsage (self.finalFinishReason.map endTurn)]

def ingestAll (uuid : Uuid) : ResponseEventBridge → List ChatCompletionChunk →
    ResponseEventBridge × List ResponseEvent
  | self, [] => (self, [])
  | self, chunk :: chunks =>
      let (self, out) := self.ingest uuid chunk
      let (self, rest) := ingestAll uuid self chunks
      (self, out ++ rest)

def events (uuid : Uuid) (chunks : List ChatCompletionChunk) : List ResponseEvent :=
  let (self, out) := ingestAll uuid {} chunks
  out ++ self.finalize uuid

end ResponseEventBridge

end Codrex.Minimax
