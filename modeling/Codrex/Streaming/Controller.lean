import Codrex.Lib.BytePositions

/-!
# Streamed messages (`tui/src/streaming/controller.rs`)

With the collector of source, `tui/src/markdown_stream.rs`, and the queue of lines, `tui/src/streaming/mod.rs`. A
function that slices gives `none` where the slice panics.
-/

namespace Codrex.Streaming

open Text

variable {Line : Type}

/-- `append_markdown`. -/
abbrev Renderer (Line : Type) := Str → Option Nat → List Line

/-! ## The collector -/

structure MarkdownStreamCollector where
  buffer : Str
  committedSourceLen : Nat
  width : Option Nat

namespace MarkdownStreamCollector

def new (width : Option Nat) : MarkdownStreamCollector := ⟨[], 0, width⟩

def setWidth (collector : MarkdownStreamCollector) (width : Option Nat) : MarkdownStreamCollector :=
  { collector with width }

def clear (collector : MarkdownStreamCollector) : MarkdownStreamCollector :=
  { collector with buffer := [], committedSourceLen := 0 }

def pushDelta (collector : MarkdownStreamCollector) (delta : Str) : MarkdownStreamCollector :=
  { collector with buffer := collector.buffer ++ delta }

def commitCompleteSource (collector : MarkdownStreamCollector) : Option (Option Str × MarkdownStreamCollector) :=
  match (rfindNewline collector.buffer).map (· + 1) with
  | none => some (none, collector)
  | some commitEnd =>
      if commitEnd ≤ collector.committedSourceLen then some (none, collector)
      else (slice collector.buffer collector.committedSourceLen commitEnd).map fun out =>
        (some out, { collector with committedSourceLen := commitEnd })

def finalizeAndDrainSource (collector : MarkdownStreamCollector) : Option (Str × MarkdownStreamCollector) :=
  if byteLen collector.buffer ≤ collector.committedSourceLen then some ([], collector.clear)
  else (slice collector.buffer collector.committedSourceLen (byteLen collector.buffer)).map fun out =>
    (if out.getLast? = some '\n' then out else out ++ ['\n'], collector.clear)

end MarkdownStreamCollector

/-! ## The queue -/

structure StreamState (Line : Type) where
  collector : MarkdownStreamCollector
  queuedLines : List Line
  hasSeenDelta : Bool

namespace StreamState

def new (width : Option Nat) : StreamState Line := ⟨.new width, [], false⟩

def clear (state : StreamState Line) : StreamState Line := ⟨state.collector.clear, [], false⟩

def step (state : StreamState Line) : List Line × StreamState Line :=
  (state.queuedLines.take 1, { state with queuedLines := state.queuedLines.drop 1 })

def drainN (state : StreamState Line) (maxLines : Nat) : List Line × StreamState Line :=
  let stop := min maxLines state.queuedLines.length
  (state.queuedLines.take stop, { state with queuedLines := state.queuedLines.drop stop })

def clearQueue (state : StreamState Line) : StreamState Line := { state with queuedLines := [] }

def isIdle (state : StreamState Line) : Bool := state.queuedLines.isEmpty

def queuedLen (state : StreamState Line) : Nat := state.queuedLines.length

def enqueue (state : StreamState Line) (lines : List Line) : StreamState Line :=
  { state with queuedLines := state.queuedLines ++ lines }

end StreamState

/-! ## The core -/

structure StreamCore (Line : Type) where
  state : StreamState Line
  width : Option Nat
  rawSource : Str
  renderedLines : List Line
  enqueuedLen : Nat
  emittedLen : Nat

/-- `lines[start..stop]`. -/
def sliceLines (lines : List Line) (start stop : Nat) : Option (List Line) :=
  if start ≤ stop ∧ stop ≤ lines.length then some ((lines.take stop).drop start) else none

namespace StreamCore

def new (width : Option Nat) : StreamCore Line := ⟨.new width, width, [], [], 0, 0⟩

def queuedLines (core : StreamCore Line) : Nat := core.state.queuedLen

def isIdle (core : StreamCore Line) : Bool := core.state.isIdle

def recomputeRender (render : Renderer Line) (core : StreamCore Line) : StreamCore Line :=
  { core with renderedLines := render core.rawSource core.width }

def rebuildQueueFromRender (core : StreamCore Line) : Option (StreamCore Line) :=
  let core := { core with state := core.state.clearQueue }
  let targetLen := max core.renderedLines.length core.emittedLen
  if core.emittedLen < targetLen then
    (sliceLines core.renderedLines core.emittedLen targetLen).map fun lines =>
      { core with state := core.state.enqueue lines, enqueuedLen := targetLen }
  else some { core with enqueuedLen := targetLen }

def syncQueueToRender (core : StreamCore Line) : Option (Bool × StreamCore Line) :=
  let targetLen := max core.renderedLines.length core.emittedLen
  if targetLen < core.enqueuedLen then core.rebuildQueueFromRender.map fun core => (0 < core.queuedLines, core)
  else if targetLen = core.enqueuedLen then some (false, core)
  else
    (sliceLines core.renderedLines core.enqueuedLen targetLen).map fun lines =>
      (true, { core with state := core.state.enqueue lines, enqueuedLen := targetLen })

def pushDelta (render : Renderer Line) (core : StreamCore Line) (delta : Str) : Option (Bool × StreamCore Line) :=
  let core := { core with state := { core.state with
    collector := core.state.collector.pushDelta delta
    hasSeenDelta := core.state.hasSeenDelta || delta ≠ [] } }
  if '\n' ∉ delta then some (false, core)
  else
    core.state.collector.commitCompleteSource.bind fun (committedSource, collector) =>
      match committedSource with
      | none => some (false, { core with state := { core.state with collector } })
      | some committedSource =>
          ({ core with
            state := { core.state with collector }
            rawSource := core.rawSource ++ committedSource }.recomputeRender render).syncQueueToRender

def finalizeRemaining (render : Renderer Line) (core : StreamCore Line) : Option (List Line × StreamCore Line) :=
  core.state.collector.finalizeAndDrainSource.bind fun (remainderSource, collector) =>
    let core := { core with
      state := { core.state with collector }
      rawSource := core.rawSource ++ remainderSource }
    let rendered := render core.rawSource core.width
    if rendered.length ≤ core.emittedLen then some ([], core)
    else (sliceLines rendered core.emittedLen rendered.length).map fun lines => (lines, core)

def tick (core : StreamCore Line) : List Line × StreamCore Line :=
  let (step, state) := core.state.step
  (step, { core with state, emittedLen := core.emittedLen + step.length })

def tickBatch (core : StreamCore Line) (maxLines : Nat) : List Line × StreamCore Line :=
  if maxLines = 0 then ([], core)
  else
    let (step, state) := core.state.drainN maxLines
    (step, { core with state, emittedLen := core.emittedLen + step.length })

/-- The emitted lines in a new render. A line of what was pending is kept where it has come to fewer lines. -/
def resizedLen (emittedLen renderedLen : Nat) (hadPendingQueue : Bool) : Nat :=
  let emittedLen := min emittedLen renderedLen
  if hadPendingQueue ∧ emittedLen = renderedLen ∧ 0 < emittedLen then emittedLen - 1 else emittedLen

def setWidth (render : Renderer Line) (core : StreamCore Line) (width : Option Nat) : Option (StreamCore Line) :=
  if core.width = width then some core
  else
    let hadPendingQueue := decide (0 < core.state.queuedLen)
    let core := { core with width, state := { core.state with collector := core.state.collector.setWidth width } }
    if core.rawSource = [] then some core
    else
      let core := core.recomputeRender render
      let emittedLen := resizedLen core.emittedLen core.renderedLines.length hadPendingQueue
      let core := { core with emittedLen, state := core.state.clearQueue }
      if 0 < emittedLen ∧ !hadPendingQueue then some { core with enqueuedLen := core.renderedLines.length }
      else core.rebuildQueueFromRender

def clearQueue (core : StreamCore Line) : StreamCore Line :=
  { core with state := core.state.clearQueue, enqueuedLen := core.emittedLen }

def reset (core : StreamCore Line) : StreamCore Line :=
  { core with state := core.state.clear, rawSource := [], renderedLines := [], enqueuedLen := 0, emittedLen := 0 }

end StreamCore

/-! ## The controller -/

structure StreamController (Line : Type) where
  core : StreamCore Line
  headerEmitted : Bool

structure AgentMessageCell (Line : Type) where
  lines : List Line
  isFirstLine : Bool

namespace StreamController

def new (width : Option Nat) : StreamController Line := ⟨.new width, false⟩

def emit (controller : StreamController Line) (lines : List Line) :
    Option (AgentMessageCell Line) × StreamController Line :=
  if lines = [] then (none, controller)
  else (some ⟨lines, !controller.headerEmitted⟩, { controller with headerEmitted := true })

def push (render : Renderer Line) (controller : StreamController Line) (delta : Str) :
    Option (Bool × StreamController Line) :=
  (controller.core.pushDelta render delta).map fun (queued, core) => (queued, { controller with core })

def finalize (render : Renderer Line) (controller : StreamController Line) :
    Option ((Option (AgentMessageCell Line) × Option Str) × StreamController Line) :=
  (controller.core.finalizeRemaining render).map fun (remaining, core) =>
    if core.rawSource = [] then ((none, none), { controller with core := core.reset })
    else
      let (out, controller) := { controller with core }.emit remaining
      ((out, some core.rawSource), { controller with core := core.reset })

def onCommitTick (controller : StreamController Line) :
    (Option (AgentMessageCell Line) × Bool) × StreamController Line :=
  let (step, core) := controller.core.tick
  let (out, controller) := { controller with core }.emit step
  ((out, controller.core.isIdle), controller)

def onCommitTickBatch (controller : StreamController Line) (maxLines : Nat) :
    (Option (AgentMessageCell Line) × Bool) × StreamController Line :=
  let (step, core) := controller.core.tickBatch maxLines
  let (out, controller) := { controller with core }.emit step
  ((out, controller.core.isIdle), controller)

def queuedLines (controller : StreamController Line) : Nat := controller.core.queuedLines

def clearQueue (controller : StreamController Line) : StreamController Line :=
  { controller with core := controller.core.clearQueue }

def setWidth (render : Renderer Line) (controller : StreamController Line) (width : Option Nat) :
    Option (StreamController Line) :=
  (controller.core.setWidth render width).map fun core => { controller with core }

end StreamController

/-! ## Steps -/

inductive Op
  | push (delta : Str)
  | onCommitTick
  | onCommitTickBatch (maxLines : Nat)
  | clearQueue
  | setWidth (width : Option Nat)

/-- The lines that a step emits, and the controller behind it. -/
def step (render : Renderer Line) (controller : StreamController Line) :
    Op → Option (List Line × StreamController Line)
  | .push delta => (controller.push render delta).map fun (_, controller) => ([], controller)
  | .onCommitTick =>
      let ((cell, _), controller) := controller.onCommitTick
      some ((cell.map (·.lines)).getD [], controller)
  | .onCommitTickBatch maxLines =>
      let ((cell, _), controller) := controller.onCommitTickBatch maxLines
      some ((cell.map (·.lines)).getD [], controller)
  | .clearQueue => some ([], controller.clearQueue)
  | .setWidth width => (controller.setWidth render width).map fun controller => ([], controller)

end Codrex.Streaming
