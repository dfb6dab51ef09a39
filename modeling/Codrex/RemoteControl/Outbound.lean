import Mathlib.Data.List.AList
import Codrex.Lib.Transition
import Codrex.RemoteControl.ClientTracker

/-!
# Outbound messages of the remote control (`app-server/src/transport/remote_control/websocket.rs`)

The writer of a connection and the reader's acknowledgements, which share the state under a lock.
-/

namespace Codrex.RemoteControl

open Text Fallible

/-! ## The buffer -/

/-- The counter is a `usize`; here it could be seen below zero. -/
structure BoundedOutboundBuffer where
  bufferByStream : AList fun _ : Key => List ServerEnvelope
  used : Int
  deriving DecidableEq

namespace BoundedOutboundBuffer

def bufferOf (buffer : BoundedOutboundBuffer) (key : Key) : List ServerEnvelope :=
  (buffer.bufferByStream.lookup key).getD []

def insert (buffer : BoundedOutboundBuffer) (serverEnvelope : ServerEnvelope) : BoundedOutboundBuffer :=
  ⟨buffer.bufferByStream.insert serverEnvelope.key (buffer.bufferOf serverEnvelope.key ++ [serverEnvelope]),
    buffer.used + 1⟩

/-- The loop of `ack`: the front is taken while it is acknowledged, and each time the counter goes down. -/
def popAcked (ackedSeqId : Nat) : List ServerEnvelope → Int → List ServerEnvelope × Int
  | [], used => ([], used)
  | serverEnvelope :: rest, used =>
      if serverEnvelope.seqId ≤ ackedSeqId then popAcked ackedSeqId rest (used - 1) else (serverEnvelope :: rest, used)

def ack (buffer : BoundedOutboundBuffer) (key : Key) (ackedSeqId : Nat) : BoundedOutboundBuffer :=
  match buffer.bufferByStream.lookup key with
  | none => buffer
  | some envelopes =>
      let (rest, used) := popAcked ackedSeqId envelopes buffer.used
      if rest = [] then ⟨buffer.bufferByStream.erase key, used⟩ else ⟨buffer.bufferByStream.insert key rest, used⟩

/-- `server_envelopes`, for an order in which the map is walked. -/
def serverEnvelopes (buffer : BoundedOutboundBuffer) (order : List Key) : List ServerEnvelope :=
  order.flatMap buffer.bufferOf

end BoundedOutboundBuffer

structure WebsocketState where
  outboundBuffer : BoundedOutboundBuffer
  subscribeCursor : Option Str
  nextSeqIdByStream : AList fun _ : Key => Nat
  deriving DecidableEq

def WebsocketState.new : WebsocketState := ⟨⟨∅, 0⟩, none, ∅⟩

structure QueuedServerEnvelope where
  event : ServerEvent
  clientId : ClientId
  streamId : StreamId
  deriving DecidableEq

def QueuedServerEnvelope.key (queued : QueuedServerEnvelope) : Key := (queued.clientId, queued.streamId)

def QueuedServerEnvelope.toEnvelope (queued : QueuedServerEnvelope) (seqId : Nat) : ServerEnvelope :=
  ⟨queued.event, queued.clientId, queued.streamId, seqId⟩

def ServerEnvelope.source (envelope : ServerEnvelope) : QueuedServerEnvelope :=
  ⟨envelope.event, envelope.clientId, envelope.streamId⟩

/-! ## The writer and the reader -/

/-- Where `run_server_writer_inner` is: before it reads the buffer, among the envelopes it sends again, at the top of
the loop, in its `select`, with an event from the queue, or with an envelope that is to be sent. -/
inductive Writer
  | starting
  | resending (rest : List ServerEnvelope)
  | looping
  | waiting (outboundHasCapacity : Bool)
  | holding (queued : QueuedServerEnvelope)
  | sending (serverEnvelope : ServerEnvelope)
  deriving DecidableEq

/-- What happened to the buffer. -/
inductive Mark
  | numbered (serverEnvelope : ServerEnvelope)
  | unserializable (serverEnvelope : ServerEnvelope)
  | acked (key : Key) (seqId : Nat)
  deriving DecidableEq

/-- The process, with what became of the events it took from the queue, and, for the last connection, the buffers as its
writer found them and the envelopes that were written. -/
structure Outbound where
  state : WebsocketState
  queue : List QueuedServerEnvelope
  writer : Option Writer
  taken : List QueuedServerEnvelope
  log : List Mark
  atConnect : AList fun _ : Key => List ServerEnvelope
  written : List ServerEnvelope
  deriving DecidableEq

def Outbound.new : Outbound := ⟨.new, [], none, [], [], ∅, []⟩

/-- An event comes into the queue, a websocket connects, the writer reads the buffer in some order, goes one step on, is
woken in its `select`, or stops, where an envelope it was sending may have got through; or the reader sees an envelope.
-/
inductive OutboundAction
  | queue (queued : QueuedServerEnvelope)
  | connect
  | snapshot (order : List Key)
  | advance
  | wake
  | disconnect (sent : Bool)
  | receive (envelope : ClientEnvelope)
  deriving DecidableEq

namespace Outbound

section

variable (serializes : ServerEnvelope → Bool)

/-- The section in which an event gets its number. One that cannot be serialised is left out. -/
def number (process : Outbound) (queued : QueuedServerEnvelope) : Outbound :=
  let seqId := (process.state.nextSeqIdByStream.lookup queued.key).getD 1
  let serverEnvelope := queued.toEnvelope seqId
  if serializes serverEnvelope then
    { process with
      state := { process.state with
        nextSeqIdByStream := process.state.nextSeqIdByStream.insert queued.key (saturatingAdd seqId 1)
        outboundBuffer := process.state.outboundBuffer.insert serverEnvelope }
      writer := some (.sending serverEnvelope)
      log := process.log ++ [.numbered serverEnvelope] }
  else
    { process with
      state := { process.state with
        nextSeqIdByStream := process.state.nextSeqIdByStream.insert queued.key seqId }
      writer := some .looping
      log := process.log ++ [.unserializable serverEnvelope] }

def advance (process : Outbound) : Outbound :=
  match process.writer with
  | some (.resending []) => { process with writer := some .looping }
  | some (.resending (serverEnvelope :: rest)) =>
      if serializes serverEnvelope then
        { process with writer := some (.resending rest), written := process.written ++ [serverEnvelope] }
      else { process with writer := some (.resending rest) }
  | some .looping =>
      { process with writer := some (.waiting (process.state.outboundBuffer.used < channelCapacity)) }
  | some (.waiting true) =>
      match process.queue with
      | [] => process
      | queued :: queue =>
          { process with queue := queue, writer := some (.holding queued), taken := process.taken ++ [queued] }
  | some (.holding queued) => process.number serializes queued
  | some (.sending serverEnvelope) =>
      { process with writer := some .looping, written := process.written ++ [serverEnvelope] }
  | _ => process

/-- The writer only stops where it waits. -/
def disconnect (process : Outbound) (sent : Bool) : Outbound :=
  match process.writer with
  | some (.resending (serverEnvelope :: _)) =>
      if serializes serverEnvelope then
        { process with writer := none, written := process.written ++ if sent then [serverEnvelope] else [] }
      else process
  | some (.waiting _) => { process with writer := none }
  | some (.sending serverEnvelope) =>
      { process with writer := none, written := process.written ++ if sent then [serverEnvelope] else [] }
  | _ => process

/-- What the reader does to the state before the envelope goes to the client tracker. -/
def receive (process : Outbound) (envelope : ClientEnvelope) : Outbound :=
  let state := { process.state with subscribeCursor := envelope.cursor.or process.state.subscribeCursor }
  match envelope.event, envelope.seqId, envelope.streamId with
  | .ack, some ackedSeqId, some streamId =>
      { process with
        state := { state with outboundBuffer := state.outboundBuffer.ack (envelope.clientId, streamId) ackedSeqId }
        log := process.log ++ [.acked (envelope.clientId, streamId) ackedSeqId] }
  | _, _, _ => { process with state := state }

def step (process : Outbound) : OutboundAction → Outbound
  | .queue queued =>
      if process.queue.length < channelCapacity then { process with queue := process.queue ++ [queued] } else process
  | .connect =>
      match process.writer with
      | none => { process with writer := some .starting, atConnect := ∅, written := [] }
      | some _ => process
  | .snapshot order =>
      if process.writer = some .starting && order.isPerm process.state.outboundBuffer.bufferByStream.keys then
        { process with
          writer := some (.resending (process.state.outboundBuffer.serverEnvelopes order))
          atConnect := process.state.outboundBuffer.bufferByStream }
      else process
  | .advance => process.advance serializes
  | .wake =>
      match process.writer with
      | some (.waiting _) => { process with writer := some .looping }
      | _ => process
  | .disconnect sent => process.disconnect serializes sent
  | .receive envelope => process.receive envelope

end

end Outbound

end Codrex.RemoteControl
