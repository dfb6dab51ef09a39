import Codrex.Lib.Text
import Codrex.Lib.Transition
import Mathlib.Data.List.AList

/-!
# Messages of the remote control (`app-server/src/transport/remote_control/protocol.rs`)
-/

namespace Codrex.RemoteControl

open Text

abbrev ClientId := Str

abbrev StreamId := Str

abbrev Key := ClientId × StreamId

/-- What is read of a JSON-RPC message is its kind and its method. The rest is kept as text. -/
inductive JSONRPCMessage
  | request (method body : Str)
  | notification (method body : Str)
  | response (body : Str)
  | error (body : Str)
  deriving DecidableEq

inductive ClientEvent
  | clientMessage (message : JSONRPCMessage)
  | ack
  | ping
  | clientClosed
  deriving DecidableEq

structure ClientEnvelope where
  event : ClientEvent
  clientId : ClientId
  streamId : Option StreamId
  seqId : Option Nat
  cursor : Option Str
  deriving DecidableEq

inductive PongStatus
  | active
  | unknown
  deriving DecidableEq

inductive ServerEvent
  | serverMessage (message : Str)
  | ack
  | pong (status : PongStatus)
  deriving DecidableEq

structure ServerEnvelope where
  event : ServerEvent
  clientId : ClientId
  streamId : StreamId
  seqId : Nat
  deriving DecidableEq

def ServerEnvelope.key (envelope : ServerEnvelope) : Key := (envelope.clientId, envelope.streamId)

def channelCapacity : Nat := 128

end Codrex.RemoteControl

/-!
## Clients of the remote control (`app-server/src/transport/remote_control/client_tracker.rs`)

No receiver goes away, so nothing is stopped. Hash maps are walked in the order of their entries.
-/

namespace Codrex.RemoteControl

open Text

/-- In nanoseconds. -/
def remoteControlClientIdleTimeout : Nat := 10 * 60 * 10 ^ 9

structure ClientState where
  connectionId : Nat
  lastActivityAt : Nat
  lastInboundSeqId : Option Nat
  deriving DecidableEq

/-- A task of the join set. It returns its key only; the connection it was started for is kept to tell tasks apart. -/
structure OutboundTask where
  key : Key
  connectionId : Nat
  isFinished : Bool
  deriving DecidableEq

inductive TransportEvent
  | connectionOpened (connectionId : Nat)
  | incomingMessage (connectionId : Nat) (message : JSONRPCMessage)
  | connectionClosed (connectionId : Nat)
  deriving DecidableEq

def TransportEvent.connectionId : TransportEvent → Nat
  | connectionOpened connectionId => connectionId
  | incomingMessage connectionId _ => connectionId
  | connectionClosed connectionId => connectionId

/-- An event on the transport channel, with the key of its connection and the number of the envelope it came in. Only
the event is sent. -/
structure SentEvent where
  event : TransportEvent
  key : Key
  seqId : Option Nat
  deriving DecidableEq

/-- With what was sent on both channels, and the counter of connections that all transports share, an `AtomicU64` that
no run comes to the end of. -/
structure ClientTracker where
  clients : AList fun _ : Key => ClientState
  legacyStreamIds : AList fun _ : ClientId => StreamId
  joinSet : List OutboundTask
  sent : List SentEvent
  serverEvents : List (Key × ServerEvent)
  nextConnectionId : Nat
  deriving DecidableEq

def remoteControlMessageStartsConnection : JSONRPCMessage → Bool
  | .request method _ => method = "initialize".toList
  | _ => false

def remoteControlClientIsAlive (client : ClientState) (now : Nat) : Bool :=
  now - client.lastActivityAt < remoteControlClientIdleTimeout

/-- Whether an envelope opens a connection. -/
def ClientEnvelope.isInitialize (envelope : ClientEnvelope) : Bool :=
  match envelope.event with
  | .clientMessage message => remoteControlMessageStartsConnection message
  | _ => false

namespace ClientTracker

def new : ClientTracker := ⟨∅, ∅, [], [], [], 0⟩

def closeClient (tracker : ClientTracker) (key : Key) : ClientTracker :=
  match tracker.clients.lookup key with
  | none => tracker
  | some client =>
      { tracker with
        clients := tracker.clients.erase key
        legacyStreamIds :=
          if tracker.legacyStreamIds.lookup key.1 = some key.2 then tracker.legacyStreamIds.erase key.1
          else tracker.legacyStreamIds
        sent := tracker.sent ++ [⟨.connectionClosed client.connectionId, key, none⟩] }

/-- The stream of an envelope and the streams of clients that name none. A fresh id may be needed. -/
def resolveStream (tracker : ClientTracker) (envelope : ClientEnvelope) (newRandom : StreamId) :
    StreamId × AList fun _ : ClientId => StreamId :=
  match envelope.streamId with
  | some streamId => (streamId, tracker.legacyStreamIds)
  | none =>
      if envelope.isInitialize then
        ((tracker.legacyStreamIds.lookup envelope.clientId).getD newRandom,
          tracker.legacyStreamIds.erase envelope.clientId)
      else
        ((tracker.legacyStreamIds.lookup envelope.clientId).getD (if envelope.event = .ping then newRandom else []),
          tracker.legacyStreamIds)

def keyOf (tracker : ClientTracker) (envelope : ClientEnvelope) (newRandom : StreamId) : Key :=
  (envelope.clientId, (tracker.resolveStream envelope newRandom).1)

/-- A message for an open connection. -/
def forward (tracker : ClientTracker) (key : Key) (client : ClientState) (seqId : Option Nat) (now : Nat)
    (message : JSONRPCMessage) : ClientTracker :=
  { tracker with
    clients := tracker.clients.insert key
      { client with lastActivityAt := now, lastInboundSeqId := seqId.or client.lastInboundSeqId }
    sent := tracker.sent ++ [⟨.incomingMessage client.connectionId message, key, seqId⟩] }

def openClient (tracker : ClientTracker) (key : Key) (isLegacyStreamId : Bool) (seqId : Option Nat) (now : Nat)
    (message : JSONRPCMessage) : ClientTracker :=
  let connectionId := tracker.nextConnectionId
  { tracker with
    clients := tracker.clients.insert key ⟨connectionId, now, if isLegacyStreamId then none else seqId⟩
    legacyStreamIds :=
      if isLegacyStreamId then tracker.legacyStreamIds.insert key.1 key.2 else tracker.legacyStreamIds
    joinSet := tracker.joinSet ++ [⟨key, connectionId, false⟩]
    sent := tracker.sent ++
      [⟨.connectionOpened connectionId, key, none⟩, ⟨.incomingMessage connectionId message, key, seqId⟩]
    nextConnectionId := connectionId + 1 }

/-- The message was seen before. -/
def isStale (tracker : ClientTracker) (key : Key) (seqId : Option Nat) : Bool :=
  match seqId, tracker.clients.lookup key with
  | some seqId, some client => client.lastInboundSeqId.any fun lastSeqId => lastSeqId ≥ seqId
  | _, _ => false

def handleClientMessage (tracker : ClientTracker) (key : Key) (isLegacyStreamId : Bool) (seqId : Option Nat) (now : Nat)
    (message : JSONRPCMessage) : ClientTracker :=
  let isInitialize := remoteControlMessageStartsConnection message
  if tracker.isStale key seqId && !isInitialize then tracker
  else
    let tracker := if isInitialize && key ∈ tracker.clients then tracker.closeClient key else tracker
    match tracker.clients.lookup key with
    | some client => tracker.forward key client seqId now message
    | none => if !isInitialize then tracker else tracker.openClient key isLegacyStreamId seqId now message

/-- An open connection's own task sends the pong. -/
def handlePing (tracker : ClientTracker) (key : Key) (now : Nat) : ClientTracker :=
  match tracker.clients.lookup key with
  | some client =>
      { tracker with clients := tracker.clients.insert key { client with lastActivityAt := now } }
  | none => { tracker with serverEvents := tracker.serverEvents ++ [(key, .pong .unknown)] }

def handleMessage (tracker : ClientTracker) (envelope : ClientEnvelope) (now : Nat) (newRandom : StreamId) :
    ClientTracker :=
  let (streamId, legacyStreamIds) := tracker.resolveStream envelope newRandom
  let tracker := { tracker with legacyStreamIds := legacyStreamIds }
  if streamId = [] then tracker
  else
    let key := (envelope.clientId, streamId)
    match envelope.event with
    | .clientMessage message => tracker.handleClientMessage key envelope.streamId.isNone envelope.seqId now message
    | .ack => tracker
    | .ping => tracker.handlePing key now
    | .clientClosed => tracker.closeClient key

def expiredClients (tracker : ClientTracker) (now : Nat) : List Key :=
  (tracker.clients.entries.filter fun entry => !remoteControlClientIsAlive entry.2 now).map (·.1)

def closeExpiredClients (tracker : ClientTracker) (now : Nat) : ClientTracker :=
  (tracker.expiredClients now).foldl closeClient tracker

/-- `bookkeep_join_set`, then `close_client`. A task that panicked returns no key. -/
def joinTask (tracker : ClientTracker) (index : Nat) (panicked : Bool) : ClientTracker :=
  match tracker.joinSet[index]? with
  | none => tracker
  | some task =>
      if task.isFinished then
        let tracker := { tracker with joinSet := tracker.joinSet.eraseIdx index }
        if panicked then tracker else tracker.closeClient task.key
      else tracker

end ClientTracker

/-- What may happen next. A task may end at any time: its connection is cut, or one of its channels is closed. -/
inductive TrackerAction
  | message (envelope : ClientEnvelope) (now : Nat) (newRandom : StreamId)
  | taskEnded (index : Nat)
  | taskJoined (index : Nat) (panicked : Bool)
  | sweep (now : Nat)
  | connectionIdTaken
  deriving DecidableEq

def ClientTracker.step (tracker : ClientTracker) : TrackerAction → ClientTracker
  | .message envelope now newRandom => tracker.handleMessage envelope now newRandom
  | .taskEnded index =>
      { tracker with joinSet := tracker.joinSet.modify index fun task => { task with isFinished := true } }
  | .taskJoined index panicked => tracker.joinTask index panicked
  | .sweep now => tracker.closeExpiredClients now
  | .connectionIdTaken => { tracker with nextConnectionId := tracker.nextConnectionId + 1 }

end Codrex.RemoteControl
