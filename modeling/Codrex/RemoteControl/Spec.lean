import Codrex.Lib.Entries
import Codrex.RemoteControl.ClientTracker
import Codrex.RemoteControl.Outbound

/-!
# Connections of the remote control

What is sent for one connection, why a connection may be closed, and how the server's messages are delivered.
-/

namespace Codrex.RemoteControl

/-! ## The events of a connection -/

def eventsOf (sent : List SentEvent) (id : Nat) : List SentEvent :=
  sent.filter fun sent => sent.event.connectionId = id

def seqIds (events : List SentEvent) : List Nat := events.filterMap (·.seqId)

/-- The connection was opened and the first message was forwarded, then others. Their numbers grow. -/
structure Conversation (id : Nat) (key : Key) (message : JSONRPCMessage) (rest : List SentEvent) : Prop where
  starts : remoteControlMessageStartsConnection message = true
  forwarded : ∀ sent ∈ rest, ∃ message, sent.event = .incomingMessage id message ∧ sent.key = key
  increasing : (seqIds rest).Pairwise (· < ·)

def opening (id : Nat) (key : Key) (message : JSONRPCMessage) (seqId : Option Nat) : List SentEvent :=
  [⟨.connectionOpened id, key, none⟩, ⟨.incomingMessage id message, key, seqId⟩]

/-- Nothing, or a connection that was opened, used, and maybe closed. -/
def WellFormedEvents (id : Nat) (events : List SentEvent) : Prop :=
  events = [] ∨ ∃ key message seqId rest closing, Conversation id key message rest ∧
    events = opening id key message seqId ++ rest ++ closing ∧
      (closing = [] ∨ closing = [⟨.connectionClosed id, key, none⟩])

/-- The connection was opened for the key and is not closed. -/
def IsOpen (sent : List SentEvent) (key : Key) (id : Nat) : Prop :=
  ⟨.connectionOpened id, key, none⟩ ∈ sent ∧ ∀ event ∈ sent, event.event ≠ .connectionClosed id

/-- The number of the last message that was forwarded with one. -/
def lastForwardedSeqId (sent : List SentEvent) (id : Nat) : Option Nat := (seqIds (eventsOf sent id)).getLast?

/-- A message that opens no connection and is not forwarded has no connection or an old number. -/
def DroppedForReason (tracker : ClientTracker) (envelope : ClientEnvelope) (newRandom : StreamId) : Prop :=
  (∀ id, ¬ IsOpen tracker.sent (tracker.keyOf envelope newRandom) id) ∨
    ∃ id seqId last, IsOpen tracker.sent (tracker.keyOf envelope newRandom) id ∧ envelope.seqId = some seqId ∧
      lastForwardedSeqId tracker.sent id = some last ∧ seqId ≤ last

/-! ## Closed connections -/

def ClientTracker.HasConnection (tracker : ClientTracker) (key : Key) (id : Nat) : Prop :=
  ∃ client, tracker.clients.lookup key = some client ∧ client.connectionId = id

/-- No task of the connection runs any more. -/
def ClientTracker.TaskEnded (tracker : ClientTracker) (id : Nat) : Prop :=
  ∀ task ∈ tracker.joinSet, task.connectionId = id → task.isFinished = true

/-- Why a connection may be closed. -/
inductive Justified (tracker : ClientTracker) : TrackerAction → Nat → Prop
  | ended (action : TrackerAction) {id : Nat} : tracker.TaskEnded id → Justified tracker action id
  | closed {envelope : ClientEnvelope} {now : Nat} {newRandom : StreamId} {id : Nat} :
      envelope.event = .clientClosed → tracker.HasConnection (tracker.keyOf envelope newRandom) id →
        Justified tracker (.message envelope now newRandom) id
  | initialized {envelope : ClientEnvelope} {now : Nat} {newRandom : StreamId} {id : Nat} :
      envelope.isInitialize = true → tracker.HasConnection (tracker.keyOf envelope newRandom) id →
        Justified tracker (.message envelope now newRandom) id
  | idle {now : Nat} {key : Key} {client : ClientState} : tracker.clients.lookup key = some client →
      remoteControlClientIsAlive client now = false → Justified tracker (.sweep now) client.connectionId

/-- The connections that a step closes. -/
def closedBy (tracker : ClientTracker) (action : TrackerAction) : List Nat :=
  ((tracker.step action).sent.drop tracker.sent.length).filterMap fun sent =>
    match sent.event with
    | .connectionClosed id => some id
    | _ => none

/-- Every connection that the run closes is closed for a reason. -/
def ClosesJustified (actions : List TrackerAction) : Prop :=
  ∀ before action after, actions = before ++ action :: after →
    ∀ id ∈ closedBy (Transition.run ClientTracker.step .new before) action,
      Justified (Transition.run ClientTracker.step .new before) action id

/-- When a task is joined, the connection that is open for its key is its own, or that connection's task has ended too. -/
def JoinsOwn (tracker : ClientTracker) : TrackerAction → Prop
  | .taskJoined index false =>
      ∀ task, tracker.joinSet[index]? = some task → task.isFinished = true →
        ∀ client, tracker.clients.lookup task.key = some client →
          client.connectionId = task.connectionId ∨ tracker.TaskEnded client.connectionId
  | _ => True

/-! ## The server's messages -/

/-- The envelopes of a stream that got a number, in the order in which they got it. -/
def numberedOf (log : List Mark) (key : Key) : List ServerEnvelope :=
  log.filterMap fun
    | .numbered serverEnvelope => if serverEnvelope.key = key then some serverEnvelope else none
    | _ => none

def ofStream (envelopes : List ServerEnvelope) (key : Key) : List ServerEnvelope :=
  envelopes.filter fun serverEnvelope => serverEnvelope.key = key

/-- The envelope got a number, and no acknowledgement since then reached it. -/
def Outstanding (log : List Mark) (serverEnvelope : ServerEnvelope) : Prop :=
  ∃ before after, log = before ++ .numbered serverEnvelope :: after ∧
    ∀ seqId, .acked serverEnvelope.key seqId ∈ after → seqId < serverEnvelope.seqId

/-- The envelope got a number that no acknowledgement had reached by then. -/
def NumberedInTime (log : List Mark) (serverEnvelope : ServerEnvelope) : Prop :=
  ∃ before after, log = before ++ .numbered serverEnvelope :: after ∧
    ∀ seqId, .acked serverEnvelope.key seqId ∈ before → seqId < serverEnvelope.seqId

/-- Every acknowledgement of its stream is below the envelope. -/
def AboveAcks (log : List Mark) (serverEnvelope : ServerEnvelope) : Prop :=
  ∀ seqId, .acked serverEnvelope.key seqId ∈ log → seqId < serverEnvelope.seqId

/-- The event that a mark is about. -/
def Mark.source : Mark → Option QueuedServerEnvelope
  | .numbered serverEnvelope => some serverEnvelope.source
  | .unserializable serverEnvelope => some serverEnvelope.source
  | .acked _ _ => none

namespace Outbound

/-- The event that was taken from the queue and has no number yet. -/
def held (process : Outbound) : List QueuedServerEnvelope :=
  match process.writer with
  | some (.holding queued) => [queued]
  | _ => []

def buffered (process : Outbound) (key : Key) : List ServerEnvelope := process.state.outboundBuffer.bufferOf key

def used (process : Outbound) : Int := process.state.outboundBuffer.used

def bufferedAtConnect (process : Outbound) (key : Key) : List ServerEnvelope :=
  (process.atConnect.lookup key).getD []

/-- All that was buffered has been sent again. -/
def HasResent (process : Outbound) : Prop :=
  ∃ writer, process.writer = some writer ∧ writer ≠ .starting ∧ ∀ rest, writer ≠ .resending rest

/-- The numbers of the stream have not reached the end of `u64`. -/
def BelowSaturation (process : Outbound) (key : Key) : Prop := (numberedOf process.log key).length < 2 ^ 64

/-- The event is held, or it got a number and is buffered or acknowledged. -/
def Kept (process : Outbound) (queued : QueuedServerEnvelope) : Prop :=
  queued ∈ process.held ∨ ∃ serverEnvelope, serverEnvelope.source = queued ∧ .numbered serverEnvelope ∈ process.log ∧
    (serverEnvelope ∈ process.buffered serverEnvelope.key ∨ ¬ AboveAcks process.log serverEnvelope)

structure Delivered (serializes : ServerEnvelope → Bool) (process : Outbound) : Prop where
  consecutive : ∀ key, process.BelowSaturation key →
    (numberedOf process.log key).map (·.seqId) = List.range' 1 (numberedOf process.log key).length
  outstanding : ∀ key serverEnvelope, serverEnvelope ∈ process.buffered key ↔
    serverEnvelope.key = key ∧ Outstanding process.log serverEnvelope
  aboveAcks : ∀ serverEnvelope, process.BelowSaturation serverEnvelope.key →
    NumberedInTime process.log serverEnvelope →
      (serverEnvelope ∈ process.buffered serverEnvelope.key ↔ AboveAcks process.log serverEnvelope)
  ordered : ∀ key, process.BelowSaturation key → (process.buffered key).Pairwise (·.seqId < ·.seqId)
  used : process.used = Assoc.sumValues List.length process.state.outboundBuffer.bufferByStream
  bounded : 0 ≤ process.used ∧ process.used ≤ channelCapacity
  increasing : ∀ key, process.BelowSaturation key → (ofStream process.written key).Pairwise (·.seqId < ·.seqId)
  resending : ∀ key, ofStream process.written key <+: process.bufferedAtConnect key ∨
    process.bufferedAtConnect key <+: ofStream process.written key
  resent : process.HasResent → ∀ key, process.bufferedAtConnect key <+: ofStream process.written key
  taken : process.taken = process.log.filterMap Mark.source ++ process.held
  kept : ∀ queued ∈ process.taken, process.Kept queued ∨ ∃ serverEnvelope, serverEnvelope.source = queued ∧
    .unserializable serverEnvelope ∈ process.log ∧ serializes serverEnvelope = false

end Outbound

end Codrex.RemoteControl
