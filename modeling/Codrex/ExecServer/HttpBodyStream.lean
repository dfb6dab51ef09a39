import Codrex.Lib.Text
import Codrex.Lib.Transition

/-!
# Streamed HTTP bodies (`exec-server/src/client/http_response_body_stream.rs`)

With `http_request_stream` of `exec-server/src/client/rpc_http_client.rs`. A task takes the lock, looks at a table,
sends into a channel or receives from one in a move of its own. Notifications are handled one after the other in the
source; here they may also overlap.
-/

namespace Codrex.ExecServer

open Text

/-! ## Channels -/

structure HttpRequestBodyDeltaNotification where
  requestId : Str
  seq : Nat
  delta : List UInt8
  done : Bool
  error : Option Str
  deriving DecidableEq

def HttpRequestBodyDeltaNotification.terminalDelta (params : HttpRequestBodyDeltaNotification) : Bool :=
  params.done || params.error.isSome

/-- The queue of a channel, and whether its receiver is still there. -/
structure BodyChannel where
  queue : List HttpRequestBodyDeltaNotification
  receiving : Bool

inductive TrySendError
  | closed
  | full

def httpBodyDeltaChannelCapacity : Nat := 256

def BodyChannel.trySend (channel : BodyChannel) (params : HttpRequestBodyDeltaNotification) :
    Except TrySendError BodyChannel :=
  if !channel.receiving then .error .closed
  else if channel.queue.length ≥ httpBodyDeltaChannelCapacity then .error .full
  else .ok { channel with queue := channel.queue ++ [params] }

/-! ## The tables -/

/-- The tables of the client, the channel of every request id that was registered, and the deltas that have arrived.
The sender of a route is that of the channel of its request. -/
structure HttpBodies where
  httpBodyStreams : List Str
  httpBodyStreamFailures : Str → Option Str
  /-- The lock is held across moves. -/
  writeLocked : Bool
  nextId : Nat
  channels : Str → Option BodyChannel
  received : List HttpRequestBodyDeltaNotification

namespace HttpBodies

variable (bodies : HttpBodies)

def new : HttpBodies := ⟨[], fun _ => none, false, 1, fun _ => none, []⟩

def requestIdText (id : Nat) : Str := "http-".toList ++ (Nat.repr id).toList

def insertHttpBodyStream (requestId : Str) : HttpBodies :=
  { bodies with
    httpBodyStreams := requestId :: bodies.httpBodyStreams
    httpBodyStreamFailures := Function.update bodies.httpBodyStreamFailures requestId none
    channels := Function.update bodies.channels requestId (some ⟨[], true⟩) }

def removeHttpBodyStream (requestId : Str) : HttpBodies :=
  { bodies with httpBodyStreams := bodies.httpBodyStreams.filter fun other => other ≠ requestId }

def recordHttpBodyStreamFailure (requestId message : Str) : HttpBodies :=
  { bodies with
    httpBodyStreamFailures := Function.update bodies.httpBodyStreamFailures requestId (some message) }

def takeHttpBodyStreamFailure (requestId : Str) : HttpBodies :=
  { bodies with httpBodyStreamFailures := Function.update bodies.httpBodyStreamFailures requestId none }

def setChannel (requestId : Str) (channel : BodyChannel) : HttpBodies :=
  { bodies with channels := Function.update bodies.channels requestId (some channel) }

def dropReceiver (requestId : Str) : HttpBodies := bodies.setChannel requestId ⟨[], false⟩

end HttpBodies

/-! ## Tasks -/

/-- The remote stream. -/
structure HttpResponseBodyStream where
  requestId : Str
  nextSeq : Nat
  pendingEof : Bool
  closed : Bool
  deriving DecidableEq

abbrev RecvResult := Except Str (Option (List UInt8))

/-- Where a request, a notification or a failure of the transport stands. A stream comes with what its calls of `recv`
have returned. -/
inductive HttpBodyTask
  /-- `http_request_stream`, with its request id and the sender once there are. -/
  | inserting (requestId : Option Str)
  /-- Registered, and without a response. -/
  | requesting (requestId : Str)
  /-- The request has failed, and its route is removed before the receiver goes. -/
  | abandoning (requestId : Str)
  /-- Between calls of `recv`. -/
  | streaming (stream : HttpResponseBodyStream) (returned : List RecvResult)
  /-- In `finish_remote_stream`, with what is returned after it, unless a failure is looked up. -/
  | finishing (stream : HttpResponseBodyStream) (result : Option RecvResult) (returned : List RecvResult)
  | takingFailure (stream : HttpResponseBodyStream) (returned : List RecvResult)
  /-- The removal that a drop spawns. -/
  | removing (requestId : Str)
  | handling (params : HttpRequestBodyDeltaNotification)
  /-- The handler of a delta with the sender of the route. -/
  | sending (params : HttpRequestBodyDeltaNotification)
  | recording (requestId : Str)
  | unrouting (requestId : Str)
  | failing (message : Str)
  /-- `fail_all_http_body_streams` with the lock, and the senders that are left. -/
  | failingAll (message : Str) (streams : List Str)
  | recordingFailed (message : Str) (requestId : Str) (streams : List Str)
  | returned
  deriving DecidableEq

inductive HttpBodyRequest
  | httpRequestStream
  | handleHttpBodyDeltaNotification (params : HttpRequestBodyDeltaNotification)
  | failAllHttpBodyStreams (message : Str)

def HttpBodyRequest.start : HttpBodyRequest → HttpBodyTask
  | httpRequestStream => .inserting none
  | handleHttpBodyDeltaNotification params => .handling params
  | failAllHttpBodyStreams message => .failing message

/-- What the caller does next: it waits for the response and receives, or the request fails, or the caller drops the
request or the stream. -/
inductive CallerChoice
  | goOn
  | fail
  | drop

/-- The order in which a map is gone through is left open, too. -/
structure HttpBodyChoice where
  caller : CallerChoice
  pick : Nat

abbrev HttpBodyState := Tasks.System HttpBodies HttpBodyTask

namespace HttpBodyTask

def holdsSender (requestId : Str) : HttpBodyTask → Bool
  | inserting other => other = some requestId
  | sending params => params.requestId = requestId
  | recording other => other = requestId
  | unrouting other => other = requestId
  | failingAll _ streams => streams.contains requestId
  | recordingFailed _ other streams => other = requestId || streams.contains requestId
  | _ => false

end HttpBodyTask

/-- Some sender of the channel is left. -/
def senderLeft (state : HttpBodyState) (requestId : Str) : Bool :=
  state.shared.httpBodyStreams.contains requestId || state.tasks.any (HttpBodyTask.holdsSender requestId)

namespace HttpResponseBodyStream

def remote (requestId : Str) : HttpResponseBodyStream := ⟨requestId, 1, false, false⟩

variable (stream : HttpResponseBodyStream) (returned : List RecvResult)

/-- The end of a call, with a look at the failures if there is nothing to return. -/
def answer : Option RecvResult → HttpBodyTask
  | some result => .streaming stream (returned ++ [result])
  | none => .takingFailure stream returned

def finishRemoteStream (result : Option RecvResult) : HttpBodyTask :=
  if stream.closed then stream.answer returned result else .finishing { stream with closed := true } result returned

def failedText (error : Str) : Str :=
  "http response stream `".toList ++ stream.requestId ++ "` failed: ".toList ++ error

def gapText (seq : Nat) : Str :=
  "http response stream `".toList ++ stream.requestId ++ "` received seq ".toList ++ (Nat.repr seq).toList ++
    ", expected ".toList ++ (Nat.repr stream.nextSeq).toList

def recvDelta (delta : HttpRequestBodyDeltaNotification) : HttpBodyTask :=
  if delta.seq ≠ stream.nextSeq then stream.finishRemoteStream returned (some (.error (stream.gapText delta.seq)))
  else
    let stream := { stream with nextSeq := stream.nextSeq + 1 }
    match delta.error with
    | some error => stream.finishRemoteStream returned (some (.error (stream.failedText error)))
    | none =>
        if delta.done then
          if delta.delta = [] then stream.finishRemoteStream returned (some (.ok none))
          else { stream with pendingEof := true }.finishRemoteStream returned (some (.ok (some delta.delta)))
        else .streaming stream (returned ++ [.ok (some delta.delta)])

end HttpResponseBodyStream

/-- The delta of `fail_all_http_body_streams`. -/
def failureDelta (requestId message : Str) : HttpRequestBodyDeltaNotification := ⟨requestId, 1, [], true, some message⟩

def recv (state : HttpBodyState) (stream : HttpResponseBodyStream) (returned : List RecvResult) :
    HttpBodies × HttpBodyTask :=
  if stream.pendingEof then
    (state.shared, { stream with pendingEof := false }.finishRemoteStream returned (some (.ok none)))
  else
    match state.shared.channels stream.requestId with
    | some ⟨delta :: queue, receiving⟩ =>
        (state.shared.setChannel stream.requestId ⟨queue, receiving⟩, stream.recvDelta returned delta)
    | _ =>
        if senderLeft state stream.requestId then (state.shared, .streaming stream returned)
        else (state.shared, stream.finishRemoteStream returned none)

/-- A section under the lock waits while the lock is held. -/
def underLock (bodies : HttpBodies) (waiting : HttpBodyTask) (section' : HttpBodies × HttpBodyTask) :
    HttpBodies × HttpBodyTask :=
  if bodies.writeLocked then (bodies, waiting) else section'

def moveHttpBodyTask (state : HttpBodyState) (choice : HttpBodyChoice) (task : HttpBodyTask) :
    HttpBodies × HttpBodyTask :=
  let bodies := state.shared
  match task with
  | .inserting none =>
      ({ bodies with nextId := bodies.nextId + 1 }, .inserting (some (HttpBodies.requestIdText bodies.nextId)))
  | .inserting (some requestId) =>
      underLock bodies task
        (if bodies.httpBodyStreams.contains requestId then (bodies, .returned)
        else (bodies.insertHttpBodyStream requestId, .requesting requestId))
  | .requesting requestId =>
      match choice.caller with
      | .goOn => (bodies, .streaming (.remote requestId) [])
      | .fail => (bodies, .abandoning requestId)
      | .drop => (bodies.dropReceiver requestId, .removing requestId)
  | .abandoning requestId =>
      underLock bodies task ((bodies.removeHttpBodyStream requestId).dropReceiver requestId, .returned)
  | .streaming stream returned =>
      match choice.caller with
      | .drop => (bodies.dropReceiver stream.requestId, if stream.closed then .returned else .removing stream.requestId)
      | _ => recv state stream returned
  | .finishing stream result returned =>
      underLock bodies task (bodies.removeHttpBodyStream stream.requestId, stream.answer returned result)
  | .takingFailure stream returned =>
      underLock bodies task
        (match bodies.httpBodyStreamFailures stream.requestId with
        | some error =>
            (bodies.takeHttpBodyStreamFailure stream.requestId,
              .streaming stream (returned ++ [.error (stream.failedText error)]))
        | none => (bodies, .streaming stream (returned ++ [.ok none])))
  | .removing requestId => underLock bodies task (bodies.removeHttpBodyStream requestId, .returned)
  | .handling params =>
      ({ bodies with received := params :: bodies.received },
        if bodies.httpBodyStreams.contains params.requestId then .sending params else .returned)
  | .sending params =>
      match bodies.channels params.requestId with
      | none => (bodies, .returned)
      | some channel =>
          match channel.trySend params with
          | .ok channel =>
              (bodies.setChannel params.requestId channel,
                if params.terminalDelta then .unrouting params.requestId else .returned)
          | .error .closed => (bodies, .unrouting params.requestId)
          | .error .full => (bodies, .recording params.requestId)
  | .recording requestId =>
      underLock bodies task
        (bodies.recordHttpBodyStreamFailure requestId "body delta channel filled before delivery".toList,
          .unrouting requestId)
  | .unrouting requestId => underLock bodies task (bodies.removeHttpBodyStream requestId, .returned)
  | .failing message =>
      underLock bodies task
        ({ bodies with httpBodyStreams := [], writeLocked := true }, .failingAll message bodies.httpBodyStreams)
  | .failingAll message streams =>
      match streams[choice.pick % streams.length]? with
      | none => ({ bodies with writeLocked := false }, .returned)
      | some requestId =>
          let left := streams.eraseIdx (choice.pick % streams.length)
          match bodies.channels requestId with
          | none => (bodies, .recordingFailed message requestId left)
          | some channel =>
              match channel.trySend (failureDelta requestId message) with
              | .ok channel => (bodies.setChannel requestId channel, .failingAll message left)
              | .error _ => (bodies, .recordingFailed message requestId left)
  | .recordingFailed message requestId streams =>
      (bodies.recordHttpBodyStreamFailure requestId message, .failingAll message streams)
  | .returned => (bodies, .returned)

abbrev HttpBodyAction := Tasks.Action HttpBodyRequest HttpBodyChoice

def httpBodyStep : HttpBodyState → HttpBodyAction → HttpBodyState :=
  Tasks.step HttpBodyRequest.start fun state choice task =>
    let (bodies, task) := moveHttpBodyTask state choice task
    ⟨bodies, task, []⟩

def startHttpBodies : HttpBodyState := ⟨.new, []⟩

/-! ## What the streams are for -/

/-- The deltas of the request with the numbers from 1 on, each of which has arrived. -/
structure Delivered (received : List HttpRequestBodyDeltaNotification) (requestId : Str)
    (deltas : List HttpRequestBodyDeltaNotification) : Prop where
  seqs : deltas.map HttpRequestBodyDeltaNotification.seq = List.range' 1 deltas.length
  arrived : ∀ delta ∈ deltas, delta ∈ received ∧ delta.requestId = requestId

/-- The chunks are the body up to a delta that ends it without an error. -/
def EndsCleanly (received : List HttpRequestBodyDeltaNotification) (requestId : Str) (chunks : List (List UInt8)) :
    Prop :=
  ∃ deltas, Delivered received requestId deltas ∧
    (∃ last, deltas.getLast? = some last ∧ last.done = true ∧ last.error = none) ∧
      chunks.flatten = (deltas.map HttpRequestBodyDeltaNotification.delta).flatten

def chunkResult (chunk : List UInt8) : RecvResult := .ok (some chunk)

/-- A stream that ends without an error has given its whole body. -/
def NeverTruncated (state : HttpBodyState) : Prop :=
  ∀ stream returned, .streaming stream returned ∈ state.tasks → ∀ chunks rest,
    returned = chunks.map chunkResult ++ .ok none :: rest → EndsCleanly state.shared.received stream.requestId chunks

end Codrex.ExecServer
