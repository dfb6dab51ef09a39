import Codrex.Lib.Text
import Codrex.Lib.Transition

/-!
# Processes of the exec server

The tasks that belong to one process of `exec-server/src/local_process.rs`, with its events
(`exec-server/src/process.rs`). A task takes the process lock once in a move; what it sends, it sends in a move of its
own.
-/

namespace Codrex.ExecServer

open Text Fallible

abbrev ByteChunk := List UInt8

inductive ExecOutputStream
  | stdout
  | stderr
  | pty
  deriving DecidableEq

structure ProcessOutputChunk where
  seq : Nat
  stream : ExecOutputStream
  chunk : ByteChunk
  deriving DecidableEq

/-! ## Events -/

inductive ExecProcessEvent
  | output (chunk : ProcessOutputChunk)
  | exited (seq : Nat) (exitCode : Int)
  | closed (seq : Nat)
  | failed (message : Str)
  deriving DecidableEq

namespace ExecProcessEvent

def seq : ExecProcessEvent → Option Nat
  | output chunk => some chunk.seq
  | exited seq _ => some seq
  | closed seq => some seq
  | failed _ => none

def retainedLen : ExecProcessEvent → Nat
  | output chunk => chunk.chunk.length
  | failed message => byteLen message
  | exited _ _ => 0
  | closed _ => 0

def isExited : ExecProcessEvent → Bool
  | exited _ _ => true
  | _ => false

def isClosed : ExecProcessEvent → Bool
  | closed _ => true
  | _ => false

end ExecProcessEvent

def processEventChannelCapacity : Nat := 256

def processEventRetainedBytes : Nat := 1024 * 1024

/-- The history for new subscribers, and all that was ever sent on the live channel. -/
structure ExecProcessEventLog where
  history : List ExecProcessEvent
  retainedBytes : Nat
  live : List ExecProcessEvent
  deriving DecidableEq

namespace ExecProcessEventLog

def new : ExecProcessEventLog := ⟨[], 0, []⟩

def evict : List ExecProcessEvent → Nat → List ExecProcessEvent × Nat
  | [], retainedBytes => ([], retainedBytes)
  | event :: events, retainedBytes =>
      if (event :: events).length > processEventChannelCapacity ∨ retainedBytes > processEventRetainedBytes then
        evict events (retainedBytes - event.retainedLen)
      else (event :: events, retainedBytes)

def publish (log : ExecProcessEventLog) (event : ExecProcessEvent) : ExecProcessEventLog :=
  let (history, retainedBytes) := evict (log.history ++ [event]) (log.retainedBytes + event.retainedLen)
  ⟨history, retainedBytes, log.live ++ [event]⟩

end ExecProcessEventLog

/-- The notifications `ExecOutputDeltaNotification`, `ExecExitedNotification` and `ExecClosedNotification` of the
process. -/
inductive Notification
  | outputDelta (seq : Nat) (stream : ExecOutputStream) (chunk : ByteChunk)
  | exited (seq : Nat) (exitCode : Int)
  | closed (seq : Nat)
  deriving DecidableEq

/-! ## The process -/

def retainedOutputBytesPerProcess : Nat := 1024 * 1024

structure RunningProcess where
  output : List ProcessOutputChunk
  retainedBytes : Nat
  nextSeq : Nat
  exitCode : Option Int
  openStreams : Nat
  closed : Bool
  deriving DecidableEq

def RunningProcess.new : RunningProcess := ⟨[], 0, 1, none, 2, false⟩

def evictOutput : List ProcessOutputChunk → Nat → List ProcessOutputChunk × Nat
  | [], retainedBytes => ([], retainedBytes)
  | evicted :: output, retainedBytes =>
      if retainedBytes > retainedOutputBytesPerProcess then evictOutput output (retainedBytes - evicted.chunk.length)
      else (evicted :: output, retainedBytes)

/-- What the tasks share: the entry of the process map, the event log, which subscribers keep when the entry is gone,
and what was sent to the connection. -/
structure Server where
  process : Option RunningProcess
  events : ExecProcessEventLog
  sent : List Notification
  deriving DecidableEq

/-- Where a call of `maybe_emit_closed` stands. -/
inductive EmitClosed
  | locking
  | notifying (notification : Notification)
  | returned
  deriving DecidableEq

/-- Where a call of `stream_output` stands. -/
inductive StreamOutput
  | receiving
  | locking (chunk : ByteChunk)
  | notifying (notification : Notification)
  | finishing
  | emitClosed (phase : EmitClosed)
  deriving DecidableEq

/-- Where a call of `watch_exit` stands. -/
inductive WatchExit
  | waiting
  | locking (exitCode : Int)
  | notifying (notification : Option Notification)
  | emitClosed (phase : EmitClosed)
  deriving DecidableEq

inductive ProcessTask
  | streamOutput (stream : ExecOutputStream) (phase : StreamOutput)
  | watchExit (phase : WatchExit)
  | cleanup (done : Bool)
  deriving DecidableEq

/-- What a move finds outside: the next chunk of the stream, the exit code of the process, and whether there is a
notification sender. -/
structure Surroundings where
  chunk : Option ByteChunk
  exitCode : Option Int
  connected : Bool
  deriving DecidableEq

/-! ## Moves -/

def Server.notify (server : Server) (connected : Bool) (notification : Notification) : Server :=
  if connected then { server with sent := server.sent ++ [notification] } else server

def RunningProcess.pushOutput (process : RunningProcess) (stream : ExecOutputStream) (chunk : ByteChunk) :
    RunningProcess :=
  let (output, retainedBytes) :=
    evictOutput (process.output ++ [⟨process.nextSeq, stream, chunk⟩]) (process.retainedBytes + chunk.length)
  { process with nextSeq := process.nextSeq + 1, output := output, retainedBytes := retainedBytes }

/-- A move of `maybe_emit_closed`, with the cleanup that it starts. -/
def moveEmitClosed (server : Server) (found : Surroundings) : EmitClosed → Server × EmitClosed × List ProcessTask
  | .locking =>
      match server.process with
      | none => (server, .returned, [])
      | some process =>
          if process.closed ∨ process.openStreams ≠ 0 ∨ process.exitCode.isNone then (server, .returned, [])
          else
            let seq := process.nextSeq
            ({ server with
                process := some { process with closed := true, nextSeq := seq + 1 }
                events := server.events.publish (.closed seq) },
              .notifying (.closed seq), [.cleanup false])
  | .notifying notification => (server.notify found.connected notification, .returned, [])
  | .returned => (server, .returned, [])

def moveStreamOutput (server : Server) (found : Surroundings) (stream : ExecOutputStream) :
    StreamOutput → Server × StreamOutput × List ProcessTask
  | .receiving =>
      match found.chunk with
      | some chunk => (server, .locking chunk, [])
      | none => (server, .finishing, [])
  | .locking chunk =>
      match server.process with
      | none => (server, .finishing, [])
      | some process =>
          let seq := process.nextSeq
          ({ server with
              process := some (process.pushOutput stream chunk)
              events := server.events.publish (.output ⟨seq, stream, chunk⟩) },
            .notifying (.outputDelta seq stream chunk), [])
  | .notifying notification => (server.notify found.connected notification, .receiving, [])
  | .finishing =>
      match server.process with
      | none => (server, .emitClosed .returned, [])
      | some process =>
          ({ server with process := some { process with openStreams := process.openStreams - 1 } },
            .emitClosed .locking, [])
  | .emitClosed phase =>
      let (server, phase, spawned) := moveEmitClosed server found phase
      (server, .emitClosed phase, spawned)

def moveWatchExit (server : Server) (found : Surroundings) : WatchExit → Server × WatchExit × List ProcessTask
  | .waiting => (server, .locking (found.exitCode.getD (-1)), [])
  | .locking exitCode =>
      match server.process with
      | none => (server, .notifying none, [])
      | some process =>
          let seq := process.nextSeq
          ({ server with
              process := some { process with nextSeq := seq + 1, exitCode := some exitCode }
              events := server.events.publish (.exited seq exitCode) },
            .notifying (some (.exited seq exitCode)), [])
  | .notifying none => (server, .emitClosed .locking, [])
  | .notifying (some notification) => (server.notify found.connected notification, .emitClosed .locking, [])
  | .emitClosed phase =>
      let (server, phase, spawned) := moveEmitClosed server found phase
      (server, .emitClosed phase, spawned)

/-- The task that drops a closed process after `EXITED_PROCESS_RETENTION`. -/
def moveCleanup (server : Server) : Bool → Server
  | true => server
  | false =>
      match server.process with
      | some process => if process.closed then { server with process := none } else server
      | none => server

abbrev ServerState := Tasks.System Server ProcessTask

def moveProcess (state : ServerState) (found : Surroundings) : ProcessTask → Tasks.Moved Server ProcessTask
  | .streamOutput stream phase =>
      let (server, phase, spawned) := moveStreamOutput state.shared found stream phase
      ⟨server, .streamOutput stream phase, spawned⟩
  | .watchExit phase =>
      let (server, phase, spawned) := moveWatchExit state.shared found phase
      ⟨server, .watchExit phase, spawned⟩
  | .cleanup done => ⟨moveCleanup state.shared done, .cleanup true, []⟩

/-- The process has been started, and its three tasks have been spawned. -/
def startProcess (tty : Bool) : ServerState where
  shared := ⟨some .new, .new, []⟩
  tasks :=
    [.streamOutput (if tty then .pty else .stdout) .receiving, .streamOutput (if tty then .pty else .stderr) .receiving,
      .watchExit .waiting]

def serverStep (state : ServerState) (index : Nat) (found : Surroundings) : ServerState :=
  Tasks.step Empty.elim moveProcess state (.move index found)

end Codrex.ExecServer

/-!
## Reads of retained output (`exec-server/src/local_process.rs`)

A client reads the output of a process page by page, while its tasks go on.
-/

namespace Codrex.ExecServer

open Fallible

structure ReadParams where
  afterSeq : Option Nat
  maxBytes : Option Nat
  deriving DecidableEq

structure ReadResponse where
  chunks : List ProcessOutputChunk
  nextSeq : Nat
  exited : Bool
  exitCode : Option Int
  closed : Bool
  deriving DecidableEq

/-- The loop over the retained chunks, with the chunks so far, their size, and the next sequence number. -/
def collectChunks (maxBytes : Nat) :
    List ProcessOutputChunk → List ProcessOutputChunk → Nat → Nat → List ProcessOutputChunk × Nat
  | [], chunks, _, nextSeq => (chunks, nextSeq)
  | retained :: rest, chunks, totalBytes, nextSeq =>
      if chunks ≠ [] ∧ totalBytes + retained.chunk.length > maxBytes then (chunks, nextSeq)
      else if totalBytes + retained.chunk.length ≥ maxBytes then (chunks ++ [retained], retained.seq + 1)
      else collectChunks maxBytes rest (chunks ++ [retained]) (totalBytes + retained.chunk.length) (retained.seq + 1)

/-- What `exec_read` finds under the lock. -/
def RunningProcess.readResponse (process : RunningProcess) (params : ReadParams) : ReadResponse :=
  let afterSeq := params.afterSeq.getD 0
  let maxBytes := params.maxBytes.getD usizeMax
  let (chunks, nextSeq) :=
    collectChunks maxBytes (process.output.filter fun chunk => chunk.seq > afterSeq) [] 0 process.nextSeq
  ⟨chunks, nextSeq, process.exitCode.isSome, process.exitCode, process.closed⟩

/-- Whether `exec_read` returns with the response instead of waiting for another. -/
def ReadResponse.returns (response : ReadResponse) (params : ReadParams) (expired : Bool) : Bool :=
  let hasNewTerminalEvent := response.exited && params.afterSeq.getD 0 < response.nextSeq - 1
  !response.chunks.isEmpty || response.closed || hasNewTerminalEvent || expired

/-! ## A client that reads on -/

/-- A call that has returned, with what was retained and what had been emitted when it looked. -/
structure ReadCall where
  params : ReadParams
  response : ReadResponse
  retained : List ProcessOutputChunk
  emitted : List ExecProcessEvent
  deriving DecidableEq

/-- The place after which the next call reads, the call that is under way, and the calls that have returned. -/
structure Reader where
  afterSeq : Nat
  pending : Option ReadParams
  calls : List ReadCall
  deriving DecidableEq

structure PagedOutput where
  server : ServerState
  reader : Reader

def PagedOutput.start (tty : Bool) : PagedOutput := ⟨startProcess tty, ⟨0, none, []⟩⟩

/-- A task of the process moves, a call starts, or the call that is under way looks at the process. -/
inductive ReadAction
  | serve (index : Nat) (found : Surroundings)
  | call (maxBytes : Option Nat)
  | look (expired : Bool)

def Reader.look (reader : Reader) (server : Server) (expired : Bool) : Reader :=
  match reader.pending, server.process with
  | none, _ => reader
  -- unknown process: the call fails
  | some _, none => { reader with pending := none }
  | some params, some process =>
      let response := process.readResponse params
      if response.returns params expired then
        ⟨response.nextSeq - 1, none, reader.calls ++ [⟨params, response, process.output, server.events.live⟩]⟩
      else reader

def readStep (state : PagedOutput) : ReadAction → PagedOutput
  | .serve index found => { state with server := serverStep state.server index found }
  | .call maxBytes =>
      match state.reader.pending with
      | some _ => state
      | none => { state with reader := { state.reader with pending := some ⟨some state.reader.afterSeq, maxBytes⟩ } }
  | .look expired => { state with reader := state.reader.look state.server.shared expired }

/-! ## What paging is for -/

def sizeOfChunks (chunks : List ProcessOutputChunk) : Nat := (chunks.map fun chunk => chunk.chunk.length).sum

def ExecProcessEvent.outputChunk : ExecProcessEvent → Option ProcessOutputChunk
  | .output chunk => some chunk
  | _ => none

/-- All output of the process so far. -/
def outputsOf (emitted : List ExecProcessEvent) : List ProcessOutputChunk :=
  emitted.filterMap ExecProcessEvent.outputChunk

def Reader.returned (reader : Reader) : List ProcessOutputChunk :=
  reader.calls.flatMap fun call => call.response.chunks

def ReadCall.afterSeq (call : ReadCall) : Nat := call.params.afterSeq.getD 0

/-- The call went past the chunk, which was no longer retained. -/
def ReadCall.Missed (call : ReadCall) (chunk : ProcessOutputChunk) : Prop :=
  call.afterSeq < chunk.seq ∧ chunk.seq < call.response.nextSeq ∧ chunk ∈ outputsOf call.emitted ∧
    chunk ∉ call.retained

structure ReadsOutput (state : PagedOutput) : Prop where
  ordered : state.reader.returned.Pairwise fun earlier later => earlier.seq < later.seq
  emitted : ∀ chunk ∈ state.reader.returned, chunk ∈ outputsOf state.server.shared.events.live
  skipped : ∀ chunk ∈ outputsOf state.server.shared.events.live, chunk.seq ≤ state.reader.afterSeq →
    chunk ∈ state.reader.returned ∨ ∃ call ∈ state.reader.calls, call.Missed chunk
  nonempty : ∀ call ∈ state.reader.calls, ∀ chunk ∈ call.retained, call.afterSeq < chunk.seq →
    call.response.chunks ≠ []
  bounded : ∀ call ∈ state.reader.calls, call.params.maxBytes.getD usizeMax < sizeOfChunks call.response.chunks →
    call.response.chunks.length = 1
  retained : ∀ process ∈ state.server.shared.process,
    process.retainedBytes = sizeOfChunks process.output ∧ process.retainedBytes ≤ retainedOutputBytesPerProcess

end Codrex.ExecServer
