import Codrex.ExecServer.LocalProcess
import Codrex.ExecServer.SessionRegistry
import Codrex.Lib.Reorder

/-!
# The client of the exec server

The session of one process in `exec-server/src/client.rs`, and the run of client and server over a connection that
gives what was sent in any order and any number of times.
-/

namespace Codrex.ExecServer

/-- `last` is `last_published_seq`. -/
abbrev OrderedSessionEvents := Reorder.Buffer ExecProcessEvent

structure SessionState where
  wake : Nat
  events : ExecProcessEventLog
  orderedEvents : OrderedSessionEvents

namespace SessionState

def new : SessionState := ⟨0, .new, .empty⟩

def noteChange (session : SessionState) (seq : Nat) : SessionState := { session with wake := max session.wake seq }

/-- The session after the event, and whether `Closed` was published. -/
def publishOrderedEvent (session : SessionState) (event : ExecProcessEvent) : SessionState × Bool :=
  match event.seq with
  | none => ({ session with events := session.events.publish event }, false)
  | some seq =>
      let (orderedEvents, ready) := session.orderedEvents.offer seq event
      ({ session with
          orderedEvents := orderedEvents
          events := ready.foldl ExecProcessEventLog.publish session.events },
        ready.any ExecProcessEvent.isClosed)

end SessionState

def Notification.seq : Notification → Nat
  | outputDelta seq _ _ => seq
  | exited seq _ => seq
  | closed seq => seq

def Notification.event : Notification → ExecProcessEvent
  | outputDelta seq stream chunk => .output ⟨seq, stream, chunk⟩
  | exited seq exitCode => .exited seq exitCode
  | closed seq => .closed seq

/-- The session of the process, which its subscribers keep, and whether notifications are still routed to it. -/
structure Client where
  session : SessionState
  routed : Bool

def handleServerNotification (client : Client) (notification : Notification) : Client :=
  if client.routed then
    let (session, publishedClosed) :=
      (client.session.noteChange notification.seq).publishOrderedEvent notification.event
    ⟨session, !publishedClosed⟩
  else client

/-! ## Both together -/

/-- The server, the client, and the notifications that have arrived so far, the last one first. -/
structure Exchange where
  server : ServerState
  client : Client
  received : List Notification

def Exchange.start (tty : Bool) : Exchange := ⟨startProcess tty, ⟨.new, true⟩, []⟩

/-- A task of the server moves, or one of the notifications sent so far arrives. -/
inductive ExchangeAction
  | serve (index : Nat) (found : Surroundings)
  | deliver (index : Nat)

def exchangeStep (state : Exchange) : ExchangeAction → Exchange
  | .serve index found => { state with server := serverStep state.server index found }
  | .deliver index =>
      match state.server.shared.sent[index]? with
      | none => state
      | some notification =>
          { state with
            client := handleServerNotification state.client notification
            received := notification :: state.received }

end Codrex.ExecServer

/-!
## What the exec server is for
-/

namespace Codrex.ExecServer

/-! ## Sessions -/

def Task.isClearing (entry : Nat) : Task → Bool
  | detach handle .clearing => handle.entry == entry
  | _ => false

/-- The handle that a call of `attach` has returned, and the sender that it was passed. -/
def Task.attached : Task → Option (SessionHandle × RpcNotificationSender)
  | attach _ notifications (.returned _ (.ok handle)) => some (handle, notifications)
  | _ => none

/-- Whoever is attached to a session is so alone, the session is not shut down, and its notifications go to it. -/
structure SessionsSound (state : RegistryState) : Prop where
  attachedOnce : ∀ (i j : Nat) (task task' : Task) (handle handle' : SessionHandle × RpcNotificationSender),
    state.tasks[i]? = some task → task.attached = some handle →
    state.tasks[j]? = some task' → task'.attached = some handle' →
    handle.1.entry = handle'.1.entry → handle.1.isSessionAttached state.shared = true →
    handle'.1.isSessionAttached state.shared = true → i = j
  shutDownDetached : ∀ entry, (state.shared.entries entry).shutDown = true →
    (state.shared.entries entry).attachment.currentConnectionId = none
  ownSender : ∀ entry connectionId,
    (state.shared.entries entry).attachment.currentConnectionId = some connectionId →
    (∀ phase, Task.detach ⟨entry, connectionId⟩ phase ∉ state.tasks) →
    ∃ task ∈ state.tasks, ∃ notifications, task.attached = some (⟨entry, connectionId⟩, notifications) ∧
      (state.shared.entries entry).notifications = some notifications

/-- No connection that resumes a session sets its sender while a detaching one has still to clear its own. -/
def SendersApart (state : RegistryState) : RegistryAction → Prop
  | .start _ => True
  | .move index _ =>
      ∀ resume notifications connectionId sessionId entry,
        state.tasks[index]? = some (Task.attach resume notifications (.settingSender connectionId sessionId entry)) →
        ∀ task ∈ state.tasks, task.isClearing entry = false

/-! ## Events of a process -/

def ProcessTask.returned : ProcessTask → Bool
  | streamOutput _ (.emitClosed .returned) => true
  | watchExit (.emitClosed .returned) => true
  | cleanup _ => true
  | _ => false

namespace Exchange

/-- All events of the process. -/
def emitted (state : Exchange) : List ExecProcessEvent := state.server.shared.events.live

/-- The events with a sequence number that the client has published. -/
def published (state : Exchange) : List ExecProcessEvent :=
  state.client.session.events.live.filter fun event => event.seq.isSome

def receivedSeqs (state : Exchange) : List Nat := state.received.map Notification.seq

/-- The tasks of the process are through, and the notification of every event has arrived. -/
def AllArrived (state : Exchange) : Prop :=
  (∀ task ∈ state.server.tasks, task.returned = true) ∧
    ∀ seq, 1 ≤ seq → seq ≤ state.emitted.length → seq ∈ state.receivedSeqs

end Exchange

/-- The client publishes the events of the process in their order, each once, up to the first that is missing; the
last one is the only `Closed`. -/
structure EventsInOrder (state : Exchange) : Prop where
  numbered : ∀ i event, state.emitted[i]? = some event → event.seq = some (i + 1)
  upToGap : ∃ k, Reorder.GapFree state.receivedSeqs k ∧ k ≤ state.emitted.length ∧
    state.published = state.emitted.take k
  complete : state.AllArrived → state.published = state.emitted ∧
    state.emitted.countP ExecProcessEvent.isExited = 1 ∧ state.emitted.countP ExecProcessEvent.isClosed = 1 ∧
    ∃ seq, state.emitted.getLast? = some (.closed seq)
  route : state.client.routed = false → ∃ seq, .closed seq ∈ state.published

end Codrex.ExecServer
