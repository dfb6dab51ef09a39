import Codrex.Lib.Entries
import Codrex.Lib.Transition
import Codrex.Lib.Text

/-!
# Sessions of the exec server

`exec-server/src/server/session_registry.rs`, with the notification sender and the shutdown of the process handler
(`exec-server/src/local_process.rs`). Each acquisition of a lock is one move of a call; the registry lock is held
over several of them.
-/

namespace Codrex.ExecServer

open Text

/-- One of the channels to the connections. -/
structure RpcNotificationSender where
  channel : Nat
  deriving DecidableEq

abbrev ConnectionId := Nat

/-- `DETACHED_SESSION_TTL`, in milliseconds. -/
def detachedSessionTtl : Nat := 10 * 1000

structure AttachmentState where
  currentConnectionId : Option ConnectionId
  detachedConnectionId : Option ConnectionId
  detachedExpiresAt : Option Nat
  deriving DecidableEq

/-- A session with what the registry sees of its process handler: the notification sender, and whether the handler
has been shut down. -/
structure SessionEntry where
  sessionId : Str
  notifications : Option RpcNotificationSender
  shutDown : Bool
  attachment : AttachmentState
  deriving DecidableEq

namespace SessionEntry

def new (sessionId : Str) (notifications : RpcNotificationSender) (connectionId : ConnectionId) : SessionEntry :=
  ⟨sessionId, some notifications, false, ⟨some connectionId, none, none⟩⟩

def attach (entry : SessionEntry) (connectionId : ConnectionId) : SessionEntry :=
  { entry with attachment := ⟨some connectionId, none, none⟩ }

/-- The entry after a `detach` that returns true. -/
def detach (entry : SessionEntry) (connectionId : ConnectionId) (now : Nat) : Option SessionEntry :=
  if entry.attachment.currentConnectionId ≠ some connectionId then none
  else some { entry with attachment := ⟨none, some connectionId, some (now + detachedSessionTtl)⟩ }

def hasActiveConnection (entry : SessionEntry) : Bool := entry.attachment.currentConnectionId.isSome

def isAttachedTo (entry : SessionEntry) (connectionId : ConnectionId) : Bool :=
  entry.attachment.currentConnectionId == some connectionId

def isExpired (entry : SessionEntry) (now : Nat) : Bool :=
  entry.attachment.detachedExpiresAt.any (· ≤ now)

def isDetachedConnectionExpired (entry : SessionEntry) (connectionId : ConnectionId) (now : Nat) : Bool :=
  entry.attachment.currentConnectionId.isNone && entry.attachment.detachedConnectionId == some connectionId &&
    entry.attachment.detachedExpiresAt.any (· ≤ now)

def setNotificationSender (entry : SessionEntry) (notifications : Option RpcNotificationSender) : SessionEntry :=
  { entry with notifications := notifications }

def shutdown (entry : SessionEntry) : SessionEntry := { entry with shutDown := true }

end SessionEntry

/-- The registry, the clock, and all entries that were ever made: handles and calls keep an entry alive after the
registry has dropped it. A UUID is the number of those made before it; how it is written is left to the crate. -/
structure Registry where
  uuidText : Nat → Str
  now : Nat
  locked : Bool
  nextUuid : Nat
  sessions : AList fun _ : Str => Nat
  count : Nat
  entries : Nat → SessionEntry

def Registry.new (uuidText : Nat → Str) : Registry :=
  ⟨uuidText, 0, false, 0, ∅, 0, fun _ => ⟨[], none, false, ⟨none, none, none⟩⟩⟩

def Registry.modifyEntry (registry : Registry) (entry : Nat) (f : SessionEntry → SessionEntry) : Registry :=
  { registry with entries := Function.update registry.entries entry (f (registry.entries entry)) }

structure SessionHandle where
  entry : Nat
  connectionId : ConnectionId
  deriving DecidableEq

def SessionHandle.isSessionAttached (handle : SessionHandle) (registry : Registry) : Bool :=
  (registry.entries handle.entry).isAttachedTo handle.connectionId

/-! ## Calls -/

/-- Where a call of `SessionRegistry::attach` stands. -/
inductive Attach
  | connecting
  | locking (connectionId : ConnectionId)
  | checkingExpiry (connectionId : ConnectionId) (sessionId : Str) (entry : Nat)
  | checkingActive (connectionId : ConnectionId) (sessionId : Str) (entry : Nat)
  | settingSender (connectionId : ConnectionId) (sessionId : Str) (entry : Nat)
  | attaching (connectionId : ConnectionId) (sessionId : Str) (entry : Nat)
  | shuttingDown (connectionId : ConnectionId) (sessionId : Str) (entry : Nat)
  | returned (connectionId : ConnectionId) (result : Except Str SessionHandle)
  deriving DecidableEq

/-- Where a call of `SessionHandle::detach` stands. -/
inductive Detach
  | detaching
  | clearing
  | returned
  deriving DecidableEq

/-- Where a task of `expire_if_detached` stands. -/
inductive Expire
  | sleeping (wake : Nat)
  | checking (entry : Nat)
  | shuttingDown (entry : Nat)
  | returned
  deriving DecidableEq

inductive Task
  | attach (resumeSessionId : Option Str) (notifications : RpcNotificationSender) (phase : Attach)
  | detach (handle : SessionHandle) (phase : Detach)
  | expire (sessionId : Str) (connectionId : ConnectionId) (phase : Expire)
  deriving DecidableEq

/-- What a connection asks for. -/
inductive Request
  | attach (resumeSessionId : Option Str) (notifications : RpcNotificationSender)
  | detach (handle : SessionHandle)
  deriving DecidableEq

def Request.start : Request → Task
  | attach resumeSessionId notifications => .attach resumeSessionId notifications .connecting
  | detach handle => .detach handle .detaching

/-! ## Moves -/

def unknownSession (sessionId : Str) : Str := "unknown session id ".toList ++ sessionId

def alreadyAttached (sessionId : Str) : Str :=
  "session ".toList ++ sessionId ++ " is already attached to another connection".toList

def moveAttach (registry : Registry) (resumeSessionId : Option Str) (notifications : RpcNotificationSender) :
    Attach → Registry × Attach
  | .connecting => ({ registry with nextUuid := registry.nextUuid + 1 }, .locking registry.nextUuid)
  | .locking connectionId =>
      if registry.locked then (registry, .locking connectionId)
      else
        match resumeSessionId with
        | some sessionId =>
            match registry.sessions.lookup sessionId with
            | none => (registry, .returned connectionId (.error (unknownSession sessionId)))
            | some entry => ({ registry with locked := true }, .checkingExpiry connectionId sessionId entry)
        | none =>
            let sessionId := registry.uuidText registry.nextUuid
            let entry := registry.count
            ({ registry with
                nextUuid := registry.nextUuid + 1
                sessions := registry.sessions.insert sessionId entry
                count := entry + 1
                entries := Function.update registry.entries entry (.new sessionId notifications connectionId) },
              .returned connectionId (.ok ⟨entry, connectionId⟩))
  | .checkingExpiry connectionId sessionId entry =>
      if (registry.entries entry).isExpired registry.now then
        ({ registry with locked := false, sessions := registry.sessions.erase sessionId },
          .shuttingDown connectionId sessionId entry)
      else (registry, .checkingActive connectionId sessionId entry)
  | .checkingActive connectionId sessionId entry =>
      if (registry.entries entry).hasActiveConnection then
        ({ registry with locked := false }, .returned connectionId (.error (alreadyAttached sessionId)))
      else (registry, .settingSender connectionId sessionId entry)
  | .settingSender connectionId sessionId entry =>
      (registry.modifyEntry entry (·.setNotificationSender (some notifications)),
        .attaching connectionId sessionId entry)
  | .attaching connectionId _ entry =>
      ({ registry.modifyEntry entry (·.attach connectionId) with locked := false },
        .returned connectionId (.ok ⟨entry, connectionId⟩))
  | .shuttingDown connectionId sessionId entry =>
      (registry.modifyEntry entry SessionEntry.shutdown, .returned connectionId (.error (unknownSession sessionId)))
  | .returned connectionId result => (registry, .returned connectionId result)

/-- A move of `SessionHandle::detach`, with the expiry task that it starts. -/
def moveDetach (registry : Registry) (handle : SessionHandle) : Detach → Registry × Detach × List Task
  | .detaching =>
      match (registry.entries handle.entry).detach handle.connectionId registry.now with
      | none => (registry, .returned, [])
      | some entry => (registry.modifyEntry handle.entry fun _ => entry, .clearing, [])
  | .clearing =>
      (registry.modifyEntry handle.entry (·.setNotificationSender none), .returned,
        [.expire (registry.entries handle.entry).sessionId handle.connectionId
          (.sleeping (registry.now + detachedSessionTtl))])
  | .returned => (registry, .returned, [])

def moveExpire (registry : Registry) (sessionId : Str) (connectionId : ConnectionId) : Expire → Registry × Expire
  | .sleeping wake =>
      if registry.now < wake ∨ registry.locked then (registry, .sleeping wake)
      else
        match registry.sessions.lookup sessionId with
        | none => (registry, .returned)
        | some entry => ({ registry with locked := true }, .checking entry)
  | .checking entry =>
      if (registry.entries entry).isDetachedConnectionExpired connectionId registry.now then
        ({ registry with locked := false, sessions := registry.sessions.erase sessionId }, .shuttingDown entry)
      else ({ registry with locked := false }, .returned)
  | .shuttingDown entry => (registry.modifyEntry entry SessionEntry.shutdown, .returned)
  | .returned => (registry, .returned)

abbrev RegistryState := Tasks.System Registry Task

/-- A move of a task, after the time that has passed since the last move of any. -/
def moveTask (state : RegistryState) (elapsed : Nat) (task : Task) : Tasks.Moved Registry Task :=
  let registry := { state.shared with now := state.shared.now + elapsed }
  match task with
  | .attach resumeSessionId notifications phase =>
      let (registry, phase) := moveAttach registry resumeSessionId notifications phase
      ⟨registry, .attach resumeSessionId notifications phase, []⟩
  | .detach handle phase =>
      let (registry, phase, spawned) := moveDetach registry handle phase
      ⟨registry, .detach handle phase, spawned⟩
  | .expire sessionId connectionId phase =>
      let (registry, phase) := moveExpire registry sessionId connectionId phase
      ⟨registry, .expire sessionId connectionId phase, []⟩

abbrev RegistryAction := Tasks.Action Request Nat

def registryStep : RegistryState → RegistryAction → RegistryState := Tasks.step Request.start moveTask

def RegistryState.new (uuidText : Nat → Str) : RegistryState := ⟨.new uuidText, []⟩

end Codrex.ExecServer
