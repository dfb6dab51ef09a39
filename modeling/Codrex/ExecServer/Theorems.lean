import Codrex.ExecServer.Lemmas.Connections
import Codrex.ExecServer.Lemmas.Exchange
import Codrex.ExecServer.Lemmas.HttpBodyMoves
import Codrex.ExecServer.Lemmas.RegistryInvariant
import Codrex.ExecServer.Lemmas.ProcessRead

/-!
# Results for the exec server
-/

namespace Codrex.ExecServer

open Text Transition

/-! ## Sessions -/

theorem RegistryInv.new (uuidText : Nat → Str) : RegistryInv (.new uuidText) [] where
  tasksOk := nofun
  lock := rfl
  found := nofun
  unborn := fun _ _ => ⟨rfl, rfl, rfl⟩
  expiry := fun _ _ => rfl
  dead := nofun
  apart := nofun
  sender := nofun

theorem ConnectionsApart.new (uuidText : Nat → Str) : ConnectionsApart (.new uuidText) [] := ⟨nofun, nofun, nofun⟩

theorem quiet_start (request : Request) : request.start.Quiet := by
  cases request <;> exact ⟨rfl, fun _ => rfl, fun _ => rfl⟩

variable {state : RegistryState}

theorem moveTask_effect {task : Task} (elapsed : Nat) (h : RegistryInv state.shared state.tasks)
    (htask : task ∈ state.tasks) :
    Effect { state.shared with now := state.shared.now + elapsed } task (moveTask state elapsed task).shared
      (moveTask state elapsed task).task := by
  have hinv := h.tick (state.shared.now + elapsed)
  cases task with
  | attach resume notifications phase => exact moveAttach_effect (hinv.tasksOk _ htask) hinv.expiry
  | detach handle phase => exact moveDetach_effect _ handle phase
  | expire sessionId connectionId phase => exact moveExpire_effect (hinv.tasksOk _ htask)

theorem RegistryInv.spawnedAll {registry : Registry} {tasks new : List Task} (h : RegistryInv registry tasks)
    (hnew : ∀ task ∈ new, ∃ sessionId connectionId wake, task = .expire sessionId connectionId (.sleeping wake)) :
    RegistryInv registry (tasks ++ new) := by
  induction new generalizing tasks with
  | nil => rwa [List.append_nil]
  | cons first new ih =>
      obtain ⟨sessionId, connectionId, wake, rfl⟩ := hnew first List.mem_cons_self
      rw [List.append_cons]
      refine ih (h.spawned ⟨rfl, fun _ => rfl, fun _ => rfl⟩ rfl trivial) ?_
      exact fun task htask => hnew task (List.mem_cons_of_mem _ htask)

structure SessionsInv (state : RegistryState) : Prop where
  registry : RegistryInv state.shared state.tasks
  connections : ConnectionsApart state.shared state.tasks

theorem registryStep_inv {action : RegistryAction} (hguard : SendersApart state action)
    (h : RegistryInv state.shared state.tasks) :
    RegistryInv (registryStep state action).shared (registryStep state action).tasks := by
  refine Tasks.step_keeps (fun state : RegistryState => RegistryInv state.shared state.tasks) h ?_ ?_
  · intro request _
    refine h.spawned (quiet_start request) ?_ ?_
    · cases request <;> rfl
    · cases request <;> trivial
  · intro index elapsed task haction htask
    subst haction
    have heffect := moveTask_effect elapsed h (List.mem_of_getElem? htask)
    refine RegistryInv.spawnedAll ?_ (moveTask_spawned state elapsed task)
    refine (h.tick (state.shared.now + elapsed)).effect htask heffect ?_
    rintro resume notifications connectionId sessionId entry rfl
    exact hguard resume notifications connectionId sessionId entry htask

theorem registryStep_connections {action : RegistryAction} (h : ConnectionsApart state.shared state.tasks) :
    ConnectionsApart (registryStep state action).shared (registryStep state action).tasks := by
  refine Tasks.step_keeps (fun state : RegistryState => ConnectionsApart state.shared state.tasks) h ?_ ?_
  · intro request _
    refine h.spawned ?_ ?_
    · cases request <;> rfl
    · cases request <;> rfl
  · intro index elapsed task _ htask
    refine (h.moved htask (moveTask_connectionKept state elapsed task)).spawnedAll ?_
    intro spawned hspawned
    obtain ⟨_, _, _, rfl⟩ := moveTask_spawned state elapsed task spawned hspawned
    exact ⟨rfl, rfl⟩

theorem SessionsInv.step (state : RegistryState) (action : RegistryAction) (hguard : SendersApart state action)
    (h : SessionsInv state) : SessionsInv (registryStep state action) :=
  ⟨registryStep_inv hguard h.registry, registryStep_connections h.connections⟩

theorem SessionsInv.sound (h : SessionsInv state) : SessionsSound state := by
  refine ⟨?_, fun entry hshut => (h.registry.dead entry hshut).detached, ?_⟩
  · intro i j task task' handle handle' hi hattached hj hattached' hentry hcurrent hcurrent'
    have hconnection := h.connections.own task (List.mem_of_getElem? hi) handle hattached
    have hconnection' := h.connections.own task' (List.mem_of_getElem? hj) handle' hattached'
    rw [SessionHandle.isSessionAttached, SessionEntry.isAttachedTo, beq_iff_eq] at hcurrent hcurrent'
    rw [hentry, hcurrent'] at hcurrent
    rw [hcurrent] at hconnection'
    exact h.connections.distinct i j task task' _ hi hj hconnection hconnection'
  · intro entry connectionId hconnected _
    exact (h.registry.sender entry connectionId hconnected).passed

/-- As long as no resuming connection sets its sender while a detaching one has still to clear the sender, every
state has one connection at most to a session, no one at a session that was shut down, and the sender of whoever is
attached. -/
theorem sessions_sound {uuidText : Nat → Str} {actions : List RegistryAction}
    (h : Guarded registryStep SendersApart (.new uuidText) actions) :
    SessionsSound (run registryStep (.new uuidText) actions) :=
  (h.invariant SessionsInv.step ⟨.new uuidText, .new uuidText⟩).sound

def hexUuid (uuid : Nat) : Str := Nat.toDigits 16 uuid

/-- One connection makes a session and detaches from it, and another resumes it. -/
def resumedRun : List RegistryAction :=
  [.start (.attach none ⟨0⟩), .move 0 0, .move 0 0, .start (.detach ⟨0, 0⟩), .move 1 0, .move 1 0,
    .start (.attach (some (hexUuid 1)) ⟨1⟩), .move 3 5, .move 3 0, .move 3 0, .move 3 0, .move 3 0, .move 3 0]

theorem resumedRun_sound : SessionsSound (run registryStep (.new hexUuid) resumedRun) := by
  apply sessions_sound
  refine ⟨trivial, ?_, ?_, trivial, ?_, ?_, trivial, ?_, ?_, ?_, ?_, ?_, ?_, trivial⟩
  all_goals rintro resume notifications connectionId sessionId entry ⟨⟩ <;> decide

/-- The session is resumed between the two steps of the detaching. -/
def crossedRun : List RegistryAction :=
  [.start (.attach none ⟨0⟩), .move 0 0, .move 0 0, .start (.detach ⟨0, 0⟩), .move 1 0,
    .start (.attach (some (hexUuid 1)) ⟨1⟩), .move 2 0, .move 2 0, .move 2 0, .move 2 0, .move 2 0, .move 2 0,
    .move 1 0]

theorem crossedRun_no_sender : ¬ SessionsSound (run registryStep (.new hexUuid) crossedRun) := by
  intro h
  have hattached : ((run registryStep (.new hexUuid) crossedRun).shared.entries 0).attachment.currentConnectionId = some 2 := by
    decide
  have hsender : ((run registryStep (.new hexUuid) crossedRun).shared.entries 0).notifications = none := by decide
  obtain ⟨_, _, _, _, hnotifications⟩ := h.ownSender 0 2 hattached fun phase => by cases phase <;> decide
  exact nomatch hsender.symm.trans hnotifications

/-! ## Events of a process -/

/-- In whatever order the tasks of a process take their turns and its notifications arrive, and however often, the
client publishes the events of the process in their order, each once, up to the first that is missing. -/
theorem events_in_order (tty : Bool) (actions : List ExchangeAction) :
    EventsInOrder (run exchangeStep (.start tty) actions) :=
  (Transition.invariant ExchangeInv.step (.start tty) actions).inOrder

/-- The process writes one byte and exits; the notifications arrive from the last to the first, some of them twice. -/
example :
    let idle : Surroundings := ⟨none, none, true⟩
    let actions : List ExchangeAction :=
      [.serve 0 ⟨some [65], none, true⟩, .serve 0 idle, .serve 2 ⟨none, some 0, true⟩, .serve 2 idle, .serve 2 idle,
        .serve 0 idle, .serve 0 idle, .serve 0 idle, .serve 1 idle, .serve 1 idle, .serve 2 idle, .serve 2 idle,
        .deliver 2, .deliver 0, .deliver 0, .deliver 1]
    (run exchangeStep (.start false) actions).published =
      [.output ⟨1, .stdout, [65]⟩, .exited 2 0, .closed 3] := by
  decide

/-! ## Reads of retained output -/

/-- In any order of moves a body that ends without an error was read to its end. -/
theorem run_neverTruncated (actions : List HttpBodyAction) : NeverTruncated (run httpBodyStep startHttpBodies actions) := by
  have hinv := @Transition.invariant _ _ httpBodyStep (fun state => BodiesInv state.shared state.tasks)
    (fun _ _ h => h.step) _ BodiesInv.start actions
  intro stream returned hmem
  exact (hinv.inOrder _ hmem).verdict

/-- Two deltas, of which the second is data and end at once. -/
example :
    let goOn : HttpBodyChoice := ⟨.goOn, 0⟩
    let deltas : List HttpRequestBodyDeltaNotification :=
      [⟨"http-1".toList, 1, [65], false, none⟩, ⟨"http-1".toList, 2, [66], true, none⟩]
    let actions : List HttpBodyAction :=
      [.start .httpRequestStream, .move 0 goOn, .move 0 goOn, .move 0 goOn] ++
        deltas.map (fun delta => .start (.handleHttpBodyDeltaNotification delta)) ++
        [.move 1 goOn, .move 1 goOn, .move 2 goOn, .move 2 goOn, .move 2 goOn, .move 0 goOn, .move 0 goOn, .move 0 goOn,
          .move 0 goOn]
    (run httpBodyStep startHttpBodies actions).tasks[0]? =
      some (.streaming ⟨"http-1".toList, 3, false, true⟩ [.ok (some [65]), .ok (some [66]), .ok none]) := by
  decide

end Codrex.ExecServer
