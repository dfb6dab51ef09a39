import Codrex.ExecServer.Lemmas.SessionRegistry

/-!
# Connections have ids of their own
-/

namespace Codrex.ExecServer

open Text

/-- No two calls of `attach` work for the same connection. -/
structure ConnectionsApart (registry : Registry) (tasks : List Task) : Prop where
  fresh : ∀ task ∈ tasks, ∀ connectionId, task.connection = some connectionId → connectionId < registry.nextUuid
  own : ∀ task ∈ tasks, ∀ attached, task.attached = some attached → task.connection = some attached.1.connectionId
  distinct : ∀ (i j : Nat) (task task' : Task) connectionId, tasks[i]? = some task → tasks[j]? = some task' →
    task.connection = some connectionId → task'.connection = some connectionId → i = j

/-- The task keeps its connection, or it is given a new one. -/
structure ConnectionKept (before after : Nat) (old new : Task) : Prop where
  grows : before ≤ after
  kept : new.connection = old.connection ∨ new.connection = some before ∧ before < after
  own : (∀ attached, old.attached = some attached → old.connection = some attached.1.connectionId) →
    ∀ attached, new.attached = some attached → new.connection = some attached.1.connectionId

theorem ConnectionKept.same {uuid : Nat} {old new : Task} (hconnection : new.connection = old.connection)
    (hattached : new.attached = none) : ConnectionKept uuid uuid old new := by
  refine ⟨Nat.le_refl _, .inl hconnection, ?_⟩
  intro _ attached h
  rw [hattached] at h
  cases h

theorem ConnectionKept.refl (uuid : Nat) (task : Task) : ConnectionKept uuid uuid task task :=
  ⟨Nat.le_refl _, .inl rfl, id⟩

theorem moveAttach_connectionKept (registry : Registry) (resume : Option Str)
    (notifications : RpcNotificationSender) (phase : Attach) :
    ConnectionKept registry.nextUuid (moveAttach registry resume notifications phase).1.nextUuid
      (.attach resume notifications phase)
      (.attach resume notifications (moveAttach registry resume notifications phase).2) := by
  cases phase with
  | connecting => exact ⟨Nat.le_succ _, .inr ⟨rfl, Nat.lt_succ_self _⟩, fun _ => nofun⟩
  | locking connectionId =>
      simp only [moveAttach]
      split
      · exact .refl _ _
      cases resume with
      | none =>
          refine ⟨Nat.le_succ _, .inl rfl, ?_⟩
          rintro - attached ⟨⟩
          rfl
      | some sessionId =>
          dsimp only
          split
          · exact .same rfl rfl
          · exact .same rfl rfl
  | checkingExpiry connectionId sessionId entry =>
      rw [moveAttach]
      split
      · exact .same rfl rfl
      · exact .same rfl rfl
  | checkingActive connectionId sessionId entry =>
      rw [moveAttach]
      split
      · exact .same rfl rfl
      · exact .same rfl rfl
  | settingSender connectionId sessionId entry => exact .same rfl rfl
  | attaching connectionId sessionId entry =>
      refine ⟨Nat.le_refl _, .inl rfl, ?_⟩
      rintro - attached ⟨⟩
      rfl
  | shuttingDown connectionId sessionId entry => exact .same rfl rfl
  | returned connectionId result => exact .refl _ _

theorem moveDetach_nextUuid (registry : Registry) (handle : SessionHandle) (phase : Detach) :
    (moveDetach registry handle phase).1.nextUuid = registry.nextUuid := by
  cases phase with
  | detaching =>
      rw [moveDetach]
      split <;> rfl
  | clearing => rfl
  | returned => rfl

theorem moveExpire_nextUuid (registry : Registry) (sessionId : Str) (connectionId : ConnectionId) (phase : Expire) :
    (moveExpire registry sessionId connectionId phase).1.nextUuid = registry.nextUuid := by
  cases phase with
  | sleeping wake =>
      rw [moveExpire]
      split
      · rfl
      · split <;> rfl
  | checking entry =>
      rw [moveExpire]
      split <;> rfl
  | shuttingDown entry => rfl
  | returned => rfl

theorem moveTask_connectionKept (state : RegistryState) (elapsed : Nat) (task : Task) :
    ConnectionKept state.shared.nextUuid (moveTask state elapsed task).shared.nextUuid task
      (moveTask state elapsed task).task := by
  cases task with
  | attach resume notifications phase =>
      exact moveAttach_connectionKept { state.shared with now := state.shared.now + elapsed } resume notifications phase
  | detach handle phase =>
      have heq := moveDetach_nextUuid { state.shared with now := state.shared.now + elapsed } handle phase
      rw [moveTask]
      dsimp only
      rw [heq]
      exact .same rfl rfl
  | expire sessionId connectionId phase =>
      have heq := moveExpire_nextUuid { state.shared with now := state.shared.now + elapsed } sessionId connectionId phase
      rw [moveTask]
      dsimp only
      rw [heq]
      exact .same rfl rfl

theorem moveTask_spawned (state : RegistryState) (elapsed : Nat) (task : Task) :
    ∀ spawned ∈ (moveTask state elapsed task).spawned, ∃ sessionId connectionId wake,
      spawned = .expire sessionId connectionId (.sleeping wake) := by
  intro spawned hspawned
  cases task with
  | attach resume notifications phase => cases hspawned
  | expire sessionId connectionId phase => cases hspawned
  | detach handle phase =>
      cases phase with
      | detaching =>
          simp only [moveTask, moveDetach] at hspawned
          split at hspawned <;> cases hspawned
      | returned => cases hspawned
      | clearing =>
          obtain rfl := List.mem_singleton.mp hspawned
          exact ⟨_, _, _, rfl⟩

namespace ConnectionsApart

variable {registry registry' : Registry} {tasks : List Task} {index : Nat} {old new : Task}

theorem spawned (h : ConnectionsApart registry tasks) (hconnection : new.connection = none)
    (hattached : new.attached = none) : ConnectionsApart registry (tasks ++ [new]) := by
  have hsplit : ∀ {i : Nat} {task : Task} {connectionId}, (tasks ++ [new])[i]? = some task →
      task.connection = some connectionId → tasks[i]? = some task := by
    intro i task connectionId hi hc
    rw [List.getElem?_append] at hi
    split at hi
    · exact hi
    · obtain rfl := List.mem_singleton.mp (List.mem_of_getElem? hi)
      rw [hconnection] at hc
      cases hc
  refine ⟨?_, ?_, ?_⟩
  · intro task htask connectionId hc
    obtain ⟨i, hi⟩ := List.mem_iff_getElem?.mp htask
    exact h.fresh task (List.mem_of_getElem? (hsplit hi hc)) connectionId hc
  · intro task htask attached hattached'
    rw [List.mem_append, List.mem_singleton] at htask
    rcases htask with hin | rfl
    · exact h.own task hin attached hattached'
    · rw [hattached] at hattached'
      cases hattached'
  · exact fun i j task task' connectionId hi hj hc hc' =>
      h.distinct i j task task' connectionId (hsplit hi hc) (hsplit hj hc') hc hc'

theorem spawnedAll (h : ConnectionsApart registry tasks) {new : List Task}
    (hnew : ∀ task ∈ new, task.connection = none ∧ task.attached = none) :
    ConnectionsApart registry (tasks ++ new) := by
  induction new generalizing tasks with
  | nil => rwa [List.append_nil]
  | cons first new ih =>
      obtain ⟨hconnection, hattached⟩ := hnew first List.mem_cons_self
      rw [List.append_cons]
      exact ih (h.spawned hconnection hattached) fun task htask => hnew task (List.mem_cons_of_mem _ htask)

theorem moved (h : ConnectionsApart registry tasks) (hold : tasks[index]? = some old)
    (hkept : ConnectionKept registry.nextUuid registry'.nextUuid old new) :
    ConnectionsApart registry' (tasks.set index new) := by
  have hmem := List.mem_of_getElem? hold
  obtain ⟨hlt, -⟩ := List.getElem?_eq_some_iff.mp hold
  have hget : ∀ {i : Nat} {task : Task}, (tasks.set index new)[i]? = some task → i ≠ index → tasks[i]? = some task := by
    intro i task hi hne
    rwa [List.getElem?_set_ne hne.symm] at hi
  -- The id of the moved task is not the one of another.
  have hapart : ∀ {i : Nat} {task : Task} {connectionId}, (tasks.set index new)[i]? = some task →
      task.connection = some connectionId → new.connection = some connectionId → i = index := by
    intro i task connectionId hi hc hnew
    by_contra hne
    have hi := hget hi hne
    rcases hkept.kept with hsame | ⟨hfresh, -⟩
    · exact hne (h.distinct i index task old connectionId hi hold hc (hsame.symm.trans hnew))
    · obtain rfl := Option.some.inj (hfresh.symm.trans hnew)
      exact Nat.lt_irrefl _ (h.fresh task (List.mem_of_getElem? hi) _ hc)
  refine ⟨?_, ?_, ?_⟩
  · intro task htask connectionId hc
    rcases List.mem_or_eq_of_mem_set htask with hin | rfl
    · exact Nat.lt_of_lt_of_le (h.fresh task hin connectionId hc) hkept.grows
    · rcases hkept.kept with hsame | ⟨hfresh, hlt⟩
      · exact Nat.lt_of_lt_of_le (h.fresh old hmem connectionId (hsame.symm.trans hc)) hkept.grows
      · obtain rfl := Option.some.inj (hfresh.symm.trans hc)
        exact hlt
  · intro task htask
    rcases List.mem_or_eq_of_mem_set htask with hin | rfl
    · exact h.own task hin
    · exact hkept.own (h.own old hmem)
  · intro i j task task' connectionId hi hj hc hc'
    have hself : (tasks.set index new)[index]? = some new := List.getElem?_set_self hlt
    by_cases hindex : i = index
    · rw [hindex] at hi
      obtain rfl := Option.some.inj (hself.symm.trans hi)
      rw [hindex, hapart hj hc' hc]
    by_cases hindex' : j = index
    · rw [hindex'] at hj
      obtain rfl := Option.some.inj (hself.symm.trans hj)
      rw [hindex', hapart hi hc hc']
    · exact h.distinct i j task task' connectionId (hget hi hindex) (hget hj hindex') hc hc'

end ConnectionsApart

end Codrex.ExecServer
