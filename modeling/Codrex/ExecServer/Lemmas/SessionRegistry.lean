import Codrex.ExecServer.Client

/-!
# The invariant of the session registry
-/

namespace Codrex.ExecServer

open Text

/-! ## What is read off a task -/

def Task.holdsLock : Task → Bool
  | attach _ _ (.checkingExpiry ..) => true
  | attach _ _ (.checkingActive ..) => true
  | attach _ _ (.settingSender ..) => true
  | attach _ _ (.attaching ..) => true
  | expire _ _ (.checking _) => true
  | _ => false

/-- The call has set its sender on the entry and has still to attach to it. -/
def Task.isAttaching (entry : Nat) : Task → Bool
  | attach _ _ (.attaching _ _ entry') => entry' == entry
  | _ => false

def Attach.connection : Attach → Option ConnectionId
  | connecting => none
  | locking connectionId => some connectionId
  | checkingExpiry connectionId _ _ => some connectionId
  | checkingActive connectionId _ _ => some connectionId
  | settingSender connectionId _ _ => some connectionId
  | attaching connectionId _ _ => some connectionId
  | shuttingDown connectionId _ _ => some connectionId
  | returned connectionId _ => some connectionId

def Task.connection : Task → Option ConnectionId
  | attach _ _ phase => phase.connection
  | _ => none

def Registry.current (registry : Registry) (entry : Nat) : Option ConnectionId :=
  (registry.entries entry).attachment.currentConnectionId

/-- The registry has dropped the entry, and no one is attached to it. -/
structure Dead (registry : Registry) (entry : Nat) : Prop where
  born : entry < registry.count
  dropped : ∀ sessionId, registry.sessions.lookup sessionId ≠ some entry
  detached : registry.current entry = none

/-- What a task relies on. -/
def TaskOk (registry : Registry) : Task → Prop
  | .attach _ _ (.checkingExpiry _ sessionId entry) => registry.sessions.lookup sessionId = some entry
  | .attach _ _ (.checkingActive _ sessionId entry) => registry.sessions.lookup sessionId = some entry
  | .attach _ _ (.settingSender _ sessionId entry) =>
      registry.sessions.lookup sessionId = some entry ∧ registry.current entry = none
  | .attach _ notifications (.attaching _ sessionId entry) =>
      registry.sessions.lookup sessionId = some entry ∧ registry.current entry = none ∧
        (registry.entries entry).notifications = some notifications
  | .attach _ _ (.shuttingDown _ _ entry) => Dead registry entry
  | .detach handle .clearing => handle.entry < registry.count ∧ registry.current handle.entry = none
  | .expire sessionId _ (.checking entry) => registry.sessions.lookup sessionId = some entry
  | .expire _ _ (.shuttingDown entry) => Dead registry entry
  | _ => True

/-- A task that holds no lock and has changed nothing halfway. -/
structure Task.Quiet (task : Task) : Prop where
  free : task.holdsLock = false
  notClearing : ∀ entry, task.isClearing entry = false
  notAttaching : ∀ entry, task.isAttaching entry = false

/-- The sender of the entry is the one that the connection has passed, and no one is about to clear it. -/
structure SenderOf (registry : Registry) (tasks : List Task) (entry : Nat) (connectionId : ConnectionId) : Prop where
  notClearing : ∀ task ∈ tasks, task.isClearing entry = false
  passed : ∃ task ∈ tasks, ∃ notifications, task.attached = some (⟨entry, connectionId⟩, notifications) ∧
    (registry.entries entry).notifications = some notifications

structure RegistryInv (registry : Registry) (tasks : List Task) : Prop where
  tasksOk : ∀ task ∈ tasks, TaskOk registry task
  lock : tasks.countP Task.holdsLock = if registry.locked then 1 else 0
  found : ∀ sessionId entry, registry.sessions.lookup sessionId = some entry →
    entry < registry.count ∧ (registry.entries entry).sessionId = sessionId
  unborn : ∀ entry, registry.count ≤ entry →
    registry.current entry = none ∧ (registry.entries entry).shutDown = false ∧
      (registry.entries entry).attachment.detachedExpiresAt = none
  expiry : ∀ entry, (registry.entries entry).attachment.detachedExpiresAt ≠ none → registry.current entry = none
  dead : ∀ entry, (registry.entries entry).shutDown = true → Dead registry entry
  apart : ∀ entry, ∀ task ∈ tasks, task.isClearing entry = true → ∀ task' ∈ tasks, task'.isAttaching entry = false
  sender : ∀ entry connectionId, registry.current entry = some connectionId →
    SenderOf registry tasks entry connectionId

/-- All that a move can do, apart from the clock. -/
inductive Effect (registry : Registry) (old : Task) : Registry → Task → Prop
  | idle {new : Task} {uuid : Nat} (hold : old.Quiet) (hnew : new.Quiet) (hattached : new.attached = old.attached)
      (hok : TaskOk registry new) : Effect registry old { registry with nextUuid := uuid } new
  | created {resume : Option Str} {notifications : RpcNotificationSender} {connectionId : ConnectionId}
      {sessionId : Str} {uuid : Nat} (hold : old.Quiet) (hattached : old.attached = none)
      (hlocked : registry.locked = false) :
      Effect registry old
        { registry with
          nextUuid := uuid
          sessions := registry.sessions.insert sessionId registry.count
          count := registry.count + 1
          entries := Function.update registry.entries registry.count (.new sessionId notifications connectionId) }
        (.attach resume notifications (.returned connectionId (.ok ⟨registry.count, connectionId⟩)))
  | locked {new : Task} (hold : old.Quiet) (hattached : old.attached = none) (hlocked : registry.locked = false)
      (hholds : new.holdsLock = true) (hclearing : ∀ entry, new.isClearing entry = false)
      (hattaching : ∀ entry, new.isAttaching entry = false) (hok : TaskOk registry new) :
      Effect registry old { registry with locked := true } new
  | checked {new : Task} (hold : old.holdsLock = true) (hattached : old.attached = none)
      (hclearing : ∀ entry, new.isClearing entry = false) (hattaching : ∀ entry, new.isAttaching entry = false)
      (hholds : new.holdsLock = true) (hok : TaskOk registry new) : Effect registry old registry new
  | dropped {new : Task} {sessionId : Str} {entry : Nat} (hold : old.holdsLock = true)
      (hattached : old.attached = none) (hfound : registry.sessions.lookup sessionId = some entry)
      (hcurrent : registry.current entry = none) (hnew : new.Quiet)
      (hok : Dead { registry with locked := false, sessions := registry.sessions.erase sessionId } entry →
        TaskOk { registry with locked := false, sessions := registry.sessions.erase sessionId } new) :
      Effect registry old { registry with locked := false, sessions := registry.sessions.erase sessionId } new
  | released {new : Task} (hold : old.holdsLock = true) (hattached : old.attached = none) (hnew : new.Quiet)
      (hok : ∀ registry, TaskOk registry new) : Effect registry old { registry with locked := false } new
  | senderSet {resume : Option Str} {notifications : RpcNotificationSender} {connectionId : ConnectionId}
      {sessionId : Str} {entry : Nat}
      (hold : old = .attach resume notifications (.settingSender connectionId sessionId entry)) :
      Effect registry old (registry.modifyEntry entry (·.setNotificationSender (some notifications)))
        (.attach resume notifications (.attaching connectionId sessionId entry))
  | attached {resume : Option Str} {notifications : RpcNotificationSender} {connectionId : ConnectionId}
      {sessionId : Str} {entry : Nat}
      (hold : old = .attach resume notifications (.attaching connectionId sessionId entry)) :
      Effect registry old { registry.modifyEntry entry (·.attach connectionId) with locked := false }
        (.attach resume notifications (.returned connectionId (.ok ⟨entry, connectionId⟩)))
  | shutDown {new : Task} {entry : Nat} (hold : old.Quiet) (hattached : old.attached = none)
      (hdead : TaskOk registry old → Dead registry entry) (hnew : new.Quiet) (hok : ∀ registry, TaskOk registry new) :
      Effect registry old (registry.modifyEntry entry SessionEntry.shutdown) new
  | detached {handle : SessionHandle} {entry : SessionEntry} {now : Nat} (hold : old = .detach handle .detaching)
      (hentry : (registry.entries handle.entry).detach handle.connectionId now = some entry) :
      Effect registry old (registry.modifyEntry handle.entry fun _ => entry) (.detach handle .clearing)
  | cleared {handle : SessionHandle} (hold : old = .detach handle .clearing) :
      Effect registry old (registry.modifyEntry handle.entry (·.setNotificationSender none))
        (.detach handle .returned)

/-! ## Every move has one of the effects -/

theorem quiet_returned (resume : Option Str) (notifications : RpcNotificationSender) (connectionId : ConnectionId)
    (result : Except Str SessionHandle) : (Task.attach resume notifications (.returned connectionId result)).Quiet :=
  ⟨rfl, fun _ => rfl, fun _ => rfl⟩

theorem moveAttach_effect {registry : Registry} {resume : Option Str} {notifications : RpcNotificationSender}
    {phase : Attach} (hok : TaskOk registry (.attach resume notifications phase))
    (hexpiry : ∀ entry, (registry.entries entry).attachment.detachedExpiresAt ≠ none → registry.current entry = none) :
    Effect registry (.attach resume notifications phase) (moveAttach registry resume notifications phase).1
      (.attach resume notifications (moveAttach registry resume notifications phase).2) := by
  cases phase with
  | connecting => exact .idle ⟨rfl, fun _ => rfl, fun _ => rfl⟩ ⟨rfl, fun _ => rfl, fun _ => rfl⟩ rfl trivial
  | locking connectionId =>
      have hold : (Task.attach resume notifications (.locking connectionId)).Quiet :=
        ⟨rfl, fun _ => rfl, fun _ => rfl⟩
      simp only [moveAttach]
      split
      · exact .idle hold hold rfl trivial
      · rename_i hlocked
        have hlocked : registry.locked = false := Bool.eq_false_iff.mpr hlocked
        cases resume with
        | none => exact .created hold rfl hlocked
        | some sessionId =>
            dsimp only
            cases hfound : registry.sessions.lookup sessionId with
            | none => exact .idle hold (quiet_returned _ _ _ _) rfl trivial
            | some entry => exact .locked hold rfl hlocked rfl (fun _ => rfl) (fun _ => rfl) hfound
  | checkingExpiry connectionId sessionId entry =>
      rw [moveAttach]
      split
      · rename_i hexpired
        have hcurrent : registry.current entry = none := by
          apply hexpiry
          intro hnone
          rw [SessionEntry.isExpired, hnone] at hexpired
          cases hexpired
        exact .dropped rfl rfl hok hcurrent ⟨rfl, fun _ => rfl, fun _ => rfl⟩ id
      · exact .checked rfl rfl (fun _ => rfl) (fun _ => rfl) rfl hok
  | checkingActive connectionId sessionId entry =>
      rw [moveAttach]
      split
      · exact .released rfl rfl (quiet_returned _ _ _ _) fun _ => trivial
      · rename_i hactive
        have hcurrent : registry.current entry = none := by
          rw [SessionEntry.hasActiveConnection, Bool.not_eq_true, Option.isSome_eq_false_iff,
            Option.isNone_iff_eq_none] at hactive
          exact hactive
        exact .checked rfl rfl (fun _ => rfl) (fun _ => rfl) rfl ⟨hok, hcurrent⟩
  | settingSender connectionId sessionId entry => exact .senderSet rfl
  | attaching connectionId sessionId entry => exact .attached rfl
  | shuttingDown connectionId sessionId entry =>
      exact .shutDown ⟨rfl, fun _ => rfl, fun _ => rfl⟩ rfl id (quiet_returned _ _ _ _) fun _ => trivial
  | returned connectionId result =>
      exact .idle (quiet_returned _ _ _ _) (quiet_returned _ _ _ _) rfl trivial

theorem moveDetach_effect (registry : Registry) (handle : SessionHandle) (phase : Detach) :
    Effect registry (.detach handle phase) (moveDetach registry handle phase).1
      (.detach handle (moveDetach registry handle phase).2.1) := by
  have hreturned : (Task.detach handle .returned).Quiet := ⟨rfl, fun _ => rfl, fun _ => rfl⟩
  cases phase with
  | detaching =>
      rw [moveDetach]
      split
      · exact .idle ⟨rfl, fun _ => rfl, fun _ => rfl⟩ hreturned rfl trivial
      · rename_i entry hentry
        exact .detached rfl hentry
  | clearing => exact .cleared rfl
  | returned => exact .idle hreturned hreturned rfl trivial

theorem moveExpire_effect {registry : Registry} {sessionId : Str} {connectionId : ConnectionId} {phase : Expire}
    (hok : TaskOk registry (.expire sessionId connectionId phase)) :
    Effect registry (.expire sessionId connectionId phase) (moveExpire registry sessionId connectionId phase).1
      (.expire sessionId connectionId (moveExpire registry sessionId connectionId phase).2) := by
  have hreturned : (Task.expire sessionId connectionId .returned).Quiet := ⟨rfl, fun _ => rfl, fun _ => rfl⟩
  cases phase with
  | sleeping wake =>
      have hold : (Task.expire sessionId connectionId (.sleeping wake)).Quiet := ⟨rfl, fun _ => rfl, fun _ => rfl⟩
      rw [moveExpire]
      split
      · exact .idle hold hold rfl trivial
      · rename_i hwake
        have hlocked : registry.locked = false := Bool.eq_false_iff.mpr fun h => hwake (.inr h)
        cases hfound : registry.sessions.lookup sessionId with
        | none => exact .idle hold hreturned rfl trivial
        | some entry => exact .locked hold rfl hlocked rfl (fun _ => rfl) (fun _ => rfl) hfound
  | checking entry =>
      rw [moveExpire]
      split
      · rename_i hexpired
        have hcurrent : registry.current entry = none := by
          rw [SessionEntry.isDetachedConnectionExpired, Bool.and_eq_true, Bool.and_eq_true,
            Option.isNone_iff_eq_none] at hexpired
          exact hexpired.1.1
        exact .dropped rfl rfl hok hcurrent ⟨rfl, fun _ => rfl, fun _ => rfl⟩ id
      · exact .released rfl rfl hreturned fun _ => trivial
  | shuttingDown entry => exact .shutDown ⟨rfl, fun _ => rfl, fun _ => rfl⟩ rfl id hreturned fun _ => trivial
  | returned => exact .idle hreturned hreturned rfl trivial

theorem SessionEntry.detach_eq_some {entry after : SessionEntry} {connectionId : ConnectionId} {now : Nat}
    (h : entry.detach connectionId now = some after) :
    entry.attachment.currentConnectionId = some connectionId ∧ after.attachment.currentConnectionId = none ∧
      after.sessionId = entry.sessionId ∧ after.notifications = entry.notifications ∧
      after.shutDown = entry.shutDown := by
  rw [SessionEntry.detach] at h
  split at h
  · cases h
  · rename_i hconnected
    rw [ne_eq, not_not] at hconnected
    obtain rfl := Option.some.inj h
    exact ⟨hconnected, rfl, rfl, rfl, rfl⟩

/-! ## What is kept -/

section

variable {registry registry' : Registry} {tasks : List Task} {index entry : Nat} {old new task : Task}

theorem taskOk_mono (hok : TaskOk registry task)
    (hlookup : ∀ sessionId entry, registry.sessions.lookup sessionId = some entry →
      registry'.sessions.lookup sessionId = some entry)
    (hcount : registry.count ≤ registry'.count)
    (hcurrent : ∀ entry, registry.current entry = none → registry'.current entry = none)
    (hnotifications : ∀ entry, task.isAttaching entry = true →
      (registry'.entries entry).notifications = (registry.entries entry).notifications)
    (hdead : ∀ entry, Dead registry entry → Dead registry' entry) : TaskOk registry' task := by
  cases task with
  | attach resume notifications phase =>
      cases phase with
      | checkingExpiry connectionId sessionId entry => exact hlookup sessionId entry hok
      | checkingActive connectionId sessionId entry => exact hlookup sessionId entry hok
      | settingSender connectionId sessionId entry =>
          exact ⟨hlookup sessionId entry hok.1, hcurrent entry hok.2⟩
      | attaching connectionId sessionId entry =>
          refine ⟨hlookup sessionId entry hok.1, hcurrent entry hok.2.1, ?_⟩
          rw [hnotifications entry (by simp [Task.isAttaching])]
          exact hok.2.2
      | shuttingDown connectionId sessionId entry => exact hdead entry hok
      | connecting => trivial
      | locking connectionId => trivial
      | returned connectionId result => trivial
  | detach handle phase =>
      cases phase with
      | clearing => exact ⟨Nat.lt_of_lt_of_le hok.1 hcount, hcurrent handle.entry hok.2⟩
      | detaching => trivial
      | returned => trivial
  | expire sessionId connectionId phase =>
      cases phase with
      | checking entry => exact hlookup sessionId entry hok
      | shuttingDown entry => exact hdead entry hok
      | sleeping wake => trivial
      | returned => trivial

/-- A task without the lock relies on little. -/
theorem taskOk_of_free (hfree : task.holdsLock = false) (hok : TaskOk registry task)
    (hclearing : ∀ entry, task.isClearing entry = true → entry < registry.count → registry.current entry = none →
      entry < registry'.count ∧ registry'.current entry = none)
    (hdead : ∀ entry, Dead registry entry → Dead registry' entry) : TaskOk registry' task := by
  cases task with
  | attach resume notifications phase =>
      cases phase with
      | shuttingDown connectionId sessionId entry => exact hdead entry hok
      | connecting => trivial
      | locking connectionId => trivial
      | returned connectionId result => trivial
      | checkingExpiry connectionId sessionId entry => cases hfree
      | checkingActive connectionId sessionId entry => cases hfree
      | settingSender connectionId sessionId entry => cases hfree
      | attaching connectionId sessionId entry => cases hfree
  | detach handle phase =>
      cases phase with
      | clearing => exact hclearing handle.entry (by simp [Task.isClearing]) hok.1 hok.2
      | detaching => trivial
      | returned => trivial
  | expire sessionId connectionId phase =>
      cases phase with
      | shuttingDown entry => exact hdead entry hok
      | sleeping wake => trivial
      | returned => trivial
      | checking entry => cases hfree

theorem current_of_isAttaching (hok : TaskOk registry task) (h : task.isAttaching entry = true) :
    registry.current entry = none := by
  cases task with
  | detach handle phase => cases h
  | expire sessionId connectionId phase => cases h
  | attach resume notifications phase =>
      cases phase with
      | attaching connectionId sessionId entry' =>
          rw [Task.isAttaching, beq_iff_eq] at h
          rw [← h]
          exact hok.2.1
      | connecting => cases h
      | locking connectionId => cases h
      | checkingExpiry connectionId sessionId entry' => cases h
      | checkingActive connectionId sessionId entry' => cases h
      | settingSender connectionId sessionId entry' => cases h
      | shuttingDown connectionId sessionId entry' => cases h
      | returned connectionId result => cases h

theorem SenderOf.set {connectionId : ConnectionId} (h : SenderOf registry tasks entry connectionId)
    (hold : tasks[index]? = some old) (hclearing : new.isClearing entry = false)
    (hattached : old.attached = none ∨ new.attached = old.attached)
    (hnotifications : (registry'.entries entry).notifications = (registry.entries entry).notifications) :
    SenderOf registry' (tasks.set index new) entry connectionId := by
  refine ⟨?_, ?_⟩
  · intro task htask
    rcases List.mem_or_eq_of_mem_set htask with htask | rfl
    · exact h.notClearing task htask
    · exact hclearing
  · obtain ⟨task, htask, notifications, hpassed, hsender⟩ := h.passed
    by_cases heq : task = old
    · refine ⟨new, Tasks.new_mem_set hold, notifications, ?_, hnotifications.trans hsender⟩
      rw [heq] at hpassed
      rcases hattached with hnone | hsame
      · rw [hnone] at hpassed
        cases hpassed
      · exact hsame.trans hpassed
    · exact ⟨task, Tasks.mem_set_of_ne hold htask heq, notifications, hpassed, hnotifications.trans hsender⟩

theorem entries_modifyEntry_self (registry : Registry) (f : SessionEntry → SessionEntry) (entry : Nat) :
    (registry.modifyEntry entry f).entries entry = f (registry.entries entry) := Function.update_self ..

theorem entries_modifyEntry_of_ne {f : SessionEntry → SessionEntry} {entry entry' : Nat} (h : entry' ≠ entry) :
    (registry.modifyEntry entry f).entries entry' = registry.entries entry' := Function.update_of_ne h ..

theorem current_modifyEntry (registry : Registry) {f : SessionEntry → SessionEntry}
    (hf : ∀ entry, (f entry).attachment = entry.attachment) (entry entry' : Nat) : (registry.modifyEntry entry f).current entry' = registry.current entry' := by
  rw [Registry.current, Registry.current]
  by_cases h : entry' = entry
  · rw [h, entries_modifyEntry_self, hf]
  · rw [entries_modifyEntry_of_ne h]

namespace RegistryInv

/-- Only one task holds the lock. -/
theorem others_free (h : RegistryInv registry tasks) (hold : tasks[index]? = some old) (hholds : old.holdsLock = true)
    (hother : ∀ x, task ∈ tasks.set index x) : task.holdsLock = false := by
  obtain ⟨hlt, hget⟩ := List.getElem?_eq_some_iff.mp hold
  have hone : tasks.countP Task.holdsLock ≤ 1 := by
    rw [h.lock]
    split <;> omega
  have hnone : (tasks.set index (.detach ⟨0, 0⟩ .returned)).countP Task.holdsLock = 0 := by
    rw [List.countP_set hlt, hget, hholds]
    simp only [Task.holdsLock, Bool.false_eq_true, if_true, if_false]
    omega
  exact Bool.eq_false_iff.mpr (List.countP_eq_zero.mp hnone task (hother _))

theorem all_free (h : RegistryInv registry tasks) (hlocked : registry.locked = false) :
    ∀ task ∈ tasks, task.holdsLock = false := by
  have hnone := h.lock
  rw [hlocked, if_neg Bool.false_ne_true, List.countP_eq_zero] at hnone
  exact fun task htask => Bool.eq_false_iff.mpr (hnone task htask)

theorem lock_released (h : RegistryInv registry tasks) (hold : tasks[index]? = some old)
    (hholds : old.holdsLock = true) (hnew : new.holdsLock = false) :
    (tasks.set index new).countP Task.holdsLock = 0 := by
  rw [List.countP_eq_zero]
  intro task htask
  rcases Tasks.mem_set_cases htask with rfl | ⟨-, hother⟩
  · rw [hnew]
    exact Bool.false_ne_true
  · rw [h.others_free hold hholds hother]
    exact Bool.false_ne_true

theorem apart_set (h : RegistryInv registry tasks)
    (hclearing : new.isClearing entry = true → ∀ task ∈ tasks, task.isAttaching entry = false)
    (hattaching : new.isAttaching entry = true → ∀ task ∈ tasks, task.isClearing entry = false)
    (hnew : new.isClearing entry = true → new.isAttaching entry = false) :
    ∀ task ∈ tasks.set index new, task.isClearing entry = true →
      ∀ task' ∈ tasks.set index new, task'.isAttaching entry = false := by
  intro task htask hclears task' htask'
  rcases List.mem_or_eq_of_mem_set htask with hin | rfl
  · rcases List.mem_or_eq_of_mem_set htask' with hin' | rfl
    · exact h.apart entry task hin hclears task' hin'
    · rw [← Bool.not_eq_true]
      intro hattaches
      exact Bool.false_ne_true ((hattaching hattaches task hin).symm.trans hclears)
  · rcases List.mem_or_eq_of_mem_set htask' with hin' | rfl
    · exact hclearing hclears task' hin'
    · exact hnew hclears

end RegistryInv

end

end Codrex.ExecServer
