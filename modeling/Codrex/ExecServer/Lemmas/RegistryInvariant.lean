import Codrex.ExecServer.Lemmas.SessionRegistry

/-!
# The registry keeps its invariant
-/

namespace Codrex.ExecServer

open Text

namespace RegistryInv

variable {registry registry' : Registry} {tasks : List Task} {index entry : Nat} {old new : Task}

/-! ## Moves that change no entry -/

/-- The task goes on, the sessions and their entries stay. -/
theorem same (h : RegistryInv registry tasks) (hold : tasks[index]? = some old)
    (hsessions : registry'.sessions = registry.sessions) (hcount : registry'.count = registry.count)
    (hentries : registry'.entries = registry.entries)
    (hlock : (tasks.set index new).countP Task.holdsLock = if registry'.locked then 1 else 0)
    (hclearing : ∀ entry, new.isClearing entry = false) (hattaching : ∀ entry, new.isAttaching entry = false)
    (hattached : old.attached = none ∨ new.attached = old.attached) (hok : TaskOk registry new) :
    RegistryInv registry' (tasks.set index new) := by
  have hcurrent : ∀ entry, registry'.current entry = registry.current entry := by
    intro entry
    rw [Registry.current, Registry.current, hentries]
  have hdead : ∀ entry, Dead registry entry → Dead registry' entry := by
    intro entry hdead
    refine ⟨hcount ▸ hdead.born, ?_, (hcurrent entry).trans hdead.detached⟩
    rw [hsessions]
    exact hdead.dropped
  have hmono : ∀ {task}, TaskOk registry task → TaskOk registry' task := by
    intro task hok
    refine taskOk_mono hok ?_ (Nat.le_of_eq hcount.symm) ?_ ?_ hdead
    · rw [hsessions]
      exact fun _ _ hfound => hfound
    · exact fun entry hnone => (hcurrent entry).trans hnone
    · exact fun entry _ => by rw [hentries]
  refine ⟨?_, hlock, ?_, ?_, ?_, ?_, ?_, ?_⟩
  · intro task htask
    rcases List.mem_or_eq_of_mem_set htask with htask | rfl
    · exact hmono (h.tasksOk task htask)
    · exact hmono hok
  · rw [hsessions, hcount, hentries]
    exact h.found
  · intro entry
    rw [hcount, hentries, hcurrent]
    exact h.unborn entry
  · intro entry
    rw [hentries, hcurrent]
    exact h.expiry entry
  · intro entry hshut
    rw [hentries] at hshut
    exact hdead entry (h.dead entry hshut)
  · intro entry
    refine h.apart_set ?_ ?_ ?_
    · exact fun hclears => absurd ((hclearing entry).symm.trans hclears) Bool.false_ne_true
    · exact fun hattaches => absurd ((hattaching entry).symm.trans hattaches) Bool.false_ne_true
    · exact fun _ => hattaching entry
  · intro entry connectionId hconnected
    rw [hcurrent] at hconnected
    exact (h.sender entry connectionId hconnected).set hold (hclearing entry) hattached (by rw [hentries])

theorem created {resume : Option Str} {notifications : RpcNotificationSender} {connectionId : ConnectionId}
    {sessionId : Str} {uuid : Nat} (h : RegistryInv registry tasks) (hold : tasks[index]? = some old)
    (hattached : old.attached = none) (hlocked : registry.locked = false) :
    RegistryInv
      { registry with
        nextUuid := uuid
        sessions := registry.sessions.insert sessionId registry.count
        count := registry.count + 1
        entries := Function.update registry.entries registry.count (.new sessionId notifications connectionId) }
      (tasks.set index
        (.attach resume notifications (.returned connectionId (.ok ⟨registry.count, connectionId⟩)))) := by
  generalize hregistry : ({ registry with
        nextUuid := uuid
        sessions := registry.sessions.insert sessionId registry.count
        count := registry.count + 1
        entries := Function.update registry.entries registry.count (.new sessionId notifications connectionId) } :
      Registry) = registry'
  have hsessions : registry'.sessions = registry.sessions.insert sessionId registry.count := by rw [← hregistry]
  have hcount : registry'.count = registry.count + 1 := by rw [← hregistry]
  have hnew : registry'.entries registry.count = .new sessionId notifications connectionId := by
    rw [← hregistry]
    exact Function.update_self ..
  have hother : ∀ entry, entry ≠ registry.count → registry'.entries entry = registry.entries entry := by
    intro entry hne
    rw [← hregistry]
    exact Function.update_of_ne hne ..
  have hcurrent : ∀ entry, entry ≠ registry.count → registry'.current entry = registry.current entry := by
    intro entry hne
    rw [Registry.current, Registry.current, hother entry hne]
  have hborn : ∀ task ∈ tasks, task.isClearing registry.count = false := by
    intro task htask
    rw [← Bool.not_eq_true]
    intro hclears
    cases task with
    | attach resume notifications phase => cases hclears
    | expire sessionId connectionId phase => cases hclears
    | detach handle phase =>
        cases phase with
        | clearing =>
            have hlt := (h.tasksOk _ htask).1
            rw [Task.isClearing, beq_iff_eq] at hclears
            omega
        | detaching => cases hclears
        | returned => cases hclears
  have hdead : ∀ entry, Dead registry entry → Dead registry' entry := by
    intro entry hdead
    have hne : entry ≠ registry.count := Nat.ne_of_lt hdead.born
    refine ⟨by rw [hcount]; exact Nat.lt_succ_of_lt hdead.born, ?_, (hcurrent entry hne).trans hdead.detached⟩
    intro id hfound
    rw [hsessions] at hfound
    rcases Assoc.lookup_insert.mp hfound with ⟨-, heq⟩ | ⟨-, hfound⟩
    · exact hne heq.symm
    · exact hdead.dropped id hfound
  have hquiet : (Task.attach resume notifications
      (.returned connectionId (.ok ⟨registry.count, connectionId⟩))).Quiet := quiet_returned ..
  refine ⟨?_, ?_, ?_, ?_, ?_, ?_, ?_, ?_⟩
  · intro task htask
    rcases List.mem_or_eq_of_mem_set htask with htask | rfl
    · refine taskOk_of_free (h.all_free hlocked task htask) (h.tasksOk task htask) ?_ hdead
      intro entry _ hlt hnone
      exact ⟨by rw [hcount]; exact Nat.lt_succ_of_lt hlt, (hcurrent entry (Nat.ne_of_lt hlt)).trans hnone⟩
    · trivial
  · have hfree : old.holdsLock = false := h.all_free hlocked old (List.mem_of_getElem? hold)
    rw [Tasks.countP_set_eq hold (hquiet.free.trans hfree.symm), h.lock, ← hregistry]
  · intro id entry hfound
    rw [hsessions] at hfound
    rcases Assoc.lookup_insert.mp hfound with ⟨rfl, rfl⟩ | ⟨-, hfound⟩
    · exact ⟨by rw [hcount]; exact Nat.lt_succ_self _, by rw [hnew]; rfl⟩
    · obtain ⟨hlt, hid⟩ := h.found id entry hfound
      rw [hcount, hother entry (Nat.ne_of_lt hlt)]
      exact ⟨Nat.lt_succ_of_lt hlt, hid⟩
  · intro entry hle
    rw [hcount] at hle
    have hne : entry ≠ registry.count := by omega
    rw [hcurrent entry hne, hother entry hne]
    exact h.unborn entry (by omega)
  · intro entry hexpires
    by_cases hne : entry = registry.count
    · rw [hne, hnew] at hexpires
      exact absurd rfl hexpires
    · rw [hother entry hne] at hexpires
      exact (hcurrent entry hne).trans (h.expiry entry hexpires)
  · intro entry hshut
    by_cases hne : entry = registry.count
    · rw [hne, hnew] at hshut
      cases hshut
    · rw [hother entry hne] at hshut
      exact hdead entry (h.dead entry hshut)
  · intro entry
    refine h.apart_set (by rintro ⟨⟩) (by rintro ⟨⟩) fun _ => rfl
  · intro entry connectionId' hconnected
    by_cases hne : entry = registry.count
    · rw [hne] at hconnected ⊢
      rw [Registry.current, hnew] at hconnected
      obtain rfl := Option.some.inj hconnected
      refine ⟨?_, _, Tasks.new_mem_set hold, notifications, rfl, by rw [hnew]; rfl⟩
      intro task htask
      rcases List.mem_or_eq_of_mem_set htask with htask | rfl
      · exact hborn task htask
      · rfl
    · rw [hcurrent entry hne] at hconnected
      refine (h.sender entry connectionId' hconnected).set hold rfl (.inl hattached) ?_
      rw [hother entry hne]

theorem dropped {sessionId : Str} (h : RegistryInv registry tasks) (hold : tasks[index]? = some old)
    (hholds : old.holdsLock = true) (hattached : old.attached = none)
    (hfound : registry.sessions.lookup sessionId = some entry) (hcurrent : registry.current entry = none)
    (hnew : new.Quiet)
    (hok : Dead { registry with locked := false, sessions := registry.sessions.erase sessionId } entry →
      TaskOk { registry with locked := false, sessions := registry.sessions.erase sessionId } new) :
    RegistryInv { registry with locked := false, sessions := registry.sessions.erase sessionId }
      (tasks.set index new) := by
  have hdead : ∀ entry, Dead registry entry →
      Dead { registry with locked := false, sessions := registry.sessions.erase sessionId } entry := by
    intro entry hdead
    exact ⟨hdead.born, fun id hlookup => hdead.dropped id (Assoc.lookup_erase.mp hlookup).2, hdead.detached⟩
  refine ⟨?_, h.lock_released hold hholds hnew.free, ?_, h.unborn, h.expiry, ?_, ?_, ?_⟩
  · intro task htask
    rcases Tasks.mem_set_cases htask with rfl | ⟨htask, hother⟩
    · -- An entry is found under its own session id only, so nothing leads to it any more.
      refine hok ⟨(h.found sessionId entry hfound).1, ?_, hcurrent⟩
      intro id hlookup
      obtain ⟨hne, hlookup⟩ := Assoc.lookup_erase.mp hlookup
      exact hne ((h.found id entry hlookup).2.symm.trans (h.found sessionId entry hfound).2)
    · exact taskOk_of_free (h.others_free hold hholds hother) (h.tasksOk task htask)
        (fun _ _ hlt hnone => ⟨hlt, hnone⟩) hdead
  · intro id entry hlookup
    exact h.found id entry (Assoc.lookup_erase.mp hlookup).2
  · exact fun entry hshut => hdead entry (h.dead entry hshut)
  · intro entry
    refine h.apart_set ?_ ?_ fun _ => hnew.notAttaching entry
    · exact fun hclears => absurd ((hnew.notClearing entry).symm.trans hclears) Bool.false_ne_true
    · exact fun hattaches => absurd ((hnew.notAttaching entry).symm.trans hattaches) Bool.false_ne_true
  · exact fun entry connectionId hconnected =>
      (h.sender entry connectionId hconnected).set hold (hnew.notClearing entry) (.inl hattached) rfl

/-! ## Moves that change one entry -/

section

variable {f : SessionEntry → SessionEntry}

theorem found_modifyEntry (h : RegistryInv registry tasks) (hid : ∀ e, (f e).sessionId = e.sessionId)
    (sessionId : Str) (entry' : Nat) (hfound : registry.sessions.lookup sessionId = some entry') :
    entry' < registry.count ∧ ((registry.modifyEntry entry f).entries entry').sessionId = sessionId := by
  obtain ⟨hlt, heq⟩ := h.found sessionId entry' hfound
  refine ⟨hlt, ?_⟩
  by_cases hne : entry' = entry
  · rw [hne, entries_modifyEntry_self, hid, ← hne]
    exact heq
  · rw [entries_modifyEntry_of_ne hne]
    exact heq

theorem unborn_modifyEntry (h : RegistryInv registry tasks) (hlt : entry < registry.count) (entry' : Nat)
    (hle : registry.count ≤ entry') :
    (registry.modifyEntry entry f).current entry' = none ∧
      ((registry.modifyEntry entry f).entries entry').shutDown = false ∧
      ((registry.modifyEntry entry f).entries entry').attachment.detachedExpiresAt = none := by
  have hne : entry' ≠ entry := by omega
  rw [Registry.current, entries_modifyEntry_of_ne hne]
  exact h.unborn entry' hle

/-- A change of an entry that leaves its attachment. -/
theorem modified (h : RegistryInv registry tasks) (hold : tasks[index]? = some old) (hlt : entry < registry.count)
    (hid : ∀ e, (f e).sessionId = e.sessionId) (hattachment : ∀ e, (f e).attachment = e.attachment)
    (hlock : new.holdsLock = old.holdsLock)
    (htasks : ∀ task ∈ tasks.set index new, TaskOk (registry.modifyEntry entry f) task)
    (hshut : ∀ entry', ((registry.modifyEntry entry f).entries entry').shutDown = true → Dead registry entry')
    (hapart : ∀ entry', ∀ task ∈ tasks.set index new, task.isClearing entry' = true →
      ∀ task' ∈ tasks.set index new, task'.isAttaching entry' = false)
    (hsender : ∀ entry' connectionId, registry.current entry' = some connectionId →
      SenderOf (registry.modifyEntry entry f) (tasks.set index new) entry' connectionId) :
    RegistryInv (registry.modifyEntry entry f) (tasks.set index new) := by
  have hcurrent := fun entry' => current_modifyEntry registry hattachment entry entry'
  refine ⟨htasks, ?_, h.found_modifyEntry hid, h.unborn_modifyEntry hlt, ?_, ?_, hapart, ?_⟩
  · rw [Tasks.countP_set_eq hold hlock]
    exact h.lock
  · intro entry' hexpires
    rw [hcurrent]
    refine h.expiry entry' ?_
    by_cases hne : entry' = entry
    · rw [hne, entries_modifyEntry_self, hattachment] at hexpires
      rw [hne]
      exact hexpires
    · rwa [entries_modifyEntry_of_ne hne] at hexpires
  · intro entry' hshut'
    have hdead := hshut entry' hshut'
    exact ⟨hdead.born, hdead.dropped, (hcurrent entry').trans hdead.detached⟩
  · intro entry' connectionId hconnected
    rw [hcurrent] at hconnected
    exact hsender entry' connectionId hconnected

theorem dead_modifyEntry (hattachment : ∀ e, (f e).attachment = e.attachment) {entry' : Nat}
    (h : Dead registry entry') : Dead (registry.modifyEntry entry f) entry' :=
  ⟨h.born, h.dropped, (current_modifyEntry registry hattachment entry entry').trans h.detached⟩

end

theorem senderSet {resume : Option Str} {notifications : RpcNotificationSender} {connectionId : ConnectionId}
    {sessionId : Str} (h : RegistryInv registry tasks)
    (hold : tasks[index]? = some (.attach resume notifications (.settingSender connectionId sessionId entry)))
    (hapart : ∀ task ∈ tasks, task.isClearing entry = false) :
    RegistryInv (registry.modifyEntry entry (·.setNotificationSender (some notifications)))
      (tasks.set index (.attach resume notifications (.attaching connectionId sessionId entry))) := by
  obtain ⟨hfound, hnone⟩ : _ ∧ _ := h.tasksOk _ (List.mem_of_getElem? hold)
  have hattachment : ∀ e : SessionEntry, (e.setNotificationSender (some notifications)).attachment = e.attachment :=
    fun _ => rfl
  have hcurrent := fun entry' => current_modifyEntry registry hattachment entry entry'
  refine h.modified hold (h.found sessionId entry hfound).1 (fun _ => rfl) hattachment rfl ?_ ?_ ?_ ?_
  · intro task htask
    rcases Tasks.mem_set_cases htask with rfl | ⟨htask, hother⟩
    · refine ⟨hfound, (hcurrent entry).trans hnone, ?_⟩
      rw [entries_modifyEntry_self]
      rfl
    · refine taskOk_of_free (h.others_free hold rfl hother) (h.tasksOk task htask) ?_
        fun _ => dead_modifyEntry hattachment
      exact fun entry' _ hlt hnone => ⟨hlt, (hcurrent entry').trans hnone⟩
  · intro entry' hshut
    apply h.dead
    by_cases hne : entry' = entry
    · rw [hne, entries_modifyEntry_self] at hshut
      rw [hne]
      exact hshut
    · rwa [entries_modifyEntry_of_ne hne] at hshut
  · intro entry'
    refine h.apart_set (by rintro ⟨⟩) ?_ (by rintro ⟨⟩)
    intro hattaches
    rw [Task.isAttaching, beq_iff_eq] at hattaches
    rw [← hattaches]
    exact hapart
  · intro entry' connectionId' hconnected
    have hne : entry' ≠ entry := by
      rintro rfl
      rw [hnone] at hconnected
      cases hconnected
    exact (h.sender entry' connectionId' hconnected).set hold rfl (.inl rfl) (by rw [entries_modifyEntry_of_ne hne])

theorem attached {resume : Option Str} {notifications : RpcNotificationSender} {connectionId : ConnectionId}
    {sessionId : Str} (h : RegistryInv registry tasks)
    (hold : tasks[index]? = some (.attach resume notifications (.attaching connectionId sessionId entry))) :
    RegistryInv { registry.modifyEntry entry (·.attach connectionId) with locked := false }
      (tasks.set index (.attach resume notifications (.returned connectionId (.ok ⟨entry, connectionId⟩)))) := by
  obtain ⟨hfound, hnone, hsender⟩ : _ ∧ _ ∧ _ := h.tasksOk _ (List.mem_of_getElem? hold)
  have hlt := (h.found sessionId entry hfound).1
  generalize hregistry :
    ({ registry.modifyEntry entry (·.attach connectionId) with locked := false } : Registry) = registry'
  have hsessions : registry'.sessions = registry.sessions := by rw [← hregistry]; rfl
  have hcount : registry'.count = registry.count := by rw [← hregistry]; rfl
  have hlocked : registry'.locked = false := by rw [← hregistry]
  have hself : registry'.entries entry = (registry.entries entry).attach connectionId := by
    rw [← hregistry]
    exact entries_modifyEntry_self registry (·.attach connectionId) entry
  have hother : ∀ {entry'}, entry' ≠ entry → registry'.entries entry' = registry.entries entry' := by
    intro entry' hne
    rw [← hregistry]
    change (registry.modifyEntry entry (·.attach connectionId)).entries entry' = _
    rw [entries_modifyEntry_of_ne hne]
  have hcurrent : ∀ {entry'}, entry' ≠ entry → registry'.current entry' = registry.current entry' := by
    intro entry' hne
    rw [Registry.current, hother hne, Registry.current]
  have hclear : ∀ task ∈ tasks, task.isClearing entry = false := by
    intro task htask
    rw [← Bool.not_eq_true]
    intro hclears
    have hattaching := h.apart entry task htask hclears _ (List.mem_of_getElem? hold)
    simp [Task.isAttaching] at hattaching
  have hdead : ∀ entry', Dead registry entry' → Dead registry' entry' := by
    intro entry' hdead
    have hne : entry' ≠ entry := by
      rintro rfl
      exact hdead.dropped sessionId hfound
    refine ⟨hcount ▸ hdead.born, ?_, (hcurrent hne).trans hdead.detached⟩
    rw [hsessions]
    exact hdead.dropped
  refine ⟨?_, ?_, ?_, ?_, ?_, ?_, ?_, ?_⟩
  · intro task htask
    rcases Tasks.mem_set_cases htask with rfl | ⟨hin, hotherTask⟩
    · trivial
    · refine taskOk_of_free (h.others_free hold rfl hotherTask) (h.tasksOk task hin) ?_ hdead
      intro entry' hclears hlt' hnone'
      have hne : entry' ≠ entry := by
        rintro rfl
        exact Bool.false_ne_true ((hclear task hin).symm.trans hclears)
      exact ⟨hcount ▸ hlt', (hcurrent hne).trans hnone'⟩
  · rw [hlocked]
    exact h.lock_released hold rfl rfl
  · intro id entry' hlookup
    rw [hsessions] at hlookup
    obtain ⟨hlt', hid⟩ := h.found id entry' hlookup
    refine ⟨hcount ▸ hlt', ?_⟩
    by_cases hne : entry' = entry
    · rw [hne, hself, ← hid, hne]
      rfl
    · rw [hother hne]
      exact hid
  · intro entry' hle
    rw [hcount] at hle
    have hne : entry' ≠ entry := by omega
    rw [hcurrent hne, hother hne]
    exact h.unborn entry' hle
  · intro entry' hexpires
    by_cases hne : entry' = entry
    · rw [hne, hself] at hexpires
      exact absurd rfl hexpires
    · rw [hother hne] at hexpires
      exact (hcurrent hne).trans (h.expiry entry' hexpires)
  · intro entry' hshut
    apply hdead
    apply h.dead
    by_cases hne : entry' = entry
    · rw [hne, hself] at hshut
      rw [hne]
      exact hshut
    · rwa [hother hne] at hshut
  · intro entry'
    exact h.apart_set (by rintro ⟨⟩) (by rintro ⟨⟩) fun _ => rfl
  · intro entry' connectionId' hconnected
    by_cases hne : entry' = entry
    · rw [hne] at hconnected ⊢
      rw [Registry.current, hself] at hconnected
      obtain rfl := Option.some.inj hconnected
      refine ⟨?_, _, Tasks.new_mem_set hold, notifications, rfl, by rw [hself]; exact hsender⟩
      intro task htask
      rcases List.mem_or_eq_of_mem_set htask with htask | rfl
      · exact hclear task htask
      · rfl
    · rw [hcurrent hne] at hconnected
      exact (h.sender entry' connectionId' hconnected).set hold rfl (.inl rfl) (by rw [hother hne])

theorem shutDown (h : RegistryInv registry tasks) (hold : tasks[index]? = some old) (holdQuiet : old.Quiet)
    (hattached : old.attached = none) (hdead : Dead registry entry) (hnew : new.Quiet)
    (hok : ∀ registry, TaskOk registry new) :
    RegistryInv (registry.modifyEntry entry SessionEntry.shutdown) (tasks.set index new) := by
  have hattachment : ∀ e : SessionEntry, e.shutdown.attachment = e.attachment := fun _ => rfl
  have hnotifications : ∀ entry', ((registry.modifyEntry entry SessionEntry.shutdown).entries entry').notifications =
      (registry.entries entry').notifications := by
    intro entry'
    by_cases hne : entry' = entry
    · rw [hne, entries_modifyEntry_self]
      rfl
    · rw [entries_modifyEntry_of_ne hne]
  refine h.modified hold hdead.born (fun _ => rfl) hattachment (hnew.free.trans holdQuiet.free.symm) ?_ ?_ ?_ ?_
  · intro task htask
    rcases List.mem_or_eq_of_mem_set htask with hin | rfl
    · refine taskOk_mono (h.tasksOk task hin) (fun _ _ hfound => hfound) (Nat.le_refl _) ?_
        (fun entry' _ => hnotifications entry') fun _ => dead_modifyEntry hattachment
      exact fun entry' hnone => (current_modifyEntry registry hattachment entry entry').trans hnone
    · exact hok _
  · intro entry' hshut
    by_cases hne : entry' = entry
    · rw [hne]
      exact hdead
    · rw [entries_modifyEntry_of_ne hne] at hshut
      exact h.dead entry' hshut
  · intro entry'
    refine h.apart_set ?_ ?_ fun _ => hnew.notAttaching entry'
    · exact fun hclears => absurd ((hnew.notClearing entry').symm.trans hclears) Bool.false_ne_true
    · exact fun hattaches => absurd ((hnew.notAttaching entry').symm.trans hattaches) Bool.false_ne_true
  · exact fun entry' connectionId hconnected =>
      (h.sender entry' connectionId hconnected).set hold (hnew.notClearing entry') (.inl hattached)
        (hnotifications entry')

theorem detached {handle : SessionHandle} {after : SessionEntry} {now : Nat} (h : RegistryInv registry tasks)
    (hold : tasks[index]? = some (.detach handle .detaching))
    (hafter : (registry.entries handle.entry).detach handle.connectionId now = some after) :
    RegistryInv (registry.modifyEntry handle.entry fun _ => after) (tasks.set index (.detach handle .clearing)) := by
  obtain ⟨hconnected, hnone, hid, hnotifications, hshutDown⟩ := SessionEntry.detach_eq_some hafter
  have hlt : handle.entry < registry.count := by
    by_contra hle
    rw [Nat.not_lt] at hle
    cases (h.unborn handle.entry hle).1.symm.trans hconnected
  have hcurrent : ∀ {entry'}, entry' ≠ handle.entry →
      (registry.modifyEntry handle.entry fun _ => after).current entry' = registry.current entry' := by
    intro entry' hne
    rw [Registry.current, entries_modifyEntry_of_ne hne, Registry.current]
  have hdetached : (registry.modifyEntry handle.entry fun _ => after).current handle.entry = none := by
    rw [Registry.current, entries_modifyEntry_self]
    exact hnone
  have hfree : ∀ entry', registry.current entry' = none →
      (registry.modifyEntry handle.entry fun _ => after).current entry' = none := by
    intro entry' hnone'
    by_cases hne : entry' = handle.entry
    · rw [hne]
      exact hdetached
    · exact (hcurrent hne).trans hnone'
  have hdead : ∀ entry', Dead registry entry' → Dead (registry.modifyEntry handle.entry fun _ => after) entry' :=
    fun entry' hdead => ⟨hdead.born, hdead.dropped, hfree entry' hdead.detached⟩
  refine ⟨?_, ?_, ?_, h.unborn_modifyEntry hlt, ?_, ?_, ?_, ?_⟩
  · intro task htask
    rcases List.mem_or_eq_of_mem_set htask with hin | rfl
    · refine taskOk_mono (h.tasksOk task hin) (fun _ _ hfound => hfound) (Nat.le_refl _) hfree ?_ hdead
      intro entry' _
      by_cases hne : entry' = handle.entry
      · rw [hne, entries_modifyEntry_self]
        exact hnotifications
      · rw [entries_modifyEntry_of_ne hne]
    · exact ⟨hlt, hdetached⟩
  · have hholds : (Task.detach handle .clearing).holdsLock = (Task.detach handle .detaching).holdsLock := rfl
    exact (Tasks.countP_set_eq hold hholds).trans h.lock
  · intro id entry' hlookup
    obtain ⟨hlt', heq⟩ := h.found id entry' hlookup
    refine ⟨hlt', ?_⟩
    by_cases hne : entry' = handle.entry
    · rw [hne, entries_modifyEntry_self, hid, ← hne]
      exact heq
    · rw [entries_modifyEntry_of_ne hne]
      exact heq
  · intro entry' hexpires
    by_cases hne : entry' = handle.entry
    · rw [hne]
      exact hdetached
    · rw [entries_modifyEntry_of_ne hne] at hexpires
      exact (hcurrent hne).trans (h.expiry entry' hexpires)
  · intro entry' hshut
    apply hdead
    apply h.dead
    by_cases hne : entry' = handle.entry
    · rw [hne, entries_modifyEntry_self, hshutDown] at hshut
      rw [hne]
      exact hshut
    · rwa [entries_modifyEntry_of_ne hne] at hshut
  · intro entry'
    refine h.apart_set ?_ (by rintro ⟨⟩) fun _ => rfl
    -- A call that is about to attach has seen that no one is attached.
    intro hclears task htask
    rw [Task.isClearing, beq_iff_eq] at hclears
    rw [← Bool.not_eq_true]
    intro hattaches
    have hnone' := current_of_isAttaching (h.tasksOk task htask) hattaches
    rw [← hclears] at hnone'
    cases hnone'.symm.trans hconnected
  · intro entry' connectionId hconnected'
    have hne : entry' ≠ handle.entry := by
      rintro rfl
      cases hdetached.symm.trans hconnected'
    rw [hcurrent hne] at hconnected'
    refine (h.sender entry' connectionId hconnected').set hold ?_ (.inl rfl) (by rw [entries_modifyEntry_of_ne hne])
    rw [Task.isClearing, beq_eq_false_iff_ne]
    exact hne.symm

theorem cleared {handle : SessionHandle} (h : RegistryInv registry tasks)
    (hold : tasks[index]? = some (.detach handle .clearing)) :
    RegistryInv (registry.modifyEntry handle.entry (·.setNotificationSender none))
      (tasks.set index (.detach handle .returned)) := by
  have hmem : Task.detach handle .clearing ∈ tasks := List.mem_of_getElem? hold
  obtain ⟨hlt, hnone⟩ : _ ∧ _ := h.tasksOk _ hmem
  have hattachment : ∀ e : SessionEntry, (e.setNotificationSender none).attachment = e.attachment := fun _ => rfl
  have hcurrent := fun entry' => current_modifyEntry registry hattachment handle.entry entry'
  refine h.modified hold hlt (fun _ => rfl) hattachment rfl ?_ ?_ ?_ ?_
  · intro task htask
    rcases List.mem_or_eq_of_mem_set htask with hin | rfl
    · refine taskOk_mono (h.tasksOk task hin) (fun _ _ hfound => hfound) (Nat.le_refl _)
        (fun entry' hnone => (hcurrent entry').trans hnone) ?_ fun _ => dead_modifyEntry hattachment
      -- No call is about to attach to the entry while its sender is to be cleared.
      intro entry' hattaches
      have hne : entry' ≠ handle.entry := by
        rintro rfl
        have hapart := h.apart handle.entry _ hmem (by simp [Task.isClearing]) task hin
        exact Bool.false_ne_true (hapart.symm.trans hattaches)
      rw [entries_modifyEntry_of_ne hne]
    · trivial
  · intro entry' hshut
    apply h.dead
    by_cases hne : entry' = handle.entry
    · rw [hne, entries_modifyEntry_self] at hshut
      rw [hne]
      exact hshut
    · rwa [entries_modifyEntry_of_ne hne] at hshut
  · intro entry'
    exact h.apart_set (by rintro ⟨⟩) (by rintro ⟨⟩) fun _ => rfl
  · intro entry' connectionId hconnected
    have hne : entry' ≠ handle.entry := by
      rintro rfl
      rw [hnone] at hconnected
      cases hconnected
    exact (h.sender entry' connectionId hconnected).set hold rfl (.inl rfl) (by rw [entries_modifyEntry_of_ne hne])

/-! ## Every step -/

theorem spawned (h : RegistryInv registry tasks) (hquiet : new.Quiet) (hattached : new.attached = none)
    (hok : TaskOk registry new) : RegistryInv registry (tasks ++ [new]) := by
  have hsplit : ∀ {task}, task ∈ tasks ++ [new] → task ∈ tasks ∨ task = new := by
    intro task htask
    rw [List.mem_append, List.mem_singleton] at htask
    exact htask
  refine ⟨?_, ?_, h.found, h.unborn, h.expiry, h.dead, ?_, ?_⟩
  · intro task htask
    rcases hsplit htask with hin | rfl
    · exact h.tasksOk task hin
    · exact hok
  · rw [List.countP_append, h.lock, List.countP_singleton, hquiet.free]
    rfl
  · intro entry task htask hclears task' htask'
    rcases hsplit htask with hin | rfl
    · rcases hsplit htask' with hin' | rfl
      · exact h.apart entry task hin hclears task' hin'
      · exact hquiet.notAttaching entry
    · exact absurd ((hquiet.notClearing entry).symm.trans hclears) Bool.false_ne_true
  · intro entry connectionId hconnected
    obtain ⟨hclear, task, htask, hpassed⟩ := h.sender entry connectionId hconnected
    refine ⟨?_, task, List.mem_append_left _ htask, hpassed⟩
    intro task' htask'
    rcases hsplit htask' with hin | rfl
    · exact hclear task' hin
    · exact hquiet.notClearing entry

theorem tick (h : RegistryInv registry tasks) (now : Nat) : RegistryInv { registry with now := now } tasks := by
  have hdead : ∀ entry, Dead registry entry → Dead { registry with now := now } entry :=
    fun entry hdead => ⟨hdead.born, hdead.dropped, hdead.detached⟩
  refine ⟨?_, h.lock, h.found, h.unborn, h.expiry, fun entry hshut => hdead entry (h.dead entry hshut), h.apart, ?_⟩
  · exact fun task htask => taskOk_mono (h.tasksOk task htask) (fun _ _ hfound => hfound) (Nat.le_refl _)
      (fun _ hnone => hnone) (fun _ _ => rfl) hdead
  · intro entry connectionId hconnected
    obtain ⟨hclear, hpassed⟩ := h.sender entry connectionId hconnected
    exact ⟨hclear, hpassed⟩

theorem effect (h : RegistryInv registry tasks) (hold : tasks[index]? = some old)
    (heffect : Effect registry old registry' new)
    (hguard : ∀ resume notifications connectionId sessionId entry,
      old = .attach resume notifications (.settingSender connectionId sessionId entry) →
      ∀ task ∈ tasks, task.isClearing entry = false) : RegistryInv registry' (tasks.set index new) := by
  cases heffect with
  | idle holdQuiet hnew hattached hok =>
      refine h.same hold rfl rfl rfl ?_ hnew.notClearing hnew.notAttaching (.inr hattached) hok
      rw [Tasks.countP_set_eq hold (hnew.free.trans holdQuiet.free.symm)]
      exact h.lock
  | created holdQuiet hattached hlocked => exact h.created hold hattached hlocked
  | locked holdQuiet hattached hlocked hholds hclearing hattaching hok =>
      refine h.same hold rfl rfl rfl ?_ hclearing hattaching (.inl hattached) hok
      obtain ⟨hlt, hget⟩ := List.getElem?_eq_some_iff.mp hold
      rw [List.countP_set hlt, hget, holdQuiet.free, hholds, h.lock, hlocked]
      rfl
  | checked hholds hattached hclearing hattaching hnew hok =>
      refine h.same hold rfl rfl rfl ?_ hclearing hattaching (.inl hattached) hok
      rw [Tasks.countP_set_eq hold (hnew.trans hholds.symm)]
      exact h.lock
  | dropped hholds hattached hfound hcurrent hnew hok =>
      exact h.dropped hold hholds hattached hfound hcurrent hnew hok
  | released hholds hattached hnew hok =>
      exact h.same hold rfl rfl rfl (h.lock_released hold hholds hnew.free) hnew.notClearing hnew.notAttaching
        (.inl hattached) (hok registry)
  | senderSet heq =>
      rw [heq] at hold
      exact h.senderSet hold (hguard _ _ _ _ _ heq)
  | attached heq =>
      rw [heq] at hold
      exact h.attached hold
  | shutDown holdQuiet hattached hdead hnew hok =>
      exact h.shutDown hold holdQuiet hattached (hdead (h.tasksOk old (List.mem_of_getElem? hold))) hnew hok
  | detached heq hentry =>
      rw [heq] at hold
      exact h.detached hold hentry
  | cleared heq =>
      rw [heq] at hold
      exact h.cleared hold

end RegistryInv

end Codrex.ExecServer
