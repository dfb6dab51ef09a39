import Codrex.ExecServer.Client

/-!
# The invariant of a process
-/

namespace Codrex.ExecServer

open Text

/-! ## What is read off a task -/

namespace ProcessTask

/-- The output of the stream has still to be counted as finished. -/
def streaming : ProcessTask → Bool
  | streamOutput _ (.emitClosed _) => false
  | streamOutput _ _ => true
  | _ => false

/-- The exit code has still to be noted. -/
def awaiting : ProcessTask → Bool
  | watchExit .waiting => true
  | watchExit (.locking _) => true
  | _ => false

/-- The task has still to look whether the process is to be closed. -/
def willEmit : ProcessTask → Bool
  | streamOutput _ (.emitClosed .locking) => true
  | watchExit (.notifying _) => true
  | watchExit (.emitClosed .locking) => true
  | _ => false

/-- What the task is about to send. -/
def carried : ProcessTask → Option Notification
  | streamOutput _ (.notifying notification) => some notification
  | streamOutput _ (.emitClosed (.notifying notification)) => some notification
  | watchExit (.notifying notification) => notification
  | watchExit (.emitClosed (.notifying notification)) => some notification
  | _ => none

end ProcessTask

theorem live_publish (log : ExecProcessEventLog) (event : ExecProcessEvent) :
    (log.publish event).live = log.live ++ [event] := rfl

/-- The entry of a process agrees with its events and its tasks. -/
structure Running (process : RunningProcess) (live : List ExecProcessEvent) (tasks : List ProcessTask) : Prop where
  nextSeq : process.nextSeq = live.length + 1
  closed : process.closed = live.any ExecProcessEvent.isClosed
  openStreams : process.openStreams = tasks.countP ProcessTask.streaming
  exitCode : process.exitCode = none ↔ tasks.countP ProcessTask.awaiting ≠ 0

structure ServerInv (server : Server) (tasks : List ProcessTask) : Prop where
  numbered : ∀ (i : Nat) event, server.events.live[i]? = some event → event.seq = some (i + 1)
  carried : ∀ task ∈ tasks, ∀ notification, task.carried = some notification →
    notification.event ∈ server.events.live
  sent : ∀ notification ∈ server.sent, notification.event ∈ server.events.live
  running : ∀ process, server.process = some process → Running process server.events.live tasks
  gone : server.process = none → server.events.live.any ExecProcessEvent.isClosed = true
  exited : server.events.live.countP ExecProcessEvent.isExited + tasks.countP ProcessTask.awaiting = 1
  closedLast : ∀ (i : Nat) event, server.events.live[i]? = some event → event.isClosed = true →
    i + 1 = server.events.live.length
  quiet : server.events.live.any ExecProcessEvent.isClosed = true →
    tasks.countP ProcessTask.streaming = 0 ∧ tasks.countP ProcessTask.awaiting = 0
  willClose : server.events.live.any ExecProcessEvent.isClosed = false → tasks.countP ProcessTask.streaming = 0 →
    tasks.countP ProcessTask.awaiting = 0 → ∃ task ∈ tasks, task.willEmit = true

namespace ServerInv

variable {server server' : Server} {tasks : List ProcessTask} {index : Nat} {old new : ProcessTask}

theorem start (tty : Bool) : ServerInv (startProcess tty).shared (startProcess tty).tasks where
  numbered := nofun
  carried := by
    intro task htask notification hcarried
    simp only [startProcess, List.mem_cons, List.not_mem_nil, or_false] at htask
    rcases htask with rfl | rfl | rfl <;> cases hcarried
  sent := nofun
  running := by
    rintro process ⟨⟩
    exact ⟨rfl, rfl, rfl, by simp [startProcess, ProcessTask.awaiting, RunningProcess.new]⟩
  gone := nofun
  exited := rfl
  closedLast := nofun
  quiet := nofun
  willClose := nofun

theorem spawned (h : ServerInv server tasks) : ServerInv server (tasks ++ [.cleanup false]) := by
  have hcount : ∀ p : ProcessTask → Bool, p (.cleanup false) = false →
      (tasks ++ [ProcessTask.cleanup false]).countP p = tasks.countP p := by
    intro p hp
    simp [List.countP_append, hp]
  have hstreaming := hcount ProcessTask.streaming rfl
  have hawaiting := hcount ProcessTask.awaiting rfl
  refine ⟨h.numbered, ?_, h.sent, ?_, h.gone, ?_, h.closedLast, ?_, ?_⟩
  · intro task htask notification hcarried
    rw [List.mem_append, List.mem_singleton] at htask
    rcases htask with hin | rfl
    · exact h.carried task hin notification hcarried
    · cases hcarried
  · intro process hprocess
    obtain ⟨hnext, hclosed, hopen, hexit⟩ := h.running process hprocess
    exact ⟨hnext, hclosed, hstreaming ▸ hopen, hawaiting ▸ hexit⟩
  · rw [hawaiting]
    exact h.exited
  · rw [hstreaming, hawaiting]
    exact h.quiet
  · rw [hstreaming, hawaiting]
    intro hopen hnone hnone'
    obtain ⟨task, htask, hwill⟩ := h.willClose hopen hnone hnone'
    exact ⟨task, List.mem_append_left _ htask, hwill⟩

theorem streaming_pos (hold : tasks[index]? = some old) (h : old.streaming = true) :
    tasks.countP ProcessTask.streaming ≠ 0 :=
  Nat.ne_of_gt (List.countP_pos_iff.mpr ⟨old, List.mem_of_getElem? hold, h⟩)

theorem awaiting_pos (hold : tasks[index]? = some old) (h : old.awaiting = true) :
    tasks.countP ProcessTask.awaiting ≠ 0 :=
  Nat.ne_of_gt (List.countP_pos_iff.mpr ⟨old, List.mem_of_getElem? hold, h⟩)

/-- As long as a stream goes on, the process is there. -/
theorem process_of_streaming (h : ServerInv server tasks) (hold : tasks[index]? = some old)
    (hstreaming : old.streaming = true) : ∃ process, server.process = some process := by
  cases hprocess : server.process with
  | some process => exact ⟨process, rfl⟩
  | none => exact absurd (h.quiet (h.gone hprocess)).1 (streaming_pos hold hstreaming)

theorem process_of_awaiting (h : ServerInv server tasks) (hold : tasks[index]? = some old)
    (hawaiting : old.awaiting = true) : ∃ process, server.process = some process := by
  cases hprocess : server.process with
  | some process => exact ⟨process, rfl⟩
  | none => exact absurd (h.quiet (h.gone hprocess)).2 (awaiting_pos hold hawaiting)

/-! ## Moves without an event -/

theorem steady (h : ServerInv server tasks) (hold : tasks[index]? = some old) (hevents : server'.events = server.events)
    (hsent : ∀ notification ∈ server'.sent, notification ∈ server.sent ∨ old.carried = some notification)
    (hcarried : new.carried = none ∨ new.carried = old.carried) (hawaiting : new.awaiting = old.awaiting)
    (hstreaming : new.streaming = true → old.streaming = true)
    (hrunning : ∀ process, server'.process = some process →
      Running process server.events.live (tasks.set index new))
    (hgone : server'.process = none → server.events.live.any ExecProcessEvent.isClosed = true)
    (hwill : server.events.live.any ExecProcessEvent.isClosed = false →
      (tasks.set index new).countP ProcessTask.streaming = 0 →
      (tasks.set index new).countP ProcessTask.awaiting = 0 → ∃ task ∈ tasks.set index new, task.willEmit = true) :
    ServerInv server' (tasks.set index new) := by
  have hmem := List.mem_of_getElem? hold
  have hcount := Tasks.countP_set_eq hold hawaiting
  refine ⟨?_, ?_, ?_, ?_, ?_, ?_, ?_, ?_, ?_⟩
  · rw [hevents]
    exact h.numbered
  · intro task htask notification hcarried'
    rw [hevents]
    rcases List.mem_or_eq_of_mem_set htask with hin | rfl
    · exact h.carried task hin notification hcarried'
    · rcases hcarried with hnone | hsame
      · rw [hnone] at hcarried'
        cases hcarried'
      · exact h.carried old hmem notification (hsame.symm.trans hcarried')
  · intro notification hin
    rw [hevents]
    rcases hsent notification hin with hin | hcarried'
    · exact h.sent notification hin
    · exact h.carried old hmem notification hcarried'
  · rw [hevents]
    exact hrunning
  · rw [hevents]
    exact hgone
  · rw [hevents, hcount]
    exact h.exited
  · rw [hevents]
    exact h.closedLast
  · rw [hevents]
    intro hclosed
    obtain ⟨hnone, hnone'⟩ := h.quiet hclosed
    refine ⟨?_, hcount.trans hnone'⟩
    have hold' : old.streaming = false := Bool.eq_false_iff.mpr fun hs => streaming_pos hold hs hnone
    have hnew : new.streaming = false := Bool.eq_false_iff.mpr fun hs => by
      rw [hstreaming hs] at hold'
      cases hold'
    exact (Tasks.countP_set_eq hold (hnew.trans hold'.symm)).trans hnone
  · rw [hevents]
    exact hwill

/-- A move that leaves the process, and what the task is counted for. -/
theorem kept (h : ServerInv server tasks) (hold : tasks[index]? = some old) (hprocess : server'.process = server.process)
    (hevents : server'.events = server.events)
    (hsent : ∀ notification ∈ server'.sent, notification ∈ server.sent ∨ old.carried = some notification)
    (hcarried : new.carried = none ∨ new.carried = old.carried) (hawaiting : new.awaiting = old.awaiting)
    (hstreaming : new.streaming = old.streaming) (hwill : old.willEmit = true → new.willEmit = true) :
    ServerInv server' (tasks.set index new) := by
  have hcount := Tasks.countP_set_eq hold hawaiting
  have hcount' := Tasks.countP_set_eq hold hstreaming
  refine h.steady hold hevents hsent hcarried hawaiting (fun hs => hstreaming ▸ hs) ?_ ?_ ?_
  · intro process hrunning
    rw [hprocess] at hrunning
    obtain ⟨hnext, hclosed, hopen, hexit⟩ := h.running process hrunning
    exact ⟨hnext, hclosed, hopen.trans hcount'.symm, hcount ▸ hexit⟩
  · rw [hprocess]
    exact h.gone
  · rw [hcount, hcount']
    intro hopen hnone hnone'
    obtain ⟨task, htask, hwill'⟩ := h.willClose hopen hnone hnone'
    by_cases heq : task = old
    · exact ⟨new, Tasks.new_mem_set hold, hwill (heq ▸ hwill')⟩
    · exact ⟨task, Tasks.mem_set_of_ne hold htask heq, hwill'⟩

/-! ## Moves with an event -/

theorem appended {process process' : RunningProcess} {event : ExecProcessEvent} (h : ServerInv server tasks)
    (hprocess : server.process = some process)
    (hopen : server.events.live.any ExecProcessEvent.isClosed = false) (hseq : event.seq = some process.nextSeq)
    (hcarried : ∀ notification, new.carried = some notification → notification.event = event)
    (hrunning : Running process' (server.events.live ++ [event]) (tasks.set index new))
    (hexited : (if event.isExited = true then 1 else 0) + (tasks.set index new).countP ProcessTask.awaiting =
      tasks.countP ProcessTask.awaiting)
    (hquiet : event.isClosed = true → (tasks.set index new).countP ProcessTask.streaming = 0 ∧
      (tasks.set index new).countP ProcessTask.awaiting = 0)
    (hwill : event.isClosed = false → (tasks.set index new).countP ProcessTask.streaming = 0 →
      (tasks.set index new).countP ProcessTask.awaiting = 0 → ∃ task ∈ tasks.set index new, task.willEmit = true) :
    ServerInv { server with process := some process', events := server.events.publish event }
      (tasks.set index new) := by
  have hany : (server.events.live ++ [event]).any ExecProcessEvent.isClosed = event.isClosed := by
    rw [List.any_append, hopen]
    simp
  have hnext := (h.running process hprocess).nextSeq
  refine ⟨?_, ?_, ?_, ?_, nofun, ?_, ?_, ?_, ?_⟩
  · intro i event' hget
    rw [live_publish, List.getElem?_append] at hget
    split at hget
    · exact h.numbered i event' hget
    · obtain ⟨hlt, heq⟩ := List.getElem?_eq_some_iff.mp hget
      rw [List.length_singleton] at hlt
      obtain rfl : event = event' := by simpa using heq
      rw [hseq, hnext]
      congr 1
      omega
  · intro task htask notification hcarried'
    rw [live_publish]
    rcases List.mem_or_eq_of_mem_set htask with hin | rfl
    · exact List.mem_append_left _ (h.carried task hin notification hcarried')
    · rw [hcarried notification hcarried']
      exact List.mem_append_right _ List.mem_cons_self
  · exact fun notification hin => List.mem_append_left _ (h.sent notification hin)
  · rintro process ⟨⟩
    exact hrunning
  · have hbefore := h.exited
    rw [live_publish, List.countP_append, List.countP_singleton]
    omega
  · intro i event' hget hclosed
    rw [live_publish, List.getElem?_append] at hget
    split at hget
    · have hnot := List.any_eq_false.mp hopen event' (List.mem_of_getElem? hget)
      exact absurd hclosed hnot
    · obtain ⟨hlt, -⟩ := List.getElem?_eq_some_iff.mp hget
      rw [List.length_singleton] at hlt
      rw [live_publish, List.length_append, List.length_singleton]
      omega
  · rw [live_publish, hany]
    exact hquiet
  · rw [live_publish, hany]
    exact hwill

/-- A task that has come to `maybe_emit_closed`. -/
structure Emits (wrap : EmitClosed → ProcessTask) : Prop where
  streaming : ∀ phase, (wrap phase).streaming = false
  awaiting : ∀ phase, (wrap phase).awaiting = false
  willEmit : ∀ phase, (wrap phase).willEmit = true ↔ phase = .locking
  carried : ∀ phase notification, (wrap phase).carried = some notification ↔ phase = .notifying notification

theorem Emits.carried_of {wrap : EmitClosed → ProcessTask} (h : Emits wrap) {phase : EmitClosed}
    (hphase : ∀ notification, phase ≠ .notifying notification) : (wrap phase).carried = none := by
  cases hcarried : (wrap phase).carried with
  | none => rfl
  | some notification => exact absurd ((h.carried phase notification).mp hcarried) (hphase notification)

theorem mem_notify {connected : Bool} {notification sent : Notification}
    (h : sent ∈ (server.notify connected notification).sent) : sent ∈ server.sent ∨ sent = notification := by
  rw [Server.notify] at h
  split at h
  · rw [List.mem_append, List.mem_singleton] at h
    exact h
  · exact .inl h

theorem notify_process (server : Server) (connected : Bool) (notification : Notification) :
    (server.notify connected notification).process = server.process := by
  rw [Server.notify]
  split <;> rfl

theorem notify_events (server : Server) (connected : Bool) (notification : Notification) :
    (server.notify connected notification).events = server.events := by
  rw [Server.notify]
  split <;> rfl

/-- The task sends what it carries. -/
theorem notified {notification : Notification} {connected : Bool} (h : ServerInv server tasks)
    (hold : tasks[index]? = some old) (hcarried : old.carried = some notification) (hnew : new.carried = none)
    (hawaiting : new.awaiting = old.awaiting) (hstreaming : new.streaming = old.streaming)
    (hwill : old.willEmit = true → new.willEmit = true) :
    ServerInv (server.notify connected notification) (tasks.set index new) := by
  refine h.kept hold (notify_process ..) (notify_events ..) ?_ (.inl hnew) hawaiting hstreaming hwill
  intro sent hsent
  rcases mem_notify hsent with hin | rfl
  · exact .inl hin
  · exact .inr hcarried

theorem emitClosed {wrap : EmitClosed → ProcessTask} (hwrap : Emits wrap) {phase : EmitClosed}
    (h : ServerInv server tasks) (hold : tasks[index]? = some (wrap phase)) (found : Surroundings) :
    ServerInv (moveEmitClosed server found phase).1
      (tasks.set index (wrap (moveEmitClosed server found phase).2.1) ++ (moveEmitClosed server found phase).2.2) := by
  have hawaiting : ∀ phase', (wrap phase').awaiting = (wrap phase).awaiting :=
    fun phase' => (hwrap.awaiting phase').trans (hwrap.awaiting phase).symm
  have hstreaming : ∀ phase', (wrap phase').streaming = (wrap phase).streaming :=
    fun phase' => (hwrap.streaming phase').trans (hwrap.streaming phase).symm
  have hcount := fun phase' => Tasks.countP_set_eq hold (hawaiting phase')
  have hcount' := fun phase' => Tasks.countP_set_eq hold (hstreaming phase')
  have hnone : (wrap .returned).carried = none := hwrap.carried_of nofun
  -- Whoever finds that it is not for him to close leaves the last look to another, if the process is open at all.
  have hleft : (∀ process, server.process = some process →
        process.closed = true ∨ process.openStreams ≠ 0 ∨ process.exitCode.isNone = true) →
      ServerInv server (tasks.set index (wrap .returned) ++ []) := by
    intro hleave
    rw [List.append_nil]
    refine h.steady hold rfl (fun _ => .inl) (.inl hnone) (hawaiting _) (fun hs => hstreaming .returned ▸ hs) ?_ h.gone ?_
    · intro process hprocess
      obtain ⟨hnext, hclosed, hopen, hexit⟩ := h.running process hprocess
      exact ⟨hnext, hclosed, hopen.trans (hcount' _).symm, hcount .returned ▸ hexit⟩
    · rw [hcount, hcount']
      intro hopen hstreams hawaits
      cases hprocess : server.process with
      | none =>
          have hclosed := h.gone hprocess
          rw [hopen] at hclosed
          cases hclosed
      | some process =>
          have hrunning := h.running process hprocess
          rcases hleave process hprocess with hclosed | hstreams' | hexit
          · rw [hrunning.closed, hopen] at hclosed
            cases hclosed
          · exact absurd (hrunning.openStreams.trans hstreams) hstreams'
          · exact absurd hawaits (hrunning.exitCode.mp (Option.isNone_iff_eq_none.mp hexit))
  cases phase with
  | returned =>
      rw [moveEmitClosed, List.append_nil]
      exact h.kept hold rfl rfl (fun _ => .inl) (.inr rfl) rfl rfl id
  | notifying notification =>
      rw [moveEmitClosed, List.append_nil]
      refine h.notified hold ((hwrap.carried _ _).mpr rfl) hnone (hawaiting _) (hstreaming _) ?_
      intro hwill
      cases (hwrap.willEmit _).mp hwill
  | locking =>
      rw [moveEmitClosed]
      split
      · rename_i hprocess
        refine hleft ?_
        intro process hprocess'
        rw [hprocess] at hprocess'
        cases hprocess'
      rename_i process hprocess
      split
      · rename_i hleave
        refine hleft ?_
        intro process' hprocess'
        obtain rfl := Option.some.inj (hprocess.symm.trans hprocess')
        exact hleave
      · rename_i hclose
        rw [not_or, not_or, not_not] at hclose
        obtain ⟨hclosed, hstreams, hexit⟩ := hclose
        have hrunning := h.running process hprocess
        have hopen : server.events.live.any ExecProcessEvent.isClosed = false := by
          rw [← hrunning.closed]
          exact Bool.eq_false_iff.mpr hclosed
        have hstreams : tasks.countP ProcessTask.streaming = 0 := hrunning.openStreams.symm.trans hstreams
        have hawaits : tasks.countP ProcessTask.awaiting = 0 := by
          by_contra hne
          rw [hrunning.exitCode.mpr hne] at hexit
          exact hexit rfl
        apply spawned
        refine h.appended hprocess hopen rfl ?_ ?_ ?_ ?_ nofun
        · intro notification hcarried
          cases (hwrap.carried _ _).mp hcarried
          rfl
        · refine ⟨?_, ?_, hrunning.openStreams.trans (hcount' _).symm, ?_⟩
          · rw [hrunning.nextSeq, List.length_append, List.length_singleton]
          · rw [List.any_append]
            simp [ExecProcessEvent.isClosed]
          · rw [hcount]
            exact hrunning.exitCode
        · rw [hcount]
          simp [ExecProcessEvent.isExited]
        · exact fun _ => ⟨(hcount' _).trans hstreams, (hcount _).trans hawaits⟩

/-! ## Every step -/

theorem emits_streamOutput (stream : ExecOutputStream) :
    Emits fun phase => .streamOutput stream (.emitClosed phase) where
  streaming := fun _ => rfl
  awaiting := fun _ => rfl
  willEmit := fun phase => by cases phase <;> simp [ProcessTask.willEmit]
  carried := fun phase notification => by cases phase <;> simp [ProcessTask.carried]

theorem emits_watchExit : Emits fun phase => .watchExit (.emitClosed phase) where
  streaming := fun _ => rfl
  awaiting := fun _ => rfl
  willEmit := fun phase => by cases phase <;> simp [ProcessTask.willEmit]
  carried := fun phase notification => by cases phase <;> simp [ProcessTask.carried]

theorem open_of_streaming (h : ServerInv server tasks) (hold : tasks[index]? = some old)
    (hstreaming : old.streaming = true) : server.events.live.any ExecProcessEvent.isClosed = false :=
  Bool.eq_false_iff.mpr fun hclosed => streaming_pos hold hstreaming (h.quiet hclosed).1

theorem open_of_awaiting (h : ServerInv server tasks) (hold : tasks[index]? = some old)
    (hawaiting : old.awaiting = true) : server.events.live.any ExecProcessEvent.isClosed = false :=
  Bool.eq_false_iff.mpr fun hclosed => awaiting_pos hold hawaiting (h.quiet hclosed).2

theorem streamOutput {stream : ExecOutputStream} {phase : StreamOutput} (h : ServerInv server tasks)
    (hold : tasks[index]? = some (.streamOutput stream phase)) (found : Surroundings) :
    ServerInv (moveStreamOutput server found stream phase).1
      (tasks.set index (.streamOutput stream (moveStreamOutput server found stream phase).2.1) ++
        (moveStreamOutput server found stream phase).2.2) := by
  cases phase with
  | receiving =>
      rw [moveStreamOutput]
      split
      · rw [List.append_nil]
        exact h.kept hold rfl rfl (fun _ => .inl) (.inl rfl) rfl rfl nofun
      · rw [List.append_nil]
        exact h.kept hold rfl rfl (fun _ => .inl) (.inl rfl) rfl rfl nofun
  | notifying notification =>
      rw [moveStreamOutput, List.append_nil]
      exact h.notified hold rfl rfl rfl rfl nofun
  | emitClosed phase => exact h.emitClosed (emits_streamOutput stream) hold found
  | locking chunk =>
      obtain ⟨process, hprocess⟩ := h.process_of_streaming hold rfl
      have hopen := h.open_of_streaming hold rfl
      have hrunning := h.running process hprocess
      have hawaiting : (tasks.set index (.streamOutput stream (.notifying (.outputDelta process.nextSeq stream chunk)))
          ).countP ProcessTask.awaiting = tasks.countP ProcessTask.awaiting := Tasks.countP_set_eq hold rfl
      have hstreaming : (tasks.set index (.streamOutput stream (.notifying (.outputDelta process.nextSeq stream chunk)))
          ).countP ProcessTask.streaming = tasks.countP ProcessTask.streaming := Tasks.countP_set_eq hold rfl
      simp only [moveStreamOutput, hprocess, List.append_nil]
      refine h.appended hprocess hopen rfl ?_ ?_ ?_ nofun ?_
      · rintro notification ⟨⟩
        rfl
      · refine ⟨?_, ?_, hrunning.openStreams.trans hstreaming.symm, hawaiting ▸ hrunning.exitCode⟩
        · rw [List.length_append, List.length_singleton, ← hrunning.nextSeq]
          rfl
        · rw [List.any_append, ← hrunning.closed]
          exact (Bool.or_false _).symm
      · rw [hawaiting]
        exact Nat.zero_add _
      · rw [hstreaming]
        exact fun _ hnone => absurd hnone (streaming_pos hold rfl)
  | finishing =>
      obtain ⟨process, hprocess⟩ := h.process_of_streaming hold rfl
      have hrunning := h.running process hprocess
      have hawaiting : (tasks.set index (.streamOutput stream (.emitClosed .locking))).countP ProcessTask.awaiting =
          tasks.countP ProcessTask.awaiting := Tasks.countP_set_eq hold rfl
      have hstreaming : (tasks.set index (.streamOutput stream (.emitClosed .locking))).countP ProcessTask.streaming + 1 =
          tasks.countP ProcessTask.streaming := Tasks.countP_set_add hold
      simp only [moveStreamOutput, hprocess, List.append_nil]
      refine h.steady hold rfl (fun _ => .inl) (.inl rfl) rfl (fun _ => rfl) ?_ nofun ?_
      · rintro _ ⟨⟩
        refine ⟨hrunning.nextSeq, hrunning.closed, ?_, hawaiting ▸ hrunning.exitCode⟩
        have hopen := hrunning.openStreams
        dsimp only
        omega
      · exact fun _ _ _ => ⟨_, Tasks.new_mem_set hold, rfl⟩

theorem watchExit {phase : WatchExit} (h : ServerInv server tasks) (hold : tasks[index]? = some (.watchExit phase))
    (found : Surroundings) :
    ServerInv (moveWatchExit server found phase).1
      (tasks.set index (.watchExit (moveWatchExit server found phase).2.1) ++
        (moveWatchExit server found phase).2.2) := by
  cases phase with
  | waiting =>
      rw [moveWatchExit, List.append_nil]
      exact h.kept hold rfl rfl (fun _ => .inl) (.inl rfl) rfl rfl nofun
  | notifying notification =>
      cases notification with
      | none =>
          rw [moveWatchExit, List.append_nil]
          exact h.kept hold rfl rfl (fun _ => .inl) (.inl rfl) rfl rfl fun _ => rfl
      | some notification =>
          rw [moveWatchExit, List.append_nil]
          exact h.notified hold rfl rfl rfl rfl fun _ => rfl
  | emitClosed phase => exact h.emitClosed emits_watchExit hold found
  | locking exitCode =>
      obtain ⟨process, hprocess⟩ := h.process_of_awaiting hold rfl
      have hopen := h.open_of_awaiting hold rfl
      have hrunning := h.running process hprocess
      have hawaiting : (tasks.set index (.watchExit (.notifying (some (.exited process.nextSeq exitCode))))
          ).countP ProcessTask.awaiting + 1 = tasks.countP ProcessTask.awaiting := Tasks.countP_set_add hold
      have hstreaming : (tasks.set index (.watchExit (.notifying (some (.exited process.nextSeq exitCode))))
          ).countP ProcessTask.streaming = tasks.countP ProcessTask.streaming := Tasks.countP_set_eq hold rfl
      simp only [moveWatchExit, hprocess, List.append_nil]
      refine h.appended hprocess hopen rfl ?_ ?_ ?_ nofun ?_
      · rintro notification ⟨⟩
        rfl
      · refine ⟨?_, ?_, hrunning.openStreams.trans hstreaming.symm, ?_⟩
        · rw [List.length_append, List.length_singleton, ← hrunning.nextSeq]
        · rw [List.any_append, ← hrunning.closed]
          exact (Bool.or_false _).symm
        · have hone := h.exited
          refine ⟨nofun, fun hne => absurd ?_ hne⟩
          omega
      · rw [← hawaiting]
        exact Nat.add_comm ..
      · exact fun _ _ _ => ⟨_, Tasks.new_mem_set hold, rfl⟩

theorem cleanup {done : Bool} (h : ServerInv server tasks) (hold : tasks[index]? = some (.cleanup done)) :
    ServerInv (moveCleanup server done) (tasks.set index (.cleanup true)) := by
  have hkept : ServerInv server (tasks.set index (.cleanup true)) :=
    h.kept hold rfl rfl (fun _ => .inl) (.inl rfl) rfl rfl nofun
  cases done with
  | true => exact hkept
  | false =>
      rw [moveCleanup]
      split
      · rename_i process hprocess
        split
        · rename_i hclosed
          refine ⟨hkept.numbered, hkept.carried, hkept.sent, nofun, ?_, hkept.exited, hkept.closedLast, hkept.quiet,
            hkept.willClose⟩
          intro _
          rw [← (h.running process hprocess).closed]
          exact hclosed
        · exact hkept
      · exact hkept

theorem step {state : ServerState} (h : ServerInv state.shared state.tasks) (index : Nat) (found : Surroundings) :
    ServerInv (serverStep state index found).shared (serverStep state index found).tasks := by
  refine Tasks.step_keeps (fun state : ServerState => ServerInv state.shared state.tasks) h nofun ?_
  rintro index found task ⟨⟩ htask
  cases task with
  | streamOutput stream phase => exact h.streamOutput htask found
  | watchExit phase => exact h.watchExit htask found
  | cleanup done =>
      rw [moveProcess, List.append_nil]
      exact h.cleanup htask

end ServerInv

end Codrex.ExecServer
