import Codrex.ExecServer.Lemmas.Process

/-!
# The invariant of client and server together
-/

namespace Codrex.ExecServer

open Text

/-! ## The server only adds events -/

theorem moveEmitClosed_live (server : Server) (found : Surroundings) (phase : EmitClosed) :
    server.events.live <+: (moveEmitClosed server found phase).1.events.live := by
  cases phase with
  | locking =>
      rw [moveEmitClosed]
      split
      · exact List.prefix_rfl
      split
      · exact List.prefix_rfl
      · exact List.prefix_append ..
  | notifying notification =>
      rw [moveEmitClosed, ServerInv.notify_events]
  | returned => exact List.prefix_rfl

theorem moveStreamOutput_live (server : Server) (found : Surroundings) (stream : ExecOutputStream)
    (phase : StreamOutput) : server.events.live <+: (moveStreamOutput server found stream phase).1.events.live := by
  cases phase with
  | receiving =>
      rw [moveStreamOutput]
      split <;> exact List.prefix_rfl
  | locking chunk =>
      rw [moveStreamOutput]
      split
      · exact List.prefix_rfl
      · exact List.prefix_append ..
  | notifying notification =>
      rw [moveStreamOutput, ServerInv.notify_events]
  | finishing =>
      rw [moveStreamOutput]
      split <;> exact List.prefix_rfl
  | emitClosed phase => exact moveEmitClosed_live server found phase

theorem moveWatchExit_live (server : Server) (found : Surroundings) (phase : WatchExit) :
    server.events.live <+: (moveWatchExit server found phase).1.events.live := by
  cases phase with
  | waiting => exact List.prefix_rfl
  | locking exitCode =>
      rw [moveWatchExit]
      split
      · exact List.prefix_rfl
      · exact List.prefix_append ..
  | notifying notification =>
      cases notification with
      | none => exact List.prefix_rfl
      | some notification =>
          rw [moveWatchExit, ServerInv.notify_events]
  | emitClosed phase => exact moveEmitClosed_live server found phase

theorem moveCleanup_live (server : Server) (done : Bool) :
    (moveCleanup server done).events.live = server.events.live := by
  cases done with
  | true => rfl
  | false =>
      rw [moveCleanup]
      split
      · split <;> rfl
      · rfl

theorem serverStep_live (state : ServerState) (index : Nat) (found : Surroundings) :
    state.shared.events.live <+: (serverStep state index found).shared.events.live := by
  refine Tasks.step_keeps (fun after : ServerState => state.shared.events.live <+: after.shared.events.live)
    List.prefix_rfl nofun ?_
  rintro index found task - -
  cases task with
  | streamOutput stream phase => exact moveStreamOutput_live ..
  | watchExit phase => exact moveWatchExit_live ..
  | cleanup done => rw [moveProcess, moveCleanup_live]

/-! ## `Closed` is the last event -/

theorem ServerInv.closed_split {server : Server} {tasks : List ProcessTask} (h : ServerInv server tasks)
    (hclosed : server.events.live.any ExecProcessEvent.isClosed = true) :
    ∃ front seq, server.events.live = front ++ [.closed seq] ∧ front.countP ExecProcessEvent.isClosed = 0 := by
  obtain ⟨event, hin, hevent⟩ := List.any_eq_true.mp hclosed
  obtain ⟨i, hi⟩ := List.mem_iff_getElem?.mp hin
  have hlast := h.closedLast i event hi hevent
  have hsplit : server.events.live = server.events.live.take i ++ [event] := by
    have hall : server.events.live.take (i + 1) = server.events.live := List.take_of_length_le (by omega)
    rw [List.take_add_one, hi] at hall
    exact hall.symm
  cases event with
  | closed seq =>
      refine ⟨_, seq, hsplit, List.countP_eq_zero.mpr ?_⟩
      intro other hother hclosed'
      obtain ⟨j, hj, hget⟩ := List.mem_take_iff_getElem.mp hother
      have hlast' := h.closedLast j other (by rw [← hget]; exact List.getElem?_eq_getElem _) hclosed'
      omega
  | output chunk => cases hevent
  | exited seq exitCode => cases hevent
  | failed message => cases hevent

/-- When all tasks are through, the process has been closed. -/
theorem ServerInv.closed_of_returned {server : Server} {tasks : List ProcessTask} (h : ServerInv server tasks)
    (hreturned : ∀ task ∈ tasks, task.returned = true) :
    server.events.live.any ExecProcessEvent.isClosed = true ∧ tasks.countP ProcessTask.awaiting = 0 := by
  have hidle : ∀ task ∈ tasks, task.streaming = false ∧ task.awaiting = false ∧ task.willEmit = false := by
    intro task htask
    have hdone := hreturned task htask
    cases task with
    | cleanup done => exact ⟨rfl, rfl, rfl⟩
    | streamOutput stream phase =>
        cases phase with
        | emitClosed phase => cases phase <;> first | exact ⟨rfl, rfl, rfl⟩ | cases hdone
        | receiving => cases hdone
        | locking chunk => cases hdone
        | notifying notification => cases hdone
        | finishing => cases hdone
    | watchExit phase =>
        cases phase with
        | emitClosed phase => cases phase <;> first | exact ⟨rfl, rfl, rfl⟩ | cases hdone
        | waiting => cases hdone
        | locking exitCode => cases hdone
        | notifying notification => cases hdone
  have hstreaming : tasks.countP ProcessTask.streaming = 0 :=
    List.countP_eq_zero.mpr fun task htask => by simp [(hidle task htask).1]
  have hawaiting : tasks.countP ProcessTask.awaiting = 0 :=
    List.countP_eq_zero.mpr fun task htask => by simp [(hidle task htask).2.1]
  refine ⟨?_, hawaiting⟩
  by_contra hopen
  obtain ⟨task, htask, hwill⟩ := h.willClose (Bool.eq_false_iff.mpr hopen) hstreaming hawaiting
  rw [(hidle task htask).2.2] at hwill
  cases hwill

/-! ## The client -/

theorem event_seq (notification : Notification) : notification.event.seq = some notification.seq := by
  cases notification <;> rfl

theorem live_foldl_publish (log : ExecProcessEventLog) (events : List ExecProcessEvent) :
    (events.foldl ExecProcessEventLog.publish log).live = log.live ++ events := by
  induction events generalizing log with
  | nil => exact (List.append_nil _).symm
  | cons event events ih =>
      rw [List.foldl_cons, ih, live_publish, List.append_assoc]
      rfl

structure ExchangeInv (state : Exchange) : Prop where
  server : ServerInv state.server.shared state.server.tasks
  released : Reorder.Released state.emitted state.receivedSeqs state.client.session.orderedEvents
  published : state.published = state.emitted.take state.client.session.orderedEvents.last
  route : state.client.routed = false → ∃ seq, .closed seq ∈ state.published

namespace ExchangeInv

variable {state : Exchange}

theorem start (tty : Bool) : ExchangeInv (.start tty) :=
  ⟨.start tty, Reorder.released_empty _, rfl, nofun⟩

theorem serve (h : ExchangeInv state) (index : Nat) (found : Surroundings) :
    ExchangeInv (exchangeStep state (.serve index found)) := by
  obtain ⟨more, hmore⟩ := serverStep_live state.server index found
  have hemitted : (exchangeStep state (.serve index found)).emitted = state.emitted ++ more := hmore.symm
  refine ⟨h.server.step index found, ?_, ?_, h.route⟩
  · rw [hemitted]
    exact h.released.append
  · rw [hemitted]
    exact h.published.trans (List.take_append_of_le_length h.released.last).symm

/-- The place of a notification among the events. -/
theorem getElem?_of_sent (h : ExchangeInv state) {notification : Notification}
    (hsent : notification ∈ state.server.shared.sent) :
    0 < notification.seq ∧ state.emitted[notification.seq - 1]? = some notification.event := by
  obtain ⟨i, hi⟩ := List.mem_iff_getElem?.mp (h.server.sent notification hsent)
  have hseq := h.server.numbered i notification.event hi
  rw [event_seq] at hseq
  have hseq : notification.seq = i + 1 := Option.some.inj hseq
  rw [hseq]
  exact ⟨Nat.succ_pos i, hi⟩

/-- Once the route is gone, all events have been published. -/
theorem last_of_unrouted (h : ExchangeInv state) (hrouted : state.client.routed = false) :
    state.client.session.orderedEvents.last = state.emitted.length := by
  obtain ⟨seq, hclosed⟩ := h.route hrouted
  rw [h.published] at hclosed
  obtain ⟨i, hi, hget⟩ := List.mem_take_iff_getElem.mp hclosed
  have hget : state.emitted[i]? = some (.closed seq) := by
    rw [← hget]
    exact List.getElem?_eq_getElem _
  have hlast : i + 1 = state.emitted.length := h.server.closedLast i _ hget rfl
  have hle := h.released.last
  omega

theorem deliver (h : ExchangeInv state) (index : Nat) : ExchangeInv (exchangeStep state (.deliver index)) := by
  rw [exchangeStep]
  split
  · exact h
  rename_i notification hnotification
  obtain ⟨hpos, hget⟩ := h.getElem?_of_sent (List.mem_of_getElem? hnotification)
  cases hrouted : state.client.routed with
  | false =>
      have hclient : handleServerNotification state.client notification = state.client := by
        rw [handleServerNotification, hrouted]
        rfl
      rw [hclient]
      refine ⟨h.server, h.released.again hpos ?_, h.published, h.route⟩
      have hlast := h.last_of_unrouted hrouted
      obtain ⟨hlt, -⟩ := List.getElem?_eq_some_iff.mp hget
      omega
  | true =>
      obtain ⟨hreleased, htake⟩ := h.released.offer hpos hget
      generalize hoffer : state.client.session.orderedEvents.offer notification.seq notification.event = offered
        at hreleased htake
      obtain ⟨buffer, ready⟩ := offered
      have hclient : handleServerNotification state.client notification =
          ⟨{ state.client.session.noteChange notification.seq with
              orderedEvents := buffer
              events := ready.foldl ExecProcessEventLog.publish state.client.session.events },
            !ready.any ExecProcessEvent.isClosed⟩ := by
        rw [handleServerNotification, hrouted, if_pos rfl, SessionState.publishOrderedEvent, event_seq]
        dsimp only [SessionState.noteChange]
        rw [hoffer]
      rw [hclient]
      have hsequenced : ready.filter (fun event => event.seq.isSome) = ready := by
        rw [List.filter_eq_self]
        intro event hready
        have hin : event ∈ state.emitted.take buffer.last := by
          rw [htake]
          exact List.mem_append_right _ hready
        obtain ⟨i, hi⟩ := List.mem_iff_getElem?.mp (List.mem_of_mem_take hin)
        rw [h.server.numbered i event hi]
        rfl
      have hpublished : ((ready.foldl ExecProcessEventLog.publish state.client.session.events).live.filter
          fun event => event.seq.isSome) = state.published ++ ready := by
        rw [live_foldl_publish, List.filter_append, hsequenced]
        rfl
      refine ⟨h.server, hreleased, ?_, ?_⟩
      · exact (hpublished.trans (by rw [h.published])).trans htake.symm
      · intro hgone
        have hany : ready.any ExecProcessEvent.isClosed = true := Bool.not_eq_false' .. ▸ hgone
        obtain ⟨event, hready, hclosed⟩ := List.any_eq_true.mp hany
        cases event with
        | closed seq =>
            refine ⟨seq, ?_⟩
            rw [Exchange.published]
            exact hpublished ▸ List.mem_append_right _ hready
        | output chunk => cases hclosed
        | exited seq exitCode => cases hclosed
        | failed message => cases hclosed

theorem step (state : Exchange) (action : ExchangeAction) (h : ExchangeInv state) :
    ExchangeInv (exchangeStep state action) := by
  cases action with
  | serve index found => exact h.serve index found
  | deliver index => exact h.deliver index

theorem inOrder (h : ExchangeInv state) : EventsInOrder state where
  numbered := h.server.numbered
  upToGap := ⟨_, h.released.gapFree, h.released.last, h.published⟩
  complete := by
    rintro ⟨hreturned, harrived⟩
    obtain ⟨hclosed, hawaiting⟩ := h.server.closed_of_returned hreturned
    obtain ⟨front, seq, hsplit, hfront⟩ := h.server.closed_split hclosed
    have hexited := h.server.exited
    refine ⟨?_, ?_, ?_, seq, ?_⟩
    · rw [h.published, h.released.complete harrived]
      exact List.take_length
    · rw [Exchange.emitted]
      omega
    · rw [Exchange.emitted, hsplit, List.countP_append, hfront]
      rfl
    · rw [Exchange.emitted, hsplit]
      exact List.getLast?_concat
  route := h.route

end ExchangeInv

end Codrex.ExecServer
