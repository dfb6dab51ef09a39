import Codrex.RemoteControl.Lemmas.ClientTracker

/-!
# Which connections a step closes
-/

namespace Codrex.RemoteControl

variable {tracker : ClientTracker} {key : Key} {id : Nat}

/-! ## Tasks -/

/-- Each connection has one task at most. -/
structure OwnTasks (tracker : ClientTracker) : Prop where
  nodup : (tracker.joinSet.map (·.connectionId)).Nodup
  lt : ∀ task ∈ tracker.joinSet, task.connectionId < tracker.nextConnectionId

theorem joinSet_closeClient (tracker : ClientTracker) (key : Key) :
    (tracker.closeClient key).joinSet = tracker.joinSet ∧
      (tracker.closeClient key).nextConnectionId = tracker.nextConnectionId := by
  unfold ClientTracker.closeClient
  split
  · exact ⟨rfl, rfl⟩
  · exact ⟨rfl, rfl⟩

theorem OwnTasks.of_eq {next : ClientTracker} (h : OwnTasks tracker) (hjoin : next.joinSet = tracker.joinSet)
    (hnext : next.nextConnectionId = tracker.nextConnectionId) : OwnTasks next := by
  refine ⟨?_, ?_⟩
  · rw [hjoin]
    exact h.nodup
  · rw [hjoin, hnext]
    exact h.lt

theorem OwnTasks.closeClient (h : OwnTasks tracker) (key : Key) : OwnTasks (tracker.closeClient key) :=
  h.of_eq (joinSet_closeClient tracker key).1 (joinSet_closeClient tracker key).2

theorem OwnTasks.openClient (h : OwnTasks tracker) (key : Key) (isLegacyStreamId : Bool) (seqId : Option Nat) (now : Nat)
    (message : JSONRPCMessage) : OwnTasks (tracker.openClient key isLegacyStreamId seqId now message) := by
  refine ⟨?_, ?_⟩
  · simp only [ClientTracker.openClient, List.map_append, List.map_cons, List.map_nil]
    refine List.nodup_append.mpr ⟨h.nodup, List.nodup_singleton _, ?_⟩
    intro old hold new hnew
    obtain ⟨task, htask, rfl⟩ := List.mem_map.mp hold
    rw [List.mem_singleton.mp hnew]
    exact Nat.ne_of_lt (h.lt task htask)
  · intro task htask
    rcases List.mem_append.mp htask with htask | htask
    · exact Nat.lt_succ_of_lt (h.lt task htask)
    · rw [List.mem_singleton.mp htask]
      exact Nat.lt_succ_self _

theorem OwnTasks.handleClientMessage (h : OwnTasks tracker) (key : Key) (isLegacyStreamId : Bool) (seqId : Option Nat)
    (now : Nat) (message : JSONRPCMessage) :
    OwnTasks (tracker.handleClientMessage key isLegacyStreamId seqId now message) := by
  cases hstarts : remoteControlMessageStartsConnection message with
  | true =>
      rw [handleClientMessage_starts hstarts]
      exact (h.closeClient key).openClient _ _ _ _ _
  | false =>
      rw [handleClientMessage_other hstarts]
      split
      · exact h
      · split
        · exact h.of_eq rfl rfl
        · exact h

theorem OwnTasks.step (tracker : ClientTracker) (action : TrackerAction) (h : OwnTasks tracker) :
    OwnTasks (tracker.step action) := by
  cases action with
  | message envelope now newRandom =>
      have hresolved : OwnTasks { tracker with legacyStreamIds := (tracker.resolveStream envelope newRandom).2 } :=
        ⟨h.nodup, h.lt⟩
      simp only [ClientTracker.step, ClientTracker.handleMessage]
      split
      · exact hresolved
      · cases envelope.event with
        | clientMessage message => exact hresolved.handleClientMessage _ _ _ _ _
        | ack => exact hresolved
        | ping =>
            simp only [ClientTracker.handlePing]
            split
            · exact hresolved.of_eq rfl rfl
            · exact hresolved.of_eq rfl rfl
        | clientClosed => exact hresolved.closeClient _
  | taskEnded index =>
      have hids : (tracker.joinSet.modify index fun task => { task with isFinished := true }).map (·.connectionId) =
          tracker.joinSet.map (·.connectionId) := by
        apply List.ext_getElem?
        intro position
        simp only [List.getElem?_map, List.getElem?_modify]
        cases tracker.joinSet[position]? with
        | none => rfl
        | some task =>
            by_cases hposition : index = position
            · simp [hposition]
            · simp [hposition]
      refine ⟨?_, ?_⟩
      · simp only [ClientTracker.step, hids]
        exact h.nodup
      · intro task htask
        have hmem : task.connectionId ∈ tracker.joinSet.map (·.connectionId) := by
          rw [← hids]
          exact List.mem_map_of_mem htask
        obtain ⟨old, hold, heq⟩ := List.mem_map.mp hmem
        simp only [ClientTracker.step, ← heq]
        exact h.lt old hold
  | taskJoined index panicked =>
      have hrest : OwnTasks { tracker with joinSet := tracker.joinSet.eraseIdx index } := by
        have hsub := List.eraseIdx_sublist tracker.joinSet index
        exact ⟨(hsub.map _).nodup h.nodup, fun task htask => h.lt task (hsub.subset htask)⟩
      simp only [ClientTracker.step, ClientTracker.joinTask]
      split
      · exact h
      · split
        · split
          · exact hrest
          · exact hrest.closeClient _
        · exact h
  | sweep now =>
      simp only [ClientTracker.step, ClientTracker.closeExpiredClients]
      generalize tracker.expiredClients now = keys
      induction keys generalizing tracker with
      | nil => exact h
      | cons key keys ih => exact ih _ (h.closeClient key)
  | connectionIdTaken => exact ⟨h.nodup, fun task htask => Nat.lt_succ_of_lt (h.lt task htask)⟩

/-- A connection's task that is finished is the only one it has. -/
theorem OwnTasks.taskEnded (h : OwnTasks tracker) {task : OutboundTask} (htask : task ∈ tracker.joinSet)
    (hfinished : task.isFinished = true) : tracker.TaskEnded task.connectionId := by
  intro other hother heq
  rw [List.inj_on_of_nodup_map h.nodup hother htask heq]
  exact hfinished

/-! ## Closings -/

def closings (sent : List SentEvent) : List Nat :=
  sent.filterMap fun sent => match sent.event with
    | .connectionClosed id => some id
    | _ => none

theorem closedBy_eq {action : TrackerAction} {more : List SentEvent}
    (h : (tracker.step action).sent = tracker.sent ++ more) : closedBy tracker action = closings more := by
  rw [closedBy, h, List.drop_left]
  rfl

/-- What `close_client` sends. -/
def closing (tracker : ClientTracker) (key : Key) : List SentEvent :=
  match tracker.clients.lookup key with
  | none => []
  | some client => [⟨.connectionClosed client.connectionId, key, none⟩]

theorem sent_closeClient (tracker : ClientTracker) (key : Key) :
    (tracker.closeClient key).sent = tracker.sent ++ closing tracker key := by
  unfold ClientTracker.closeClient closing
  cases tracker.clients.lookup key with
  | none => exact (List.append_nil _).symm
  | some client => rfl

theorem mem_closings_closing : id ∈ closings (closing tracker key) ↔ tracker.HasConnection key id := by
  unfold closing ClientTracker.HasConnection
  cases tracker.clients.lookup key with
  | none => simp [closings]
  | some client => simp [closings, eq_comm]

theorem closings_append (sent more : List SentEvent) : closings (sent ++ more) = closings sent ++ closings more :=
  List.filterMap_append

/-- A message closes a connection only if it opens another one in its place. -/
theorem sent_handleClientMessage (tracker : ClientTracker) (key : Key) (isLegacyStreamId : Bool) (seqId : Option Nat)
    (now : Nat) (message : JSONRPCMessage) :
    ∃ more, (tracker.handleClientMessage key isLegacyStreamId seqId now message).sent = tracker.sent ++ more ∧
      ∀ id ∈ closings more, remoteControlMessageStartsConnection message = true ∧ tracker.HasConnection key id := by
  cases hstarts : remoteControlMessageStartsConnection message with
  | true =>
      rw [handleClientMessage_starts hstarts]
      let id := (tracker.closeClient key).nextConnectionId
      refine ⟨closing tracker key ++ opening id key message seqId, ?_, ?_⟩
      · rw [← List.append_assoc, ← sent_closeClient]
        rfl
      · intro id hid
        rw [closings_append] at hid
        rcases List.mem_append.mp hid with hid | hid
        · exact ⟨rfl, mem_closings_closing.mp hid⟩
        · cases hid
  | false =>
      rw [handleClientMessage_other hstarts]
      split
      · exact ⟨[], (List.append_nil _).symm, by simp [closings]⟩
      · split
        · exact ⟨_, rfl, by simp [closings]⟩
        · exact ⟨[], (List.append_nil _).symm, by simp [closings]⟩

theorem sent_closeClients (tracker : ClientTracker) (keys : List Key) :
    ∃ more, (keys.foldl ClientTracker.closeClient tracker).sent = tracker.sent ++ more ∧
      ∀ id ∈ closings more, ∃ key ∈ keys, tracker.HasConnection key id := by
  induction keys generalizing tracker with
  | nil => exact ⟨[], (List.append_nil _).symm, by simp [closings]⟩
  | cons key keys ih =>
      obtain ⟨more, hmore, hclosings⟩ := ih (tracker.closeClient key)
      refine ⟨closing tracker key ++ more, ?_, ?_⟩
      · rw [List.foldl_cons, hmore, sent_closeClient, List.append_assoc]
      · intro id hid
        rw [closings_append] at hid
        rcases List.mem_append.mp hid with hid | hid
        · exact ⟨key, List.mem_cons_self, mem_closings_closing.mp hid⟩
        · obtain ⟨other, hother, client, hclient, rfl⟩ := hclosings id hid
          refine ⟨other, List.mem_cons_of_mem _ hother, client, ?_, rfl⟩
          -- What is left after a close was there before it.
          unfold ClientTracker.closeClient at hclient
          split at hclient
          · exact hclient
          · exact (Assoc.lookup_erase.mp hclient).2

theorem mem_expiredClients {now : Nat} (h : key ∈ tracker.expiredClients now) :
    ∃ client, tracker.clients.lookup key = some client ∧ remoteControlClientIsAlive client now = false := by
  obtain ⟨⟨found, client⟩, hentry, rfl⟩ := List.mem_map.mp h
  obtain ⟨hmem, hdead⟩ := List.mem_filter.mp hentry
  exact ⟨client, AList.mem_lookup_iff.mpr hmem, by simpa using hdead⟩

/-! ## Reasons -/

theorem justified_message (tracker : ClientTracker) (envelope : ClientEnvelope) (now : Nat) (newRandom : StreamId) :
    ∀ id ∈ closedBy tracker (.message envelope now newRandom),
      Justified tracker (.message envelope now newRandom) id := by
  let resolved := { tracker with legacyStreamIds := (tracker.resolveStream envelope newRandom).2 }
  have hnothing : (tracker.step (.message envelope now newRandom)).sent = tracker.sent ++ [] →
      ∀ id ∈ closedBy tracker (.message envelope now newRandom),
        Justified tracker (.message envelope now newRandom) id := by
    intro hsent id hid
    rw [closedBy_eq hsent] at hid
    cases hid
  by_cases hname : (tracker.resolveStream envelope newRandom).1 = []
  · apply hnothing
    simp only [ClientTracker.step, ClientTracker.handleMessage, hname, if_true, List.append_nil]
  · cases hevent : envelope.event with
    | clientMessage message =>
        have hstep : tracker.step (.message envelope now newRandom) = resolved.handleClientMessage
            (tracker.keyOf envelope newRandom) envelope.streamId.isNone envelope.seqId now message := by
          simp only [ClientTracker.step, ClientTracker.handleMessage, hname, if_false, hevent]
          rfl
        obtain ⟨more, hmore, hclosings⟩ := sent_handleClientMessage resolved (tracker.keyOf envelope newRandom)
          envelope.streamId.isNone envelope.seqId now message
        have hsent : (tracker.step (.message envelope now newRandom)).sent = tracker.sent ++ more := by
          rw [hstep]
          exact hmore
        intro id hid
        rw [closedBy_eq hsent] at hid
        obtain ⟨hstarts, hconnection⟩ := hclosings id hid
        exact .initialized (by rw [ClientEnvelope.isInitialize, hevent]; exact hstarts) hconnection
    | ack =>
        apply hnothing
        simp only [ClientTracker.step, ClientTracker.handleMessage, hname, if_false, hevent, List.append_nil]
    | ping =>
        apply hnothing
        simp only [ClientTracker.step, ClientTracker.handleMessage, hname, if_false, hevent, List.append_nil,
          ClientTracker.handlePing]
        split
        · rfl
        · rfl
    | clientClosed =>
        have hsent : (tracker.step (.message envelope now newRandom)).sent =
            tracker.sent ++ closing resolved (tracker.keyOf envelope newRandom) := by
          simp only [ClientTracker.step, ClientTracker.handleMessage, hname, if_false, hevent]
          exact sent_closeClient resolved _
        intro id hid
        rw [closedBy_eq hsent] at hid
        exact .closed hevent (mem_closings_closing.mp hid)

theorem justified_sweep (tracker : ClientTracker) (now : Nat) :
    ∀ id ∈ closedBy tracker (.sweep now), Justified tracker (.sweep now) id := by
  obtain ⟨more, hmore, hclosings⟩ := sent_closeClients tracker (tracker.expiredClients now)
  have hsent : (tracker.step (.sweep now)).sent = tracker.sent ++ more := hmore
  intro id hid
  rw [closedBy_eq hsent] at hid
  obtain ⟨key, hkey, client, hclient, rfl⟩ := hclosings id hid
  obtain ⟨expired, hexpired, hdead⟩ := mem_expiredClients hkey
  rw [hclient] at hexpired
  obtain rfl := Option.some.inj hexpired
  exact .idle hclient hdead

/-- A step closes connections for a reason exactly if a joined task closes its own. -/
theorem justified_iff (h : OwnTasks tracker) (action : TrackerAction) :
    (∀ id ∈ closedBy tracker action, Justified tracker action id) ↔ JoinsOwn tracker action := by
  have hnothing : (tracker.step action).sent = tracker.sent → ∀ id, id ∉ closedBy tracker action := by
    intro hsent id hid
    rw [closedBy_eq (hsent.trans (List.append_nil _).symm)] at hid
    cases hid
  cases action with
  | message envelope now newRandom => exact ⟨fun _ => trivial, fun _ => justified_message tracker envelope now newRandom⟩
  | taskEnded index => exact ⟨fun _ => trivial, fun _ id hid => absurd hid (hnothing rfl id)⟩
  | sweep now => exact ⟨fun _ => trivial, fun _ => justified_sweep tracker now⟩
  | connectionIdTaken => exact ⟨fun _ => trivial, fun _ id hid => absurd hid (hnothing rfl id)⟩
  | taskJoined index panicked =>
      cases htask : tracker.joinSet[index]? with
      | none =>
          have hsent : (tracker.step (.taskJoined index panicked)).sent = tracker.sent := by
            simp only [ClientTracker.step, ClientTracker.joinTask, htask]
          refine ⟨fun _ => ?_, fun _ id hid => absurd hid (hnothing hsent id)⟩
          cases panicked with
          | true => trivial
          | false =>
              intro task hfound
              rw [htask] at hfound
              cases hfound
      | some task =>
          cases hfinished : task.isFinished with
          | false =>
              have hsent : (tracker.step (.taskJoined index panicked)).sent = tracker.sent := by
                simp [ClientTracker.step, ClientTracker.joinTask, htask, hfinished]
              refine ⟨fun _ => ?_, fun _ id hid => absurd hid (hnothing hsent id)⟩
              cases panicked with
              | true => trivial
              | false =>
                  intro found hfound hdone
                  rw [htask] at hfound
                  obtain rfl := Option.some.inj hfound
                  rw [hfinished] at hdone
                  cases hdone
          | true =>
              cases panicked with
              | true =>
                  have hsent : (tracker.step (.taskJoined index true)).sent = tracker.sent := by
                    simp [ClientTracker.step, ClientTracker.joinTask, htask, hfinished]
                  exact ⟨fun _ => trivial, fun _ id hid => absurd hid (hnothing hsent id)⟩
              | false =>
                  have hsent : (tracker.step (.taskJoined index false)).sent =
                      tracker.sent ++ closing tracker task.key := by
                    simp only [ClientTracker.step, ClientTracker.joinTask, htask, hfinished, if_true,
                      Bool.false_eq_true, if_false]
                    exact sent_closeClient _ _
                  rw [closedBy_eq hsent]
                  constructor
                  · rintro hall found hfound - client hclient
                    rw [htask] at hfound
                    obtain rfl := Option.some.inj hfound
                    cases hall client.connectionId (mem_closings_closing.mpr ⟨client, hclient, rfl⟩) with
                    | ended _ hended => exact Or.inr hended
                  · intro hjoins id hid
                    obtain ⟨client, hclient, rfl⟩ := mem_closings_closing.mp hid
                    rcases hjoins task htask hfinished client hclient with heq | hended
                    · rw [heq]
                      exact .ended _ (h.taskEnded (List.mem_of_getElem? htask) hfinished)
                    · exact .ended _ hended

end Codrex.RemoteControl
