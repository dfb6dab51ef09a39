import Codrex.Lib.Entries
import Codrex.RemoteControl.Spec

/-!
# The events of connections over a run
-/

namespace Codrex.RemoteControl

variable {tracker : ClientTracker} {sent : List SentEvent} {key : Key} {client : ClientState} {id : Nat}
  {message : JSONRPCMessage}

/-! ## Events of one connection -/

theorem eventsOf_append (sent more : List SentEvent) (id : Nat) :
    eventsOf (sent ++ more) id = eventsOf sent id ++ eventsOf more id :=
  List.filter_append _ _

/-- Events of one connection leave those of the others. -/
theorem eventsOf_append_other {more : List SentEvent} {own : Nat}
    (h : ∀ event ∈ more, event.event.connectionId = own) (hid : id ≠ own) :
    eventsOf (sent ++ more) id = eventsOf sent id := by
  have hnone : eventsOf more id = [] := by
    apply List.filter_eq_nil_iff.mpr
    intro event hevent
    simpa [h event hevent] using Ne.symm hid
  rw [eventsOf_append, hnone, List.append_nil]

theorem eventsOf_append_own {more : List SentEvent} (h : ∀ event ∈ more, event.event.connectionId = id) :
    eventsOf (sent ++ more) id = eventsOf sent id ++ more := by
  rw [eventsOf_append]
  congr 1
  apply List.filter_eq_self.mpr
  intro event hevent
  simpa using h event hevent

theorem seqIds_append (events more : List SentEvent) : seqIds (events ++ more) = seqIds events ++ seqIds more :=
  List.filterMap_append

theorem seqIds_singleton (event : SentEvent) : seqIds [event] = event.seqId.toList := by
  cases h : event.seqId with
  | none => simp [seqIds, h]
  | some seqId => simp [seqIds, h]

/-- What was sent for an open connection. The tracker's last number is the last one that was forwarded, and no smaller
than those behind the first message. -/
structure Conversing (sent : List SentEvent) (key : Key) (client : ClientState) : Prop where
  events : ∃ message seqId rest, Conversation client.connectionId key message rest ∧
    eventsOf sent client.connectionId = opening client.connectionId key message seqId ++ rest ∧
      ∀ seqId ∈ seqIds rest, ∃ last, client.lastInboundSeqId = some last ∧ seqId ≤ last
  last : ∀ last, client.lastInboundSeqId = some last → lastForwardedSeqId sent client.connectionId = some last

theorem Conversing.of_events {next : List SentEvent} (h : Conversing sent key client)
    (hevents : eventsOf next client.connectionId = eventsOf sent client.connectionId) : Conversing next key client := by
  obtain ⟨hevents', hlast⟩ := h
  refine ⟨?_, ?_⟩
  · rw [hevents]
    exact hevents'
  · rw [lastForwardedSeqId, hevents]
    exact hlast

def Finished (id : Nat) (events : List SentEvent) : Prop :=
  ∃ key message seqId rest, Conversation id key message rest ∧
    events = opening id key message seqId ++ rest ++ [⟨.connectionClosed id, key, none⟩]

/-- What the tracker knows fits to what was sent. -/
structure Consistent (tracker : ClientTracker) : Prop where
  conversing : ∀ key client, tracker.clients.lookup key = some client → Conversing tracker.sent key client
  finished : ∀ id, (∀ key, ¬ tracker.HasConnection key id) →
    eventsOf tracker.sent id = [] ∨ Finished id (eventsOf tracker.sent id)
  clientLt : ∀ key client, tracker.clients.lookup key = some client → client.connectionId < tracker.nextConnectionId
  sentLt : ∀ event ∈ tracker.sent, event.event.connectionId < tracker.nextConnectionId
  unique : ∀ key client other found, tracker.clients.lookup key = some client → tracker.clients.lookup other = some found →
    client.connectionId = found.connectionId → key = other
  named : ∀ key client, tracker.clients.lookup key = some client → key.2 ≠ []
  legacy : ∀ clientId streamId, tracker.legacyStreamIds.lookup clientId = some streamId →
    ∃ client, tracker.clients.lookup (clientId, streamId) = some client

theorem consistent_new : Consistent .new where
  conversing := fun key client h => by cases h
  finished := fun _ _ => Or.inl rfl
  clientLt := fun key client h => by cases h
  sentLt := fun event h => by cases h
  unique := fun key client other found h => by cases h
  named := fun key client h => by cases h
  legacy := fun clientId streamId h => by cases h

/-! ## One connection is closed, opened or used -/

theorem consistent_closeClient (h : Consistent tracker) (key : Key) : Consistent (tracker.closeClient key) := by
  unfold ClientTracker.closeClient
  cases hclient : tracker.clients.lookup key with
  | none => exact h
  | some client =>
      have hother : ∀ id, id ≠ client.connectionId →
          eventsOf (tracker.sent ++ [⟨.connectionClosed client.connectionId, key, none⟩]) id =
            eventsOf tracker.sent id :=
        fun id hid => eventsOf_append_other (by simp [TransportEvent.connectionId]) hid
      refine ⟨?_, ?_, ?_, ?_, ?_, ?_, ?_⟩
      · intro other found hfound
        obtain ⟨hne, hfound⟩ := Assoc.lookup_erase.mp hfound
        refine (h.conversing other found hfound).of_events (hother _ ?_)
        exact fun heq => hne (h.unique other found key client hfound hclient heq)
      · intro id hnone
        by_cases hid : id = client.connectionId
        · right
          subst hid
          obtain ⟨⟨message, seqId, rest, hconversation, hevents, -⟩, -⟩ := h.conversing key client hclient
          refine ⟨key, message, seqId, rest, hconversation, ?_⟩
          rw [eventsOf_append_own (by simp [TransportEvent.connectionId]), hevents]
        · have hgone : ∀ other, ¬ tracker.HasConnection other id := by
            rintro other ⟨found, hfound, rfl⟩
            have hne : other ≠ key := by
              rintro rfl
              rw [hclient] at hfound
              exact hid (congrArg _ (Option.some.inj hfound).symm)
            exact hnone other ⟨found, Assoc.lookup_erase.mpr ⟨hne, hfound⟩, rfl⟩
          simp only [hother id hid]
          exact h.finished id hgone
      · intro other found hfound
        exact h.clientLt other found (Assoc.lookup_erase.mp hfound).2
      · intro event hevent
        rcases List.mem_append.mp hevent with hevent | hevent
        · exact h.sentLt event hevent
        · rw [List.mem_singleton.mp hevent]
          exact h.clientLt key client hclient
      · intro first firstClient second secondClient hfirst hsecond
        exact h.unique first firstClient second secondClient (Assoc.lookup_erase.mp hfirst).2
          (Assoc.lookup_erase.mp hsecond).2
      · intro other found hfound
        exact h.named other found (Assoc.lookup_erase.mp hfound).2
      · intro clientId streamId hlegacy
        have hold : tracker.legacyStreamIds.lookup clientId = some streamId ∧ (clientId, streamId) ≠ key := by
          simp only at hlegacy
          split at hlegacy
          · obtain ⟨hne, hlegacy⟩ := Assoc.lookup_erase.mp hlegacy
            exact ⟨hlegacy, fun heq => hne (congrArg Prod.fst heq)⟩
          · next hkeep =>
              refine ⟨hlegacy, ?_⟩
              rintro rfl
              exact hkeep hlegacy
        obtain ⟨found, hfound⟩ := h.legacy clientId streamId hold.1
        exact ⟨found, Assoc.lookup_erase.mpr ⟨hold.2, hfound⟩⟩

theorem eventsOf_next (h : Consistent tracker) : eventsOf tracker.sent tracker.nextConnectionId = [] := by
  apply List.filter_eq_nil_iff.mpr
  intro event hevent
  simpa using Nat.ne_of_lt (h.sentLt event hevent)

theorem opening_own {seqId : Option Nat} : ∀ event ∈ opening id key message seqId, event.event.connectionId = id := by
  intro event hevent
  simp only [opening, List.mem_cons, List.not_mem_nil, or_false] at hevent
  rcases hevent with rfl | rfl
  · rfl
  · rfl

theorem conversing_opening (h : Consistent tracker) (isLegacyStreamId : Bool) (seqId : Option Nat) (now : Nat)
    (hstarts : remoteControlMessageStartsConnection message = true) :
    Conversing (tracker.sent ++ opening tracker.nextConnectionId key message seqId) key
      ⟨tracker.nextConnectionId, now, if isLegacyStreamId then none else seqId⟩ := by
  have hown : eventsOf (tracker.sent ++ opening tracker.nextConnectionId key message seqId) tracker.nextConnectionId =
      opening tracker.nextConnectionId key message seqId := by
    rw [eventsOf_append_own opening_own, eventsOf_next h, List.nil_append]
  refine ⟨⟨message, seqId, [], ⟨hstarts, by simp, List.Pairwise.nil⟩, ?_, by simp [seqIds]⟩, ?_⟩
  · rw [List.append_nil]
    exact hown
  · intro last hlast
    cases isLegacyStreamId with
    | true => cases hlast
    | false =>
        have hseqId : seqId = some last := hlast
        have hevents : seqIds (opening tracker.nextConnectionId key message seqId) = [last] := by
          rw [hseqId]
          rfl
        rw [lastForwardedSeqId, hown, hevents]
        rfl

theorem consistent_openClient (h : Consistent tracker) (hnone : tracker.clients.lookup key = none) (hname : key.2 ≠ [])
    (isLegacyStreamId : Bool) (seqId : Option Nat) (now : Nat)
    (hstarts : remoteControlMessageStartsConnection message = true) :
    Consistent (tracker.openClient key isLegacyStreamId seqId now message) := by
  have hother : ∀ id, id ≠ tracker.nextConnectionId →
      eventsOf (tracker.sent ++ opening tracker.nextConnectionId key message seqId) id = eventsOf tracker.sent id :=
    fun id hid => eventsOf_append_other opening_own hid
  unfold ClientTracker.openClient
  refine ⟨?_, ?_, ?_, ?_, ?_, ?_, ?_⟩
  · intro other found hfound
    rcases Assoc.lookup_insert.mp hfound with ⟨rfl, rfl⟩ | ⟨hne, hfound⟩
    · exact conversing_opening h isLegacyStreamId seqId now hstarts
    · exact (h.conversing other found hfound).of_events (hother _ (Nat.ne_of_lt (h.clientLt other found hfound)))
  · intro id hgone
    have hid : id ≠ tracker.nextConnectionId := by
      rintro rfl
      exact hgone key ⟨_, Assoc.lookup_insert.mpr (Or.inl ⟨rfl, rfl⟩), rfl⟩
    have hold : ∀ other, ¬ tracker.HasConnection other id := by
      rintro other ⟨found, hfound, rfl⟩
      have hne : other ≠ key := by
        rintro rfl
        rw [hnone] at hfound
        cases hfound
      exact hgone other ⟨found, Assoc.lookup_insert.mpr (Or.inr ⟨hne, hfound⟩), rfl⟩
    have hsame := hother id hid
    rcases h.finished id hold with hnil | hfinished
    · exact Or.inl (hsame.trans hnil)
    · exact Or.inr (hsame.symm ▸ hfinished)
  · intro other found hfound
    rcases Assoc.lookup_insert.mp hfound with ⟨rfl, rfl⟩ | ⟨-, hfound⟩
    · exact Nat.lt_succ_self _
    · exact Nat.lt_succ_of_lt (h.clientLt other found hfound)
  · intro event hevent
    simp only [List.mem_append, List.mem_cons, List.not_mem_nil, or_false] at hevent
    rcases hevent with hevent | rfl | rfl
    · exact Nat.lt_succ_of_lt (h.sentLt event hevent)
    · exact Nat.lt_succ_self _
    · exact Nat.lt_succ_self _
  · intro first firstClient second secondClient hfirst hsecond heq
    rcases Assoc.lookup_insert.mp hfirst with ⟨rfl, rfl⟩ | ⟨-, holdFirst⟩
    · rcases Assoc.lookup_insert.mp hsecond with ⟨rfl, rfl⟩ | ⟨-, holdSecond⟩
      · rfl
      · exact absurd heq.symm (Nat.ne_of_lt (h.clientLt second secondClient holdSecond))
    · rcases Assoc.lookup_insert.mp hsecond with ⟨rfl, rfl⟩ | ⟨-, holdSecond⟩
      · exact absurd heq (Nat.ne_of_lt (h.clientLt first firstClient holdFirst))
      · exact h.unique first firstClient second secondClient holdFirst holdSecond heq
  · intro other found hfound
    rcases Assoc.lookup_insert.mp hfound with ⟨rfl, -⟩ | ⟨-, hfound⟩
    · exact hname
    · exact h.named other found hfound
  · intro clientId streamId hlegacy
    have hkeep : tracker.legacyStreamIds.lookup clientId = some streamId → ∃ client,
        (tracker.clients.insert key
          ⟨tracker.nextConnectionId, now, if isLegacyStreamId then none else seqId⟩).lookup (clientId, streamId) =
          some client := by
      intro hold
      obtain ⟨found, hfound⟩ := h.legacy clientId streamId hold
      refine ⟨found, Assoc.lookup_insert.mpr (Or.inr ⟨?_, hfound⟩)⟩
      rintro rfl
      rw [hnone] at hfound
      cases hfound
    cases isLegacyStreamId with
    | false => exact hkeep hlegacy
    | true =>
        rcases Assoc.lookup_insert.mp hlegacy with ⟨rfl, rfl⟩ | ⟨-, hold⟩
        · exact ⟨_, Assoc.lookup_insert.mpr (Or.inl ⟨rfl, rfl⟩)⟩
        · exact hkeep hold

/-- The client of an open connection is written anew, with events of its own. -/
theorem consistent_update (h : Consistent tracker) (hclient : tracker.clients.lookup key = some client)
    {newClient : ClientState} (hid : newClient.connectionId = client.connectionId) {more : List SentEvent}
    (hmore : ∀ event ∈ more, event.event.connectionId = client.connectionId)
    (hconversing : Conversing (tracker.sent ++ more) key newClient) :
    Consistent { tracker with clients := tracker.clients.insert key newClient, sent := tracker.sent ++ more } := by
  have hother : ∀ id, id ≠ client.connectionId → eventsOf (tracker.sent ++ more) id = eventsOf tracker.sent id :=
    fun id hne => eventsOf_append_other hmore hne
  -- A client after the update is one before it, with the same connection.
  have hbefore : ∀ other found, (tracker.clients.insert key newClient).lookup other = some found →
      ∃ old, tracker.clients.lookup other = some old ∧ old.connectionId = found.connectionId := by
    intro other found hfound
    rcases Assoc.lookup_insert.mp hfound with ⟨rfl, rfl⟩ | ⟨-, hfound⟩
    · exact ⟨client, hclient, hid.symm⟩
    · exact ⟨found, hfound, rfl⟩
  have hafter : ∀ other found, tracker.clients.lookup other = some found → ∃ new,
      (tracker.clients.insert key newClient).lookup other = some new ∧ new.connectionId = found.connectionId := by
    intro other found hfound
    by_cases hkey : other = key
    · subst hkey
      rw [hclient] at hfound
      obtain rfl := Option.some.inj hfound
      exact ⟨newClient, Assoc.lookup_insert.mpr (Or.inl ⟨rfl, rfl⟩), hid⟩
    · exact ⟨found, Assoc.lookup_insert.mpr (Or.inr ⟨hkey, hfound⟩), rfl⟩
  refine ⟨?_, ?_, ?_, ?_, ?_, ?_, ?_⟩
  · intro other found hfound
    rcases Assoc.lookup_insert.mp hfound with ⟨rfl, rfl⟩ | ⟨hne, hfound⟩
    · exact hconversing
    · refine (h.conversing other found hfound).of_events (hother _ ?_)
      exact fun heq => hne (h.unique other found key client hfound hclient heq)
  · intro id hgone
    have hold : ∀ other, ¬ tracker.HasConnection other id := by
      rintro other ⟨found, hfound, rfl⟩
      obtain ⟨new, hnew, heq⟩ := hafter other found hfound
      exact hgone other ⟨new, hnew, heq⟩
    have hne : id ≠ client.connectionId := by
      rintro rfl
      exact hold key ⟨client, hclient, rfl⟩
    simp only [hother id hne]
    exact h.finished id hold
  · intro other found hfound
    obtain ⟨old, hold, heq⟩ := hbefore other found hfound
    rw [← heq]
    exact h.clientLt other old hold
  · intro event hevent
    rcases List.mem_append.mp hevent with hevent | hevent
    · exact h.sentLt event hevent
    · rw [hmore event hevent]
      exact h.clientLt key client hclient
  · intro first firstClient second secondClient hfirst hsecond heq
    obtain ⟨oldFirst, hfirst, hfirstId⟩ := hbefore first firstClient hfirst
    obtain ⟨oldSecond, hsecond, hsecondId⟩ := hbefore second secondClient hsecond
    exact h.unique first oldFirst second oldSecond hfirst hsecond (by rw [hfirstId, hsecondId, heq])
  · intro other found hfound
    obtain ⟨old, hold, -⟩ := hbefore other found hfound
    exact h.named other old hold
  · intro clientId streamId hlegacy
    obtain ⟨found, hfound⟩ := h.legacy clientId streamId hlegacy
    obtain ⟨new, hnew, -⟩ := hafter (clientId, streamId) found hfound
    exact ⟨new, hnew⟩

theorem consistent_forward (h : Consistent tracker) (hclient : tracker.clients.lookup key = some client)
    {seqId : Option Nat} (hfresh : tracker.isStale key seqId = false) (now : Nat) (message : JSONRPCMessage) :
    Consistent (tracker.forward key client seqId now message) := by
  have hnew : ∀ number last, seqId = some number → client.lastInboundSeqId = some last → last < number := by
    rintro number last rfl hlast
    simpa [ClientTracker.isStale, hclient, hlast] using hfresh
  obtain ⟨⟨first, firstSeqId, rest, hconversation, hevents, hbound⟩, hlast⟩ := h.conversing key client hclient
  have hown : ∀ event ∈ [(⟨.incomingMessage client.connectionId message, key, seqId⟩ : SentEvent)],
      event.event.connectionId = client.connectionId := by
    intro event hevent
    rw [List.mem_singleton.mp hevent]
    rfl
  let newClient : ClientState :=
    { client with lastActivityAt := now, lastInboundSeqId := seqId.or client.lastInboundSeqId }
  have hid : newClient.connectionId = client.connectionId := rfl
  refine consistent_update h hclient hid hown ⟨⟨first, firstSeqId,
    rest ++ [⟨.incomingMessage client.connectionId message, key, seqId⟩], ⟨hconversation.starts, ?_, ?_⟩, ?_, ?_⟩, ?_⟩
  · intro event hevent
    rcases List.mem_append.mp hevent with hevent | hevent
    · exact hconversation.forwarded event hevent
    · rw [List.mem_singleton.mp hevent]
      exact ⟨message, rfl, rfl⟩
  · rw [seqIds_append, seqIds_singleton, List.pairwise_append]
    refine ⟨hconversation.increasing, ?_, ?_⟩
    · cases seqId with
      | none => exact List.Pairwise.nil
      | some number => exact List.pairwise_singleton _ _
    · intro old hold number hnumber
      obtain ⟨last, hlast, hle⟩ := hbound old hold
      exact Nat.lt_of_le_of_lt hle (hnew number last (Option.mem_toList.mp hnumber) hlast)
  · rw [eventsOf_append_own hown, hevents, List.append_assoc]
  · intro number hnumber
    rw [seqIds_append, seqIds_singleton] at hnumber
    cases seqId with
    | none =>
        rw [Option.toList_none, List.append_nil] at hnumber
        exact hbound number hnumber
    | some new =>
        refine ⟨new, rfl, ?_⟩
        rcases List.mem_append.mp hnumber with hnumber | hnumber
        · obtain ⟨last, hlast, hle⟩ := hbound number hnumber
          exact Nat.le_of_lt (Nat.lt_of_le_of_lt hle (hnew new last rfl hlast))
        · exact Nat.le_of_eq (List.mem_singleton.mp hnumber)
  · intro last hinbound
    simp only [lastForwardedSeqId]
    rw [eventsOf_append_own hown, seqIds_append, seqIds_singleton]
    cases seqId with
    | none =>
        rw [Option.toList_none, List.append_nil]
        exact hlast last hinbound
    | some new =>
        obtain rfl : new = last := Option.some.inj hinbound
        exact List.getLast?_concat

/-- A ping changes nothing that was sent. -/
theorem consistent_handlePing (h : Consistent tracker) (key : Key) (now : Nat) :
    Consistent (tracker.handlePing key now) := by
  unfold ClientTracker.handlePing
  cases hclient : tracker.clients.lookup key with
  | none => exact ⟨h.conversing, h.finished, h.clientLt, h.sentLt, h.unique, h.named, h.legacy⟩
  | some client =>
      let newClient : ClientState := { client with lastActivityAt := now }
      have hid : newClient.connectionId = client.connectionId := rfl
      have hconversing : Conversing (tracker.sent ++ []) key newClient := by
        obtain ⟨hevents, hlast⟩ := h.conversing key client hclient
        rw [List.append_nil]
        exact ⟨hevents, hlast⟩
      have hupdate := consistent_update h hclient hid (by simp) hconversing
      rwa [List.append_nil] at hupdate

/-! ## Whole steps -/

theorem lookup_closeClient (tracker : ClientTracker) (key : Key) : (tracker.closeClient key).clients.lookup key = none := by
  unfold ClientTracker.closeClient
  split
  · assumption
  · exact AList.lookup_erase _ _

/-- A connection that is opened takes the place of the one that is open. -/
theorem handleClientMessage_starts (hstarts : remoteControlMessageStartsConnection message = true)
    (tracker : ClientTracker) (key : Key) (isLegacyStreamId : Bool) (seqId : Option Nat) (now : Nat) :
    tracker.handleClientMessage key isLegacyStreamId seqId now message =
      (tracker.closeClient key).openClient key isLegacyStreamId seqId now message := by
  have hclose : (if (remoteControlMessageStartsConnection message && decide (key ∈ tracker.clients)) = true then
      tracker.closeClient key else tracker) = tracker.closeClient key := by
    rw [hstarts, Bool.true_and]
    split
    · rfl
    · next hmem =>
        have hnone : tracker.clients.lookup key = none := AList.lookup_eq_none.mpr (by simpa using hmem)
        rw [ClientTracker.closeClient, hnone]
  simp only [ClientTracker.handleClientMessage, hclose, lookup_closeClient]
  simp [hstarts]

theorem handleClientMessage_other (hstarts : remoteControlMessageStartsConnection message = false)
    (tracker : ClientTracker) (key : Key) (isLegacyStreamId : Bool) (seqId : Option Nat) (now : Nat) :
    tracker.handleClientMessage key isLegacyStreamId seqId now message =
      if tracker.isStale key seqId then tracker
      else match tracker.clients.lookup key with
        | some client => tracker.forward key client seqId now message
        | none => tracker := by
  cases hclient : tracker.clients.lookup key with
  | none => simp [ClientTracker.handleClientMessage, hstarts, hclient]
  | some client => simp [ClientTracker.handleClientMessage, hstarts, hclient]

theorem consistent_handleClientMessage (h : Consistent tracker) (hname : key.2 ≠ []) (isLegacyStreamId : Bool)
    (seqId : Option Nat) (now : Nat) (message : JSONRPCMessage) :
    Consistent (tracker.handleClientMessage key isLegacyStreamId seqId now message) := by
  cases hstarts : remoteControlMessageStartsConnection message with
  | true =>
      rw [handleClientMessage_starts hstarts]
      exact consistent_openClient (consistent_closeClient h key) (lookup_closeClient tracker key) hname _ _ _ hstarts
  | false =>
      rw [handleClientMessage_other hstarts]
      split
      · exact h
      · next hstale =>
          cases hclient : tracker.clients.lookup key with
          | none => exact h
          | some client => exact consistent_forward h hclient (Bool.eq_false_iff.mpr hstale) now message

theorem consistent_resolveStream (h : Consistent tracker) (envelope : ClientEnvelope) (newRandom : StreamId) :
    Consistent { tracker with legacyStreamIds := (tracker.resolveStream envelope newRandom).2 } := by
  refine ⟨h.conversing, h.finished, h.clientLt, h.sentLt, h.unique, h.named, ?_⟩
  intro clientId streamId hlegacy
  apply h.legacy
  simp only [ClientTracker.resolveStream] at hlegacy
  split at hlegacy
  · exact hlegacy
  · split at hlegacy
    · exact (Assoc.lookup_erase.mp hlegacy).2
    · exact hlegacy

theorem consistent_handleMessage (h : Consistent tracker) (envelope : ClientEnvelope) (now : Nat)
    (newRandom : StreamId) : Consistent (tracker.handleMessage envelope now newRandom) := by
  have hresolved := consistent_resolveStream h envelope newRandom
  simp only [ClientTracker.handleMessage]
  split
  · exact hresolved
  · next hname =>
      cases hevent : envelope.event with
      | clientMessage message => exact consistent_handleClientMessage hresolved hname _ _ _ _
      | ack => exact hresolved
      | ping => exact consistent_handlePing hresolved _ _
      | clientClosed => exact consistent_closeClient hresolved _

theorem consistent_step (tracker : ClientTracker) (action : TrackerAction) (h : Consistent tracker) :
    Consistent (tracker.step action) := by
  cases action with
  | message envelope now newRandom => exact consistent_handleMessage h envelope now newRandom
  | taskEnded index => exact ⟨h.conversing, h.finished, h.clientLt, h.sentLt, h.unique, h.named, h.legacy⟩
  | taskJoined index panicked =>
      simp only [ClientTracker.step, ClientTracker.joinTask]
      split
      · exact h
      · next task htask =>
          have hrest : Consistent { tracker with joinSet := tracker.joinSet.eraseIdx index } :=
            ⟨h.conversing, h.finished, h.clientLt, h.sentLt, h.unique, h.named, h.legacy⟩
          split
          · split
            · exact hrest
            · exact consistent_closeClient hrest task.key
          · exact h
  | sweep now =>
      simp only [ClientTracker.step, ClientTracker.closeExpiredClients]
      generalize tracker.expiredClients now = keys
      induction keys generalizing tracker with
      | nil => exact h
      | cons key keys ih => exact ih _ (consistent_closeClient h key)
  | connectionIdTaken =>
      exact ⟨h.conversing, h.finished, fun key client hclient => Nat.lt_succ_of_lt (h.clientLt key client hclient),
        fun event hevent => Nat.lt_succ_of_lt (h.sentLt event hevent), h.unique, h.named, h.legacy⟩

/-! ## What a run shows -/

theorem mem_eventsOf {event : SentEvent} : event ∈ eventsOf sent id ↔ event ∈ sent ∧ event.event.connectionId = id := by
  rw [eventsOf, List.mem_filter, decide_eq_true_iff]

/-- The connections that are open in what was sent are those of the tracker. -/
theorem isOpen_iff (h : Consistent tracker) : IsOpen tracker.sent key id ↔ tracker.HasConnection key id := by
  constructor
  · rintro ⟨hopened, hclosed⟩
    have hevent : ⟨.connectionOpened id, key, none⟩ ∈ eventsOf tracker.sent id := mem_eventsOf.mpr ⟨hopened, rfl⟩
    by_cases hsome : ∃ other, tracker.HasConnection other id
    · obtain ⟨other, client, hclient, rfl⟩ := hsome
      obtain ⟨⟨message, seqId, rest, hconversation, hevents, -⟩, -⟩ := h.conversing other client hclient
      rw [hevents, opening, List.cons_append, List.cons_append, List.nil_append] at hevent
      rcases List.mem_cons.mp hevent with heq | hevent
      · obtain rfl := congrArg SentEvent.key heq
        exact ⟨client, hclient, rfl⟩
      · rcases List.mem_cons.mp hevent with heq | hevent
        · cases heq
        · obtain ⟨found, hfound, -⟩ := hconversation.forwarded _ hevent
          cases hfound
    · rcases h.finished id fun other hother => hsome ⟨other, hother⟩ with hnil | ⟨other, message, seqId, rest, -, hevents⟩
      · rw [hnil] at hevent
        cases hevent
      · have hlast : ⟨.connectionClosed id, other, none⟩ ∈ eventsOf tracker.sent id := by
          rw [hevents]
          exact List.mem_append_right _ (List.mem_singleton_self _)
        exact absurd rfl (hclosed _ (mem_eventsOf.mp hlast).1)
  · rintro ⟨client, hclient, rfl⟩
    obtain ⟨⟨message, seqId, rest, hconversation, hevents, -⟩, -⟩ := h.conversing key client hclient
    constructor
    · have hopened : ⟨.connectionOpened client.connectionId, key, none⟩ ∈ eventsOf tracker.sent client.connectionId := by
        rw [hevents]
        exact List.mem_append_left _ List.mem_cons_self
      exact (mem_eventsOf.mp hopened).1
    · intro event hevent hclosed
      have hmem : event ∈ eventsOf tracker.sent client.connectionId := mem_eventsOf.mpr ⟨hevent, by rw [hclosed]; rfl⟩
      rw [hevents, opening, List.cons_append, List.cons_append, List.nil_append] at hmem
      rcases List.mem_cons.mp hmem with rfl | hmem
      · cases hclosed
      · rcases List.mem_cons.mp hmem with rfl | hmem
        · cases hclosed
        · obtain ⟨found, hfound, -⟩ := hconversation.forwarded event hmem
          rw [hfound] at hclosed
          cases hclosed

theorem wellFormedEvents_of_consistent (h : Consistent tracker) (id : Nat) :
    WellFormedEvents id (eventsOf tracker.sent id) := by
  by_cases hsome : ∃ key, tracker.HasConnection key id
  · obtain ⟨key, client, hclient, rfl⟩ := hsome
    obtain ⟨⟨message, seqId, rest, hconversation, hevents, -⟩, -⟩ := h.conversing key client hclient
    exact Or.inr ⟨key, message, seqId, rest, [], hconversation, by rw [hevents, List.append_nil], Or.inl rfl⟩
  · rcases h.finished id fun key hkey => hsome ⟨key, hkey⟩ with hnil | ⟨key, message, seqId, rest, hconversation, hevents⟩
    · exact Or.inl hnil
    · exact Or.inr ⟨key, message, seqId, rest, _, hconversation, hevents, Or.inr rfl⟩

theorem droppedForReason (h : Consistent tracker) {envelope : ClientEnvelope}
    (hevent : envelope.event = .clientMessage message) (hstarts : remoteControlMessageStartsConnection message = false)
    {now : Nat} {newRandom : StreamId} (hsent : (tracker.handleMessage envelope now newRandom).sent = tracker.sent) :
    DroppedForReason tracker envelope newRandom := by
  have hnot : envelope.isInitialize = false := by rw [ClientEnvelope.isInitialize, hevent]; exact hstarts
  have hlegacy : (tracker.resolveStream envelope newRandom).2 = tracker.legacyStreamIds := by
    simp only [ClientTracker.resolveStream, hnot]
    split
    · rfl
    · rfl
  simp only [ClientTracker.handleMessage, hlegacy, hevent, handleClientMessage_other hstarts] at hsent
  by_cases hname : (tracker.resolveStream envelope newRandom).1 = []
  · left
    intro id hopen
    obtain ⟨client, hclient, -⟩ := (isOpen_iff h).mp hopen
    exact h.named _ client hclient hname
  · rw [if_neg hname] at hsent
    cases hclient : tracker.clients.lookup (tracker.keyOf envelope newRandom) with
    | none =>
        left
        intro id hopen
        obtain ⟨client, hfound, -⟩ := (isOpen_iff h).mp hopen
        rw [hclient] at hfound
        cases hfound
    | some client =>
        have hkey : (envelope.clientId, (tracker.resolveStream envelope newRandom).1) =
          tracker.keyOf envelope newRandom := rfl
        rw [hkey, hclient] at hsent
        split at hsent
        · next hstale =>
            right
            unfold ClientTracker.isStale at hstale
            rw [hclient] at hstale
            cases hseqId : envelope.seqId with
            | none =>
                rw [hseqId] at hstale
                cases hstale
            | some seqId =>
                rw [hseqId] at hstale
                obtain ⟨last, hlast, hle⟩ := (Option.any_eq_true _ _).mp hstale
                exact ⟨client.connectionId, seqId, last, (isOpen_iff h).mpr ⟨client, hclient, rfl⟩, rfl,
                  (h.conversing _ client hclient).last last hlast, of_decide_eq_true hle⟩
        · exact absurd (congrArg List.length hsent) (by simp [ClientTracker.forward])

end Codrex.RemoteControl
