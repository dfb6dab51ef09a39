import Codrex.RemoteControl.Lemmas.Closing
import Codrex.RemoteControl.Lemmas.Outbound

/-!
# Connections of the remote control
-/

namespace Codrex.RemoteControl

open Transition

/-- Whatever comes in, the events of each connection have their form, a key has one open connection at most, no message
is dropped without a reason, and remembered streams are open. -/
theorem connection_events_wellFormed (actions : List TrackerAction) :
    (∀ id, WellFormedEvents id (eventsOf (run ClientTracker.step .new actions).sent id)) ∧
      (∀ key first second, IsOpen (run ClientTracker.step .new actions).sent key first →
        IsOpen (run ClientTracker.step .new actions).sent key second → first = second) ∧
      (∀ envelope now newRandom message, envelope.event = .clientMessage message →
        remoteControlMessageStartsConnection message = false →
        ((run ClientTracker.step .new actions).handleMessage envelope now newRandom).sent =
          (run ClientTracker.step .new actions).sent →
          DroppedForReason (run ClientTracker.step .new actions) envelope newRandom) ∧
      (∀ clientId streamId, (run ClientTracker.step .new actions).legacyStreamIds.lookup clientId = some streamId →
        (clientId, streamId) ∈ (run ClientTracker.step .new actions).clients) := by
  have h : Consistent (run ClientTracker.step .new actions) := invariant consistent_step consistent_new actions
  refine ⟨wellFormedEvents_of_consistent h, ?_, ?_, ?_⟩
  · intro key first second hfirst hsecond
    obtain ⟨client, hclient, rfl⟩ := (isOpen_iff h).mp hfirst
    obtain ⟨found, hfound, rfl⟩ := (isOpen_iff h).mp hsecond
    rw [hclient] at hfound
    exact congrArg _ (Option.some.inj hfound)
  · intro envelope now newRandom message hevent hstarts hsent
    exact droppedForReason h hevent hstarts hsent
  · intro clientId streamId hlegacy
    obtain ⟨client, hclient⟩ := h.legacy clientId streamId hlegacy
    rw [← AList.lookup_isSome, hclient]
    rfl

/-- Every connection that a run closes is closed for a reason exactly if each task that is joined closes its own. -/
theorem closesJustified_iff (actions : List TrackerAction) :
    ClosesJustified actions ↔ Guarded ClientTracker.step JoinsOwn .new actions := by
  have hown : ∀ before, OwnTasks (run ClientTracker.step .new before) :=
    invariant OwnTasks.step ⟨List.nodup_nil, fun task htask => by cases htask⟩
  rw [guarded_iff]
  constructor
  · intro h before action after heq
    exact (justified_iff (hown before) action).mp (h before action after heq)
  · intro h before action after heq
    exact (justified_iff (hown before) action).mpr (h before action after heq)

def initializeEnvelope : ClientEnvelope :=
  ⟨.clientMessage (.request "initialize" ""), "client-1", some "stream-1", some 0, none⟩

/-- A second connection is opened for the key before the task of the first one is joined. -/
def reopened : List TrackerAction :=
  [.message initializeEnvelope 0 "", .message initializeEnvelope 0 "", .taskEnded 0, .taskJoined 0 false]

/-- The task of the first connection closes the second one, whose task still runs. -/
theorem reopened_not_justified :
    closedBy (run ClientTracker.step .new (reopened.take 3)) (.taskJoined 0 false) = [1] ∧ ¬ ClosesJustified reopened := by
  have hclosed : closedBy (run ClientTracker.step .new (reopened.take 3)) (.taskJoined 0 false) = [1] := by
    decide
  refine ⟨hclosed, ?_⟩
  intro h
  have hjustified := h (reopened.take 3) (.taskJoined 0 false) [] rfl 1 (by rw [hclosed]; exact List.mem_singleton_self 1)
  cases hjustified with
  | ended _ hended =>
      have hruns : ⟨("client-1".toList, "stream-1".toList), 1, false⟩ ∈
          (run ClientTracker.step .new (reopened.take 3)).joinSet := by decide
      exact absurd (hended _ hruns rfl) (by decide)

/-! ## The server's messages -/

/-- Over any number of connections, each stream is numbered without a gap, an envelope is buffered from its number to the
acknowledgement that reaches it, and each connection begins with what was buffered and goes on in order. -/
theorem outbound_delivered (serializes : ServerEnvelope → Bool) (actions : List OutboundAction) :
    Outbound.Delivered serializes (run (Outbound.step serializes) .new actions) := by
  have h : Outbound.Inv serializes (run (Outbound.step serializes) .new actions) :=
    invariant (fun _ action hinv => hinv.step action) Outbound.inv_new actions
  exact h.delivered

/-- The thread that this message shows has a path that is not UTF-8. -/
def threadStarted : QueuedServerEnvelope := ⟨.serverMessage "thread/started", "client-1", "stream-1"⟩

def serializesOthers (envelope : ServerEnvelope) : Bool := envelope.source ≠ threadStarted

/-- The first connection takes the event. -/
def takeEvent : List OutboundAction :=
  [.queue threadStarted, .connect, .snapshot [], .advance, .advance, .advance, .advance]

/-- The stream acknowledges its first envelope before there is one. -/
def earlyAck : OutboundAction := .receive ⟨.ack, "client-1", some "stream-1", some 1, none⟩

/-- An event that cannot be serialised is gone, and an envelope whose number was already acknowledged is buffered. -/
theorem unserializable_not_kept :
    ¬ (∀ queued ∈ (run (Outbound.step serializesOthers) .new takeEvent).taken,
      (run (Outbound.step serializesOthers) .new takeEvent).Kept queued) ∧
    ∃ serverEnvelope ∈ (run (Outbound.step fun _ => true) .new (earlyAck :: takeEvent)).buffered threadStarted.key,
      (∀ seqId, .acked serverEnvelope.key seqId ∈ (run (Outbound.step fun _ => true) .new (earlyAck :: takeEvent)).log →
        ¬ serverEnvelope.seqId < seqId) ∧
      ¬ AboveAcks (run (Outbound.step fun _ => true) .new (earlyAck :: takeEvent)).log serverEnvelope := by
  have htaken : (run (Outbound.step serializesOthers) .new takeEvent).taken = [threadStarted] := by decide
  have hheld : (run (Outbound.step serializesOthers) .new takeEvent).held = [] := by decide
  have hlost : (run (Outbound.step serializesOthers) .new takeEvent).log =
      [.unserializable (threadStarted.toEnvelope 1)] := by decide
  have hlog : (run (Outbound.step fun _ => true) .new (earlyAck :: takeEvent)).log =
      [.acked threadStarted.key 1, .numbered (threadStarted.toEnvelope 1)] := by decide
  have hbuffered : (run (Outbound.step fun _ => true) .new (earlyAck :: takeEvent)).buffered threadStarted.key =
      [threadStarted.toEnvelope 1] := by decide
  constructor
  · intro h
    rcases h threadStarted (by simp [htaken]) with hmem | ⟨serverEnvelope, -, hnumbered, -⟩
    · simp [hheld] at hmem
    · simp [hlost] at hnumbered
  · refine ⟨threadStarted.toEnvelope 1, by simp [hbuffered], ?_, ?_⟩
    · intro seqId hmem
      obtain ⟨-, rfl⟩ : _ ∧ seqId = 1 := by simpa [hlog] using hmem
      exact Nat.lt_irrefl 1
    · intro habove
      exact Nat.lt_irrefl 1 (habove 1 (by rw [hlog]; exact List.mem_cons_self))

end Codrex.RemoteControl
