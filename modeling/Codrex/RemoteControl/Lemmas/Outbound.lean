import Codrex.RemoteControl.Spec

/-!
# The server's messages, step by step

The buffers are a function of the log of what was numbered and acknowledged, and what a connection writes for a stream is
a part of what was numbered for it.
-/

namespace Codrex.RemoteControl

open Fallible

variable {log : List Mark} {key : Key} {serverEnvelope : ServerEnvelope}

/-! ## The log -/

/-- What a mark makes of the envelopes of a stream that are outstanding. -/
def keepOutstanding (key : Key) (kept : List ServerEnvelope) : Mark → List ServerEnvelope
  | .numbered serverEnvelope => if serverEnvelope.key = key then kept ++ [serverEnvelope] else kept
  | .unserializable _ => kept
  | .acked acked seqId => if acked = key then kept.filter (fun serverEnvelope => seqId < serverEnvelope.seqId) else kept

def outstandingOf (log : List Mark) (key : Key) : List ServerEnvelope := log.foldl (keepOutstanding key) []

theorem outstandingOf_concat (mark : Mark) :
    outstandingOf (log ++ [mark]) key = keepOutstanding key (outstandingOf log key) mark := by
  simp [outstandingOf]

theorem numberedOf_append (first second : List Mark) :
    numberedOf (first ++ second) key = numberedOf first key ++ numberedOf second key :=
  List.filterMap_append

theorem mem_numberedOf : serverEnvelope ∈ numberedOf log key ↔ .numbered serverEnvelope ∈ log ∧ serverEnvelope.key = key := by
  simp only [numberedOf, List.mem_filterMap]
  constructor
  · rintro ⟨mark, hmark, heq⟩
    cases mark with
    | numbered other =>
        simp only [Option.ite_none_right_eq_some, Option.some.injEq] at heq
        obtain ⟨hkey, rfl⟩ := heq
        exact ⟨hmark, hkey⟩
    | unserializable _ => cases heq
    | acked _ _ => cases heq
  · rintro ⟨hmem, hkey⟩
    exact ⟨_, hmem, if_pos hkey⟩

theorem outstandingOf_sublist : (outstandingOf log key).Sublist (numberedOf log key) := by
  induction log using List.reverseRecOn with
  | nil => exact List.Sublist.refl _
  | append_singleton log mark ih =>
      rw [outstandingOf_concat, numberedOf_append]
      cases mark with
      | numbered serverEnvelope =>
          by_cases hkey : serverEnvelope.key = key
          · simpa [keepOutstanding, numberedOf, hkey] using ih
          · simpa [keepOutstanding, numberedOf, hkey] using ih
      | unserializable _ => simpa [keepOutstanding, numberedOf] using ih
      | acked acked seqId =>
          by_cases hkey : acked = key
          · simpa [keepOutstanding, numberedOf, hkey] using List.filter_sublist.trans ih
          · simpa [keepOutstanding, numberedOf, hkey] using ih

theorem outstanding_concat (mark : Mark) : Outstanding (log ++ [mark]) serverEnvelope ↔
    mark = .numbered serverEnvelope ∨
      Outstanding log serverEnvelope ∧ ∀ seqId, mark = .acked serverEnvelope.key seqId → seqId < serverEnvelope.seqId := by
  constructor
  · rintro ⟨before, after, heq, hafter⟩
    rcases List.eq_nil_or_concat after with rfl | ⟨after, last, rfl⟩
    · exact .inl (List.singleton_inj.mp (List.append_inj' heq rfl).2)
    · rw [List.concat_eq_append] at heq hafter
      rw [← List.cons_append, ← List.append_assoc] at heq
      obtain ⟨rfl, hlast⟩ := List.append_inj' heq rfl
      obtain rfl : mark = last := by simpa using hlast
      refine .inr ⟨⟨before, after, rfl, fun seqId hmem => hafter seqId (by simp [hmem])⟩, ?_⟩
      intro seqId hmark
      exact hafter seqId (by simp [hmark])
  · rintro (rfl | ⟨⟨before, after, rfl, hafter⟩, hmark⟩)
    · exact ⟨log, [], rfl, by simp⟩
    · refine ⟨before, after ++ [mark], by simp, fun seqId hmem => ?_⟩
      rcases List.mem_append.mp hmem with hmem | hmem
      · exact hafter seqId hmem
      · exact hmark seqId (List.mem_singleton.mp hmem).symm

theorem mem_outstandingOf :
    serverEnvelope ∈ outstandingOf log key ↔ serverEnvelope.key = key ∧ Outstanding log serverEnvelope := by
  induction log using List.reverseRecOn with
  | nil => simp [outstandingOf, Outstanding]
  | append_singleton log mark ih =>
      rw [outstandingOf_concat, outstanding_concat]
      cases mark with
      | numbered other =>
          by_cases hkey : other.key = key
          · simp only [keepOutstanding, hkey, if_true, List.mem_append, ih, List.mem_singleton]
            grind
          · simp only [keepOutstanding, hkey, if_false, ih]
            grind
      | unserializable _ => simp [keepOutstanding, ih]
      | acked acked seqId =>
          by_cases hkey : acked = key
          · simp only [keepOutstanding, hkey, if_true, List.mem_filter, ih]
            grind
          · simp only [keepOutstanding, hkey, if_false, ih]
            grind

/-! ## The buffer -/

namespace BoundedOutboundBuffer

variable {buffer : BoundedOutboundBuffer} {found : Key} {ackedSeqId : Nat}

/-- The counter is the number of buffered envelopes. -/
def Counted (buffer : BoundedOutboundBuffer) : Prop :=
  buffer.used = Assoc.sumValues List.length buffer.bufferByStream

theorem bufferOf_insert : (buffer.insert serverEnvelope).bufferOf found =
    if serverEnvelope.key = found then buffer.bufferOf found ++ [serverEnvelope] else buffer.bufferOf found := by
  by_cases h : serverEnvelope.key = found
  · subst h
    simp [insert, bufferOf]
  · simp [insert, bufferOf, h, AList.lookup_insert_ne (Ne.symm h)]

theorem length_bufferOf :
    (buffer.bufferOf key).length = ((buffer.bufferByStream.lookup key).map List.length).getD 0 := by
  rw [bufferOf]
  cases buffer.bufferByStream.lookup key with
  | none => rfl
  | some _ => rfl

theorem Counted.insert (h : buffer.Counted) : (buffer.insert serverEnvelope).Counted := by
  simp only [Counted] at h
  rw [Assoc.sumValues_erase List.length serverEnvelope.key, ← length_bufferOf] at h
  simp only [Counted, BoundedOutboundBuffer.insert, Assoc.sumValues_insert, h, List.length_append, List.length_singleton]
  omega

/-- The numbers grow, so what is acknowledged is at the front. -/
theorem popAcked_eq {envelopes : List ServerEnvelope} (hsorted : envelopes.Pairwise (·.seqId ≤ ·.seqId)) (used : Int) :
    popAcked ackedSeqId envelopes used =
      (envelopes.filter (fun serverEnvelope => ackedSeqId < serverEnvelope.seqId),
        used - envelopes.length +
          (envelopes.filter fun serverEnvelope => ackedSeqId < serverEnvelope.seqId).length) := by
  induction envelopes generalizing used with
  | nil => simp [popAcked]
  | cons first rest ih =>
      obtain ⟨hfirst, hrest⟩ := List.pairwise_cons.mp hsorted
      rw [popAcked]
      by_cases h : first.seqId ≤ ackedSeqId
      · rw [if_pos h, ih hrest, List.filter_cons_of_neg (by simpa using h), List.length_cons]
        congr 1
        omega
      · have hall : (first :: rest).filter (fun serverEnvelope => ackedSeqId < serverEnvelope.seqId) = first :: rest := by
          rw [List.filter_eq_self]
          intro other hother
          rcases List.mem_cons.mp hother with rfl | hother
          · simpa using h
          · have := hfirst other hother
            simp only [decide_eq_true_eq]
            omega
        rw [if_neg h, hall]
        congr 1
        omega

theorem bufferOf_ack (hsorted : (buffer.bufferOf key).Pairwise (·.seqId ≤ ·.seqId)) :
    (buffer.ack key ackedSeqId).bufferOf found =
      if key = found then (buffer.bufferOf found).filter (fun serverEnvelope => ackedSeqId < serverEnvelope.seqId)
      else buffer.bufferOf found := by
  rw [ack]
  cases h : buffer.bufferByStream.lookup key with
  | none =>
      by_cases heq : key = found
      · subst heq
        simp [bufferOf, h]
      · simp [heq]
  | some envelopes =>
      have hbuffer : buffer.bufferOf key = envelopes := by simp [bufferOf, h]
      rw [hbuffer] at hsorted
      simp only [popAcked_eq hsorted]
      by_cases heq : key = found
      · subst heq
        split
        next hnil => simp [bufferOf, h, hnil]
        next => simp [bufferOf, h]
      · split
        · simp [bufferOf, AList.lookup_erase_ne (Ne.symm heq)]
        · simp [bufferOf, AList.lookup_insert_ne (Ne.symm heq)]

theorem Counted.ack (h : buffer.Counted) (ackedSeqId : Nat) (hsorted : (buffer.bufferOf key).Pairwise (·.seqId ≤ ·.seqId)) :
    (buffer.ack key ackedSeqId).Counted ∧ (buffer.ack key ackedSeqId).used ≤ buffer.used := by
  rw [BoundedOutboundBuffer.ack]
  cases hlookup : buffer.bufferByStream.lookup key with
  | none => exact ⟨h, Int.le_refl _⟩
  | some envelopes =>
      have hbuffer : buffer.bufferOf key = envelopes := by simp [bufferOf, hlookup]
      rw [hbuffer] at hsorted
      have hle := List.length_filter_le (fun serverEnvelope => decide (ackedSeqId < serverEnvelope.seqId)) envelopes
      simp only [Counted] at h
      rw [Assoc.sumValues_erase List.length key, hlookup] at h
      simp only [popAcked_eq hsorted]
      split
      next hnil =>
        simp only [Counted, hnil, h, Option.map_some, Option.getD_some, List.length_nil]
        omega
      next =>
        simp only [Counted, h, Assoc.sumValues_insert, Option.map_some, Option.getD_some]
        omega

end BoundedOutboundBuffer

/-! ## The invariant -/

/-- The numbers of `count` envelopes of a stream. -/
def saturatedSeqIds (count : Nat) : List Nat := (List.range' 1 count).map fun seqId => min seqId (2 ^ 64 - 1)

theorem saturatedSeqIds_succ (count : Nat) :
    saturatedSeqIds (count + 1) = saturatedSeqIds count ++ [min (count + 1) (2 ^ 64 - 1)] := by
  rw [saturatedSeqIds, List.range'_concat, List.map_append, Nat.one_mul, Nat.add_comm 1 count]
  rfl

theorem saturatedSeqIds_sorted (count : Nat) : (saturatedSeqIds count).Pairwise (· ≤ ·) := by
  rw [saturatedSeqIds, List.pairwise_map]
  refine List.Pairwise.imp ?_ List.pairwise_lt_range'
  intro first second h
  omega

theorem saturatedSeqIds_eq {count : Nat} (h : count < 2 ^ 64) : saturatedSeqIds count = List.range' 1 count := by
  rw [saturatedSeqIds]
  conv => rhs; rw [← List.map_id (List.range' 1 count)]
  refine List.map_congr_left fun seqId hmem => ?_
  rw [List.mem_range'_1] at hmem
  exact min_eq_left (by omega)

/-- The envelopes that the writer is about to write. -/
def Writer.pending : Writer → List ServerEnvelope
  | .resending rest => rest
  | .sending serverEnvelope => [serverEnvelope]
  | _ => []

/-- How far the writer is with the envelopes that were buffered when it began. -/
def Writer.Progress (written connected pending : List ServerEnvelope) : Option Writer → Prop
  | none => written <+: connected ∨ connected <+: written
  | some .starting => written = [] ∧ connected = []
  | some (.resending _) => written ++ pending = connected
  | some _ => connected <+: written

namespace Outbound

def pending (process : Outbound) : List ServerEnvelope := (process.writer.map Writer.pending).getD []

variable (serializes : ServerEnvelope → Bool)

/-- What holds of the state and the log, wherever the writer is. -/
structure Books (state : WebsocketState) (log : List Mark) : Prop where
  next : ∀ key, (state.nextSeqIdByStream.lookup key).getD 1 = min ((numberedOf log key).length + 1) (2 ^ 64 - 1)
  seqIds : ∀ key, (numberedOf log key).map (·.seqId) = saturatedSeqIds (numberedOf log key).length
  buffered : ∀ key, state.outboundBuffer.bufferOf key = outstandingOf log key
  counted : state.outboundBuffer.Counted
  bounded : state.outboundBuffer.used ≤ channelCapacity
  serializable : ∀ serverEnvelope, .numbered serverEnvelope ∈ log → serializes serverEnvelope = true
  unserializable : ∀ serverEnvelope, .unserializable serverEnvelope ∈ log → serializes serverEnvelope = false

structure Inv (process : Outbound) : Prop where
  books : Books serializes process.state process.log
  room : process.writer = some (.waiting true) ∨ process.held ≠ [] → process.used < channelCapacity
  taken : process.taken = process.log.filterMap Mark.source ++ process.held
  progress : ∀ key, Writer.Progress (ofStream process.written key) (process.bufferedAtConnect key)
    (ofStream process.pending key) process.writer
  written : ∀ key, (ofStream (process.written ++ process.pending) key).Sublist (numberedOf process.log key)

variable {serializes} {state : WebsocketState} {process : Outbound}

theorem ofStream_append (first second : List ServerEnvelope) :
    ofStream (first ++ second) key = ofStream first key ++ ofStream second key :=
  List.filter_append first second

theorem Books.sorted (h : Books serializes state log) (key : Key) :
    (state.outboundBuffer.bufferOf key).Pairwise (·.seqId ≤ ·.seqId) := by
  rw [h.buffered]
  refine List.Pairwise.sublist outstandingOf_sublist ?_
  rw [← List.pairwise_map, h.seqIds]
  exact saturatedSeqIds_sorted _

theorem inv_new : Inv serializes .new where
  books := {
    next := by simp [new, WebsocketState.new, numberedOf]
    seqIds := fun _ => rfl
    buffered := fun _ => rfl
    counted := rfl
    bounded := by decide
    serializable := by simp [new]
    unserializable := by simp [new] }
  room := by simp [new, held]
  taken := rfl
  progress := fun _ => .inl (List.prefix_refl [])
  written := fun _ => List.Sublist.refl []

/-! ## The writer moves -/

/-- The writer goes on or stops, without a new event. -/
theorem Inv.move (h : Inv serializes process) (next : Option Writer) (written : List ServerEnvelope)
    (hheld : Outbound.held { process with writer := next, written := written } = process.held)
    (hroom : next = some (.waiting true) → process.used < channelCapacity)
    (hprogress : ∀ key, Writer.Progress (ofStream written key) (process.bufferedAtConnect key)
      (ofStream ((next.map Writer.pending).getD []) key) next)
    (hwritten : ∀ key, (ofStream (written ++ (next.map Writer.pending).getD []) key).Sublist
      (ofStream (process.written ++ process.pending) key)) :
    Inv serializes { process with writer := next, written := written } where
  books := h.books
  room := by
    rw [hheld]
    rintro (hnext | hnil)
    · exact hroom hnext
    · exact h.room (.inr hnil)
  taken := by
    rw [hheld]
    exact h.taken
  progress := hprogress
  written := fun key => (hwritten key).trans (h.written key)

theorem Inv.serializes_pending (h : Inv serializes process) (hmem : serverEnvelope ∈ process.pending) :
    serializes serverEnvelope = true := by
  have hwritten : serverEnvelope ∈ ofStream (process.written ++ process.pending) serverEnvelope.key := by
    simp [ofStream, hmem]
  have hnumbered := (h.written serverEnvelope.key).subset hwritten
  exact h.books.serializable _ (mem_numberedOf.mp hnumbered).1

theorem Inv.queue (h : Inv serializes process) (queue : List QueuedServerEnvelope) :
    Inv serializes { process with queue := queue } :=
  ⟨h.books, h.room, h.taken, h.progress, h.written⟩

theorem Inv.connect (h : Inv serializes process) (hwriter : process.writer = none) :
    Inv serializes { process with writer := some .starting, atConnect := ∅, written := [] } where
  books := h.books
  room := by simp [held]
  taken := by simpa [held, hwriter] using h.taken
  progress := fun _ => ⟨rfl, rfl⟩
  written := fun _ => List.nil_sublist _

theorem Inv.wake (h : Inv serializes process) {outboundHasCapacity : Bool}
    (hwriter : process.writer = some (.waiting outboundHasCapacity)) :
    Inv serializes { process with writer := some .looping } := by
  refine h.move (some .looping) process.written ?_ ?_ ?_ ?_
  · simp [held, hwriter]
  · simp
  · intro key
    simpa [Writer.Progress, hwriter] using h.progress key
  · intro key
    simp [pending, hwriter, Writer.pending]

theorem prefix_of_sent (sent : Bool) (rest : List ServerEnvelope) :
    (if sent then [serverEnvelope] else []) <+: serverEnvelope :: rest := by
  cases sent with
  | false => exact List.nil_prefix
  | true => exact List.prefix_append [serverEnvelope] rest

theorem Inv.disconnect (h : Inv serializes process) (sent : Bool) :
    Inv serializes (process.disconnect serializes sent) := by
  rw [Outbound.disconnect]
  split
  next serverEnvelope rest hwriter =>
    split
    · refine h.move none _ ?_ ?_ ?_ ?_
      · simp [held, hwriter]
      · simp
      · intro key
        have hprogress := h.progress key
        simp only [hwriter, Writer.Progress, pending, Option.map_some, Option.getD_some, Writer.pending] at hprogress
        refine .inl ?_
        rw [← hprogress, ofStream_append, List.prefix_append_right_inj]
        exact (prefix_of_sent sent rest).filter _
      · intro key
        simp only [pending, hwriter, Option.map_some, Option.map_none, Option.getD_some, Option.getD_none,
          Writer.pending, List.append_nil]
        exact List.Sublist.filter _ (List.Sublist.append_left (prefix_of_sent sent rest).sublist _)
    · exact h
  next hwriter =>
    refine h.move none process.written ?_ ?_ ?_ ?_
    · simp [held, hwriter]
    · simp
    · intro key
      have hprogress := h.progress key
      rw [hwriter] at hprogress
      exact .inr hprogress
    · intro key
      simp [pending, hwriter, Writer.pending]
  next serverEnvelope hwriter =>
    refine h.move none _ ?_ ?_ ?_ ?_
    · simp [held, hwriter]
    · simp
    · intro key
      have hprogress := h.progress key
      rw [hwriter] at hprogress
      rw [ofStream_append]
      exact .inr (List.IsPrefix.trans hprogress (List.prefix_append _ _))
    · intro key
      simp only [pending, hwriter, Option.map_some, Option.map_none, Option.getD_some, Option.getD_none,
        Writer.pending, List.append_nil]
      exact List.Sublist.filter _ (List.Sublist.append_left (prefix_of_sent sent []).sublist _)
  next => exact h

/-! ## The buffer is sent again -/

/-- A walk over the map meets each stream once. -/
theorem ofStream_flatMap {order : List Key} (hnodup : order.Nodup) {bufferOf : Key → List ServerEnvelope}
    (hown : ∀ key, ∀ serverEnvelope ∈ bufferOf key, serverEnvelope.key = key) :
    ofStream (order.flatMap bufferOf) key = if key ∈ order then bufferOf key else [] := by
  induction order with
  | nil => rfl
  | cons first order ih =>
      obtain ⟨hfirst, hrest⟩ := List.nodup_cons.mp hnodup
      rw [List.flatMap_cons, ofStream_append, ih hrest]
      by_cases heq : key = first
      · subst heq
        have hall : ofStream (bufferOf key) key = bufferOf key := by
          rw [ofStream, List.filter_eq_self]
          intro serverEnvelope hmem
          simpa using hown key serverEnvelope hmem
        simp [hall, hfirst]
      · have hnone : ofStream (bufferOf first) key = [] := by
          rw [ofStream, List.filter_eq_nil_iff]
          intro serverEnvelope hmem
          simpa [hown first serverEnvelope hmem] using Ne.symm heq
        simp [hnone, heq]

theorem Books.ofStream_serverEnvelopes (h : Books serializes state log) {order : List Key}
    (horder : order.Perm state.outboundBuffer.bufferByStream.keys) :
    ofStream (state.outboundBuffer.serverEnvelopes order) key = state.outboundBuffer.bufferOf key := by
  have hnodup : order.Nodup := horder.nodup_iff.mpr state.outboundBuffer.bufferByStream.keys_nodup
  rw [BoundedOutboundBuffer.serverEnvelopes, ofStream_flatMap hnodup]
  · split
    next => rfl
    next hkey =>
      have habsent : key ∉ state.outboundBuffer.bufferByStream := fun hmem => hkey (horder.mem_iff.mpr hmem)
      simp [BoundedOutboundBuffer.bufferOf, AList.lookup_eq_none.mpr habsent]
  · intro key serverEnvelope hmem
    rw [h.buffered] at hmem
    exact (mem_outstandingOf.mp hmem).1

theorem Inv.snapshot (h : Inv serializes process) {order : List Key} (hwriter : process.writer = some .starting)
    (horder : order.Perm process.state.outboundBuffer.bufferByStream.keys) :
    Inv serializes { process with
      writer := some (.resending (process.state.outboundBuffer.serverEnvelopes order))
      atConnect := process.state.outboundBuffer.bufferByStream } := by
  have hstart := h.progress
  simp only [hwriter, Writer.Progress] at hstart
  refine ⟨h.books, ?_, ?_, ?_, ?_⟩
  · simp [held]
  · simpa [held, hwriter] using h.taken
  · intro key
    simp only [Writer.Progress, (hstart key).1, pending, Option.map_some, Option.getD_some, Writer.pending,
      h.books.ofStream_serverEnvelopes horder]
    rfl
  · intro key
    simp only [pending, Option.map_some, Option.getD_some, Writer.pending, ofStream_append, (hstart key).1,
      h.books.ofStream_serverEnvelopes horder, h.books.buffered]
    exact outstandingOf_sublist

/-! ## An event gets its number -/

theorem numberedOf_concat (log : List Mark) (key : Key) : numberedOf (log ++ [.numbered serverEnvelope]) key =
    if serverEnvelope.key = key then numberedOf log key ++ [serverEnvelope] else numberedOf log key := by
  rw [numberedOf_append]
  by_cases h : serverEnvelope.key = key
  · simp [numberedOf, h]
  · simp [numberedOf, h]

theorem Books.number (h : Books serializes state log) (hroom : state.outboundBuffer.used < channelCapacity)
    (hseqId : serverEnvelope.seqId = (state.nextSeqIdByStream.lookup serverEnvelope.key).getD 1)
    (hserializes : serializes serverEnvelope = true) :
    Books serializes { state with
      nextSeqIdByStream := state.nextSeqIdByStream.insert serverEnvelope.key (saturatingAdd serverEnvelope.seqId 1)
      outboundBuffer := state.outboundBuffer.insert serverEnvelope } (log ++ [.numbered serverEnvelope]) := by
  rw [h.next] at hseqId
  refine ⟨?_, ?_, ?_, h.counted.insert, ?_, ?_, ?_⟩
  · intro key
    rw [numberedOf_concat]
    by_cases hkey : serverEnvelope.key = key
    · subst hkey
      rw [if_pos rfl, AList.lookup_insert, Option.getD_some, saturatingAdd, hseqId, List.length_append,
        List.length_singleton]
      omega
    · rw [if_neg hkey, AList.lookup_insert_ne (Ne.symm hkey)]
      exact h.next key
  · intro key
    rw [numberedOf_concat]
    by_cases hkey : serverEnvelope.key = key
    · subst hkey
      rw [if_pos rfl, List.map_append, h.seqIds, List.length_append, List.length_singleton, saturatedSeqIds_succ, ← hseqId]
      rfl
    · rw [if_neg hkey]
      exact h.seqIds key
  · intro key
    rw [BoundedOutboundBuffer.bufferOf_insert, outstandingOf_concat, keepOutstanding, h.buffered]
  · simp only [BoundedOutboundBuffer.insert]
    omega
  · intro other hother
    rcases List.mem_append.mp hother with hother | hother
    · exact h.serializable other hother
    · obtain rfl : other = serverEnvelope := by simpa using hother
      exact hserializes
  · intro other hother
    exact h.unserializable other (by simpa using hother)

theorem Books.drop (h : Books serializes state log) (serverEnvelope : ServerEnvelope)
    (hseqId : serverEnvelope.seqId = (state.nextSeqIdByStream.lookup serverEnvelope.key).getD 1)
    (hserializes : serializes serverEnvelope = false) :
    Books serializes { state with
      nextSeqIdByStream := state.nextSeqIdByStream.insert serverEnvelope.key serverEnvelope.seqId }
      (log ++ [.unserializable serverEnvelope]) := by
  have hnumbered : ∀ key, numberedOf (log ++ [.unserializable serverEnvelope]) key = numberedOf log key := by
    intro key
    rw [numberedOf_append]
    exact List.append_nil _
  refine ⟨?_, ?_, ?_, h.counted, h.bounded, ?_, ?_⟩
  · intro key
    rw [hnumbered, ← h.next]
    by_cases hkey : serverEnvelope.key = key
    · subst hkey
      rw [AList.lookup_insert, hseqId]
      rfl
    · rw [AList.lookup_insert_ne (Ne.symm hkey)]
  · intro key
    rw [hnumbered]
    exact h.seqIds key
  · intro key
    rw [outstandingOf_concat]
    exact h.buffered key
  · intro other hother
    exact h.serializable other (by simpa using hother)
  · intro other hother
    rcases List.mem_append.mp hother with hother | hother
    · exact h.unserializable other hother
    · obtain rfl : other = serverEnvelope := by simpa using hother
      exact hserializes

theorem Inv.number (h : Inv serializes process) {queued : QueuedServerEnvelope}
    (hwriter : process.writer = some (.holding queued)) : Inv serializes (process.number serializes queued) := by
  have htaken := h.taken
  have hprogress := h.progress
  have hwritten := h.written
  simp only [held, hwriter] at htaken
  simp only [hwriter, Writer.Progress] at hprogress
  simp only [pending, hwriter, Option.map_some, Option.getD_some, Writer.pending, List.append_nil] at hwritten
  simp only [Outbound.number]
  split
  next hserializes =>
    have hroom : process.used < channelCapacity := h.room (.inr (by simp [held, hwriter]))
    refine ⟨h.books.number hroom rfl hserializes, by simp [held], ?_, hprogress, ?_⟩
    · rw [htaken, List.filterMap_append, held, List.append_nil]
      rfl
    · intro key
      simp only [pending, Option.map_some, Option.getD_some, Writer.pending, ofStream_append, numberedOf_append]
      refine List.Sublist.append (hwritten key) ?_
      by_cases hkey : (queued.toEnvelope ((process.state.nextSeqIdByStream.lookup queued.key).getD 1)).key = key
      · simp [ofStream, numberedOf, hkey]
      · simp [ofStream, hkey]
  next hserializes =>
    have hserializes : serializes (queued.toEnvelope ((process.state.nextSeqIdByStream.lookup queued.key).getD 1)) = false := by
      simpa using hserializes
    refine ⟨h.books.drop _ rfl hserializes, by simp [held], ?_, hprogress, ?_⟩
    · rw [htaken, List.filterMap_append, held, List.append_nil]
      rfl
    · intro key
      rw [numberedOf_append]
      simpa [pending, Writer.pending] using (hwritten key).trans (List.sublist_append_left _ _)

theorem Inv.advance (h : Inv serializes process) : Inv serializes (process.advance serializes) := by
  rw [Outbound.advance]
  split
  next hwriter =>
    have hprogress := h.progress
    simp only [hwriter, Writer.Progress, pending, Option.map_some, Option.getD_some, Writer.pending] at hprogress
    refine h.move (some .looping) process.written (by simp [held, hwriter]) (by simp) ?_ ?_
    · intro key
      simp only [Writer.Progress, ← hprogress key]
      exact (List.append_nil _).symm ▸ List.prefix_refl _
    · intro key
      simp [pending, hwriter, Writer.pending]
  next serverEnvelope rest hwriter =>
    have hpending : process.pending = serverEnvelope :: rest := by simp [pending, hwriter, Writer.pending]
    rw [if_pos (h.serializes_pending (by simp [hpending]))]
    have hprogress := h.progress
    simp only [hwriter, Writer.Progress, hpending] at hprogress
    refine h.move (some (.resending rest)) _ (by simp [held, hwriter]) (by simp) ?_ ?_
    · intro key
      simp only [Writer.Progress, Option.map_some, Option.getD_some, Writer.pending, ← ofStream_append,
        List.append_assoc, List.singleton_append, ← hprogress key]
    · intro key
      simp [hpending, Writer.pending]
  next hwriter =>
    refine h.move (some (.waiting _)) process.written (by simp [held, hwriter]) ?_ ?_ ?_
    · intro hwaiting
      simpa [used] using hwaiting
    · intro key
      simpa [Writer.Progress, hwriter] using h.progress key
    · intro key
      simp [pending, hwriter, Writer.pending]
  next hwriter =>
    split
    · exact h
    next queued queue hqueue =>
      refine ⟨h.books, fun _ => h.room (.inl hwriter), ?_, ?_, ?_⟩
      · simpa [held, hwriter] using h.taken
      · intro key
        have hprogress := h.progress key
        rw [hwriter] at hprogress
        exact hprogress
      · intro key
        simpa [pending, hwriter, Writer.pending] using h.written key
  next queued hwriter => exact h.number hwriter
  next serverEnvelope hwriter =>
    refine h.move (some .looping) _ (by simp [held, hwriter]) (by simp) ?_ ?_
    · intro key
      have hprogress := h.progress key
      rw [hwriter] at hprogress
      rw [ofStream_append]
      exact List.IsPrefix.trans hprogress (List.prefix_append _ _)
    · intro key
      simp [pending, hwriter, Writer.pending]
  next => exact h

/-! ## An acknowledgement -/

theorem numberedOf_acked (log : List Mark) (acked : Key) (seqId : Nat) (key : Key) :
    numberedOf (log ++ [.acked acked seqId]) key = numberedOf log key := by
  rw [numberedOf_append]
  exact List.append_nil _

theorem Books.ack (h : Books serializes state log) (key : Key) (ackedSeqId : Nat) :
    Books serializes { state with outboundBuffer := state.outboundBuffer.ack key ackedSeqId }
      (log ++ [.acked key ackedSeqId]) := by
  obtain ⟨hcounted, hle⟩ := h.counted.ack ackedSeqId (h.sorted key)
  refine ⟨?_, ?_, ?_, hcounted, Int.le_trans hle h.bounded, ?_, ?_⟩
  · intro other
    rw [numberedOf_acked]
    exact h.next other
  · intro other
    rw [numberedOf_acked]
    exact h.seqIds other
  · intro other
    rw [BoundedOutboundBuffer.bufferOf_ack (h.sorted key), outstandingOf_concat, keepOutstanding, h.buffered]
  · intro other hother
    exact h.serializable other (by simpa using hother)
  · intro other hother
    exact h.unserializable other (by simpa using hother)

theorem Books.cursor (h : Books serializes state log) (cursor : Option Text.Str) :
    Books serializes { state with subscribeCursor := cursor } log :=
  ⟨h.next, h.seqIds, h.buffered, h.counted, h.bounded, h.serializable, h.unserializable⟩

theorem Inv.receive (h : Inv serializes process) (envelope : ClientEnvelope) :
    Inv serializes (process.receive envelope) := by
  rw [Outbound.receive]
  split
  next ackedSeqId streamId _ _ _ =>
    refine ⟨(h.books.cursor _).ack (envelope.clientId, streamId) ackedSeqId, ?_, ?_, h.progress, ?_⟩
    · intro hwriter
      have hle := (h.books.counted.ack ackedSeqId (h.books.sorted (envelope.clientId, streamId))).2
      exact Int.lt_of_le_of_lt hle (h.room hwriter)
    · rw [List.filterMap_append, List.append_assoc]
      exact h.taken
    · intro key
      rw [numberedOf_acked]
      exact h.written key
  next => exact ⟨h.books.cursor _, h.room, h.taken, h.progress, h.written⟩

theorem Inv.step (h : Inv serializes process) (action : OutboundAction) :
    Inv serializes (process.step serializes action) := by
  cases action with
  | queue queued =>
      rw [Outbound.step]
      split
      · exact h.queue _
      · exact h
  | connect =>
      rw [Outbound.step]
      split
      next hwriter => exact h.connect hwriter
      next => exact h
  | snapshot order =>
      rw [Outbound.step]
      split
      next hcond =>
        simp only [Bool.and_eq_true, decide_eq_true_eq, List.isPerm_iff] at hcond
        exact h.snapshot hcond.1 hcond.2
      next => exact h
  | advance => exact h.advance
  | wake =>
      rw [Outbound.step]
      split
      next hwriter => exact h.wake hwriter
      next => exact h
  | disconnect sent => exact h.disconnect sent
  | receive envelope => exact h.receive envelope

/-! ## What is delivered -/

theorem Books.increasing (h : Books serializes state log) (hbelow : (numberedOf log key).length < 2 ^ 64) :
    (numberedOf log key).Pairwise (·.seqId < ·.seqId) := by
  rw [← List.pairwise_map, h.seqIds, saturatedSeqIds_eq hbelow]
  exact List.pairwise_lt_range'

theorem Books.not_twice (h : Books serializes state log) {before middle after : List Mark}
    (hbelow : (numberedOf log serverEnvelope.key).length < 2 ^ 64) :
    log ≠ before ++ .numbered serverEnvelope :: (middle ++ .numbered serverEnvelope :: after) := by
  rintro rfl
  have hincreasing := h.increasing hbelow
  rw [numberedOf_append, List.pairwise_append] at hincreasing
  obtain ⟨-, hincreasing, -⟩ := hincreasing
  simp only [numberedOf, List.filterMap_cons, List.filterMap_append, if_true, List.pairwise_cons] at hincreasing
  exact Nat.lt_irrefl _ (hincreasing.1 serverEnvelope (by simp))

/-- An envelope gets its number once. -/
theorem Books.splits_once (h : Books serializes state log) {before after before' after' : List Mark}
    (hbelow : (numberedOf log serverEnvelope.key).length < 2 ^ 64)
    (hlog : log = before ++ .numbered serverEnvelope :: after)
    (hlog' : log = before' ++ .numbered serverEnvelope :: after') : before = before' ∧ after = after' := by
  rcases List.append_eq_append_iff.mp (hlog.symm.trans hlog') with ⟨middle, hbefore, hafter⟩ | ⟨middle, hbefore, hafter⟩
  · cases middle with
    | nil => simpa using And.intro hbefore.symm hafter
    | cons mark middle =>
        obtain ⟨rfl, rfl⟩ := List.cons.inj hafter
        exact absurd hlog (h.not_twice hbelow)
  · cases middle with
    | nil => simpa using And.intro hbefore hafter.symm
    | cons mark middle =>
        obtain ⟨rfl, rfl⟩ := List.cons.inj hafter
        exact absurd hlog' (h.not_twice hbelow)

/-- An event that got a number is buffered until an acknowledgement reaches it. -/
theorem Inv.kept (h : Inv serializes process) (hnumbered : .numbered serverEnvelope ∈ process.log) :
    process.Kept serverEnvelope.source := by
  refine .inr ⟨serverEnvelope, rfl, hnumbered, ?_⟩
  by_cases habove : AboveAcks process.log serverEnvelope
  · left
    obtain ⟨before, after, hlog⟩ := List.append_of_mem hnumbered
    rw [buffered, h.books.buffered, mem_outstandingOf]
    exact ⟨rfl, before, after, hlog, fun seqId hmem => habove seqId (by simp [hlog, hmem])⟩
  · exact .inr habove

theorem Inv.delivered (h : Inv serializes process) : Delivered serializes process where
  consecutive := fun key hbelow => by rw [h.books.seqIds, saturatedSeqIds_eq hbelow]
  outstanding := fun key serverEnvelope => by
    rw [buffered, h.books.buffered]
    exact mem_outstandingOf
  aboveAcks := by
    rintro serverEnvelope hbelow ⟨before, after, hlog, hbefore⟩
    rw [buffered, h.books.buffered, mem_outstandingOf]
    constructor
    · rintro ⟨-, before', after', hlog', hafter⟩ seqId hmem
      obtain ⟨rfl, rfl⟩ := h.books.splits_once hbelow hlog hlog'
      rw [hlog] at hmem
      rcases List.mem_append.mp hmem with hmem | hmem
      · exact hbefore seqId hmem
      · exact hafter seqId (by simpa using hmem)
    · intro habove
      exact ⟨rfl, before, after, hlog, fun seqId hmem => habove seqId (by simp [hlog, hmem])⟩
  ordered := fun key hbelow => by
    rw [buffered, h.books.buffered]
    exact List.Pairwise.sublist outstandingOf_sublist (h.books.increasing hbelow)
  used := h.books.counted
  bounded := ⟨by rw [used, h.books.counted]; exact Int.natCast_nonneg _, h.books.bounded⟩
  increasing := fun key hbelow => by
    have hwritten := h.written key
    rw [ofStream_append] at hwritten
    exact List.Pairwise.sublist ((List.sublist_append_left _ _).trans hwritten) (h.books.increasing hbelow)
  resending := fun key => by
    have hprogress := h.progress key
    match hwriter : process.writer with
    | none => rwa [hwriter] at hprogress
    | some .starting =>
        rw [hwriter] at hprogress
        exact .inl (hprogress.1 ▸ List.nil_prefix)
    | some (.resending rest) =>
        rw [hwriter] at hprogress
        exact .inl (hprogress ▸ List.prefix_append _ _)
    | some .looping | some (.waiting _) | some (.holding _) | some (.sending _) =>
        rw [hwriter] at hprogress
        exact .inr hprogress
  resent := by
    rintro ⟨writer, hwriter, hstarting, hresending⟩ key
    have hprogress := h.progress key
    rw [hwriter] at hprogress
    cases writer with
    | starting => exact absurd rfl hstarting
    | resending rest => exact absurd rfl (hresending rest)
    | looping | waiting _ | holding _ | sending _ => exact hprogress
  taken := h.taken
  kept := by
    intro queued hmem
    rw [h.taken] at hmem
    rcases List.mem_append.mp hmem with hmem | hheld
    · obtain ⟨mark, hmark, hsource⟩ := List.mem_filterMap.mp hmem
      cases mark with
      | numbered serverEnvelope =>
          obtain rfl := Option.some.inj hsource
          exact .inl (h.kept hmark)
      | unserializable serverEnvelope =>
          exact .inr ⟨serverEnvelope, Option.some.inj hsource, hmark, h.books.unserializable serverEnvelope hmark⟩
      | acked _ _ => cases hsource
    · exact .inl (.inl hheld)

end Outbound

end Codrex.RemoteControl
