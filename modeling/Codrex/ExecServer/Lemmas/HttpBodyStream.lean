import Codrex.ExecServer.HttpBodyStream

/-!
# What a stream returns
-/

namespace Codrex.ExecServer

open Text Transition

/-! ## What a stream has returned -/

/-- Something other than a chunk was returned. -/
def Ended (returned : List RecvResult) : Prop := ∃ result ∈ returned, ∀ chunk, result ≠ chunkResult chunk

theorem not_ended_chunks (chunks : List (List UInt8)) : ¬ Ended (chunks.map chunkResult) := by
  rintro ⟨result, hmem, hresult⟩
  obtain ⟨chunk, -, rfl⟩ := List.mem_map.mp hmem
  exact hresult chunk rfl

theorem map_chunkResult_concat (chunks : List (List UInt8)) (chunk : List UInt8) :
    chunks.map chunkResult ++ [.ok (some chunk)] = (chunks ++ [chunk]).map chunkResult := by
  rw [List.map_append]
  rfl

theorem Ended.append {returned : List RecvResult} (h : Ended returned) (more : List RecvResult) :
    Ended (returned ++ more) := by
  obtain ⟨result, hmem, hresult⟩ := h
  exact ⟨result, List.mem_append_left _ hmem, hresult⟩

theorem ended_concat {result : RecvResult} (h : ∀ chunk, result ≠ chunkResult chunk) (returned : List RecvResult) :
    Ended (returned ++ [result]) := ⟨result, by simp, h⟩

theorem end_ne_chunk (chunk : List UInt8) : (.ok none : RecvResult) ≠ chunkResult chunk := by
  intro h
  cases h

theorem error_ne_chunk (error : Str) (chunk : List UInt8) : (.error error : RecvResult) ≠ chunkResult chunk := by
  intro h
  cases h

/-- The first thing that is no chunk can be found in one way only. -/
theorem eq_of_chunks_append {chunks others : List (List UInt8)} {first second : RecvResult} {rest rest' : List RecvResult}
    (hfirst : ∀ chunk, first ≠ chunkResult chunk) (hsecond : ∀ chunk, second ≠ chunkResult chunk)
    (h : chunks.map chunkResult ++ first :: rest = others.map chunkResult ++ second :: rest') :
    chunks = others ∧ first = second := by
  induction chunks generalizing others with
  | nil =>
      cases others with
      | nil => exact ⟨rfl, (List.cons.inj h).1⟩
      | cons other others => exact absurd (List.cons.inj h).1 (hfirst other)
  | cons chunk chunks ih =>
      cases others with
      | nil => exact absurd (List.cons.inj h).1.symm (hsecond chunk)
      | cons other others =>
          obtain ⟨hhead, htail⟩ := List.cons.inj h
          obtain ⟨rfl, hsame⟩ := ih htail
          cases hhead
          exact ⟨rfl, hsame⟩

variable {received more : List HttpRequestBodyDeltaNotification} {requestId : Str}

theorem Delivered.mono {deltas : List HttpRequestBodyDeltaNotification} (h : Delivered received requestId deltas)
    (hmore : received ⊆ more) : Delivered more requestId deltas :=
  ⟨h.seqs, fun delta hdelta => ⟨hmore (h.arrived delta hdelta).1, (h.arrived delta hdelta).2⟩⟩

theorem EndsCleanly.mono {chunks : List (List UInt8)} (h : EndsCleanly received requestId chunks)
    (hmore : received ⊆ more) : EndsCleanly more requestId chunks := by
  obtain ⟨deltas, hdelivered, hlast⟩ := h
  exact ⟨deltas, hdelivered.mono hmore, hlast⟩

theorem Delivered.concat {deltas : List HttpRequestBodyDeltaNotification} {delta : HttpRequestBodyDeltaNotification}
    (h : Delivered received requestId deltas) (hseq : delta.seq = deltas.length + 1) (hmem : delta ∈ received)
    (hrequest : delta.requestId = requestId) : Delivered received requestId (deltas ++ [delta]) := by
  refine ⟨?_, ?_⟩
  · rw [List.map_append, h.seqs, List.length_append, List.length_singleton, List.range'_concat, List.map_singleton, hseq]
    simp [Nat.add_comm]
  · intro other hother
    rcases List.mem_append.mp hother with hold | hnew
    · exact h.arrived other hold
    · obtain rfl := List.mem_singleton.mp hnew
      exact ⟨hmem, hrequest⟩

/-- The stream has returned the chunks of the deltas in front of the next one. -/
def Reads (received : List HttpRequestBodyDeltaNotification) (stream : HttpResponseBodyStream)
    (returned : List RecvResult) : Prop :=
  ∃ (chunks : List (List UInt8)) (deltas : List HttpRequestBodyDeltaNotification),
    returned = chunks.map chunkResult ∧ Delivered received stream.requestId deltas ∧
      stream.nextSeq = deltas.length + 1 ∧ chunks.flatten = (deltas.map HttpRequestBodyDeltaNotification.delta).flatten

/-- A clean end was a true one. -/
def Verdict (received : List HttpRequestBodyDeltaNotification) (requestId : Str) (returned : List RecvResult) : Prop :=
  ∀ chunks rest, returned = chunks.map chunkResult ++ .ok none :: rest → EndsCleanly received requestId chunks

theorem verdict_chunks (chunks : List (List UInt8)) : Verdict received requestId (chunks.map chunkResult) := by
  intro others rest heq
  have hended : Ended (others.map chunkResult ++ .ok none :: rest) := ⟨.ok none, by simp, end_ne_chunk⟩
  exact absurd (heq ▸ hended) (not_ended_chunks chunks)

theorem Verdict.end {chunks : List (List UInt8)} (h : EndsCleanly received requestId chunks) :
    Verdict received requestId (chunks.map chunkResult ++ [.ok none]) := by
  intro others rest heq
  obtain ⟨rfl, -⟩ := eq_of_chunks_append end_ne_chunk end_ne_chunk heq
  exact h

theorem Verdict.error (chunks : List (List UInt8)) (error : Str) :
    Verdict received requestId (chunks.map chunkResult ++ [.error error]) := by
  intro others rest heq
  obtain ⟨-, hsame⟩ := eq_of_chunks_append (error_ne_chunk error) end_ne_chunk heq
  cases hsame

/-- What is returned after the end does not matter. -/
theorem Verdict.append {returned : List RecvResult} (h : Verdict received requestId returned) (hended : Ended returned)
    (later : List RecvResult) : Verdict received requestId (returned ++ later) := by
  intro chunks rest heq
  rcases List.append_eq_append_iff.mp heq with ⟨middle, hchunks, -⟩ | ⟨middle, hreturned, hrest⟩
  · -- What was returned would be chunks.
    obtain ⟨first, second, rfl, hfirst, -⟩ := List.map_eq_append_iff.mp hchunks
    exact absurd (hfirst ▸ hended) (not_ended_chunks first)
  · cases middle with
    | nil =>
        rw [List.append_nil] at hreturned
        exact absurd (hreturned ▸ hended) (not_ended_chunks chunks)
    | cons result middle =>
        obtain ⟨rfl, -⟩ := List.cons.inj hrest
        exact h chunks middle hreturned

theorem Verdict.mono {returned : List RecvResult} (h : Verdict received requestId returned)
    (hmore : received ⊆ more) : Verdict more requestId returned :=
  fun chunks rest heq => (h chunks rest heq).mono hmore

/-- Where the stream stands between two calls. -/
structure ConsumerOk (received : List HttpRequestBodyDeltaNotification) (stream : HttpResponseBodyStream)
    (returned : List RecvResult) : Prop where
  verdict : Verdict received stream.requestId returned
  opened : stream.closed = false → stream.pendingEof = false ∧ Reads received stream returned
  pending : stream.closed = true → stream.pendingEof = true → Ended returned ∨
    ∃ chunks : List (List UInt8), returned = chunks.map chunkResult ∧ EndsCleanly received stream.requestId chunks
  ended : stream.closed = true → stream.pendingEof = false → Ended returned

theorem ConsumerOk.mono {stream : HttpResponseBodyStream} {returned : List RecvResult}
    (h : ConsumerOk received stream returned) (hmore : received ⊆ more) : ConsumerOk more stream returned where
  verdict := h.verdict.mono hmore
  opened hclosed := by
    obtain ⟨hpending, chunks, deltas, heq, hdelivered, hseq, hcontents⟩ := h.opened hclosed
    exact ⟨hpending, chunks, deltas, heq, hdelivered.mono hmore, hseq, hcontents⟩
  pending hclosed hpending := by
    rcases h.pending hclosed hpending with hended | ⟨chunks, heq, hclean⟩
    · exact .inl hended
    · exact .inr ⟨chunks, heq, hclean.mono hmore⟩
  ended := h.ended

theorem consumerOk_remote : ConsumerOk received (.remote requestId) [] where
  verdict := verdict_chunks []
  opened _ := ⟨rfl, [], [], rfl, ⟨rfl, by simp⟩, rfl, rfl⟩
  pending hclosed := by cases hclosed
  ended hclosed := by cases hclosed

/-- A stream that has ended stays in order, whatever it returns. -/
theorem ConsumerOk.of_ended {stream : HttpResponseBodyStream} {returned : List RecvResult}
    (hverdict : Verdict received stream.requestId returned) (hended : Ended returned) (hclosed : stream.closed = true) :
    ConsumerOk received stream returned where
  verdict := hverdict
  opened hopen := by
    rw [hclosed] at hopen
    cases hopen
  pending _ _ := .inl hended
  ended _ _ := hended

/-! ## The tasks of a request -/

namespace HttpBodyTask

/-- The task of the caller. -/
def owns (requestId : Str) : HttpBodyTask → Bool
  | inserting other => other = some requestId
  | requesting other => other = requestId
  | abandoning other => other = requestId
  | streaming stream _ => stream.requestId = requestId
  | finishing stream _ _ => stream.requestId = requestId
  | takingFailure stream _ => stream.requestId = requestId
  | _ => false

/-- The caller is not through with the stream. -/
def isOpen (requestId : Str) : HttpBodyTask → Bool
  | requesting other => other = requestId
  | streaming stream _ => stream.requestId = requestId && !stream.closed
  | _ => false

/-- The task is about to remove the route. -/
def unroutes (requestId : Str) : HttpBodyTask → Bool
  | removing other => other = requestId
  | unrouting other => other = requestId
  | _ => false

/-- The task is about to fail the stream. -/
def fails (requestId : Str) : HttpBodyTask → Bool
  | failingAll _ streams => streams.contains requestId
  | recordingFailed _ other streams => other = requestId || streams.contains requestId
  | _ => false

/-- The stream has come to the end of its channel, which has to be a failure. -/
def looksUp (requestId : Str) : HttpBodyTask → Prop
  | finishing stream none results => stream.requestId = requestId ∧ ¬ Ended results
  | takingFailure stream results => stream.requestId = requestId ∧ ¬ Ended results
  | _ => False

/-- The task is the caller's, with a stream of the request. -/
def OfStream (requestId : Str) : HttpBodyTask → Prop
  | streaming stream _ => stream.requestId = requestId
  | finishing stream _ _ => stream.requestId = requestId
  | takingFailure stream _ => stream.requestId = requestId
  | _ => False

/-- What is returned so far is in order, and what is sent has arrived. -/
def InOrder (received : List HttpRequestBodyDeltaNotification) : HttpBodyTask → Prop
  | streaming stream results => ConsumerOk received stream results
  | finishing stream (some result) results => stream.closed = true ∧ ConsumerOk received stream (results ++ [result])
  | finishing stream none results => stream.closed = true ∧ Verdict received stream.requestId results ∧
      (Ended results ∨ ∃ chunks : List (List UInt8), results = chunks.map chunkResult)
  | takingFailure stream results => stream.closed = true ∧ Verdict received stream.requestId results ∧
      (Ended results ∨ ∃ chunks : List (List UInt8), results = chunks.map chunkResult)
  | sending params => params ∈ received
  | _ => True

variable {task : HttpBodyTask}

theorem owns_of_isOpen (h : task.isOpen requestId = true) : task.owns requestId = true := by
  cases task with
  | requesting other => exact h
  | streaming stream results => exact (Bool.and_eq_true_iff.mp h).1
  | _ => cases h

theorem owns_of_looksUp (h : task.looksUp requestId) : task.owns requestId = true := by
  cases task with
  | finishing stream result results =>
      cases result with
      | none => exact decide_eq_true h.1
      | some result => exact h.elim
  | takingFailure stream results => exact decide_eq_true h.1
  | _ => exact h.elim

theorem holdsSender_of_fails (h : task.fails requestId = true) : task.holdsSender requestId = true := by
  cases task with
  | failingAll message streams => exact h
  | recordingFailed message other streams => exact h
  | _ => cases h

theorem InOrder.mono (h : task.InOrder received) (hmore : received ⊆ more) : task.InOrder more := by
  cases task with
  | streaming stream results => exact ConsumerOk.mono h hmore
  | finishing stream result results =>
      cases result with
      | none => exact ⟨h.1, h.2.1.mono hmore, h.2.2⟩
      | some result => exact ⟨h.1, h.2.mono hmore⟩
  | takingFailure stream results => exact ⟨h.1, h.2.1.mono hmore, h.2.2⟩
  | sending params => exact hmore h
  | _ => trivial

end HttpBodyTask

open HttpBodyTask

/-! ## Receiving -/

namespace HttpResponseBodyStream

variable {stream : HttpResponseBodyStream} {returned : List RecvResult} {result : Option RecvResult}
  {delta : HttpRequestBodyDeltaNotification}

theorem ofStream_finishRemoteStream : (stream.finishRemoteStream returned result).OfStream stream.requestId := by
  rw [finishRemoteStream]
  split
  · cases result <;> rfl
  · rfl

theorem not_isOpen_finishRemoteStream : (stream.finishRemoteStream returned result).isOpen requestId = false := by
  rw [finishRemoteStream]
  split
  next hclosed =>
    cases result with
    | none => rfl
    | some result => simp [answer, isOpen, hclosed]
  next => rfl

theorem not_looksUp_finishRemoteStream {result : RecvResult} :
    ¬ (stream.finishRemoteStream returned (some result)).looksUp requestId := by
  rw [finishRemoteStream]
  split <;> exact not_false

theorem inOrder_finishRemoteStream {result : RecvResult}
    (h : ConsumerOk received { stream with closed := true } (returned ++ [result])) :
    (stream.finishRemoteStream returned (some result)).InOrder received := by
  rw [finishRemoteStream]
  split
  next hclosed =>
    obtain ⟨requestId, nextSeq, pendingEof, closed⟩ := stream
    cases hclosed
    exact h
  next => exact ⟨rfl, h⟩

theorem ofStream_recvDelta : (stream.recvDelta returned delta).OfStream stream.requestId := by
  rw [recvDelta]
  split
  · exact ofStream_finishRemoteStream
  · dsimp only
    split
    · exact ofStream_finishRemoteStream
    · split
      · split <;> exact ofStream_finishRemoteStream
      · rfl

theorem of_isOpen_recvDelta (h : (stream.recvDelta returned delta).isOpen requestId = true) :
    stream.closed = false ∧ delta.terminalDelta = false := by
  rw [recvDelta] at h
  split at h
  · cases not_isOpen_finishRemoteStream.symm.trans h
  · dsimp only at h
    split at h
    · cases not_isOpen_finishRemoteStream.symm.trans h
    next herror =>
      split at h
      · split at h <;> cases not_isOpen_finishRemoteStream.symm.trans h
      next hdone => simp_all [isOpen, HttpRequestBodyDeltaNotification.terminalDelta]

theorem not_looksUp_recvDelta : ¬ (stream.recvDelta returned delta).looksUp requestId := by
  rw [recvDelta]
  split
  · exact not_looksUp_finishRemoteStream
  · dsimp only
    split
    · exact not_looksUp_finishRemoteStream
    · split
      · split <;> exact not_looksUp_finishRemoteStream
      · exact not_false

theorem verdict_error (h : ConsumerOk received stream returned) (hpending : stream.pendingEof = false) (error : Str) :
    Verdict received stream.requestId (returned ++ [.error error]) := by
  cases hclosed : stream.closed with
  | true => exact h.verdict.append (h.ended hclosed hpending) _
  | false =>
      obtain ⟨-, chunks, deltas, rfl, -⟩ := h.opened hclosed
      exact .error chunks error

/-- The deltas that are read and the next one. -/
theorem delivered_next {chunks : List (List UInt8)} {deltas : List HttpRequestBodyDeltaNotification}
    (hdelivered : Delivered received stream.requestId deltas) (hseq : stream.nextSeq = deltas.length + 1)
    (hcontents : chunks.flatten = (deltas.map HttpRequestBodyDeltaNotification.delta).flatten)
    (hnext : delta.seq = stream.nextSeq) (hdelta : delta ∈ received ∧ delta.requestId = stream.requestId) :
    Delivered received stream.requestId (deltas ++ [delta]) ∧
      (chunks ++ [delta.delta]).flatten =
        ((deltas ++ [delta]).map HttpRequestBodyDeltaNotification.delta).flatten := by
  refine ⟨hdelivered.concat (hnext.trans hseq) hdelta.1 hdelta.2, ?_⟩
  rw [List.flatten_append, hcontents, List.map_append, List.flatten_append, List.map_singleton]

/-- A gap or an error ends the stream, and a delta without one is the next of the body. -/
theorem inOrder_recvDelta (h : ConsumerOk received stream returned) (hpending : stream.pendingEof = false)
    (hdelta : delta.error = none → delta ∈ received ∧ delta.requestId = stream.requestId) :
    (stream.recvDelta returned delta).InOrder received := by
  rw [recvDelta]
  split
  next =>
    exact inOrder_finishRemoteStream (.of_ended (verdict_error h hpending _) (ended_concat (error_ne_chunk _) _) rfl)
  next hseq =>
    rw [not_not] at hseq
    dsimp only
    split
    next error _ =>
      have hverdict := verdict_error h hpending (failedText { stream with nextSeq := stream.nextSeq + 1 } error)
      exact inOrder_finishRemoteStream (.of_ended hverdict (ended_concat (error_ne_chunk _) _) rfl)
    next herror =>
      have hgiven := hdelta herror
      split
      next hdone =>
        split
        next hempty =>
          refine inOrder_finishRemoteStream (.of_ended ?_ (ended_concat end_ne_chunk _) rfl)
          cases hclosed : stream.closed with
          | true => exact h.verdict.append (h.ended hclosed hpending) _
          | false =>
              obtain ⟨-, chunks, deltas, rfl, hdelivered, hnext, hcontents⟩ := h.opened hclosed
              obtain ⟨hall, hflatten⟩ := delivered_next hdelivered hnext hcontents hseq hgiven
              refine .end ⟨deltas ++ [delta], hall, ⟨delta, List.getLast?_concat, hdone, herror⟩, ?_⟩
              rw [← hflatten, hempty]
              simp
        next =>
          apply inOrder_finishRemoteStream
          cases hclosed : stream.closed with
          | true =>
              have hended := h.ended hclosed hpending
              exact .of_ended (h.verdict.append hended _) (hended.append _) rfl
          | false =>
              obtain ⟨-, chunks, deltas, rfl, hdelivered, hnext, hcontents⟩ := h.opened hclosed
              obtain ⟨hall, hflatten⟩ := delivered_next hdelivered hnext hcontents hseq hgiven
              rw [map_chunkResult_concat]
              refine ⟨verdict_chunks _, (fun hopen => by cases hopen), fun _ _ => .inr ⟨_, rfl, ?_⟩,
                (fun _ hpending => by cases hpending)⟩
              exact ⟨deltas ++ [delta], hall, ⟨delta, List.getLast?_concat, hdone, herror⟩, hflatten⟩
      next =>
        cases hclosed : stream.closed with
        | true =>
            have hended := h.ended hclosed hpending
            exact .of_ended (h.verdict.append hended _) (hended.append _) rfl
        | false =>
            obtain ⟨-, chunks, deltas, rfl, hdelivered, hnext, hcontents⟩ := h.opened hclosed
            obtain ⟨hall, hflatten⟩ := delivered_next hdelivered hnext hcontents hseq hgiven
            rw [map_chunkResult_concat]
            refine ⟨verdict_chunks _, fun _ => ⟨hpending, _, deltas ++ [delta], rfl, hall, ?_, hflatten⟩,
              fun hopen => ?_, fun hopen => ?_⟩
            · rw [List.length_append, List.length_singleton, ← hnext]
            · cases hopen
            · cases hopen

theorem inOrder_end (h : ConsumerOk received stream returned) (hpending : stream.pendingEof = true) :
    ({ stream with pendingEof := false }.finishRemoteStream returned (some (.ok none))).InOrder received := by
  refine inOrder_finishRemoteStream (.of_ended ?_ (ended_concat end_ne_chunk _) rfl)
  cases hclosed : stream.closed with
  | true =>
      rcases h.pending hclosed hpending with hended | ⟨chunks, rfl, hclean⟩
      · exact h.verdict.append hended _
      · exact .end hclean
  | false => cases hpending.symm.trans (h.opened hclosed).1

theorem inOrder_drained (h : ConsumerOk received stream returned) (hpending : stream.pendingEof = false) :
    (stream.finishRemoteStream returned none).InOrder received := by
  have hreturned : Ended returned ∨ ∃ chunks : List (List UInt8), returned = chunks.map chunkResult := by
    cases hclosed : stream.closed with
    | true => exact .inl (h.ended hclosed hpending)
    | false =>
        obtain ⟨-, chunks, deltas, heq, -⟩ := h.opened hclosed
        exact .inr ⟨chunks, heq⟩
  rw [finishRemoteStream]
  split
  next hclosed => exact ⟨hclosed, h.verdict, hreturned⟩
  next => exact ⟨rfl, h.verdict, hreturned⟩

theorem open_of_looksUp_drained (h : ConsumerOk received stream returned) (hpending : stream.pendingEof = false)
    (hlooksUp : (stream.finishRemoteStream returned none).looksUp requestId) :
    stream.requestId = requestId ∧ stream.closed = false := by
  rw [finishRemoteStream] at hlooksUp
  split at hlooksUp
  next hclosed => exact absurd (h.ended hclosed hpending) hlooksUp.2
  next hclosed => exact ⟨hlooksUp.1, Bool.not_eq_true _ ▸ hclosed⟩

end HttpResponseBodyStream

end Codrex.ExecServer
