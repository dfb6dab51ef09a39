import Codrex.ExecServer.Lemmas.Process
import Codrex.ExecServer.LocalProcess

/-!
# Pages of output

What is retained is the end of what was emitted, and a page is the beginning of what is retained behind the place where
the last one stopped.
-/

namespace Codrex.ExecServer

open Fallible

/-! ## One page -/

theorem sizeOfChunks_append (first second : List ProcessOutputChunk) :
    sizeOfChunks (first ++ second) = sizeOfChunks first + sizeOfChunks second := by
  simp [sizeOfChunks]

theorem sizeOfChunks_singleton (chunk : ProcessOutputChunk) : sizeOfChunks [chunk] = chunk.chunk.length := by
  simp [sizeOfChunks]

/-- The page goes on with the first of the chunks, and stops behind the last one taken. -/
theorem collectChunks_takes (maxBytes : Nat) (rest chunks : List ProcessOutputChunk) (totalBytes nextSeq : Nat) :
    ∃ taken left, rest = taken ++ left ∧ (collectChunks maxBytes rest chunks totalBytes nextSeq).1 = chunks ++ taken ∧
      (collectChunks maxBytes rest chunks totalBytes nextSeq).2 = (taken.getLast?.map (·.seq + 1)).getD nextSeq ∧
      (taken = [] → chunks = [] → rest = []) := by
  induction rest generalizing chunks totalBytes nextSeq with
  | nil => exact ⟨[], [], rfl, (List.append_nil _).symm, rfl, fun _ _ => rfl⟩
  | cons retained rest ih =>
      rw [collectChunks]
      split
      next hfull => exact ⟨[], _, rfl, (List.append_nil _).symm, rfl, fun _ hnone => absurd hnone hfull.1⟩
      next =>
        split
        next => exact ⟨[retained], rest, rfl, rfl, rfl, fun hnone => nomatch hnone⟩
        next =>
          obtain ⟨taken, left, hrest, hchunks, hnext, -⟩ :=
            ih (chunks ++ [retained]) (totalBytes + retained.chunk.length) (retained.seq + 1)
          refine ⟨retained :: taken, left, congrArg (retained :: ·) hrest, ?_, ?_, fun hnone => nomatch hnone⟩
          · rw [hchunks, List.append_assoc]
            rfl
          · rw [hnext]
            cases taken with
            | nil => rfl
            | cons first taken =>
                rw [List.getLast?_cons_cons, List.getLast?_eq_some_getLast (List.cons_ne_nil first taken)]
                rfl

theorem collectChunks_bounded (maxBytes : Nat) (rest chunks : List ProcessOutputChunk) (nextSeq : Nat)
    (h : sizeOfChunks chunks ≤ maxBytes) :
    sizeOfChunks (collectChunks maxBytes rest chunks (sizeOfChunks chunks) nextSeq).1 ≤ maxBytes ∨
      (collectChunks maxBytes rest chunks (sizeOfChunks chunks) nextSeq).1.length = 1 := by
  induction rest generalizing chunks nextSeq with
  | nil => exact .inl h
  | cons retained rest ih =>
      have hsize : sizeOfChunks (chunks ++ [retained]) = sizeOfChunks chunks + retained.chunk.length := by
        rw [sizeOfChunks_append, sizeOfChunks_singleton]
      rw [collectChunks]
      split
      next => exact .inl h
      next hfits =>
        split
        next =>
          by_cases hnone : chunks = []
          · subst hnone
            exact .inr rfl
          · left
            rw [hsize]
            exact Nat.le_of_not_lt fun hover => hfits ⟨hnone, hover⟩
        next hunder =>
          rw [← hsize]
          apply ih
          omega

/-! ## What is retained -/

/-- What is retained is the end of all output, within the limit. -/
structure Retained (process : RunningProcess) (live : List ExecProcessEvent) : Prop where
  suffix : process.output <:+ outputsOf live
  bytes : process.retainedBytes = sizeOfChunks process.output
  limit : process.retainedBytes ≤ retainedOutputBytesPerProcess

theorem evictOutput_spec {output : List ProcessOutputChunk} {retainedBytes : Nat}
    (h : retainedBytes = sizeOfChunks output) :
    (evictOutput output retainedBytes).1 <:+ output ∧
      (evictOutput output retainedBytes).2 = sizeOfChunks (evictOutput output retainedBytes).1 ∧
      (evictOutput output retainedBytes).2 ≤ retainedOutputBytesPerProcess := by
  induction output generalizing retainedBytes with
  | nil =>
      subst h
      exact ⟨List.suffix_refl _, rfl, Nat.zero_le _⟩
  | cons evicted output ih =>
      rw [evictOutput]
      split
      next =>
        have hbytes : retainedBytes - evicted.chunk.length = sizeOfChunks output := by simp [h, sizeOfChunks]
        obtain ⟨hsuffix, hrest⟩ := ih hbytes
        exact ⟨hsuffix.trans (List.suffix_cons _ _), hrest⟩
      next hfits => exact ⟨List.suffix_refl _, h, Nat.le_of_not_lt hfits⟩

theorem Retained.of_outputs {process process' : RunningProcess} {live live' : List ExecProcessEvent}
    (h : Retained process live) (houtput : process'.output = process.output)
    (hbytes : process'.retainedBytes = process.retainedBytes) (hlive : outputsOf live' = outputsOf live) :
    Retained process' live' := by
  refine ⟨?_, ?_, ?_⟩
  · rw [houtput, hlive]
    exact h.suffix
  · rw [hbytes, houtput]
    exact h.bytes
  · rw [hbytes]
    exact h.limit

theorem Retained.pushOutput {process : RunningProcess} {live : List ExecProcessEvent} (h : Retained process live)
    (stream : ExecOutputStream) (chunk : ByteChunk) :
    Retained (process.pushOutput stream chunk) (live ++ [.output ⟨process.nextSeq, stream, chunk⟩]) := by
  have hbytes : process.retainedBytes + chunk.length =
      sizeOfChunks (process.output ++ [⟨process.nextSeq, stream, chunk⟩]) := by
    rw [sizeOfChunks_append, sizeOfChunks_singleton, h.bytes]
  obtain ⟨hsuffix, hsize, hlimit⟩ := evictOutput_spec hbytes
  refine ⟨hsuffix.trans ?_, hsize, hlimit⟩
  have houtputs : outputsOf (live ++ [.output ⟨process.nextSeq, stream, chunk⟩]) =
      outputsOf live ++ [⟨process.nextSeq, stream, chunk⟩] := by
    simp [outputsOf, ExecProcessEvent.outputChunk]
  rw [houtputs]
  obtain ⟨evicted, hevicted⟩ := h.suffix
  exact ⟨evicted, by rw [← hevicted, List.append_assoc]⟩

/-- What a move of a task makes of the process and of the events: the events go on, and what is retained is as it has to
be. -/
structure KeepsRetained (server server' : Server) : Prop where
  live : server.events.live <+: server'.events.live
  retained : (∀ process ∈ server.process, Retained process server.events.live) →
    ∀ process ∈ server'.process, Retained process server'.events.live

variable {server server' : Server}

theorem KeepsRetained.refl (server : Server) : KeepsRetained server server := ⟨List.prefix_refl _, id⟩

theorem keepsRetained_notify (server : Server) (connected : Bool) (notification : Notification) :
    KeepsRetained server (server.notify connected notification) := by
  rw [Server.notify]
  split
  · exact ⟨List.prefix_refl _, id⟩
  · exact KeepsRetained.refl server

/-- A change of other fields, with an event that is no output. -/
theorem keepsRetained_event {process process' : RunningProcess} {event : ExecProcessEvent}
    (hprocess : server.process = some process) (houtput : process'.output = process.output)
    (hbytes : process'.retainedBytes = process.retainedBytes) (hevent : event.outputChunk = none) :
    KeepsRetained server { server with process := some process', events := server.events.publish event } := by
  refine ⟨List.prefix_append _ _, fun h other hother => ?_⟩
  obtain rfl := Option.some.inj hother
  refine (h process hprocess).of_outputs houtput hbytes ?_
  simp [live_publish, outputsOf, hevent]

theorem keepsRetained_emitClosed (server : Server) (found : Surroundings) (phase : EmitClosed) :
    KeepsRetained server (moveEmitClosed server found phase).1 := by
  cases phase with
  | locking =>
      rw [moveEmitClosed]
      split
      · exact KeepsRetained.refl server
      next process hprocess =>
        split
        · exact KeepsRetained.refl server
        · exact keepsRetained_event hprocess rfl rfl rfl
  | notifying notification => exact keepsRetained_notify server found.connected notification
  | returned => exact KeepsRetained.refl server

theorem keepsRetained_streamOutput (server : Server) (found : Surroundings) (stream : ExecOutputStream)
    (phase : StreamOutput) : KeepsRetained server (moveStreamOutput server found stream phase).1 := by
  cases phase with
  | receiving =>
      rw [moveStreamOutput]
      split
      · exact KeepsRetained.refl server
      · exact KeepsRetained.refl server
  | locking chunk =>
      rw [moveStreamOutput]
      split
      · exact KeepsRetained.refl server
      next process hprocess =>
        refine ⟨List.prefix_append _ _, fun h other hother => ?_⟩
        obtain rfl := Option.some.inj hother
        exact (h process hprocess).pushOutput stream chunk
  | notifying notification => exact keepsRetained_notify server found.connected notification
  | finishing =>
      rw [moveStreamOutput]
      split
      · exact KeepsRetained.refl server
      next process hprocess =>
        refine ⟨List.prefix_refl _, fun h other hother => ?_⟩
        obtain rfl := Option.some.inj hother
        exact (h process hprocess).of_outputs rfl rfl rfl
  | emitClosed phase => exact keepsRetained_emitClosed server found phase

theorem keepsRetained_watchExit (server : Server) (found : Surroundings) (phase : WatchExit) :
    KeepsRetained server (moveWatchExit server found phase).1 := by
  cases phase with
  | waiting => exact KeepsRetained.refl server
  | locking exitCode =>
      rw [moveWatchExit]
      split
      · exact KeepsRetained.refl server
      next process hprocess => exact keepsRetained_event hprocess rfl rfl rfl
  | notifying notification =>
      cases notification with
      | none => exact KeepsRetained.refl server
      | some notification => exact keepsRetained_notify server found.connected notification
  | emitClosed phase => exact keepsRetained_emitClosed server found phase

theorem keepsRetained_cleanup (server : Server) (done : Bool) : KeepsRetained server (moveCleanup server done) := by
  cases done with
  | true => exact KeepsRetained.refl server
  | false =>
      rw [moveCleanup]
      split
      next =>
        split
        · exact ⟨List.prefix_refl _, (by rintro _ _ ⟨⟩)⟩
        · exact KeepsRetained.refl server
      next => exact KeepsRetained.refl server

theorem keepsRetained_step (state : ServerState) (index : Nat) (found : Surroundings) :
    KeepsRetained state.shared (serverStep state index found).shared := by
  refine Tasks.step_keeps (fun next : ServerState => KeepsRetained state.shared next.shared)
    (KeepsRetained.refl state.shared) nofun ?_
  rintro index found task ⟨⟩ _
  cases task with
  | streamOutput stream phase => exact keepsRetained_streamOutput state.shared found stream phase
  | watchExit phase => exact keepsRetained_watchExit state.shared found phase
  | cleanup done => exact keepsRetained_cleanup state.shared done

/-! ## Sequence numbers of output -/

section

variable {live live' : List ExecProcessEvent} {process : RunningProcess} {params : ReadParams}

/-- The events are numbered from one on. -/
def Numbered (live : List ExecProcessEvent) : Prop := ∀ (i : Nat) event, live[i]? = some event → event.seq = some (i + 1)

theorem Numbered.output (h : Numbered live) {chunk : ProcessOutputChunk} (hchunk : chunk ∈ outputsOf live) :
    ∃ i, live[i]? = some (.output chunk) ∧ chunk.seq = i + 1 := by
  obtain ⟨event, hevent, heq⟩ := List.mem_filterMap.mp hchunk
  obtain ⟨i, hi⟩ := List.mem_iff_getElem?.mp hevent
  cases event with
  | output other =>
      obtain rfl := Option.some.inj heq
      exact ⟨i, hi, Option.some.inj (h i _ hi)⟩
  | exited | closed | failed => cases heq

theorem Numbered.seq_le (h : Numbered live) {chunk : ProcessOutputChunk} (hchunk : chunk ∈ outputsOf live) :
    chunk.seq ≤ live.length := by
  obtain ⟨i, hi, hseq⟩ := h.output hchunk
  obtain ⟨hlt, -⟩ := List.getElem?_eq_some_iff.mp hi
  omega

theorem Numbered.ordered (h : Numbered live) :
    (outputsOf live).Pairwise fun earlier later => earlier.seq < later.seq := by
  have hevents : live.Pairwise fun earlier later =>
      ∀ first ∈ earlier.outputChunk, ∀ second ∈ later.outputChunk, first.seq < second.seq := by
    rw [List.pairwise_iff_getElem]
    intro i j hi hj hij first hfirst second hsecond
    have hseq (k : Nat) (hk : k < live.length) (chunk : ProcessOutputChunk) (hchunk : chunk ∈ live[k].outputChunk) :
        chunk.seq = k + 1 := by
      have hnumber := h k _ (List.getElem?_eq_getElem hk)
      generalize live[k] = event at hnumber hchunk
      cases event with
      | output other =>
          obtain rfl := Option.some.inj hchunk
          exact Option.some.inj hnumber
      | exited | closed | failed => cases hchunk
    rw [hseq i hi first hfirst, hseq j hj second hsecond]
    omega
  exact hevents.filterMap _ fun earlier later hlt first hfirst second hsecond => hlt first hfirst second hsecond

/-- Output with a number that was given before is not new. -/
theorem Numbered.mem_of_before (h : Numbered live') (hlive : live <+: live') {chunk : ProcessOutputChunk}
    (hchunk : chunk ∈ outputsOf live') (hseq : chunk.seq ≤ live.length) : chunk ∈ outputsOf live := by
  obtain ⟨i, hi, hnumber⟩ := h.output hchunk
  obtain ⟨rest, rfl⟩ := hlive
  rw [List.getElem?_append_left (by omega)] at hi
  exact List.mem_filterMap.mpr ⟨_, List.mem_of_getElem? hi, rfl⟩

theorem outputsOf_mono (hlive : live <+: live') : outputsOf live <+: outputsOf live' := hlive.filterMap _

/-! ## A page -/

/-- What one look at a process gives, behind a place. -/
structure Page (process : RunningProcess) (live : List ExecProcessEvent) (params : ReadParams) (afterSeq : Nat)
    (response : ReadResponse) : Prop where
  sublist : response.chunks.Sublist (outputsOf live)
  between : ∀ chunk ∈ response.chunks, afterSeq < chunk.seq ∧ chunk.seq < response.nextSeq
  takes : ∀ chunk ∈ process.output, afterSeq < chunk.seq → chunk.seq < response.nextSeq → chunk ∈ response.chunks
  nonempty : ∀ chunk ∈ process.output, afterSeq < chunk.seq → response.chunks ≠ []
  advances : afterSeq < response.nextSeq
  known : response.nextSeq ≤ live.length + 1
  bounded : params.maxBytes.getD usizeMax < sizeOfChunks response.chunks → response.chunks.length = 1

theorem page_readResponse (hretained : Retained process live) (hnumbered : Numbered live)
    (hnext : process.nextSeq = live.length + 1) {afterSeq : Nat} (hafter : afterSeq ≤ live.length)
    (hparams : params.afterSeq = some afterSeq) : Page process live params afterSeq (process.readResponse params) := by
  obtain ⟨taken, left, hrest, hchunks, hseq, hnone⟩ := collectChunks_takes (params.maxBytes.getD usizeMax)
    (process.output.filter fun chunk => chunk.seq > afterSeq) [] 0 process.nextSeq
  have hresponse : (process.readResponse params).chunks = taken := by
    rw [RunningProcess.readResponse, hparams]
    exact hchunks
  have hresponseNext : (process.readResponse params).nextSeq =
      (taken.getLast?.map (·.seq + 1)).getD process.nextSeq := by
    rw [RunningProcess.readResponse, hparams]
    exact hseq
  have hsublist : (taken ++ left).Sublist (outputsOf live) :=
    hrest ▸ List.filter_sublist.trans hretained.suffix.sublist
  have hordered := List.pairwise_append.mp (hnumbered.ordered.sublist hsublist)
  have hmem {chunk : ProcessOutputChunk} : chunk ∈ taken ++ left ↔ chunk ∈ process.output ∧ afterSeq < chunk.seq := by
    rw [← hrest, List.mem_filter, decide_eq_true_eq]
  -- the last chunk of the page has the greatest number of the page, and no chunk that is left a smaller one
  have hlast (h : taken ≠ []) : ∃ last ∈ taken, (process.readResponse params).nextSeq = last.seq + 1 ∧
      ∀ chunk ∈ taken, chunk.seq ≤ last.seq := by
    refine ⟨taken.getLast h, List.getLast_mem h, ?_, fun chunk hchunk => ?_⟩
    · rw [hresponseNext, List.getLast?_eq_some_getLast h]
      rfl
    · rcases List.mem_append.mp (List.dropLast_append_getLast h ▸ hchunk) with hinit | hend
      · have hpairs := hordered.1
        rw [← List.dropLast_append_getLast h] at hpairs
        exact ((List.pairwise_append.mp hpairs).2.2 chunk hinit _ (List.mem_singleton_self _)).le
      · rw [List.mem_singleton.mp hend]
  have hempty (h : taken = []) : (process.readResponse params).nextSeq = live.length + 1 := by
    rw [hresponseNext, h]
    exact hnext
  refine ⟨?_, ?_, ?_, ?_, ?_, ?_, ?_⟩
  · rw [hresponse]
    exact (List.sublist_append_left taken left).trans hsublist
  · intro chunk hchunk
    rw [hresponse] at hchunk
    obtain ⟨last, -, hlastSeq, hle⟩ := hlast (List.ne_nil_of_mem hchunk)
    have hbehind := (hmem.mp (List.mem_append_left left hchunk)).2
    have := hle chunk hchunk
    omega
  · intro chunk hchunk hbehind hbefore
    rw [hresponse]
    rcases List.mem_append.mp (hmem.mpr ⟨hchunk, hbehind⟩) with htaken | hleft
    · exact htaken
    · have hsome : taken ≠ [] := by
        intro hnil
        have hall := hrest.symm.trans (hnone hnil rfl)
        rw [(List.append_eq_nil_iff.mp hall).2] at hleft
        cases hleft
      obtain ⟨last, hlastMem, hlastSeq, -⟩ := hlast hsome
      have := hordered.2.2 last hlastMem chunk hleft
      omega
  · intro chunk hchunk hbehind hnil
    rw [hresponse] at hnil
    have hin := hmem.mpr ⟨hchunk, hbehind⟩
    rw [← hrest, hnone hnil rfl] at hin
    cases hin
  · by_cases h : taken = []
    · rw [hempty h]
      omega
    · obtain ⟨last, hlastMem, hlastSeq, -⟩ := hlast h
      have := (hmem.mp (List.mem_append_left left hlastMem)).2
      omega
  · by_cases h : taken = []
    · exact (hempty h).le
    · obtain ⟨last, hlastMem, hlastSeq, -⟩ := hlast h
      have := hnumbered.seq_le (hsublist.subset (List.mem_append_left left hlastMem))
      omega
  · intro hover
    have hbounded := collectChunks_bounded (params.maxBytes.getD usizeMax)
      (process.output.filter fun chunk => chunk.seq > afterSeq) [] process.nextSeq (Nat.zero_le _)
    rw [hresponse] at hover ⊢
    rw [show sizeOfChunks [] = 0 from rfl, hchunks, List.nil_append] at hbounded
    exact hbounded.resolve_left (Nat.not_le.mpr hover)

end

/-! ## Runs -/

structure PagedInv (state : PagedOutput) : Prop where
  server : ServerInv state.server.shared state.server.tasks
  retained : ∀ process ∈ state.server.shared.process, Retained process state.server.shared.events.live
  pending : ∀ params ∈ state.reader.pending, params.afterSeq = some state.reader.afterSeq
  after : state.reader.afterSeq ≤ state.server.shared.events.live.length
  returned : ∀ chunk ∈ state.reader.returned, chunk.seq ≤ state.reader.afterSeq
  reads : ReadsOutput state

namespace PagedInv

variable {state : PagedOutput}

theorem start (tty : Bool) : PagedInv (.start tty) where
  server := ServerInv.start tty
  retained := by
    rintro process ⟨⟩
    exact ⟨List.suffix_refl _, rfl, Nat.zero_le _⟩
  pending := nofun
  after := Nat.zero_le _
  returned := nofun
  reads := by
    refine ⟨List.Pairwise.nil, nofun, nofun, nofun, nofun, ?_⟩
    rintro process ⟨⟩
    exact ⟨rfl, Nat.zero_le _⟩

theorem numbered (h : PagedInv state) : Numbered state.server.shared.events.live := h.server.numbered

theorem serve (h : PagedInv state) (index : Nat) (found : Surroundings) :
    PagedInv (readStep state (.serve index found)) := by
  obtain ⟨hlive, hkeeps⟩ := keepsRetained_step state.server index found
  have hserver := h.server.step index found
  have hretained := hkeeps h.retained
  refine ⟨hserver, hretained, h.pending, h.after.trans hlive.length_le, h.returned, ?_⟩
  refine ⟨h.reads.ordered, ?_, ?_, h.reads.nonempty, h.reads.bounded, ?_⟩
  · exact fun chunk hchunk => (outputsOf_mono hlive).subset (h.reads.emitted chunk hchunk)
  · intro chunk hchunk hseq
    exact h.reads.skipped chunk (Numbered.mem_of_before hserver.numbered hlive hchunk (hseq.trans h.after)) hseq
  · exact fun process hprocess => ⟨(hretained process hprocess).bytes, (hretained process hprocess).limit⟩

theorem call (h : PagedInv state) (maxBytes : Option Nat) : PagedInv (readStep state (.call maxBytes)) := by
  rw [readStep]
  split
  · exact h
  · refine ⟨h.server, h.retained, ?_, h.after, h.returned, ⟨h.reads.ordered, h.reads.emitted, h.reads.skipped,
      h.reads.nonempty, h.reads.bounded, h.reads.retained⟩⟩
    rintro params ⟨⟩
    rfl

/-- A call that returns adds its page. -/
theorem returns (h : PagedInv state) {params : ReadParams} {process : RunningProcess}
    (hpending : state.reader.pending = some params) (hprocess : state.server.shared.process = some process) :
    PagedInv { state with
      reader := ⟨(process.readResponse params).nextSeq - 1, none, state.reader.calls ++
        [⟨params, process.readResponse params, process.output, state.server.shared.events.live⟩]⟩ } := by
  have hparams := h.pending params hpending
  have hpage := page_readResponse (h.retained process hprocess) h.numbered (h.server.running process hprocess).nextSeq
    h.after hparams
  have hadvances := hpage.advances
  have hknown := hpage.known
  have hreturned {chunk : ProcessOutputChunk} : chunk ∈ (state.reader.calls ++
      [(⟨params, process.readResponse params, process.output, state.server.shared.events.live⟩ : ReadCall)]).flatMap
        (fun call => call.response.chunks) ↔
      chunk ∈ state.reader.returned ∨ chunk ∈ (process.readResponse params).chunks := by
    simp [Reader.returned]
  refine ⟨h.server, h.retained, nofun, by dsimp only; omega, ?_, ?_, ?_, ?_, ?_, ?_, h.reads.retained⟩
  · intro chunk hchunk
    rcases hreturned.mp hchunk with hold | hnew
    · have := h.returned chunk hold
      dsimp only
      omega
    · have := (hpage.between chunk hnew).2
      dsimp only
      omega
  · rw [Reader.returned, List.flatMap_append, List.flatMap_singleton, List.pairwise_append]
    refine ⟨h.reads.ordered, h.numbered.ordered.sublist hpage.sublist, fun earlier hearlier later hlater => ?_⟩
    exact (h.returned earlier hearlier).trans_lt (hpage.between later hlater).1
  · intro chunk hchunk
    rcases hreturned.mp hchunk with hold | hnew
    · exact h.reads.emitted chunk hold
    · exact hpage.sublist.subset hnew
  · intro chunk hchunk hseq
    by_cases hbehind : state.reader.afterSeq < chunk.seq
    · by_cases hretained : chunk ∈ process.output
      · exact .inl (hreturned.mpr (.inr (hpage.takes chunk hretained hbehind (by dsimp only at hseq; omega))))
      · refine .inr ⟨_, List.mem_append_right _ (List.mem_singleton_self _), ?_, by dsimp only at hseq ⊢; omega, hchunk,
          hretained⟩
        rw [ReadCall.afterSeq, hparams]
        exact hbehind
    · rcases h.reads.skipped chunk hchunk (Nat.le_of_not_lt hbehind) with hold | ⟨missing, hmissing, hmissed⟩
      · exact .inl (hreturned.mpr (.inl hold))
      · exact .inr ⟨missing, List.mem_append_left _ hmissing, hmissed⟩
  · intro made hmade chunk hchunk hbehind
    rcases List.mem_append.mp hmade with hold | hnew
    · exact h.reads.nonempty made hold chunk hchunk hbehind
    · obtain rfl := List.mem_singleton.mp hnew
      rw [ReadCall.afterSeq, hparams] at hbehind
      exact hpage.nonempty chunk hchunk hbehind
  · intro made hmade
    rcases List.mem_append.mp hmade with hold | hnew
    · exact h.reads.bounded made hold
    · obtain rfl := List.mem_singleton.mp hnew
      exact hpage.bounded

theorem look (h : PagedInv state) (expired : Bool) : PagedInv (readStep state (.look expired)) := by
  rw [readStep, Reader.look]
  split
  · exact h
  · refine ⟨h.server, h.retained, nofun, h.after, h.returned, ⟨h.reads.ordered, h.reads.emitted, h.reads.skipped,
      h.reads.nonempty, h.reads.bounded, h.reads.retained⟩⟩
  next params process hpending hprocess =>
    dsimp only
    split
    · exact h.returns hpending hprocess
    · exact h

theorem step (state : PagedOutput) (action : ReadAction) (h : PagedInv state) : PagedInv (readStep state action) := by
  cases action with
  | serve index found => exact h.serve index found
  | call maxBytes => exact h.call maxBytes
  | look expired => exact h.look expired

end PagedInv

end Codrex.ExecServer
