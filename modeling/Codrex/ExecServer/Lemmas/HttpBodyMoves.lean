import Codrex.ExecServer.Lemmas.HttpBodyStream
import Mathlib.Data.List.Perm.Basic

/-!
# The tables, the channels and the tasks of streamed bodies
-/

namespace Codrex.ExecServer

open Text Transition HttpBodyTask

variable {received : List HttpRequestBodyDeltaNotification} {requestId : Str}

/-! ## The invariant -/

/-- The stream has an end in its channel, or a failure is recorded for it. -/
def Settled (bodies : HttpBodies) (requestId : Str) : Prop :=
  (∃ channel, bodies.channels requestId = some channel ∧ ∃ delta ∈ channel.queue, delta.terminalDelta = true) ∨
    bodies.httpBodyStreamFailures requestId ≠ none

structure StreamInv (bodies : HttpBodies) (tasks : List HttpBodyTask) (requestId : Str) : Prop where
  owners : tasks.countP (owns requestId) ≤ 1
  inserting : .inserting (some requestId) ∈ tasks → bodies.channels requestId = none
  unused : bodies.channels requestId = none →
    ∀ task ∈ tasks, task.unroutes requestId = false ∧ task ≠ .recording requestId
  receiving : ∀ task ∈ tasks, task.isOpen requestId = true →
    ∃ channel, bodies.channels requestId = some channel ∧ channel.receiving = true
  live : ∀ task ∈ tasks, task.isOpen requestId = true → requestId ∈ bodies.httpBodyStreams ∨
    Settled bodies requestId ∨ ∃ other ∈ tasks, other.fails requestId = true
  unrouted : ∀ task ∈ tasks, task.unroutes requestId = true → ∀ other ∈ tasks, other.isOpen requestId = true →
    Settled bodies requestId
  lookedUp : ∀ task ∈ tasks, task.looksUp requestId → bodies.httpBodyStreamFailures requestId ≠ none
  queue : ∀ channel, bodies.channels requestId = some channel → ∀ delta ∈ channel.queue, delta.error = none →
    delta ∈ bodies.received ∧ delta.requestId = requestId

structure BodiesInv (bodies : HttpBodies) (tasks : List HttpBodyTask) : Prop where
  streams : ∀ requestId, StreamInv bodies tasks requestId
  named : ∀ number ≥ bodies.nextId, bodies.channels (HttpBodies.requestIdText number) = none ∧
    ∀ task ∈ tasks, task.owns (HttpBodies.requestIdText number) = false
  inOrder : ∀ task ∈ tasks, task.InOrder bodies.received

theorem requestIdText_injective {number other : Nat}
    (h : HttpBodies.requestIdText number = HttpBodies.requestIdText other) : number = other :=
  repr_injective (List.append_cancel_left h)

namespace HttpBodyTask

/-- The task has nothing to do with the request. -/
def Apart (requestId : Str) (task : HttpBodyTask) : Prop :=
  task.owns requestId = false ∧ task.unroutes requestId = false ∧ task.fails requestId = false ∧
    task ≠ .recording requestId

variable {task : HttpBodyTask}

theorem OfStream.owns {other : Str} (h : task.OfStream other) : task.owns requestId = decide (other = requestId) := by
  cases task with
  | streaming stream results => rw [← show stream.requestId = other from h]; rfl
  | finishing stream result results => rw [← show stream.requestId = other from h]; rfl
  | takingFailure stream results => rw [← show stream.requestId = other from h]; rfl
  | _ => exact h.elim

theorem OfStream.quiet {other : Str} (h : task.OfStream other) :
    task.unroutes requestId = false ∧ task.fails requestId = false ∧ task ≠ .recording requestId ∧
      task ≠ .inserting (some requestId) := by
  cases task with
  | streaming stream results => simp [unroutes, fails]
  | finishing stream result results => simp [unroutes, fails]
  | takingFailure stream results => simp [unroutes, fails]
  | _ => exact h.elim

theorem OfStream.apart {other : Str} (h : task.OfStream other) (hne : requestId ≠ other) : task.Apart requestId :=
  ⟨by simp [h.owns, Ne.symm hne], h.quiet.1, h.quiet.2.1, h.quiet.2.2.1⟩

theorem Apart.not_isOpen (h : task.Apart requestId) : task.isOpen requestId = false :=
  Bool.eq_false_iff.mpr fun hopen => Bool.false_ne_true (h.1.symm.trans (owns_of_isOpen hopen))

theorem Apart.not_looksUp (h : task.Apart requestId) : ¬ task.looksUp requestId :=
  fun hlooksUp => Bool.false_ne_true (h.1.symm.trans (owns_of_looksUp hlooksUp))

end HttpBodyTask

variable {bodies bodies' : HttpBodies} {old new : HttpBodyTask} {rest : List HttpBodyTask}

theorem Settled.congr (h : Settled bodies requestId) (hchannel : bodies'.channels requestId = bodies.channels requestId)
    (hfailure : bodies'.httpBodyStreamFailures requestId = bodies.httpBodyStreamFailures requestId) :
    Settled bodies' requestId := by
  rwa [Settled, hchannel, hfailure]

theorem channels_setChannel (bodies : HttpBodies) (requestId : Str) (channel : BodyChannel) :
    (bodies.setChannel requestId channel).channels requestId = some channel := Function.update_self _ _ _

/-- A delta that is no end can be taken from the channel. -/
theorem settled_pop {receiving : Bool} {delta : HttpRequestBodyDeltaNotification}
    {queue : List HttpRequestBodyDeltaNotification} (hchannel : bodies.channels requestId = some ⟨delta :: queue, receiving⟩)
    (hterminal : delta.terminalDelta = false) (h : Settled bodies requestId) :
    Settled (bodies.setChannel requestId ⟨queue, receiving⟩) requestId := by
  rcases h with ⟨channel, hsome, other, hmem, hother⟩ | hfailure
  · rw [hchannel, Option.some.injEq] at hsome
    subst hsome
    rcases List.mem_cons.mp hmem with rfl | hmem
    · cases hterminal.symm.trans hother
    · exact .inl ⟨⟨queue, receiving⟩, Function.update_self _ _ _, other, hmem, hother⟩
  · exact .inr hfailure

theorem settled_push {channel channel' : BodyChannel} {other : Str} (hchannel : bodies.channels other = some channel)
    (hsub : channel.queue ⊆ channel'.queue) (h : Settled bodies requestId) :
    Settled (bodies.setChannel other channel') requestId := by
  rcases h with ⟨found, hsome, delta, hmem, hdelta⟩ | hfailure
  · by_cases hsame : requestId = other
    · subst hsame
      rw [hchannel, Option.some.injEq] at hsome
      subst hsome
      exact .inl ⟨channel', Function.update_self _ _ _, delta, hsub hmem, hdelta⟩
    · exact .inl ⟨found, (Function.update_of_ne hsame _ _).trans hsome, delta, hmem, hdelta⟩
  · exact .inr hfailure

theorem trySend_ok {channel channel' : BodyChannel} {params : HttpRequestBodyDeltaNotification}
    (h : channel.trySend params = .ok channel') :
    channel.receiving = true ∧ channel' = ⟨channel.queue ++ [params], channel.receiving⟩ := by
  rw [BodyChannel.trySend] at h
  split at h
  · cases h
  next hreceiving =>
    split at h
    · cases h
    · cases h
      exact ⟨by simpa using hreceiving, rfl⟩

theorem trySend_closed {channel : BodyChannel} {params : HttpRequestBodyDeltaNotification}
    (h : channel.trySend params = .error .closed) : channel.receiving = false := by
  rw [BodyChannel.trySend] at h
  split at h
  next hreceiving => simpa using hreceiving
  next => split at h <;> cases h

namespace StreamInv

theorem perm {l l' : List HttpBodyTask} (hperm : l.Perm l') (h : StreamInv bodies l requestId) :
    StreamInv bodies l' requestId where
  owners := hperm.countP_eq (owns requestId) ▸ h.owners
  inserting hmem := h.inserting (hperm.mem_iff.mpr hmem)
  unused hnone task hmem := h.unused hnone task (hperm.mem_iff.mpr hmem)
  receiving task hmem := h.receiving task (hperm.mem_iff.mpr hmem)
  live task hmem hopen := by
    rcases h.live task (hperm.mem_iff.mpr hmem) hopen with hrouted | hsettled | ⟨other, hother, hfails⟩
    · exact .inl hrouted
    · exact .inr (.inl hsettled)
    · exact .inr (.inr ⟨other, hperm.mem_iff.mp hother, hfails⟩)
  unrouted task hmem hunroutes other hother :=
    h.unrouted task (hperm.mem_iff.mpr hmem) hunroutes other (hperm.mem_iff.mpr hother)
  lookedUp task hmem := h.lookedUp task (hperm.mem_iff.mpr hmem)
  queue := h.queue

theorem uncons (h : StreamInv bodies (old :: rest) requestId) (hold : old.Apart requestId) :
    StreamInv bodies rest requestId where
  owners := by
    have howners := h.owners
    rwa [List.countP_cons_of_neg (by simp [hold.1])] at howners
  inserting hmem := h.inserting (List.mem_cons_of_mem _ hmem)
  unused hnone task hmem := h.unused hnone task (List.mem_cons_of_mem _ hmem)
  receiving task hmem := h.receiving task (List.mem_cons_of_mem _ hmem)
  live task hmem hopen := by
    rcases h.live task (List.mem_cons_of_mem _ hmem) hopen with hlive | hsettled | ⟨other, hother, hfails⟩
    · exact .inl hlive
    · exact .inr (.inl hsettled)
    · rcases List.mem_cons.mp hother with rfl | hother
      · cases hold.2.2.1.symm.trans hfails
      · exact .inr (.inr ⟨other, hother, hfails⟩)
  unrouted task hmem hunroutes other hother :=
    h.unrouted task (List.mem_cons_of_mem _ hmem) hunroutes other (List.mem_cons_of_mem _ hother)
  lookedUp task hmem := h.lookedUp task (List.mem_cons_of_mem _ hmem)
  queue := h.queue

theorem cons (h : StreamInv bodies rest requestId) (hnew : new.Apart requestId) :
    StreamInv bodies (new :: rest) requestId where
  owners := by
    rw [List.countP_cons_of_neg (by simp [hnew.1])]
    exact h.owners
  inserting hmem := by
    rcases List.mem_cons.mp hmem with rfl | hmem
    · have := hnew.1
      simp [owns] at this
    · exact h.inserting hmem
  unused hnone := by
    rintro task (_ | ⟨_, hmem⟩)
    · exact ⟨hnew.2.1, hnew.2.2.2⟩
    · exact h.unused hnone task hmem
  receiving := by
    rintro task (_ | ⟨_, hmem⟩) hopen
    · cases hnew.not_isOpen.symm.trans hopen
    · exact h.receiving task hmem hopen
  live := by
    rintro task (_ | ⟨_, hmem⟩) hopen
    · cases hnew.not_isOpen.symm.trans hopen
    · rcases h.live task hmem hopen with hlive | hsettled | ⟨other, hother, hfails⟩
      · exact .inl hlive
      · exact .inr (.inl hsettled)
      · exact .inr (.inr ⟨other, List.mem_cons_of_mem _ hother, hfails⟩)
  unrouted := by
    rintro task (_ | ⟨_, hmem⟩) hunroutes other hother hopen
    · cases hnew.2.1.symm.trans hunroutes
    · rcases List.mem_cons.mp hother with rfl | hother
      · cases hnew.not_isOpen.symm.trans hopen
      · exact h.unrouted task hmem hunroutes other hother hopen
  lookedUp := by
    rintro task (_ | ⟨_, hmem⟩) hlooksUp
    · exact absurd hlooksUp hnew.not_looksUp
    · exact h.lookedUp task hmem hlooksUp
  queue := h.queue

theorem congr {tasks : List HttpBodyTask} (h : StreamInv bodies tasks requestId)
    (hrouted : requestId ∈ bodies.httpBodyStreams → requestId ∈ bodies'.httpBodyStreams)
    (hchannel : bodies'.channels requestId = bodies.channels requestId)
    (hfailure : bodies'.httpBodyStreamFailures requestId = bodies.httpBodyStreamFailures requestId)
    (hreceived : bodies.received ⊆ bodies'.received) : StreamInv bodies' tasks requestId where
  owners := h.owners
  inserting := hchannel ▸ h.inserting
  unused := hchannel ▸ h.unused
  receiving := hchannel ▸ h.receiving
  live task hmem hopen :=
    (h.live task hmem hopen).imp hrouted (Or.imp_left fun hsettled => hsettled.congr hchannel hfailure)
  unrouted task hmem hunroutes other hother hopen :=
    (h.unrouted task hmem hunroutes other hother hopen).congr hchannel hfailure
  lookedUp := hfailure ▸ h.lookedUp
  queue channel hsome delta hdelta herror := by
    obtain ⟨hmem, hrequest⟩ := h.queue channel (hchannel ▸ hsome) delta hdelta herror
    exact ⟨hreceived hmem, hrequest⟩

/-- A move of a task that has nothing to do with a request, before and after. -/
theorem frame (h : StreamInv bodies (old :: rest) requestId) (hold : old.Apart requestId) (hnew : new.Apart requestId)
    (hrouted : requestId ∈ bodies.httpBodyStreams → requestId ∈ bodies'.httpBodyStreams)
    (hchannel : bodies'.channels requestId = bodies.channels requestId)
    (hfailure : bodies'.httpBodyStreamFailures requestId = bodies.httpBodyStreamFailures requestId)
    (hreceived : bodies.received ⊆ bodies'.received) : StreamInv bodies' (new :: rest) requestId :=
  ((h.uncons hold).congr hrouted hchannel hfailure hreceived).cons hnew

/-- The caller of a request is the only one. -/
theorem not_owns (h : StreamInv bodies (old :: rest) requestId) (hold : old.owns requestId = true) :
    ∀ task ∈ rest, task.owns requestId = false := by
  have howners := h.owners
  rw [List.countP_cons_of_pos hold] at howners
  intro task hmem
  by_contra hne
  have := List.countP_pos_iff.mpr ⟨task, hmem, Bool.not_eq_false _ ▸ hne⟩
  omega

/-- A move of the caller of a request. -/
theorem owned (h : StreamInv bodies (old :: rest) requestId) (hold : old.owns requestId = true)
    (hinserting : new = .inserting (some requestId) → bodies'.channels requestId = none)
    (hunused : bodies'.channels requestId = none →
      bodies.channels requestId = none ∧ new.unroutes requestId = false ∧ new ≠ .recording requestId)
    (hreceiving : new.isOpen requestId = true →
      ∃ channel, bodies'.channels requestId = some channel ∧ channel.receiving = true)
    (hlive : new.isOpen requestId = true → requestId ∈ bodies'.httpBodyStreams ∨ Settled bodies' requestId ∨
      ∃ other ∈ rest, other.fails requestId = true)
    (hunrouted : new.isOpen requestId = true → ∀ task ∈ rest, task.unroutes requestId = true → Settled bodies' requestId)
    (hself : new.unroutes requestId = true → new.isOpen requestId = false)
    (hlookedUp : new.looksUp requestId → bodies'.httpBodyStreamFailures requestId ≠ none)
    (hqueue : ∀ channel, bodies'.channels requestId = some channel → ∀ delta ∈ channel.queue, delta.error = none →
      delta ∈ bodies'.received ∧ delta.requestId = requestId) : StreamInv bodies' (new :: rest) requestId where
  owners := by
    have hzero : rest.countP (owns requestId) = 0 :=
      List.countP_eq_zero.mpr fun task hmem => by simp [h.not_owns hold task hmem]
    rw [List.countP_cons, hzero]
    split <;> omega
  inserting hmem := by
    rcases List.mem_cons.mp hmem with heq | hmem
    · exact hinserting heq.symm
    · have := h.not_owns hold _ hmem
      simp [owns] at this
  unused hnone := by
    obtain ⟨hbefore, hnew⟩ := hunused hnone
    rintro task (_ | ⟨_, hmem⟩)
    · exact hnew
    · exact h.unused hbefore task (List.mem_cons_of_mem _ hmem)
  receiving := by
    rintro task (_ | ⟨_, hmem⟩) hopen
    · exact hreceiving hopen
    · cases (h.not_owns hold task hmem).symm.trans (owns_of_isOpen hopen)
  live := by
    rintro task (_ | ⟨_, hmem⟩) hopen
    · rcases hlive hopen with hrouted | hsettled | ⟨other, hother, hfails⟩
      · exact .inl hrouted
      · exact .inr (.inl hsettled)
      · exact .inr (.inr ⟨other, List.mem_cons_of_mem _ hother, hfails⟩)
    · cases (h.not_owns hold task hmem).symm.trans (owns_of_isOpen hopen)
  unrouted := by
    rintro task (_ | ⟨_, hmem⟩) hunroutes other (_ | ⟨_, hother⟩) hopen
    · cases (hself hunroutes).symm.trans hopen
    · cases (h.not_owns hold other hother).symm.trans (owns_of_isOpen hopen)
    · exact hunrouted hopen task hmem hunroutes
    · cases (h.not_owns hold other hother).symm.trans (owns_of_isOpen hopen)
  lookedUp := by
    rintro task (_ | ⟨_, hmem⟩) hlooksUp
    · exact hlookedUp hlooksUp
    · cases (h.not_owns hold task hmem).symm.trans (owns_of_looksUp hlooksUp)
  queue := hqueue

/-- A move of a handler, of a removal or of a failure. -/
theorem unowned (h : StreamInv bodies (old :: rest) requestId) (hold : old.owns requestId = false)
    (hnew : new.owns requestId = false)
    (hnone : bodies'.channels requestId = none ↔ bodies.channels requestId = none)
    (hunused : bodies.channels requestId = none → new.unroutes requestId = false ∧ new ≠ .recording requestId)
    (hreceiving : ∀ channel, bodies.channels requestId = some channel → channel.receiving = true →
      ∃ channel', bodies'.channels requestId = some channel' ∧ channel'.receiving = true)
    (hsettled : Settled bodies requestId → Settled bodies' requestId)
    (hrouted : (∃ task ∈ rest, task.isOpen requestId = true) →
      requestId ∈ bodies.httpBodyStreams ∨ old.fails requestId = true →
      requestId ∈ bodies'.httpBodyStreams ∨ Settled bodies' requestId ∨ new.fails requestId = true)
    (hunrouted : (∃ task ∈ rest, task.isOpen requestId = true) → new.unroutes requestId = true →
      Settled bodies' requestId)
    (hfailure : bodies.httpBodyStreamFailures requestId ≠ none → bodies'.httpBodyStreamFailures requestId ≠ none)
    (hqueue : ∀ channel, bodies'.channels requestId = some channel → ∀ delta ∈ channel.queue, delta.error = none →
      delta ∈ bodies'.received ∧ delta.requestId = requestId) : StreamInv bodies' (new :: rest) requestId := by
  have hnotOpen : ¬ new.isOpen requestId = true := fun hopen => Bool.false_ne_true (hnew.symm.trans (owns_of_isOpen hopen))
  refine ⟨?_, ?_, ?_, ?_, ?_, ?_, ?_, hqueue⟩
  · have howners := h.owners
    rw [List.countP_cons_of_neg (by simp [hold])] at howners
    rwa [List.countP_cons_of_neg (by simp [hnew])]
  · intro hmem
    rcases List.mem_cons.mp hmem with rfl | hmem
    · simp [owns] at hnew
    · exact hnone.mpr (h.inserting (List.mem_cons_of_mem _ hmem))
  · intro hafter
    have hbefore := hnone.mp hafter
    rintro task (_ | ⟨_, hmem⟩)
    · exact hunused hbefore
    · exact h.unused hbefore task (List.mem_cons_of_mem _ hmem)
  · rintro task (_ | ⟨_, hmem⟩) hopen
    · exact absurd hopen hnotOpen
    · obtain ⟨channel, hsome, hopened⟩ := h.receiving task (List.mem_cons_of_mem _ hmem) hopen
      exact hreceiving channel hsome hopened
  · rintro task (_ | ⟨_, hmem⟩) hopen
    · exact absurd hopen hnotOpen
    · have hend : requestId ∈ bodies'.httpBodyStreams ∨ Settled bodies' requestId ∨ new.fails requestId = true →
          requestId ∈ bodies'.httpBodyStreams ∨ Settled bodies' requestId ∨
            ∃ other ∈ new :: rest, other.fails requestId = true :=
        Or.imp_right (Or.imp_right fun hfails => ⟨new, List.mem_cons_self, hfails⟩)
      rcases h.live task (List.mem_cons_of_mem _ hmem) hopen with hlive | hbefore | ⟨other, hother, hfails⟩
      · exact hend (hrouted ⟨task, hmem, hopen⟩ (.inl hlive))
      · exact .inr (.inl (hsettled hbefore))
      · rcases List.mem_cons.mp hother with rfl | hother
        · exact hend (hrouted ⟨task, hmem, hopen⟩ (.inr hfails))
        · exact .inr (.inr ⟨other, List.mem_cons_of_mem _ hother, hfails⟩)
  · rintro task (_ | ⟨_, hmem⟩) hunroutes other (_ | ⟨_, hother⟩) hopen
    · exact absurd hopen hnotOpen
    · exact hunrouted ⟨other, hother, hopen⟩ hunroutes
    · exact absurd hopen hnotOpen
    · exact hsettled
        (h.unrouted task (List.mem_cons_of_mem _ hmem) hunroutes other (List.mem_cons_of_mem _ hother) hopen)
  · rintro task (_ | ⟨_, hmem⟩) hlooksUp
    · cases hnew.symm.trans (owns_of_looksUp hlooksUp)
    · exact hfailure (h.lookedUp task (List.mem_cons_of_mem _ hmem) hlooksUp)

/-! ## Moves -/

variable {other message : Str} {stream : HttpResponseBodyStream} {results : List RecvResult}

theorem allocated (h : StreamInv bodies (.inserting none :: rest) requestId)
    (hother : requestId = other → bodies.channels requestId = none ∧ ∀ task ∈ rest, task.owns requestId = false) :
    StreamInv { bodies with nextId := bodies.nextId + 1 } (.inserting (some other) :: rest) requestId := by
  by_cases hsame : requestId = other
  · subst hsame
    obtain ⟨hnone, hfree⟩ := hother rfl
    have hfreeCount : rest.countP (owns requestId) = 0 :=
      List.countP_eq_zero.mpr fun task hmem => by simp [hfree task hmem]
    refine ⟨?_, fun _ => hnone, ?_, ?_, ?_, ?_, ?_, h.queue⟩
    · rw [List.countP_cons, hfreeCount]
      split <;> omega
    · rintro _ task (_ | ⟨_, hmem⟩)
      · exact ⟨rfl, by simp⟩
      · exact h.unused hnone task (List.mem_cons_of_mem _ hmem)
    · rintro task (_ | ⟨_, hmem⟩) hopen
      · cases hopen
      · cases (hfree task hmem).symm.trans (owns_of_isOpen hopen)
    · rintro task (_ | ⟨_, hmem⟩) hopen
      · cases hopen
      · cases (hfree task hmem).symm.trans (owns_of_isOpen hopen)
    · rintro task - - other (_ | ⟨_, hmem⟩) hopen
      · cases hopen
      · cases (hfree other hmem).symm.trans (owns_of_isOpen hopen)
    · rintro task (_ | ⟨_, hmem⟩) hlooksUp
      · exact hlooksUp.elim
      · cases (hfree task hmem).symm.trans (owns_of_looksUp hlooksUp)
  · refine h.frame ?_ ?_ id rfl rfl (List.Subset.refl _)
    · exact ⟨by simp [owns], rfl, rfl, by simp⟩
    · exact ⟨by simp [owns, Ne.symm hsame], rfl, rfl, by simp⟩

theorem inserted (h : StreamInv bodies (.inserting (some other) :: rest) requestId) :
    StreamInv (bodies.insertHttpBodyStream other) (.requesting other :: rest) requestId := by
  by_cases hsame : requestId = other
  · subst hsame
    have hnone := h.inserting List.mem_cons_self
    refine h.owned (by simp [owns]) (by simp) (by simp [HttpBodies.insertHttpBodyStream]) ?_ ?_ ?_ (by simp [unroutes])
      False.elim ?_
    · exact fun _ => ⟨⟨[], true⟩, by simp [HttpBodies.insertHttpBodyStream], rfl⟩
    · exact fun _ => .inl List.mem_cons_self
    · intro _ task hmem hunroutes
      cases (h.unused hnone task (List.mem_cons_of_mem _ hmem)).1.symm.trans hunroutes
    · intro channel hsome
      simp only [HttpBodies.insertHttpBodyStream, Function.update_self, Option.some.injEq] at hsome
      subst hsome
      simp
  · refine h.frame ?_ ?_ (List.mem_cons_of_mem _) (Function.update_of_ne hsame _ _) (Function.update_of_ne hsame _ _)
      (List.Subset.refl _)
    · exact ⟨by simp [owns, Ne.symm hsame], rfl, rfl, by simp⟩
    · exact ⟨by simp [owns, Ne.symm hsame], rfl, rfl, by simp⟩

/-- A caller that is through with the stream. -/
theorem owned_closed (h : StreamInv bodies (old :: rest) requestId) (hold : old.owns requestId = true)
    (hnew : new.isOpen requestId = false) (hinserting : new ≠ .inserting (some requestId))
    (hunused : bodies'.channels requestId = none →
      bodies.channels requestId = none ∧ new.unroutes requestId = false ∧ new ≠ .recording requestId)
    (hlookedUp : new.looksUp requestId → bodies'.httpBodyStreamFailures requestId ≠ none)
    (hqueue : ∀ channel, bodies'.channels requestId = some channel → ∀ delta ∈ channel.queue, delta.error = none →
      delta ∈ bodies'.received ∧ delta.requestId = requestId) : StreamInv bodies' (new :: rest) requestId := by
  have hnotOpen : ¬ new.isOpen requestId = true := Bool.eq_false_iff.mp hnew
  exact h.owned hold (fun heq => absurd heq hinserting) hunused (fun hopen => absurd hopen hnotOpen)
    (fun hopen => absurd hopen hnotOpen) (fun hopen => absurd hopen hnotOpen) (fun _ => hnew) hlookedUp hqueue

theorem refused (h : StreamInv bodies (.inserting (some other) :: rest) requestId) :
    StreamInv bodies (.returned :: rest) requestId := by
  by_cases hsame : requestId = other
  · subst hsame
    exact h.owned_closed (by simp [owns]) rfl (by simp) (fun hnone => ⟨hnone, rfl, by simp⟩) False.elim h.queue
  · exact h.frame ⟨by simp [owns, Ne.symm hsame], rfl, rfl, by simp⟩ ⟨rfl, rfl, rfl, by simp⟩ id rfl rfl
      (List.Subset.refl _)

theorem live_rest (h : StreamInv bodies (old :: rest) requestId) (hopen : old.isOpen requestId = true)
    (hfails : old.fails requestId = false) : requestId ∈ bodies.httpBodyStreams ∨ Settled bodies requestId ∨
      ∃ other ∈ rest, other.fails requestId = true := by
  rcases h.live old List.mem_cons_self hopen with hrouted | hsettled | ⟨other, hother, hother'⟩
  · exact .inl hrouted
  · exact .inr (.inl hsettled)
  · rcases List.mem_cons.mp hother with rfl | hother
    · cases hfails.symm.trans hother'
    · exact .inr (.inr ⟨other, hother, hother'⟩)

theorem answered (h : StreamInv bodies (.requesting other :: rest) requestId) :
    StreamInv bodies (.streaming (.remote other) [] :: rest) requestId := by
  have hstream : OfStream other (.streaming (.remote other) []) := rfl
  by_cases hsame : requestId = other
  · subst hsame
    have hopen : isOpen requestId (.requesting requestId) = true := by simp [isOpen]
    refine h.owned (by simp [owns]) (by simp) ?_ ?_ ?_ ?_ (by simp [unroutes]) False.elim h.queue
    · exact fun hnone => ⟨hnone, hstream.quiet.1, hstream.quiet.2.2.1⟩
    · exact fun _ => h.receiving _ List.mem_cons_self hopen
    · exact fun _ => h.live_rest hopen rfl
    · intro _ task hmem hunroutes
      exact h.unrouted task (List.mem_cons_of_mem _ hmem) hunroutes _ List.mem_cons_self hopen
  · refine h.frame ?_ (hstream.apart hsame) id rfl rfl (List.Subset.refl _)
    exact ⟨by simp [owns, Ne.symm hsame], rfl, rfl, by simp⟩

theorem failed (h : StreamInv bodies (.requesting other :: rest) requestId) :
    StreamInv bodies (.abandoning other :: rest) requestId := by
  by_cases hsame : requestId = other
  · subst hsame
    exact h.owned_closed (by simp [owns]) rfl (by simp) (fun hnone => ⟨hnone, rfl, by simp⟩) False.elim h.queue
  · refine h.frame ?_ ?_ id rfl rfl (List.Subset.refl _)
    · exact ⟨by simp [owns, Ne.symm hsame], rfl, rfl, by simp⟩
    · exact ⟨by simp [owns, Ne.symm hsame], rfl, rfl, by simp⟩

/-- The caller lets go of the receiver, with the route or before it. -/
theorem dropped {routes : List Str} (h : StreamInv bodies (old :: rest) requestId) (hold : old.owns other = true)
    (hapart : requestId ≠ other → old.Apart requestId) (hnew : new = .returned ∨ new = .removing other)
    (hroutes : requestId ≠ other → requestId ∈ bodies.httpBodyStreams → requestId ∈ routes) :
    StreamInv ({ bodies with httpBodyStreams := routes }.dropReceiver other) (new :: rest) requestId := by
  by_cases hsame : requestId = other
  · subst hsame
    refine h.owned_closed hold ?_ ?_ ?_ ?_ ?_
    · rcases hnew with rfl | rfl <;> rfl
    · rcases hnew with rfl | rfl <;> simp
    · simp [HttpBodies.dropReceiver, HttpBodies.setChannel]
    · rcases hnew with rfl | rfl <;> exact False.elim
    · intro channel hsome
      simp only [HttpBodies.dropReceiver, HttpBodies.setChannel, Function.update_self, Option.some.injEq] at hsome
      subst hsome
      simp
  · refine h.frame (hapart hsame) ?_ (hroutes hsame) (Function.update_of_ne hsame _ _) rfl (List.Subset.refl _)
    rcases hnew with rfl | rfl
    · exact ⟨rfl, rfl, rfl, by simp⟩
    · exact ⟨rfl, by simp [unroutes, Ne.symm hsame], rfl, by simp⟩

theorem received_delta {receiving : Bool} {delta : HttpRequestBodyDeltaNotification}
    {queue : List HttpRequestBodyDeltaNotification} (h : StreamInv bodies (.streaming stream results :: rest) requestId)
    (hchannel : bodies.channels stream.requestId = some ⟨delta :: queue, receiving⟩) :
    StreamInv (bodies.setChannel stream.requestId ⟨queue, receiving⟩) (stream.recvDelta results delta :: rest)
      requestId := by
  have hstream := @HttpResponseBodyStream.ofStream_recvDelta stream results delta
  by_cases hsame : requestId = stream.requestId
  · subst hsame
    refine h.owned (by simp [owns]) ?_ ?_ ?_ ?_ ?_ ?_ ?_ ?_
    · exact fun heq => absurd heq hstream.quiet.2.2.2
    · simp [HttpBodies.setChannel]
    · intro hopen
      have hbefore : isOpen stream.requestId (.streaming stream results) = true := by
        simp [isOpen, (HttpResponseBodyStream.of_isOpen_recvDelta hopen).1]
      obtain ⟨channel, hsome, hreceiving⟩ := h.receiving _ List.mem_cons_self hbefore
      rw [hchannel, Option.some.injEq] at hsome
      subst hsome
      exact ⟨⟨queue, receiving⟩, by simp [HttpBodies.setChannel], hreceiving⟩
    · intro hopen
      obtain ⟨hclosed, hterminal⟩ := HttpResponseBodyStream.of_isOpen_recvDelta hopen
      exact (h.live_rest (by simp [isOpen, hclosed]) rfl).imp_right (Or.imp_left (settled_pop hchannel hterminal))
    · intro hopen task hmem hunroutes
      obtain ⟨hclosed, hterminal⟩ := HttpResponseBodyStream.of_isOpen_recvDelta hopen
      exact settled_pop hchannel hterminal (h.unrouted task (List.mem_cons_of_mem _ hmem) hunroutes _
        List.mem_cons_self (by simp [isOpen, hclosed]))
    · intro hunroutes
      cases hstream.quiet.1.symm.trans hunroutes
    · exact fun hlooksUp => absurd hlooksUp HttpResponseBodyStream.not_looksUp_recvDelta
    · intro channel hsome other hother
      simp only [HttpBodies.setChannel, Function.update_self, Option.some.injEq] at hsome
      subst hsome
      exact h.queue _ hchannel other (List.mem_cons_of_mem _ hother)
  · exact h.frame (OfStream.apart rfl hsame) (hstream.apart hsame) id (Function.update_of_ne hsame _ _) rfl
      (List.Subset.refl _)

/-- The end of the channel, or the end after the last chunk. -/
theorem finished {stream' : HttpResponseBodyStream} {result : Option RecvResult}
    (h : StreamInv bodies (.streaming stream results :: rest) requestId)
    (hstream : stream'.requestId = stream.requestId)
    (hfailure : (stream'.finishRemoteStream results result).looksUp stream.requestId →
      bodies.httpBodyStreamFailures stream.requestId ≠ none) :
    StreamInv bodies (stream'.finishRemoteStream results result :: rest) requestId := by
  have hnew := @HttpResponseBodyStream.ofStream_finishRemoteStream stream' results result
  rw [hstream] at hnew
  by_cases hsame : requestId = stream.requestId
  · subst hsame
    refine h.owned_closed (by simp [owns]) HttpResponseBodyStream.not_isOpen_finishRemoteStream hnew.quiet.2.2.2
      (fun hnone => ⟨hnone, hnew.quiet.1, hnew.quiet.2.2.1⟩) hfailure h.queue
  · exact h.frame (OfStream.apart rfl hsame) (hnew.apart hsame) id rfl rfl (List.Subset.refl _)

theorem ne_of_mem_remove (hne : requestId ≠ other) (hmem : requestId ∈ bodies.httpBodyStreams) :
    requestId ∈ (bodies.removeHttpBodyStream other).httpBodyStreams :=
  List.mem_filter.mpr ⟨hmem, decide_eq_true hne⟩

theorem removed {result : Option RecvResult} (h : StreamInv bodies (.finishing stream result results :: rest) requestId)
    (hclosed : stream.closed = true) :
    StreamInv (bodies.removeHttpBodyStream stream.requestId) (stream.answer results result :: rest) requestId := by
  have hnew : (stream.answer results result).OfStream stream.requestId := by cases result <;> rfl
  by_cases hsame : requestId = stream.requestId
  · subst hsame
    refine h.owned_closed (by simp [owns]) ?_ hnew.quiet.2.2.2
      (fun hnone => ⟨hnone, hnew.quiet.1, hnew.quiet.2.2.1⟩) ?_ h.queue
    · cases result with
      | none => rfl
      | some result => simp [HttpResponseBodyStream.answer, isOpen, hclosed]
    · intro hlooksUp
      cases result with
      | none => exact h.lookedUp _ List.mem_cons_self hlooksUp
      | some result => exact hlooksUp.elim
  · exact h.frame (OfStream.apart rfl hsame) (hnew.apart hsame) (ne_of_mem_remove hsame) rfl rfl (List.Subset.refl _)

theorem looked {results' : List RecvResult} {failures : Str → Option Str}
    (h : StreamInv bodies (.takingFailure stream results :: rest) requestId) (hclosed : stream.closed = true)
    (hfailures : requestId ≠ stream.requestId → failures requestId = bodies.httpBodyStreamFailures requestId) :
    StreamInv { bodies with httpBodyStreamFailures := failures } (.streaming stream results' :: rest) requestId := by
  have hnew : OfStream stream.requestId (.streaming stream results') := rfl
  by_cases hsame : requestId = stream.requestId
  · subst hsame
    exact h.owned_closed (by simp [owns]) (by simp [isOpen, hclosed]) hnew.quiet.2.2.2
      (fun hnone => ⟨hnone, hnew.quiet.1, hnew.quiet.2.2.1⟩) False.elim h.queue
  · exact h.frame (OfStream.apart rfl hsame) (hnew.apart hsame) id rfl (hfailures hsame) (List.Subset.refl _)

/-- A removal after the end of the channel is settled. -/
theorem unrouting_removed (h : StreamInv bodies (old :: rest) requestId)
    (hold : old = .removing other ∨ old = .unrouting other) :
    StreamInv (bodies.removeHttpBodyStream other) (.returned :: rest) requestId := by
  by_cases hsame : requestId = other
  · subst hsame
    have hunroutes : old.unroutes requestId = true := by rcases hold with rfl | rfl <;> simp [unroutes]
    refine h.unowned ?_ rfl Iff.rfl (fun _ => ⟨rfl, by simp⟩) (fun channel hsome hreceiving => ⟨channel, hsome, hreceiving⟩)
      id ?_ ?_ id h.queue
    · rcases hold with rfl | rfl <;> rfl
    · rintro ⟨task, hmem, hopen⟩ -
      exact .inr (.inl (h.unrouted old List.mem_cons_self hunroutes task (List.mem_cons_of_mem _ hmem) hopen))
    · rintro - ⟨⟩
  · refine h.frame ?_ ⟨rfl, rfl, rfl, by simp⟩ (ne_of_mem_remove hsame) rfl rfl (List.Subset.refl _)
    rcases hold with rfl | rfl
    · exact ⟨rfl, by simp [unroutes, Ne.symm hsame], rfl, by simp⟩
    · exact ⟨rfl, by simp [unroutes, Ne.symm hsame], rfl, by simp⟩

theorem apart_returned : Apart requestId .returned := ⟨rfl, rfl, rfl, by simp⟩

theorem apart_sending (params : HttpRequestBodyDeltaNotification) : Apart requestId (.sending params) :=
  ⟨rfl, rfl, rfl, by simp⟩

theorem handled (params : HttpRequestBodyDeltaNotification) (h : StreamInv bodies (.handling params :: rest) requestId)
    (hnew : new = .sending params ∨ new = .returned) :
    StreamInv { bodies with received := params :: bodies.received } (new :: rest) requestId := by
  refine h.frame ⟨rfl, rfl, rfl, by simp⟩ ?_ id rfl rfl (List.subset_cons_self _ _)
  rcases hnew with rfl | rfl
  · exact apart_sending params
  · exact apart_returned

theorem not_isOpen_of_not_receiving (h : StreamInv bodies (old :: rest) requestId) {channel : BodyChannel}
    (hchannel : bodies.channels requestId = some channel) (hreceiving : channel.receiving = false) :
    ¬ ∃ task ∈ rest, task.isOpen requestId = true := by
  rintro ⟨task, hmem, hopen⟩
  obtain ⟨found, hsome, hfound⟩ := h.receiving task (List.mem_cons_of_mem _ hmem) hopen
  rw [hchannel, Option.some.injEq] at hsome
  subst hsome
  cases hreceiving.symm.trans hfound

theorem sent {params : HttpRequestBodyDeltaNotification} {channel channel' : BodyChannel}
    (h : StreamInv bodies (.sending params :: rest) requestId) (hmem : params ∈ bodies.received)
    (hchannel : bodies.channels params.requestId = some channel) (hsent : channel.trySend params = .ok channel') :
    StreamInv (bodies.setChannel params.requestId channel')
      ((if params.terminalDelta then .unrouting params.requestId else .returned) :: rest) requestId := by
  obtain ⟨hreceiving, rfl⟩ := trySend_ok hsent
  by_cases hsame : requestId = params.requestId
  · subst hsame
    have hfound : (bodies.setChannel params.requestId ⟨channel.queue ++ [params], channel.receiving⟩).channels
        params.requestId = some ⟨channel.queue ++ [params], channel.receiving⟩ := Function.update_self _ _ _
    refine h.unowned rfl ?_ ?_ ?_ ?_ ?_ ?_ ?_ id ?_
    · split <;> rfl
    · simp [hfound, hchannel]
    · simp [hchannel]
    · exact fun _ _ _ => ⟨_, hfound, hreceiving⟩
    · exact settled_push hchannel (List.subset_append_left _ _)
    · rintro - (hrouted | hfails)
      · exact .inl hrouted
      · cases hfails
    · rintro - hunroutes
      split at hunroutes
      next hterminal => exact .inl ⟨_, hfound, params, List.mem_append_right _ List.mem_cons_self, hterminal⟩
      next => cases hunroutes
    · intro found hsome delta hdelta herror
      rw [hfound, Option.some.injEq] at hsome
      subst hsome
      rcases List.mem_append.mp hdelta with hold | hnew
      · exact h.queue _ hchannel delta hold herror
      · obtain rfl := List.mem_singleton.mp hnew
        exact ⟨hmem, rfl⟩
  · refine h.frame (apart_sending params) ?_ id (Function.update_of_ne hsame _ _) rfl (List.Subset.refl _)
    split
    · exact ⟨rfl, by simp [unroutes, Ne.symm hsame], rfl, by simp⟩
    · exact apart_returned

theorem notSent {params : HttpRequestBodyDeltaNotification} {channel : BodyChannel}
    (h : StreamInv bodies (.sending params :: rest) requestId)
    (hchannel : bodies.channels params.requestId = some channel)
    (hnew : new = .recording params.requestId ∨ new = .unrouting params.requestId ∧ channel.receiving = false) :
    StreamInv bodies (new :: rest) requestId := by
  by_cases hsame : requestId = params.requestId
  · subst hsame
    refine h.unowned rfl ?_ Iff.rfl (by simp [hchannel]) (fun found hsome hreceiving => ⟨found, hsome, hreceiving⟩) id ?_ ?_
      id h.queue
    · rcases hnew with rfl | ⟨rfl, -⟩ <;> rfl
    · rintro - (hrouted | hfails)
      · exact .inl hrouted
      · cases hfails
    · rintro hopen hunroutes
      rcases hnew with rfl | ⟨rfl, hreceiving⟩
      · cases hunroutes
      · exact absurd hopen (h.not_isOpen_of_not_receiving hchannel hreceiving)
  · refine h.frame (apart_sending params) ?_ id rfl rfl (List.Subset.refl _)
    rcases hnew with rfl | ⟨rfl, -⟩
    · exact ⟨rfl, rfl, rfl, by simp [Ne.symm hsame]⟩
    · exact ⟨rfl, by simp [unroutes, Ne.symm hsame], rfl, by simp⟩

/-- A failure that is recorded settles the stream. -/
theorem recorded (h : StreamInv bodies (.recording other :: rest) requestId) :
    StreamInv (bodies.recordHttpBodyStreamFailure other message) (.unrouting other :: rest) requestId := by
  by_cases hsame : requestId = other
  · subst hsame
    have hsettled : Settled (bodies.recordHttpBodyStreamFailure requestId message) requestId :=
      .inr (by simp [HttpBodies.recordHttpBodyStreamFailure])
    refine h.unowned rfl rfl Iff.rfl ?_ (fun found hsome hreceiving => ⟨found, hsome, hreceiving⟩) (fun _ => hsettled) ?_
      (fun _ _ => hsettled) ?_ h.queue
    · exact fun hnone => absurd rfl (h.unused hnone _ List.mem_cons_self).2
    · exact fun _ _ => .inr (.inl hsettled)
    · simp [HttpBodies.recordHttpBodyStreamFailure]
  · refine h.frame ?_ ?_ id rfl (Function.update_of_ne hsame _ _) (List.Subset.refl _)
    · exact ⟨rfl, rfl, rfl, by simp [Ne.symm hsame]⟩
    · exact ⟨rfl, by simp [unroutes, Ne.symm hsame], rfl, by simp⟩

/-- Every route goes over to the failing task. -/
theorem failing_started (h : StreamInv bodies (.failing message :: rest) requestId) :
    StreamInv { bodies with httpBodyStreams := [], writeLocked := true }
      (.failingAll message bodies.httpBodyStreams :: rest) requestId := by
  refine h.unowned rfl rfl Iff.rfl (fun _ => ⟨rfl, by simp⟩) (fun found hsome hreceiving => ⟨found, hsome, hreceiving⟩)
    id ?_ ?_ id h.queue
  · rintro - (hrouted | hfails)
    · exact .inr (.inr (List.contains_iff_mem.mpr hrouted))
    · cases hfails
  · rintro - ⟨⟩

theorem failing_ended (h : StreamInv bodies (.failingAll message [] :: rest) requestId) :
    StreamInv { bodies with writeLocked := false } (.returned :: rest) requestId :=
  h.frame ⟨rfl, rfl, rfl, by simp⟩ apart_returned id rfl rfl (List.Subset.refl _)

theorem mem_eraseIdx_of_ne {streams : List Str} {index : Nat} (hget : streams[index]? = some other)
    (hne : requestId ≠ other) (hmem : requestId ∈ streams) : requestId ∈ streams.eraseIdx index := by
  rcases List.mem_cons.mp ((Tasks.perm_cons_eraseIdx hget).mem_iff.mp hmem) with rfl | hmem
  · exact absurd rfl hne
  · exact hmem

/-- The next stream gets the failure as the end of its channel, or waits for the failure to be recorded. -/
theorem failing_next {streams : List Str} {index : Nat}
    (h : StreamInv bodies (.failingAll message streams :: rest) requestId) (hget : streams[index]? = some other)
    (hnew : new = .recordingFailed message other (streams.eraseIdx index) ∧ bodies' = bodies ∨
      new = .failingAll message (streams.eraseIdx index) ∧ ∃ channel channel', bodies.channels other = some channel ∧
        channel.trySend (failureDelta other message) = .ok channel' ∧ bodies' = bodies.setChannel other channel') :
    StreamInv bodies' (new :: rest) requestId := by
  have hleft : requestId ≠ other → requestId ∈ streams → requestId ∈ streams.eraseIdx index := mem_eraseIdx_of_ne hget
  rcases hnew with ⟨rfl, rfl⟩ | ⟨rfl, channel, channel', hchannel, hsent, rfl⟩
  · refine h.unowned rfl rfl Iff.rfl (fun _ => ⟨rfl, by simp⟩)
      (fun found hsome hreceiving => ⟨found, hsome, hreceiving⟩) id ?_ ?_ id h.queue
    · rintro - (hrouted | hfails)
      · exact .inl hrouted
      · refine .inr (.inr ?_)
        by_cases hsame : requestId = other
        · simp [fails, hsame]
        · have hmem := hleft hsame (List.contains_iff_mem.mp hfails)
          simp [fails, hmem]
    · rintro - ⟨⟩
  · obtain ⟨hreceiving, rfl⟩ := trySend_ok hsent
    refine h.unowned rfl rfl ?_ (fun _ => ⟨rfl, by simp⟩) ?_ (settled_push hchannel (List.subset_append_left _ _)) ?_ ?_
      id ?_
    · by_cases hsame : requestId = other
      · subst hsame
        simp [HttpBodies.setChannel, hchannel]
      · simp [HttpBodies.setChannel, Function.update_of_ne hsame]
    · intro found hsome hfound
      by_cases hsame : requestId = other
      · subst hsame
        exact ⟨_, Function.update_self _ _ _, hreceiving⟩
      · exact ⟨found, (Function.update_of_ne hsame _ _).trans hsome, hfound⟩
    · rintro - (hrouted | hfails)
      · exact .inl hrouted
      · by_cases hsame : requestId = other
        · subst hsame
          exact .inr (.inl (.inl ⟨_, Function.update_self _ _ _, _, List.mem_append_right _ List.mem_cons_self, rfl⟩))
        · exact .inr (.inr (List.contains_iff_mem.mpr (hleft hsame (List.contains_iff_mem.mp hfails))))
    · rintro - ⟨⟩
    · intro found hsome delta hdelta herror
      by_cases hsame : requestId = other
      · subst hsame
        rw [channels_setChannel, Option.some.injEq] at hsome
        subst hsome
        rcases List.mem_append.mp hdelta with hold | hnew
        · exact h.queue _ hchannel delta hold herror
        · obtain rfl := List.mem_singleton.mp hnew
          cases herror
      · exact h.queue found ((Function.update_of_ne hsame _ _).symm.trans hsome) delta hdelta herror

theorem failing_recorded {streams : List Str}
    (h : StreamInv bodies (.recordingFailed message other streams :: rest) requestId) :
    StreamInv (bodies.recordHttpBodyStreamFailure other message) (.failingAll message streams :: rest) requestId := by
  have hsettled : requestId = other → Settled (bodies.recordHttpBodyStreamFailure other message) requestId := by
    rintro rfl
    exact .inr (by simp [HttpBodies.recordHttpBodyStreamFailure])
  have hfailure : bodies.httpBodyStreamFailures requestId ≠ none →
      (bodies.recordHttpBodyStreamFailure other message).httpBodyStreamFailures requestId ≠ none := by
    by_cases hsame : requestId = other
    · subst hsame
      simp [HttpBodies.recordHttpBodyStreamFailure]
    · simp [HttpBodies.recordHttpBodyStreamFailure, Function.update_of_ne hsame]
  refine h.unowned rfl rfl Iff.rfl (fun _ => ⟨rfl, by simp⟩)
    (fun found hsome hreceiving => ⟨found, hsome, hreceiving⟩) (Or.imp_right hfailure) ?_ ?_ hfailure h.queue
  · rintro - (hrouted | hfails)
    · exact .inl hrouted
    · by_cases hsame : requestId = other
      · exact .inr (.inl (hsettled hsame))
      · simp only [fails, Ne.symm hsame, decide_false, Bool.false_or] at hfails
        exact .inr (.inr hfails)
  · rintro - ⟨⟩

end StreamInv

namespace BodiesInv

theorem perm {l l' : List HttpBodyTask} (hperm : l.Perm l') (h : BodiesInv bodies l) : BodiesInv bodies l' where
  streams requestId := (h.streams requestId).perm hperm
  named number hnumber :=
    ⟨(h.named number hnumber).1, fun task hmem => (h.named number hnumber).2 task (hperm.mem_iff.mpr hmem)⟩
  inOrder task hmem := h.inOrder task (hperm.mem_iff.mpr hmem)

/-- What is left to show for a move besides the streams. -/
theorem moved (h : BodiesInv bodies (old :: rest)) (hstreams : ∀ requestId, StreamInv bodies' (new :: rest) requestId)
    (hnext : bodies'.nextId = bodies.nextId)
    (hchannels : ∀ requestId, bodies.channels requestId = none → old.owns requestId = false →
      bodies'.channels requestId = none)
    (howns : ∀ requestId, new.owns requestId = true → old.owns requestId = true)
    (hreceived : bodies.received ⊆ bodies'.received) (hnew : new.InOrder bodies'.received) :
    BodiesInv bodies' (new :: rest) where
  streams := hstreams
  named number hnumber := by
    obtain ⟨hnone, hfree⟩ := h.named number (hnext ▸ hnumber)
    have hold := hfree old List.mem_cons_self
    refine ⟨hchannels _ hnone hold, ?_⟩
    rintro task (_ | ⟨_, hmem⟩)
    · exact Bool.eq_false_iff.mpr fun hnew => Bool.false_ne_true (hold.symm.trans (howns _ hnew))
    · exact hfree task (List.mem_cons_of_mem _ hmem)
  inOrder := by
    rintro task (_ | ⟨_, hmem⟩)
    · exact hnew
    · exact (h.inOrder task (List.mem_cons_of_mem _ hmem)).mono hreceived

theorem underLock {section' : HttpBodies × HttpBodyTask} (h : BodiesInv bodies (old :: rest))
    (hsection : BodiesInv section'.1 (section'.2 :: rest)) :
    BodiesInv (underLock bodies old section').1 ((underLock bodies old section').2 :: rest) := by
  rw [ExecServer.underLock]
  split
  · exact h
  · exact hsection

theorem allocated (h : BodiesInv bodies (.inserting none :: rest)) :
    BodiesInv { bodies with nextId := bodies.nextId + 1 }
      (.inserting (some (HttpBodies.requestIdText bodies.nextId)) :: rest) where
  streams requestId := by
    refine (h.streams requestId).allocated ?_
    rintro rfl
    obtain ⟨hnone, hfree⟩ := h.named bodies.nextId (Nat.le_refl _)
    exact ⟨hnone, fun task hmem => hfree task (List.mem_cons_of_mem _ hmem)⟩
  named number hnumber := by
    obtain ⟨hnone, hfree⟩ := h.named number (Nat.le_of_succ_le hnumber)
    refine ⟨hnone, ?_⟩
    rintro task (_ | ⟨_, hmem⟩)
    · have hne : HttpBodies.requestIdText bodies.nextId ≠ HttpBodies.requestIdText number := by
        intro heq
        have := requestIdText_injective heq
        dsimp only at hnumber
        omega
      simp [owns, hne]
    · exact hfree task (List.mem_cons_of_mem _ hmem)
  inOrder := by
    rintro task (_ | ⟨_, hmem⟩)
    · trivial
    · exact h.inOrder task (List.mem_cons_of_mem _ hmem)

theorem update_none {other : Str} {channel : Option BodyChannel} (hnone : bodies.channels requestId = none)
    (hne : requestId ≠ other) : Function.update bodies.channels other channel requestId = none :=
  (Function.update_of_ne hne _ _).trans hnone

theorem dropped {other : Str} {routes : List Str} (h : BodiesInv bodies (old :: rest)) (hold : old.owns other = true)
    (hapart : ∀ requestId, requestId ≠ other → old.Apart requestId) (hnew : new = .returned ∨ new = .removing other)
    (hroutes : ∀ requestId, requestId ≠ other → requestId ∈ bodies.httpBodyStreams → requestId ∈ routes) :
    BodiesInv ({ bodies with httpBodyStreams := routes }.dropReceiver other) (new :: rest) := by
  refine h.moved (fun requestId => (h.streams requestId).dropped hold (hapart requestId) hnew (hroutes requestId)) rfl ?_
    ?_ (List.Subset.refl _) ?_
  · intro requestId hnone hfree
    refine update_none hnone ?_
    rintro rfl
    cases hold.symm.trans hfree
  · rcases hnew with rfl | rfl <;> rintro _ ⟨⟩
  · rcases hnew with rfl | rfl <;> trivial

/-- The channel of a request whose task is no caller. -/
theorem ne_of_channel {other : Str} {channel : BodyChannel} (hchannel : bodies.channels other = some channel)
    (hnone : bodies.channels requestId = none) : requestId ≠ other := by
  rintro rfl
  cases hchannel.symm.trans hnone

theorem owns_of_ofStream {task : HttpBodyTask} {stream : HttpResponseBodyStream} {results : List RecvResult}
    (h : task.OfStream stream.requestId) (hnew : task.owns requestId = true) :
    owns requestId (.streaming stream results) = true := h.owns.symm.trans hnew

end BodiesInv

/-- Without a sender that is left, an open stream was settled, and with an empty channel by a failure. -/
theorem failure_of_drained {state : HttpBodyState} {stream : HttpResponseBodyStream} {results : List RecvResult}
    (h : StreamInv state.shared (.streaming stream results :: rest) stream.requestId)
    (hperm : state.tasks.Perm (.streaming stream results :: rest)) (hclosed : stream.closed = false)
    (hempty : ∀ channel, state.shared.channels stream.requestId = some channel → channel.queue = [])
    (hleft : senderLeft state stream.requestId = false) :
    state.shared.httpBodyStreamFailures stream.requestId ≠ none := by
  obtain ⟨hrouted, htasks⟩ := Bool.or_eq_false_iff.mp hleft
  rcases h.live_rest (by simp [isOpen, hclosed]) rfl with hlive |
      (⟨channel, hsome, delta, hmem, -⟩ | hfailure) | ⟨other, hother, hfails⟩
  · cases hrouted.symm.trans (List.contains_iff_mem.mpr hlive)
  · rw [hempty channel hsome] at hmem
    cases hmem
  · exact hfailure
  · have hmem := hperm.mem_iff.mpr (List.mem_cons_of_mem _ hother)
    exact absurd (holdsSender_of_fails hfails) (by simpa using List.any_eq_false.mp htasks other hmem)

namespace BodiesInv

variable {state : HttpBodyState}

theorem streamed {stream : HttpResponseBodyStream} {results : List RecvResult}
    (h : BodiesInv state.shared (.streaming stream results :: rest))
    (hperm : state.tasks.Perm (.streaming stream results :: rest)) :
    BodiesInv (recv state stream results).1 ((recv state stream results).2 :: rest) := by
  have hok : ConsumerOk state.shared.received stream results := h.inOrder _ List.mem_cons_self
  -- A stream that goes to its end leaves the tables as they are.
  have hends {stream' : HttpResponseBodyStream} {result : Option RecvResult} (hsame : stream'.requestId = stream.requestId)
      (hinOrder : (stream'.finishRemoteStream results result).InOrder state.shared.received)
      (hfailure : (stream'.finishRemoteStream results result).looksUp stream.requestId →
        state.shared.httpBodyStreamFailures stream.requestId ≠ none) :
      BodiesInv state.shared (stream'.finishRemoteStream results result :: rest) := by
    refine h.moved (fun requestId => (h.streams requestId).finished hsame hfailure) rfl (fun _ hnone _ => hnone) ?_
      (List.Subset.refl _) hinOrder
    intro requestId
    exact owns_of_ofStream (hsame ▸ HttpResponseBodyStream.ofStream_finishRemoteStream)
  rw [recv]
  split
  next hpending =>
    exact hends rfl (HttpResponseBodyStream.inOrder_end hok hpending)
      fun hlooksUp => absurd hlooksUp HttpResponseBodyStream.not_looksUp_finishRemoteStream
  next hpending =>
    rw [Bool.not_eq_true] at hpending
    split
    next delta queue receiving hchannel =>
      refine h.moved (fun requestId => (h.streams requestId).received_delta hchannel) rfl ?_ ?_ (List.Subset.refl _) ?_
      · exact fun requestId hnone _ => update_none hnone (ne_of_channel hchannel hnone)
      · exact fun requestId => owns_of_ofStream HttpResponseBodyStream.ofStream_recvDelta
      · exact HttpResponseBodyStream.inOrder_recvDelta hok hpending
          ((h.streams _).queue _ hchannel delta List.mem_cons_self)
    next hempty =>
      split
      next => exact h
      next hleft =>
        refine hends rfl (HttpResponseBodyStream.inOrder_drained hok hpending) fun hlooksUp => ?_
        obtain ⟨-, hclosed⟩ := HttpResponseBodyStream.open_of_looksUp_drained hok hpending hlooksUp
        refine failure_of_drained (h.streams _) hperm hclosed ?_ (Bool.not_eq_true _ ▸ hleft)
        rintro ⟨queue, receiving⟩ hsome
        cases queue with
        | nil => rfl
        | cons delta queue => exact absurd hsome (hempty delta queue receiving)

theorem started {tasks : List HttpBodyTask} (h : BodiesInv bodies tasks) (request : HttpBodyRequest) :
    BodiesInv bodies (request.start :: tasks) where
  streams requestId := (h.streams requestId).cons (by
    cases request with
    | httpRequestStream => exact ⟨by simp [HttpBodyRequest.start, owns], rfl, rfl, by simp [HttpBodyRequest.start]⟩
    | handleHttpBodyDeltaNotification params => exact ⟨rfl, rfl, rfl, by simp [HttpBodyRequest.start]⟩
    | failAllHttpBodyStreams message => exact ⟨rfl, rfl, rfl, by simp [HttpBodyRequest.start]⟩)
  named number hnumber := by
    obtain ⟨hnone, hfree⟩ := h.named number hnumber
    refine ⟨hnone, ?_⟩
    rintro task (_ | ⟨_, hmem⟩)
    · cases request <;> simp [HttpBodyRequest.start, owns]
    · exact hfree task hmem
  inOrder := by
    rintro task (_ | ⟨_, hmem⟩)
    · cases request <;> trivial
    · exact h.inOrder task hmem

theorem sends {params : HttpRequestBodyDeltaNotification} (h : BodiesInv state.shared (.sending params :: rest))
    (choice : HttpBodyChoice) : BodiesInv (moveHttpBodyTask state choice (.sending params)).1
      ((moveHttpBodyTask state choice (.sending params)).2 :: rest) := by
  have hmem : params ∈ state.shared.received := h.inOrder _ List.mem_cons_self
  rw [moveHttpBodyTask]
  split
  next =>
    exact h.moved (fun requestId => ((h.streams requestId).uncons (StreamInv.apart_sending params)).cons
      StreamInv.apart_returned) rfl (fun _ hnone _ => hnone) (fun _ howns => by cases howns) (List.Subset.refl _) trivial
  next channel hchannel =>
    split
    next channel' hsent =>
      refine h.moved (fun requestId => (h.streams requestId).sent hmem hchannel hsent) rfl ?_ ?_ (List.Subset.refl _) ?_
      · exact fun requestId hnone _ => update_none hnone (ne_of_channel hchannel hnone)
      · intro requestId howns
        split at howns <;> cases howns
      · split <;> trivial
    next hclosed =>
      exact h.moved (fun requestId => (h.streams requestId).notSent hchannel (.inr ⟨rfl, trySend_closed hclosed⟩)) rfl
        (fun _ hnone _ => hnone) (fun _ howns => by cases howns) (List.Subset.refl _) trivial
    next =>
      exact h.moved (fun requestId => (h.streams requestId).notSent hchannel (.inl rfl)) rfl
        (fun _ hnone _ => hnone) (fun _ howns => by cases howns) (List.Subset.refl _) trivial

theorem failsNext {message : Str} {streams : List Str} (h : BodiesInv state.shared (.failingAll message streams :: rest))
    (choice : HttpBodyChoice) : BodiesInv (moveHttpBodyTask state choice (.failingAll message streams)).1
      ((moveHttpBodyTask state choice (.failingAll message streams)).2 :: rest) := by
  rw [moveHttpBodyTask]
  split
  next hnone =>
    obtain rfl : streams = [] := by
      by_contra hne
      have hlt := Nat.mod_lt choice.pick (List.length_pos_iff.mpr hne)
      rw [List.getElem?_eq_getElem hlt] at hnone
      cases hnone
    exact h.moved (fun requestId => (h.streams requestId).failing_ended) rfl (fun _ hnone _ => hnone)
      (fun _ howns => by cases howns) (List.Subset.refl _) trivial
  next other hget =>
    have hrecording : BodiesInv state.shared
        (.recordingFailed message other (streams.eraseIdx (choice.pick % streams.length)) :: rest) :=
      h.moved (fun requestId => (h.streams requestId).failing_next hget (.inl ⟨rfl, rfl⟩)) rfl
        (fun _ hnone _ => hnone) (fun _ howns => by cases howns) (List.Subset.refl _) trivial
    dsimp only
    split
    next => exact hrecording
    next channel hchannel =>
      split
      next channel' hsent =>
        refine h.moved (fun requestId => (h.streams requestId).failing_next hget
          (.inr ⟨rfl, channel, channel', hchannel, hsent, rfl⟩)) rfl ?_ (fun _ howns => by cases howns)
          (List.Subset.refl _) trivial
        exact fun requestId hnone _ => update_none hnone (ne_of_channel hchannel hnone)
      next => exact hrecording

theorem step {state : HttpBodyState} {action : HttpBodyAction} (h : BodiesInv state.shared state.tasks) :
    BodiesInv (httpBodyStep state action).shared (httpBodyStep state action).tasks := by
  refine Tasks.step_keeps_perm BodiesInv (fun _ _ _ hperm => perm hperm) h (fun request _ => h.started request) ?_
  intro index choice task rest _ hperm hinv
  dsimp only
  rw [List.append_nil]
  have hsub := List.Subset.refl state.shared.received
  have hsame : ∀ requestId, state.shared.channels requestId = none → task.owns requestId = false →
      state.shared.channels requestId = none := fun _ hnone _ => hnone
  cases task with
  | inserting requestId =>
      cases requestId with
      | none => exact hinv.allocated
      | some other =>
          refine hinv.underLock ?_
          split
          · exact hinv.moved (fun requestId => (hinv.streams requestId).refused) rfl hsame (fun _ howns => by cases howns)
              hsub trivial
          · refine hinv.moved (fun requestId => (hinv.streams requestId).inserted) rfl ?_ ?_ hsub trivial
            · intro requestId hnone hfree
              refine update_none hnone ?_
              rintro rfl
              simp [owns] at hfree
            · intro requestId howns
              simpa [owns] using howns
  | requesting other =>
      cases hcaller : choice.caller with
      | goOn =>
          rw [moveHttpBodyTask, hcaller]
          exact hinv.moved (fun requestId => (hinv.streams requestId).answered) rfl hsame (fun _ howns => howns) hsub
            consumerOk_remote
      | fail =>
          rw [moveHttpBodyTask, hcaller]
          exact hinv.moved (fun requestId => (hinv.streams requestId).failed) rfl hsame (fun _ howns => howns) hsub trivial
      | drop =>
          rw [moveHttpBodyTask, hcaller]
          refine hinv.dropped (by simp [owns]) ?_ (.inr rfl) (fun _ _ hmem => hmem)
          exact fun requestId hne => ⟨by simp [owns, Ne.symm hne], rfl, rfl, by simp⟩
  | abandoning other =>
      refine hinv.underLock (hinv.dropped (by simp [owns]) ?_ (.inl rfl) fun _ => StreamInv.ne_of_mem_remove)
      exact fun requestId hne => ⟨by simp [owns, Ne.symm hne], rfl, rfl, by simp⟩
  | streaming stream results =>
      cases hcaller : choice.caller with
      | goOn =>
          rw [moveHttpBodyTask, hcaller]
          exact hinv.streamed hperm
      | fail =>
          rw [moveHttpBodyTask, hcaller]
          exact hinv.streamed hperm
      | drop =>
          rw [moveHttpBodyTask, hcaller]
          refine hinv.dropped (by simp [owns]) (fun requestId hne => OfStream.apart rfl hne) ?_ (fun _ _ hmem => hmem)
          by_cases hclosed : stream.closed = true
          · exact .inl (if_pos hclosed)
          · exact .inr (if_neg hclosed)
  | finishing stream result results =>
      have hok := hinv.inOrder _ List.mem_cons_self
      have hnew : (stream.answer results result).OfStream stream.requestId := by cases result <;> rfl
      have hclosed : stream.closed = true := by cases result <;> exact hok.1
      refine hinv.underLock (hinv.moved (fun requestId => (hinv.streams requestId).removed hclosed) rfl hsame ?_ hsub ?_)
      · exact fun requestId howns => hnew.owns.symm.trans howns
      · cases result with
        | none => exact hok
        | some result => exact hok.2
  | takingFailure stream results =>
      have hok := hinv.inOrder _ List.mem_cons_self
      refine hinv.underLock ?_
      split
      next error hsome =>
        refine hinv.moved (fun requestId => (hinv.streams requestId).looked hok.1 ?_) rfl hsame (fun _ howns => howns) hsub ?_
        · exact fun hne => Function.update_of_ne hne _ _
        · refine .of_ended ?_ (ended_concat (error_ne_chunk _) _) hok.1
          rcases hok.2.2 with hended | ⟨chunks, rfl⟩
          · exact hok.2.1.append hended _
          · exact .error chunks _
      next hnone =>
        have hended : Ended results := by
          by_contra hne
          exact (hinv.streams stream.requestId).lookedUp _ List.mem_cons_self ⟨rfl, hne⟩ hnone
        refine hinv.moved (fun requestId => (hinv.streams requestId).looked hok.1 fun _ => rfl) rfl hsame
          (fun _ howns => howns) hsub ?_
        exact .of_ended (hok.2.1.append hended _) (hended.append _) hok.1
  | removing other =>
      refine hinv.underLock (hinv.moved (fun requestId => (hinv.streams requestId).unrouting_removed (.inl rfl)) rfl hsame
        (fun _ howns => by cases howns) hsub trivial)
  | handling params =>
      have hmore := List.subset_cons_self params state.shared.received
      rw [moveHttpBodyTask]
      split
      · exact hinv.moved (fun requestId => (hinv.streams requestId).handled params (.inl rfl)) rfl hsame
          (fun _ howns => by cases howns) hmore List.mem_cons_self
      · exact hinv.moved (fun requestId => (hinv.streams requestId).handled params (.inr rfl)) rfl hsame
          (fun _ howns => by cases howns) hmore trivial
  | sending params => exact hinv.sends choice
  | recording other =>
      exact hinv.underLock (hinv.moved (fun requestId => (hinv.streams requestId).recorded) rfl hsame
        (fun _ howns => by cases howns) hsub trivial)
  | unrouting other =>
      refine hinv.underLock (hinv.moved (fun requestId => (hinv.streams requestId).unrouting_removed (.inr rfl)) rfl hsame
        (fun _ howns => by cases howns) hsub trivial)
  | failing message =>
      exact hinv.underLock (hinv.moved (fun requestId => (hinv.streams requestId).failing_started) rfl hsame
        (fun _ howns => by cases howns) hsub trivial)
  | failingAll message streams => exact hinv.failsNext choice
  | recordingFailed message other streams =>
      exact hinv.moved (fun requestId => (hinv.streams requestId).failing_recorded) rfl hsame
        (fun _ howns => by cases howns) hsub trivial
  | returned => exact hinv

theorem start : BodiesInv startHttpBodies.shared startHttpBodies.tasks where
  streams _ := ⟨Nat.zero_le _, nofun, nofun, nofun, nofun, nofun, nofun, nofun⟩
  named _ _ := ⟨rfl, nofun⟩
  inOrder := nofun

end BodiesInv

end Codrex.ExecServer
