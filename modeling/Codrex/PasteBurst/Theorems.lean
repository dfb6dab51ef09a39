import Codrex.PasteBurst.Burst
import Codrex.Lib.Transition

/-!
# A burst keeps what has been typed

The text, the buffer and the held character together spell the input, unless Enter comes while a character is held.
-/

namespace Codrex.PasteBurst

open Text

variable {timing : Timing} {burst : Burst} {composer : Composer} {now retroChars : Nat} {ch : Char} {typed : Str}

/-! ## The state of a burst -/

def Burst.held (burst : Burst) : Str := (burst.pendingFirstChar.map Prod.fst).toList

/-- What has been typed and is not in the text. -/
def Burst.kept (burst : Burst) : Str := burst.buffer ++ burst.held

/-- Only an active burst has a buffer, and it holds no character. What is held or buffered can time out. -/
structure Sound (burst : Burst) : Prop where
  inactive : burst.active = false → burst.buffer = []
  alone : burst.active = true → burst.pendingFirstChar = none
  heldAt : ∀ ch heldAt, burst.pendingFirstChar = some (ch, heldAt) → burst.lastPlainCharTime = some heldAt
  timed : burst.active = true → burst.lastPlainCharTime.isSome = true

theorem sound_default : Sound .default := ⟨fun _ => rfl, fun _ => rfl, nofun, nofun⟩

namespace Sound

variable (h : Sound burst)
include h

theorem isActiveInternal_eq : burst.isActiveInternal = burst.active := by
  rw [Burst.isActiveInternal]
  cases hactive : burst.active with
  | true => rfl
  | false => rw [h.inactive hactive]; rfl

theorem kept_of_active (hactive : burst.active = true) : burst.kept = burst.buffer := by
  rw [Burst.kept, Burst.held, h.alone hactive]
  exact List.append_nil _

theorem kept_of_inactive (hactive : burst.active = false) : burst.kept = burst.held := by
  rw [Burst.kept, h.inactive hactive]
  rfl

theorem kept_of_not_isActive (hactive : burst.isActive = false) : burst.kept = [] := by
  rw [Burst.isActive, Bool.or_eq_false_iff, h.isActiveInternal_eq, Option.isSome_eq_false_iff,
    Option.isNone_iff_eq_none] at hactive
  rw [h.kept_of_inactive hactive.1, Burst.held, hactive.2]
  rfl

end Sound

/-! ## The composer -/

/-- Neither a command nor a shell command. -/
def NoPrefix (text : Str) : Prop := text.head? ≠ some '/' ∧ text.head? ≠ some '!'

theorem NoPrefix.of_append {text rest : Str} (h : NoPrefix (text ++ rest)) : NoPrefix text := by
  cases text with
  | nil => exact ⟨nofun, nofun⟩
  | cons c text => exact h

theorem NoPrefix.newline (h : NoPrefix typed) : NoPrefix (typed ++ ['\n']) := by
  cases typed with
  | nil => exact ⟨by decide, by decide⟩
  | cons c typed => exact h

instance (text : Str) : Decidable (NoPrefix text) := inferInstanceAs (Decidable (_ ∧ _))

/-- The text, what is buffered and what is held spell what has been typed. -/
structure Spells (composer : Composer) (typed : Str) : Prop where
  sound : Sound composer.pasteBurst
  spelled : composer.text ++ composer.pasteBurst.kept = typed
  mode : composer.isBashMode = false

theorem syncBashModeFromText_eq (h : NoPrefix composer.text) : composer.syncBashModeFromText = composer := by
  rw [Composer.syncBashModeFromText, decide_eq_false h.2, Bool.and_false]
  exact if_neg nofun

theorem insertStr_eq {text : Str} (h : NoPrefix (composer.text ++ text)) :
    composer.insertStr text = { composer with text := composer.text ++ text } := by
  rw [Composer.insertStr]
  exact syncBashModeFromText_eq h

theorem handlePaste_eq {pasted : Str} (h : NoPrefix (composer.text ++ pasted)) :
    composer.handlePaste pasted = { composer with text := composer.text ++ pasted, pasteBurst := .default } := by
  rw [Composer.handlePaste, insertStr_eq h]
  rfl

theorem Spells.noPrefix (h : Spells composer typed) (hopens : NoPrefix typed) : NoPrefix composer.text :=
  NoPrefix.of_append (h.spelled.symm ▸ hopens)

/-- Nothing is buffered or held any more. -/
structure Flushed (composer : Composer) (typed : Str) : Prop where
  text : composer.text = typed
  inactive : composer.pasteBurst.active = false
  empty : composer.pasteBurst.buffer = []
  none : composer.pasteBurst.pendingFirstChar = none
  mode : composer.isBashMode = false

theorem Flushed.spells (h : Flushed composer typed) : Spells composer typed := by
  refine ⟨⟨fun _ => h.empty, fun _ => h.none, fun ch heldAt hheld => ?_, fun hactive => ?_⟩, ?_, h.mode⟩
  · cases h.none.symm.trans hheld
  · cases h.inactive.symm.trans hactive
  · rw [Burst.kept, Burst.held, h.empty, h.none, h.text]
    exact List.append_nil _

/-- A paste of what is buffered or held leaves nothing of it. -/
theorem Spells.handlePaste (h : Spells composer typed) (hopens : NoPrefix typed) (burst : Burst) :
    Flushed ({ composer with pasteBurst := burst }.handlePaste composer.pasteBurst.kept) typed := by
  have heq := @handlePaste_eq { composer with pasteBurst := burst } composer.pasteBurst.kept (h.spelled.symm ▸ hopens)
  rw [heq]
  exact ⟨h.spelled, rfl, rfl, rfl, h.mode⟩

theorem Sound.flushed (h : Sound burst) (hactive : burst.isActive = false) :
    burst.active = false ∧ burst.buffer = [] ∧ burst.pendingFirstChar = none := by
  rw [Burst.isActive, Bool.or_eq_false_iff, h.isActiveInternal_eq] at hactive
  obtain ⟨hinactive, hnone⟩ := hactive
  exact ⟨hinactive, h.inactive hinactive, by simpa using hnone⟩

theorem Spells.flushed (h : Spells composer typed) (hactive : composer.pasteBurst.isActive = false) :
    Flushed composer typed := by
  obtain ⟨hinactive, hempty, hnone⟩ := h.sound.flushed hactive
  refine ⟨?_, hinactive, hempty, hnone, h.mode⟩
  rw [← h.spelled, h.sound.kept_of_not_isActive hactive, List.append_nil]

theorem Spells.flushBeforeInput (h : Spells composer typed) (hopens : NoPrefix typed) :
    Flushed composer.flushBeforeInput typed := by
  by_cases hactive : composer.pasteBurst.isActive = true
  · simp only [Composer.flushBeforeInput, Burst.flushBeforeModifiedInput, if_pos hactive]
    exact h.handlePaste hopens _
  · simp only [Composer.flushBeforeInput, Burst.flushBeforeModifiedInput, if_neg hactive]
    exact h.flushed (eq_false_of_ne_true hactive)

/-- Not long enough since the last character for what is buffered or held. -/
def NotDue (timing : Timing) (burst : Burst) (now : Nat) : Prop :=
  (burst.active = true → ∀ last, burst.lastPlainCharTime = some last → now - last ≤ timing.activeIdleTimeout) ∧
    ∀ ch heldAt, burst.pendingFirstChar = some (ch, heldAt) → now - heldAt ≤ timing.charInterval

/-- A flush gives out the buffer, or the held character, or nothing is due. -/
theorem Sound.flushIfDue_cases (h : Sound burst) (now : Nat) :
    (burst.active = true ∧
      burst.flushIfDue timing now = (.paste burst.buffer, { burst with active := false, buffer := [] })) ∨
    (∃ ch heldAt, burst.active = false ∧ burst.pendingFirstChar = some (ch, heldAt) ∧
      burst.flushIfDue timing now = (.typed ch, { burst with pendingFirstChar := none })) ∨
    (NotDue timing burst now ∧ burst.flushIfDue timing now = (.none, burst)) := by
  simp only [Burst.flushIfDue, h.isActiveInternal_eq]
  cases hactive : burst.active with
  | true =>
      simp only [if_true, Bool.and_true]
      split
      · exact .inl ⟨trivial, rfl⟩
      · next hdue =>
          refine .inr (.inr ⟨⟨fun _ last hlast => ?_, fun ch heldAt hheld => ?_⟩, rfl⟩)
          · simpa [hlast] using hdue
          · cases (h.alone hactive).symm.trans hheld
  | false =>
      simp only [Bool.false_eq_true, if_false, Bool.and_false]
      cases hheld : burst.pendingFirstChar with
      | none =>
          refine .inr (.inr ⟨⟨fun hcontra => ?_, fun ch heldAt hcontra => ?_⟩, by simp⟩)
          · cases hactive.symm.trans hcontra
          · cases hheld.symm.trans hcontra
      | some held =>
          obtain ⟨ch, heldAt⟩ := held
          simp only
          split
          · exact .inr (.inl ⟨ch, heldAt, trivial, rfl, rfl⟩)
          · next hdue =>
              refine .inr (.inr ⟨⟨fun hcontra => ?_, fun other otherAt hother => ?_⟩, rfl⟩)
              · cases hactive.symm.trans hcontra
              · cases hheld.symm.trans hother
                simpa [h.heldAt ch heldAt hheld] using hdue

/-- A flush keeps what has been typed, and what is left is not due. -/
theorem Spells.handlePasteBurstFlush (h : Spells composer typed) (hopens : NoPrefix typed) (now : Nat) :
    Spells (composer.handlePasteBurstFlush timing now) typed ∧
      (Flushed (composer.handlePasteBurstFlush timing now) typed ∨
        composer.handlePasteBurstFlush timing now = composer ∧ NotDue timing composer.pasteBurst now) := by
  rw [Composer.handlePasteBurstFlush]
  obtain ⟨hactive, hflush⟩ | ⟨ch, heldAt, hinactive, hheld, hflush⟩ | ⟨hdue, hflush⟩ :=
    @Sound.flushIfDue_cases timing _ h.sound now
  · rw [hflush]
    have hpasted := h.handlePaste hopens { composer.pasteBurst with active := false, buffer := [] }
    rw [h.sound.kept_of_active hactive] at hpasted
    exact ⟨hpasted.spells, .inl hpasted⟩
  · rw [hflush]
    have hkept : composer.pasteBurst.kept = [ch] := by
      rw [h.sound.kept_of_inactive hinactive, Burst.held, hheld]
      rfl
    have hspelled := h.spelled
    rw [hkept] at hspelled
    have heq := @insertStr_eq { composer with
      pasteBurst := { composer.pasteBurst with pendingFirstChar := none } } [ch] (hspelled.symm ▸ hopens)
    simp only
    rw [heq]
    have hflushed : Flushed { composer with
        text := composer.text ++ [ch]
        pasteBurst := { composer.pasteBurst with pendingFirstChar := none } } typed :=
      ⟨hspelled, hinactive, h.sound.inactive hinactive, rfl, h.mode⟩
    exact ⟨hflushed.spells, .inl hflushed⟩
  · rw [hflush]
    exact ⟨h, .inr ⟨rfl, hdue⟩⟩

theorem Flushed.notDue (h : Flushed composer typed) (timing : Timing) (now : Nat) :
    NotDue timing composer.pasteBurst now := by
  refine ⟨fun hcontra => ?_, fun ch heldAt hcontra => ?_⟩
  · cases h.inactive.symm.trans hcontra
  · cases h.none.symm.trans hcontra

/-! ## Characters -/

/-- A character that joins an active burst. -/
theorem Spells.bufferChar (h : Spells composer typed) (hactive : composer.pasteBurst.active = true) (ch : Char)
    (now : Nat) : Spells (composer.bufferChar timing ch now) (typed ++ [ch]) := by
  have halone := h.sound.alone hactive
  refine ⟨⟨fun hcontra => ?_, fun _ => halone, fun other heldAt hheld => ?_, fun _ => h.sound.timed hactive⟩, ?_,
    h.mode⟩
  · cases hactive.symm.trans hcontra
  · cases halone.symm.trans hheld
  · have hspelled := h.spelled
    rw [h.sound.kept_of_active hactive] at hspelled
    show composer.text ++ ((composer.pasteBurst.buffer ++ [ch]) ++ composer.pasteBurst.held) = _
    rw [Burst.held, halone, ← hspelled]
    simp

/-- What is grabbed from the text goes to the buffer, in front of the character. -/
theorem Flushed.beginBuffer (h : Flushed composer typed) (htimed : composer.pasteBurst.lastPlainCharTime.isSome = true)
    {composer' : Composer} (hbegin : composer.beginBuffer timing ch now retroChars = some composer') :
    Spells composer' (typed ++ [ch]) := by
  rw [Composer.beginBuffer, Burst.decideBeginBuffer] at hbegin
  split at hbegin
  · next grab burst heq =>
      split at heq
      · cases heq
        cases hbegin
        refine ⟨⟨nofun, fun _ => h.none, fun other heldAt hheld => ?_, fun _ => htimed⟩, ?_, h.mode⟩
        · cases h.none.symm.trans hheld
        · show (if (composer.text.drop (retroStartIndex composer.text retroChars)).isEmpty then composer.text
            else composer.text.take (retroStartIndex composer.text retroChars)) ++
              (((composer.pasteBurst.buffer ++ composer.text.drop (retroStartIndex composer.text retroChars)) ++
                [ch]) ++ composer.pasteBurst.held) = _
          rw [h.empty, Burst.held, h.none, ← h.text]
          split
          · next hempty => simp [List.isEmpty_iff.mp hempty]
          · have hgrabbed := List.take_append_drop (retroStartIndex composer.text retroChars) composer.text
            simp [← List.append_assoc, hgrabbed]
      · cases heq
  · cases hbegin

theorem Flushed.textareaInput (h : Flushed composer typed) (ch : Char) :
    Flushed (composer.textareaInput ch) (typed ++ [ch]) :=
  ⟨congrArg (· ++ [ch]) h.text, h.inactive, h.empty, h.none, h.mode⟩

theorem Flushed.syncBashMode (h : Flushed composer typed) (hopens : NoPrefix typed) :
    Flushed composer.syncBashModeFromText typed := by
  rw [syncBashModeFromText_eq (h.text ▸ hopens)]
  exact h

theorem Flushed.insertChar (h : Flushed composer typed) (hopens : NoPrefix (typed ++ [ch])) :
    Flushed (composer.insertChar ch) (typed ++ [ch]) :=
  ((h.spells.flushBeforeInput hopens.of_append).textareaInput ch).syncBashMode hopens

/-- Noting a character changes only the time and the count. -/
theorem Flushed.notePlainChar (h : Flushed composer typed) (now : Nat) :
    Flushed { composer with pasteBurst := composer.pasteBurst.notePlainChar timing now } typed :=
  ⟨h.text, h.inactive, h.empty, h.none, h.mode⟩

/-- A character that a burst may take comes after one that is still held. -/
theorem NotDue.heldWithin (hdue : NotDue timing burst now) (hheld : burst.pendingFirstChar = some (ch, retroChars)) :
    (burst.notePlainChar timing now).heldWithin timing now = some ch := by
  have hpending : (burst.notePlainChar timing now).pendingFirstChar = some (ch, retroChars) := hheld
  rw [Burst.heldWithin, hpending]
  exact if_pos (hdue.2 ch retroChars hheld)

theorem heldWithin_of_none (hheld : burst.pendingFirstChar = none) :
    (burst.notePlainChar timing now).heldWithin timing now = none := by
  have hpending : (burst.notePlainChar timing now).pendingFirstChar = none := hheld
  rw [Burst.heldWithin, hpending]

theorem Spells.handleAsciiChar (h : Spells composer typed) (hdue : NotDue timing composer.pasteBurst now)
    (hopens : NoPrefix (typed ++ [ch])) : Spells (composer.handleAsciiChar timing ch now) (typed ++ [ch]) := by
  have hnoted : (composer.pasteBurst.notePlainChar timing now).active = composer.pasteBurst.active := rfl
  simp only [Composer.handleAsciiChar, Burst.onPlainChar, hnoted]
  cases hactive : composer.pasteBurst.active with
  | true =>
      have halone := h.sound.alone hactive
      have hspells : Spells { composer with
          pasteBurst := (composer.pasteBurst.notePlainChar timing now).extendWindow timing now } typed := by
        refine ⟨⟨fun hcontra => ?_, fun _ => halone, fun other heldAt hheld => ?_, fun _ => rfl⟩, h.spelled, h.mode⟩
        · cases hactive.symm.trans hcontra
        · cases halone.symm.trans hheld
      exact hspells.bufferChar hactive ch now
  | false =>
      simp only [Bool.false_eq_true, if_false]
      cases hheld : composer.pasteBurst.pendingFirstChar with
      | some pending =>
          obtain ⟨held, heldAt⟩ := pending
          rw [hdue.heldWithin hheld]
          have hspells : Spells { composer with
              pasteBurst := { composer.pasteBurst.notePlainChar timing now with
                active := true
                pendingFirstChar := none
                buffer := composer.pasteBurst.buffer ++ [held] }.extendWindow timing now } typed := by
            refine ⟨⟨fun hcontra => ?_, fun _ => rfl, fun other otherAt hcontra => ?_, fun _ => rfl⟩, ?_, h.mode⟩
            · cases hcontra
            · cases hcontra
            · have hspelled := h.spelled
              rw [Burst.kept, Burst.held, hheld, h.sound.inactive hactive] at hspelled
              show composer.text ++ ((composer.pasteBurst.buffer ++ [held]) ++ []) = typed
              rw [h.sound.inactive hactive, List.append_nil]
              exact hspelled
          exact hspells.bufferChar rfl ch now
      | none =>
          have hflushed := h.flushed (by rw [Burst.isActive, h.sound.isActiveInternal_eq, hactive, hheld]; rfl)
          have hnotedFlushed := @Flushed.notePlainChar timing _ _ hflushed now
          rw [heldWithin_of_none hheld]
          by_cases hcount : minChars ≤ (composer.pasteBurst.notePlainChar timing now).consecutivePlainCharBurst
          · simp only [if_pos hcount]
            cases hbegin : Composer.beginBuffer timing
                { composer with pasteBurst := composer.pasteBurst.notePlainChar timing now } ch now
                ((composer.pasteBurst.notePlainChar timing now).consecutivePlainCharBurst - 1) with
            | none => exact (hnotedFlushed.insertChar hopens).spells
            | some composer' => exact hnotedFlushed.beginBuffer rfl hbegin
          · simp only [if_neg hcount]
            refine ⟨⟨fun _ => hflushed.empty, fun hcontra => ?_, fun other heldAt hother => ?_, fun hcontra => ?_⟩, ?_,
              h.mode⟩
            · cases hcontra
            · cases hother
              rfl
            · cases hcontra
            · show composer.text ++ (composer.pasteBurst.buffer ++ [ch]) = typed ++ [ch]
              rw [hflushed.empty, hflushed.text]
              rfl

/-- A character that is not held is taken by a burst, or inserted behind what was buffered or held. -/
theorem Spells.handleNonAsciiChar (h : Spells composer typed) (hopens : NoPrefix (typed ++ [ch])) :
    Spells (composer.handleNonAsciiChar timing ch now) (typed ++ [ch]) := by
  have hinternal : (composer.pasteBurst.active || !composer.pasteBurst.buffer.isEmpty) = composer.pasteBurst.active :=
    h.sound.isActiveInternal_eq
  simp only [Composer.handleNonAsciiChar, Burst.tryAppendCharIfActive, hinternal]
  cases hactive : composer.pasteBurst.active with
  | true => exact h.bufferChar hactive ch now
  | false =>
      simp only [Bool.false_eq_true, if_false]
      have hflushed := h.flushBeforeInput hopens.of_append
      have hnotedFlushed := @Flushed.notePlainChar timing _ _ hflushed now
      have hnoted : (composer.flushBeforeInput.pasteBurst.notePlainChar timing now).active = false := hflushed.inactive
      simp only [Burst.onPlainCharNoHold, hnoted, Bool.false_eq_true, if_false]
      by_cases hcount : minChars ≤
          (composer.flushBeforeInput.pasteBurst.notePlainChar timing now).consecutivePlainCharBurst
      · simp only [if_pos hcount]
        cases hbegin : Composer.beginBuffer timing
            { composer.flushBeforeInput with
              pasteBurst := composer.flushBeforeInput.pasteBurst.notePlainChar timing now } ch now
            ((composer.flushBeforeInput.pasteBurst.notePlainChar timing now).consecutivePlainCharBurst - 1) with
        | none =>
            exact ((hnotedFlushed.spells.flushBeforeInput hopens.of_append).textareaInput ch).spells
        | some composer' => exact hnotedFlushed.beginBuffer rfl hbegin
      · simp only [if_neg hcount]
        exact ((hnotedFlushed.spells.flushBeforeInput hopens.of_append).textareaInput ch).spells

/-! ## Keys -/

/-- A newline joins what is buffered if no character is held. -/
theorem Spells.appendNewline (h : Spells composer typed) (hnone : composer.pasteBurst.pendingFirstChar = none)
    (hactive : composer.pasteBurst.isActive = true) :
    Spells (composer.bufferChar timing '\n' now) (typed ++ ['\n']) := by
  rw [Burst.isActive, h.sound.isActiveInternal_eq, hnone, Option.isSome_none, Bool.or_false] at hactive
  exact h.bufferChar hactive '\n' now

/-- What a key adds to what has been typed. -/
def Key.spelled : Key → Str
  | .char ch => [ch.char]
  | .enter => ['\n']
  | .other => []

theorem Spells.handleInputBasicWithTime (h : Spells composer typed) {key : Key}
    (hopens : NoPrefix (typed ++ key.spelled))
    (hheld : key = .enter → ∀ held ∈ composer.pasteBurst.pendingFirstChar, timing.charInterval < now - held.2) :
    Spells (composer.handleInputBasicWithTime timing key now) (typed ++ key.spelled) := by
  obtain ⟨hspells, hleft⟩ := @Spells.handlePasteBurstFlush timing _ _ h hopens.of_append now
  cases key with
  | char ch =>
      simp only [Composer.handleInputBasicWithTime]
      split
      · refine hspells.handleAsciiChar ?_ hopens
        obtain hflushed | ⟨hsame, hdue⟩ := hleft
        · exact hflushed.notDue timing now
        · exact hsame.symm ▸ hdue
      · exact hspells.handleNonAsciiChar hopens
  | other =>
      have hflushed := (hspells.flushBeforeInput hopens.of_append).syncBashMode hopens.of_append
      rw [Key.spelled, List.append_nil]
      exact Flushed.spells ⟨hflushed.text, rfl, hflushed.empty, rfl, hflushed.mode⟩
  | enter =>
      have hnone : (composer.handlePasteBurstFlush timing now).pasteBurst.pendingFirstChar = none := by
        obtain hflushed | ⟨hsame, hdue⟩ := hleft
        · exact hflushed.none
        · rw [hsame, Option.eq_none_iff_forall_not_mem]
          exact fun held hpending => Nat.not_le.mpr (hheld rfl held hpending) (hdue.2 held.1 held.2 hpending)
      simp only [Composer.handleInputBasicWithTime, Burst.appendNewlineIfActive]
      by_cases hactive : (composer.handlePasteBurstFlush timing now).pasteBurst.isActive = true
      · simp only [if_pos hactive]
        exact hspells.appendNewline hnone hactive
      · simp only [if_neg hactive]
        exact (((hspells.flushed (eq_false_of_ne_true hactive)).textareaInput '\n').syncBashMode hopens).spells

/-- An Enter that does not submit adds a newline if no character is held. -/
theorem Spells.handleSubmissionWithTime (h : Spells composer typed) (hopens : NoPrefix typed)
    (hnone : composer.pasteBurst.pendingFirstChar = none)
    (hresult : (composer.handleSubmissionWithTime timing now).1 = .none) :
    Spells (composer.handleSubmissionWithTime timing now).2 (typed ++ ['\n']) := by
  have hcontext : (composer.slashCommandsEnabled && !composer.isBashMode && composer.text.head? = some '/') =
      false := by
    rw [decide_eq_false (h.noPrefix hopens).1, Bool.and_false]
  simp only [Composer.handleSubmissionWithTime, hcontext, Bool.false_eq_true, if_false, Burst.appendNewlineIfActive]
    at hresult ⊢
  by_cases hactive : composer.pasteBurst.isActive = true
  · simp only [if_pos hactive]
    exact h.appendNewline hnone hactive
  · simp only [if_neg hactive] at hresult ⊢
    have hflushed := h.flushed (eq_false_of_ne_true hactive)
    split at hresult
    · next hwindow =>
        rw [if_pos hwindow]
        exact Flushed.spells ⟨congrArg (· ++ ['\n']) hflushed.text, hflushed.inactive, hflushed.empty, hflushed.none,
          hflushed.mode⟩
    · cases hresult

/-! ## The time of the last character -/

/-- The last character that was noted came no later than the bound. -/
def NotedBy (bound : Option Nat) (burst : Burst) : Prop :=
  ∀ last, burst.lastPlainCharTime = some last → ∃ time, bound = some time ∧ last ≤ time

variable {bound : Option Nat}

theorem notedBy_default (bound : Option Nat) : NotedBy bound .default := nofun

theorem pasteBurst_syncBashModeFromText (composer : Composer) :
    composer.syncBashModeFromText.pasteBurst = composer.pasteBurst := by
  rw [Composer.syncBashModeFromText]
  split <;> rfl

theorem pasteBurst_insertStr (composer : Composer) (text : Str) :
    (composer.insertStr text).pasteBurst = composer.pasteBurst :=
  pasteBurst_syncBashModeFromText _

theorem NotedBy.handlePasteBurstFlush (h : NotedBy bound composer.pasteBurst) (hsound : Sound composer.pasteBurst) :
    NotedBy bound (composer.handlePasteBurstFlush timing now).pasteBurst := by
  rw [Composer.handlePasteBurstFlush]
  obtain ⟨-, hflush⟩ | ⟨ch, heldAt, -, -, hflush⟩ | ⟨-, hflush⟩ := @Sound.flushIfDue_cases timing _ hsound now
  · rw [hflush]
    exact notedBy_default bound
  · rw [hflush]
    simp only
    rw [pasteBurst_insertStr]
    exact h
  · rw [hflush]
    exact h

theorem NotedBy.flushBeforeInput (h : NotedBy bound composer.pasteBurst) :
    NotedBy bound composer.flushBeforeInput.pasteBurst := by
  by_cases hactive : composer.pasteBurst.isActive = true
  · simp only [Composer.flushBeforeInput, Burst.flushBeforeModifiedInput, if_pos hactive]
    exact notedBy_default bound
  · simp only [Composer.flushBeforeInput, Burst.flushBeforeModifiedInput, if_neg hactive]
    exact h

theorem NotedBy.beginBuffer (h : NotedBy bound composer.pasteBurst) {composer' : Composer}
    (hbegin : composer.beginBuffer timing ch now retroChars = some composer') : NotedBy bound composer'.pasteBurst := by
  rw [Composer.beginBuffer, Burst.decideBeginBuffer] at hbegin
  split at hbegin
  · next grab burst heq =>
      split at heq
      · cases heq
        cases hbegin
        exact h
      · cases heq
  · cases hbegin

theorem lastPlainCharTime_onPlainChar (timing : Timing) (burst : Burst) (ch : Char) (now : Nat) :
    (burst.onPlainChar timing ch now).2.lastPlainCharTime = some now := by
  simp only [Burst.onPlainChar]
  split
  · rfl
  · split
    · rfl
    · split <;> rfl

theorem lastPlainCharTime_onPlainCharNoHold (timing : Timing) (burst : Burst) (now : Nat) :
    (burst.onPlainCharNoHold timing now).2.lastPlainCharTime = some now := by
  simp only [Burst.onPlainCharNoHold]
  split
  · rfl
  · split <;> rfl

theorem notedBy_of_eq (h : burst.lastPlainCharTime = some now) : NotedBy (some now) burst :=
  fun _ hlast => ⟨now, rfl, Nat.le_of_eq (Option.some.inj (hlast.symm.trans h))⟩

theorem notedBy_handleAsciiChar (timing : Timing) (composer : Composer) (ch : Char) (now : Nat) :
    NotedBy (some now) (composer.handleAsciiChar timing ch now).pasteBurst := by
  have hnoted := notedBy_of_eq (lastPlainCharTime_onPlainChar timing composer.pasteBurst ch now)
  rw [Composer.handleAsciiChar]
  cases hdecision : composer.pasteBurst.onPlainChar timing ch now with
  | mk decision burst =>
      rw [hdecision] at hnoted
      cases decision with
      | beginBuffer retroChars =>
          simp only
          cases hbegin : Composer.beginBuffer timing { composer with pasteBurst := burst } ch now retroChars with
          | some composer' => exact NotedBy.beginBuffer hnoted hbegin
          | none =>
              simp only [Option.getD_none, Composer.insertChar]
              rw [pasteBurst_syncBashModeFromText]
              exact @NotedBy.flushBeforeInput { composer with pasteBurst := burst } _ hnoted
      | bufferAppend => exact hnoted
      | retainFirstChar => exact hnoted
      | beginBufferFromPending => exact hnoted

theorem NotedBy.handleNonAsciiChar (h : NotedBy (some now) composer.pasteBurst) :
    NotedBy (some now) (composer.handleNonAsciiChar timing ch now).pasteBurst := by
  rw [Composer.handleNonAsciiChar]
  cases happend : composer.pasteBurst.tryAppendCharIfActive timing ch now with
  | mk taken burst =>
      rw [Burst.tryAppendCharIfActive] at happend
      split at happend
      · cases happend
        exact h
      · cases happend
        have hnoted :=
          notedBy_of_eq (lastPlainCharTime_onPlainCharNoHold timing composer.flushBeforeInput.pasteBurst now)
        simp only
        cases hdecision : composer.flushBeforeInput.pasteBurst.onPlainCharNoHold timing now with
        | mk decision burst =>
            rw [hdecision] at hnoted
            have hflushed := @NotedBy.flushBeforeInput { composer.flushBeforeInput with pasteBurst := burst } _ hnoted
            cases decision with
            | none => exact hflushed
            | some decision =>
                cases decision with
                | beginBuffer retroChars =>
                    simp only
                    cases hbegin : Composer.beginBuffer timing
                        { composer.flushBeforeInput with pasteBurst := burst } ch now retroChars with
                    | some composer' => exact NotedBy.beginBuffer hnoted hbegin
                    | none => exact hflushed
                | bufferAppend => exact hnoted
                | retainFirstChar => exact hflushed
                | beginBufferFromPending => exact hflushed

theorem NotedBy.handleInputBasicWithTime (h : NotedBy bound composer.pasteBurst) (hsound : Sound composer.pasteBurst)
    (hbound : ∀ time, bound = some time → time ≤ now) (key : Key) :
    NotedBy (match key with | .char _ => some now | _ => bound)
      (composer.handleInputBasicWithTime timing key now).pasteBurst := by
  have hflushed : NotedBy bound (composer.handlePasteBurstFlush timing now).pasteBurst := h.handlePasteBurstFlush hsound
  cases key with
  | char ch =>
      simp only [Composer.handleInputBasicWithTime]
      split
      · exact notedBy_handleAsciiChar timing _ ch.char now
      · refine NotedBy.handleNonAsciiChar fun last hlast => ?_
        obtain ⟨time, htime, hle⟩ := hflushed last hlast
        exact ⟨now, rfl, hle.trans (hbound time htime)⟩
  | enter =>
      simp only [Composer.handleInputBasicWithTime, Burst.appendNewlineIfActive]
      by_cases hactive : (composer.handlePasteBurstFlush timing now).pasteBurst.isActive = true
      · simp only [if_pos hactive]
        exact hflushed
      · simp only [if_neg hactive]
        rw [pasteBurst_syncBashModeFromText]
        exact hflushed
  | other => exact nofun

theorem NotedBy.handleSubmissionWithTime (h : NotedBy bound composer.pasteBurst) :
    NotedBy bound (composer.handleSubmissionWithTime timing now).2.pasteBurst := by
  simp only [Composer.handleSubmissionWithTime, Burst.appendNewlineIfActive]
  split
  · exact h
  · by_cases hactive : composer.pasteBurst.isActive = true
    · simp only [if_pos hactive]
      exact h
    · simp only [if_neg hactive]
      split <;> exact h

/-! ## Runs -/

inductive Event
  | key (key : Key)
  | submit
  | tick

/-- The composer, what has been typed until now, when the last character was, and whether Enter has submitted. -/
structure Typing where
  composer : Composer
  typed : Str
  lastChar : Option Nat
  clock : Nat
  submitted : Bool
  deriving DecidableEq

namespace Typing

def start (slashCommandsEnabled : Bool) : Typing := ⟨⟨[], .default, false, slashCommandsEnabled⟩, [], none, 0, false⟩

/-- An Enter that is to submit a text ends the run: the text is handed over, or, blank or too long, put back with the
cursor in front of it. An empty text is not submitted, and stays as it is. -/
def step (timing : Timing) (typing : Typing) (event : Nat × Event) : Typing :=
  if typing.submitted then typing
  else
    match event with
    | (now, .tick) => { typing with composer := typing.composer.handlePasteBurstFlush timing now, clock := now }
    | (now, .key key) =>
        { typing with
          composer := typing.composer.handleInputBasicWithTime timing key now
          typed := typing.typed ++ key.spelled
          lastChar := match key with | .char _ => some now | _ => typing.lastChar
          clock := now }
    | (now, .submit) =>
        match typing.composer.handleSubmissionWithTime timing now with
        | (.none, composer) => { typing with composer := composer, typed := typing.typed ++ ['\n'], clock := now }
        | (.submission, _) => { typing with submitted := !typing.composer.text.isEmpty, clock := now }

/-- Time does not go back, and what is typed does not begin like a command. -/
def Allowed (typing : Typing) : Nat × Event → Prop
  | (now, .key (.char ch)) => typing.clock ≤ now ∧ NoPrefix (typing.typed ++ [ch.char])
  | (now, _) => typing.clock ≤ now

/-- Enter does not come while a first character is held. -/
def Unheld (timing : Timing) (typing : Typing) : Nat × Event → Prop
  | (_, .submit) => typing.composer.pasteBurst.pendingFirstChar = none
  | (now, .key .enter) => ∀ held ∈ typing.composer.pasteBurst.pendingFirstChar, timing.charInterval < now - held.2
  | _ => True

instance (typing : Typing) (event : Nat × Event) : Decidable (Allowed typing event) :=
  match event with
  | (_, .key (.char _)) => inferInstanceAs (Decidable (_ ∧ _))
  | (_, .key .enter) | (_, .key .other) | (_, .submit) | (_, .tick) => inferInstanceAs (Decidable (_ ≤ _))

instance (timing : Timing) (typing : Typing) (event : Nat × Event) : Decidable (Unheld timing typing event) :=
  match event with
  | (_, .submit) => inferInstanceAs (Decidable (_ = _))
  | (_, .key .enter) => inferInstanceAs (Decidable (∀ held ∈ _, _))
  | (_, .key (.char _)) | (_, .key .other) | (_, .tick) => .isTrue trivial

/-- What has been typed is in the text, in the buffer or held, in this order, and a late tick leaves it in the text. -/
def Keeps (timing : Timing) (typing : Typing) : Prop :=
  typing.composer.text ++ (typing.composer.pasteBurst.buffer ++ typing.composer.pasteBurst.held) = typing.typed ∧
  ∀ now, (∀ last, typing.lastChar = some last →
      timing.charInterval < now - last ∧ timing.activeIdleTimeout < now - last) →
    (typing.composer.handlePasteBurstFlush timing now).pasteBurst.buffer = [] ∧
    (typing.composer.handlePasteBurstFlush timing now).pasteBurst.pendingFirstChar = none

variable {typing : Typing}

/-- The invariant of a run. -/
structure Kept (typing : Typing) : Prop where
  spells : Spells typing.composer typing.typed
  noPrefix : NoPrefix typing.typed
  noted : NotedBy typing.lastChar typing.composer.pasteBurst
  past : ∀ time, typing.lastChar = some time → time ≤ typing.clock

theorem Kept.start (slashCommandsEnabled : Bool) : Kept (.start slashCommandsEnabled) :=
  ⟨⟨sound_default, rfl, rfl⟩, ⟨nofun, nofun⟩, nofun, nofun⟩

theorem Kept.step (h : Kept typing) {event : Nat × Event} (hallowed : Allowed typing event)
    (hunheld : Unheld timing typing event) : Kept (typing.step timing event) := by
  obtain ⟨now, event⟩ := event
  by_cases hsubmitted : typing.submitted = true
  · have hsame : typing.step timing (now, event) = typing := if_pos hsubmitted
    rw [hsame]
    exact h
  · have hclock : typing.clock ≤ now := by
      cases event with
      | key key =>
          cases key with
          | char ch => exact hallowed.1
          | _ => exact hallowed
      | _ => exact hallowed
    have hpast : ∀ time, typing.lastChar = some time → time ≤ now :=
      fun time htime => (h.past time htime).trans hclock
    rw [Typing.step.eq_def, if_neg hsubmitted]
    cases event with
    | tick =>
        exact ⟨(h.spells.handlePasteBurstFlush h.noPrefix now).1, h.noPrefix,
          h.noted.handlePasteBurstFlush h.spells.sound, hpast⟩
    | key key =>
        have hopens : NoPrefix (typing.typed ++ key.spelled) := by
          cases key with
          | char ch => exact hallowed.2
          | enter => exact h.noPrefix.newline
          | other => exact (List.append_nil typing.typed).symm ▸ h.noPrefix
        have hheld : key = .enter → ∀ held ∈ typing.composer.pasteBurst.pendingFirstChar,
            timing.charInterval < now - held.2 := by
          rintro rfl
          exact hunheld
        refine ⟨h.spells.handleInputBasicWithTime hopens hheld, hopens,
          h.noted.handleInputBasicWithTime h.spells.sound hpast key, fun time htime => ?_⟩
        cases key with
        | char ch => exact Nat.le_of_eq (Option.some.inj htime).symm
        | enter => exact hpast time htime
        | other => exact hpast time htime
    | submit =>
        have hnoted := @NotedBy.handleSubmissionWithTime timing _ now _ h.noted
        have hspells := @Spells.handleSubmissionWithTime timing _ now _ h.spells h.noPrefix hunheld
        simp only
        cases hresult : typing.composer.handleSubmissionWithTime timing now with
        | mk result composer =>
            rw [hresult] at hnoted hspells
            cases result with
            | none => exact ⟨hspells rfl, h.noPrefix.newline, hnoted, hpast⟩
            | submission => exact ⟨h.spells, h.noPrefix, h.noted, hpast⟩

/-- A tick that is late enough leaves nothing in the buffer and nothing held. -/
theorem Kept.keeps (h : Kept typing) (timing : Timing) : Keeps timing typing := by
  refine ⟨h.spells.spelled, fun now hlate => ?_⟩
  have hdueBy : ∀ last, typing.composer.pasteBurst.lastPlainCharTime = some last →
      timing.charInterval < now - last ∧ timing.activeIdleTimeout < now - last := by
    intro last hlast
    obtain ⟨time, htime, hle⟩ := h.noted last hlast
    obtain ⟨hinterval, hidle⟩ := hlate time htime
    exact ⟨by omega, by omega⟩
  obtain ⟨-, hflushed | ⟨hsame, hactiveDue, hheldDue⟩⟩ :=
    @Spells.handlePasteBurstFlush timing _ _ h.spells h.noPrefix now
  · exact ⟨hflushed.empty, hflushed.none⟩
  · rw [hsame]
    constructor
    · refine h.spells.sound.inactive (eq_false_of_ne_true fun hactive => ?_)
      obtain ⟨last, hlast⟩ := Option.isSome_iff_exists.mp (h.spells.sound.timed hactive)
      exact Nat.not_le.mpr (hdueBy last hlast).2 (hactiveDue hactive last hlast)
    · rw [Option.eq_none_iff_forall_not_mem]
      rintro ⟨ch, heldAt⟩ hheld
      exact Nat.not_le.mpr (hdueBy heldAt (h.spells.sound.heldAt ch heldAt hheld)).1 (hheldDue ch heldAt hheld)

/-- Unless Enter comes while a first character is held, a burst neither loses nor reorders what is typed. -/
theorem unheld_keeps (timing : Timing) (slashCommandsEnabled : Bool) (events : List (Nat × Event))
    (h : Transition.Guarded (Typing.step timing) (fun typing event => Allowed typing event ∧ Unheld timing typing event)
      (.start slashCommandsEnabled) events) :
    Keeps timing (Transition.run (Typing.step timing) (.start slashCommandsEnabled) events) :=
  (h.invariant (fun _ _ hguard hkept => hkept.step hguard.1 hguard.2) (Kept.start slashCommandsEnabled)).keeps timing

def plain (c : Char) (h : c.toNat ≠ 0x02 ∧ c.toNat ≠ 0x06 ∧ c.toNat ≠ 0x10 ∧ c.toNat ≠ 0x0E) : Event :=
  .key (.char ⟨c, h⟩)

/-- Two lines that are pasted, and an Enter long after them. -/
def pastedLines : List (Nat × Event) :=
  [(0, plain 'a' (by decide)), (1000000, plain 'b' (by decide)), (2000000, .submit), (3000000, plain 'é' (by decide)),
    (20000000, .tick), (30000000, .submit), (40000000, plain 'c' (by decide)), (60000000, .key .other),
    (400000000, .submit)]

theorem pastedLines_kept :
    Keeps .unix (Transition.run (Typing.step .unix) (.start true) pastedLines) :=
  unheld_keeps .unix true pastedLines (by decide)

/-- An Enter that follows one character at once. -/
def enterAfterHeld : List (Nat × Event) := [(0, plain 'a' (by decide)), (1000000, .submit), (20000000, .tick)]

theorem enterAfterHeld_lost :
    Transition.Guarded (Typing.step .unix) Allowed (.start true) enterAfterHeld ∧
      ¬ Keeps .unix (Transition.run (Typing.step .unix) (.start true) enterAfterHeld) :=
  ⟨by decide, fun h => absurd h.1 (by decide)⟩

end Typing

end Codrex.PasteBurst
