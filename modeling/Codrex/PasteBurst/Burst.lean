import Codrex.Lib.Text

/-!
# Pastes that arrive as a burst of keys (`tui/src/bottom_pane/paste_burst.rs`)

Times are in nanoseconds. The thresholds differ between platforms.
-/

namespace Codrex.PasteBurst

open Text

/-- `PASTE_BURST_CHAR_INTERVAL`, `PASTE_ENTER_SUPPRESS_WINDOW` and `PASTE_BURST_ACTIVE_IDLE_TIMEOUT`. -/
structure Timing where
  charInterval : Nat
  enterSuppressWindow : Nat
  activeIdleTimeout : Nat

def Timing.unix : Timing := ⟨8000000, 120000000, 8000000⟩

/-- `PASTE_BURST_MIN_CHARS`. -/
def minChars : Nat := 3

/-- The state `PasteBurst`. -/
structure Burst where
  lastPlainCharTime : Option Nat
  consecutivePlainCharBurst : Nat
  burstWindowUntil : Option Nat
  buffer : Str
  active : Bool
  pendingFirstChar : Option (Char × Nat)
  deriving DecidableEq

inductive CharDecision
  | beginBuffer (retroChars : Nat)
  | bufferAppend
  | retainFirstChar
  | beginBufferFromPending

structure RetroGrab where
  start : Nat
  grabbed : Str

inductive FlushResult
  | paste (pasted : Str)
  | typed (ch : Char)
  | none

/-- Where the last so many characters start, counted in characters. -/
def retroStartIndex (before : Str) (retroChars : Nat) : Nat :=
  if retroChars = 0 then before.length
  else (before.zipIdx.reverse[retroChars - 1]?.map Prod.snd).getD 0

namespace Burst

variable (timing : Timing)

def default : Burst := ⟨none, 0, none, [], false, none⟩

/-- `saturating_add` of 16 bits. -/
def notePlainChar (burst : Burst) (now : Nat) : Burst :=
  { burst with
    consecutivePlainCharBurst :=
      match burst.lastPlainCharTime with
      | some prev =>
          if now - prev ≤ timing.charInterval then min (burst.consecutivePlainCharBurst + 1) (2 ^ 16 - 1) else 1
      | none => 1
    lastPlainCharTime := some now }

/-- `extend_window`. -/
def extendWindow (burst : Burst) (now : Nat) : Burst :=
  { burst with burstWindowUntil := some (now + timing.enterSuppressWindow) }

/-- A held character that the next one has followed fast enough. -/
def heldWithin (burst : Burst) (now : Nat) : Option Char :=
  match burst.pendingFirstChar with
  | some (held, heldAt) => if now - heldAt ≤ timing.charInterval then some held else none
  | none => none

def onPlainChar (burst : Burst) (ch : Char) (now : Nat) : CharDecision × Burst :=
  let burst := burst.notePlainChar timing now
  if burst.active then (.bufferAppend, burst.extendWindow timing now)
  else
    match burst.heldWithin timing now with
    | some held =>
        (.beginBufferFromPending,
          { burst with
            active := true
            pendingFirstChar := none
            buffer := burst.buffer ++ [held] }.extendWindow timing now)
    | none =>
        if minChars ≤ burst.consecutivePlainCharBurst then
          (.beginBuffer (burst.consecutivePlainCharBurst - 1), burst)
        else (.retainFirstChar, { burst with pendingFirstChar := some (ch, now) })

def onPlainCharNoHold (burst : Burst) (now : Nat) : Option CharDecision × Burst :=
  let burst := burst.notePlainChar timing now
  if burst.active then (some .bufferAppend, burst.extendWindow timing now)
  else if minChars ≤ burst.consecutivePlainCharBurst then
    (some (.beginBuffer (burst.consecutivePlainCharBurst - 1)), burst)
  else (none, burst)

def isActiveInternal (burst : Burst) : Bool := burst.active || !burst.buffer.isEmpty

def isActive (burst : Burst) : Bool := burst.isActiveInternal || burst.pendingFirstChar.isSome

def flushIfDue (burst : Burst) (now : Nat) : FlushResult × Burst :=
  let timeout := if burst.isActiveInternal then timing.activeIdleTimeout else timing.charInterval
  let timedOut := burst.lastPlainCharTime.any fun last => timeout < now - last
  if timedOut && burst.isActiveInternal then (.paste burst.buffer, { burst with active := false, buffer := [] })
  else if timedOut then
    match burst.pendingFirstChar with
    | some (ch, _) => (.typed ch, { burst with pendingFirstChar := none })
    | none => (.none, burst)
  else (.none, burst)

def appendNewlineIfActive (burst : Burst) (now : Nat) : Bool × Burst :=
  if burst.isActive then (true, { burst with buffer := burst.buffer ++ ['\n'] }.extendWindow timing now)
  else (false, burst)

def newlineShouldInsertInsteadOfSubmit (burst : Burst) (now : Nat) : Bool :=
  burst.isActive || burst.burstWindowUntil.any fun windowEnd => now ≤ windowEnd

def beginWithRetroGrabbed (burst : Burst) (grabbed : Str) (now : Nat) : Burst :=
  { burst with
    buffer := burst.buffer ++ grabbed
    active := true }.extendWindow timing now

def appendCharToBuffer (burst : Burst) (ch : Char) (now : Nat) : Burst :=
  { burst with buffer := burst.buffer ++ [ch] }.extendWindow timing now

def tryAppendCharIfActive (burst : Burst) (ch : Char) (now : Nat) : Bool × Burst :=
  if burst.active || !burst.buffer.isEmpty then (true, burst.appendCharToBuffer timing ch now) else (false, burst)

def decideBeginBuffer (burst : Burst) (now : Nat) (before : Str) (retroChars : Nat) : Option RetroGrab × Burst :=
  let start := retroStartIndex before retroChars
  let grabbed := before.drop start
  if grabbed.any isWhitespace || 16 ≤ grabbed.length then
    (some ⟨start, grabbed⟩, burst.beginWithRetroGrabbed timing grabbed now)
  else (none, burst)

def flushBeforeModifiedInput (burst : Burst) : Option Str × Burst :=
  if burst.isActive then
    (some (burst.buffer ++ (burst.pendingFirstChar.map Prod.fst).toList),
      { burst with active := false, buffer := [], pendingFirstChar := none })
  else (none, burst)

def clearWindowAfterNonChar (burst : Burst) : Burst :=
  { burst with
    consecutivePlainCharBurst := 0
    lastPlainCharTime := none
    burstWindowUntil := none
    active := false
    pendingFirstChar := none }

def clearAfterExplicitPaste (_ : Burst) : Burst := default

end Burst

/-! ## The composer (`tui/src/bottom_pane/chat_composer.rs`) -/

/-- The keys that `TextArea::input` takes for `^B`, `^F`, `^P` and `^N` are not characters. -/
structure PlainChar where
  char : Char
  inserted : char.toNat ≠ 0x02 ∧ char.toNat ≠ 0x06 ∧ char.toNat ≠ 0x10 ∧ char.toNat ≠ 0x0E

/-- The composer with the cursor at the end of its text. -/
structure Composer where
  text : Str
  pasteBurst : Burst
  isBashMode : Bool
  slashCommandsEnabled : Bool
  deriving DecidableEq

/-- The keys that `handle_input_basic_with_time` gets; the other ones leave the text and the cursor where they are. -/
inductive Key
  | char (ch : PlainChar)
  | enter
  | other

inductive InputResult
  | none
  | submission
  deriving DecidableEq

namespace Composer

variable (timing : Timing)

def syncBashModeFromText (composer : Composer) : Composer :=
  if !composer.isBashMode && composer.text.head? = some '!' then
    { composer with text := composer.text.drop 1, isBashMode := true }
  else composer

def insertStr (composer : Composer) (text : Str) : Composer :=
  { composer with text := composer.text ++ text }.syncBashModeFromText

/-- `handle_paste` of a text that is inserted verbatim. -/
def handlePaste (composer : Composer) (pasted : Str) : Composer :=
  let composer := composer.insertStr pasted
  { composer with pasteBurst := composer.pasteBurst.clearAfterExplicitPaste }

def handlePasteBurstFlush (composer : Composer) (now : Nat) : Composer :=
  let (result, burst) := composer.pasteBurst.flushIfDue timing now
  let composer := { composer with pasteBurst := burst }
  match result with
  | .paste pasted => composer.handlePaste pasted
  | .typed ch => composer.insertStr [ch]
  | .none => composer

/-- What is buffered or held is inserted before other input. -/
def flushBeforeInput (composer : Composer) : Composer :=
  let (flushed, burst) := composer.pasteBurst.flushBeforeModifiedInput
  let composer := { composer with pasteBurst := burst }
  match flushed with
  | some pasted => composer.handlePaste pasted
  | none => composer

/-- A character begins a buffer with what has been inserted before it, or is not taken. -/
def beginBuffer (composer : Composer) (ch : Char) (now retroChars : Nat) : Option Composer :=
  match composer.pasteBurst.decideBeginBuffer timing now composer.text retroChars with
  | (some grab, burst) =>
      some { composer with
        text := if grab.grabbed.isEmpty then composer.text else composer.text.take grab.start
        pasteBurst := burst.appendCharToBuffer timing ch now }
  | (none, _) => none

def bufferChar (composer : Composer) (ch : Char) (now : Nat) : Composer :=
  { composer with pasteBurst := composer.pasteBurst.appendCharToBuffer timing ch now }

/-- `TextArea::input` of a character. -/
def textareaInput (composer : Composer) (ch : Char) : Composer := { composer with text := composer.text ++ [ch] }

def handleNonAsciiChar (composer : Composer) (ch : Char) (now : Nat) : Composer :=
  match composer.pasteBurst.tryAppendCharIfActive timing ch now with
  | (true, burst) => { composer with pasteBurst := burst }
  | (false, _) =>
      let composer := composer.flushBeforeInput
      let (decision, burst) := composer.pasteBurst.onPlainCharNoHold timing now
      let composer := { composer with pasteBurst := burst }
      match decision with
      | some (.beginBuffer retroChars) =>
          (composer.beginBuffer timing ch now retroChars).getD (composer.flushBeforeInput.textareaInput ch)
      | some .bufferAppend => composer.bufferChar timing ch now
      -- the other two decisions are never made without holding a character
      | _ => composer.flushBeforeInput.textareaInput ch

/-- A character that has not been taken by a burst. -/
def insertChar (composer : Composer) (ch : Char) : Composer :=
  (composer.flushBeforeInput.textareaInput ch).syncBashModeFromText

def handleAsciiChar (composer : Composer) (ch : Char) (now : Nat) : Composer :=
  let (decision, burst) := composer.pasteBurst.onPlainChar timing ch now
  let composer := { composer with pasteBurst := burst }
  match decision with
  | .bufferAppend => composer.bufferChar timing ch now
  | .beginBuffer retroChars => (composer.beginBuffer timing ch now retroChars).getD (composer.insertChar ch)
  | .beginBufferFromPending => composer.bufferChar timing ch now
  | .retainFirstChar => composer

def handleInputBasicWithTime (composer : Composer) (key : Key) (now : Nat) : Composer :=
  let composer := composer.handlePasteBurstFlush timing now
  match key with
  | .enter =>
      match composer.pasteBurst.appendNewlineIfActive timing now with
      | (true, burst) => { composer with pasteBurst := burst }
      | (false, _) => (composer.textareaInput '\n').syncBashModeFromText
  | .char ch =>
      if ch.char.toNat < 128 then composer.handleAsciiChar timing ch.char now
      else composer.handleNonAsciiChar timing ch.char now
  | .other =>
      let composer := composer.flushBeforeInput.syncBashModeFromText
      { composer with pasteBurst := composer.pasteBurst.clearWindowAfterNonChar }

/-- `handle_submission_with_time` of a text that is not to be queued. Its commands and what is done with a text to be
submitted are not modelled. -/
def handleSubmissionWithTime (composer : Composer) (now : Nat) : InputResult × Composer :=
  let inSlashContext := composer.slashCommandsEnabled && !composer.isBashMode && composer.text.head? = some '/'
  if inSlashContext then (.submission, composer)
  else
    match composer.pasteBurst.appendNewlineIfActive timing now with
    | (true, burst) => (.none, { composer with pasteBurst := burst })
    | (false, _) =>
        if composer.pasteBurst.newlineShouldInsertInsteadOfSubmit now then
          (.none, { composer with
            text := composer.text ++ ['\n']
            pasteBurst := composer.pasteBurst.extendWindow timing now })
        else (.submission, composer)

end Composer

end Codrex.PasteBurst
