import Mathlib.Data.List.DropRight
import Codrex.Composer.TextArea

/-!
# Moving, deleting and killing in the text area

The operations of the composer, one step each.
-/

namespace Codrex.Composer

open Text

namespace TextArea

/-! ## Lines -/

def beginningOfLine (area : TextArea) (pos : Nat) : Option Nat :=
  (splitAtByte area.text pos).map fun parts => ((rfindNewline parts.1).map (· + 1)).getD 0

def beginningOfCurrentLine (area : TextArea) : Option Nat := area.beginningOfLine area.cursorPos

def endOfLine (area : TextArea) (pos : Nat) : Option Nat :=
  (splitAtByte area.text pos).map fun parts => ((findNewline parts.2).map (· + pos)).getD area.len

def endOfCurrentLine (area : TextArea) : Option Nat := area.endOfLine area.cursorPos

/-! ## Words -/

def previousSeparators (runStart : Nat) : (start : Nat) → List (Nat × Str) → Nat
  | start, [] => start
  | start, (idx, piece) :: pieces =>
      if piece.all isWordSeparator then previousSeparators runStart (runStart + idx) pieces else start

def beginningOfPreviousWord (unicode : Unicode) (area : TextArea) : Option Nat :=
  (splitAtByte area.text area.cursorPos).map fun parts =>
    let body := parts.1.rdropWhile isWhitespace
    if body = [] then 0
    else
      let runStart := byteLen (body.rdropWhile fun ch => !isWhitespace ch)
      match (splitWordPieces unicode (body.rtakeWhile fun ch => !isWhitespace ch)).reverse with
      | [] => runStart
      | (pieceStart, piece) :: pieces =>
          let start := runStart + pieceStart
          let start := if piece.all isWordSeparator then previousSeparators runStart start pieces else start
          area.adjustPosOutOfElements start true

def nextSeparators (runStart : Nat) : (stop : Nat) → List (Nat × Str) → Nat
  | stop, [] => stop
  | stop, (idx, piece) :: pieces =>
      if piece.all isWordSeparator then nextSeparators runStart (runStart + idx + byteLen piece) pieces else stop

def endOfNextWord (unicode : Unicode) (area : TextArea) : Option Nat :=
  (splitAtByte area.text area.cursorPos).map fun parts =>
    let rest := parts.2.dropWhile isWhitespace
    if rest = [] then area.len
    else
      let runStart := area.cursorPos + byteLen (parts.2.takeWhile isWhitespace)
      match splitWordPieces unicode (rest.takeWhile fun ch => !isWhitespace ch) with
      | [] => runStart
      | (start, piece) :: pieces =>
          let stop := runStart + start + byteLen piece
          let stop := if piece.all isWordSeparator then nextSeparators runStart stop pieces else stop
          area.adjustPosOutOfElements stop false

/-! ## Grapheme by grapheme -/

def prevAtomicBoundary (unicode : Unicode) (area : TextArea) (pos : Nat) : Nat :=
  if pos = 0 then 0
  else
    match area.elements.find? fun e => e.range.start < pos ∧ pos ≤ e.range.stop with
    | some e => e.range.start
    | none =>
        match unicode.prevBoundary area.text pos with
        | .ok (some found) => area.adjustPosOutOfElements found true
        | .ok none => 0
        | .error () => pos - 1

def nextAtomicBoundary (unicode : Unicode) (area : TextArea) (pos : Nat) : Nat :=
  if area.len ≤ pos then area.len
  else
    match area.elements.find? fun e => e.range.start ≤ pos ∧ pos < e.range.stop with
    | some e => e.range.stop
    | none =>
        match unicode.nextBoundary area.text pos with
        | .ok (some found) => area.adjustPosOutOfElements found false
        | .ok none => area.len
        | .error () => pos + 1

def moveCursorLeft (unicode : Unicode) (area : TextArea) : TextArea :=
  { area with cursorPos := area.prevAtomicBoundary unicode area.cursorPos, preferredCol := none }

def moveCursorRight (unicode : Unicode) (area : TextArea) : TextArea :=
  { area with cursorPos := area.nextAtomicBoundary unicode area.cursorPos, preferredCol := none }

def backwardTarget (unicode : Unicode) (area : TextArea) : (n target : Nat) → Nat
  | 0, target => target
  | n + 1, target =>
      let target := area.prevAtomicBoundary unicode target
      if target = 0 then target else backwardTarget unicode area n target

def deleteBackward (unicode : Unicode) (area : TextArea) (n : Nat) : Option TextArea :=
  if n = 0 ∨ area.cursorPos = 0 then some area
  else area.replaceRange ⟨area.backwardTarget unicode n area.cursorPos, area.cursorPos⟩ []

def forwardTarget (unicode : Unicode) (area : TextArea) : (n target : Nat) → Nat
  | 0, target => target
  | n + 1, target =>
      let target := area.nextAtomicBoundary unicode target
      if area.len ≤ target then target else forwardTarget unicode area n target

def deleteForward (unicode : Unicode) (area : TextArea) (n : Nat) : Option TextArea :=
  if n = 0 ∨ area.len ≤ area.cursorPos then some area
  else area.replaceRange ⟨area.cursorPos, area.forwardTarget unicode n area.cursorPos⟩ []

/-! ## Kills -/

def deleteBackwardWord (unicode : Unicode) (area : TextArea) : Option TextArea := do
  let start ← area.beginningOfPreviousWord unicode
  area.killRange ⟨start, area.cursorPos⟩

def deleteForwardWord (unicode : Unicode) (area : TextArea) : Option TextArea := do
  let stop ← area.endOfNextWord unicode
  if area.cursorPos < stop then area.killRange ⟨area.cursorPos, stop⟩ else some area

def killToEndOfLine (area : TextArea) : Option TextArea := do
  let eol ← area.endOfCurrentLine
  if area.cursorPos = eol then
    if eol < area.len then area.killRange ⟨area.cursorPos, eol + 1⟩ else some area
  else area.killRange ⟨area.cursorPos, eol⟩

def killToBeginningOfLine (area : TextArea) : Option TextArea := do
  let bol ← area.beginningOfCurrentLine
  if area.cursorPos = bol then
    if 0 < bol then area.killRange ⟨bol - 1, bol⟩ else some area
  else area.killRange ⟨bol, area.cursorPos⟩

/-! ## Up and down -/

/-- The place of the first grapheme that ends behind the column. -/
def columnOffset (unicode : Unicode) (targetCol : Nat) : (widthSoFar offset : Nat) → List Str → Option Nat
  | _, _, [] => none
  | widthSoFar, offset, g :: rest =>
      let widthSoFar := widthSoFar + unicode.width g
      if targetCol < widthSoFar then some offset
      else columnOffset unicode targetCol widthSoFar (offset + byteLen g) rest

def moveToDisplayColOnLine (unicode : Unicode) (area : TextArea) (lineStart lineEnd targetCol : Nat) :
    Option TextArea :=
  (slice area.text lineStart lineEnd).map fun line =>
    let pos :=
      match columnOffset unicode targetCol 0 0 (unicode.graphemes line) with
      | some i => lineStart + i
      | none => lineEnd
    { area with cursorPos := area.clampPosToNearestBoundary pos }

/-- `preferred_col`, or else the width of what stands on the line in front of the cursor. -/
def targetColFrom (unicode : Unicode) (area : TextArea) (lineStart : Nat) : Option Nat :=
  match area.preferredCol with
  | some col => some col
  | none => (slice area.text lineStart area.cursorPos).map unicode.width

def wrappedLineIndexByStart (lines : List Span) (pos : Nat) : Option Nat :=
  let idx := (lines.takeWhile fun line => line.start ≤ pos).length
  if idx = 0 then none else some (idx - 1)

/-- The wrapped lines that are at hand, with the place of the cursor in them. -/
def wrappedCursor (area : TextArea) : Option (List Span × Nat) :=
  area.wrapCache.bind fun cache =>
    (wrappedLineIndexByStart cache.lines area.cursorPos).map fun idx => (cache.lines, idx)

def moveToWrappedLine (unicode : Unicode) (area : TextArea) (line : Span) (targetCol : Nat) : Option TextArea :=
  { area with preferredCol := some targetCol }.moveToDisplayColOnLine unicode line.start (line.stop - 1) targetCol

def moveCursorUp (unicode : Unicode) (area : TextArea) : Option TextArea :=
  match area.wrappedCursor with
  | some (lines, idx) => do
      let current ← lines[idx]?
      let targetCol ← area.targetColFrom unicode current.start
      if 0 < idx then
        let prev ← lines[idx - 1]?
        area.moveToWrappedLine unicode prev targetCol
      else return { area with cursorPos := 0, preferredCol := none }
  | none => do
      let (front, _) ← splitAtByte area.text area.cursorPos
      match rfindNewline front with
      | some prevNl =>
          let bol ← area.beginningOfCurrentLine
          let targetCol ← area.targetColFrom unicode bol
          let prevLineStart ← area.beginningOfLine prevNl
          { area with preferredCol := some targetCol }.moveToDisplayColOnLine unicode prevLineStart prevNl targetCol
      | none => return { area with cursorPos := 0, preferredCol := none }

def moveCursorDown (unicode : Unicode) (area : TextArea) : Option TextArea :=
  match area.wrappedCursor with
  | some (lines, idx) => do
      let current ← lines[idx]?
      let targetCol ← area.targetColFrom unicode current.start
      match lines[idx + 1]? with
      | some next => area.moveToWrappedLine unicode next targetCol
      | none => return { area with cursorPos := area.len, preferredCol := none }
  | none => do
      let bol ← area.beginningOfCurrentLine
      let targetCol ← area.targetColFrom unicode bol
      let area := { area with preferredCol := some targetCol }
      let (_, back) ← splitAtByte area.text area.cursorPos
      match findNewline back with
      | some i =>
          let nextLineStart := area.cursorPos + i + 1
          let nextLineEnd ← area.endOfLine nextLineStart
          area.moveToDisplayColOnLine unicode nextLineStart nextLineEnd targetCol
      | none => return { area with cursorPos := area.len, preferredCol := none }

def moveCursorToBeginningOfLine (area : TextArea) (moveUpAtBol : Bool) : Option TextArea := do
  let bol ← area.beginningOfCurrentLine
  if moveUpAtBol ∧ area.cursorPos = bol then
    let above ← area.beginningOfLine (area.cursorPos - 1)
    return area.setCursor above
  else return area.setCursor bol

def moveCursorToEndOfLine (area : TextArea) (moveDownAtEol : Bool) : Option TextArea := do
  let eol ← area.endOfCurrentLine
  if moveDownAtEol ∧ area.cursorPos = eol then
    let below ← area.endOfLine (min (area.cursorPos + 1) area.len)
    return area.setCursor below
  else return area.setCursor eol

/-- The lines are wrapped again if none are at hand for the width. -/
def wrappedLines (unicode : Unicode) (area : TextArea) (width : Nat) : TextArea :=
  if area.wrapCache.any fun cache => cache.width = width then area
  else { area with wrapCache := some ⟨width, unicode.wrapRanges area.text width⟩ }

end TextArea

/-! ## Steps -/

inductive Op where
  | insertStr (text : Str)
  | insertStrAt (pos : Nat) (text : Str)
  | replaceRange (range : Span) (text : Str)
  | deleteBackward (n : Nat)
  | deleteForward (n : Nat)
  | deleteBackwardWord
  | deleteForwardWord
  | killToEndOfLine
  | killToBeginningOfLine
  | yank
  | moveCursorLeft
  | moveCursorRight
  | moveCursorUp
  | moveCursorDown
  | moveCursorToBeginningOfLine (moveUpAtBol : Bool)
  | moveCursorToEndOfLine (moveDownAtEol : Bool)
  | moveToPreviousWord
  | moveToNextWord
  | setCursor (pos : Nat)
  | insertElement (text : Str)
  | addElementRange (range : Span)
  | removeElementRange (range : Span)
  | replaceElementPayload (old new : Str)
  | setTextClearingElements (text : Str)
  | setTextWithElements (text : Str) (elements : List Span)
  | wrappedLines (width : Nat)
  deriving DecidableEq

def step (unicode : Unicode) (area : TextArea) : Op → Option TextArea
  | .insertStr text => area.insertStr text
  | .insertStrAt pos text => area.insertStrAt pos text
  | .replaceRange range text => area.replaceRange range text
  | .deleteBackward n => area.deleteBackward unicode n
  | .deleteForward n => area.deleteForward unicode n
  | .deleteBackwardWord => area.deleteBackwardWord unicode
  | .deleteForwardWord => area.deleteForwardWord unicode
  | .killToEndOfLine => area.killToEndOfLine
  | .killToBeginningOfLine => area.killToBeginningOfLine
  | .yank => area.yank
  | .moveCursorLeft => some (area.moveCursorLeft unicode)
  | .moveCursorRight => some (area.moveCursorRight unicode)
  | .moveCursorUp => area.moveCursorUp unicode
  | .moveCursorDown => area.moveCursorDown unicode
  | .moveCursorToBeginningOfLine moveUpAtBol => area.moveCursorToBeginningOfLine moveUpAtBol
  | .moveCursorToEndOfLine moveDownAtEol => area.moveCursorToEndOfLine moveDownAtEol
  | .moveToPreviousWord => (area.beginningOfPreviousWord unicode).map area.setCursor
  | .moveToNextWord => (area.endOfNextWord unicode).map area.setCursor
  | .setCursor pos => some (area.setCursor pos)
  | .insertElement text => area.insertElement text
  | .addElementRange range => some (area.addElementRange range)
  | .removeElementRange range => some (area.removeElementRange range)
  | .replaceElementPayload old new => area.replaceElementPayload old new
  | .setTextClearingElements text => some (area.setTextClearingElements text)
  | .setTextWithElements text elements => some (area.setTextWithElements text elements)
  | .wrappedLines width => some (area.wrappedLines unicode width)

end Codrex.Composer
