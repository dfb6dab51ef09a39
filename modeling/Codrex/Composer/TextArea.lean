import Mathlib.Data.List.Sort
import Codrex.Lib.BytePositions
import Codrex.Lib.Spans

/-!
# The text area of the composer (`tui/src/bottom_pane/textarea.rs`)

Positions are in bytes. A function that slices gives `none` where the slice panics. Rendering is left out, but for the
wrapped lines that it leaves behind for the cursor.
-/

namespace Codrex.Composer

open Text

structure TextElement where
  id : Nat
  range : Span
  name : Option Str
  deriving DecidableEq

structure WrapCache where
  width : Nat
  lines : List Span
  deriving DecidableEq

structure TextArea where
  text : Str
  cursorPos : Nat
  wrapCache : Option WrapCache
  preferredCol : Option Nat
  elements : List TextElement
  nextElementId : Nat
  killBuffer : Str
  deriving DecidableEq

/-- The crates that know Unicode: `unicode_segmentation`, `unicode_width` and `textwrap` through `wrap_ranges`. Their
grapheme boundaries are character boundaries, and wrapped lines have one byte more than they show. -/
structure Unicode where
  prevBoundary : Str → Nat → Except Unit (Option Nat)
  nextBoundary : Str → Nat → Except Unit (Option Nat)
  graphemes : Str → List Str
  width : Str → Nat
  splitWordBounds : Str → List Str
  wrapRanges : Str → Nat → List Span
  prevBoundary_spec : ∀ text pos, Boundary text pos → 0 < pos →
    ∃ found, prevBoundary text pos = .ok (some found) ∧ found < pos ∧ Boundary text found
  nextBoundary_spec : ∀ text pos, Boundary text pos → pos < byteLen text →
    ∃ found, nextBoundary text pos = .ok (some found) ∧ pos < found ∧ Boundary text found
  splitWordBounds_flatten : ∀ run, (splitWordBounds run).flatten = run
  wrapRanges_spec : ∀ text width, ∀ line ∈ wrapRanges text width,
    line.start < line.stop ∧ Boundary text line.start ∧ Boundary text (line.stop - 1)

/-! ## Words -/

def wordSeparators : List Char := "`~!@#$%^&*()-=+[\x7b]\x7d\\|;:'\",.<>/?".toList

def isWordSeparator (ch : Char) : Bool := ch ∈ wordSeparators

/-- Pieces with their places, one behind the other. -/
def indexed : (start : Nat) → List Str → List (Nat × Str)
  | _, [] => []
  | start, piece :: pieces => (start, piece) :: indexed (start + byteLen piece) pieces

def splitWordPieces (unicode : Unicode) (run : Str) : List (Nat × Str) :=
  (indexed 0 (unicode.splitWordBounds run)).flatMap fun (segmentStart, segment) =>
    indexed segmentStart (segment.splitBy fun ch next => isWordSeparator ch == isWordSeparator next)

/-! ## New text areas and their positions -/

def TextArea.new : TextArea where
  text := []
  cursorPos := 0
  wrapCache := none
  preferredCol := none
  elements := []
  nextElementId := 1
  killBuffer := []

namespace TextArea

def len (area : TextArea) : Nat := byteLen area.text

def takeElementId (area : TextArea) : Nat × TextArea :=
  (area.nextElementId, { area with nextElementId := min (area.nextElementId + 1) (2 ^ 64 - 1) })

def prevCharBoundary (text : Str) : Nat → Nat
  | 0 => 0
  | prev + 1 => if Boundary text (prev + 1) then prev + 1 else prevCharBoundary text prev

def nextCharBoundary (text : Str) : (left next : Nat) → Nat
  | 0, next => next
  | left + 1, next => if Boundary text next then next else nextCharBoundary text left (next + 1)

def clampPosToCharBoundary (area : TextArea) (pos : Nat) : Nat :=
  let pos := min pos area.len
  if Boundary area.text pos then pos
  else
    let prev := prevCharBoundary area.text pos
    let next := nextCharBoundary area.text (area.len - pos) pos
    if pos - prev ≤ next - pos then prev else next

def findElementContaining (area : TextArea) (pos : Nat) : Option TextElement :=
  area.elements.find? fun e => e.range.Inside pos

def clampPosToNearestBoundary (area : TextArea) (pos : Nat) : Nat :=
  let pos := area.clampPosToCharBoundary pos
  match area.findElementContaining pos with
  | some e =>
      if pos - e.range.start ≤ e.range.stop - pos then area.clampPosToCharBoundary e.range.start
      else area.clampPosToCharBoundary e.range.stop
  | none => pos

def clampPosForInsertion (area : TextArea) (pos : Nat) : Nat :=
  let pos := area.clampPosToCharBoundary pos
  match area.findElementContaining pos with
  | some e =>
      if pos - e.range.start ≤ e.range.stop - pos then area.clampPosToCharBoundary e.range.start
      else area.clampPosToCharBoundary e.range.stop
  | none => pos

def adjustPosOutOfElements (area : TextArea) (pos : Nat) (preferStart : Bool) : Nat :=
  match area.findElementContaining pos with
  | some e => if preferStart then e.range.start else e.range.stop
  | none => pos

def expandRangeToElementBoundaries (area : TextArea) (range : Span) : Span :=
  Span.expand (area.elements.map TextElement.range) (area.elements.length + 1) range

def setCursor (area : TextArea) (pos : Nat) : TextArea :=
  { area with
    cursorPos := area.clampPosToNearestBoundary (min pos area.len)
    preferredCol := none }

/-! ## Elements -/

/-- The text of an element, where its range can be cut out. -/
def payload (text : Str) (e : TextElement) : Option Str := slice text e.range.start e.range.stop

def sortByStart (elements : List TextElement) : List TextElement :=
  elements.insertionSort fun e next => e.range.start ≤ next.range.start

/-- A position as a signed number, moved and taken back. -/
def shiftPos (pos : Nat) (diff : Int) : Nat := (pos + diff).toNat

def shiftElement (start removed inserted : Nat) (e : TextElement) : TextElement :=
  let stop := start + removed
  let diff : Int := inserted - removed
  if e.range.stop ≤ start then e
  else if stop ≤ e.range.start then { e with range := ⟨shiftPos e.range.start diff, shiftPos e.range.stop diff⟩ }
  else { e with range := ⟨min start e.range.start, start + max inserted (e.range.stop - stop)⟩ }

def shiftElements (elements : List TextElement) (start removed inserted : Nat) : List TextElement :=
  (elements.filter fun e => ¬ (start ≤ e.range.start ∧ e.range.stop ≤ start + removed)).map
    (shiftElement start removed inserted)

def addElementWithId (area : TextArea) (range : Span) (name : Option Str) : TextArea :=
  let (id, area) := area.takeElementId
  { area with elements := sortByStart (area.elements ++ [⟨id, range, name⟩]) }

def addElement (area : TextArea) (range : Span) : TextArea := area.addElementWithId range none

def addElementRange (area : TextArea) (range : Span) : TextArea :=
  let start := area.clampPosToCharBoundary (min range.start area.len)
  let stop := area.clampPosToCharBoundary (min range.stop area.len)
  if stop ≤ start then area
  else if area.elements.any fun e => e.range.start = start ∧ e.range.stop = stop then area
  else if area.elements.any fun e => start < e.range.stop ∧ e.range.start < stop then area
  else area.addElement ⟨start, stop⟩

def removeElementRange (area : TextArea) (range : Span) : TextArea :=
  let start := area.clampPosToCharBoundary (min range.start area.len)
  let stop := area.clampPosToCharBoundary (min range.stop area.len)
  if stop ≤ start then area
  else { area with elements := area.elements.filter fun e => e.range.start ≠ start ∨ e.range.stop ≠ stop }

/-! ## Whole texts -/

def rebuildElements (area : TextArea) : List Span → TextArea
  | [] => area
  | range :: ranges =>
      let start := area.clampPosToCharBoundary (min range.start area.len)
      let stop := area.clampPosToCharBoundary (min range.stop area.len)
      if stop ≤ start then rebuildElements area ranges
      else
        let (id, area) := area.takeElementId
        rebuildElements { area with elements := area.elements ++ [⟨id, ⟨start, stop⟩, none⟩] } ranges

def setTextInner (area : TextArea) (text : Str) (elements : Option (List Span)) : TextArea :=
  let area := { area with text, cursorPos := min area.cursorPos (byteLen text), elements := [] }
  let area :=
    match elements with
    | none => area
    | some ranges =>
        let area := area.rebuildElements ranges
        { area with elements := sortByStart area.elements }
  { area with
    cursorPos := area.clampPosToNearestBoundary area.cursorPos
    wrapCache := none
    preferredCol := none }

def setTextClearingElements (area : TextArea) (text : Str) : TextArea := area.setTextInner text none

/-- Of the elements that are given only the byte ranges are read. -/
def setTextWithElements (area : TextArea) (text : Str) (elements : List Span) : TextArea :=
  area.setTextInner text (some elements)

/-! ## Edits -/

def insertStrAt (area : TextArea) (pos : Nat) (text : Str) : Option TextArea := do
  let pos := area.clampPosForInsertion pos
  let newText ← replaceBytes area.text pos pos text
  return { area with
    text := newText
    wrapCache := none
    cursorPos := if pos ≤ area.cursorPos then area.cursorPos + byteLen text else area.cursorPos
    elements := shiftElements area.elements pos 0 (byteLen text)
    preferredCol := none }

def insertStr (area : TextArea) (text : Str) : Option TextArea := area.insertStrAt area.cursorPos text

def replaceRangeRaw (area : TextArea) (range : Span) (text : Str) : Option TextArea :=
  if range.stop < range.start then none
  else
    let start := min range.start area.len
    let stop := min range.stop area.len
    let removedLen := stop - start
    let insertedLen := byteLen text
    if removedLen = 0 ∧ insertedLen = 0 then some area
    else
      (replaceBytes area.text range.start range.stop text).map fun newText =>
        let edited := { area with
          text := newText
          wrapCache := none
          preferredCol := none
          elements := shiftElements area.elements start (stop - start) insertedLen
          cursorPos := min
            (if area.cursorPos < start then area.cursorPos
            else if area.cursorPos ≤ stop then start + insertedLen
            else shiftPos area.cursorPos (insertedLen - removedLen))
            (byteLen newText) }
        { edited with cursorPos := edited.clampPosToNearestBoundary edited.cursorPos }

def replaceRange (area : TextArea) (range : Span) (text : Str) : Option TextArea :=
  area.replaceRangeRaw (area.expandRangeToElementBoundaries range) text

def killRange (area : TextArea) (range : Span) : Option TextArea :=
  let range := area.expandRangeToElementBoundaries range
  if range.stop ≤ range.start then some area
  else
    (slice area.text range.start range.stop).bind fun removed =>
      if removed = [] then some area else { area with killBuffer := removed }.replaceRangeRaw range []

def yank (area : TextArea) : Option TextArea :=
  if area.killBuffer = [] then some area else area.insertStr area.killBuffer

def insertElement (area : TextArea) (text : Str) : Option TextArea := do
  let start := area.clampPosForInsertion area.cursorPos
  let area ← area.insertStrAt start text
  let stop := start + byteLen text
  return (area.addElement ⟨start, stop⟩).setCursor stop

def renameElement (start removedLen insertedLen idx j : Nat) (e : TextElement) : TextElement :=
  let stop := start + removedLen
  let diff : Int := insertedLen - removedLen
  if j = idx then { e with range := ⟨start, start + insertedLen⟩ }
  else if diff = 0 ∨ e.range.stop ≤ start then e
  else if stop ≤ e.range.start then { e with range := ⟨shiftPos e.range.start diff, shiftPos e.range.stop diff⟩ }
  else { e with range := ⟨min start e.range.start, max (start + insertedLen) (shiftPos e.range.stop diff)⟩ }

def replaceElementPayload (area : TextArea) (old new : Str) : Option TextArea :=
  match area.elements.findIdx? fun e => payload area.text e = some old with
  | none => some area
  | some idx =>
      (area.elements[idx]?).bind fun found =>
        let start := found.range.start
        let stop := found.range.stop
        if stop < start ∨ area.len < stop then some area
        else
          let removedLen := stop - start
          let insertedLen := byteLen new
          (replaceBytes area.text start stop new).map fun newText =>
            let edited := { area with
              text := newText
              wrapCache := none
              preferredCol := none
              elements := area.elements.mapIdx fun j e => renameElement start removedLen insertedLen idx j e
              cursorPos :=
                if area.cursorPos < start then area.cursorPos
                else if area.cursorPos ≤ stop then start + insertedLen
                else shiftPos area.cursorPos (insertedLen - removedLen) }
            let edited := { edited with cursorPos := edited.clampPosToNearestBoundary edited.cursorPos }
            { edited with elements := sortByStart edited.elements }

end TextArea

end Codrex.Composer
