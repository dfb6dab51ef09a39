import Codrex.ApplyPatch.Parser
import Codrex.FileSystem
import Codrex.Lib.Transition
import Mathlib.Data.List.Sort

/-!
# The contents that chunks derive

`apply-patch/src/seek_sequence.rs` and the functions of `apply-patch/src/lib.rs` that rewrite the lines of a
file with the chunks of an update hunk.
-/

namespace Codrex.ApplyPatch

open Text

inductive ApplyPatchError
  | parseError (err : ParseError)
  | ioError (context : Str) (source : Io.Error)
  | computeReplacements (message : Str)
  | implicitInvocation
  deriving DecidableEq

def ParseError.display : ParseError → Str
  | invalidPatchError message => "invalid patch: ".toList ++ message
  | invalidHunkError message lineNumber =>
      "invalid hunk at line ".toList ++ Nat.toDigits 10 lineNumber ++ ", ".toList ++ message

def ApplyPatchError.display : ApplyPatchError → Str
  | parseError err => err.display
  | ioError context source => context ++ ": ".toList ++ source.message
  | computeReplacements message => message
  | implicitInvocation =>
      "patch detected without explicit call to apply_patch. Rerun as [\"apply_patch\", \"<patch>\"]"

/-! ## Seeking a sequence of lines -/

/-- The character that `normalise` puts in the place of typographic punctuation. -/
def normaliseChar (c : Char) : Char :=
  let n := c.toNat
  if n ∈ [0x2010, 0x2011, 0x2012, 0x2013, 0x2014, 0x2015, 0x2212] then '-'
  else if n ∈ [0x2018, 0x2019, 0x201A, 0x201B] then '\''
  else if n ∈ [0x201C, 0x201D, 0x201E, 0x201F] then '"'
  else if n ∈ [0x00A0, 0x2002, 0x2003, 0x2004, 0x2005, 0x2006, 0x2007, 0x2008, 0x2009, 0x200A, 0x202F, 0x205F,
      0x3000] then ' '
  else c

def normalise (s : Str) : Str := (trim s).map normaliseChar

def matchesAt (view : Str → Str) : List Str → List Str → Bool
  | _, [] => true
  | [], _ :: _ => false
  | line :: lines, pat :: pattern => view line == view pat && matchesAt view lines pattern

def seekPass (view : Str → Str) (lines pattern : List Str) (searchStart : Nat) : Option Nat :=
  (List.range' searchStart (lines.length - pattern.length + 1 - searchStart)).find? fun i =>
    matchesAt view (lines.drop i) pattern

def seekSequence (lines pattern : List Str) (start : Nat) (eof : Bool) : Option Nat :=
  if pattern.isEmpty then some start
  else if pattern.length > lines.length then none
  else
    let searchStart := if eof ∧ lines.length ≥ pattern.length then lines.length - pattern.length else start
    seekPass id lines pattern searchStart <|> seekPass trimEnd lines pattern searchStart <|>
      seekPass trim lines pattern searchStart <|> seekPass normalise lines pattern searchStart

/-! ## Replacements -/

structure Replacement where
  startIdx : Nat
  oldLen : Nat
  newLines : List Str
  deriving DecidableEq

/-- Where the search for the lines of a chunk starts: behind its context line. -/
def seekContext (originalLines : List Str) (path : Str) (lineIndex : Nat) :
    Option Str → Except ApplyPatchError Nat
  | none => .ok lineIndex
  | some ctxLine =>
      match seekSequence originalLines [ctxLine] lineIndex false with
      | some idx => .ok (idx + 1)
      | none => .error (.computeReplacements
          ("Failed to find context '".toList ++ ctxLine ++ "' in ".toList ++ path))

def endsEmpty (lines : List Str) : Bool := lines.getLast? == some []

def chunkReplacement (originalLines : List Str) (path : Str) (lineIndex : Nat) (chunk : UpdateFileChunk) :
    Except ApplyPatchError (Replacement × Nat) :=
  if chunk.oldLines.isEmpty then
    let insertionIdx := if endsEmpty originalLines then originalLines.length - 1 else originalLines.length
    .ok (⟨insertionIdx, 0, chunk.newLines⟩, lineIndex)
  else
    let found := seekSequence originalLines chunk.oldLines lineIndex chunk.isEndOfFile
    let retry := found.isNone && endsEmpty chunk.oldLines
    -- The last empty line stands for the final line feed, which is no line of the file.
    let pattern := if retry then chunk.oldLines.dropLast else chunk.oldLines
    let newSlice := if retry && endsEmpty chunk.newLines then chunk.newLines.dropLast else chunk.newLines
    let found := if retry then seekSequence originalLines pattern lineIndex chunk.isEndOfFile else found
    match found with
    | some startIdx => .ok (⟨startIdx, pattern.length, newSlice⟩, startIdx + pattern.length)
    | none => .error (.computeReplacements
        ("Failed to find expected lines in ".toList ++ path ++ ":\n".toList ++ joinLines chunk.oldLines))

def replacementsLoop (originalLines : List Str) (path : Str) :
    List UpdateFileChunk → Nat → List Replacement → Except ApplyPatchError (List Replacement)
  | [], _, replacements => .ok replacements
  | chunk :: chunks, lineIndex, replacements => do
      let lineIndex ← seekContext originalLines path lineIndex chunk.changeContext
      let (replacement, lineIndex) ← chunkReplacement originalLines path lineIndex chunk
      replacementsLoop originalLines path chunks lineIndex (replacements ++ [replacement])

def computeReplacements (originalLines : List Str) (path : Str) (chunks : List UpdateFileChunk) :
    Except ApplyPatchError (List Replacement) := do
  let replacements ← replacementsLoop originalLines path chunks 0 []
  .ok (replacements.insertionSort fun lhs rhs => lhs.startIdx ≤ rhs.startIdx)

/-- Old lines are removed one by one, then the new lines are inserted one by one. -/
def Replacement.apply (lines : List Str) (r : Replacement) : List Str :=
  let removed := Nat.repeat (fun lines => lines.eraseIdx r.startIdx) r.oldLen lines
  r.newLines.zipIdx.foldl (fun lines (newLine, offset) => lines.insertIdx (r.startIdx + offset) newLine) removed

def applyReplacements (lines : List Str) (replacements : List Replacement) : List Str :=
  replacements.reverse.foldl Replacement.apply lines

/-- The lines of a file; the empty piece behind a final line feed is none. -/
def originalLines (contents : Str) : List Str :=
  let pieces := contents.splitOn '\n'
  if endsEmpty pieces then pieces.dropLast else pieces

def newText (newLines : List Str) : Str :=
  joinLines (if endsEmpty newLines then newLines else newLines ++ [[]])

structure AppliedPatch where
  originalContents : Str
  newContents : Str
  deriving DecidableEq

/-- The part of `derive_new_contents_from_chunks` behind the read of the file. -/
def newContentsFromChunks (contents : Str) (path : Str) (chunks : List UpdateFileChunk) :
    Except ApplyPatchError AppliedPatch := do
  let lines := originalLines contents
  let replacements ← computeReplacements lines path chunks
  .ok ⟨contents, newText (applyReplacements lines replacements)⟩

def deriveNewContentsFromChunks {σ : Type} (fs : ExecutorFileSystem σ) (state : σ) (pathAbs : AbsolutePathBuf)
    (chunks : List UpdateFileChunk) : Except ApplyPatchError AppliedPatch :=
  match fs.readFileText state pathAbs with
  | .error err => .error (.ioError ("Failed to read file to update ".toList ++ pathAbs.toPath) err)
  | .ok contents => newContentsFromChunks contents pathAbs.toPath chunks

example :
    newContentsFromChunks "a\nb\nc\n" "/f" [⟨none, ["b".toList], ["B".toList, "x".toList], false⟩] =
      .ok ⟨"a\nb\nc\n", "a\nB\nx\nc\n"⟩ := by decide

end Codrex.ApplyPatch

/-!
## The reads of `seek_sequence`

The loops of `apply-patch/src/seek_sequence.rs` with each read of a line as the source makes it: an index that is
out of range is a panic.
-/

namespace Codrex.ApplyPatch

open Text Fallible

/-- `lines[i..i + n]`. -/
def slice (lines : List Str) (i n : Nat) : MayPanic (List Str) :=
  if i + n ≤ lines.length then some ((lines.drop i).take n) else none

def exactAt (lines pattern : List Str) (i : Nat) : MayPanic Bool := do
  let found ← slice lines i pattern.length
  some (found == pattern)

/-- The loop over the lines of the pattern, from the one with index `pIdx` on. -/
def viewedAt (view : Str → Str) (lines : List Str) (i : Nat) : List Str → Nat → MayPanic Bool
  | [], _ => some true
  | pat :: pattern, pIdx => do
      let line ← lines[i + pIdx]?
      if view line ≠ view pat then some false else viewedAt view lines i pattern (pIdx + 1)

def firstAt (isMatch : Nat → MayPanic Bool) : List Nat → MayPanic (Option Nat)
  | [] => some none
  | i :: indices => do
      let ok ← isMatch i
      if ok then some (some i) else firstAt isMatch indices

/-- The search loops one after the other, over the same indices. -/
def seekPasses (indices : List Nat) : List (Nat → MayPanic Bool) → MayPanic (Option Nat)
  | [] => some none
  | isMatch :: passes => do
      match ← firstAt isMatch indices with
      | some i => some (some i)
      | none => seekPasses indices passes

def seekSequenceReading (lines pattern : List Str) (start : Nat) (eof : Bool) : MayPanic (Option Nat) :=
  if pattern.isEmpty then some (some start)
  else if pattern.length > lines.length then some none
  else
    let searchStart := if eof ∧ lines.length ≥ pattern.length then lines.length - pattern.length else start
    seekPasses (List.range' searchStart (lines.length - pattern.length + 1 - searchStart))
      [exactAt lines pattern, fun i => viewedAt trimEnd lines i pattern 0, fun i => viewedAt trim lines i pattern 0,
        fun i => viewedAt normalise lines i pattern 0]

end Codrex.ApplyPatch
