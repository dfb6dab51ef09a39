import Codrex.AbsolutePath
import Codrex.Lib.Transition

/-!
# The patch parser

`apply-patch/src/parser.rs`: a patch text is read line by line into hunks.
-/

namespace Codrex.ApplyPatch

open Text

def beginPatchMarker : Str := "*** Begin Patch"
def endPatchMarker : Str := "*** End Patch"
def addFileMarker : Str := "*** Add File: "
def deleteFileMarker : Str := "*** Delete File: "
def updateFileMarker : Str := "*** Update File: "
def moveToMarker : Str := "*** Move to: "
def eofMarker : Str := "*** End of File"
def changeContextMarker : Str := "@@ "
def emptyChangeContextMarker : Str := "@@"

inductive ParseError
  | invalidPatchError (message : Str)
  | invalidHunkError (message : Str) (lineNumber : Nat)
  deriving DecidableEq

structure UpdateFileChunk where
  changeContext : Option Str
  oldLines : List Str
  newLines : List Str
  isEndOfFile : Bool
  deriving DecidableEq

inductive Hunk
  | addFile (path contents : Str)
  | deleteFile (path : Str)
  | updateFile (path : Str) (movePath : Option Str) (chunks : List UpdateFileChunk)
  deriving DecidableEq

namespace Hunk

def sourcePath : Hunk → Str
  | addFile path _ => path
  | deleteFile path => path
  | updateFile path _ _ => path

def path : Hunk → Str
  | addFile path _ => path
  | deleteFile path => path
  | updateFile _ (some dest) _ => dest
  | updateFile path none _ => path

def resolvePath (env : HostEnv) (hunk : Hunk) (cwd : AbsolutePathBuf) : AbsolutePathBuf :=
  AbsolutePathBuf.resolvePathAgainstBase env hunk.sourcePath cwd

end Hunk

structure ApplyPatchArgs where
  patch : Str
  hunks : List Hunk
  workdir : Option Str
  deriving DecidableEq

inductive ParseMode
  | strict
  | lenient
  | streaming
  deriving DecidableEq

/-! ## The first and the last line -/

def checkStartAndEndLinesStrict (firstLine lastLine : Option Str) : Except ParseError Unit :=
  match firstLine.map trim, lastLine.map trim with
  | some first, some last =>
      if first = beginPatchMarker ∧ last = endPatchMarker then .ok ()
      else if first ≠ beginPatchMarker then
        .error (.invalidPatchError "The first line of the patch must be '*** Begin Patch'")
      else .error (.invalidPatchError "The last line of the patch must be '*** End Patch'")
  | _, _ => .error (.invalidPatchError "The last line of the patch must be '*** End Patch'")

def checkPatchBoundariesStrict (lines : List Str) : Except ParseError (List Str × List Str) := do
  checkStartAndEndLinesStrict lines.head? lines.getLast?
  .ok (lines, lines.tail.dropLast)

def heredocStarts : List Str := ["<<EOF", "<<'EOF'", "<<\"EOF\""]

def checkPatchBoundariesLenient (originalLines : List Str) : Except ParseError (List Str × List Str) :=
  match checkPatchBoundariesStrict originalLines with
  | .ok lines => .ok lines
  | .error originalParseError =>
      match originalLines.head?, originalLines.getLast? with
      | some first, some last =>
          if first ∈ heredocStarts ∧ "EOF".toList <:+ last ∧ originalLines.length ≥ 4 then
            checkPatchBoundariesStrict originalLines.tail.dropLast
          else .error originalParseError
      | _, _ => .error originalParseError

def checkPatchBoundariesStreaming (originalLines : List Str) : Except ParseError (List Str × List Str) :=
  match originalLines with
  | first :: rest =>
      if trim first = beginPatchMarker then
        if (originalLines.getLast?.map trim) = some endPatchMarker then .ok (originalLines, rest.dropLast)
        else .ok (originalLines, rest)
      else checkPatchBoundariesStrict originalLines
  | [] => checkPatchBoundariesStrict originalLines

/-! ## Hunks -/

def noLines (lineNumber : Nat) : ParseError :=
  .invalidHunkError "Update hunk does not contain any lines" lineNumber

/-- The loop over the lines of a chunk, with the number of lines it has read. -/
def chunkLoop (lineNumber : Nat) : List Str → UpdateFileChunk → Nat →
    Except ParseError (UpdateFileChunk × Nat)
  | [], chunk, parsedLines => .ok (chunk, parsedLines)
  | line :: rest, chunk, parsedLines =>
      if line = eofMarker then
        if parsedLines = 0 then .error (noLines (lineNumber + 1))
        else .ok ({ chunk with isEndOfFile := true }, parsedLines + 1)
      else match line with
        | [] =>
            chunkLoop lineNumber rest
              { chunk with oldLines := chunk.oldLines ++ [[]], newLines := chunk.newLines ++ [[]] }
              (parsedLines + 1)
        | ' ' :: contents =>
            chunkLoop lineNumber rest
              { chunk with
                oldLines := chunk.oldLines ++ [contents], newLines := chunk.newLines ++ [contents] }
              (parsedLines + 1)
        | '+' :: contents =>
            chunkLoop lineNumber rest { chunk with newLines := chunk.newLines ++ [contents] } (parsedLines + 1)
        | '-' :: contents =>
            chunkLoop lineNumber rest { chunk with oldLines := chunk.oldLines ++ [contents] } (parsedLines + 1)
        | _ =>
            if parsedLines = 0 then
              .error (.invalidHunkError
                ("Unexpected line found in update hunk: '".toList ++ line ++
                  "'. Every line should start with ' ' (context line), '+' (added line), or '-' (removed line)".toList)
                (lineNumber + 1))
            else .ok (chunk, parsedLines)

def chunkContext (line : Str) (lineNumber : Nat) (allowMissingContext : Bool) :
    Except ParseError (Option Str × Nat) :=
  if line = emptyChangeContextMarker then .ok (none, 1)
  else match stripPrefix changeContextMarker line with
    | some context => .ok (some context, 1)
    | none =>
        if allowMissingContext then .ok (none, 0)
        else .error (.invalidHunkError
          ("Expected update hunk to start with a @@ context marker, got: '".toList ++ line ++ ['\'']) lineNumber)

def parseUpdateFileChunk (lines : List Str) (lineNumber : Nat) (allowMissingContext : Bool) :
    Except ParseError (UpdateFileChunk × Nat) :=
  match lines with
  | [] => .error (noLines lineNumber)
  | first :: _ => do
      let (changeContext, startIndex) ← chunkContext first lineNumber allowMissingContext
      if startIndex ≥ lines.length then .error (noLines (lineNumber + 1))
      else do
        let (chunk, parsedLines) ← chunkLoop lineNumber (lines.drop startIndex) ⟨changeContext, [], [], false⟩ 0
        .ok (chunk, parsedLines + startIndex)

/-- The loop over the chunks of an update hunk: the chunks, and the number of lines read with those read
before. Each turn reads a line, so the number of lines bounds the turns. -/
def chunksLoop (lineNumber : Nat) (allowIncomplete : Bool) :
    Nat → List Str → Nat → List UpdateFileChunk → Except ParseError (List UpdateFileChunk × Nat)
  | 0, _, parsedLines, chunks => .ok (chunks, parsedLines)
  | _ + 1, [], parsedLines, chunks => .ok (chunks, parsedLines)
  | fuel + 1, line :: rest, parsedLines, chunks =>
      if (trim line).isEmpty then chunksLoop lineNumber allowIncomplete fuel rest (parsedLines + 1) chunks
      else if line.head? = some '*' then .ok (chunks, parsedLines)
      else if allowIncomplete ∧ line = ['@'] then .ok (chunks, parsedLines)
      else match parseUpdateFileChunk (line :: rest) (lineNumber + parsedLines) chunks.isEmpty with
        | .ok (chunk, chunkLines) =>
            chunksLoop lineNumber allowIncomplete fuel ((line :: rest).drop chunkLines)
              (parsedLines + chunkLines) (chunks ++ [chunk])
        | .error (.invalidHunkError message number) =>
            if allowIncomplete ∧ chunks ≠ [] then .ok (chunks, parsedLines)
            else .error (.invalidHunkError message number)
        | .error err => .error err

def addLines (lines : List Str) : List Str :=
  match lines with
  | ('+' :: line) :: rest => line :: addLines rest
  | _ => []

def parseAddFile (path : Str) (rest : List Str) : Hunk × Nat :=
  let added := addLines rest
  (.addFile path (added.flatMap (· ++ ['\n'])), 1 + added.length)

def parseUpdateFile (path : Str) (rest : List Str) (lineNumber : Nat) (allowIncomplete : Bool) :
    Except ParseError (Hunk × Nat) :=
  let movePath := rest.head?.bind (stripPrefix moveToMarker)
  let (remaining, parsedLines) := if movePath.isSome then (rest.tail, 2) else (rest, 1)
  chunksLoop lineNumber allowIncomplete (remaining.length + 1) remaining parsedLines [] >>=
    fun (chunks, parsedLines) =>
      if chunks.isEmpty then
        .error (.invalidHunkError ("Update file hunk for path '".toList ++ path ++ "' is empty".toList) lineNumber)
      else .ok (.updateFile path movePath chunks, parsedLines)

def parseOneHunk (lines : List Str) (lineNumber : Nat) (allowIncomplete : Bool) :
    Except ParseError (Hunk × Nat) :=
  let firstLine := trim (lines.headD [])
  match stripPrefix addFileMarker firstLine with
  | some path => .ok (parseAddFile path lines.tail)
  | none => match stripPrefix deleteFileMarker firstLine with
    | some path => .ok (.deleteFile path, 1)
    | none => match stripPrefix updateFileMarker firstLine with
      | some path => parseUpdateFile path lines.tail lineNumber allowIncomplete
      | none => .error (.invalidHunkError
          (['\''] ++ firstLine ++
            "' is not a valid hunk header. Valid hunk headers: '*** Add File: \x7bpath\x7d', '*** Delete File: \x7bpath\x7d', '*** Update File: \x7bpath\x7d'".toList)
          lineNumber)

/-- The loop over the hunks. Each hunk reads at least its header. -/
def hunksLoop (allowIncomplete : Bool) : Nat → List Str → Nat → Except ParseError (List Hunk)
  | 0, _, _ => .ok []
  | _ + 1, [], _ => .ok []
  | fuel + 1, line :: rest, lineNumber => do
      let (hunk, hunkLines) ← parseOneHunk (line :: rest) lineNumber allowIncomplete
      let hunks ← hunksLoop allowIncomplete fuel ((line :: rest).drop hunkLines) (lineNumber + hunkLines)
      .ok (hunk :: hunks)

def checkPatchBoundaries (mode : ParseMode) (lines : List Str) : Except ParseError (List Str × List Str) :=
  match mode with
  | .strict => checkPatchBoundariesStrict lines
  | .lenient => checkPatchBoundariesLenient lines
  | .streaming => checkPatchBoundariesStreaming lines

def parsePatchText (patch : Str) (mode : ParseMode) : Except ParseError ApplyPatchArgs := do
  let (patchLines, hunkLines) ← checkPatchBoundaries mode (lines (trim patch))
  let hunks ← hunksLoop (mode = .streaming) (hunkLines.length + 1) hunkLines 2
  .ok ⟨joinLines patchLines, hunks, none⟩

def parsePatch (patch : Str) : Except ParseError ApplyPatchArgs := parsePatchText patch .lenient

def parsePatchStreaming (patch : Str) : Except ParseError ApplyPatchArgs := parsePatchText patch .streaming

end Codrex.ApplyPatch
