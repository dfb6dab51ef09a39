import Codrex.ApplyPatch.Parser

/-!
# The grammar of patches

The grammar at the head of `apply-patch/src/parser.rs`: its sentences as trees, and the text of a tree.
-/

namespace Codrex.ApplyPatch

open Text

inductive Sign
  | added
  | removed
  | kept
  deriving DecidableEq

def Sign.char : Sign → Char
  | added => '+'
  | removed => '-'
  | kept => ' '

/-- A `change_context` or a `change_line`. -/
inductive ChangeItem
  | context (text : Option Str)
  | line (sign : Sign) (text : Str)
  deriving DecidableEq

structure Change where
  items : List ChangeItem
  eofLine : Bool
  deriving DecidableEq

inductive GrammarHunk
  | addHunk (filename : Str) (lines : List Str)
  | deleteHunk (filename : Str)
  | updateHunk (filename : Str) (changeMove : Option Str) (change : Option Change)
  deriving DecidableEq

/-- A `start`; the line feed behind the end marker may be missing. -/
structure Sentence where
  hunks : List GrammarHunk
  finalLf : Bool
  deriving DecidableEq

/-! ## Text -/

def ChangeItem.text : ChangeItem → Str
  | context none => emptyChangeContextMarker
  | context (some text) => changeContextMarker ++ text
  | line sign text => sign.char :: text

def Change.lines (change : Change) : List Str :=
  change.items.map ChangeItem.text ++ if change.eofLine then [eofMarker] else []

def GrammarHunk.lines : GrammarHunk → List Str
  | addHunk filename lines => (addFileMarker ++ filename) :: lines.map ('+' :: ·)
  | deleteHunk filename => [deleteFileMarker ++ filename]
  | updateHunk filename changeMove change =>
      (updateFileMarker ++ filename) ::
        ((changeMove.map (moveToMarker ++ ·)).toList ++ (change.map Change.lines).getD [])

def Sentence.lines (sentence : Sentence) : List Str :=
  beginPatchMarker :: sentence.hunks.flatMap GrammarHunk.lines ++ [endPatchMarker]

def Sentence.text (sentence : Sentence) : Str :=
  joinLines sentence.lines ++ if sentence.finalLf then ['\n'] else []

/-! ## Well-formed trees -/

def NoBreak (line : Str) : Prop := '\n' ∉ line ∧ '\r' ∉ line

/-- `/(.+)/`, without line breaks. -/
def IsText (text : Str) : Prop := text ≠ [] ∧ '\n' ∉ text ∧ '\r' ∉ text

def IsFilename (filename : Str) : Prop := IsText filename ∧ trim filename = filename

def ChangeItem.WellFormed : ChangeItem → Prop
  | context text => ∀ t ∈ text, IsText t
  | line _ text => IsText text

def Change.WellFormed (change : Change) : Prop :=
  change.items ≠ [] ∧ ∀ item ∈ change.items, item.WellFormed

def GrammarHunk.WellFormed : GrammarHunk → Prop
  | addHunk filename lines => IsFilename filename ∧ lines ≠ [] ∧ ∀ line ∈ lines, IsText line
  | deleteHunk filename => IsFilename filename
  | updateHunk filename changeMove change =>
      IsFilename filename ∧ (∀ dest ∈ changeMove, IsFilename dest) ∧ ∀ c ∈ change, c.WellFormed

def Sentence.WellFormed (sentence : Sentence) : Prop :=
  sentence.hunks ≠ [] ∧ ∀ hunk ∈ sentence.hunks, hunk.WellFormed

instance (line : Str) : Decidable (NoBreak line) :=
  inferInstanceAs (Decidable (_ ∧ _))

instance (text : Str) : Decidable (IsText text) :=
  inferInstanceAs (Decidable (_ ∧ _))

instance (filename : Str) : Decidable (IsFilename filename) :=
  inferInstanceAs (Decidable (_ ∧ _))

instance : DecidablePred ChangeItem.WellFormed
  | .context text => inferInstanceAs (Decidable (∀ t ∈ text, IsText t))
  | .line _ text => inferInstanceAs (Decidable (IsText text))

instance (change : Change) : Decidable change.WellFormed :=
  inferInstanceAs (Decidable (_ ∧ _))

instance : DecidablePred GrammarHunk.WellFormed
  | .addHunk filename lines => inferInstanceAs (Decidable (IsFilename filename ∧ lines ≠ [] ∧ ∀ l ∈ lines, IsText l))
  | .deleteHunk filename => inferInstanceAs (Decidable (IsFilename filename))
  | .updateHunk filename changeMove change =>
      inferInstanceAs (Decidable
        (IsFilename filename ∧ (∀ dest ∈ changeMove, IsFilename dest) ∧ ∀ c ∈ change, c.WellFormed))

instance (sentence : Sentence) : Decidable sentence.WellFormed :=
  inferInstanceAs (Decidable (_ ∧ _))

/-! ## What a hunk is about -/

inductive HunkKind
  | add
  | delete
  | update
  deriving DecidableEq

structure Header where
  kind : HunkKind
  path : Str
  movePath : Option Str
  deriving DecidableEq

def GrammarHunk.header : GrammarHunk → Header
  | addHunk filename _ => ⟨.add, filename, none⟩
  | deleteHunk filename => ⟨.delete, filename, none⟩
  | updateHunk filename changeMove _ => ⟨.update, filename, changeMove⟩

def Hunk.header : Hunk → Header
  | addFile path _ => ⟨.add, path, none⟩
  | deleteFile path => ⟨.delete, path, none⟩
  | updateFile path movePath _ => ⟨.update, path, movePath⟩

/-! ## Changes that anchor lines -/

/-- Every context line stands right in front of a line of the change. -/
def ContextsFollowed : List ChangeItem → Prop
  | [] => True
  | .line _ _ :: rest => ContextsFollowed rest
  | [.context _] => False
  | .context _ :: next :: rest => (∃ sign text, next = .line sign text) ∧ ContextsFollowed (next :: rest)

/-- A kept line of white space, which is skipped where a chunk may start. -/
def ChangeItem.IsBlank : ChangeItem → Prop
  | line .kept text => trim text = []
  | _ => False

/-- A change in which the parser finds a chunk for every context, and one chunk at least. -/
def Change.Anchored (change : Change) : Prop :=
  ContextsFollowed change.items ∧ ∃ item ∈ change.items, ¬ item.IsBlank

def GrammarHunk.Anchored : GrammarHunk → Prop
  | updateHunk _ _ change => ∃ c, change = some c ∧ c.Anchored
  | _ => True

end Codrex.ApplyPatch

/-!
## Printing hunks

Hunks in the canonical patch format: every chunk has a context line in front, and the lines are those of a diff.
-/

namespace Codrex.ApplyPatch

open Text

/-- A line without its line break; it may be empty, blank or look like a marker. -/
abbrev Line := { text : Str // NoBreak text }

abbrev FileName := { path : Str // IsFilename path }

structure CanonicalChunk where
  context : Option Line
  diff : List (Sign × Line)
  isEndOfFile : Bool
  diff_ne_nil : diff ≠ []

inductive CanonicalHunk
  | addFile (path : FileName) (contents : List Line)
  | deleteFile (path : FileName)
  | updateFile (path : FileName) (movePath : Option FileName) (chunks : List CanonicalChunk) (h : chunks ≠ [])

/-! ## The text of hunks -/

def contextLine : Option Line → Str
  | none => emptyChangeContextMarker
  | some context => changeContextMarker ++ context.1

def diffLine (line : Sign × Line) : Str := line.1.char :: line.2.1

def eofLines (eofLine : Bool) : List Str := if eofLine then [eofMarker] else []

def CanonicalChunk.lines (chunk : CanonicalChunk) : List Str :=
  contextLine chunk.context :: (chunk.diff.map diffLine ++ eofLines chunk.isEndOfFile)

def CanonicalHunk.lines : CanonicalHunk → List Str
  | addFile path contents => (addFileMarker ++ path.1) :: contents.map ('+' :: ·.1)
  | deleteFile path => [deleteFileMarker ++ path.1]
  | updateFile path movePath chunks _ =>
      (updateFileMarker ++ path.1) ::
        ((movePath.map (moveToMarker ++ ·.1)).toList ++ chunks.flatMap CanonicalChunk.lines)

def renderPatch (hunks : List CanonicalHunk) : Str :=
  joinLines (beginPatchMarker :: hunks.flatMap CanonicalHunk.lines ++ [endPatchMarker])

/-! ## The hunks that are meant -/

def CanonicalChunk.oldLines (chunk : CanonicalChunk) : List Str :=
  (chunk.diff.filter (·.1 ≠ .added)).map (·.2.1)

def CanonicalChunk.newLines (chunk : CanonicalChunk) : List Str :=
  (chunk.diff.filter (·.1 ≠ .removed)).map (·.2.1)

def CanonicalChunk.toChunk (chunk : CanonicalChunk) : UpdateFileChunk :=
  ⟨chunk.context.map (·.1), chunk.oldLines, chunk.newLines, chunk.isEndOfFile⟩

def CanonicalHunk.toHunk : CanonicalHunk → Hunk
  | addFile path contents => .addFile path.1 (contents.flatMap (·.1 ++ ['\n']))
  | deleteFile path => .deleteFile path.1
  | updateFile path movePath chunks _ =>
      .updateFile path.1 (movePath.map (·.1)) (chunks.map CanonicalChunk.toChunk)

end Codrex.ApplyPatch
