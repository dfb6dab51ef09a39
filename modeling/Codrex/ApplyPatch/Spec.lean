import Codrex.ApplyPatch.Apply
import Codrex.ApplyPatch.Replace
import Codrex.Lib.Splice

/-!
# What applying a patch is for
-/

namespace Codrex.ApplyPatch

open Text

section

variable {σ : Type} (env : HostEnv) (fs : ExecutorFileSystem σ) (cwd : AbsolutePathBuf)

/-! ## Moves -/

/-- In the run over the hunks from a state, the hunk finds the file system in one state and leaves it in
another. -/
inductive Turn : σ → List Hunk → Hunk → σ → σ → Prop
  | first {state state' : σ} {hunk : Hunk} (hunks : List Hunk)
      (h : applyHunk env fs cwd state hunk = (state', .ok ())) : Turn state (hunk :: hunks) hunk state state'
  | later {state state' before after : σ} {earlier hunk : Hunk} {hunks : List Hunk}
      (h : applyHunk env fs cwd state earlier = (state', .ok ())) (hturn : Turn state' hunks hunk before after) :
      Turn state (earlier :: hunks) hunk before after

/-- After its turn, the destination of a moved file holds what the chunks derive from the file. -/
def MovesKeepContents (files : FileContents fs) (state : σ) (hunks : List Hunk) : Prop :=
  ∀ path dest chunks before after, Turn env fs cwd state hunks (.updateFile path (some dest) chunks) before after →
    let pathAbs := AbsolutePathBuf.resolvePathAgainstBase env path cwd
    let destAbs := AbsolutePathBuf.resolvePathAgainstBase env dest cwd
    ∃ original applied, files.contents before pathAbs = some original ∧
      newContentsFromChunks original pathAbs.toPath chunks = .ok applied ∧
      files.contents after destAbs = some applied.newContents

/-- The lookup of no destination passes the entry of the file that is moved there. -/
def MovesApart (files : FileContents fs) (state : σ) (hunks : List Hunk) : Prop :=
  ∀ path dest chunks before after, Turn env fs cwd state hunks (.updateFile path (some dest) chunks) before after →
    ¬ files.passes before (AbsolutePathBuf.resolvePathAgainstBase env dest cwd)
      (AbsolutePathBuf.resolvePathAgainstBase env path cwd)

end

/-! ## The patch that an action carries -/

/-- A patch that reads the same again: the hunks that were verified are those that are applied. -/
def PatchStable (args : ApplyPatchArgs) : Prop :=
  ∃ args', parsePatch args.patch = .ok args' ∧ args'.hunks = args.hunks ∧ args'.patch = args.patch

def unwrapHeredoc (ls : List Str) : List Str :=
  match ls.head? with
  | some first => if first ∈ heredocStarts then ls.tail.dropLast else ls
  | none => ls

/-- The lines of a patch, out of the heredoc, leave nothing more to cut: no carriage return at the end of a line,
no blanks in front of the first line or behind the last. -/
structure Settled (patchLines : List Str) : Prop where
  noCr : ∀ line ∈ patchLines, line.getLast? ≠ some '\r'
  first : ∀ first ∈ patchLines.head?, trimStart first = first
  last : ∀ last ∈ patchLines.getLast?, trimEnd last = last

/-! ## Seeking -/

/-- How strictly lines are compared; the first is the strictest. -/
inductive Strictness
  | exact
  | trimmedEnd
  | trimmed
  | normalised
  deriving DecidableEq

def Strictness.view : Strictness → Str → Str
  | exact => id
  | trimmedEnd => trimEnd
  | trimmed => trim
  | normalised => normalise

def Strictness.rank : Strictness → Nat
  | exact => 0
  | trimmedEnd => 1
  | trimmed => 2
  | normalised => 3

/-- The lines from `i` on are those of the pattern, seen with the strictness. -/
def MatchesLevel (level : Strictness) (lines pattern : List Str) (i : Nat) : Prop :=
  ((lines.drop i).take pattern.length).map level.view = pattern.map level.view

instance (level : Strictness) (lines pattern : List Str) (i : Nat) : Decidable (MatchesLevel level lines pattern i) :=
  inferInstanceAs (Decidable (_ = _))

/-- A match from `start` on at the strictest level that has one, and the first at this level. -/
def FirstMatch (lines pattern : List Str) (start i : Nat) : Prop :=
  ∃ level, start ≤ i ∧ MatchesLevel level lines pattern i ∧
    (∀ j, start ≤ j → j < i → ¬ MatchesLevel level lines pattern j) ∧
    ∀ stricter, stricter.rank < level.rank → ∀ j, start ≤ j → ¬ MatchesLevel stricter lines pattern j

def NoMatch (lines pattern : List Str) (start : Nat) : Prop :=
  ∀ level i, start ≤ i → ¬ MatchesLevel level lines pattern i

def Sought (lines pattern : List Str) (start : Nat) : Option Nat → Prop
  | some i => FirstMatch lines pattern start i
  | none => NoMatch lines pattern start

def MatchesEnd (lines pattern : List Str) : Prop :=
  ∃ level, MatchesLevel level lines pattern (lines.length - pattern.length)

/-- What the documentation of `seek_sequence` says of a result. -/
def SeekDocumented (lines pattern : List Str) (start : Nat) : Bool → Option Nat → Prop
  | false, result => Sought lines pattern start result
  | true, result =>
      (MatchesEnd lines pattern → result = some (lines.length - pattern.length)) ∧
        (¬ MatchesEnd lines pattern → Sought lines pattern start result)

/-! ## Ranges of replacements -/

def Replacement.edit (r : Replacement) : Splice.Edit Str := ⟨r.startIdx, r.oldLen, r.newLines⟩

/-- Replacements in the order of their starts, inside of the lines, none reaching into the next. -/
structure DisjointReplacements (lines : List Str) (rs : List Replacement) : Prop where
  sorted : rs.Pairwise fun r r' => r.startIdx ≤ r'.startIdx
  inside : ∀ r ∈ rs, r.startIdx + r.oldLen ≤ lines.length
  apart : rs.IsChain fun r r' => r.startIdx + r.oldLen ≤ r'.startIdx

/-- The lines with all replacements done at once. -/
def substituteAll (lines : List Str) (rs : List Replacement) : List Str :=
  Splice.substitute lines (rs.map Replacement.edit)

/-- The old lines that are sought for a chunk: without the last empty one if they are not found with it. -/
def soughtLines (lines : List Str) (lineIndex : Nat) (chunk : UpdateFileChunk) : List Str :=
  if (seekSequence lines chunk.oldLines lineIndex chunk.isEndOfFile).isNone ∧ endsEmpty chunk.oldLines then
    chunk.oldLines.dropLast
  else chunk.oldLines

/-- The replacements so far leave the place of a chunk alone: the final empty line in front of which a chunk
without old lines is put, the end of the file for a chunk that is marked so, and for any other chunk its old
lines, into which no earlier one puts anything. -/
def ChunkClear (lines : List Str) (done : List Replacement) (lineIndex : Nat) (chunk : UpdateFileChunk) : Prop :=
  let sought := soughtLines lines lineIndex chunk
  if chunk.oldLines = [] then endsEmpty lines → ∀ r ∈ done, ¬ r.edit.Covers (lines.length - 1)
  else if chunk.isEndOfFile then
    ∀ r ∈ done, r.startIdx + r.oldLen ≤ lines.length - sought.length ∨ r.startIdx = lines.length
  else
    ∀ idx, seekSequence lines sought lineIndex false = some idx →
      ∀ r ∈ done, r.oldLen = 0 → r.startIdx ≤ idx ∨ idx + sought.length ≤ r.startIdx

/-- Every chunk finds its place left alone at its turn. -/
def ChunksClear (lines : List Str) (path : Str) : List UpdateFileChunk → Nat → List Replacement → Prop
  | [], _, _ => True
  | chunk :: chunks, lineIndex, done =>
      ∀ lineIndex', seekContext lines path lineIndex chunk.changeContext = .ok lineIndex' →
        ChunkClear lines done lineIndex' chunk ∧
          ∀ r next, chunkReplacement lines path lineIndex' chunk = .ok (r, next) →
            ChunksClear lines path chunks next (done ++ [r])

/-! ## The contents of an updated file -/

/-- Each line followed by a line feed. -/
def unlines (lines : List Str) : Str := lines.flatMap (· ++ ['\n'])

/-- An update leaves everything but the replaced ranges as it is. -/
structure FrameLaw (contents : Str) (chunks : List UpdateFileChunk) (rs : List Replacement) (new : Str) : Prop where
  substituted : new = unlines (substituteAll (originalLines contents) rs)
  survives : (Splice.kept (originalLines contents) (rs.map Replacement.edit)).Sublist (originalLines new)
  unchanged : (∀ chunk ∈ chunks, chunk.oldLines = chunk.newLines) →
    (∀ r ∈ rs, ((originalLines contents).drop r.startIdx).take r.oldLen = r.newLines) → new = contents

/-- What is left at the end is a blank line: one of the file with nothing behind it that stays, or the last new
line of a replacement with nothing behind it. -/
def EndsBlank (lines : List Str) (rs : List Replacement) : Prop :=
  ∃ i ≤ lines.length,
    ((lines[i]? = some [] ∧ ∀ r ∈ rs, ¬ r.edit.Covers i) ∨
      ((lines[i]? = none ∨ ∃ r ∈ rs, r.edit.Covers i) ∧
        ((rs.filter fun r => r.startIdx = i).flatMap Replacement.newLines).getLast? = some [])) ∧
    ∀ j, i < j → (∀ line, lines[j]? = some line → ∃ r ∈ rs, r.edit.Covers j) ∧
      ∀ r ∈ rs, r.startIdx = j → r.newLines = []

/-! ## Previews -/

/-- The map of files is the one from before, with exactly the changes applied. -/
structure ChangesApplied (files : Texts) (changes : Changes) (files' : Texts) : Prop where
  add : ∀ path content, changes path = some (.add content) → files' path = some content
  delete : ∀ path content, changes path = some (.delete content) → files' path = none
  update : ∀ path diff new, changes path = some (.update diff none new) → files' path = some new
  move : ∀ path diff dest new, changes path = some (.update diff (some dest) new) →
    files' dest = some new ∧ files' path = none
  unchanged : ∀ path, changes path = none → (∀ source diff new, changes source ≠ some (.update diff (some path) new)) →
    files' path = files path

def Hunk.destination (env : HostEnv) (cwd : AbsolutePathBuf) : Hunk → Option AbsolutePathBuf
  | updateFile _ (some dest) _ => some (AbsolutePathBuf.resolvePathAgainstBase env dest cwd)
  | _ => none

def Hunk.Touches (env : HostEnv) (cwd : AbsolutePathBuf) (hunk : Hunk) (path : AbsolutePathBuf) : Prop :=
  hunk.resolvePath env cwd = path ∨ hunk.destination env cwd = some path

def Hunk.IsDelete : Hunk → Prop
  | deleteFile _ => True
  | _ => False

instance (env : HostEnv) (cwd : AbsolutePathBuf) (hunk : Hunk) (path : AbsolutePathBuf) :
    Decidable (hunk.Touches env cwd path) :=
  inferInstanceAs (Decidable (_ ∨ _))

instance : DecidablePred Hunk.IsDelete
  | .addFile .. => inferInstanceAs (Decidable False)
  | .deleteFile _ => inferInstanceAs (Decidable True)
  | .updateFile .. => inferInstanceAs (Decidable False)

/-- Whoever touched the path before left the file under it. -/
def OnlyRewritten (env : HostEnv) (cwd : AbsolutePathBuf) (earlier : List Hunk) (path : AbsolutePathBuf) : Prop :=
  ∀ hunk ∈ earlier, hunk.Touches env cwd path →
    hunk.resolvePath env cwd = path ∧ hunk.destination env cwd = none

def lastAt (env : HostEnv) (cwd : AbsolutePathBuf) (hunks : List Hunk) (path : AbsolutePathBuf) : Option Hunk :=
  (hunks.filter fun hunk => hunk.resolvePath env cwd = path).getLast?

/-- A hunk does not build on what the hunks before it did, and covers what they did to its path. -/
def StandsAlone (env : HostEnv) (cwd : AbsolutePathBuf) (earlier : List Hunk) (hunk : Hunk) : Prop :=
  match hunk with
  | .addFile .. => OnlyRewritten env cwd earlier (hunk.resolvePath env cwd)
  | .deleteFile .. =>
      OnlyRewritten env cwd earlier (hunk.resolvePath env cwd) ∧
        ∀ last ∈ lastAt env cwd earlier (hunk.resolvePath env cwd), ¬ last.IsDelete
  | .updateFile .. =>
      ∀ other ∈ earlier, ¬ other.Touches env cwd (hunk.resolvePath env cwd) ∧
        ∀ dest ∈ hunk.destination env cwd, ¬ other.Touches env cwd dest

def AllStandAlone (env : HostEnv) (cwd : AbsolutePathBuf) : List Hunk → List Hunk → Prop
  | _, [] => True
  | earlier, hunk :: hunks =>
      StandsAlone env cwd earlier hunk ∧ AllStandAlone env cwd (earlier ++ [hunk]) hunks

inductive Place
  | dir
  | file
  deriving DecidableEq

/-- What stands under the paths, whatever the files hold. -/
abbrev Places := AbsolutePathBuf → Option Place

def Place.ofEntry : TextEntry → Place
  | .dir => .dir
  | .text _ => .file

def places (files : TextFiles) : Places := Option.map Place.ofEntry ∘ files.entry

/-- Where a hunk writes a file that need not be there. -/
def Hunk.written (env : HostEnv) (cwd : AbsolutePathBuf) : Hunk → Option AbsolutePathBuf
  | addFile path contents => some ((addFile path contents).resolvePath env cwd)
  | hunk => hunk.destination env cwd

def Hunk.removed (env : HostEnv) (cwd : AbsolutePathBuf) (hunk : Hunk) : Option AbsolutePathBuf :=
  match hunk with
  | addFile .. | updateFile _ none _ => none
  | deleteFile _ | updateFile _ (some _) _ => some (hunk.resolvePath env cwd)

/-- There can be a file: no directory is there, and no file above. -/
def HasRoom (places : Places) (path : AbsolutePathBuf) : Prop :=
  places path ≠ some .dir ∧ ∀ dir ∈ path.pop.ancestors, places dir ≠ some .file

/-- A file, and the directories above it. -/
def putFile (places : Places) (path : AbsolutePathBuf) : Places :=
  Function.update (fun other => if path.startsWith other then some .dir else places other) path (some .file)

def placesAfter (env : HostEnv) (cwd : AbsolutePathBuf) (places : Places) (hunk : Hunk) : Places :=
  let filled := (hunk.written env cwd).elim places (putFile places)
  (hunk.removed env cwd).elim filled fun path => Function.update filled path none

/-- At the turn of every hunk there is room for the file that it writes. -/
def AllHaveRoom (env : HostEnv) (cwd : AbsolutePathBuf) : Places → List Hunk → Prop
  | _, [] => True
  | places, hunk :: hunks =>
      (∀ path ∈ hunk.written env cwd, HasRoom places path) ∧ AllHaveRoom env cwd (placesAfter env cwd places hunk) hunks

/-- The header of a hunk, which is trimmed before it is read. -/
def IsHunkHeader (line : Str) : Prop := ∃ marker ∈ [addFileMarker, deleteFileMarker, updateFileMarker], marker <+: line

/-- A carriage return at the end of the line is not read as part of it. -/
def KeepsNoCr (line : Str) : Prop := IsHunkHeader line ∨ line.getLast? ≠ some '\r'

/-- A patch whose hunks stand alone, one at least, and have room for their files, and whose lines between the outer
markers keep no carriage return. -/
structure Separate (env : HostEnv) (cwd : AbsolutePathBuf) (files : TextFiles) (patch : Str) (hunks : List Hunk) :
    Prop where
  hunks_ne_nil : hunks ≠ []
  standAlone : AllStandAlone env cwd [] hunks
  haveRoom : AllHaveRoom env cwd (places files) hunks
  noCr : ∀ line ∈ (unwrapHeredoc (lines (trim patch))).tail.dropLast, KeepsNoCr line

instance : DecidablePred KeepsNoCr := by
  unfold KeepsNoCr IsHunkHeader
  infer_instance

instance (env : HostEnv) (cwd : AbsolutePathBuf) (earlier : List Hunk) (path : AbsolutePathBuf) :
    Decidable (OnlyRewritten env cwd earlier path) :=
  inferInstanceAs (Decidable (∀ _ ∈ earlier, _))

instance (env : HostEnv) (cwd : AbsolutePathBuf) (earlier : List Hunk) :
    DecidablePred (StandsAlone env cwd earlier)
  | .addFile .. => inferInstanceAs (Decidable (OnlyRewritten ..))
  | .deleteFile .. => inferInstanceAs (Decidable (_ ∧ _))
  | .updateFile .. => inferInstanceAs (Decidable (∀ _ ∈ earlier, _ ∧ _))

def decidableAllStandAlone (env : HostEnv) (cwd : AbsolutePathBuf) :
    (earlier hunks : List Hunk) → Decidable (AllStandAlone env cwd earlier hunks)
  | _, [] => isTrue trivial
  | earlier, hunk :: hunks =>
      have := decidableAllStandAlone env cwd (earlier ++ [hunk]) hunks
      inferInstanceAs (Decidable (_ ∧ _))

instance (env : HostEnv) (cwd : AbsolutePathBuf) (earlier hunks : List Hunk) :
    Decidable (AllStandAlone env cwd earlier hunks) :=
  decidableAllStandAlone env cwd earlier hunks

instance (places : Places) (path : AbsolutePathBuf) : Decidable (HasRoom places path) :=
  inferInstanceAs (Decidable (_ ∧ _))

def decidableAllHaveRoom (env : HostEnv) (cwd : AbsolutePathBuf) :
    (places : Places) → (hunks : List Hunk) → Decidable (AllHaveRoom env cwd places hunks)
  | _, [] => isTrue trivial
  | places, hunk :: hunks =>
      have := decidableAllHaveRoom env cwd (placesAfter env cwd places hunk) hunks
      inferInstanceAs (Decidable ((∀ path ∈ hunk.written env cwd, HasRoom places path) ∧ _))

instance (env : HostEnv) (cwd : AbsolutePathBuf) (places : Places) (hunks : List Hunk) :
    Decidable (AllHaveRoom env cwd places hunks) :=
  decidableAllHaveRoom env cwd places hunks

def NoMoveOntoItself (env : HostEnv) (cwd : AbsolutePathBuf) (hunks : List Hunk) : Prop :=
  ∀ hunk ∈ hunks, hunk.destination env cwd ≠ some (hunk.resolvePath env cwd)

/-- What the preview of an `apply_patch` call shows is what applying its patch does. -/
def PreviewHolds (inv : InvocationEnv) (env : HostEnv) (cwd : AbsolutePathBuf) (files : TextFiles) (patch : Str) :
    Prop :=
  ∀ action,
    maybeParseApplyPatchVerified inv env textFiles cwd files ["apply_patch".toList, patch] = .body action →
    (applyPatch env textFiles action.cwd files action.patch).result = .ok () ∧
      ChangesApplied files.text action.changes (applyPatch env textFiles action.cwd files action.patch).state.text

end Codrex.ApplyPatch
