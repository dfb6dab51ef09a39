import Codrex.Lib.Text
import Codrex.MinimaxDelegate.ContextPacker

/-!
# What a delegated patch may touch, and what a worker may see
-/

namespace Codrex.MinimaxDelegate

open Text UnixPath ApplyPatch

/-! ## The file headers of a unified diff -/

def IsPlainName (name : Str) : Prop := name ≠ [] ∧ ∀ c ∈ name, c.isAlphanum = true ∨ c ∈ "._-/".toList

instance (name : Str) : Decidable (IsPlainName name) :=
  @instDecidableAnd _ _ _ (List.decidableBAll (fun c => c.isAlphanum = true ∨ c ∈ "._-/".toList) name)

/-- The change of one line in a file. -/
def oneLineDiff (name oldLine newLine : Str) : Str :=
  joinLines ["--- a/".toList ++ name, "+++ b/".toList ++ name, "@@ -1 +1 @@", '-' :: oldLine, '+' :: newLine]

/-- The tool that a unified diff is handed to. -/
structure DiffTool where
  /-- The names in the file headers: unquoted, without time stamps, and without `a/` and `b/`. -/
  fileHeaders : Str → List Str
  /-- Plain names stand in the headers as they are. -/
  fileHeaders_plain : ∀ name oldLine newLine, IsPlainName name → '\n' ∉ oldLine → '\n' ∉ newLine →
    name ∈ fileHeaders (oneLineDiff name oldLine newLine)

/-! ## Patches that spare sensitive files -/

/-- The files that a patch adds, deletes, updates or moves to. -/
def touchedPaths (tool : DiffTool) (format : WorkerPatchFormat) (patch : Str) : List Str :=
  match format with
  | .applyPatch =>
      match parsePatch patch with
      | .ok args => args.hunks.flatMap fun hunk => [hunk.sourcePath, hunk.path]
      | .error _ => []
  | .unifiedDiff => tool.fileHeaders patch

def SparesSensitive (tool : DiffTool) (result : MiniMaxDelegationResult) : Prop :=
  result.status = .completed → ∀ format patch, result.format = some format → result.patch = some patch →
    ∀ path ∈ touchedPaths tool format patch, isSensitivePath path = false

def ReadsAs (json : WorkerJson) (output : Str) (response : RawWorkerResponse) : Prop :=
  trim output ≠ [] ∧ stripPrefix clarifyPrefix (trim output) = none ∧
    ∃ normalized, normalizeWorkerOutput json output = .ok normalized ∧ json.fromStr normalized.text = some response

def OffersUnifiedDiff (secrets : SecretPatterns) (json : WorkerJson) (output diff : Str) : Prop :=
  ∃ response source diagnostics, ReadsAs json output response ∧ response.status = .completed ∧
    response.format = some .unifiedDiff ∧ trimmedMetadata secrets response.summary ≠ [] ∧
    resolvePatchSource response.patch response.patchLines = .ok source ∧
    normalizeUnifiedDiffText source.patch = .ok ⟨diff, diagnostics⟩

/-! ## Packs that keep sensitive files back -/

section Packs

variable (secrets : SecretPatterns) (tree : FileTree) (packer : ContextPacker)

def shownText (text : Str) (remaining : Nat) : Str :=
  takeBytesAtCharBoundary
    (takeBytesAtCharBoundary (sanitizeOutputText secrets text).text packer.perFileBudgetBytes) remaining

def InsideRepo (location : AbsolutePathBuf) : Prop := startsWith location.toPath packer.repoRootCanonical = true

/-- The canonical path is sensitive, seen from the canonical root. -/
def IsSensitiveLocation (location : AbsolutePathBuf) : Prop :=
  isSensitivePath ((stripBase location.toPath packer.repoRootCanonical).getD location.toPath) = true

instance (location : AbsolutePathBuf) : Decidable (IsSensitiveLocation packer location) := by
  unfold IsSensitiveLocation
  infer_instance

/-- The content was read from a regular file of the repository that is not sensitive. -/
def Confined (file : PackedContextFile) : Prop :=
  ∃ location text remaining, file.origin = some location ∧ tree.nodeAt location = some (.text text) ∧
    remaining ≤ packer.totalBudgetBytes ∧ file.content = shownText secrets packer text remaining ∧
    InsideRepo packer location ∧ ¬ IsSensitiveLocation packer location

def ConfinedPack (pack : ContextPack) : Prop :=
  ∀ file ∈ pack.files, file.source ≠ .explicitSnippet → Confined secrets tree packer file

def GitStatusCandidate.modifiedPath? : GitStatusCandidate → Option Str
  | modified path => some (normalizeDisplayPath path)
  | deleted _ | untracked _ => none

def modifiedPaths (gitStatus : GitStatus) : List Str :=
  match gitStatus packer.repoRoot with
  | .ok gitCandidates => gitCandidates.filterMap GitStatusCandidate.modifiedPath?
  | .error _ => []

def requestedPaths (gitStatus : GitStatus) (request : ContextPackRequest) : List Str :=
  request.explicitFiles ++ mentionedTaskPaths request.taskText ++
    if request.includeModifiedFiles then modifiedPaths packer gitStatus else []

def isPresent (path : Str) : Bool := packer.isInsideRepoLexically path && tree.exists? path

/-- A path that may be asked for, and the existing path it stands for: no name in either spelling is sensitive. -/
structure Admitted (requested path : Str) : Prop where
  nonempty : requested ≠ []
  staysBelow : isPathTraversal requested = false
  plain : isSensitivePath requested = false
  standsFor : (if isAbsolute requested then [requested] else packer.candidates requested).find?
    (isPresent tree packer) = some path
  plainDisplay : isSensitivePath (packer.displayPath path) = false

/-- A path with a harmless spelling leads to a sensitive text file of the repository, and the budgets leave something
of it. -/
def LeadsToSensitive (requested : Str) : Prop :=
  ∃ path location text, Admitted tree packer requested path ∧ tree.canonicalize path = some location ∧
    InsideRepo packer location ∧ IsSensitiveLocation packer location ∧ tree.nodeAt location = some (.text text) ∧
    '\x00' ∉ text ∧ shownText secrets packer text packer.totalBudgetBytes ≠ []

/-! ## Packs that keep to their budgets -/

/-- The text that a packed file was made from: the first snippet with its path, or what stood where it was read. -/
inductive SourceText (snippets : List ExplicitContextSnippet) (file : PackedContextFile) : Str → Prop
  | snippet {snippet : ExplicitContextSnippet} (source : file.source = .explicitSnippet)
      (first : snippets.find? (normalizeDisplayPath ·.path = file.path) = some snippet) :
      SourceText snippets file snippet.content
  | read {path text : Str} {location : AbsolutePathBuf} (source : file.source ≠ .explicitSnippet)
      (shown : file.path = packer.displayPath path) (origin : file.origin = some location)
      (read : tree.read path = some (location, .utf8 text)) : SourceText snippets file text

/-- The content is the front of the redacted text, as far as the budget of one file goes. -/
structure CutFrom (file : PackedContextFile) (text : Str) : Prop where
  fits : byteLen file.content ≤ packer.perFileBudgetBytes
  starts : file.content <+: (sanitizeOutputText secrets text).text
  marked : file.truncated = true ↔ byteLen file.content < byteLen (sanitizeOutputText secrets text).text

def contentBytes (files : List PackedContextFile) : Nat := (files.map (byteLen ·.content)).sum

def modifiedFiles (files : List PackedContextFile) : List PackedContextFile :=
  files.filter (·.source = .gitModified)

structure Accounted (snippets : List ExplicitContextSnippet) (pack : ContextPack) : Prop where
  total : contentBytes pack.files ≤ packer.totalBudgetBytes
  cut : ∀ file ∈ pack.files, ∃ text, SourceText tree packer snippets file text ∧ CutFrom secrets packer file text
  flagged : (∃ file ∈ pack.files, file.truncated = true) → pack.truncated = true
  distinct : (pack.files.map (·.path)).Nodup
  modified : pack.gitModifiedPaths = (modifiedFiles pack.files).map (·.path)
  capped : (modifiedFiles pack.files).length ≤ maxGitContextFiles

end Packs

/-! ## Diffs without sensitive files -/

/-- The part of a diff that is about one file. -/
structure DiffBlock where
  path : Str
  terminated : Bool
  body : List Str
  deriving DecidableEq

namespace DiffBlock

def lineEnd (block : DiffBlock) : Str := if block.terminated then ['\n'] else []

def header (block : DiffBlock) : Str :=
  diffGitMarker ++ ("a/".toList ++ block.path) ++ ' ' :: ("b/".toList ++ block.path) ++ block.lineEnd

def lines (block : DiffBlock) : List Str := block.header :: block.body

end DiffBlock

/-- Lines of any text, then the files. Only the last line may have no line feed. -/
structure DiffText where
  preamble : List Str
  blocks : List DiffBlock
  preamble_plain : ∀ line ∈ preamble, diffGitMarker.isPrefixOf line = false
  body_plain : ∀ block ∈ blocks, ∀ line ∈ block.body, diffGitMarker.isPrefixOf line = false
  path_noBreak : ∀ block ∈ blocks, '\n' ∉ block.path
  inclusive : InclusiveLines (preamble ++ blocks.flatMap DiffBlock.lines)

def DiffText.text (diff : DiffText) : Str := (diff.preamble ++ diff.blocks.flatMap DiffBlock.lines).flatten

def placeholder (shown : Str) : Str := "[REDACTED_SENSITIVE_FILE_DIFF path=\"".toList ++ shown ++ "\"]".toList

/-- One line stands for each sensitive file, the others are as they were. -/
inductive WithoutSensitive : List DiffBlock → Str → Prop
  | nil : WithoutSensitive [] []
  | sensitive {block : DiffBlock} {blocks : List DiffBlock} {shown rest : Str} (sensitive : isSensitivePath block.path = true)
      (noBreak : '\n' ∉ shown) (tail : WithoutSensitive blocks rest) :
      WithoutSensitive (block :: blocks) (placeholder shown ++ block.lineEnd ++ rest)
  | plain {block : DiffBlock} {blocks : List DiffBlock} {rest : Str} (plain : isSensitivePath block.path = false)
      (tail : WithoutSensitive blocks rest) : WithoutSensitive (block :: blocks) (block.lines.flatten ++ rest)

structure CleanlyRedacted (diff : DiffText) (output : SanitizedOutput) : Prop where
  text : ∃ rest, WithoutSensitive diff.blocks rest ∧ output.text = diff.preamble.flatten ++ rest
  changed : output.changed = true ↔ ∃ block ∈ diff.blocks, isSensitivePath block.path = true
  again : redactSensitiveDiffBlocks output.text = ⟨output.text, false⟩

/-- A word as a path: without quotes around it and one of git's prefixes, and with slashes. -/
def wordPath (word : Str) : Str :=
  let bare := trimMatches word (· == '"')
  replace (((stripPrefix "a/" bare) <|> (stripPrefix "b/" bare)).getD bare) ['\\'] ['/']

/-- The path up to the first white space with git's prefix, and the first word behind that. -/
def firstWords (path : Str) : List Str :=
  ("a/".toList ++ path.takeWhile fun c => !isWhitespace c) ::
    (splitWhitespace (path.dropWhile fun c => !isWhitespace c)).take 1

/-- The first words of the path are sensitive exactly if the path is. -/
def ShowsInFirstWords (path : Str) : Prop :=
  isSensitivePath path = true ↔ ∃ word ∈ firstWords path, isSensitivePath (wordPath word) = true

instance (path : Str) : Decidable (ShowsInFirstWords path) := inferInstanceAs (Decidable (_ ↔ _))

end Codrex.MinimaxDelegate
