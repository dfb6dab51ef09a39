import Mathlib.Data.List.Sort
import Codrex.FileSystem
import Codrex.MinimaxDelegate.ResponseParser

/-!
# The context of a delegation (`core/src/minimax_delegate/context_packer.rs`)

The files that go to a worker beside its task: those that the request lists or mentions, and those that git reports
as modified.
-/

namespace Codrex.MinimaxDelegate

open Text UnixPath

/-! ## Packs -/

structure ContextPackDiagnostics where
  messages : List Str
  deriving DecidableEq

structure PackedContextFile where
  path : Str
  content : Str
  truncated : Bool
  redacted : Bool
  source : MiniMaxContextFileSource
  /-- Where the content was read. The source has no such field, and nothing here decides by it. -/
  origin : Option AbsolutePathBuf
  deriving DecidableEq

structure ContextPack where
  files : List PackedContextFile
  gitModifiedPaths : List Str
  diagnostics : ContextPackDiagnostics
  truncated : Bool
  deriving DecidableEq

def ContextPack.default : ContextPack := ⟨[], [], ⟨[]⟩, false⟩

structure ExplicitContextSnippet where
  path : Str
  content : Str
  deriving DecidableEq

structure ContextPackRequest where
  explicitFiles : List Str
  explicitSnippets : List ExplicitContextSnippet
  taskText : Str
  includeModifiedFiles : Bool
  deriving DecidableEq

inductive ContextCandidateSource
  | explicitFile
  | explicitSnippet
  | taskMention
  | gitModified
  deriving DecidableEq

namespace ContextCandidateSource

def omittedMessage (source : ContextCandidateSource) (path reason : Str) : Str :=
  match source with
  | gitModified => "omitted git modified file ".toList ++ path ++ ": ".toList ++ reason
  | explicitFile | explicitSnippet | taskMention => "omitted ".toList ++ path ++ ": ".toList ++ reason

def isGitModified (source : ContextCandidateSource) : Bool := source == gitModified

def contextFileSource : ContextCandidateSource → MiniMaxContextFileSource
  | explicitFile => .explicitFile
  | explicitSnippet => .explicitSnippet
  | taskMention => .taskMention
  | gitModified => .gitModified

end ContextCandidateSource

def takeBytesAtCharBoundary (s : Str) (maxb : Nat) : Str := if byteLen s ≤ maxb then s else fittingChars s maxb

def normalizeDisplayPath (path : Str) : Str := replace path ['\\'] ['/']

def isPathTraversal (path : Str) : Bool := decide (Component.parentDir ∈ components path)

def isDeniedPath (path : Str) : Bool := isSensitivePath path

def pushDiag (diagnostics : List Str) (message : Str) : List Str :=
  if message ∈ diagnostics then diagnostics else diagnostics ++ [message]

namespace ContextPack

def pushDiag (pack : ContextPack) (message : Str) : ContextPack :=
  { pack with diagnostics := ⟨MinimaxDelegate.pushDiag pack.diagnostics.messages message⟩ }

def markTotalBudgetExhausted (pack : ContextPack) : ContextPack :=
  { pack with truncated := true }.pushDiag "context truncated: exceeded total budget"

end ContextPack

structure Packing where
  pack : ContextPack
  seen : List Str
  remaining : Nat

namespace Packing

def pushDiag (state : Packing) (message : Str) : Packing := { state with pack := state.pack.pushDiag message }

def markTotalBudgetExhausted (state : Packing) : Packing :=
  { state with pack := state.pack.markTotalBudgetExhausted }

def omitAll (state : Packing) (paths : List Str) (reason : Str) : Packing :=
  paths.foldl (fun state path => state.pushDiag (ContextCandidateSource.gitModified.omittedMessage path reason)) state

def insertSeen (state : Packing) (path : Str) : Packing := { state with seen := state.seen ++ [path] }

@[simp] theorem insertSeen_remaining (state : Packing) (path : Str) :
    (state.insertSeen path).remaining = state.remaining := rfl

end Packing

def addContextEntry (secrets : SecretPatterns) (state : Packing) (path content : Str) (perFileBudgetBytes : Nat)
    (source : ContextCandidateSource) (origin : Option AbsolutePathBuf) : Packing × Bool :=
  if state.remaining = 0 then (state.markTotalBudgetExhausted, false)
  else
    let redactedContent := sanitizeOutputText secrets content
    let redacted := redactedContent.changed
    let pack := if redacted then state.pack.pushDiag ("redacted potential secret in ".toList ++ path) else state.pack
    let perFileContent := takeBytesAtCharBoundary redactedContent.text perFileBudgetBytes
    let truncated := decide (byteLen perFileContent < byteLen redactedContent.text)
    let pack :=
      if truncated then
        { pack.pushDiag ("context file ".toList ++ path ++ " truncated at ".toList ++
            Nat.toDigits 10 perFileBudgetBytes ++ " bytes".toList) with truncated := true }
      else pack
    let totalContent := takeBytesAtCharBoundary perFileContent state.remaining
    let cut := decide (byteLen totalContent < byteLen perFileContent)
    let pack := if cut then pack.markTotalBudgetExhausted else pack
    let consumed := byteLen totalContent
    let remaining := state.remaining - consumed
    if consumed = 0 then ({ state with pack := pack, remaining := remaining }, false)
    else
      let file := ⟨path, totalContent, truncated || cut, redacted, source.contextFileSource, origin⟩
      ({ state with pack := { pack with files := pack.files ++ [file] }, remaining := remaining }, true)

/-! ## Paths in the text of a task -/

def isPathChar (c : Char) : Bool := c.isAlphanum || c == '.' || c == '_' || c == '-'

/-- The regular expression `^\.?/?[A-Za-z0-9._-]+(?:/[A-Za-z0-9._-]+)+$`. Only the slash at the front makes a
difference: what a leading dot can match, the first name matches too. -/
def looksLikePath (token : Str) : Bool :=
  let names := ((stripPrefix ['/'] token).getD token).splitOn '/'
  decide (2 ≤ names.length) && names.all fun name => name ≠ [] && name.all isPathChar

def isTokenDelimiter (ch : Char) : Bool :=
  decide (ch ∈ ['`', '"', '\'', '(', ')', '[', ']', '{', '}', ',', ':', ';', '<', '>'])

def taskToken (raw : Str) : Str :=
  (((trimMatches raw isTokenDelimiter).rdropWhile (· == '?')).rdropWhile (· == '!')).rdropWhile (· == '.')

def mentionedTaskPathsLoop : List Str → List Str → List Str
  | paths, [] => paths
  | paths, raw :: rest =>
      let token := taskToken raw
      if token = [] || contains token "://" then mentionedTaskPathsLoop paths rest
      else if !looksLikePath token then mentionedTaskPathsLoop paths rest
      else
        let normalized := normalizeDisplayPath token
        mentionedTaskPathsLoop (if normalized ∈ paths then paths else paths ++ [normalized]) rest

def mentionedTaskPaths (taskText : Str) : List Str := mentionedTaskPathsLoop [] (splitWhitespace taskText)

example : mentionedTaskPaths "see `src/a.rs`, ./b/c! http://x/y and (src/a.rs)." = ["src/a.rs".toList, "./b/c"] := by
  decide

/-! ## The repository -/

/-- `find_ancestor_git_entry` of `git-utils`. Each turn takes a component away. -/
def findAncestorGitEntry (tree : FileTree) : Nat → Str → Option Str
  | 0, _ => none
  | turns + 1, dir =>
      if tree.exists? (join dir ".git") then some dir else (parent dir).bind (findAncestorGitEntry tree turns)

def getGitRepoRoot (tree : FileTree) (baseDir : Str) : Option Str :=
  (if tree.isDir baseDir then some baseDir else parent baseDir).bind fun base =>
    findAncestorGitEntry tree ((components base).length + 1) base

def canonicalOr (tree : FileTree) (path : Str) : Str := ((tree.canonicalize path).map (·.toPath)).getD path

structure ContextPacker where
  cwd : Str
  repoRoot : Str
  repoRootCanonical : Str
  totalBudgetBytes : Nat
  perFileBudgetBytes : Nat

inductive PathResolution
  | resolved (absolutePath displayPath : Str)
  | denied (displayPath : Str)
  | outsideRepo (displayPath : Str)
  | missing (displayPath : Str)
  deriving DecidableEq

def PathResolution.displayPath : PathResolution → Str
  | resolved _ displayPath | denied displayPath | outsideRepo displayPath | missing displayPath => displayPath

namespace ContextPacker

def new (tree : FileTree) (cwd : Str) (totalBudgetBytes perFileBudgetBytes : Nat) : ContextPacker :=
  let repoRoot := (getGitRepoRoot tree cwd).getD cwd
  ⟨cwd, repoRoot, canonicalOr tree repoRoot, totalBudgetBytes, perFileBudgetBytes⟩

def displayPath (packer : ContextPacker) (path : Str) : Str :=
  normalizeDisplayPath ((stripBase path packer.repoRoot).getD path)

def isInsideRepoLexically (packer : ContextPacker) (path : Str) : Bool := startsWith path packer.repoRoot

def resolveAbsolutePath (packer : ContextPacker) (tree : FileTree) (requested : Str) : PathResolution :=
  let displayPath := packer.displayPath requested
  if isDeniedPath requested || isDeniedPath displayPath then .denied displayPath
  else if !packer.isInsideRepoLexically requested then .outsideRepo displayPath
  else if !tree.exists? requested then .missing displayPath
  else if !startsWith (canonicalOr tree requested) packer.repoRootCanonical then .outsideRepo displayPath
  else .resolved requested displayPath

def candidates (packer : ContextPacker) (requested : Str) : List Str :=
  let cwdRelative := join packer.cwd requested
  let repoRelative := join packer.repoRoot requested
  if components repoRelative ≠ components cwdRelative then [cwdRelative, repoRelative] else [cwdRelative]

/-- One turn of the loop over the candidates, unless it goes on. -/
def resolveCandidate (packer : ContextPacker) (tree : FileTree) (candidate : Str) : Option PathResolution :=
  if !packer.isInsideRepoLexically candidate then none
  else if !tree.exists? candidate then none
  else
    let displayPath := packer.displayPath candidate
    if isDeniedPath displayPath then some (.denied displayPath)
    else if !startsWith (canonicalOr tree candidate) packer.repoRootCanonical then some (.outsideRepo displayPath)
    else some (.resolved candidate displayPath)

def resolvePath (packer : ContextPacker) (tree : FileTree) (requested : Str) : PathResolution :=
  if requested = [] then .missing requested
  else if isPathTraversal requested then .outsideRepo (requested ++ " (path traversal)".toList)
  else if isAbsolute requested then packer.resolveAbsolutePath tree requested
  else if isDeniedPath requested then .denied requested
  else match (packer.candidates requested).findSome? (packer.resolveCandidate tree) with
    | some resolution => resolution
    | none =>
        if (packer.candidates requested).any packer.isInsideRepoLexically then .missing requested
        else .outsideRepo requested

/-! ## Packing -/

end ContextPacker

inductive GitStatusCandidate
  | modified (path : Str)
  | deleted (path : Str)
  | untracked (path : Str)
  deriving DecidableEq

/-- What `git status` reports for a repository, as `git_status.rs` reads it. -/
abbrev GitStatus := Str → Except Str (List GitStatusCandidate)

def maxGitContextFiles : Nat := 5

structure GitPaths where
  modified : List Str
  deleted : List Str
  untracked : List Str
  deriving DecidableEq

/-- The loop over the candidates, which takes each path once. -/
def gitPathsLoop (seen : List Str) : List GitStatusCandidate → List Str → GitPaths → GitPaths
  | [], _, found => found
  | candidate :: rest, gitSeen, found =>
      let (path, pushed) := match candidate with
        | .modified path =>
            let path := normalizeDisplayPath path
            (path, { found with modified := found.modified ++ [path] })
        | .deleted path =>
            let path := normalizeDisplayPath path
            (path, { found with deleted := found.deleted ++ [path] })
        | .untracked path =>
            let path := normalizeDisplayPath path
            (path, { found with untracked := found.untracked ++ [path] })
      if path ∈ seen ∨ path ∈ gitSeen then gitPathsLoop seen rest gitSeen found
      else gitPathsLoop seen rest (gitSeen ++ [path]) pushed

/-- `Vec::sort` on strings: by code points, which UTF-8 keeps in order. -/
def sortPaths (paths : List Str) : List Str := paths.insertionSort fun a b => ¬ b < a

namespace ContextPacker

section Packing

variable (packer : ContextPacker) (secrets : SecretPatterns) (tree : FileTree)

def packFileCandidate (requested : Str) (source : ContextCandidateSource) (state : Packing) : Packing :=
  let resolution := packer.resolvePath tree requested
  let dedupeKey := normalizeDisplayPath resolution.displayPath
  if dedupeKey ∈ state.seen then state
  else
    let state := state.insertSeen dedupeKey
    if state.remaining = 0 then
      state.markTotalBudgetExhausted.pushDiag (source.omittedMessage resolution.displayPath "budget exhausted")
    else match resolution with
      | .resolved absolutePath displayPath =>
          match tree.read absolutePath with
          | none => state.pushDiag (source.omittedMessage displayPath "file missing")
          | some (_, .other) => state.pushDiag (source.omittedMessage displayPath "binary/non-utf8")
          | some (origin, .utf8 content) =>
              if '\x00' ∈ content then state.pushDiag (source.omittedMessage displayPath "binary/non-utf8")
              else
                let (state, added) :=
                  addContextEntry secrets state displayPath content packer.perFileBudgetBytes source (some origin)
                if added && source.isGitModified then
                  { state with pack :=
                      { state.pack with gitModifiedPaths := state.pack.gitModifiedPaths ++ [displayPath] } }
                else state
      | .denied displayPath => state.pushDiag (source.omittedMessage displayPath "denied path")
      | .outsideRepo displayPath => state.pushDiag (source.omittedMessage displayPath "outside repo")
      | .missing displayPath => state.pushDiag (source.omittedMessage displayPath "file missing")

def packSnippets : List ExplicitContextSnippet → Packing → Packing
  | [], state => state
  | snippet :: rest, state =>
      let normalizedPath := normalizeDisplayPath snippet.path
      if normalizedPath ∈ state.seen then packSnippets rest state
      else
        let state := state.insertSeen normalizedPath
        if isPathTraversal normalizedPath then
          packSnippets rest
            (state.pushDiag ("omitted ".toList ++ snippet.path ++ ": outside repo (path traversal)".toList))
        else if isDeniedPath normalizedPath then
          packSnippets rest (state.pushDiag ("omitted ".toList ++ snippet.path ++ ": denied path".toList))
        else if state.remaining = 0 then state.markTotalBudgetExhausted
        else
          let (state, added) := addContextEntry secrets state normalizedPath snippet.content
            packer.perFileBudgetBytes .explicitSnippet none
          if !added && state.remaining == 0 then state else packSnippets rest state

def packFiles (source : ContextCandidateSource) : List Str → Packing → Packing
  | [], state => state
  | path :: rest, state =>
      if state.remaining = 0 then state.markTotalBudgetExhausted
      else packFiles source rest (packFileCandidate packer secrets tree path source state)

/-- The loop over the modified files; `index` counts them. -/
def packModified : Nat → List Str → Packing → Packing
  | _, [], state => state
  | index, path :: rest, state =>
      packModified (index + 1) rest
        (if maxGitContextFiles ≤ index then
          state.pushDiag (ContextCandidateSource.gitModified.omittedMessage path "max git context files exceeded")
        else packFileCandidate packer secrets tree path .gitModified state)

def packGitModifiedFiles (gitStatus : GitStatus) (state : Packing) : Packing :=
  match gitStatus packer.repoRoot with
  | .error reason => state.pushDiag ("git status unavailable: ".toList ++ reason)
  | .ok gitCandidates =>
      let found := gitPathsLoop state.seen gitCandidates [] ⟨[], [], []⟩
      let state := state.omitAll (sortPaths found.deleted) "deleted file"
      let state := state.omitAll (sortPaths found.untracked) "untracked file"
      packModified packer secrets tree 0 (sortPaths found.modified) state

def packWithRequest (gitStatus : GitStatus) (request : ContextPackRequest) : ContextPack :=
  let state := packSnippets packer secrets request.explicitSnippets ⟨.default, [], packer.totalBudgetBytes⟩
  let state := packFiles packer secrets tree .explicitFile request.explicitFiles state
  let state := packFiles packer secrets tree .taskMention (mentionedTaskPaths request.taskText) state
  if request.includeModifiedFiles then (packGitModifiedFiles packer secrets tree gitStatus state).pack else state.pack

def pack (gitStatus : GitStatus) (explicitFiles : List Str) (explicitSnippets : List ExplicitContextSnippet)
    (taskText : Str) : ContextPack :=
  packWithRequest packer secrets tree gitStatus ⟨explicitFiles, explicitSnippets, taskText, false⟩

end Packing

end ContextPacker

end Codrex.MinimaxDelegate
