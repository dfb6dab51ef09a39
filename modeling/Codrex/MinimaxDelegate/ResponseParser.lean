import Codrex.ApplyPatch.Apply
import Codrex.MinimaxDelegate.SensitiveOutput

/-!
# Worker responses (`core/src/minimax_delegate/response_parser.rs`)

The text of a worker is read as one JSON object, and the patch in it is taken out of its wrappers and compared
with the worktree.
-/

namespace Codrex.MinimaxDelegate

open Text Fallible ApplyPatch

inductive MiniMaxDelegationStatus
  | completed
  | clarify
  | invalid
  deriving DecidableEq

inductive WorkerPatchFormat
  | applyPatch
  | unifiedDiff
  deriving DecidableEq

def WorkerPatchFormat.asStr : WorkerPatchFormat → Str
  | applyPatch => "apply_patch"
  | unifiedDiff => "unified_diff"

inductive MiniMaxContextFileSource
  | explicitFile
  | explicitSnippet
  | taskMention
  | gitModified
  deriving DecidableEq

structure MiniMaxContextFile where
  path : Str
  source : MiniMaxContextFileSource
  truncated : Bool
  redacted : Bool
  deriving DecidableEq

structure MiniMaxContextSummary where
  includedFiles : List MiniMaxContextFile
  omittedCount : Nat
  deriving DecidableEq

structure MiniMaxDelegationResult where
  status : MiniMaxDelegationStatus
  format : Option WorkerPatchFormat
  summary : Option Str
  patch : Option Str
  question : Option Str
  error : Option Str
  diagnostics : List Str
  contextSummary : Option MiniMaxContextSummary
  deriving DecidableEq

namespace MiniMaxDelegationResult

def ofCompleted (format : WorkerPatchFormat) (summary patch : Str) (diagnostics : List Str)
    (contextSummary : Option MiniMaxContextSummary) : MiniMaxDelegationResult :=
  ⟨.completed, some format, some summary, some patch, none, none, diagnostics, contextSummary⟩

def ofClarify (question : Str) (diagnostics : List Str) (contextSummary : Option MiniMaxContextSummary) :
    MiniMaxDelegationResult :=
  ⟨.clarify, none, none, none, some question, none, diagnostics, contextSummary⟩

def invalidWithContextSummary (message : Str) (diagnostics : List Str)
    (contextSummary : Option MiniMaxContextSummary) : MiniMaxDelegationResult :=
  ⟨.invalid, none, none, none, none, some message, diagnostics, contextSummary⟩

end MiniMaxDelegationResult

structure RawWorkerResponse where
  status : MiniMaxDelegationStatus
  format : Option WorkerPatchFormat
  summary : Option Str
  patch : Option Str
  patchLines : Option (List Str)
  question : Option Str
  error : Option Str
  diagnostics : List Str
  deriving DecidableEq

/-- What `serde_json` reads: a `RawWorkerResponse`, and whether a text is an object. -/
structure WorkerJson where
  fromStr : Str → Option RawWorkerResponse
  isObject : Str → Bool

/-! ## Wrappers -/

def fence : Str := "```"

def stripMarkdownFence (text : Str) : Option Str :=
  let trimmed := trim text
  if fence.isPrefixOf trimmed then
    match find ['\n'] trimmed, rfind ['\n'] trimmed with
    | some firstNewline, some lastNewline =>
        if lastNewline ≤ firstNewline then none
        else if trim (trimmed.drop (lastNewline + 1)) = fence then
          some ((trimmed.take lastNewline).drop (firstNewline + 1))
        else none
    | _, _ => none
  else none

/-- The number of characters up to the brace that closes the first one. -/
def balancedEnd : Str → Nat → Bool → Bool → Option Nat
  | [], _, _, _ => none
  | _ :: s, depth, true, true => (balancedEnd s depth true false).map (· + 1)
  | ch :: s, depth, true, false =>
      (balancedEnd s depth (ch ≠ '"') (ch = '\\')).map (· + 1)
  | ch :: s, depth, false, escaped =>
      if ch = '"' then (balancedEnd s depth true escaped).map (· + 1)
      else if ch = '{' then (balancedEnd s (depth + 1) false escaped).map (· + 1)
      else if ch = '}' then
        if depth - 1 = 0 then some 1 else (balancedEnd s (depth - 1) false escaped).map (· + 1)
      else (balancedEnd s depth false escaped).map (· + 1)

attribute [local simp] balancedEnd

def findBalancedJsonObjectEnd (text : Str) : Option Nat := balancedEnd text 0 false false

/-- The objects in a text, from the left. Each turn takes a character at least. -/
def jsonObjects (json : WorkerJson) : Nat → Str → List Str
  | 0, _ => []
  | _ + 1, [] => []
  | fuel + 1, ch :: s =>
      if ch ≠ '{' then jsonObjects json fuel s
      else match findBalancedJsonObjectEnd (ch :: s) with
        | none => []
        | some stop =>
            let candidate := (ch :: s).take stop
            (if json.isObject candidate then [candidate] else []) ++ jsonObjects json fuel ((ch :: s).drop stop)

attribute [local simp] jsonObjects

def extractSingleJsonObject (json : WorkerJson) (text : Str) : Except Str (Option Str) :=
  match jsonObjects json (text.length + 1) text with
  | [] => .ok none
  | [object] => .ok (some object)
  | _ => .error "ambiguous_worker_output: multiple JSON objects found"

def heredocCall : Str := "apply_patch <<"

def slice (text : Str) (start stop : Nat) : MayPanic Str :=
  if start ≤ stop ∧ stop ≤ text.length then some ((text.take stop).drop start) else none

def extractWrappedApplyPatch (text : Str) : MayPanic (Option (Str × Str)) :=
  if matchCount text beginPatchMarker ≠ 1 ∨ matchCount text endPatchMarker ≠ 1 then some none
  else match find beginPatchMarker text, rfind endPatchMarker text with
    | some beginIndex, some endIndex =>
        let endOffset := endIndex + endPatchMarker.length
        if trim (text.take beginIndex) = [] ∧ trim (text.drop endOffset) = [] then some none
        else
          let diagnostic : Str :=
            if contains text heredocCall then "normalized worker patch: extracted apply_patch heredoc"
            else "normalized worker patch: extracted patch body"
          -- An end marker in front of the begin marker makes this slice panic.
          (slice text beginIndex endOffset).map fun body => some (body, diagnostic)
    | _, _ => some none

def looksLikeUnifiedDiff (text : Str) : Bool :=
  contains text "diff --git" || (contains text "--- " && contains text "+++ ")

def detectRawPatchFormat (text : Str) : Option WorkerPatchFormat :=
  if contains text beginPatchMarker || contains text updateFileMarker || contains text addFileMarker ||
      contains text deleteFileMarker || contains text heredocCall then some .applyPatch
  else if looksLikeUnifiedDiff text then some .unifiedDiff
  else none

/-! ## Normalization -/

structure NormalizedText where
  text : Str
  diagnostics : List Str
  deriving DecidableEq

structure ResolvedPatchSource where
  patch : Str
  diagnostics : List Str
  deriving DecidableEq

structure NormalizationFailure where
  error : Str
  diagnostics : List Str
  deriving DecidableEq

section

variable (secrets : SecretPatterns) (json : WorkerJson)

def sanitizeMetadata (text : Str) : Str := (sanitizeOutputText secrets text).text

def sanitizeDiagnostics (items : List Str) : List Str := items.map (sanitizeMetadata secrets)

def normalizeLineEndings (text diagnostic : Str) : Str × List Str :=
  if contains text ['\r', '\n'] then (replace text ['\r', '\n'] ['\n'], [diagnostic]) else (text, [])

def normalizeFence (text diagnostic : Str) : Str × List Str :=
  match stripMarkdownFence text with
  | some stripped => (trim stripped, [diagnostic])
  | none => (text, [])

def normalizeWorkerOutput (output : Str) : Except NormalizationFailure NormalizedText :=
  let (text, endings) := normalizeLineEndings (trim output) "normalized worker response: normalized line endings"
  let (text, fenced) := normalizeFence text "normalized worker response: stripped markdown fence"
  let diagnostics := endings ++ fenced
  match extractSingleJsonObject json text with
  | .ok (some extracted) =>
      if extracted ≠ text then
        .ok ⟨extracted, diagnostics ++ ["normalized worker response: extracted single JSON object".toList]⟩
      else .ok ⟨text, diagnostics⟩
  | .ok none => .ok ⟨text, diagnostics⟩
  | .error error => .error ⟨error, diagnostics⟩

def joinedPatchLines : List Str := ["normalized worker patch: joined patch_lines into patch string"]

def resolvePatchSource (patch : Option Str) (patchLines : Option (List Str)) :
    Except NormalizationFailure ResolvedPatchSource :=
  match patch, patchLines with
  | some patch, some patchLines =>
      if trim patch ≠ [] then
        .ok ⟨patch, ["normalized worker patch: ignored patch_lines because patch string was also provided".toList]⟩
      else if patchLines ≠ [] then .ok ⟨joinLines patchLines, joinedPatchLines⟩
      else .error ⟨"invalid_completed_response: missing patch", []⟩
  | some patch, none =>
      if trim patch ≠ [] then .ok ⟨patch, []⟩ else .error ⟨"invalid_completed_response: missing patch", []⟩
  | none, some patchLines =>
      if patchLines ≠ [] then .ok ⟨joinLines patchLines, joinedPatchLines⟩
      else .error ⟨"invalid_completed_response: missing patch", []⟩
  | none, none => .error ⟨"invalid_completed_response: missing patch", []⟩

def mapApplyPatchParseError : ParseError → Str
  | .invalidPatchError message =>
      if contains message "first line of the patch must be '*** Begin Patch'" then
        "invalid_apply_patch_format: missing *** Begin Patch"
      else if contains message "last line of the patch must be '*** End Patch'" then
        "invalid_apply_patch_format: missing *** End Patch"
      else "invalid_apply_patch_format: ".toList ++ sanitizeMetadata secrets message
  | .invalidHunkError message _ =>
      if contains message "'--- " then
        "invalid_apply_patch_format: patch looks like unified diff, not apply_patch"
      else if contains message "not a valid hunk header" then
        "invalid_apply_patch_format: malformed hunk header"
      else "invalid_apply_patch_format: ".toList ++ sanitizeMetadata secrets message

/-- The loop that takes the wrappers off a patch. A turn that goes on leaves a shorter text, so the length of
the text bounds the turns. -/
def unwrapLoop : Nat → Str → List Str → MayPanic (Str × List Str)
  | 0, text, diagnostics => some (text, diagnostics)
  | fuel + 1, text, diagnostics =>
      match stripMarkdownFence text with
      | some stripped =>
          unwrapLoop fuel (trim stripped) (diagnostics ++ ["normalized worker patch: stripped markdown fence".toList])
      | none =>
          match extractWrappedApplyPatch text with
          | some (some (extracted, diagnostic)) => unwrapLoop fuel (trim extracted) (diagnostics ++ [diagnostic])
          | some none => some (text, diagnostics)
          | none => none

attribute [local simp] unwrapLoop

def checkApplyPatchText (text : Str) (diagnostics : List Str) : Except NormalizationFailure ResolvedPatchSource :=
  if looksLikeUnifiedDiff text then
    .error ⟨"invalid_apply_patch_format: patch looks like unified diff, not apply_patch", diagnostics⟩
  else if contains text fence then
    .error ⟨"invalid_apply_patch_format: patch contains markdown fence", diagnostics⟩
  else if contains text heredocCall then
    .error ⟨"invalid_apply_patch_format: patch contains apply_patch heredoc wrapper", diagnostics⟩
  else match parsePatch text with
    | .ok parsed =>
        if parsed.hunks.isEmpty then
          .error ⟨"invalid_apply_patch_format: patch contained no file operations", diagnostics⟩
        else .ok ⟨text, diagnostics⟩
    | .error error => .error ⟨mapApplyPatchParseError secrets error, diagnostics⟩

def normalizeApplyPatchText (patch : Str) : MayPanic (Except NormalizationFailure ResolvedPatchSource) :=
  let (text, diagnostics) :=
    normalizeLineEndings (trim patch) "normalized worker patch: normalized line endings"
  (unwrapLoop (text.length + 1) text diagnostics).map fun (text, diagnostics) =>
    checkApplyPatchText secrets text diagnostics

def normalizeUnifiedDiffText (patch : Str) : Except NormalizationFailure ResolvedPatchSource :=
  let (text, endings) := normalizeLineEndings (trim patch) "normalized worker patch: normalized line endings"
  let (text, fenced) := normalizeFence text "normalized worker patch: stripped markdown fence"
  if looksLikeUnifiedDiff text then .ok ⟨text, endings ++ fenced⟩
  else .error ⟨"invalid_unified_diff_format: expected diff --git, ---/+++, or @@ markers", endings ++ fenced⟩

def normalizePatchForFormat (format : WorkerPatchFormat) (patch : Str) :
    MayPanic (Except NormalizationFailure ResolvedPatchSource) :=
  match format with
  | .applyPatch => normalizeApplyPatchText secrets patch
  | .unifiedDiff => some (normalizeUnifiedDiffText patch)

/-! ## The response -/

def clarifyPrefix : Str := "CLARIFY:"

def trimmedMetadata (field : Option Str) : Str := trim (sanitizeMetadata secrets (trim (field.getD [])))

def completedPatch (response : RawWorkerResponse) (format : WorkerPatchFormat) :
    MayPanic (Except NormalizationFailure ResolvedPatchSource) :=
  match resolvePatchSource response.patch response.patchLines with
  | .error error => some (.error error)
  | .ok source =>
      (normalizePatchForFormat secrets format source.patch).map fun
        | .ok normalized => .ok ⟨normalized.patch, source.diagnostics ++ normalized.diagnostics⟩
        | .error error => .error ⟨error.error, source.diagnostics ++ error.diagnostics⟩

def readCompleted (response : RawWorkerResponse) (diagnostics : List Str)
    (contextSummary : Option MiniMaxContextSummary) : MayPanic MiniMaxDelegationResult :=
  match response.format with
  | none =>
      some (.invalidWithContextSummary "invalid_completed_response: missing format" diagnostics contextSummary)
  | some format =>
      let summary := trimmedMetadata secrets response.summary
      if summary = [] then
        some (.invalidWithContextSummary "invalid_completed_response: missing summary" diagnostics contextSummary)
      else
        (completedPatch secrets response format).map fun
          | .ok patch => .ofCompleted format summary patch.patch (diagnostics ++ patch.diagnostics) contextSummary
          | .error error =>
              .invalidWithContextSummary error.error (diagnostics ++ error.diagnostics) contextSummary

def readResponse (response : RawWorkerResponse) (diagnostics : List Str)
    (contextSummary : Option MiniMaxContextSummary) : MayPanic MiniMaxDelegationResult :=
  match response.status with
  | .completed => readCompleted secrets response diagnostics contextSummary
  | .clarify =>
      let question := trimmedMetadata secrets response.question
      if question = [] then
        some (.invalidWithContextSummary "invalid_clarify_response: missing question" diagnostics contextSummary)
      else some (.ofClarify question diagnostics contextSummary)
  | .invalid =>
      let error := trimmedMetadata secrets response.error
      some (.invalidWithContextSummary (if error = [] then "invalid_worker_response: missing error" else error)
        diagnostics contextSummary)

def parseDelegateOutput (output : Str) (contextDiagnostics : List Str)
    (contextSummary : Option MiniMaxContextSummary) : MayPanic MiniMaxDelegationResult :=
  let diagnostics := sanitizeDiagnostics secrets contextDiagnostics
  if trim output = [] then
    some (.invalidWithContextSummary "worker_response_not_json: empty response" diagnostics contextSummary)
  else match stripPrefix clarifyPrefix (trim output) with
    | some question =>
        some (.ofClarify (trim (sanitizeMetadata secrets (trim question))) diagnostics contextSummary)
    | none =>
        match normalizeWorkerOutput json output with
        | .error error =>
            some (.invalidWithContextSummary error.error (diagnostics ++ error.diagnostics) contextSummary)
        | .ok normalized =>
            let diagnostics := diagnostics ++ normalized.diagnostics
            match json.fromStr normalized.text with
            | some response =>
                readResponse secrets response (diagnostics ++ sanitizeDiagnostics secrets response.diagnostics)
                  contextSummary
            | none =>
                let raw := (detectRawPatchFormat normalized.text).map fun format =>
                  "worker returned raw ".toList ++ format.asStr ++ " patch instead of JSON".toList
                some (.invalidWithContextSummary
                  "worker_response_not_json: expected JSON object with status completed/clarify/invalid"
                  (diagnostics ++ raw.toList) contextSummary)

/-! ## The worktree -/

def invalidFromCompletedResult (result : MiniMaxDelegationResult) (error : Str) (diagnostic : Option Str) :
    MiniMaxDelegationResult :=
  { result with
    status := .invalid
    format := none
    summary := none
    patch := none
    question := none
    error := some (sanitizeMetadata secrets error)
    diagnostics := result.diagnostics ++ (diagnostic.map (sanitizeMetadata secrets)).toList }

def pathsFromHunks (hunks : List Hunk) : List Str :=
  hunks.flatMap fun
    | .addFile path _ => [path]
    | .deleteFile path => [path]
    | .updateFile path movePath _ => path :: movePath.toList

def firstUpdatePath (hunks : List Hunk) : Option Str :=
  hunks.findSome? fun
    | .updateFile path _ _ => some path
    | _ => none

def mapApplicabilityError (hunks : List Hunk) (error : ApplyPatchError) : Str :=
  let path := (firstUpdatePath hunks).getD "patch target"
  match error with
  | .computeReplacements _ => "patch_not_applicable: context did not match ".toList ++ path
  | .ioError .. =>
      if contains error.display "No such file or directory" then
        "patch_not_applicable: update target ".toList ++ path ++ " does not exist".toList
      else "patch_not_applicable: could not read ".toList ++ path
  | .parseError error => mapApplyPatchParseError secrets error
  | .implicitInvocation => "invalid_apply_patch_format: patch could not be parsed as apply_patch"

variable {σ : Type} (inv : InvocationEnv) (env : HostEnv) (fs : ExecutorFileSystem σ) (worktree : σ)

def validateApplyPatch (result : MiniMaxDelegationResult) (patch cwd : Str) : MiniMaxDelegationResult :=
  match parsePatch patch with
  | .error error => invalidFromCompletedResult secrets result (mapApplyPatchParseError secrets error) none
  | .ok parsed =>
      match firstSensitivePath (pathsFromHunks parsed.hunks) with
      | some path =>
          invalidFromCompletedResult secrets result
            ("blocked_sensitive_patch: patch modifies sensitive path ".toList ++ path) none
      | none =>
          match AbsolutePathBuf.fromAbsolutePath env cwd with
          | none =>
              invalidFromCompletedResult secrets result
                "patch_not_applicable: current working directory is not absolute" none
          | some cwd =>
              match maybeParseApplyPatchVerified inv env fs cwd worktree ["apply_patch".toList, patch] with
              | .body _ => result
              | .correctnessError error =>
                  let message := mapApplicabilityError secrets parsed.hunks error
                  invalidFromCompletedResult secrets result message (some message)
              | .shellParseError _ | .notApplyPatch =>
                  invalidFromCompletedResult secrets result
                    "invalid_apply_patch_format: patch could not be parsed as apply_patch" none

def validateDelegateResultAgainstWorktree (result : MiniMaxDelegationResult) (cwd : Str) :
    MiniMaxDelegationResult :=
  if result.status ≠ .completed ∨ result.format ≠ some .applyPatch then result
  else match result.patch with
    | none => result
    | some patch => validateApplyPatch secrets inv env fs worktree result patch cwd

end

end Codrex.MinimaxDelegate
