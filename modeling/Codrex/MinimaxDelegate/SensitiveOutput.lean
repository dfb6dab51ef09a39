import Codrex.Lib.UnixPath

/-!
# Sensitive paths (`core/src/sensitive_output.rs`)

The names that mark a path as sensitive, and the text that is taken out of output because of them.
-/

namespace Codrex.MinimaxDelegate

open Text UnixPath

/-! ## Paths -/

/-- The lower case of a character. Of the letters outside ASCII only the two with ASCII letters in their lower
case are turned: the others never agree with a letter of the names below, in whatever case. -/
def lowerChar (c : Char) : Str :=
  if c = '\u212A' then ['k'] else if c = '\u0130' then ['i', '\u0307'] else [c.toLower]

def toLowercase (s : Str) : Str := s.flatMap lowerChar

def isSensitiveComponentName (component : Str) : Bool :=
  decide (component ∈ [".git".toList, "target".toList, "node_modules".toList, "vendor".toList]) ||
    component == ".env" || ".env.".toList.isPrefixOf component || component == "auth.json" ||
    contains component "credentials" || component == "id_rsa" || component == "id_ed25519" ||
    ".pem".toList.isSuffixOf component || ".key".toList.isSuffixOf component ||
    contains component "private_key" || contains component "private-key"

def isSensitivePath (path : Str) : Bool :=
  (components path).any fun
    | .normal value => isSensitiveComponentName (toLowercase value)
    | _ => false

def sensitiveSuffix : Bool → List Component → List Str
  | _, [] => []
  | capturing, .normal value :: rest =>
      if capturing || isSensitiveComponentName (toLowercase value) then value :: sensitiveSuffix true rest
      else sensitiveSuffix false rest
  | true, .curDir :: rest => ['.'] :: sensitiveSuffix true rest
  | true, .parentDir :: rest => ['.', '.'] :: sensitiveSuffix true rest
  | capturing, _ :: rest => sensitiveSuffix capturing rest

def sensitivePathDisplay (path : Str) : Option Str :=
  if isSensitivePath path then
    if isAbsolute path then
      let suffix := sensitiveSuffix false (components path)
      some (if suffix = [] then replace path ['\\'] ['/'] else ['/'].intercalate suffix)
    else some (replace path ['\\'] ['/'])
  else none

def firstSensitivePath (paths : List Str) : Option Str := paths.findSome? sensitivePathDisplay

theorem isSome_sensitivePathDisplay (path : Str) : (sensitivePathDisplay path).isSome = isSensitivePath path := by
  unfold sensitivePathDisplay
  split
  · rename_i h
    split
    · rw [h]
      rfl
    · rw [h]
      rfl
  · rename_i h
    rw [Bool.eq_false_iff.mpr h]
    rfl

theorem firstSensitivePath_eq_none {paths : List Str} :
    firstSensitivePath paths = none ↔ ∀ path ∈ paths, isSensitivePath path = false := by
  simp only [firstSensitivePath, List.findSome?_eq_none_iff, ← isSome_sensitivePathDisplay, Option.isSome_eq_false_iff,
    Option.isNone_iff_eq_none]

/-! ## Output -/

structure SanitizedOutput where
  text : Str
  changed : Bool
  deriving DecidableEq

def diffPathTokenToDisplayPath (token : Str) : Option Str :=
  let trimmed := trimMatches token (· == '"')
  let trimmed := ((stripPrefix "a/" trimmed) <|> (stripPrefix "b/" trimmed)).getD trimmed
  if trimmed = [] then none else some (replace trimmed ['\\'] ['/'])

def diffGitMarker : Str := "diff --git "

def sensitiveDiffBlockPath (line : Str) : Option Str :=
  if diffGitMarker.isPrefixOf line then
    match (splitWhitespace line).drop 2 with
    | lhs :: rhs :: _ => ([lhs, rhs].filterMap diffPathTokenToDisplayPath).find? isSensitivePath
    | _ => none
  else none

/-- The loop over the lines; the lines of a sensitive file are skipped up to the next file. -/
def redactLoop : Bool → List Str → SanitizedOutput
  | _, [] => ⟨[], false⟩
  | skipping, line :: rest =>
      if skipping && !diffGitMarker.isPrefixOf line then redactLoop true rest
      else match sensitiveDiffBlockPath line with
        | some path =>
            let newline := if line.getLast? = some '\n' ∨ rest ≠ [] then ['\n'] else []
            ⟨"[REDACTED_SENSITIVE_FILE_DIFF path=\"".toList ++ path ++ "\"]".toList ++ newline ++
              (redactLoop true rest).text, true⟩
        | none => ⟨line ++ (redactLoop false rest).text, (redactLoop false rest).changed⟩

def redactSensitiveDiffBlocks (input : Str) : SanitizedOutput := redactLoop false (splitInclusiveLines input)

/-- The redaction of secrets by patterns, which the `regex` and `codex_secrets` crates do. -/
structure SecretPatterns where
  redactSecretPatterns : Str → SanitizedOutput

/-- `Regex::replace_all` of the `regex` and the `regex_lite` crate, for a pattern, a replacement and a text. -/
structure RegexEngines where
  replaceAll : Str → Str → Str → Str
  replaceAllLite : Str → Str → Str → Str

def redactedSecretPlaceholder : Str := "[REDACTED_SECRET]"

/-- The patterns of `codex_secrets::redact_secrets`, in order. -/
def secretRegexes : List (Str × Str) :=
  [("sk-[A-Za-z0-9]\x7b20,\x7d", "[REDACTED_SECRET]"),
    ("\\bAKIA[0-9A-Z]\x7b16\x7d\\b", "[REDACTED_SECRET]"),
    ("(?i)\\bBearer\\s+[A-Za-z0-9._\\-]\x7b16,\x7d\\b", "Bearer [REDACTED_SECRET]"),
    ("(?i)\\b(api[_-]?key|token|secret|password)\\b(\\s*[:=]\\s*)([\"']?)[^\\s\"']\x7b8,\x7d",
      "$1$2$3[REDACTED_SECRET]")]

def redactionPatterns : List (Str × Str) :=
  [("\\b(OPENAI_API_KEY|MINIMAX_API_KEY|MINIMAX_CODING_PLAN_KEY)\\s*=\\s*[^\\s\"']+", "$1=[REDACTED_SECRET]"),
    ("(Authorization:\\s*Bearer\\s+)[A-Za-z0-9._-]+", "$\x7b1\x7d[REDACTED_SECRET]"),
    ("(\\b(?:api[_-]?key|token|secret|password)\\b\\s*[:=]\\s*)(?:\"[^\"]+\"|'[^']+'|[^\\s\"']+)",
      "$\x7b1\x7d[REDACTED_SECRET]"),
    ("\\bsk-[A-Za-z0-9_-]\x7b8,\x7d\\b", redactedSecretPlaceholder)]

def redactSecrets (engines : RegexEngines) (input : Str) : Str :=
  secretRegexes.foldl (fun text (pattern, replacement) => engines.replaceAll pattern replacement text) input

def RegexEngines.secretPatterns (engines : RegexEngines) : SecretPatterns where
  redactSecretPatterns input :=
    let updated := redactSecrets engines input
    redactionPatterns.foldl (fun output (pattern, replacement) =>
      let next := engines.replaceAllLite pattern replacement output.text
      if next ≠ output.text then ⟨next, true⟩ else output) ⟨updated, decide (updated ≠ input)⟩

def sanitizeOutputText (secrets : SecretPatterns) (text : Str) : SanitizedOutput :=
  let diffRedacted := redactSensitiveDiffBlocks text
  let secretRedacted := secrets.redactSecretPatterns diffRedacted.text
  ⟨secretRedacted.text, diffRedacted.changed || secretRedacted.changed⟩

example :
    (redactSensitiveDiffBlocks "diff --git a/.env b/.env\n-K=1\ndiff --git a/b b/b\n+x\n").text =
      "[REDACTED_SENSITIVE_FILE_DIFF path=\".env\"]\ndiff --git a/b b/b\n+x\n" := by decide

end Codrex.MinimaxDelegate
