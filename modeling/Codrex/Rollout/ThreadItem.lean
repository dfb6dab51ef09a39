import Codrex.Lib.Text
import Mathlib.Data.Prod.Lex

/-!
# Rollout files and what is shown of them

The part of `rollout/src/list.rs` that looks at one file: its name, its times, and its first lines.
-/

namespace Codrex.Rollout

open Text

/-! ## Times -/

/-- A point in time of the common era, in UTC; `nanos` is the time of the day. -/
structure OffsetDateTime where
  year : Nat
  month : Nat
  day : Nat
  nanos : Nat
  deriving DecidableEq

namespace OffsetDateTime

def lex (t : OffsetDateTime) : Nat ×ₗ Nat ×ₗ Nat ×ₗ Nat :=
  toLex (t.year, toLex (t.month, toLex (t.day, t.nanos)))

theorem lex_injective : Function.Injective lex := by
  rintro ⟨year, month, day, nanos⟩ ⟨year', month', day', nanos'⟩ h
  simpa [lex] using h

instance : LinearOrder OffsetDateTime := LinearOrder.lift' lex lex_injective

def unixEpoch : OffsetDateTime := ⟨1970, 1, 1, 0⟩

def date (t : OffsetDateTime) : Nat × Nat × Nat := (t.year, t.month, t.day)

end OffsetDateTime

def truncateToMillis (dt : OffsetDateTime) : OffsetDateTime := { dt with nanos := dt.nanos / 1000000 * 1000000 }

/-! ## Records -/

inductive SubAgentSource
  | review
  | compact
  | threadSpawn (parentThreadId : Str) (depth : Int) (agentPath agentNickname agentRole : Option Str)
  | memoryConsolidation
  | other (name : Str)
  deriving DecidableEq

inductive SessionSource
  | cli
  | vsCode
  | exec
  | mcp
  | custom (name : Str)
  | subAgent (source : SubAgentSource)
  | unknown
  deriving DecidableEq

structure GitInfo where
  commitHash : Option Str
  branch : Option Str
  repositoryUrl : Option Str
  deriving DecidableEq

structure SessionMetaLine where
  id : Str
  timestamp : Str
  cwd : Str
  cliVersion : Str
  source : SessionSource
  agentNickname : Option Str
  agentRole : Option Str
  modelProvider : Option Str
  git : Option GitInfo
  deriving DecidableEq

/-- Of events only the text of user messages is looked at. -/
inductive RolloutItem
  | sessionMeta (line : SessionMetaLine)
  | responseItem
  | turnContext
  | compacted
  | userMessage (message : Str)
  | otherEvent
  deriving DecidableEq

structure RolloutLine where
  timestamp : Str
  item : RolloutItem
  deriving DecidableEq

/-- What is done outside: the parsing and printing of times, ids and JSON, and the normalised paths of the host. -/
structure Outside where
  parseUuid : Str → Option Nat
  /-- `[year]-[month]-[day]T[hour]-[minute]-[second]`. -/
  parseDateTime : Str → Option OffsetDateTime
  formatRfc3339 : OffsetDateTime → Option Str
  parseRfc3339 : Str → Option OffsetDateTime
  parseLine : Str → Option RolloutLine
  normalizeForPathComparison : Str → Option Str

/-- A regular file. Without a text, a line cannot be read. -/
structure RolloutFile where
  lines : List (Option Str)
  modified : Option OffsetDateTime
  deriving DecidableEq

def fileModifiedTime (file : RolloutFile) : Option OffsetDateTime := file.modified.map truncateToMillis

/-! ## The name of a file -/

/-- Scans from the right for a `-` such that what follows is a UUID. What stands before is given from its end. -/
def splitAtUuid (out : Outside) : Str → Str → Option (Str × Nat)
  | [], _ => none
  | c :: before, behind =>
      if c = '-' then
        match out.parseUuid behind with
        | some uuid => some (before.reverse, uuid)
        | none => splitAtUuid out before (c :: behind)
      else splitAtUuid out before (c :: behind)

def parseTimestampUuidFromFilename (out : Outside) (name : Str) : Option (OffsetDateTime × Nat) := do
  let core ← stripPrefix "rollout-".toList name
  let core ← stripSuffix ".jsonl".toList core
  let (tsStr, uuid) ← splitAtUuid out core.reverse []
  let ts ← out.parseDateTime tsStr
  some (ts, uuid)

/-- The check of the name before it is parsed. -/
def isRolloutName (name : Str) : Bool :=
  (stripPrefix "rollout-".toList name).isSome && (stripSuffix ".jsonl".toList name).isSome

/-! ## The head of a file -/

def headRecordLimit : Nat := 10

def userEventScanLimit : Nat := 200

def userMessageBegin : Str := "## My request for Codex:".toList

structure HeadTailSummary where
  sawSessionMeta : Bool := false
  sawUserEvent : Bool := false
  threadId : Option Str := none
  firstUserMessage : Option Str := none
  cwd : Option Str := none
  gitBranch : Option Str := none
  gitSha : Option Str := none
  gitOriginUrl : Option Str := none
  source : Option SessionSource := none
  agentNickname : Option Str := none
  agentRole : Option Str := none
  modelProvider : Option Str := none
  cliVersion : Option Str := none
  createdAt : Option Str := none
  updatedAt : Option Str := none
  deriving DecidableEq

def stripUserMessagePrefix (text : Str) : Str :=
  match find userMessageBegin text with
  | some index => trim (text.drop (index + userMessageBegin.length))
  | none => trim text

def HeadTailSummary.note (summary : HeadTailSummary) (line : RolloutLine) : HeadTailSummary :=
  match line.item with
  | .sessionMeta metaLine =>
      if summary.sawSessionMeta then summary
      else
        { summary with
          source := some metaLine.source
          agentNickname := metaLine.agentNickname
          agentRole := metaLine.agentRole
          modelProvider := metaLine.modelProvider
          threadId := some metaLine.id
          cwd := some metaLine.cwd
          gitBranch := metaLine.git.bind GitInfo.branch
          gitSha := metaLine.git.bind GitInfo.commitHash
          gitOriginUrl := metaLine.git.bind GitInfo.repositoryUrl
          cliVersion := some metaLine.cliVersion
          createdAt := some metaLine.timestamp
          sawSessionMeta := true }
  | .responseItem => { summary with createdAt := summary.createdAt.or (some line.timestamp) }
  | .turnContext => summary
  | .compacted => summary
  | .otherEvent => summary
  | .userMessage text =>
      let message := stripUserMessagePrefix text
      { summary with
        sawUserEvent := true
        firstUserMessage :=
          if summary.firstUserMessage.isNone ∧ message ≠ [] then some message else summary.firstUserMessage }

def readHeadLoop (out : Outside) (headLimit : Nat) :
    List (Option Str) → HeadTailSummary → Nat → Option HeadTailSummary
  | [], summary, _ => some summary
  | line :: lines, summary, linesScanned =>
      if linesScanned < headLimit ∨
          (summary.sawSessionMeta ∧ ¬ summary.sawUserEvent ∧ linesScanned < headLimit + userEventScanLimit) then
        match line with
        | none => none
        | some line =>
            let trimmed := trim line
            if trimmed = [] then readHeadLoop out headLimit lines summary linesScanned
            else
              match out.parseLine trimmed with
              | none => readHeadLoop out headLimit lines summary (linesScanned + 1)
              | some rolloutLine =>
                  let summary := summary.note rolloutLine
                  if summary.sawSessionMeta ∧ summary.sawUserEvent then some summary
                  else readHeadLoop out headLimit lines summary (linesScanned + 1)
      else some summary

def readHeadSummary (out : Outside) (file : RolloutFile) (headLimit : Nat) : Option HeadTailSummary :=
  readHeadLoop out headLimit file.lines {} 0

/-! ## Items -/

structure ProviderMatcher where
  filters : List Str
  matchesDefaultProvider : Bool

def ProviderMatcher.new (filters : List Str) (defaultProvider : Str) : Option ProviderMatcher :=
  if filters = [] then none else some ⟨filters, filters.contains defaultProvider⟩

def ProviderMatcher.isMatch (matcher : ProviderMatcher) : Option Str → Bool
  | some provider => matcher.filters.contains provider
  | none => matcher.matchesDefaultProvider

structure Filters where
  allowedSources : List SessionSource
  providerMatcher : Option ProviderMatcher
  cwdFilters : Option (List Str)

def pathsMatchAfterNormalization (out : Outside) (left right : Str) : Bool :=
  match out.normalizeForPathComparison left, out.normalizeForPathComparison right with
  | some left, some right => left == right
  | _, _ => left == right

/-- The components of a path below the root of the listing. -/
abbrev RolloutPath := List Str

structure ThreadItem where
  path : RolloutPath
  threadId : Option Str
  firstUserMessage : Option Str
  cwd : Option Str
  gitBranch : Option Str
  gitSha : Option Str
  gitOriginUrl : Option Str
  source : Option SessionSource
  agentNickname : Option Str
  agentRole : Option Str
  modelProvider : Option Str
  cliVersion : Option Str
  createdAt : Option Str
  updatedAt : Option Str
  deriving DecidableEq

def Filters.admit (out : Outside) (filters : Filters) (summary : HeadTailSummary) : Bool :=
  (filters.allowedSources == [] || summary.source.any filters.allowedSources.contains) &&
    filters.providerMatcher.all (·.isMatch summary.modelProvider) &&
    filters.cwdFilters.all fun cwdFilters =>
      summary.cwd.any fun cwd => cwdFilters.any (pathsMatchAfterNormalization out cwd)

def buildThreadItem (out : Outside) (filters : Filters) (path : RolloutPath) (file : RolloutFile)
    (updatedAt : Option Str) : Option ThreadItem :=
  let summary := (readHeadSummary out file headRecordLimit).getD {}
  if filters.admit out summary && summary.sawSessionMeta && summary.sawUserEvent then
    some
      { path := path
        threadId := summary.threadId
        firstUserMessage := summary.firstUserMessage
        cwd := summary.cwd
        gitBranch := summary.gitBranch
        gitSha := summary.gitSha
        gitOriginUrl := summary.gitOriginUrl
        source := summary.source
        agentNickname := summary.agentNickname
        agentRole := summary.agentRole
        modelProvider := summary.modelProvider
        cliVersion := summary.cliVersion
        createdAt := summary.createdAt
        updatedAt := summary.updatedAt.or (updatedAt.or summary.createdAt) }
  else none

end Codrex.Rollout
