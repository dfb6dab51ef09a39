import Codrex.Lib.Paging
import Codrex.Rollout.ThreadItem
import Mathlib.Data.List.Sort

/-!
# Listing threads

The traversals of `rollout/src/list.rs`. A directory is the list of its entries, in the order in which it is read.
-/

namespace Codrex.Rollout

open Text

def maxScanFiles : Nat := 10000

inductive ThreadSortKey
  | createdAt
  | updatedAt
  deriving DecidableEq

inductive ThreadListLayout
  | nestedByDate
  | flat
  deriving DecidableEq

inductive DirEntry
  | file (file : RolloutFile)
  | dir (entries : List (Str × DirEntry))
  | other

abbrev Directory := List (Str × DirEntry)

/-- `Cursor`: the timestamp of the last item of a page. -/
abbrev Cursor := OffsetDateTime

structure AnchorState where
  ts : OffsetDateTime
  passed : Bool

def AnchorState.new : Option Cursor → AnchorState
  | some cursor => ⟨cursor, false⟩
  | none => ⟨.unixEpoch, true⟩

def AnchorState.shouldSkip (anchor : AnchorState) (ts : OffsetDateTime) : Bool × AnchorState :=
  if anchor.passed then (false, anchor)
  else if ts < anchor.ts then (false, { anchor with passed := true })
  else (true, anchor)

/-- A file that was found, with the timestamp and the id in its name. -/
structure Found where
  ts : OffsetDateTime
  id : Nat
  path : RolloutPath
  file : RolloutFile

/-! ## Directories -/

/-- `str::parse` for an unsigned number up to `max`. -/
def parseUnsigned (max : Nat) (s : Str) : Option Nat :=
  let digits := (stripPrefix ['+'] s).getD s
  if digits ≠ [] ∧ digits.all Char.isDigit then
    let n := digits.foldl (fun n c => 10 * n + (c.toNat - '0'.toNat)) 0
    if n ≤ max then some n else none
  else none

/-- The subdirectories whose names are numbers. -/
def collectDirs (parent : RolloutPath) (max : Nat) (entries : Directory) : List (Nat × RolloutPath × Directory) :=
  entries.filterMap fun (name, entry) =>
    match entry with
    | .dir entries => (parseUnsigned max name).map fun n => (n, parent ++ [name], entries)
    | _ => none

def collectDirsDesc (parent : RolloutPath) (max : Nat) (entries : Directory) :
    List (Nat × RolloutPath × Directory) :=
  (collectDirs parent max entries).insertionSort fun a b => b.1 ≤ a.1

def foundAt (out : Outside) (parent : RolloutPath) : Str × DirEntry → Option Found
  | (name, .file file) =>
      if isRolloutName name then
        (parseTimestampUuidFromFilename out name).map fun (ts, id) => ⟨ts, id, parent ++ [name], file⟩
      else none
  | _ => none

/-- The order `(Reverse(ts), Reverse(id))`. -/
def Newer (a b : OffsetDateTime × Nat) : Prop := b.1 < a.1 ∨ (b.1 = a.1 ∧ b.2 ≤ a.2)

instance (a b : OffsetDateTime × Nat) : Decidable (Newer a b) := inferInstanceAs (Decidable (_ ∨ _))

def Found.stamp (found : Found) : OffsetDateTime × Nat := (found.ts, found.id)

def collectRolloutDayFiles (out : Outside) (day : RolloutPath) (entries : Directory) : List Found :=
  (entries.filterMap (foundAt out day)).insertionSort fun a b => Newer a.stamp b.stamp

/-- The loop over a flat directory, with the number of files scanned. -/
def collectFlatLoop (out : Outside) (root : RolloutPath) : Directory → Nat → List Found × Nat
  | [], scannedFiles => ([], scannedFiles)
  | entry :: entries, scannedFiles =>
      if scannedFiles ≥ maxScanFiles then ([], scannedFiles)
      else
        match foundAt out root entry with
        | none => collectFlatLoop out root entries scannedFiles
        | some found =>
            if scannedFiles + 1 > maxScanFiles then ([], scannedFiles + 1)
            else
              let (collected, scannedFiles) := collectFlatLoop out root entries (scannedFiles + 1)
              (found :: collected, scannedFiles)

def collectFlatRolloutFiles (out : Outside) (root : RolloutPath) (entries : Directory) : List Found × Nat :=
  let (collected, scannedFiles) := collectFlatLoop out root entries 0
  (collected.insertionSort fun a b => Newer a.stamp b.stamp, scannedFiles)

structure ThreadCandidate where
  path : RolloutPath
  id : Nat
  updatedAt : Option OffsetDateTime
  file : RolloutFile

def Found.candidate (found : Found) : ThreadCandidate :=
  ⟨found.path, found.id, fileModifiedTime found.file, found.file⟩

def ThreadCandidate.stamp (candidate : ThreadCandidate) : OffsetDateTime × Nat :=
  (candidate.updatedAt.getD .unixEpoch, candidate.id)

def sortCandidates (candidates : List ThreadCandidate) : List ThreadCandidate :=
  candidates.insertionSort fun a b => Newer a.stamp b.stamp

def collectFlatFilesByUpdatedAt (out : Outside) (root : RolloutPath) (entries : Directory) :
    List ThreadCandidate × Nat :=
  let (collected, scannedFiles) := collectFlatLoop out root entries 0
  (collected.map Found.candidate, scannedFiles)

/-! ## The walk over nested directories -/

/-- Where the walk stands: the state of the visitor, the number of files scanned, and whether it goes on. -/
structure Walk (σ : Type) where
  visitor : σ
  scannedFiles : Nat
  stopped : Bool

section

variable {σ : Type} (out : Outside) (visit : σ → Found → Nat → σ × Bool)

def Walk.visitFile (walk : Walk σ) (found : Found) : Walk σ :=
  if walk.stopped then walk
  else if walk.scannedFiles + 1 > maxScanFiles then ⟨walk.visitor, walk.scannedFiles + 1, true⟩
  else
    let (visitor, continues) := visit walk.visitor found (walk.scannedFiles + 1)
    ⟨visitor, walk.scannedFiles + 1, !continues⟩

/-- A directory is entered as long as the cap is not reached. -/
def Walk.enter (walk : Walk σ) (inside : Walk σ → Walk σ) : Walk σ :=
  if walk.stopped then walk
  else if walk.scannedFiles ≥ maxScanFiles then { walk with stopped := true }
  else inside walk

def walkDay (walk : Walk σ) (day : Nat × RolloutPath × Directory) : Walk σ :=
  walk.enter fun walk => (collectRolloutDayFiles out day.2.1 day.2.2).foldl (Walk.visitFile visit) walk

def walkMonth (walk : Walk σ) (month : Nat × RolloutPath × Directory) : Walk σ :=
  walk.enter fun walk => (collectDirsDesc month.2.1 255 month.2.2).foldl (walkDay out visit) walk

def walkYear (walk : Walk σ) (year : Nat × RolloutPath × Directory) : Walk σ :=
  walk.enter fun walk => (collectDirsDesc year.2.1 255 year.2.2).foldl (walkMonth out visit) walk

def walkRolloutFiles (root : Directory) (visitor : σ) : Walk σ :=
  (collectDirsDesc [] 65535 root).foldl (walkYear out visit) ⟨visitor, 0, false⟩

end

def collectFilesByUpdatedAt (out : Outside) (root : Directory) : List ThreadCandidate × Nat :=
  let walk := walkRolloutFiles out (fun candidates found _ => (candidates ++ [found.candidate], true)) root []
  (walk.visitor, walk.scannedFiles)

/-! ## Pages -/

structure ThreadsPage where
  items : List ThreadItem
  nextCursor : Option Cursor
  numScannedFiles : Nat
  reachedScanCap : Bool

def buildNextCursor (out : Outside) (items : List ThreadItem) (sortKey : ThreadSortKey) : Option Cursor := do
  let last ← items.getLast?
  let fileName ← last.path.getLast?
  let (createdTs, _) ← parseTimestampUuidFromFilename out fileName
  match sortKey with
  | .createdAt => some createdTs
  | .updatedAt =>
      let updatedAt ← last.updatedAt
      out.parseRfc3339 updatedAt

/-- The page of the items, after a scan that has found more or not. -/
def toPage (out : Outside) (sortKey : ThreadSortKey) (items : List ThreadItem) (more : Bool) (scannedFiles : Nat) :
    ThreadsPage :=
  let reachedScanCap := decide (scannedFiles ≥ maxScanFiles)
  let moreMatchesAvailable := more || (reachedScanCap && items ≠ [])
  { items := items
    nextCursor := if moreMatchesAvailable then buildNextCursor out items sortKey else none
    numScannedFiles := scannedFiles
    reachedScanCap := reachedScanCap }

def buildFound (out : Outside) (filters : Filters) (found : Found) : Option ThreadItem :=
  buildThreadItem out filters found.path found.file ((fileModifiedTime found.file).bind out.formatRfc3339)

def buildCandidate (out : Outside) (filters : Filters) (candidate : ThreadCandidate) : Option ThreadItem :=
  buildThreadItem out filters candidate.path candidate.file (candidate.updatedAt.bind out.formatRfc3339)

/-- The loop that fills a page from sorted files: the items, and whether files are left. -/
def fillPage {α : Type} (ts : α → OffsetDateTime) (build : α → Option ThreadItem) (pageSize : Nat) :
    AnchorState → List ThreadItem → List α → List ThreadItem × Bool
  | _, items, [] => (items, false)
  | anchor, items, x :: xs =>
      let (skip, anchor) := anchor.shouldSkip (ts x)
      if skip then fillPage ts build pageSize anchor items xs
      else if items.length = pageSize then (items, true)
      else fillPage ts build pageSize anchor (items ++ (build x).toList) xs

structure FilesByCreatedAtVisitor where
  items : List ThreadItem
  anchorState : AnchorState
  moreMatchesAvailable : Bool

def FilesByCreatedAtVisitor.visit (out : Outside) (filters : Filters) (pageSize : Nat)
    (visitor : FilesByCreatedAtVisitor) (found : Found) (scanned : Nat) : FilesByCreatedAtVisitor × Bool :=
  if scanned ≥ maxScanFiles ∧ visitor.items.length ≥ pageSize then
    ({ visitor with moreMatchesAvailable := true }, false)
  else
    let (skip, anchorState) := visitor.anchorState.shouldSkip found.ts
    let visitor := { visitor with anchorState := anchorState }
    if skip then (visitor, true)
    else if visitor.items.length = pageSize then ({ visitor with moreMatchesAvailable := true }, false)
    else ({ visitor with items := visitor.items ++ (buildFound out filters found).toList }, true)

def traverseDirectoriesForPathsCreated (out : Outside) (root : Directory) (pageSize : Nat) (anchor : Option Cursor)
    (filters : Filters) : ThreadsPage :=
  let walk := walkRolloutFiles out (FilesByCreatedAtVisitor.visit out filters pageSize) root
    ⟨[], AnchorState.new anchor, false⟩
  toPage out .createdAt walk.visitor.items walk.visitor.moreMatchesAvailable walk.scannedFiles

def traverseDirectoriesForPathsUpdated (out : Outside) (root : Directory) (pageSize : Nat) (anchor : Option Cursor)
    (filters : Filters) : ThreadsPage :=
  let (candidates, scannedFiles) := collectFilesByUpdatedAt out root
  let (items, more) := fillPage (fun candidate => candidate.stamp.1) (buildCandidate out filters) pageSize
    (AnchorState.new anchor) [] (sortCandidates candidates)
  toPage out .updatedAt items more scannedFiles

def traverseFlatPathsCreated (out : Outside) (root : Directory) (pageSize : Nat) (anchor : Option Cursor)
    (filters : Filters) : ThreadsPage :=
  let (files, scannedFiles) := collectFlatRolloutFiles out [] root
  let (items, more) := fillPage Found.ts (buildFound out filters) pageSize (AnchorState.new anchor) [] files
  toPage out .createdAt items more scannedFiles

def traverseFlatPathsUpdated (out : Outside) (root : Directory) (pageSize : Nat) (anchor : Option Cursor)
    (filters : Filters) : ThreadsPage :=
  let (candidates, scannedFiles) := collectFlatFilesByUpdatedAt out [] root
  let (items, more) := fillPage (fun candidate => candidate.stamp.1) (buildCandidate out filters) pageSize
    (AnchorState.new anchor) [] (sortCandidates candidates)
  toPage out .updatedAt items more scannedFiles

structure ThreadListConfig where
  allowedSources : List SessionSource
  modelProviders : Option (List Str)
  cwdFilters : Option (List Str)
  defaultProvider : Str
  layout : ThreadListLayout

def ThreadListConfig.filters (config : ThreadListConfig) : Filters where
  allowedSources := config.allowedSources
  providerMatcher := config.modelProviders.bind (ProviderMatcher.new · config.defaultProvider)
  cwdFilters := config.cwdFilters

/-- A root that does not exist has no entries at all. -/
def getThreadsInRoot (out : Outside) (root : Option Directory) (pageSize : Nat) (cursor : Option Cursor)
    (sortKey : ThreadSortKey) (config : ThreadListConfig) : ThreadsPage :=
  match root with
  | none => ⟨[], none, 0, false⟩
  | some root =>
      match config.layout, sortKey with
      | .nestedByDate, .createdAt => traverseDirectoriesForPathsCreated out root pageSize cursor config.filters
      | .nestedByDate, .updatedAt => traverseDirectoriesForPathsUpdated out root pageSize cursor config.filters
      | .flat, .createdAt => traverseFlatPathsCreated out root pageSize cursor config.filters
      | .flat, .updatedAt => traverseFlatPathsUpdated out root pageSize cursor config.filters

end Codrex.Rollout

/-!
## What the listing of threads is for
-/

namespace Codrex.Rollout

open Text

section

variable (out : Outside)

def yearDirs (root : Directory) : List (Nat × RolloutPath × Directory) := collectDirs [] 65535 root

/-- The directories of months in one of a year, or of days in one of a month. -/
def innerDirs (dir : Nat × RolloutPath × Directory) : List (Nat × RolloutPath × Directory) :=
  collectDirs dir.2.1 255 dir.2.2

def dayFiles (day : Nat × RolloutPath × Directory) : List Found := day.2.2.filterMap (foundAt out day.2.1)

/-- All rollout files, in the order in which the directories are read. -/
def rolloutFiles (root : Directory) : ThreadListLayout → List Found
  | .flat => root.filterMap (foundAt out [])
  | .nestedByDate =>
      (yearDirs root).flatMap fun year => (innerDirs year).flatMap fun month =>
        (innerDirs month).flatMap (dayFiles out)

/-- `sessions/YYYY/MM/DD`: no number twice among the directories, and each file in the one of its date. -/
structure PlacedByDate (root : Directory) : Prop where
  years : ((yearDirs root).map Prod.fst).Nodup
  months : ∀ year ∈ yearDirs root, ((innerDirs year).map Prod.fst).Nodup
  days : ∀ year ∈ yearDirs root, ∀ month ∈ innerDirs year, ((innerDirs month).map Prod.fst).Nodup
  dates : ∀ year ∈ yearDirs root, ∀ month ∈ innerDirs year, ∀ day ∈ innerDirs month, ∀ found ∈ dayFiles out day,
    found.ts.date = (year.1, month.1, day.1)

/-- The files are not more than are scanned, they lie where they belong, and their times can be written and read. -/
structure Listable (root : Directory) (layout : ThreadListLayout) (sortKey : ThreadSortKey) : Prop where
  capped : (rolloutFiles out root layout).length ≤ maxScanFiles
  placed : layout = .nestedByDate → sortKey = .createdAt → PlacedByDate out root
  dated : sortKey = .updatedAt → ∀ found ∈ rolloutFiles out root layout,
    ∃ ts, fileModifiedTime found.file = some ts ∧ (out.formatRfc3339 ts).bind out.parseRfc3339 = some ts

end

/-- The time by which a file is listed. -/
def Found.listedAt (sortKey : ThreadSortKey) (found : Found) : OffsetDateTime :=
  match sortKey with
  | .createdAt => found.ts
  | .updatedAt => (fileModifiedTime found.file).getD .unixEpoch

def pageOf (out : Outside) (root : Directory) (pageSize : Nat) (sortKey : ThreadSortKey) (config : ThreadListConfig)
    (cursor : Option Cursor) : List ThreadItem × Option Cursor :=
  let page := getThreadsInRoot out (some root) pageSize cursor sortKey config
  (page.items, page.nextCursor)

/-- The pages from `get_threads_in_root`, one after the other, are the matching threads by descending time and id,
less what `kept` leaves out. -/
def Lists (out : Outside) (root : Directory) (pageSize : Nat) (sortKey : ThreadSortKey) (config : ThreadListConfig)
    (kept : List Found → List Found) : Prop :=
  ∃ ordered : List Found,
    ordered.Perm ((rolloutFiles out root config.layout).filter fun found =>
      (buildFound out config.filters found).isSome) ∧
    ordered.Pairwise (fun a b => Newer (a.listedAt sortKey, a.id) (b.listedAt sortKey, b.id)) ∧
    Paging.Enumerates (pageOf out root pageSize sortKey config) none
      ((kept ordered).filterMap (buildFound out config.filters))

end Codrex.Rollout
