import Mathlib.Data.List.Destutter
import Mathlib.Data.List.Sort
import Mathlib.Data.PNat.Defs
import Codrex.Permissions.Policy

/-!
# Requested and granted permissions (`sandboxing/src/policy_transforms.rs`)

What is granted on top of a policy is cut down to what was requested. The matcher for denied reads is that of
`protocol/src/permissions.rs`.
-/

namespace Codrex.Permissions

open Text UnixPath

/-! ## Denied reads -/

/-- `globset` with literal separators: a pattern is refused, or it says which paths match. -/
abbrev GlobBuilder := Str → Option (Str → Bool)

def pushUnique {α : Type} [DecidableEq α] (candidates : List α) (candidate : α) : List α :=
  if candidate ∈ candidates then candidates else candidates ++ [candidate]

def normalizedAndCanonicalCandidates (host : Host) (path : AbsolutePathBuf) : List AbsolutePathBuf :=
  let normalized := (AbsolutePathBuf.fromAbsolutePath host.env path.toPath).getD path
  match (host.canonicalize path).bind fun canonical => AbsolutePathBuf.fromAbsolutePath host.env canonical.toPath with
  | some canonical => pushUnique [normalized] canonical
  | none => [normalized]

/-- `resolve_path_against_base` with the text of a path for a base. -/
def resolveAgainst (host : Host) (path base : Str) : AbsolutePathBuf :=
  AbsolutePathBuf.normalizePath
    (AbsolutePathBuf.pathWithBase (AbsolutePathBuf.maybeExpandHomeDirectory host.env path) base)

namespace FileSystemSandboxPolicy

def restricted (entries : List FileSystemSandboxEntry) : FileSystemSandboxPolicy := ⟨.restricted, entries⟩

def getUnreadableRootsWithCwd (host : Host) (policy : FileSystemSandboxPolicy) (cwd : Str) : List AbsolutePathBuf :=
  if policy.kind ≠ .restricted then []
  else
    let root := (AbsolutePathBuf.fromAbsolutePath host.env cwd).map absoluteRootPathForCwd
    let denied := (policy.resolvedEntriesWithCwd host cwd).filter fun entry =>
      entry.access = .none && !policy.canReadPathWithCwd host entry.path.toPath cwd && root ≠ some entry.path
    dedupAbsolutePaths host (denied.map (·.path)) true

def getUnreadableGlobsWithCwd (host : Host) (policy : FileSystemSandboxPolicy) (cwd : Str) : List Str :=
  if policy.kind ≠ .restricted then []
  else
    let patterns := (policy.entries.filter (·.access = .none)).filterMap fun entry =>
      match entry.path with
      | .globPattern pattern => some (resolveAgainst host pattern cwd).toPath
      | .path _ | .special _ => none
    (patterns.insertionSort fun left right => ¬ right < left).destutter (· ≠ ·)

end FileSystemSandboxPolicy

structure ReadDenyMatcher where
  deniedCandidates : List (List AbsolutePathBuf)
  denyReadMatchers : List (Str → Bool)
  invalidPattern : Bool

namespace ReadDenyMatcher

def new (host : Host) (globs : GlobBuilder) (fileSystemSandboxPolicy : FileSystemSandboxPolicy) (cwd : Str) :
    Option ReadDenyMatcher :=
  if !fileSystemSandboxPolicy.hasDeniedReadRestrictions then none
  else
    let built := (fileSystemSandboxPolicy.getUnreadableGlobsWithCwd host cwd).map globs
    some ⟨(fileSystemSandboxPolicy.getUnreadableRootsWithCwd host cwd).map (normalizedAndCanonicalCandidates host),
      built.filterMap id, built.any Option.isNone⟩

def isReadDenied (host : Host) (matcher : ReadDenyMatcher) (path : AbsolutePathBuf) : Bool :=
  if matcher.invalidPattern then true
  else
    let pathCandidates := normalizedAndCanonicalCandidates host path
    if matcher.deniedCandidates.any fun deniedCandidates => pathCandidates.any fun candidate =>
        deniedCandidates.any fun deniedCandidate => candidate = deniedCandidate || candidate.startsWith deniedCandidate
    then true
    else matcher.denyReadMatchers.any fun isMatch => pathCandidates.any fun candidate => isMatch candidate.toPath

end ReadDenyMatcher

/-! ## Profiles -/

structure FileSystemPermissions where
  entries : List FileSystemSandboxEntry
  globScanMaxDepth : Option ℕ+
  deriving DecidableEq

def FileSystemPermissions.isEmpty (permissions : FileSystemPermissions) : Bool := permissions.entries.isEmpty

structure NetworkPermissions where
  enabled : Option Bool
  deriving DecidableEq

structure AdditionalPermissionProfile where
  network : Option NetworkPermissions
  fileSystem : Option FileSystemPermissions
  deriving DecidableEq

def AdditionalPermissionProfile.isEmpty (profile : AdditionalPermissionProfile) : Bool :=
  profile.network.isNone && profile.fileSystem.isNone

inductive GlobScanDepth
  | bounded (depth : Nat)
  | unbounded
  deriving DecidableEq

def effectiveGlobScanDepth (entries : List FileSystemSandboxEntry) (depth : Option Nat) : Option GlobScanDepth :=
  if entries.any fun entry => entry.access = .none && entry.path matches .globPattern _ then
    some (match depth with
      | some depth => .bounded depth
      | none => .unbounded)
  else none

def mergeGlobScanMaxDepth (leftEntries : List FileSystemSandboxEntry) (leftDepth : Option Nat)
    (rightEntries : List FileSystemSandboxEntry) (rightDepth : Option Nat) : Option Nat :=
  match effectiveGlobScanDepth leftEntries leftDepth, effectiveGlobScanDepth rightEntries rightDepth with
  | some .unbounded, _ | _, some .unbounded => none
  | some (.bounded left), some (.bounded right) => some (max left right)
  | some (.bounded depth), none | none, some (.bounded depth) => some depth
  | none, none => none

/-- A depth of zero is no depth. -/
def nonZeroDepth (depth : Option Nat) : Option ℕ+ := depth.bind fun depth => if h : 0 < depth then some ⟨depth, h⟩ else none

/-! ## Merging -/

def mergePermissionEntries (base permissions : List FileSystemSandboxEntry) : List FileSystemSandboxEntry :=
  (base ++ permissions).foldl pushUnique []

def mergeNetwork (base permissions : Option NetworkPermissions) : Option NetworkPermissions :=
  match base, permissions with
  | some ⟨some true⟩, _ | _, some ⟨some true⟩ => some ⟨some true⟩
  | _, _ => none

def mergeFileSystem (base permissions : Option FileSystemPermissions) : Option FileSystemPermissions :=
  match base, permissions with
  | some base, some permissions =>
      let depth := mergeGlobScanMaxDepth base.entries (base.globScanMaxDepth.map (↑)) permissions.entries
        (permissions.globScanMaxDepth.map (↑))
      (some ⟨mergePermissionEntries base.entries permissions.entries, nonZeroDepth depth⟩).filter (!·.isEmpty)
  | some base, none => some base
  | none, some permissions => some permissions
  | none, none => none

def mergePermissionProfiles (base permissions : Option AdditionalPermissionProfile) : Option AdditionalPermissionProfile :=
  match permissions with
  | none => base
  | some permissions =>
      match base with
      | some base =>
          (some ⟨mergeNetwork base.network permissions.network,
            mergeFileSystem base.fileSystem permissions.fileSystem⟩).filter (!·.isEmpty)
      | none => (some permissions).filter (!·.isEmpty)

/-- The depth to which globs are expanded is left out of a policy. -/
def mergeFileSystemPolicyWithAdditionalPermissions (fileSystemPolicy : FileSystemSandboxPolicy)
    (additionalPermissions : FileSystemPermissions) : FileSystemSandboxPolicy :=
  match fileSystemPolicy.kind with
  | .restricted =>
      { fileSystemPolicy with entries := additionalPermissions.entries.foldl pushUnique fileSystemPolicy.entries }
  | .unrestricted | .externalSandbox => fileSystemPolicy

def effectiveFileSystemSandboxPolicy (fileSystemPolicy : FileSystemSandboxPolicy)
    (additionalPermissions : Option AdditionalPermissionProfile) : FileSystemSandboxPolicy :=
  match additionalPermissions.bind (·.fileSystem) with
  | none => fileSystemPolicy
  | some fileSystemPermissions =>
      if fileSystemPermissions.isEmpty then fileSystemPolicy
      else mergeFileSystemPolicyWithAdditionalPermissions fileSystemPolicy fileSystemPermissions

/-! ## Where a permission is -/

/-- The last of the ancestors of a path. -/
def lastAncestor (path : Str) : Str := if isAbsolute path then ['/'] else []

def resolvePermissionPath (host : Host) (path : FileSystemPath) (cwd : Str) : Option AbsolutePathBuf :=
  match path with
  | .path path => some path
  | .globPattern _ => none
  | .special value =>
      match value with
      | .root => AbsolutePathBuf.fromAbsolutePath host.env (lastAncestor cwd)
      | .currentWorkingDirectory => AbsolutePathBuf.fromAbsolutePath host.env cwd
      | .projectRoots subpath => (AbsolutePathBuf.fromAbsolutePath host.env cwd).map fun cwd =>
          match subpath with
          | some subpath => AbsolutePathBuf.resolvePathAgainstBase host.env subpath cwd
          | none => cwd
      | .tmpdir => host.tmpdir.bind fun tmpdir =>
          if tmpdir = [] then none else AbsolutePathBuf.fromAbsolutePath host.env tmpdir
      | .slashTmp => (AbsolutePathBuf.fromAbsolutePath host.env "/tmp").filter host.isDir
      | .minimal | .unknown _ _ => none

def materializeCwdDependentEntry (host : Host) (entry : FileSystemSandboxEntry) (cwd : Str) : FileSystemSandboxEntry :=
  match entry.path with
  | .special .currentWorkingDirectory | .special (.projectRoots _) =>
      ((resolvePermissionPath host entry.path cwd).map fun path => ⟨.path path, entry.access⟩).getD entry
  | .globPattern pattern => ⟨.globPattern (resolveAgainst host pattern cwd).toPath, entry.access⟩
  | .path _ | .special _ => entry

def accessCovers (requested granted : FileSystemAccessMode) : Bool :=
  match granted with
  | .read => requested.canRead
  | .write => requested.canWrite
  | .none => false

def pathsOverlap (left right : AbsolutePathBuf) : Bool := left.startsWith right || right.startsWith left

def isGlobCharacter (c : Char) : Bool := decide (c ∈ ['*', '?', '[', ']'])

def globStaticPrefixPath (host : Host) (pattern cwd : Str) : Option AbsolutePathBuf :=
  let resolvedPattern := (resolveAgainst host pattern cwd).toPath
  let front := resolvedPattern.takeWhile fun c => !isGlobCharacter c
  if front = resolvedPattern then AbsolutePathBuf.fromAbsolutePath host.env resolvedPattern
  else if front = [] then none
  else if front.getLast? = some '/' || front.getLast? = some '\\' then AbsolutePathBuf.fromAbsolutePath host.env front
  else (UnixPath.parent front).bind (AbsolutePathBuf.fromAbsolutePath host.env)

/-! ## Intersection -/

section Intersection

variable (host : Host)

def grantedFileSystemEntryWithinRequest (requested : FileSystemPermissions) (requestedPolicy : FileSystemSandboxPolicy)
    (requestedReadDenyMatcher : Option ReadDenyMatcher) (grantedEntry : FileSystemSandboxEntry) (cwd : Str) : Bool :=
  if !grantedEntry.access.canRead then false
  else match resolvePermissionPath host grantedEntry.path cwd with
    | some path =>
        if requestedReadDenyMatcher.any (·.isReadDenied host path) then false
        else accessCovers (requestedPolicy.resolveAccessWithCwd host path.toPath cwd) grantedEntry.access
    | none => requested.entries.any fun requestedEntry =>
        accessCovers requestedEntry.access grantedEntry.access && requestedEntry.path = grantedEntry.path

def denyEntryOverlaps (denyEntry : FileSystemSandboxEntry) (grantPath : AbsolutePathBuf) (cwd : Str) : Bool :=
  match denyEntry.path with
  | .globPattern pattern => (globStaticPrefixPath host pattern cwd).any (pathsOverlap · grantPath)
  | .path _ | .special _ => (resolvePermissionPath host denyEntry.path cwd).any (pathsOverlap · grantPath)

def denyEntryConstrainsAcceptedGrant (denyEntry : FileSystemSandboxEntry)
    (acceptedEntries : List FileSystemSandboxEntry) (cwd : Str) : Bool :=
  (acceptedEntries.filter (·.access.canRead)).any fun entry =>
    match resolvePermissionPath host entry.path cwd with
    | none => false
    | some grantPath => denyEntryOverlaps host denyEntry grantPath cwd

/-- The entries that are retained, and the output with them. -/
def retainConstrainingDenyEntries (sourceEntries acceptedEntries : List FileSystemSandboxEntry) (cwd : Str)
    (outputEntries : List FileSystemSandboxEntry) : List FileSystemSandboxEntry × List FileSystemSandboxEntry :=
  (sourceEntries.filter (·.access = .none)).foldl (fun (retainedEntries, outputEntries) entry =>
    if !denyEntryConstrainsAcceptedGrant host entry acceptedEntries cwd then (retainedEntries, outputEntries)
    else
      let entry := materializeCwdDependentEntry host entry cwd
      (retainedEntries ++ [entry], pushUnique outputEntries entry)) ([], outputEntries)

def intersectFileSystem (globs : GlobBuilder) (requestedFileSystem grantedFileSystem : FileSystemPermissions)
    (cwd : Str) : FileSystemPermissions :=
  let requestedPolicy := FileSystemSandboxPolicy.restricted requestedFileSystem.entries
  let requestedReadDenyMatcher := ReadDenyMatcher.new host globs requestedPolicy cwd
  let acceptedEntries := (grantedFileSystem.entries.filter fun entry =>
    grantedFileSystemEntryWithinRequest host requestedFileSystem requestedPolicy requestedReadDenyMatcher entry
      cwd).foldl (fun acceptedEntries entry =>
        pushUnique acceptedEntries (materializeCwdDependentEntry host entry cwd)) []
  let (requestedRetainedDenyEntries, entries) :=
    retainConstrainingDenyEntries host requestedFileSystem.entries acceptedEntries cwd acceptedEntries
  let (grantedRetainedDenyEntries, entries) :=
    retainConstrainingDenyEntries host grantedFileSystem.entries acceptedEntries cwd entries
  let depth := mergeGlobScanMaxDepth requestedRetainedDenyEntries (requestedFileSystem.globScanMaxDepth.map (↑))
    grantedRetainedDenyEntries (grantedFileSystem.globScanMaxDepth.map (↑))
  ⟨entries, depth.bind fun depth => if h : 0 < depth then some ⟨depth, h⟩ else none⟩

def intersectPermissionProfiles (globs : GlobBuilder) (requested granted : AdditionalPermissionProfile) (cwd : Str) :
    AdditionalPermissionProfile where
  fileSystem := (requested.fileSystem.map fun requestedFileSystem =>
    intersectFileSystem host globs requestedFileSystem (granted.fileSystem.getD ⟨[], none⟩) cwd).filter (!·.isEmpty)
  network :=
    match requested.network, granted.network with
    | some ⟨some true⟩, some ⟨some true⟩ => some ⟨some true⟩
    | _, _ => none

end Intersection

end Codrex.Permissions
