import Codrex.AbsolutePath
import Codrex.Lib.MostSpecific

/-!
# File system permissions (`protocol/src/permissions.rs`)

What a policy says about one path.
-/

namespace Codrex.Permissions

open Text UnixPath

/-! ## The host -/

inductive FileType
  | directory
  | file
  | symlink
  | other
  deriving DecidableEq

/-- What the functions read from the process and from the disk. `metadata` follows links. -/
structure Host where
  env : HostEnv
  tmpdir : Option Str
  symlinkMetadata : AbsolutePathBuf → Option FileType
  metadata : AbsolutePathBuf → Option FileType
  canonicalize : AbsolutePathBuf → Option AbsolutePathBuf
  readToString : AbsolutePathBuf → Option Str

namespace Host

def isDir (host : Host) (path : AbsolutePathBuf) : Bool := host.metadata path = some .directory

def isFile (host : Host) (path : AbsolutePathBuf) : Bool := host.metadata path = some .file

def pathExists (host : Host) (path : AbsolutePathBuf) : Bool := (host.metadata path).isSome

end Host

/-! ## Policies -/

inductive FileSystemAccessMode
  | read
  | write
  | none
  deriving DecidableEq

namespace FileSystemAccessMode

def rank : FileSystemAccessMode → Nat
  | read => 0
  | write => 1
  | none => 2

theorem rank_injective : Function.Injective rank := by
  intro first second h
  cases first <;> cases second <;> first | rfl | cases h

/-- By conflict precedence: `none` beats `write`, and `write` beats `read`. -/
instance : LinearOrder FileSystemAccessMode := LinearOrder.lift' rank rank_injective

def canRead (access : FileSystemAccessMode) : Bool := access ≠ none

def canWrite (access : FileSystemAccessMode) : Bool := access = write

end FileSystemAccessMode

inductive FileSystemSpecialPath
  | root
  | minimal
  | currentWorkingDirectory
  | projectRoots (subpath : Option Str)
  | tmpdir
  | slashTmp
  | unknown (path : Str) (subpath : Option Str)
  deriving DecidableEq

inductive FileSystemPath
  | path (path : AbsolutePathBuf)
  | globPattern (pattern : Str)
  | special (value : FileSystemSpecialPath)
  deriving DecidableEq

structure FileSystemSandboxEntry where
  path : FileSystemPath
  access : FileSystemAccessMode
  deriving DecidableEq

inductive FileSystemSandboxKind
  | restricted
  | unrestricted
  | externalSandbox
  deriving DecidableEq

structure FileSystemSandboxPolicy where
  kind : FileSystemSandboxKind
  entries : List FileSystemSandboxEntry
  deriving DecidableEq

structure ResolvedFileSystemEntry where
  path : AbsolutePathBuf
  access : FileSystemAccessMode
  deriving DecidableEq

/-! ## Where an entry is -/

def slashTmp : AbsolutePathBuf := AbsolutePathBuf.normalizePath "/tmp"

def resolveFileSystemSpecialPath (host : Host) (value : FileSystemSpecialPath) (cwd : Option AbsolutePathBuf) :
    Option AbsolutePathBuf :=
  match value with
  | .root | .minimal | .unknown _ _ => none
  | .currentWorkingDirectory => cwd
  | .projectRoots subpath => cwd.map fun cwd =>
      match subpath with
      | some subpath => AbsolutePathBuf.resolvePathAgainstBase host.env subpath cwd
      | none => cwd
  | .tmpdir => host.tmpdir.bind fun tmpdir =>
      if tmpdir = [] then none else AbsolutePathBuf.fromAbsolutePath host.env tmpdir
  | .slashTmp => if host.isDir slashTmp then some slashTmp else none

def resolveFileSystemPath (host : Host) (path : FileSystemPath) (cwd : Option AbsolutePathBuf) : Option AbsolutePathBuf :=
  match path with
  | .path path => some path
  | .globPattern _ => none
  | .special value => resolveFileSystemSpecialPath host value cwd

def absoluteRootPathForCwd (cwd : AbsolutePathBuf) : AbsolutePathBuf := cwd.ancestors.getLast?.getD .root

def resolveEntryPath (host : Host) (path : FileSystemPath) (cwd : Option AbsolutePathBuf) : Option AbsolutePathBuf :=
  match path with
  | .special .root => cwd.map absoluteRootPathForCwd
  | _ => resolveFileSystemPath host path cwd

def resolveCandidatePath (host : Host) (path cwd : Str) : Option AbsolutePathBuf :=
  if isAbsolute path then AbsolutePathBuf.fromAbsolutePath host.env path
  else
    some (AbsolutePathBuf.normalizePath
      (AbsolutePathBuf.pathWithBase (AbsolutePathBuf.maybeExpandHomeDirectory host.env path) cwd))

/-! ## Entries with one target -/

/-- `PathBuf` compares by components. -/
def pathBufEq (left right : Option Str) : Bool := left.map components = right.map components

def specialPathsShareTarget : FileSystemSpecialPath → FileSystemSpecialPath → Bool
  | .root, .root => true
  | .minimal, .minimal => true
  | .currentWorkingDirectory, .currentWorkingDirectory => true
  | .tmpdir, .tmpdir => true
  | .slashTmp, .slashTmp => true
  | .currentWorkingDirectory, .projectRoots none => true
  | .projectRoots none, .currentWorkingDirectory => true
  | .projectRoots left, .projectRoots right => pathBufEq left right
  | .unknown left leftSubpath, .unknown right rightSubpath => left = right && pathBufEq leftSubpath rightSubpath
  | _, _ => false

def specialPathMatchesAbsolutePath (value : FileSystemSpecialPath) (path : AbsolutePathBuf) : Bool :=
  match value with
  | .root => path.parent.isNone
  | .slashTmp => path = slashTmp
  | _ => false

def fileSystemPathsShareTarget : FileSystemPath → FileSystemPath → Bool
  | .path left, .path right => left = right
  | .special left, .special right => specialPathsShareTarget left right
  | .path path, .special value => specialPathMatchesAbsolutePath value path
  | .special value, .path path => specialPathMatchesAbsolutePath value path
  | .globPattern left, .globPattern right => left = right
  | .globPattern _, _ => false
  | _, .globPattern _ => false

namespace FileSystemSandboxPolicy

/-! ## Shortcuts -/

def hasRootAccess (policy : FileSystemSandboxPolicy) (predicate : FileSystemAccessMode → Bool) : Bool :=
  policy.kind = .restricted && policy.entries.any fun entry => entry.path = .special .root && predicate entry.access

def hasDeniedReadRestrictions (policy : FileSystemSandboxPolicy) : Bool :=
  policy.kind = .restricted && policy.entries.any fun entry => entry.access = .none

/-- A `write` entry that wins over this one is for the same target. -/
def hasSameTargetWriteOverride (policy : FileSystemSandboxPolicy) (entry : FileSystemSandboxEntry) : Bool :=
  policy.entries.any fun candidate =>
    candidate.access.canWrite && entry.access < candidate.access && fileSystemPathsShareTarget candidate.path entry.path

def narrowsWrite (policy : FileSystemSandboxPolicy) (entry : FileSystemSandboxEntry) : Bool :=
  if entry.access.canWrite then false
  else
    match entry.path with
    | .path _ => !policy.hasSameTargetWriteOverride entry
    | .globPattern _ => true
    | .special .root => entry.access = .none
    | .special .minimal => false
    | .special (.unknown _ _) => false
    | .special _ => !policy.hasSameTargetWriteOverride entry

def hasWriteNarrowingEntries (policy : FileSystemSandboxPolicy) : Bool :=
  policy.kind = .restricted && policy.entries.any policy.narrowsWrite

def hasFullDiskReadAccess (policy : FileSystemSandboxPolicy) : Bool :=
  match policy.kind with
  | .unrestricted | .externalSandbox => true
  | .restricted => policy.hasRootAccess FileSystemAccessMode.canRead && !policy.hasDeniedReadRestrictions

def hasFullDiskWriteAccess (policy : FileSystemSandboxPolicy) : Bool :=
  match policy.kind with
  | .unrestricted | .externalSandbox => true
  | .restricted => policy.hasRootAccess FileSystemAccessMode.canWrite && !policy.hasWriteNarrowingEntries

/-! ## Access to a path -/

def resolvedEntriesWithCwd (host : Host) (policy : FileSystemSandboxPolicy) (cwd : Str) : List ResolvedFileSystemEntry :=
  let cwdAbsolute := AbsolutePathBuf.fromAbsolutePath host.env cwd
  policy.entries.filterMap fun entry =>
    (resolveEntryPath host entry.path cwdAbsolute).map fun path => ⟨path, entry.access⟩

/-- The components of a path are the root and its names. -/
def resolvedEntryPrecedence (entry : ResolvedFileSystemEntry) : ℕ ×ₗ FileSystemAccessMode :=
  toLex (entry.path.names.length + 1, entry.access)

def resolveAccessWithCwd (host : Host) (policy : FileSystemSandboxPolicy) (path cwd : Str) : FileSystemAccessMode :=
  match policy.kind with
  | .unrestricted | .externalSandbox => .write
  | .restricted =>
      match resolveCandidatePath host path cwd with
      | none => .none
      | some path =>
          let entries := (policy.resolvedEntriesWithCwd host cwd).filter fun entry => path.startsWith entry.path
          ((MostSpecific.maxByKey resolvedEntryPrecedence entries).map (·.access)).getD .none

def canReadPathWithCwd (host : Host) (policy : FileSystemSandboxPolicy) (path cwd : Str) : Bool :=
  (policy.resolveAccessWithCwd host path cwd).canRead

def canWritePathWithCwd (host : Host) (policy : FileSystemSandboxPolicy) (path cwd : Str) : Bool :=
  (policy.resolveAccessWithCwd host path cwd).canWrite

/-! ## More roots -/

def pushPath (policy : FileSystemSandboxPolicy) (path : AbsolutePathBuf) (access : FileSystemAccessMode) :
    FileSystemSandboxPolicy :=
  { policy with entries := policy.entries ++ [⟨.path path, access⟩] }

def withAdditionalReadableRoots (host : Host) (policy : FileSystemSandboxPolicy) (cwd : Str)
    (additionalReadableRoots : List AbsolutePathBuf) : FileSystemSandboxPolicy :=
  if policy.hasFullDiskReadAccess then policy
  else additionalReadableRoots.foldl (fun policy path =>
    if policy.canReadPathWithCwd host path.toPath cwd then policy else policy.pushPath path .read) policy

def withAdditionalWritableRoots (host : Host) (policy : FileSystemSandboxPolicy) (cwd : Str)
    (additionalWritableRoots : List AbsolutePathBuf) : FileSystemSandboxPolicy :=
  additionalWritableRoots.foldl (fun policy path =>
    if policy.canWritePathWithCwd host path.toPath cwd then policy else policy.pushPath path .write) policy

end FileSystemSandboxPolicy

end Codrex.Permissions

/-!
## Writable roots (`protocol/src/permissions.rs`)

What a sandbox is told about a policy: the roots that can be written, each with the parts of it that cannot.
-/

namespace Codrex.Permissions

open Text

/-! ## Links -/

/-- `should_preserve_logical_path`: a link on the way that is not at the top. -/
def shouldPreserveLogicalPath (host : Host) (logical : AbsolutePathBuf) : Bool :=
  logical.ancestors.any fun ancestor =>
    host.symlinkMetadata ancestor = some .symlink && (ancestor.parent.bind AbsolutePathBuf.parent).isSome

def canonicalizePreservingSymlinks (host : Host) (path : AbsolutePathBuf) : AbsolutePathBuf :=
  match host.canonicalize path with
  | some canonical => if shouldPreserveLogicalPath host path && canonical ≠ path then path else canonical
  | none => path

def normalizeEffectiveAbsolutePath (host : Host) (path : AbsolutePathBuf) : AbsolutePathBuf :=
  (path.ancestors.findSome? fun ancestor =>
    if (host.symlinkMetadata ancestor).isNone then none
    else (path.stripBase ancestor).bind fun suffix =>
      AbsolutePathBuf.fromAbsolutePath host.env
        (UnixPath.join (canonicalizePreservingSymlinks host ancestor).toPath suffix)).getD path

/-- The first of each path is kept. -/
def keepUnseen : List AbsolutePathBuf → List AbsolutePathBuf → List AbsolutePathBuf
  | _, [] => []
  | seen, path :: paths => if path ∈ seen then keepUnseen seen paths else path :: keepUnseen (path :: seen) paths

def dedupAbsolutePaths (host : Host) (paths : List AbsolutePathBuf) (normalizeEffectivePaths : Bool) :
    List AbsolutePathBuf :=
  keepUnseen [] (if normalizeEffectivePaths then paths.map (normalizeEffectiveAbsolutePath host) else paths)

/-! ## What is protected by default -/

def isGitPointerFile (host : Host) (path : AbsolutePathBuf) : Bool :=
  host.isFile path && path.fileName = some ".git".toList

/-- `str::split_once`. -/
def splitOnce (text : Str) (separator : Char) : Option (Str × Str) :=
  (find [separator] text).map fun index => (text.take index, text.drop (index + 1))

def resolveGitdirFromFile (host : Host) (dotGit : AbsolutePathBuf) : Option AbsolutePathBuf :=
  (host.readToString dotGit).bind fun contents =>
    (splitOnce (trim contents) ':').bind fun (_, gitdirRaw) =>
      let gitdirRaw := trim gitdirRaw
      if gitdirRaw = [] then none
      else dotGit.parent.bind fun base =>
        let gitdirPath := AbsolutePathBuf.resolvePathAgainstBase host.env gitdirRaw base
        if host.pathExists gitdirPath then some gitdirPath else none

def gitSubpaths (host : Host) (writableRoot : AbsolutePathBuf) : List AbsolutePathBuf :=
  let topLevelGit := writableRoot.join host.env ".git"
  if host.isDir topLevelGit || host.isFile topLevelGit then
    (if host.isFile topLevelGit && isGitPointerFile host topLevelGit then (resolveGitdirFromFile host topLevelGit).toList
      else []) ++ [topLevelGit]
  else []

def defaultReadOnlySubpathsForWritableRoot (host : Host) (writableRoot : AbsolutePathBuf)
    (protectMissingDotCodex : Bool) : List AbsolutePathBuf :=
  let topLevelAgents := writableRoot.join host.env ".agents"
  let topLevelCodex := writableRoot.join host.env ".codex"
  dedupAbsolutePaths host
    (gitSubpaths host writableRoot ++
      (if host.isDir topLevelAgents then [topLevelAgents] else []) ++
      if protectMissingDotCodex || host.isDir topLevelCodex then [topLevelCodex] else [])
    false

/-! ## The roots -/

structure WritableRoot where
  root : AbsolutePathBuf
  readOnlySubpaths : List AbsolutePathBuf
  deriving DecidableEq

def WritableRoot.isPathWritable (writableRoot : WritableRoot) (path : AbsolutePathBuf) : Bool :=
  path.startsWith writableRoot.root && writableRoot.readOnlySubpaths.all fun subpath => !path.startsWith subpath

def hasExplicitResolvedPathEntry (entries : List ResolvedFileSystemEntry) (path : AbsolutePathBuf) : Bool :=
  entries.any fun entry => entry.path = path

/-- The path of the entry as it is spelled under the root. -/
def rawCarveoutPath (host : Host) (root : AbsolutePathBuf) (rawWritableRoots : List AbsolutePathBuf)
    (entry : AbsolutePathBuf) : Option AbsolutePathBuf :=
  if entry = root then none
  else if entry.startsWith root then some entry
  else rawWritableRoots.findSome? fun rawRoot =>
    (entry.stripBase rawRoot).bind fun suffix => if suffix = [] then none else some (root.join host.env suffix)

def carveoutPath (host : Host) (root : AbsolutePathBuf) (rawWritableRoots : List AbsolutePathBuf)
    (entry : AbsolutePathBuf) : Option AbsolutePathBuf :=
  let effectivePath := normalizeEffectiveAbsolutePath host entry
  let preserveRawCarveoutPaths := root.parent.isSome
  match if preserveRawCarveoutPaths then rawCarveoutPath host root rawWritableRoots entry else none with
  | some rawCarveoutPath => some rawCarveoutPath
  | none => if effectivePath = root || !effectivePath.startsWith root then none else some effectivePath

namespace FileSystemSandboxPolicy

def protectMissingDotCodex (host : Host) (cwd : Str) (root : AbsolutePathBuf) : Bool :=
  (AbsolutePathBuf.fromAbsolutePath host.env cwd).any fun cwd => normalizeEffectiveAbsolutePath host cwd = root

def writableEntries (host : Host) (policy : FileSystemSandboxPolicy) (cwd : Str) : List AbsolutePathBuf :=
  ((policy.resolvedEntriesWithCwd host cwd).filter fun entry =>
    entry.access.canWrite && policy.canWritePathWithCwd host entry.path.toPath cwd).map (·.path)

/-- Explicit entries that are not writable, under the root. -/
def carveouts (host : Host) (policy : FileSystemSandboxPolicy) (cwd : Str) (root : AbsolutePathBuf) :
    List AbsolutePathBuf :=
  let rawWritableRoots := (policy.writableEntries host cwd).filter fun path =>
    normalizeEffectiveAbsolutePath host path = root
  ((policy.resolvedEntriesWithCwd host cwd).filter fun entry =>
    !entry.access.canWrite && !policy.canWritePathWithCwd host entry.path.toPath cwd).filterMap fun entry =>
      carveoutPath host root rawWritableRoots entry.path

def writableRoot (host : Host) (policy : FileSystemSandboxPolicy) (cwd : Str) (root : AbsolutePathBuf) : WritableRoot :=
  let defaults := (defaultReadOnlySubpathsForWritableRoot host root (protectMissingDotCodex host cwd root)).filter
    fun path => !hasExplicitResolvedPathEntry (policy.resolvedEntriesWithCwd host cwd) path
  ⟨root, dedupAbsolutePaths host (defaults ++ policy.carveouts host cwd root) false⟩

def getWritableRootsWithCwd (host : Host) (policy : FileSystemSandboxPolicy) (cwd : Str) : List WritableRoot :=
  if policy.hasFullDiskWriteAccess then []
  else (dedupAbsolutePaths host (policy.writableEntries host cwd) true).map (policy.writableRoot host cwd)

end FileSystemSandboxPolicy

end Codrex.Permissions
