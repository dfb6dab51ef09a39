import Codrex.Permissions.PolicyTransforms

/-!
# Roots and paths

The roots that a sandbox is told about, the access that a path has, and the shortcuts for the whole disk are to say the
same.
-/

namespace Codrex.Permissions

open Text UnixPath

/-- Without links a path is its own canonical form. -/
def NoSymlinks (host : Host) : Prop := ∀ path canonical, host.canonicalize path = some canonical → canonical = path

namespace FileSystemSandboxPolicy

/-- The place is under a path that is protected by default in a writable root. -/
def DefaultProtected (host : Host) (policy : FileSystemSandboxPolicy) (cwd : Str) (place : AbsolutePathBuf) : Prop :=
  ∃ writableRoot ∈ policy.getWritableRootsWithCwd host cwd,
    ∃ subpath ∈ defaultReadOnlySubpathsForWritableRoot host writableRoot.root
      (protectMissingDotCodex host cwd writableRoot.root), place.startsWith subpath = true

structure AccessAgrees (host : Host) (policy : FileSystemSandboxPolicy) (cwd : Str) : Prop where
  rootsWritable : policy.kind = .restricted → policy.hasFullDiskWriteAccess = false →
    ∀ path, isAbsolute path = true → ∀ writableRoot ∈ policy.getWritableRootsWithCwd host cwd,
      writableRoot.isPathWritable (.normalizePath path) = true → policy.canWritePathWithCwd host path cwd = true
  writableRooted : policy.kind = .restricted → policy.hasFullDiskWriteAccess = false →
    ∀ path, isAbsolute path = true → policy.canWritePathWithCwd host path cwd = true →
      ¬ policy.DefaultProtected host cwd (.normalizePath path) →
        ∃ writableRoot ∈ policy.getWritableRootsWithCwd host cwd,
          writableRoot.isPathWritable (.normalizePath path) = true
  fullDiskWrite : policy.hasFullDiskWriteAccess = true →
    ∀ path, isAbsolute path = true → policy.canWritePathWithCwd host path cwd = true
  fullDiskRead : policy.hasFullDiskReadAccess = true →
    ∀ path, isAbsolute path = true → policy.canReadPathWithCwd host path cwd = true

/-- Where the whole disk counts as writable, a `read` entry for `/tmp` has a `write` entry that is really there. -/
def SlashTmpCovered (host : Host) (policy : FileSystemSandboxPolicy) (cwd : Str) : Prop :=
  policy.hasRootAccess FileSystemAccessMode.canWrite = true → policy.hasWriteNarrowingEntries = false →
    ⟨.path slashTmp, .read⟩ ∈ policy.entries → host.isDir slashTmp = true ∨
      ∃ entry ∈ policy.entries, entry.access = .write ∧
        resolveEntryPath host entry.path (AbsolutePathBuf.fromAbsolutePath host.env cwd) = some slashTmp

def GlobFree (policy : FileSystemSandboxPolicy) : Prop :=
  ∀ entry ∈ policy.entries, ∀ pattern, entry.path ≠ .globPattern pattern

end FileSystemSandboxPolicy

/-! ## More roots -/

/-- What an access allows: `read` more than `none`, and `write` more than `read`. -/
def FileSystemAccessMode.rights : FileSystemAccessMode → Nat
  | .none => 0
  | .read => 1
  | .write => 2

/-- The roots are granted, and nothing else changes. -/
structure GrantsOnly (host : Host) (cwd : Str) (access : FileSystemAccessMode) (roots : List AbsolutePathBuf)
    (policy added : FileSystemSandboxPolicy) : Prop where
  grants : ∀ path,
    (policy.resolveAccessWithCwd host path cwd).rights ≤ (added.resolveAccessWithCwd host path cwd).rights
  onlyRoots : ∀ path, added.resolveAccessWithCwd host path cwd ≠ policy.resolveAccessWithCwd host path cwd →
    ∃ root ∈ roots, ∃ place, resolveCandidatePath host path cwd = some place ∧ place.startsWith root = true
  granted : ∀ root ∈ roots, access.rights ≤ (added.resolveAccessWithCwd host root.toPath cwd).rights ∨
    ∃ entry ∈ policy.resolvedEntriesWithCwd host cwd, entry.path = root ∧ entry.access = .none

/-- The two say the same about every path. -/
def SameAccess (host : Host) (cwd : Str) (policy other : FileSystemSandboxPolicy) : Prop :=
  ∀ path, policy.resolveAccessWithCwd host path cwd = other.resolveAccessWithCwd host path cwd

/-! ## Requested and granted permissions -/

namespace AdditionalPermissionProfile

def entries (profile : AdditionalPermissionProfile) : List FileSystemSandboxEntry :=
  (profile.fileSystem.map (·.entries)).getD []

def policy (profile : AdditionalPermissionProfile) : FileSystemSandboxPolicy := .restricted profile.entries

def rules (host : Host) (profile : AdditionalPermissionProfile) (cwd : Str) : List ResolvedFileSystemEntry :=
  profile.policy.resolvedEntriesWithCwd host cwd

def GlobFree (profile : AdditionalPermissionProfile) : Prop :=
  ∀ entry ∈ profile.entries, ∀ pattern, entry.path ≠ .globPattern pattern

def NetworkEnabled (profile : AdditionalPermissionProfile) : Prop := profile.network = some ⟨some true⟩

end AdditionalPermissionProfile

/-- Additional permissions take nothing away, leave a denial alone that none of them is at or below, and come to the same
in any order, merged or not. -/
structure AdditionsOnlyAdd (host : Host) (cwd : Str) (policy : FileSystemSandboxPolicy)
    (profile other : AdditionalPermissionProfile) : Prop where
  adds : ∀ path, isAbsolute path = true → (policy.resolveAccessWithCwd host path cwd).rights ≤
    ((effectiveFileSystemSandboxPolicy policy (some profile)).resolveAccessWithCwd host path cwd).rights
  denials : ∀ path, isAbsolute path = true → ∀ deny,
    MostSpecific.maxByKey FileSystemSandboxPolicy.resolvedEntryPrecedence
      ((policy.resolvedEntriesWithCwd host cwd).filter fun entry =>
        (AbsolutePathBuf.normalizePath path).startsWith entry.path) = some deny → deny.access = .none →
    (∀ rule ∈ profile.rules host cwd, rule.path.startsWith deny.path = false) →
    (effectiveFileSystemSandboxPolicy policy (some profile)).canReadPathWithCwd host path cwd = false
  merged : ∀ path, isAbsolute path = true →
    (effectiveFileSystemSandboxPolicy policy (mergePermissionProfiles (some profile) (some other))).resolveAccessWithCwd
        host path cwd =
      (effectiveFileSystemSandboxPolicy (effectiveFileSystemSandboxPolicy policy (some profile))
        (some other)).resolveAccessWithCwd host path cwd
  swapped : ∀ path, isAbsolute path = true →
    (effectiveFileSystemSandboxPolicy policy (mergePermissionProfiles (some profile) (some other))).resolveAccessWithCwd
        host path cwd =
      (effectiveFileSystemSandboxPolicy (effectiveFileSystemSandboxPolicy policy (some other))
        (some profile)).resolveAccessWithCwd host path cwd

/-- Where `read` is added under a place that can be written, `write` is given too. -/
def ReadsCovered (host : Host) (cwd : Str) (policy : FileSystemSandboxPolicy) (profile : AdditionalPermissionProfile) :
    Prop :=
  ∀ rule ∈ profile.rules host cwd, rule.access = .read →
    policy.canWritePathWithCwd host rule.path.toPath cwd = true →
      (⟨rule.path, .write⟩ : ResolvedFileSystemEntry) ∈ policy.resolvedEntriesWithCwd host cwd ++ profile.rules host cwd

/-- What is left of a grant goes beyond neither the grant nor the request, and the request cuts it down no further. -/
structure StaysWithin (host : Host) (globs : GlobBuilder) (requested granted : AdditionalPermissionProfile)
    (cwd : Str) : Prop where
  read : ∀ path, isAbsolute path = true →
    (intersectPermissionProfiles host globs requested granted cwd).policy.canReadPathWithCwd host path cwd = true →
      requested.policy.canReadPathWithCwd host path cwd = true ∧ granted.policy.canReadPathWithCwd host path cwd = true
  write : ∀ path, isAbsolute path = true →
    (intersectPermissionProfiles host globs requested granted cwd).policy.canWritePathWithCwd host path cwd = true →
      requested.policy.canWritePathWithCwd host path cwd = true ∧ granted.policy.canWritePathWithCwd host path cwd = true
  network : (intersectPermissionProfiles host globs requested granted cwd).NetworkEnabled →
    requested.NetworkEnabled ∧ granted.NetworkEnabled
  stable : ∀ path, isAbsolute path = true →
    (intersectPermissionProfiles host globs requested (intersectPermissionProfiles host globs requested granted cwd)
      cwd).policy.resolveAccessWithCwd host path cwd =
      (intersectPermissionProfiles host globs requested granted cwd).policy.resolveAccessWithCwd host path cwd

/-- Something on the way from a granted `write` down to a requested `read` keeps the one from the other. -/
def Separated (host : Host) (requested granted : AdditionalPermissionProfile) (cwd : Str)
    (written kept : AbsolutePathBuf) : Prop :=
  (∃ deny ∈ requested.rules host cwd, deny.access = .none ∧ deny.path ≠ .root ∧ kept.startsWith deny.path = true) ∨
  ∃ rule ∈ granted.rules host cwd, kept.startsWith rule.path = true ∧ rule.path.startsWith written = true ∧
    (rule.access = .none ∨ rule.access = .read ∧ rule.path ≠ written)

/-- Where the request asks for `read` under a place that it would have written, no `write` is granted for the place
without something in between. -/
def ReadsKept (host : Host) (requested granted : AdditionalPermissionProfile) (cwd : Str) : Prop :=
  ∀ kept ∈ requested.rules host cwd, kept.access = .read →
    requested.policy.canWritePathWithCwd host kept.path.toPath cwd = false →
    ∀ written ∈ granted.rules host cwd, written.access = .write →
      kept.path.startsWith written.path = true → kept.path ≠ written.path →
      requested.policy.canWritePathWithCwd host written.path.toPath cwd = true →
        Separated host requested granted cwd written.path kept.path

end Codrex.Permissions
