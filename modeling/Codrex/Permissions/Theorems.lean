import Codrex.Permissions.Lemmas.Additional

/-!
# Roots and paths
-/

namespace Codrex.Permissions

open Text UnixPath FileSystemSandboxPolicy

/-- What the sandbox is told, the access of a path and the shortcuts for the whole disk agree exactly if a `read` entry
for `/tmp` is not taken for harmless because of a `write` entry that is not there. -/
theorem accessAgrees_iff (host : Host) (policy : FileSystemSandboxPolicy) (cwd : Str) (hlinks : NoSymlinks host)
    (hcwd : isAbsolute cwd = true) : policy.AccessAgrees host cwd ↔ policy.SlashTmpCovered host cwd := by
  constructor
  · intro h hroot hnarrowing hread
    have hkind : policy.kind = .restricted := kind_of_hasRootAccess hroot
    have hfull : policy.hasFullDiskWriteAccess = true := by
      simp [hasFullDiskWriteAccess, hkind, hroot, hnarrowing]
    exact .inr (slashTmpCovered_of_canWrite hcwd hkind (h.fullDiskWrite hfull _ rfl) hread)
  · intro hcovered
    refine ⟨?_, ?_, ?_, ?_⟩
    · intro hkind hfull path hpath writableRoot hmem hwritable
      obtain ⟨root, hroot, rfl⟩ := (mem_getWritableRoots hlinks hfull).mp hmem
      obtain ⟨hunder, hcarveouts, -⟩ := isPathWritable_iff.mp hwritable
      exact (canWrite_iff_root hkind hlinks hpath).mpr ⟨root, hroot, hunder, hcarveouts⟩
    · intro hkind hfull path hpath hwritable hdefault
      obtain ⟨root, hroot, hunder, hcarveouts⟩ := (canWrite_iff_root hkind hlinks hpath).mp hwritable
      have hmem := (mem_getWritableRoots hlinks hfull).mpr ⟨root, hroot, rfl⟩
      refine ⟨_, hmem, isPathWritable_iff.mpr ⟨hunder, hcarveouts, ?_⟩⟩
      intro subpath hsubpath _ hstarts
      exact hdefault ⟨_, hmem, subpath, hsubpath, startsWith_iff.mpr hstarts⟩
    · intro hfull path hpath
      cases hkind : policy.kind with
      | restricted =>
          exact canWrite_of_hasFullDiskWriteAccess hcwd hkind hfull hcovered hpath
      | unrestricted | externalSandbox =>
          simp [canWritePathWithCwd, resolveAccessWithCwd, hkind,
            FileSystemAccessMode.canWrite]
    · intro hfull path hpath
      cases hkind : policy.kind with
      | restricted => exact canRead_of_hasFullDiskReadAccess hcwd hkind hfull hpath
      | unrestricted | externalSandbox =>
          simp [canReadPathWithCwd, resolveAccessWithCwd, hkind,
            FileSystemAccessMode.canRead]

/-- A disk with these directories and nothing else. -/
def directoriesOnly (directories : List AbsolutePathBuf) : Host where
  env := ⟨none, none⟩
  tmpdir := none
  symlinkMetadata path := if path ∈ directories then some .directory else none
  metadata path := if path ∈ directories then some .directory else none
  canonicalize path := if path ∈ directories then some path else none
  readToString _ := none

theorem noSymlinks_directoriesOnly (directories : List AbsolutePathBuf) : NoSymlinks (directoriesOnly directories) := by
  intro path canonical h
  simp only [directoriesOnly] at h
  split at h
  · exact (Option.some.inj h).symm
  · cases h

/-- All may be written; `/tmp` is read-only by its path and writable by its name. -/
def writableTmp : FileSystemSandboxPolicy :=
  ⟨.restricted, [⟨.special .root, .write⟩, ⟨.path slashTmp, .read⟩, ⟨.special .slashTmp, .write⟩]⟩

theorem accessAgrees_writableTmp : writableTmp.AccessAgrees (directoriesOnly [.root, slashTmp]) "/" :=
  (accessAgrees_iff _ writableTmp "/" (noSymlinks_directoriesOnly _) (by decide)).mpr fun _ _ _ => .inl (by decide)

/-- Without the directory `/tmp` the whole disk counts as writable, and `/tmp/x` is not. -/
theorem missingTmp_not_agrees :
    writableTmp.hasFullDiskWriteAccess = true ∧
      writableTmp.canWritePathWithCwd (directoriesOnly [.root]) "/tmp/x" "/" = false ∧
      ¬ writableTmp.AccessAgrees (directoriesOnly [.root]) "/" := by
  have hfull : writableTmp.hasFullDiskWriteAccess = true := by decide
  have hdenied : writableTmp.canWritePathWithCwd (directoriesOnly [.root]) "/tmp/x" "/" = false := by decide
  refine ⟨hfull, hdenied, fun h => ?_⟩
  have hwritable := h.fullDiskWrite hfull "/tmp/x" (by decide)
  rw [hdenied] at hwritable
  cases hwritable

/-! ## More roots -/

/-- More roots take nothing away, change nothing elsewhere, and are there afterwards unless they are denied for good. A
second time they change nothing. -/
theorem moreRoots_grantOnly (host : Host) (policy : FileSystemSandboxPolicy) (cwd : Str) (roots : List AbsolutePathBuf)
    (hkind : policy.kind = .restricted) (hcwd : isAbsolute cwd = true) :
    (GrantsOnly host cwd .read roots policy (policy.withAdditionalReadableRoots host cwd roots) ∧
      SameAccess host cwd
        ((policy.withAdditionalReadableRoots host cwd roots).withAdditionalReadableRoots host cwd roots)
        (policy.withAdditionalReadableRoots host cwd roots)) ∧
    GrantsOnly host cwd .write roots policy (policy.withAdditionalWritableRoots host cwd roots) ∧
      SameAccess host cwd
        ((policy.withAdditionalWritableRoots host cwd roots).withAdditionalWritableRoots host cwd roots)
        (policy.withAdditionalWritableRoots host cwd roots) := by
  refine ⟨⟨grantsOnly_withAdditionalReadableRoots hkind hcwd roots,
    sameAccess_withAdditionalReadableRoots hkind roots⟩, ?_⟩
  simp only [withAdditionalWritableRoots_eq]
  exact ⟨grantsOnly_foldl (by decide) hkind roots, sameAccess_foldl_foldl (by decide) hkind roots⟩

/-- Under `/a`, which is denied, `/a/b` is granted to be written, and `/a` itself stays denied. -/
theorem deniedRoot_grantOnly :
    GrantsOnly (directoriesOnly [.root]) "/" .write [.normalizePath "/a", .normalizePath "/a/b"]
      (.restricted [⟨.path (.normalizePath "/a"), .none⟩])
      (FileSystemSandboxPolicy.withAdditionalWritableRoots (directoriesOnly [.root])
        (.restricted [⟨.path (.normalizePath "/a"), .none⟩]) "/" [.normalizePath "/a", .normalizePath "/a/b"]) :=
  (moreRoots_grantOnly _ _ _ _ rfl (by decide)).2.1

/-! ## Denied reads -/

/-- All that is under a denial, but for one of the root, is denied. This is what the most specific entry says, except
where that entry gives back a part of what is denied further up. -/
structure DeniesBelow (host : Host) (policy : FileSystemSandboxPolicy) (cwd : Str) (place : AbsolutePathBuf)
    (denied : Bool) : Prop where
  below : denied = true ↔ ∃ deny ∈ policy.resolvedEntriesWithCwd host cwd, deny.access = .none ∧ deny.path ≠ .root ∧
    place.startsWith deny.path = true
  deciding : ∀ rule, policy.DecidesAt host cwd place rule → rule.access = .none →
    (denied = true ↔ rule.path ≠ .root)
  givenBack : ∀ rule, policy.DecidesAt host cwd place rule → rule.access ≠ .none → denied = true →
    ∃ deny ∈ policy.resolvedEntriesWithCwd host cwd, deny.access = .none ∧ deny.path ≠ .root ∧
      deny.path ≠ rule.path ∧ rule.path.startsWith deny.path = true

theorem readDenied_below (host : Host) (globs : GlobBuilder) (policy : FileSystemSandboxPolicy) (cwd : Str)
    (hkind : policy.kind = .restricted) (hlinks : NoSymlinks host) (hcwd : isAbsolute cwd = true)
    (hglobs : policy.GlobFree) (hdenied : ∃ entry ∈ policy.entries, entry.access = .none) :
    ∃ matcher, ReadDenyMatcher.new host globs policy cwd = some matcher ∧ ∀ path, isAbsolute path = true →
      DeniesBelow host policy cwd (.normalizePath path) (matcher.isReadDenied host (.normalizePath path)) := by
  obtain ⟨matcher, hmatcher⟩ := exists_matcher host globs cwd hkind hdenied
  refine ⟨matcher, hmatcher, fun path _ => ?_⟩
  have hbelow := @isReadDenied_iff host globs policy cwd (.normalizePath path) hlinks hcwd hkind hglobs
  rw [hmatcher, Option.any_some] at hbelow
  refine ⟨hbelow, ?_, ?_⟩
  · intro rule hrule hnone
    rw [hbelow]
    constructor
    · rintro ⟨deny, hmem, -, hne, hunder⟩ hroot
      exact hne (eq_root_of_decides hrule hroot hmem hunder)
    · intro hne
      exact ⟨rule, hrule.mem, hnone, hne, startsWith_iff.mpr hrule.applies⟩
  · intro rule hrule haccess hread
    obtain ⟨deny, hmem, hnone, hne, hunder⟩ := hbelow.mp hread
    refine ⟨deny, hmem, hnone, hne, ?_, startsWith_iff.mpr (hrule.prefix_path hmem (startsWith_iff.mp hunder))⟩
    intro hsame
    exact haccess (none_of_deny_same hrule hmem hnone hsame)

/-- `/a` is denied, and `/a/b` given back. -/
def readBelowDeny : FileSystemSandboxPolicy :=
  .restricted [⟨.path (.normalizePath "/a"), .none⟩, ⟨.path (.normalizePath "/a/b"), .read⟩]

theorem readBelowDeny_below : ∃ matcher, ReadDenyMatcher.new (directoriesOnly [.root]) (fun _ => none) readBelowDeny "/" =
    some matcher ∧ ∀ path, isAbsolute path = true →
      DeniesBelow (directoriesOnly [.root]) readBelowDeny "/" (.normalizePath path)
        (matcher.isReadDenied (directoriesOnly [.root]) (.normalizePath path)) :=
  readDenied_below _ _ _ _ rfl (noSymlinks_directoriesOnly _) (by decide)
    (by simp [GlobFree, readBelowDeny, FileSystemSandboxPolicy.restricted]) ⟨_, List.mem_cons_self, rfl⟩

/-- What is given back can be read by its access, and is still denied by the matcher. -/
theorem givenBack_still_denied :
    readBelowDeny.resolveAccessWithCwd (directoriesOnly [.root]) "/a/b" "/" = .read ∧
    (ReadDenyMatcher.new (directoriesOnly [.root]) (fun _ => none) readBelowDeny "/").any
      (·.isReadDenied (directoriesOnly [.root]) (.normalizePath "/a/b")) = true := by
  decide

/-! ## Requested and granted permissions -/

/-- What is left of a grant stays within it and within the request, exactly if no `write` is granted over a requested
`read` with nothing in between: denials of the request are carried over, its reads are not. -/
theorem staysWithin_iff (host : Host) (globs : GlobBuilder) (requested granted : AdditionalPermissionProfile) (cwd : Str)
    (hlinks : NoSymlinks host) (hcwd : isAbsolute cwd = true) (hrequested : requested.GlobFree)
    (hgranted : granted.GlobFree) :
    StaysWithin host globs requested granted cwd ↔ ReadsKept host requested granted cwd := by
  constructor
  · intro h kept _ _ hnotWritten written hgrant hwrite hunder _ hcovered
    by_contra hfree
    have hwritten := canWrite_of_not_separated hlinks hcwd hrequested hgranted globs hgrant hwrite hunder hcovered hfree
    rw [(h.write _ rfl hwritten).1] at hnotWritten
    cases hnotWritten
  · intro hkept
    constructor
    · intro path hpath hread
      obtain ⟨grant, hdecides, haccess⟩ := (canRead_iff rfl hpath).mp hread
      exact ⟨(canRead_iff rfl hpath).mpr (requested_canRead hlinks hcwd hrequested hgranted hdecides haccess),
        (canRead_iff rfl hpath).mpr (granted_canRead hlinks hcwd hrequested hgranted hdecides haccess)⟩
    · intro path hpath hwrite
      obtain ⟨grant, hdecides, haccess⟩ := (canWrite_iff rfl hpath).mp hwrite
      exact ⟨(canWrite_iff rfl hpath).mpr (requested_canWrite hlinks hcwd hrequested hgranted hdecides haccess hkept),
        (canWrite_iff rfl hpath).mpr (granted_canWrite hlinks hcwd hrequested hgranted hdecides haccess)⟩
    · exact networkEnabled_of_intersect
    · intro path hpath
      exact resolveAccess_congr (fun _ => mem_rules_intersect_again hlinks hcwd hrequested hgranted) hpath

def noGlobs : GlobBuilder := fun _ => none

def fileSystemOnly (entries : List (AbsolutePathBuf × FileSystemAccessMode)) : AdditionalPermissionProfile :=
  ⟨none, some ⟨entries.map fun (path, access) => ⟨.path path, access⟩, none⟩⟩

theorem globFree_fileSystemOnly (entries : List (AbsolutePathBuf × FileSystemAccessMode)) :
    (fileSystemOnly entries).GlobFree := by
  intro entry hentry
  obtain ⟨_, _, rfl⟩ := List.mem_map.mp hentry
  exact fun _ => FileSystemPath.noConfusion

/-- The request would write `/a`, and only read `/a/b`. -/
def readBelowWrite : AdditionalPermissionProfile :=
  fileSystemOnly [(.normalizePath "/a", .write), (.normalizePath "/a/b", .read)]

theorem readBelowWrite_staysWithin :
    StaysWithin (directoriesOnly [.root]) noGlobs readBelowWrite readBelowWrite "/" := by
  apply (staysWithin_iff _ _ _ _ _ (noSymlinks_directoriesOnly _) (by decide) (globFree_fileSystemOnly _)
    (globFree_fileSystemOnly _)).mpr
  unfold ReadsKept Separated
  decide

/-- Where `write` is granted for `/a`, all of it can be written, `/a/b` included. -/
theorem readBelowWrite_exceeded :
    (intersectPermissionProfiles (directoriesOnly [.root]) noGlobs readBelowWrite
      (fileSystemOnly [(.normalizePath "/a", .write)]) "/").policy.canWritePathWithCwd (directoriesOnly [.root]) "/a/b"
        "/" = true ∧
    readBelowWrite.policy.canWritePathWithCwd (directoriesOnly [.root]) "/a/b" "/" = false ∧
    ¬ StaysWithin (directoriesOnly [.root]) noGlobs readBelowWrite (fileSystemOnly [(.normalizePath "/a", .write)])
      "/" := by
  have hwritten : (intersectPermissionProfiles (directoriesOnly [.root]) noGlobs readBelowWrite
      (fileSystemOnly [(.normalizePath "/a", .write)]) "/").policy.canWritePathWithCwd (directoriesOnly [.root]) "/a/b"
        "/" = true := by decide
  have hnotRequested : readBelowWrite.policy.canWritePathWithCwd (directoriesOnly [.root]) "/a/b" "/" = false := by
    decide
  refine ⟨hwritten, hnotRequested, ?_⟩
  intro h
  rw [(h.write "/a/b" (by decide) hwritten).1] at hnotRequested
  cases hnotRequested

/-! ## Additional permissions -/

/-- Additional permissions only add exactly if no `read` is added where an entry further up gives `write`. -/
theorem additionsOnlyAdd_iff (host : Host) (policy : FileSystemSandboxPolicy) (profile other : AdditionalPermissionProfile)
    (cwd : Str) (hkind : policy.kind = .restricted) (hcwd : isAbsolute cwd = true)
    (haccess : ∀ entry ∈ profile.entries, entry.access ≠ .none) :
    AdditionsOnlyAdd host cwd policy profile other ↔ ReadsCovered host cwd policy profile := by
  constructor
  · exact fun h => readsCovered_of_adds hkind hcwd h.adds
  · intro h
    constructor
    · exact fun path hpath => adds_of_readsCovered hkind hcwd haccess h hpath
    · intro path hpath deny hmax hnone habove
      exact denied_of_deny hkind hcwd hpath
        (MostSpecific.decides_of_maxByKey (fun _ => rfl) (fun _ => startsWith_iff) hmax) hnone habove
    · intro path hpath
      refine resolveAccess_congr_entries (effective_kind hkind _) (effective_kind (effective_kind hkind _) _)
        (fun entry => ?_) hcwd hpath
      rw [mem_effective hkind, mem_merged, mem_effective (effective_kind hkind _), mem_effective hkind]
      simp [addedEntries, or_assoc]
    · intro path hpath
      refine resolveAccess_congr_entries (effective_kind hkind _) (effective_kind (effective_kind hkind _) _)
        (fun entry => ?_) hcwd hpath
      rw [mem_effective hkind, mem_merged, mem_effective (effective_kind hkind _), mem_effective hkind]
      simp only [addedEntries, Option.map_some, Option.getD_some]
      rw [or_right_comm, or_assoc]

/-- All under `/a` may be written. -/
def writableA : FileSystemSandboxPolicy := .restricted [⟨.path (.normalizePath "/a"), .write⟩]

theorem writableA_onlyAdds : AdditionsOnlyAdd (directoriesOnly [.root]) "/" writableA
    (fileSystemOnly [(.normalizePath "/b", .read)]) (fileSystemOnly [(.normalizePath "/a/b", .write)]) := by
  apply (additionsOnlyAdd_iff _ _ _ _ _ rfl (by decide) (by decide)).mpr
  unfold ReadsCovered
  decide

/-- Adding `read` for `/a/b` takes `write` away there. -/
theorem writableA_narrowed :
    writableA.canWritePathWithCwd (directoriesOnly [.root]) "/a/b" "/" = true ∧
    (effectiveFileSystemSandboxPolicy writableA
      (some (fileSystemOnly [(.normalizePath "/a/b", .read)]))).canWritePathWithCwd (directoriesOnly [.root]) "/a/b" "/" =
        false ∧
    ¬ AdditionsOnlyAdd (directoriesOnly [.root]) "/" writableA (fileSystemOnly [(.normalizePath "/a/b", .read)])
      (fileSystemOnly []) := by
  have hwritable : writableA.canWritePathWithCwd (directoriesOnly [.root]) "/a/b" "/" = true := by decide
  have hnarrowed : (effectiveFileSystemSandboxPolicy writableA
      (some (fileSystemOnly [(.normalizePath "/a/b", .read)]))).canWritePathWithCwd (directoriesOnly [.root]) "/a/b" "/" =
        false := by decide
  refine ⟨hwritable, hnarrowed, fun h => ?_⟩
  rw [canWritePathWithCwd, canWrite_iff_rights] at hwritable
  have hstill := (canWrite_iff_rights _).mpr (hwritable.trans (h.adds "/a/b" (by decide)))
  rw [← canWritePathWithCwd, hnarrowed] at hstill
  cases hstill

end Codrex.Permissions
