import Codrex.Permissions.Lemmas.Access

/-!
# Access to the whole disk

Under a `root` entry every place is decided. A `read` entry whose target a `write` entry shares decides nothing, as long as
that `write` entry is resolved too.
-/

namespace Codrex.Permissions

open Text UnixPath MostSpecific

variable {host : Host} {policy : FileSystemSandboxPolicy} {cwd : Str}

/-! ## Shared targets -/

theorem absoluteRootPathForCwd_eq (cwd : AbsolutePathBuf) : absoluteRootPathForCwd cwd = .root := by
  rw [absoluteRootPathForCwd, AbsolutePathBuf.ancestors, List.getLast?_map, List.getLast?_reverse, List.head?_range]
  rfl

theorem parent_isNone_iff {path : AbsolutePathBuf} : path.parent.isNone = true ↔ path = .root := by
  rw [AbsolutePathBuf.parent]
  split
  next h => exact iff_of_true rfl (AbsolutePathBuf.ext_names h)
  next h => exact iff_of_false (by simp) fun heq => h (by rw [heq]; rfl)

theorem resolveEntryPath_of_specialPathsShareTarget {left right : FileSystemSpecialPath} {cwd : AbsolutePathBuf}
    (hshare : specialPathsShareTarget left right = true) :
    resolveEntryPath host (.special left) (some cwd) = resolveEntryPath host (.special right) (some cwd) := by
  revert hshare
  fun_cases specialPathsShareTarget left right with
  | case8 left right =>
      intro hshare
      cases left with
      | none =>
          cases right with
          | none => rfl
          | some right => simp [pathBufEq] at hshare
      | some left =>
          cases right with
          | none => simp [pathBufEq] at hshare
          | some right =>
              have hcomponents : components left = components right := by simpa [pathBufEq] using hshare
              exact congrArg some (AbsolutePathBuf.resolvePathAgainstBase_congr hcomponents cwd)
  | case10 => simp
  | _ =>
      intro _
      rfl

/-- Entries that share a target are resolved to the same place, apart from `/tmp` when it is not a directory. -/
theorem resolveEntryPath_of_shareTarget {candidate path : FileSystemPath} {cwd target : AbsolutePathBuf}
    (hshare : fileSystemPathsShareTarget candidate path = true)
    (hresolved : resolveEntryPath host path (some cwd) = some target) :
    resolveEntryPath host candidate (some cwd) = some target ∨
      candidate = .special .slashTmp ∧ path = .path slashTmp := by
  cases candidate with
  | path left =>
      cases path with
      | path right =>
          obtain rfl : left = right := by simpa [fileSystemPathsShareTarget] using hshare
          exact .inl hresolved
      | globPattern _ => cases hresolved
      | special value =>
          left
          cases value with
          | root =>
              rw [fileSystemPathsShareTarget, specialPathMatchesAbsolutePath, parent_isNone_iff] at hshare
              subst hshare
              rw [resolveEntryPath, Option.map_some, absoluteRootPathForCwd_eq] at hresolved
              exact hresolved
          | slashTmp =>
              obtain rfl : left = slashTmp := by
                simpa [fileSystemPathsShareTarget, specialPathMatchesAbsolutePath] using hshare
              simp only [resolveEntryPath, resolveFileSystemPath, resolveFileSystemSpecialPath] at hresolved
              split at hresolved
              · exact hresolved
              · cases hresolved
          | minimal | currentWorkingDirectory | projectRoots _ | tmpdir | unknown _ _ => cases hshare
  | globPattern _ =>
      cases path with
      | globPattern _ => cases hresolved
      | path _ | special _ => cases hshare
  | special value =>
      cases path with
      | path right =>
          cases value with
          | root =>
              left
              rw [fileSystemPathsShareTarget, specialPathMatchesAbsolutePath, parent_isNone_iff] at hshare
              subst hshare
              rw [resolveEntryPath, Option.map_some, absoluteRootPathForCwd_eq]
              exact hresolved
          | slashTmp =>
              right
              obtain rfl : right = slashTmp := by
                simpa [fileSystemPathsShareTarget, specialPathMatchesAbsolutePath] using hshare
              exact ⟨rfl, rfl⟩
          | minimal | currentWorkingDirectory | projectRoots _ | tmpdir | unknown _ _ => cases hshare
      | globPattern _ => cases hshare
      | special right =>
          left
          rw [resolveEntryPath_of_specialPathsShareTarget hshare]
          exact hresolved

theorem eq_write_of_le {access : FileSystemAccessMode} (hle : .write ≤ access) (hnone : access ≠ .none) :
    access = .write := by
  cases access with
  | read => exact absurd hle (by decide)
  | write => rfl
  | none => exact absurd rfl hnone

namespace FileSystemSandboxPolicy

/-! ## The whole disk -/

theorem mem_resolvedEntries (hcwd : isAbsolute cwd = true) {rule : ResolvedFileSystemEntry} :
    rule ∈ policy.resolvedEntriesWithCwd host cwd ↔ ∃ entry ∈ policy.entries,
      resolveEntryPath host entry.path (some (.normalizePath cwd)) = some rule.path ∧ entry.access = rule.access := by
  simp only [resolvedEntriesWithCwd, List.mem_filterMap, Option.map_eq_some_iff,
    AbsolutePathBuf.fromAbsolutePath_of_absolute host.env hcwd]
  constructor
  · rintro ⟨entry, hentry, path, hpath, rfl⟩
    exact ⟨entry, hentry, hpath, rfl⟩
  · rintro ⟨entry, hentry, hpath, haccess⟩
    exact ⟨entry, hentry, rule.path, hpath, by rw [haccess]⟩

theorem kind_of_hasRootAccess {predicate : FileSystemAccessMode → Bool} (h : policy.hasRootAccess predicate = true) :
    policy.kind = .restricted := by
  simp only [hasRootAccess, Bool.and_eq_true, decide_eq_true_eq] at h
  exact h.1

theorem exists_root_of_hasRootAccess (hcwd : isAbsolute cwd = true) {predicate : FileSystemAccessMode → Bool}
    (h : policy.hasRootAccess predicate = true) :
    ∃ access, predicate access = true ∧ ⟨.root, access⟩ ∈ policy.resolvedEntriesWithCwd host cwd := by
  simp only [hasRootAccess, Bool.and_eq_true, List.any_eq_true, decide_eq_true_eq] at h
  obtain ⟨-, entry, hentry, hpath, hpredicate⟩ := h
  refine ⟨entry.access, hpredicate, (mem_resolvedEntries hcwd).mpr ⟨entry, hentry, ?_, rfl⟩⟩
  rw [hpath, resolveEntryPath, Option.map_some, absoluteRootPathForCwd_eq]

theorem exists_decidesAt (hcwd : isAbsolute cwd = true) {predicate : FileSystemAccessMode → Bool}
    (h : policy.hasRootAccess predicate = true) (place : AbsolutePathBuf) :
    ∃ rule, policy.DecidesAt host cwd place rule := by
  obtain ⟨access, -, hmem⟩ := exists_root_of_hasRootAccess hcwd h
  exact exists_decides hmem List.nil_prefix

theorem canRead_of_hasFullDiskReadAccess (hcwd : isAbsolute cwd = true) (hkind : policy.kind = .restricted)
    (h : policy.hasFullDiskReadAccess = true) {path : Str} (hpath : isAbsolute path = true) :
    policy.canReadPathWithCwd host path cwd = true := by
  simp only [hasFullDiskReadAccess, hkind, Bool.and_eq_true, Bool.not_eq_true'] at h
  obtain ⟨hroot, hdenied⟩ := h
  obtain ⟨rule, hrule⟩ := exists_decidesAt hcwd hroot (.normalizePath path)
  rw [canReadPathWithCwd, resolveAccess_of_decides hkind hpath hrule, FileSystemAccessMode.canRead, decide_eq_true_eq]
  intro hnone
  obtain ⟨entry, hentry, -, haccess⟩ := (mem_resolvedEntries hcwd).mp hrule.mem
  simp only [hasDeniedReadRestrictions, hkind, decide_true, Bool.true_and, List.any_eq_false, decide_eq_true_eq] at hdenied
  exact hdenied entry hentry (haccess.trans hnone)

theorem hasSameTargetWriteOverride_iff {entry : FileSystemSandboxEntry} :
    policy.hasSameTargetWriteOverride entry = true ↔ entry.access = .read ∧ ∃ candidate ∈ policy.entries,
      candidate.access = .write ∧ fileSystemPathsShareTarget candidate.path entry.path = true := by
  simp only [hasSameTargetWriteOverride, List.any_eq_true, Bool.and_eq_true, FileSystemAccessMode.canWrite,
    decide_eq_true_eq]
  constructor
  · rintro ⟨candidate, hmem, ⟨hwrite, hlt⟩, hshare⟩
    refine ⟨?_, candidate, hmem, hwrite, hshare⟩
    rw [hwrite] at hlt
    revert hlt
    cases entry.access <;> decide
  · rintro ⟨hread, candidate, hmem, hwrite, hshare⟩
    refine ⟨candidate, hmem, ⟨hwrite, ?_⟩, hshare⟩
    rw [hread, hwrite]
    decide

/-- An entry that is resolved and does not narrow is a `write` entry, or a `read` entry for the root or under a `write`
entry for its target. -/
theorem access_of_not_narrowsWrite {entry : FileSystemSandboxEntry} {cwd target : AbsolutePathBuf}
    (h : policy.narrowsWrite entry = false) (hresolved : resolveEntryPath host entry.path (some cwd) = some target) :
    entry.access = .write ∨ entry.access = .read ∧
      (entry.path = .special .root ∨ ∃ candidate ∈ policy.entries,
        candidate.access = .write ∧ fileSystemPathsShareTarget candidate.path entry.path = true) := by
  rw [narrowsWrite] at h
  split at h
  next hwrite => exact .inl (by simpa [FileSystemAccessMode.canWrite] using hwrite)
  next hwrite =>
    right
    split at h
    next =>
      obtain ⟨hread, hcandidate⟩ := hasSameTargetWriteOverride_iff.mp (by simpa using h)
      exact ⟨hread, .inr hcandidate⟩
    next => cases h
    next hpath =>
      refine ⟨?_, .inl hpath⟩
      cases haccess : entry.access with
      | read => rfl
      | write => simp [FileSystemAccessMode.canWrite, haccess] at hwrite
      | none => simp [haccess] at h
    next hpath =>
      rw [hpath] at hresolved
      cases hresolved
    next hpath =>
      rw [hpath] at hresolved
      cases hresolved
    next =>
      obtain ⟨hread, hcandidate⟩ := hasSameTargetWriteOverride_iff.mp (by simpa using h)
      exact ⟨hread, .inr hcandidate⟩

/-- If a `write` entry for `/tmp` is resolved where it has to be, every entry that is resolved is at a place with a
resolved `write` entry. -/
theorem exists_write_of_covered (hcwd : isAbsolute cwd = true)
    (hroot : policy.hasRootAccess FileSystemAccessMode.canWrite = true)
    (hnarrowing : policy.hasWriteNarrowingEntries = false) (hcovered : policy.SlashTmpCovered host cwd)
    {rule : ResolvedFileSystemEntry} (hrule : rule ∈ policy.resolvedEntriesWithCwd host cwd) :
    rule.access ≠ .none ∧ ⟨rule.path, .write⟩ ∈ policy.resolvedEntriesWithCwd host cwd := by
  have hkind := kind_of_hasRootAccess hroot
  obtain ⟨entry, hentry, hresolved, haccess⟩ := (mem_resolvedEntries hcwd).mp hrule
  have hnarrows : policy.narrowsWrite entry = false := by
    simp only [hasWriteNarrowingEntries, hkind, decide_true, Bool.true_and, List.any_eq_false] at hnarrowing
    simpa using hnarrowing entry hentry
  rcases access_of_not_narrowsWrite hnarrows hresolved with hwrite | ⟨hread, htarget⟩
  · rw [← haccess, hwrite]
    exact ⟨by simp, (mem_resolvedEntries hcwd).mpr ⟨entry, hentry, hresolved, hwrite⟩⟩
  · refine ⟨by rw [← haccess, hread]; simp, ?_⟩
    rcases htarget with hpath | ⟨candidate, hcandidate, hwrite, hshare⟩
    · obtain ⟨access, hcan, hmem⟩ : ∃ access, FileSystemAccessMode.canWrite access = true ∧
          ⟨.root, access⟩ ∈ policy.resolvedEntriesWithCwd host cwd := exists_root_of_hasRootAccess hcwd hroot
      obtain rfl : access = .write := by simpa [FileSystemAccessMode.canWrite] using hcan
      rw [hpath, resolveEntryPath, Option.map_some, absoluteRootPathForCwd_eq] at hresolved
      rw [← Option.some.inj hresolved]
      exact hmem
    · rcases resolveEntryPath_of_shareTarget hshare hresolved with hsame | ⟨hslashTmp, hpath⟩
      · exact (mem_resolvedEntries hcwd).mpr ⟨candidate, hcandidate, hsame, hwrite⟩
      · have htmp : slashTmp = rule.path := by
          rw [hpath] at hresolved
          exact Option.some.inj hresolved
        have hmem : ⟨.path slashTmp, .read⟩ ∈ policy.entries := by
          rw [← hpath, ← hread]
          exact hentry
        rw [← htmp]
        rcases hcovered hroot hnarrowing hmem with hdir | ⟨other, hother, hotherWrite, hotherResolved⟩
        · refine (mem_resolvedEntries hcwd).mpr ⟨candidate, hcandidate, ?_, hwrite⟩
          rw [hslashTmp]
          exact if_pos hdir
        · rw [AbsolutePathBuf.fromAbsolutePath_of_absolute host.env hcwd] at hotherResolved
          exact (mem_resolvedEntries hcwd).mpr ⟨other, hother, hotherResolved, hotherWrite⟩

theorem canWrite_of_hasFullDiskWriteAccess (hcwd : isAbsolute cwd = true) (hkind : policy.kind = .restricted)
    (h : policy.hasFullDiskWriteAccess = true) (hcovered : policy.SlashTmpCovered host cwd) {path : Str}
    (hpath : isAbsolute path = true) : policy.canWritePathWithCwd host path cwd = true := by
  simp only [hasFullDiskWriteAccess, hkind, Bool.and_eq_true, Bool.not_eq_true'] at h
  obtain ⟨hroot, hnarrowing⟩ := h
  obtain ⟨rule, hrule⟩ : ∃ rule, policy.DecidesAt host cwd (.normalizePath path) rule :=
    exists_decidesAt hcwd hroot (.normalizePath path)
  obtain ⟨hnone, hwrite⟩ := exists_write_of_covered hcwd hroot hnarrowing hcovered hrule.mem
  rw [canWrite_iff hkind hpath]
  refine ⟨rule, hrule, ?_⟩
  rcases hrule.greatest _ hwrite hrule.applies with hlt | ⟨-, hle⟩
  · exact absurd hlt (Nat.lt_irrefl _)
  · exact eq_write_of_le hle hnone

/-- Where the whole disk is writable, so is `/tmp`, and then a `write` entry is resolved to it. -/
theorem slashTmpCovered_of_canWrite (hcwd : isAbsolute cwd = true) (hkind : policy.kind = .restricted)
    (h : policy.canWritePathWithCwd host slashTmp.toPath cwd = true) (hread : ⟨.path slashTmp, .read⟩ ∈ policy.entries) :
    ∃ entry ∈ policy.entries, entry.access = .write ∧
      resolveEntryPath host entry.path (AbsolutePathBuf.fromAbsolutePath host.env cwd) = some slashTmp := by
  obtain ⟨rule, hrule, hwrite⟩ := (canWrite_toPath_iff hkind).mp h
  have hmem : ⟨slashTmp, .read⟩ ∈ policy.resolvedEntriesWithCwd host cwd :=
    (mem_resolvedEntries hcwd).mpr ⟨_, hread, rfl, rfl⟩
  have hpath : rule.path = slashTmp := AbsolutePathBuf.ext_names (hrule.path_eq hmem rfl)
  obtain ⟨entry, hentry, hresolved, haccess⟩ := (mem_resolvedEntries hcwd).mp hrule.mem
  refine ⟨entry, hentry, haccess.trans hwrite, ?_⟩
  rw [AbsolutePathBuf.fromAbsolutePath_of_absolute host.env hcwd, hresolved, hpath]

end FileSystemSandboxPolicy

end Codrex.Permissions
