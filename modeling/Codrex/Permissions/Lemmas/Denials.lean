import Codrex.Permissions.Lemmas.FullDisk

/-!
# Denied reads

Without links and patterns the matcher for denied reads denies all that is under a denial, but for one of the root.
-/

namespace Codrex.Permissions

open Text UnixPath MostSpecific

variable {host : Host} {globs : GlobBuilder} {policy : FileSystemSandboxPolicy} {cwd : Str} {place : AbsolutePathBuf}
  {rule : ResolvedFileSystemEntry}

theorem normalizedAndCanonicalCandidates_eq (hlinks : NoSymlinks host) (path : AbsolutePathBuf) :
    normalizedAndCanonicalCandidates host path = [path] := by
  have hpath : AbsolutePathBuf.fromAbsolutePath host.env path.toPath = some path := by
    rw [AbsolutePathBuf.fromAbsolutePath_of_absolute host.env rfl, AbsolutePathBuf.normalizePath_toPath]
  unfold normalizedAndCanonicalCandidates
  rw [hpath]
  cases hcanonical : host.canonicalize path with
  | none => rfl
  | some canonical =>
      rw [hlinks path canonical hcanonical]
      simp [hpath, pushUnique]

theorem eq_none_of_le {access : FileSystemAccessMode} (h : .none ≤ access) : access = .none := by
  cases access with
  | read => exact absurd h (by decide)
  | write => exact absurd h (by decide)
  | none => rfl

namespace FileSystemSandboxPolicy

theorem resolveAccess_toPath_of_decides (hkind : policy.kind = .restricted) (h : policy.DecidesAt host cwd place rule) :
    policy.resolveAccessWithCwd host place.toPath cwd = rule.access := by
  apply resolveAccess_of_decides hkind rfl
  rw [AbsolutePathBuf.normalizePath_toPath]
  exact h

theorem resolveAccess_of_deny (hkind : policy.kind = .restricted) (hrule : rule ∈ policy.resolvedEntriesWithCwd host cwd)
    (hdeny : rule.access = .none) :
    policy.resolveAccessWithCwd host rule.path.toPath cwd = .none := by
  obtain ⟨best, hbest⟩ : ∃ best, policy.DecidesAt host cwd rule.path best :=
    exists_decides hrule (List.prefix_refl _)
  rw [resolveAccess_toPath_of_decides hkind hbest]
  apply eq_none_of_le
  rw [← hdeny]
  exact hbest.mode_le hrule (List.prefix_refl _) hbest.applies.length_le

theorem mem_getUnreadableRoots (hlinks : NoSymlinks host) (hcwd : isAbsolute cwd = true)
    (hkind : policy.kind = .restricted) :
    place ∈ policy.getUnreadableRootsWithCwd host cwd ↔
      ∃ deny ∈ policy.resolvedEntriesWithCwd host cwd, deny.access = .none ∧ deny.path ≠ .root ∧ deny.path = place := by
  have hsame : normalizeEffectiveAbsolutePath host = id := funext (normalizeEffectiveAbsolutePath_eq hlinks)
  unfold getUnreadableRootsWithCwd
  rw [if_neg (not_not_intro hkind), AbsolutePathBuf.fromAbsolutePath_of_absolute host.env hcwd, Option.map_some,
    absoluteRootPathForCwd_eq]
  simp only [dedupAbsolutePaths, if_true, hsame, List.map_id, mem_keepUnseen, List.not_mem_nil, not_false_eq_true,
    and_true, List.mem_map, List.mem_filter, Bool.and_eq_true, decide_eq_true_eq]
  constructor
  · rintro ⟨deny, ⟨hdeny, ⟨hnone, -⟩, hroot⟩, rfl⟩
    exact ⟨deny, hdeny, hnone, fun h => hroot (by rw [h]), rfl⟩
  · rintro ⟨deny, hdeny, hnone, hroot, rfl⟩
    refine ⟨deny, ⟨hdeny, ⟨hnone, ?_⟩, fun h => hroot (Option.some.inj h).symm⟩, rfl⟩
    rw [canReadPathWithCwd, resolveAccess_of_deny hkind hdeny hnone]
    rfl

theorem getUnreadableGlobs_of_globFree (h : policy.GlobFree) : policy.getUnreadableGlobsWithCwd host cwd = [] := by
  rw [getUnreadableGlobsWithCwd]
  split
  · rfl
  dsimp only
  rw [List.filterMap_eq_nil_iff.mpr]
  · rfl
  · intro entry hentry
    have hpath := h entry (List.mem_of_mem_filter hentry)
    split
    · rename_i pattern hpattern
      exact absurd hpattern (hpath pattern)
    · rfl
    · rfl

theorem hasDeniedReadRestrictions_of_deny (hcwd : isAbsolute cwd = true) (hkind : policy.kind = .restricted)
    (hrule : rule ∈ policy.resolvedEntriesWithCwd host cwd) (hdeny : rule.access = .none) :
    policy.hasDeniedReadRestrictions = true := by
  obtain ⟨entry, hentry, -, haccess⟩ := (mem_resolvedEntries hcwd).mp hrule
  have hany : policy.entries.any (·.access = .none) = true :=
    List.any_eq_true.mpr ⟨entry, hentry, decide_eq_true (haccess.trans hdeny)⟩
  simp [hasDeniedReadRestrictions, hkind, hany]

theorem isReadDenied_iff (hlinks : NoSymlinks host) (hcwd : isAbsolute cwd = true) (hkind : policy.kind = .restricted)
    (hglobs : policy.GlobFree) :
    (ReadDenyMatcher.new host globs policy cwd).any (·.isReadDenied host place) = true ↔
      ∃ deny ∈ policy.resolvedEntriesWithCwd host cwd, deny.access = .none ∧ deny.path ≠ .root ∧
        place.startsWith deny.path = true := by
  unfold ReadDenyMatcher.new
  rw [getUnreadableGlobs_of_globFree hglobs]
  cases hdenied : policy.hasDeniedReadRestrictions with
  | false =>
      simp only [Bool.not_false, if_true, Option.any_none, Bool.false_eq_true, false_iff]
      rintro ⟨deny, hdeny, hnone, -⟩
      rw [hasDeniedReadRestrictions_of_deny hcwd hkind hdeny hnone] at hdenied
      cases hdenied
  | true =>
      have hcandidate {candidate denied : AbsolutePathBuf} :
          (candidate = denied || candidate.startsWith denied) = true ↔ candidate.startsWith denied = true := by
        rw [Bool.or_eq_true, decide_eq_true_eq, or_iff_right_of_imp]
        rintro rfl
        exact startsWith_iff.mpr (List.prefix_refl _)
      simp only [Bool.not_true, Bool.false_eq_true, if_false, Option.any_some, ReadDenyMatcher.isReadDenied,
        normalizedAndCanonicalCandidates_eq hlinks, List.map_nil, List.any_nil, List.filterMap_nil, List.any_map,
        Function.comp_def, List.any_cons, Bool.or_false]
      constructor
      · intro h
        split at h
        · rename_i hany
          obtain ⟨root, hroot, hstarts⟩ := List.any_eq_true.mp hany
          obtain ⟨deny, hdeny, hnone, hne, rfl⟩ := (mem_getUnreadableRoots hlinks hcwd hkind).mp hroot
          exact ⟨deny, hdeny, hnone, hne, hcandidate.mp hstarts⟩
        · cases h
      · rintro ⟨deny, hdeny, hnone, hne, hstarts⟩
        rw [if_pos]
        exact List.any_eq_true.mpr ⟨deny.path, (mem_getUnreadableRoots hlinks hcwd hkind).mpr ⟨deny, hdeny, hnone, hne, rfl⟩,
          hcandidate.mpr hstarts⟩

theorem exists_matcher (host : Host) (globs : GlobBuilder) (cwd : Str) (hkind : policy.kind = .restricted)
    (hdenied : ∃ entry ∈ policy.entries, entry.access = .none) :
    ∃ matcher, ReadDenyMatcher.new host globs policy cwd = some matcher := by
  have hany : policy.entries.any (·.access = .none) = true := by simpa using hdenied
  have hrestricted : policy.hasDeniedReadRestrictions = true := by simp [hasDeniedReadRestrictions, hkind, hany]
  unfold ReadDenyMatcher.new
  rw [hrestricted]
  exact ⟨_, rfl⟩

/-- Where an entry for the root decides, no entry further down applies. -/
theorem eq_root_of_decides {other : ResolvedFileSystemEntry} (hrule : policy.DecidesAt host cwd place rule)
    (hroot : rule.path = .root) (hother : other ∈ policy.resolvedEntriesWithCwd host cwd)
    (hunder : place.startsWith other.path = true) : other.path = .root := by
  have hpre : other.path.names <+: rule.path.names := hrule.prefix_path hother (startsWith_iff.mp hunder)
  rw [hroot] at hpre
  exact AbsolutePathBuf.ext_names (List.prefix_nil.mp hpre)

theorem none_of_deny_same {deny : ResolvedFileSystemEntry} (hrule : policy.DecidesAt host cwd place rule)
    (hmem : deny ∈ policy.resolvedEntriesWithCwd host cwd) (hnone : deny.access = .none)
    (hsame : deny.path = rule.path) : rule.access = .none := by
  have hnames : deny.path.names = rule.path.names := congrArg AbsolutePathBuf.names hsame
  have happlies : deny.path.names <+: place.names := hnames ▸ hrule.applies
  apply eq_none_of_le
  rw [← hnone]
  exact hrule.mode_le hmem happlies (Nat.le_of_eq (congrArg List.length hnames.symm))

end FileSystemSandboxPolicy

end Codrex.Permissions
