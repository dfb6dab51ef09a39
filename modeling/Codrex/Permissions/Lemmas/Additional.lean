import Codrex.Permissions.Lemmas.Intersect
import Codrex.Permissions.Lemmas.MoreRoots

/-!
# Additional permissions

The entries of a profile are added to those of a policy, and only what entries there are matters.
-/

namespace Codrex.Permissions

open Text UnixPath MostSpecific ResolvedFileSystemEntry FileSystemSandboxPolicy

variable {host : Host} {policy : FileSystemSandboxPolicy} {cwd : Str} {profile other : AdditionalPermissionProfile}
  {rule : ResolvedFileSystemEntry} {place : AbsolutePathBuf} {entry : FileSystemSandboxEntry}

/-! ## The entries -/

theorem mem_foldl_pushUnique_self {α : Type} [DecidableEq α] {elements output : List α} {x : α} :
    x ∈ elements.foldl pushUnique output ↔ x ∈ output ∨ x ∈ elements := by
  have hmem := @mem_foldl_pushUnique α α _ id elements output x
  simpa using hmem

theorem effective_kind (hkind : policy.kind = .restricted) (profile : Option AdditionalPermissionProfile) :
    (effectiveFileSystemSandboxPolicy policy profile).kind = .restricted := by
  rw [effectiveFileSystemSandboxPolicy]
  split
  · exact hkind
  · split
    · exact hkind
    · rw [mergeFileSystemPolicyWithAdditionalPermissions, hkind]

/-- The entries that a profile adds, if there is one. -/
def addedEntries (profile : Option AdditionalPermissionProfile) : List FileSystemSandboxEntry :=
  (profile.map (·.entries)).getD []

theorem mem_effective (hkind : policy.kind = .restricted) (profile : Option AdditionalPermissionProfile) :
    entry ∈ (effectiveFileSystemSandboxPolicy policy profile).entries ↔
      entry ∈ policy.entries ∨ entry ∈ addedEntries profile := by
  cases profile with
  | none => simp [effectiveFileSystemSandboxPolicy, addedEntries]
  | some profile =>
      rw [effectiveFileSystemSandboxPolicy, Option.bind_some, addedEntries, Option.map_some, Option.getD_some]
      cases hsome : profile.fileSystem with
      | none => simp [AdditionalPermissionProfile.entries, hsome]
      | some fileSystem =>
          rw [entries_of_some hsome]
          simp only
          split
          · next hempty =>
              rw [FileSystemPermissions.isEmpty, List.isEmpty_iff] at hempty
              simp [hempty]
          · rw [mergeFileSystemPolicyWithAdditionalPermissions, hkind]
            exact mem_foldl_pushUnique_self

theorem entries_of_isEmpty (h : profile.isEmpty = true) : profile.entries = [] := by
  simp only [AdditionalPermissionProfile.isEmpty, Bool.and_eq_true, Option.isNone_iff_eq_none] at h
  rw [AdditionalPermissionProfile.entries, h.2]
  rfl

/-- An empty profile adds nothing, so it does not matter that it is dropped. -/
theorem addedEntries_filter (profile : AdditionalPermissionProfile) :
    addedEntries ((some profile).filter (!·.isEmpty)) = profile.entries := by
  rw [Option.filter_some]
  split
  · rfl
  · next hempty => exact (entries_of_isEmpty (by simpa using hempty)).symm

theorem mem_mergeFileSystem (network : Option NetworkPermissions) :
    entry ∈ (AdditionalPermissionProfile.mk network (mergeFileSystem profile.fileSystem other.fileSystem)).entries ↔
      entry ∈ profile.entries ∨ entry ∈ other.entries := by
  unfold AdditionalPermissionProfile.entries
  cases profile.fileSystem with
  | none => cases other.fileSystem <;> simp [mergeFileSystem]
  | some base =>
      cases other.fileSystem with
      | none => simp [mergeFileSystem]
      | some permissions =>
          have hmem : entry ∈ mergePermissionEntries base.entries permissions.entries ↔
              entry ∈ base.entries ∨ entry ∈ permissions.entries := by
            rw [mergePermissionEntries, mem_foldl_pushUnique_self]
            simp
          rw [mergeFileSystem, Option.filter_some]
          split
          · exact hmem
          · next hempty =>
              rw [Bool.not_eq_true, Bool.not_eq_false', FileSystemPermissions.isEmpty, List.isEmpty_iff] at hempty
              simp only at hempty
              rw [hempty] at hmem
              simpa using hmem

theorem mem_merged (profile other : AdditionalPermissionProfile) :
    entry ∈ addedEntries (mergePermissionProfiles (some profile) (some other)) ↔
      entry ∈ profile.entries ∨ entry ∈ other.entries := by
  rw [mergePermissionProfiles, addedEntries_filter]
  exact mem_mergeFileSystem _

/-! ## What decides -/

/-- Entries of one kind and the same places come to the same access. -/
theorem resolveAccess_congr_entries {policy' : FileSystemSandboxPolicy} (hkind : policy.kind = .restricted)
    (hkind' : policy'.kind = .restricted) (h : ∀ entry, entry ∈ policy.entries ↔ entry ∈ policy'.entries)
    (hcwd : isAbsolute cwd = true) {path : Str} (hpath : isAbsolute path = true) :
    policy.resolveAccessWithCwd host path cwd = policy'.resolveAccessWithCwd host path cwd := by
  have hrules : ∀ rule, rule ∈ policy.resolvedEntriesWithCwd host cwd ↔ rule ∈ policy'.resolvedEntriesWithCwd host cwd := by
    intro rule
    simp only [mem_resolvedEntries hcwd, h]
  by_cases hdecides : ∃ rule, policy.DecidesAt host cwd (.normalizePath path) rule
  · obtain ⟨rule, hrule⟩ := hdecides
    rw [resolveAccess_of_decides hkind hpath hrule, resolveAccess_of_decides hkind' hpath ((decides_congr hrules).mp hrule)]
  · rw [resolveAccess_of_none hkind hpath fun rule hrule => hdecides ⟨rule, hrule⟩,
      resolveAccess_of_none hkind' hpath fun rule hrule => hdecides ⟨rule, (decides_congr hrules).mpr hrule⟩]

theorem mem_effective_rules (hkind : policy.kind = .restricted) (hcwd : isAbsolute cwd = true) :
    rule ∈ (effectiveFileSystemSandboxPolicy policy (some profile)).resolvedEntriesWithCwd host cwd ↔
      rule ∈ policy.resolvedEntriesWithCwd host cwd ++ profile.rules host cwd := by
  rw [List.mem_append, mem_rules hcwd]
  simp only [mem_resolvedEntries hcwd, mem_effective hkind, addedEntries, Option.map_some, Option.getD_some, ResolvesTo]
  constructor
  · rintro ⟨entry, hentry | hentry, hrule⟩
    · exact .inl ⟨entry, hentry, hrule⟩
    · exact .inr ⟨entry, hentry, hrule⟩
  · rintro (⟨entry, hentry, hrule⟩ | ⟨entry, hentry, hrule⟩)
    · exact ⟨entry, .inl hentry, hrule⟩
    · exact ⟨entry, .inr hentry, hrule⟩

/-- What decides with the profile, where it is an entry of the policy, decides without. -/
theorem decidesAt_of_effective (hkind : policy.kind = .restricted) (hcwd : isAbsolute cwd = true)
    (h : (effectiveFileSystemSandboxPolicy policy (some profile)).DecidesAt host cwd place rule)
    (hrule : rule ∈ policy.resolvedEntriesWithCwd host cwd) : policy.DecidesAt host cwd place rule :=
  ⟨hrule, h.applies, fun entry hentry =>
    h.greatest entry ((mem_effective_rules hkind hcwd).mpr (List.mem_append_left _ hentry))⟩

theorem exists_effective (profile : AdditionalPermissionProfile) (hkind : policy.kind = .restricted) (hcwd : isAbsolute cwd = true)
    (h : policy.DecidesAt host cwd place rule) :
    ∃ best, (effectiveFileSystemSandboxPolicy policy (some profile)).DecidesAt host cwd place best :=
  exists_decides ((mem_effective_rules hkind hcwd).mpr (List.mem_append_left _ h.mem)) h.applies

/-! ## Nothing is taken away -/

theorem adds_of_readsCovered (hkind : policy.kind = .restricted) (hcwd : isAbsolute cwd = true)
    (haccess : ∀ entry ∈ profile.entries, entry.access ≠ .none) (h : ReadsCovered host cwd policy profile) {path : Str}
    (hpath : isAbsolute path = true) : (policy.resolveAccessWithCwd host path cwd).rights ≤
      ((effectiveFileSystemSandboxPolicy policy (some profile)).resolveAccessWithCwd host path cwd).rights := by
  by_cases hdecides : ∃ base, policy.DecidesAt host cwd (.normalizePath path) base
  · obtain ⟨base, hbase⟩ := hdecides
    obtain ⟨best, hbest⟩ := exists_effective profile hkind hcwd hbase
    rw [resolveAccess_of_decides hkind hpath hbase, resolveAccess_of_decides (effective_kind hkind _) hpath hbest]
    rcases List.mem_append.mp ((mem_effective_rules hkind hcwd).mp hbest.mem) with hmem | hmem
    · rw [(decidesAt_of_effective hkind hcwd hbest hmem).mode_eq hbase]
    · obtain ⟨entry, hentry, -, heq⟩ := (mem_rules hcwd).mp hmem
      have hnone := haccess entry hentry
      rw [heq] at hnone
      cases hnew : best.access with
      | none => exact absurd hnew hnone
      | write => cases base.access <;> decide
      | read =>
          cases hold : base.access with
          | none => decide
          | read => exact Nat.le_refl _
          | write =>
              -- the added entry is more specific than the one that gives `write`
              have hprefix := hbest.prefix_path
                ((mem_effective_rules hkind hcwd).mpr (List.mem_append_left _ hbase.mem)) hbase.applies
              have hwritable : policy.canWritePathWithCwd host best.path.toPath cwd = true :=
                (canWrite_toPath_iff hkind).mpr ⟨base, hbase.of_path hprefix hbest.applies, hold⟩
              have hcovered := h best hmem hnew hwritable
              have hle := hbest.mode_le ((mem_effective_rules hkind hcwd).mpr hcovered) hbest.applies (Nat.le_refl _)
              rw [hnew] at hle
              exact absurd hle (show ¬ FileSystemAccessMode.write ≤ .read by decide)
  · rw [resolveAccess_of_none hkind hpath fun base hbase => hdecides ⟨base, hbase⟩]
    exact Nat.zero_le _

theorem readsCovered_of_adds (hkind : policy.kind = .restricted) (hcwd : isAbsolute cwd = true)
    (h : ∀ path, isAbsolute path = true → (policy.resolveAccessWithCwd host path cwd).rights ≤
      ((effectiveFileSystemSandboxPolicy policy (some profile)).resolveAccessWithCwd host path cwd).rights) :
    ReadsCovered host cwd policy profile := by
  intro rule hrule hread hwritable
  have hrights := h rule.path.toPath rfl
  rw [canWritePathWithCwd, canWrite_iff_rights] at hwritable
  have hstill : (effectiveFileSystemSandboxPolicy policy (some profile)).canWritePathWithCwd host rule.path.toPath cwd =
      true := (canWrite_iff_rights _).mpr (hwritable.trans hrights)
  obtain ⟨best, hbest, hwrite⟩ := (canWrite_toPath_iff (effective_kind hkind _)).mp hstill
  have hmem := (mem_effective_rules hkind hcwd).mpr (List.mem_append_right _ hrule)
  have hpath : best.path.names = rule.path.names := hbest.path_eq hmem rfl
  have hbestEq : best = ⟨rule.path, .write⟩ := by
    obtain ⟨path, access⟩ := best
    simp only at hwrite hpath
    rw [hwrite, AbsolutePathBuf.ext_names hpath]
  rw [← hbestEq]
  exact (mem_effective_rules hkind hcwd).mp hbest.mem

/-! ## Denials stand -/

theorem denied_of_deny (hkind : policy.kind = .restricted) (hcwd : isAbsolute cwd = true) {path : Str}
    (hpath : isAbsolute path = true) {deny : ResolvedFileSystemEntry}
    (hdeny : policy.DecidesAt host cwd (.normalizePath path) deny) (hnone : deny.access = .none)
    (habove : ∀ rule ∈ profile.rules host cwd, rule.path.startsWith deny.path = false) :
    (effectiveFileSystemSandboxPolicy policy (some profile)).canReadPathWithCwd host path cwd = false := by
  have hdecides : (effectiveFileSystemSandboxPolicy policy (some profile)).DecidesAt host cwd (.normalizePath path) deny := by
    refine ⟨(mem_effective_rules hkind hcwd).mpr (List.mem_append_left _ hdeny.mem), hdeny.applies, ?_⟩
    intro rule hrule happlies
    rcases List.mem_append.mp ((mem_effective_rules hkind hcwd).mp hrule) with hmem | hmem
    · exact hdeny.greatest rule hmem happlies
    · -- an added entry above the path that is not at or below the denial is above it
      refine .inl (Nat.lt_of_not_le fun hle => ?_)
      have hbelow := List.prefix_of_prefix_length_le hdeny.applies happlies hle
      have hnot := habove rule hmem
      rw [startsWith_iff.mpr hbelow] at hnot
      cases hnot
  rw [canReadPathWithCwd, resolveAccess_of_decides (effective_kind hkind _) hpath hdecides, hnone]
  rfl

end Codrex.Permissions
