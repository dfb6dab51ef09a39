import Codrex.Permissions.Lemmas.FullDisk

/-!
# More roots

An entry that is pushed for a place that lacks the access decides there and below, down to the next entry. Only a
denial of this very place keeps it from that.
-/

namespace Codrex.Permissions

open Text UnixPath MostSpecific ResolvedFileSystemEntry

variable {host : Host} {policy : FileSystemSandboxPolicy} {cwd : Str} {access : FileSystemAccessMode}
  {root : AbsolutePathBuf} {path : Str}

namespace FileSystemSandboxPolicy

theorem canRead_iff_rights (access : FileSystemAccessMode) :
    access.canRead = true ↔ FileSystemAccessMode.read.rights ≤ access.rights := by
  cases access <;> decide

theorem canWrite_iff_rights (access : FileSystemAccessMode) :
    access.canWrite = true ↔ FileSystemAccessMode.write.rights ≤ access.rights := by
  cases access <;> decide

theorem resolvedEntries_pushPath (host : Host) (policy : FileSystemSandboxPolicy) (cwd : Str) (root : AbsolutePathBuf)
    (access : FileSystemAccessMode) : (policy.pushPath root access).resolvedEntriesWithCwd host cwd =
      policy.resolvedEntriesWithCwd host cwd ++ [⟨root, access⟩] := by
  simp [resolvedEntriesWithCwd, pushPath, resolveEntryPath, resolveFileSystemPath]

/-- The place is denied by an entry of its own. -/
def DeniedAt (host : Host) (policy : FileSystemSandboxPolicy) (cwd : Str) (place : AbsolutePathBuf) : Prop :=
  ∃ entry ∈ policy.resolvedEntriesWithCwd host cwd, entry.path = place ∧ entry.access = .none

/-- An access that is not less by precedence but allows less is a denial. -/
theorem eq_none_of_rights_lt {other : FileSystemAccessMode} (hle : access ≤ other) (hlt : other.rights < access.rights) :
    other = .none := by
  revert hle hlt
  cases access <;> cases other <;> decide

theorem decidesAt_pushPath {place : AbsolutePathBuf} {rule : ResolvedFileSystemEntry} :
    (policy.pushPath root access).DecidesAt host cwd place rule ↔
      Decides names ResolvedFileSystemEntry.access (policy.resolvedEntriesWithCwd host cwd ++ [⟨root, access⟩])
        place.names rule := by
  rw [DecidesAt, resolvedEntries_pushPath]

/-- Where the new entry decides, less was allowed before. -/
theorem rights_lt_of_new (hkind : policy.kind = .restricted)
    (hlack : (policy.resolveAccessWithCwd host root.toPath cwd).rights < access.rights) (hpath : isAbsolute path = true)
    (hnew : (policy.pushPath root access).DecidesAt host cwd (.normalizePath path) ⟨root, access⟩) :
    (policy.resolveAccessWithCwd host path cwd).rights < access.rights := by
  rw [decidesAt_pushPath] at hnew
  by_cases hsome : ∃ rule, policy.DecidesAt host cwd (.normalizePath path) rule
  · obtain ⟨rule, hrule⟩ := hsome
    have habove : rule.path.names <+: root.names := hnew.prefix_path (List.mem_append_left _ hrule.mem) hrule.applies
    have hroot : policy.DecidesAt host cwd (.normalizePath root.toPath) rule := by
      rw [AbsolutePathBuf.normalizePath_toPath]
      exact hrule.of_path habove hnew.applies
    rw [resolveAccess_of_decides hkind rfl hroot] at hlack
    rwa [resolveAccess_of_decides hkind hpath hrule]
  · rw [resolveAccess_of_none hkind hpath fun rule hrule => hsome ⟨rule, hrule⟩]
    exact Nat.lt_of_le_of_lt (Nat.zero_le _) hlack

theorem not_deniedAt_of_new {place : AbsolutePathBuf} (haccess : 0 < access.rights)
    (hnew : (policy.pushPath root access).DecidesAt host cwd place ⟨root, access⟩) : ¬ policy.DeniedAt host cwd root := by
  rw [decidesAt_pushPath] at hnew
  rintro ⟨deny, hmem, rfl, hnone⟩
  have hle : deny.access ≤ access := hnew.mode_le (List.mem_append_left _ hmem) hnew.applies (Nat.le_refl _)
  rw [hnone] at hle
  cases access with
  | none => cases haccess
  | read | write => exact absurd hle (by decide)

/-- A rule that keeps the new entry from its own place is a denial there. -/
theorem deniedAt_of_decides (hkind : policy.kind = .restricted)
    (hlack : (policy.resolveAccessWithCwd host root.toPath cwd).rights < access.rights)
    {rule : ResolvedFileSystemEntry} (hrule : policy.DecidesAt host cwd root rule)
    (hkeeps : root.names.length < rule.path.names.length ∨ rule.path.names = root.names ∧ access ≤ rule.access) :
    policy.DeniedAt host cwd root := by
  rcases hkeeps with hlt | ⟨hsame, hle⟩
  · exact absurd hrule.applies.length_le (Nat.not_le.mpr hlt)
  · have hroot : policy.DecidesAt host cwd (.normalizePath root.toPath) rule := by
      rwa [AbsolutePathBuf.normalizePath_toPath]
    rw [resolveAccess_of_decides hkind rfl hroot] at hlack
    exact ⟨rule, hrule.mem, AbsolutePathBuf.ext_names hsame, eq_none_of_rights_lt hle hlack⟩

/-- What the entry changes: outside nothing. Inside it decides, or what decided before still does, which is further
down or a denial of the place itself. -/
theorem resolveAccess_pushPath (hkind : policy.kind = .restricted)
    (hlack : (policy.resolveAccessWithCwd host root.toPath cwd).rights < access.rights) (path : Str)
    (hpath : isAbsolute path = true) :
    (policy.pushPath root access).resolveAccessWithCwd host path cwd = policy.resolveAccessWithCwd host path cwd ∧
      (root = .normalizePath path → policy.DeniedAt host cwd root) ∨
    (AbsolutePathBuf.normalizePath path).startsWith root = true ∧ ¬ policy.DeniedAt host cwd root ∧
      (policy.pushPath root access).resolveAccessWithCwd host path cwd = access ∧
      (policy.resolveAccessWithCwd host path cwd).rights < access.rights := by
  have hpushed : (policy.pushPath root access).kind = .restricted := hkind
  by_cases hunder : root.names <+: (AbsolutePathBuf.normalizePath path).names
  · have hcases : (policy.pushPath root access).DecidesAt host cwd (.normalizePath path) ⟨root, access⟩ ∨
        ∃ rule, policy.DecidesAt host cwd (.normalizePath path) rule ∧
          (policy.pushPath root access).DecidesAt host cwd (.normalizePath path) rule ∧
          (root.names.length < rule.path.names.length ∨ rule.path.names = root.names ∧ access ≤ rule.access) := by
      simp only [decidesAt_pushPath]
      exact decides_concat_cases hunder
    rcases hcases with hnew | ⟨rule, hrule, hstill, hkeeps⟩
    · exact .inr ⟨startsWith_iff.mpr hunder, not_deniedAt_of_new (Nat.zero_lt_of_lt hlack) hnew,
        resolveAccess_of_decides hpushed hpath hnew, rights_lt_of_new hkind hlack hpath hnew⟩
    · refine .inl ⟨?_, ?_⟩
      · rw [resolveAccess_of_decides hpushed hpath hstill,
          resolveAccess_of_decides hkind hpath hrule]
      · rintro rfl
        exact deniedAt_of_decides hkind hlack hrule hkeeps
  · refine .inl ⟨?_, fun heq => absurd (heq ▸ List.prefix_refl _) hunder⟩
    by_cases hsome : ∃ rule, policy.DecidesAt host cwd (.normalizePath path) rule
    · obtain ⟨rule, hrule⟩ := hsome
      rw [resolveAccess_of_decides hkind hpath hrule]
      exact resolveAccess_of_decides hpushed hpath
        (decidesAt_pushPath.mpr (hrule.concat fun happlies => absurd happlies hunder))
    · rw [resolveAccess_of_none hkind hpath fun rule hrule => hsome ⟨rule, hrule⟩]
      refine resolveAccess_of_none hpushed hpath fun rule hrule => ?_
      rw [decidesAt_pushPath] at hrule
      rcases List.mem_append.mp hrule.mem with hmem | hmem
      · exact hsome (exists_decides hmem hrule.applies)
      · obtain rfl := List.mem_singleton.mp hmem
        exact hunder hrule.applies

/-! ## Any path -/

/-- Every path is a candidate for some place, and has the access of this place. -/
theorem exists_candidate (host : Host) (path cwd : Str) : ∃ place, resolveCandidatePath host path cwd = some place ∧
    ∀ policy : FileSystemSandboxPolicy,
      policy.resolveAccessWithCwd host path cwd = policy.resolveAccessWithCwd host place.toPath cwd := by
  have hsome : ∃ place, resolveCandidatePath host path cwd = some place := by
    rw [resolveCandidatePath]
    split
    next habsolute => exact ⟨_, AbsolutePathBuf.fromAbsolutePath_of_absolute host.env habsolute⟩
    next => exact ⟨_, rfl⟩
  obtain ⟨place, hplace⟩ := hsome
  refine ⟨place, hplace, fun policy => ?_⟩
  have hself : resolveCandidatePath host place.toPath cwd = some place := by
    rw [resolveCandidatePath_of_absolute rfl, AbsolutePathBuf.normalizePath_toPath]
  rw [resolveAccessWithCwd, resolveAccessWithCwd, hplace, hself]

/-! ## One root after the other -/

/-- What is done for each of the additional roots. -/
def grantRoot (host : Host) (cwd : Str) (access : FileSystemAccessMode) (policy : FileSystemSandboxPolicy)
    (root : AbsolutePathBuf) : FileSystemSandboxPolicy :=
  if access.rights ≤ (policy.resolveAccessWithCwd host root.toPath cwd).rights then policy else policy.pushPath root access

theorem withAdditionalReadableRoots_eq (hfull : policy.hasFullDiskReadAccess = false) (roots : List AbsolutePathBuf) :
    policy.withAdditionalReadableRoots host cwd roots = roots.foldl (grantRoot host cwd .read) policy := by
  simp only [withAdditionalReadableRoots, hfull, Bool.false_eq_true, if_false, canReadPathWithCwd, canRead_iff_rights]
  rfl

theorem withAdditionalWritableRoots_eq (roots : List AbsolutePathBuf) :
    policy.withAdditionalWritableRoots host cwd roots = roots.foldl (grantRoot host cwd .write) policy := by
  simp only [withAdditionalWritableRoots, canWritePathWithCwd, canWrite_iff_rights]
  rfl

theorem kind_grantRoot : (grantRoot host cwd access policy root).kind = policy.kind := by
  rw [grantRoot]
  split
  · rfl
  · rfl

theorem deniedAt_grantRoot (haccess : access ≠ .none) {place : AbsolutePathBuf} :
    (grantRoot host cwd access policy root).DeniedAt host cwd place ↔ policy.DeniedAt host cwd place := by
  rw [grantRoot]
  split
  · rfl
  · simp only [DeniedAt, resolvedEntries_pushPath, List.mem_append, List.mem_singleton]
    constructor
    · rintro ⟨deny, hmem | rfl, hpath, hnone⟩
      · exact ⟨deny, hmem, hpath, hnone⟩
      · exact absurd hnone haccess
    · rintro ⟨deny, hmem, hpath, hnone⟩
      exact ⟨deny, .inl hmem, hpath, hnone⟩

/-- A root that is denied by an entry of its own changes nothing. -/
theorem sameAccess_grantRoot (hkind : policy.kind = .restricted)
    (hroot : access.rights ≤ (policy.resolveAccessWithCwd host root.toPath cwd).rights ∨ policy.DeniedAt host cwd root) :
    SameAccess host cwd (grantRoot host cwd access policy root) policy := by
  intro path
  obtain ⟨place, -, haccess⟩ := exists_candidate host path cwd
  rw [haccess, haccess, grantRoot]
  split
  · rfl
  next hlack =>
    have hdenied := hroot.resolve_left hlack
    rcases resolveAccess_pushPath hkind (Nat.lt_of_not_le hlack) place.toPath rfl with
      ⟨hsame, -⟩ | ⟨-, hnotDenied, -⟩
    · exact hsame
    · exact absurd hdenied hnotDenied

theorem grantsOnly_grantRoot (hkind : policy.kind = .restricted) :
    GrantsOnly host cwd access [root] policy (grantRoot host cwd access policy root) := by
  by_cases hlack : access.rights ≤ (policy.resolveAccessWithCwd host root.toPath cwd).rights
  · rw [grantRoot, if_pos hlack]
    refine ⟨fun path => Nat.le_refl _, fun path hne => absurd rfl hne, ?_⟩
    intro other hother
    obtain rfl := List.mem_singleton.mp hother
    exact .inl hlack
  · rw [grantRoot, if_neg hlack]
    have hlack := Nat.lt_of_not_le hlack
    refine ⟨?_, ?_, ?_⟩
    · intro path
      obtain ⟨place, -, haccess⟩ := exists_candidate host path cwd
      rw [haccess, haccess]
      rcases resolveAccess_pushPath hkind hlack place.toPath rfl with ⟨hsame, -⟩ | ⟨-, -, hnew, hless⟩
      · rw [hsame]
      · rw [hnew]
        exact hless.le
    · intro path hne
      obtain ⟨place, hplace, haccess⟩ := exists_candidate host path cwd
      rw [haccess, haccess] at hne
      rcases resolveAccess_pushPath hkind hlack place.toPath rfl with ⟨hsame, -⟩ | ⟨hunder, -⟩
      · exact absurd hsame hne
      · rw [AbsolutePathBuf.normalizePath_toPath] at hunder
        exact ⟨root, List.mem_singleton_self _, place, hplace, hunder⟩
    · intro other hother
      obtain rfl := List.mem_singleton.mp hother
      rcases resolveAccess_pushPath hkind hlack other.toPath rfl with ⟨-, hdenied⟩ | ⟨-, -, hnew, -⟩
      · exact .inr (hdenied (AbsolutePathBuf.normalizePath_toPath other).symm)
      · rw [hnew]
        exact .inl (Nat.le_refl _)

end FileSystemSandboxPolicy

open FileSystemSandboxPolicy

variable {added more : FileSystemSandboxPolicy} {first second : List AbsolutePathBuf}

theorem GrantsOnly.trans (hfirst : GrantsOnly host cwd access first policy added)
    (hsecond : GrantsOnly host cwd access second added more)
    (hdenied : ∀ place, added.DeniedAt host cwd place → policy.DeniedAt host cwd place) :
    GrantsOnly host cwd access (first ++ second) policy more := by
  refine ⟨fun path => (hfirst.grants path).trans (hsecond.grants path), ?_, ?_⟩
  · intro path hne
    by_cases hsame : added.resolveAccessWithCwd host path cwd = policy.resolveAccessWithCwd host path cwd
    · rw [← hsame] at hne
      obtain ⟨root, hroot, hunder⟩ := hsecond.onlyRoots path hne
      exact ⟨root, List.mem_append_right _ hroot, hunder⟩
    · obtain ⟨root, hroot, hunder⟩ := hfirst.onlyRoots path hsame
      exact ⟨root, List.mem_append_left _ hroot, hunder⟩
  · intro root hroot
    rcases List.mem_append.mp hroot with hroot | hroot
    · exact (hfirst.granted root hroot).imp_left fun hrights => hrights.trans (hsecond.grants _)
    · exact (hsecond.granted root hroot).imp_right (hdenied root)

theorem grantsOnly_foldl (haccess : access ≠ .none) (hkind : policy.kind = .restricted) (roots : List AbsolutePathBuf) :
    GrantsOnly host cwd access roots policy (roots.foldl (grantRoot host cwd access) policy) := by
  induction roots generalizing policy with
  | nil => exact ⟨fun _ => Nat.le_refl _, fun _ hne => absurd rfl hne, fun _ hroot => absurd hroot List.not_mem_nil⟩
  | cons root roots ih =>
      have hrest : GrantsOnly host cwd access roots (grantRoot host cwd access policy root) _ :=
        ih (kind_grantRoot.trans hkind)
      exact (grantsOnly_grantRoot hkind).trans hrest fun _ => (deniedAt_grantRoot haccess).mp

theorem deniedAt_foldl (haccess : access ≠ .none) (roots : List AbsolutePathBuf) {place : AbsolutePathBuf} :
    (roots.foldl (grantRoot host cwd access) policy).DeniedAt host cwd place ↔ policy.DeniedAt host cwd place := by
  induction roots generalizing policy with
  | nil => rfl
  | cons root roots ih => exact ih.trans (deniedAt_grantRoot haccess)

theorem kind_foldl (roots : List AbsolutePathBuf) :
    (roots.foldl (grantRoot host cwd access) policy).kind = policy.kind := by
  induction roots generalizing policy with
  | nil => rfl
  | cons root roots ih => exact ih.trans kind_grantRoot

/-- Roots that are granted or denied for good change nothing any more. -/
theorem sameAccess_foldl (haccess : access ≠ .none) (hkind : policy.kind = .restricted) {roots : List AbsolutePathBuf}
    (hroots : ∀ root ∈ roots, access.rights ≤ (policy.resolveAccessWithCwd host root.toPath cwd).rights ∨
      policy.DeniedAt host cwd root) :
    SameAccess host cwd (roots.foldl (grantRoot host cwd access) policy) policy := by
  induction roots generalizing policy with
  | nil => exact fun _ => rfl
  | cons root roots ih =>
      have hsame := sameAccess_grantRoot hkind (hroots root List.mem_cons_self)
      refine fun path => (ih (kind_grantRoot.trans hkind) ?_ path).trans (hsame path)
      intro other hother
      rw [hsame, deniedAt_grantRoot haccess]
      exact hroots other (List.mem_cons_of_mem _ hother)

/-- A second time the same roots change nothing. -/
theorem sameAccess_foldl_foldl (haccess : access ≠ .none) (hkind : policy.kind = .restricted)
    (roots : List AbsolutePathBuf) :
    SameAccess host cwd (roots.foldl (grantRoot host cwd access) (roots.foldl (grantRoot host cwd access) policy))
      (roots.foldl (grantRoot host cwd access) policy) := by
  refine sameAccess_foldl haccess ((kind_foldl roots).trans hkind) fun root hroot => ?_
  rw [deniedAt_foldl haccess]
  exact (grantsOnly_foldl haccess hkind roots).granted root hroot

theorem grantsOnly_withAdditionalReadableRoots (hkind : policy.kind = .restricted) (hcwd : isAbsolute cwd = true)
    (roots : List AbsolutePathBuf) :
    GrantsOnly host cwd .read roots policy (policy.withAdditionalReadableRoots host cwd roots) := by
  cases hfull : policy.hasFullDiskReadAccess with
  | true =>
      rw [withAdditionalReadableRoots, if_pos hfull]
      refine ⟨fun _ => Nat.le_refl _, fun _ hne => absurd rfl hne, fun root _ => .inl ?_⟩
      rw [← canRead_iff_rights]
      exact canRead_of_hasFullDiskReadAccess hcwd hkind hfull rfl
  | false =>
      rw [withAdditionalReadableRoots_eq hfull]
      exact grantsOnly_foldl (by decide) hkind roots

theorem sameAccess_withAdditionalReadableRoots (hkind : policy.kind = .restricted) (roots : List AbsolutePathBuf) :
    SameAccess host cwd ((policy.withAdditionalReadableRoots host cwd roots).withAdditionalReadableRoots host cwd roots)
      (policy.withAdditionalReadableRoots host cwd roots) := by
  cases hagain : (policy.withAdditionalReadableRoots host cwd roots).hasFullDiskReadAccess with
  | true =>
      rw [withAdditionalReadableRoots, if_pos hagain]
      exact fun _ => rfl
  | false =>
      rw [withAdditionalReadableRoots_eq hagain]
      cases hfull : policy.hasFullDiskReadAccess with
      | true =>
          rw [withAdditionalReadableRoots, if_pos hfull, hfull] at hagain
          cases hagain
      | false =>
          rw [withAdditionalReadableRoots_eq hfull]
          exact sameAccess_foldl_foldl (by decide) hkind roots

end Codrex.Permissions
