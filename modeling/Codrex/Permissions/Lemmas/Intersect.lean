import Codrex.Permissions.Lemmas.Denials

/-!
# Intersections

The entries of an intersection are the granted ones that the request covers at their own path, and the denials of both
sides that meet one of these. All that can take `write` back further down are denials and granted reads; a requested
`read` cannot.
-/

namespace Codrex.Permissions

open Text UnixPath MostSpecific FileSystemSandboxPolicy

variable {host : Host} {globs : GlobBuilder} {cwd : Str}

/-! ## Where a permission is -/

theorem resolvePermissionPath_eq (hcwd : isAbsolute cwd = true) (path : FileSystemPath) :
    resolvePermissionPath host path cwd = resolveEntryPath host path (some (.normalizePath cwd)) := by
  have hhere := AbsolutePathBuf.fromAbsolutePath_of_absolute host.env hcwd
  cases path with
  | path path => rfl
  | globPattern pattern => rfl
  | special value =>
      cases value with
      | root =>
          have hroot : AbsolutePathBuf.normalizePath ['/'] = .root := by decide
          simp only [resolvePermissionPath, lastAncestor, hcwd, if_true]
          rw [AbsolutePathBuf.fromAbsolutePath_of_absolute host.env rfl, hroot, resolveEntryPath, Option.map_some,
            absoluteRootPathForCwd_eq]
      | currentWorkingDirectory => exact hhere
      | projectRoots subpath =>
          simp only [resolvePermissionPath, hhere]
          rfl
      | tmpdir => rfl
      | slashTmp =>
          simp only [resolvePermissionPath]
          rw [AbsolutePathBuf.fromAbsolutePath_of_absolute host.env rfl]
          exact Option.filter_some
      | minimal => rfl
      | unknown path subpath => rfl

theorem access_materialize (entry : FileSystemSandboxEntry) :
    (materializeCwdDependentEntry host entry cwd).access = entry.access := by
  unfold materializeCwdDependentEntry
  split
  · cases resolvePermissionPath host entry.path cwd with
    | none => rfl
    | some path => rfl
  · cases resolvePermissionPath host entry.path cwd with
    | none => rfl
    | some path => rfl
  · rfl
  · rfl
  · rfl

theorem resolveEntryPath_materialize (hcwd : isAbsolute cwd = true) (entry : FileSystemSandboxEntry) :
    resolveEntryPath host (materializeCwdDependentEntry host entry cwd).path (some (.normalizePath cwd)) =
      resolveEntryPath host entry.path (some (.normalizePath cwd)) := by
  have hmade : resolveEntryPath host (((resolvePermissionPath host entry.path cwd).map fun path =>
      (⟨.path path, entry.access⟩ : FileSystemSandboxEntry)).getD entry).path (some (.normalizePath cwd)) =
        resolveEntryPath host entry.path (some (.normalizePath cwd)) := by
    rw [resolvePermissionPath_eq hcwd]
    cases h : resolveEntryPath host entry.path (some (.normalizePath cwd)) with
    | none => exact h
    | some path => rfl
  unfold materializeCwdDependentEntry
  split
  · exact hmade
  · exact hmade
  · rename_i pattern hpattern
    rw [hpattern]
    rfl
  · rfl
  · rfl

/-- What an entry comes to at this directory. -/
def ResolvesTo (host : Host) (cwd : Str) (entry : FileSystemSandboxEntry) (rule : ResolvedFileSystemEntry) : Prop :=
  resolveEntryPath host entry.path (some (.normalizePath cwd)) = some rule.path ∧ entry.access = rule.access

theorem resolvesTo_materialize (hcwd : isAbsolute cwd = true) {entry : FileSystemSandboxEntry}
    {rule : ResolvedFileSystemEntry} :
    ResolvesTo host cwd (materializeCwdDependentEntry host entry cwd) rule ↔ ResolvesTo host cwd entry rule := by
  unfold ResolvesTo
  rw [resolveEntryPath_materialize hcwd, access_materialize]

theorem mem_rules (hcwd : isAbsolute cwd = true) {profile : AdditionalPermissionProfile}
    {rule : ResolvedFileSystemEntry} :
    rule ∈ profile.rules host cwd ↔ ∃ entry ∈ profile.entries, ResolvesTo host cwd entry rule :=
  mem_resolvedEntries hcwd

/-! ## Lists without repetition -/

theorem mem_pushUnique {α : Type} [DecidableEq α] {candidates : List α} {candidate x : α} :
    x ∈ pushUnique candidates candidate ↔ x ∈ candidates ∨ x = candidate := by
  unfold pushUnique
  split
  · constructor
    · exact .inl
    · rintro (hx | rfl)
      · exact hx
      · assumption
  · simp

theorem mem_foldl_pushUnique {α β : Type} [DecidableEq β] {f : α → β} {elements : List α} {output : List β} {x : β} :
    x ∈ elements.foldl (fun output element => pushUnique output (f element)) output ↔
      x ∈ output ∨ ∃ element ∈ elements, x = f element := by
  induction elements generalizing output with
  | nil => simp
  | cons element elements ih =>
      rw [List.foldl_cons, ih, mem_pushUnique]
      simp [or_assoc]

theorem mem_retainConstrainingDenyEntries {sourceEntries acceptedEntries outputEntries : List FileSystemSandboxEntry}
    {x : FileSystemSandboxEntry} :
    x ∈ (retainConstrainingDenyEntries host sourceEntries acceptedEntries cwd outputEntries).2 ↔
      x ∈ outputEntries ∨ ∃ entry ∈ sourceEntries, entry.access = .none ∧
        denyEntryConstrainsAcceptedGrant host entry acceptedEntries cwd = true ∧
        x = materializeCwdDependentEntry host entry cwd := by
  have hloop (entries retained output : List FileSystemSandboxEntry) :
      x ∈ (entries.foldl (fun kept entry =>
        if !denyEntryConstrainsAcceptedGrant host entry acceptedEntries cwd then kept
        else (kept.1 ++ [materializeCwdDependentEntry host entry cwd],
          pushUnique kept.2 (materializeCwdDependentEntry host entry cwd))) (retained, output)).2 ↔
        x ∈ output ∨ ∃ entry ∈ entries, denyEntryConstrainsAcceptedGrant host entry acceptedEntries cwd = true ∧
          x = materializeCwdDependentEntry host entry cwd := by
    induction entries generalizing retained output with
    | nil => simp
    | cons entry entries ih =>
        rw [List.foldl_cons]
        cases hconstrains : denyEntryConstrainsAcceptedGrant host entry acceptedEntries cwd with
        | false =>
            simp only [Bool.not_false, if_true]
            rw [ih]
            simp [hconstrains]
        | true =>
            simp only [Bool.not_true, Bool.false_eq_true, if_false]
            rw [ih, mem_pushUnique]
            simp [hconstrains, or_assoc]
  refine (hloop _ [] outputEntries).trans ?_
  simp [and_assoc]

/-! ## The entry that decides -/

section Profiles

variable {requested granted profile : AdditionalPermissionProfile} {place : AbsolutePathBuf}
  {rule : ResolvedFileSystemEntry} {entry : FileSystemSandboxEntry}

open ResolvedFileSystemEntry in
/-- Of the entries of a profile this one decides the place. -/
def DecidesIn (host : Host) (cwd : Str) (profile : AdditionalPermissionProfile) (place : AbsolutePathBuf)
    (rule : ResolvedFileSystemEntry) : Prop :=
  Decides names ResolvedFileSystemEntry.access (profile.rules host cwd) place.names rule

theorem decidesIn_below (good : FileSystemAccessMode → Prop) {base : AbsolutePathBuf}
    (hbase : base.names <+: place.names) (hgood : ∃ rule, DecidesIn host cwd profile base rule ∧ good rule.access)
    (hbelow : ∀ rule, DecidesIn host cwd profile rule.path rule → rule.path.names <+: place.names →
      base.names.length < rule.path.names.length → good rule.access) :
    ∃ rule, DecidesIn host cwd profile place rule ∧ good rule.access :=
  decides_good_below good hbase hgood hbelow

/-! ## What is accepted -/

/-- A granted entry that the request covers where it stands. -/
structure Accepted (host : Host) (cwd : Str) (requested granted : AdditionalPermissionProfile)
    (rule : ResolvedFileSystemEntry) : Prop where
  granted : rule ∈ granted.rules host cwd
  open' : ∀ deny ∈ requested.rules host cwd, deny.access = .none → deny.path ≠ .root →
    ¬ deny.path.names <+: rule.path.names
  covered : accessCovers (requested.policy.resolveAccessWithCwd host rule.path.toPath cwd) rule.access = true

def withinRequest (host : Host) (globs : GlobBuilder) (cwd : Str) (requested : FileSystemPermissions)
    (entry : FileSystemSandboxEntry) : Bool :=
  grantedFileSystemEntryWithinRequest host requested (restricted requested.entries)
    (ReadDenyMatcher.new host globs (restricted requested.entries) cwd) entry cwd

def acceptedEntries (host : Host) (globs : GlobBuilder) (cwd : Str) (requested granted : FileSystemPermissions) :
    List FileSystemSandboxEntry :=
  (granted.entries.filter (withinRequest host globs cwd requested)).foldl (fun acceptedEntries entry =>
    pushUnique acceptedEntries (materializeCwdDependentEntry host entry cwd)) []

theorem mem_acceptedEntries {requested granted : FileSystemPermissions} :
    entry ∈ acceptedEntries host globs cwd requested granted ↔ ∃ source ∈ granted.entries,
      withinRequest host globs cwd requested source = true ∧ entry = materializeCwdDependentEntry host source cwd := by
  unfold acceptedEntries
  rw [mem_foldl_pushUnique]
  simp [and_assoc]

theorem entries_of_some {fileSystem : FileSystemPermissions} (h : profile.fileSystem = some fileSystem) :
    profile.entries = fileSystem.entries := by
  rw [AdditionalPermissionProfile.entries, h]
  rfl

theorem entries_getD (profile : AdditionalPermissionProfile) :
    (profile.fileSystem.getD ⟨[], none⟩).entries = profile.entries := by
  unfold AdditionalPermissionProfile.entries
  cases profile.fileSystem with
  | none => rfl
  | some fileSystem => rfl

theorem entries_intersect {fileSystem : FileSystemPermissions} (h : requested.fileSystem = some fileSystem) :
    (intersectPermissionProfiles host globs requested granted cwd).entries =
      (intersectFileSystem host globs fileSystem (granted.fileSystem.getD ⟨[], none⟩) cwd).entries := by
  unfold AdditionalPermissionProfile.entries intersectPermissionProfiles
  simp only [h, Option.map_some, Option.filter_some]
  split
  · rfl
  · rename_i hempty
    have hnil : (intersectFileSystem host globs fileSystem (granted.fileSystem.getD ⟨[], none⟩) cwd).entries = [] := by
      simpa [FileSystemPermissions.isEmpty] using hempty
    rw [hnil]
    rfl

theorem withinRequest_iff (hlinks : NoSymlinks host) (hcwd : isAbsolute cwd = true) (hglobs : requested.GlobFree)
    {fileSystem : FileSystemPermissions} (h : requested.fileSystem = some fileSystem) (hentry : entry ∈ granted.entries)
    (hresolves : ResolvesTo host cwd entry rule) :
    withinRequest host globs cwd fileSystem entry = true ↔ Accepted host cwd requested granted rule := by
  obtain ⟨hpath, haccess⟩ := hresolves
  have hpolicy : restricted fileSystem.entries = requested.policy := by
    rw [AdditionalPermissionProfile.policy, entries_of_some h]
  have hdenied := @isReadDenied_iff host globs requested.policy cwd rule.path hlinks hcwd rfl hglobs
  unfold withinRequest grantedFileSystemEntryWithinRequest
  rw [hpolicy, resolvePermissionPath_eq hcwd, hpath, haccess]
  dsimp only
  constructor
  · intro hwithin
    split at hwithin
    · cases hwithin
    · split at hwithin
      · cases hwithin
      · rename_i hopen
        refine ⟨(mem_rules hcwd).mpr ⟨entry, hentry, hpath, haccess⟩, ?_, hwithin⟩
        intro deny hdeny hnone hroot hpre
        exact hopen (hdenied.mpr ⟨deny, hdeny, hnone, hroot, startsWith_iff.mpr hpre⟩)
  · intro haccepted
    have hcovered := haccepted.covered
    rw [if_neg, if_neg]
    · exact hcovered
    · intro hopen
      obtain ⟨deny, hdeny, hnone, hroot, hstarts⟩ := hdenied.mp hopen
      exact haccepted.open' deny hdeny hnone hroot (startsWith_iff.mp hstarts)
    · intro hread
      have hnone : rule.access = .none := by
        simpa [FileSystemAccessMode.canRead] using hread
      rw [hnone] at hcovered
      cases hcovered

theorem mem_intersectFileSystem {requested granted : FileSystemPermissions} :
    entry ∈ (intersectFileSystem host globs requested granted cwd).entries ↔
      entry ∈ acceptedEntries host globs cwd requested granted ∨
      ∃ source, (source ∈ requested.entries ∨ source ∈ granted.entries) ∧ source.access = .none ∧
        denyEntryConstrainsAcceptedGrant host source (acceptedEntries host globs cwd requested granted) cwd = true ∧
        entry = materializeCwdDependentEntry host source cwd := by
  have hentries : (intersectFileSystem host globs requested granted cwd).entries =
      (retainConstrainingDenyEntries host granted.entries (acceptedEntries host globs cwd requested granted) cwd
        (retainConstrainingDenyEntries host requested.entries (acceptedEntries host globs cwd requested granted) cwd
          (acceptedEntries host globs cwd requested granted)).2).2 := rfl
  rw [hentries, mem_retainConstrainingDenyEntries, mem_retainConstrainingDenyEntries]
  constructor
  · rintro ((haccepted | ⟨source, hsource, h⟩) | ⟨source, hsource, h⟩)
    · exact .inl haccepted
    · exact .inr ⟨source, .inl hsource, h⟩
    · exact .inr ⟨source, .inr hsource, h⟩
  · rintro (haccepted | ⟨source, hsource | hsource, h⟩)
    · exact .inl (.inl haccepted)
    · exact .inl (.inr ⟨source, hsource, h⟩)
    · exact .inr ⟨source, hsource, h⟩

def Overlap (left right : ResolvedFileSystemEntry) : Prop :=
  left.path.names <+: right.path.names ∨ right.path.names <+: left.path.names

theorem pathsOverlap_iff {left right : ResolvedFileSystemEntry} :
    pathsOverlap left.path right.path = true ↔ Overlap left right := by
  rw [pathsOverlap, Bool.or_eq_true, startsWith_iff, startsWith_iff, Or.comm]
  rfl

theorem Accepted.canRead (h : Accepted host cwd requested granted rule) : rule.access.canRead = true := by
  have hcovered := h.covered
  cases haccess : rule.access with
  | read => rfl
  | write => rfl
  | none =>
      rw [haccess] at hcovered
      cases hcovered

theorem constrains_of_resolves (hcwd : isAbsolute cwd = true) {source : FileSystemSandboxEntry}
    (hglob : ∀ pattern, source.path ≠ .globPattern pattern) (hresolves : ResolvesTo host cwd source rule)
    (entries : List FileSystemSandboxEntry) :
    denyEntryConstrainsAcceptedGrant host source entries cwd = true ↔
      ∃ entry ∈ entries, ∃ grant, entry.access.canRead = true ∧ ResolvesTo host cwd entry grant ∧ Overlap rule grant := by
  have hdeny (grantPath : AbsolutePathBuf) :
      denyEntryOverlaps host source grantPath cwd = pathsOverlap rule.path grantPath := by
    have hpath : (resolvePermissionPath host source.path cwd).any (pathsOverlap · grantPath) =
        pathsOverlap rule.path grantPath := by
      rw [resolvePermissionPath_eq hcwd, hresolves.1]
      rfl
    unfold denyEntryOverlaps
    split
    · rename_i pattern hsource
      exact absurd hsource (hglob pattern)
    · exact hpath
    · exact hpath
  unfold denyEntryConstrainsAcceptedGrant
  simp only [List.any_eq_true, List.mem_filter, hdeny, resolvePermissionPath_eq hcwd]
  constructor
  · rintro ⟨entry, ⟨hentry, hread⟩, hoverlap⟩
    split at hoverlap
    · cases hoverlap
    · rename_i grantPath hgrant
      exact ⟨entry, hentry, ⟨grantPath, entry.access⟩, hread, ⟨hgrant, rfl⟩, pathsOverlap_iff.mp hoverlap⟩
  · rintro ⟨entry, hentry, grant, hread, ⟨hgrant, -⟩, hoverlap⟩
    refine ⟨entry, ⟨hentry, hread⟩, ?_⟩
    rw [hgrant]
    exact pathsOverlap_iff.mpr hoverlap

section Membership

variable (globs) (hlinks : NoSymlinks host) (hcwd : isAbsolute cwd = true) (hrequested : requested.GlobFree)
  {fileSystem : FileSystemPermissions} (hsome : requested.fileSystem = some fileSystem)

include hlinks hcwd hrequested hsome

theorem accepted_iff : Accepted host cwd requested granted rule ↔
    ∃ entry ∈ acceptedEntries host globs cwd fileSystem (granted.fileSystem.getD ⟨[], none⟩),
      ResolvesTo host cwd entry rule := by
  constructor
  · intro haccepted
    obtain ⟨source, hsource, hresolves⟩ := (mem_rules hcwd).mp haccepted.granted
    refine ⟨_, mem_acceptedEntries.mpr ⟨source, ?_, ?_, rfl⟩, (resolvesTo_materialize hcwd).mpr hresolves⟩
    · rw [entries_getD]
      exact hsource
    · exact (withinRequest_iff hlinks hcwd hrequested hsome hsource hresolves).mpr haccepted
  · rintro ⟨entry, hentry, hresolves⟩
    obtain ⟨source, hsource, hwithin, rfl⟩ := mem_acceptedEntries.mp hentry
    rw [entries_getD] at hsource
    have hsourceResolves := (resolvesTo_materialize hcwd).mp hresolves
    exact (withinRequest_iff hlinks hcwd hrequested hsome hsource hsourceResolves).mp hwithin

theorem denyEntryConstrains_iff {source : FileSystemSandboxEntry}
    (hglob : ∀ pattern, source.path ≠ .globPattern pattern) (hresolves : ResolvesTo host cwd source rule) :
    denyEntryConstrainsAcceptedGrant host source
        (acceptedEntries host globs cwd fileSystem (granted.fileSystem.getD ⟨[], none⟩)) cwd = true ↔
      ∃ grant, Accepted host cwd requested granted grant ∧ Overlap rule grant := by
  rw [constrains_of_resolves hcwd hglob hresolves]
  constructor
  · rintro ⟨entry, hentry, grant, -, hgrant, hoverlap⟩
    exact ⟨grant, (accepted_iff globs hlinks hcwd hrequested hsome).mpr ⟨entry, hentry, hgrant⟩, hoverlap⟩
  · rintro ⟨grant, haccepted, hoverlap⟩
    obtain ⟨entry, hentry, hgrant⟩ := (accepted_iff globs hlinks hcwd hrequested hsome).mp haccepted
    refine ⟨entry, hentry, grant, ?_, hgrant, hoverlap⟩
    rw [hgrant.2]
    exact haccepted.canRead

end Membership

/-- Without a request nothing is accepted. -/
theorem Accepted.fileSystem (h : Accepted host cwd requested granted rule) :
    ∃ fileSystem, requested.fileSystem = some fileSystem := by
  cases hnone : requested.fileSystem with
  | some fileSystem => exact ⟨fileSystem, rfl⟩
  | none =>
      have hentries : requested.policy.entries = [] := by
        simp [AdditionalPermissionProfile.policy, AdditionalPermissionProfile.entries, restricted, hnone]
      have haccess : requested.policy.resolveAccessWithCwd host rule.path.toPath cwd = .none := by
        apply resolveAccess_of_none rfl rfl
        intro entry hentry
        have hmem := hentry.mem
        simp [resolvedEntriesWithCwd, hentries] at hmem
      have hcovered := h.covered
      rw [haccess] at hcovered
      cases hread : rule.access with
      | read | write | none =>
          rw [hread] at hcovered
          cases hcovered

/-- What an intersection consists of: accepted entries, and denials that meet one. -/
theorem mem_rules_intersect (globs : GlobBuilder) (hlinks : NoSymlinks host) (hcwd : isAbsolute cwd = true)
    (hrequested : requested.GlobFree) (hgranted : granted.GlobFree) :
    rule ∈ (intersectPermissionProfiles host globs requested granted cwd).rules host cwd ↔
      Accepted host cwd requested granted rule ∨
      (rule ∈ requested.rules host cwd ∨ rule ∈ granted.rules host cwd) ∧ rule.access = .none ∧
        ∃ grant, Accepted host cwd requested granted grant ∧ Overlap rule grant := by
  rw [mem_rules hcwd]
  cases hsome : requested.fileSystem with
  | none =>
      have hnone {grant : ResolvedFileSystemEntry} : ¬ Accepted host cwd requested granted grant := by
        intro h
        obtain ⟨fileSystem, hfileSystem⟩ := h.fileSystem
        rw [hsome] at hfileSystem
        cases hfileSystem
      have hentries : (intersectPermissionProfiles host globs requested granted cwd).entries = [] := by
        simp [AdditionalPermissionProfile.entries, intersectPermissionProfiles, hsome]
      simp [hentries, hnone]
  | some fileSystem =>
      have hdenied {source : FileSystemSandboxEntry} (hsource : source ∈ requested.entries ∨ source ∈ granted.entries) :
          ∀ pattern, source.path ≠ .globPattern pattern := by
        rcases hsource with hsource | hsource
        · exact hrequested source hsource
        · exact hgranted source hsource
      rw [entries_intersect hsome]
      simp only [mem_intersectFileSystem, entries_getD, ← entries_of_some hsome]
      rw [accepted_iff globs hlinks hcwd hrequested hsome, mem_rules hcwd, mem_rules hcwd]
      constructor
      · rintro ⟨entry, haccepted | ⟨source, hsource, hnone, hconstrains, rfl⟩, hresolves⟩
        · exact .inl ⟨entry, haccepted, hresolves⟩
        · rw [resolvesTo_materialize hcwd] at hresolves
          refine .inr ⟨?_, hresolves.2.symm.trans hnone, ?_⟩
          · exact hsource.imp (⟨source, ·, hresolves⟩) (⟨source, ·, hresolves⟩)
          · exact (denyEntryConstrains_iff globs hlinks hcwd hrequested hsome (hdenied hsource) hresolves).mp hconstrains
      · rintro (⟨entry, haccepted, hresolves⟩ | ⟨hsource, hnone, hmeets⟩)
        · exact ⟨entry, .inl haccepted, hresolves⟩
        · obtain ⟨source, hsource, hresolves⟩ : ∃ source, (source ∈ requested.entries ∨ source ∈ granted.entries) ∧
              ResolvesTo host cwd source rule := by
            rcases hsource with ⟨source, hsource, hresolves⟩ | ⟨source, hsource, hresolves⟩
            · exact ⟨source, .inl hsource, hresolves⟩
            · exact ⟨source, .inr hsource, hresolves⟩
          have hconstrains :=
            (denyEntryConstrains_iff globs hlinks hcwd hrequested hsome (hdenied hsource) hresolves).mpr hmeets
          exact ⟨_, .inr ⟨source, hsource, hresolves.2.trans hnone, hconstrains, rfl⟩,
            (resolvesTo_materialize hcwd).mpr hresolves⟩

/-! ## What an intersection allows -/

section Allows

variable (hlinks : NoSymlinks host) (hcwd : isAbsolute cwd = true) (hrequested : requested.GlobFree)
  (hgranted : granted.GlobFree)

include hlinks hcwd hrequested hgranted

theorem accepted_of_mem (hrule : rule ∈ (intersectPermissionProfiles host globs requested granted cwd).rules host cwd)
    (haccess : rule.access ≠ .none) : Accepted host cwd requested granted rule := by
  rcases (mem_rules_intersect globs hlinks hcwd hrequested hgranted).mp hrule with haccepted | ⟨-, hnone, -⟩
  · exact haccepted
  · exact absurd hnone haccess

section Decided

variable {grant : ResolvedFileSystemEntry}
  (hdecides : DecidesIn host cwd (intersectPermissionProfiles host globs requested granted cwd) place grant)
  (haccess : grant.access ≠ .none)

include hdecides haccess

/-- A denial of either side that applies as well is further up, as it is retained. -/
theorem deny_above (hrule : rule ∈ requested.rules host cwd ∨ rule ∈ granted.rules host cwd)
    (hdeny : rule.access = .none) (happlies : rule.path.names <+: place.names) :
    rule.path.names.length < grant.path.names.length := by
  have haccepted := accepted_of_mem hlinks hcwd hrequested hgranted hdecides.mem haccess
  have hretained := (mem_rules_intersect globs hlinks hcwd hrequested hgranted).mpr
    (.inr ⟨hrule, hdeny, grant, haccepted, List.prefix_or_prefix_of_prefix happlies hdecides.applies⟩)
  rcases hdecides.greatest rule hretained happlies with hlt | ⟨-, hle⟩
  · exact hlt
  · rw [hdeny] at hle
    exact absurd (eq_none_of_le hle) haccess

theorem requested_canRead :
    ∃ rule, DecidesIn host cwd requested place rule ∧ rule.access ≠ .none := by
  have haccepted := accepted_of_mem hlinks hcwd hrequested hgranted hdecides.mem haccess
  apply decidesIn_below (· ≠ .none) hdecides.applies
  · apply (canRead_toPath_iff rfl).mp
    have hcovered := haccepted.covered
    unfold canReadPathWithCwd
    cases hmode : grant.access with
    | none => exact absurd hmode haccess
    | read =>
        rw [hmode] at hcovered
        exact hcovered
    | write =>
        rw [hmode] at hcovered
        rw [of_decide_eq_true hcovered]
        rfl
  · intro rule hrule happlies hlength hnone
    have habove := deny_above hlinks hcwd hrequested hgranted hdecides haccess (.inl hrule.mem) hnone happlies
    exact absurd hlength (Nat.lt_asymm habove)

/-- A granted `read` that applies as well is not further down, as it is accepted with the `write`. -/
theorem read_above (hrule : rule ∈ granted.rules host cwd) (hread : rule.access = .read)
    (happlies : rule.path.names <+: place.names) : rule.path.names.length ≤ grant.path.names.length := by
  by_contra hlength
  have hunder : grant.path.names <+: rule.path.names :=
    List.prefix_of_prefix_length_le hdecides.applies happlies (Nat.le_of_not_le hlength)
  have haccepted := accepted_of_mem hlinks hcwd hrequested hgranted hdecides.mem haccess
  have hrequestedRead := requested_canRead hlinks hcwd hrequested hgranted (hdecides.of_path hunder happlies) haccess
  have hruleAccepted : Accepted host cwd requested granted rule := by
    refine ⟨hrule, ?_, ?_⟩
    · intro deny hdeny hnone hroot hpre
      have habove := deny_above hlinks hcwd hrequested hgranted hdecides haccess (.inl hdeny) hnone
        (hpre.trans happlies)
      exact haccepted.open' deny hdeny hnone hroot
        (List.prefix_of_prefix_length_le hpre hunder (Nat.le_of_lt habove))
    · rw [hread]
      exact (canRead_toPath_iff rfl).mpr hrequestedRead
  exact hlength (hdecides.length_le ((mem_rules_intersect globs hlinks hcwd hrequested hgranted).mpr (.inl hruleAccepted))
    happlies)

theorem granted_ne_none {base : AbsolutePathBuf} (hbase : base.names <+: place.names)
    (hunder : grant.path.names <+: base.names) (hrule : DecidesIn host cwd granted base rule) :
    rule.access ≠ .none := by
  intro hnone
  have haccepted := accepted_of_mem hlinks hcwd hrequested hgranted hdecides.mem haccess
  have habove := deny_above hlinks hcwd hrequested hgranted hdecides haccess (.inr hrule.mem) hnone
    (hrule.applies.trans hbase)
  exact absurd (hrule.length_le haccepted.granted hunder) (Nat.not_le_of_lt habove)

theorem granted_canRead : ∃ rule, DecidesIn host cwd granted place rule ∧ rule.access ≠ .none := by
  have haccepted := accepted_of_mem hlinks hcwd hrequested hgranted hdecides.mem haccess
  obtain ⟨rule, hrule⟩ : ∃ rule, DecidesIn host cwd granted place rule :=
    exists_decides haccepted.granted hdecides.applies
  exact ⟨rule, hrule, granted_ne_none hlinks hcwd hrequested hgranted hdecides haccess (List.prefix_refl _)
    hdecides.applies hrule⟩

end Decided

section Written

variable {grant : ResolvedFileSystemEntry}
  (hdecides : DecidesIn host cwd (intersectPermissionProfiles host globs requested granted cwd) place grant)
  (hwrite : grant.access = .write)

include hdecides hwrite

theorem granted_canWrite : ∃ rule, DecidesIn host cwd granted place rule ∧ rule.access = .write := by
  have haccess : grant.access ≠ .none := by
    rw [hwrite]
    decide
  have haccepted := accepted_of_mem hlinks hcwd hrequested hgranted hdecides.mem haccess
  apply decidesIn_below (· = .write) hdecides.applies
  · obtain ⟨rule, hrule⟩ : ∃ rule, DecidesIn host cwd granted grant.path rule :=
      exists_decides haccepted.granted (List.prefix_refl _)
    refine ⟨rule, hrule, ?_⟩
    apply eq_write_of_le
    · rw [← hwrite]
      exact hrule.mode_le haccepted.granted (List.prefix_refl _) hrule.applies.length_le
    · exact granted_ne_none hlinks hcwd hrequested hgranted hdecides haccess hdecides.applies (List.prefix_refl _) hrule
  · intro rule hrule happlies hlength
    have hunder : grant.path.names <+: rule.path.names :=
      List.prefix_of_prefix_length_le hdecides.applies happlies (Nat.le_of_lt hlength)
    cases hmode : rule.access with
    | write => rfl
    | none =>
        have hne := granted_ne_none hlinks hcwd hrequested hgranted hdecides haccess happlies hunder hrule
        exact absurd hmode hne
    | read =>
        have habove := read_above hlinks hcwd hrequested hgranted hdecides haccess hrule.mem hmode happlies
        exact absurd hlength (Nat.not_lt_of_le habove)

theorem requested_canWrite (hkept : ReadsKept host requested granted cwd) :
    ∃ rule, DecidesIn host cwd requested place rule ∧ rule.access = .write := by
  have haccess : grant.access ≠ .none := by
    rw [hwrite]
    decide
  have haccepted := accepted_of_mem hlinks hcwd hrequested hgranted hdecides.mem haccess
  have hcovered : requested.policy.canWritePathWithCwd host grant.path.toPath cwd = true := by
    have hcovered := haccepted.covered
    rw [hwrite] at hcovered
    exact hcovered
  apply decidesIn_below (· = .write) hdecides.applies
  · exact (canWrite_toPath_iff rfl).mp hcovered
  · intro rule hrule happlies hlength
    have hunder : grant.path.names <+: rule.path.names :=
      List.prefix_of_prefix_length_le hdecides.applies happlies (Nat.le_of_lt hlength)
    cases hmode : rule.access with
    | write => rfl
    | none =>
        have habove := deny_above hlinks hcwd hrequested hgranted hdecides haccess (.inl hrule.mem) hmode happlies
        exact absurd hlength (Nat.lt_asymm habove)
    | read =>
        have hnotWritten : requested.policy.canWritePathWithCwd host rule.path.toPath cwd = false := by
          rw [canWritePathWithCwd, resolveAccess_toPath_of_decides rfl hrule, hmode]
          rfl
        have hne : rule.path ≠ grant.path := by
          intro heq
          rw [heq] at hlength
          exact Nat.lt_irrefl _ hlength
        rcases hkept rule hrule.mem hmode hnotWritten grant haccepted.granted hwrite (startsWith_iff.mpr hunder) hne
          hcovered with ⟨deny, hdeny, hnone, hroot, hstarts⟩ | ⟨between, hbetween, hstarts, hover, hkind⟩
        · -- A requested denial is retained, or it is above the grant and the grant is not accepted.
          have hdenyApplies := (startsWith_iff.mp hstarts).trans happlies
          have habove := deny_above hlinks hcwd hrequested hgranted hdecides haccess (.inl hdeny) hnone hdenyApplies
          have hpre := List.prefix_of_prefix_length_le hdenyApplies hdecides.applies (Nat.le_of_lt habove)
          exact absurd hpre (haccepted.open' deny hdeny hnone hroot)
        · have happlies := (startsWith_iff.mp hstarts).trans happlies
          have hbelow := startsWith_iff.mp hover
          rcases hkind with hnone | ⟨hread, hother⟩
          · have habove := deny_above hlinks hcwd hrequested hgranted hdecides haccess (.inr hbetween) hnone happlies
            exact absurd hbelow.length_le (Nat.not_le_of_lt habove)
          · have habove := read_above hlinks hcwd hrequested hgranted hdecides haccess hbetween hread happlies
            have heq := hbelow.eq_of_length_le habove
            exact absurd (AbsolutePathBuf.ext_names heq.symm) hother

end Written

/-- With nothing in between, a `write` that is granted above a requested `read` reaches it. -/
theorem canWrite_of_not_separated (globs : GlobBuilder) {written kept : ResolvedFileSystemEntry}
    (hgrant : written ∈ granted.rules host cwd) (hwrite : written.access = .write)
    (hunder : kept.path.startsWith written.path = true)
    (hcovered : requested.policy.canWritePathWithCwd host written.path.toPath cwd = true)
    (hfree : ¬ Separated host requested granted cwd written.path kept.path) :
    (intersectPermissionProfiles host globs requested granted cwd).policy.canWritePathWithCwd host kept.path.toPath
      cwd = true := by
  have hmem {rule : ResolvedFileSystemEntry} := @mem_rules_intersect host cwd requested granted rule globs hlinks hcwd
    hrequested hgranted
  have hbase := startsWith_iff.mp hunder
  have haccepted : Accepted host cwd requested granted written := by
    refine ⟨hgrant, ?_, ?_⟩
    · intro deny hdeny hnone hroot hpre
      exact hfree (.inl ⟨deny, hdeny, hnone, hroot, startsWith_iff.mpr (hpre.trans hbase)⟩)
    · rw [hwrite]
      exact hcovered
  apply (canWrite_toPath_iff rfl).mpr
  apply decidesIn_below (· = .write) hbase
  · obtain ⟨best, hbest⟩ :
        ∃ best, DecidesIn host cwd (intersectPermissionProfiles host globs requested granted cwd) written.path best :=
      exists_decides (hmem.mpr (.inl haccepted)) (List.prefix_refl _)
    have hpath : best.path = written.path :=
      AbsolutePathBuf.ext_names (hbest.path_eq (hmem.mpr (.inl haccepted)) rfl)
    refine ⟨best, hbest, ?_⟩
    apply eq_write_of_le
    · rw [← hwrite]
      exact hbest.mode_le (hmem.mpr (.inl haccepted)) (List.prefix_refl _) hbest.applies.length_le
    · intro hnone
      rcases hmem.mp hbest.mem with hdenied | ⟨hsource | hsource, -⟩
      · have hread := hdenied.canRead
        rw [hnone] at hread
        cases hread
      · rw [canWritePathWithCwd, ← hpath, resolveAccess_of_deny rfl hsource hnone] at hcovered
        cases hcovered
      · apply hfree
        refine .inr ⟨best, hsource, ?_, ?_, .inl hnone⟩
        · rw [hpath]
          exact hunder
        · rw [hpath]
          exact startsWith_iff.mpr (List.prefix_refl _)
  · intro rule hrule happlies hlength
    have hover : rule.path.startsWith written.path = true :=
      startsWith_iff.mpr (List.prefix_of_prefix_length_le hbase happlies (Nat.le_of_lt hlength))
    have hbelow := startsWith_iff.mpr happlies
    cases hmode : rule.access with
    | write => rfl
    | read =>
        rcases hmem.mp hrule.mem with hread | ⟨-, hnone, -⟩
        · have hne : rule.path ≠ written.path := by
            intro heq
            rw [heq] at hlength
            exact Nat.lt_irrefl _ hlength
          exact absurd (.inr ⟨rule, hread.granted, hbelow, hover, .inr ⟨hmode, hne⟩⟩) hfree
        · rw [hmode] at hnone
          cases hnone
    | none =>
        rcases hmem.mp hrule.mem with hdenied | ⟨hsource | hsource, -⟩
        · have hread := hdenied.canRead
          rw [hmode] at hread
          cases hread
        · have hroot : rule.path ≠ .root := by
            intro heq
            rw [heq] at hlength
            exact Nat.not_lt_zero _ hlength
          exact absurd (.inl ⟨rule, hsource, hmode, hroot, hbelow⟩) hfree
        · exact absurd (.inr ⟨rule, hsource, hbelow, hover, .inl hmode⟩) hfree

end Allows

theorem networkEnabled_of_intersect
    (h : (intersectPermissionProfiles host globs requested granted cwd).NetworkEnabled) :
    requested.NetworkEnabled ∧ granted.NetworkEnabled := by
  unfold AdditionalPermissionProfile.NetworkEnabled intersectPermissionProfiles at *
  dsimp only at h
  split at h
  · rename_i hrequested hgranted
    exact ⟨hrequested, hgranted⟩
  · cases h

/-! ## The same request again -/

theorem materialize_ne_globPattern (h : ∀ pattern, entry.path ≠ .globPattern pattern) (pattern : Str) :
    (materializeCwdDependentEntry host entry cwd).path ≠ .globPattern pattern := by
  have hmade : (((resolvePermissionPath host entry.path cwd).map fun path =>
      (⟨.path path, entry.access⟩ : FileSystemSandboxEntry)).getD entry).path ≠ .globPattern pattern := by
    cases resolvePermissionPath host entry.path cwd with
    | none => exact h pattern
    | some path => exact FileSystemPath.noConfusion
  unfold materializeCwdDependentEntry
  split
  · exact hmade
  · exact hmade
  · rename_i found hfound
    exact absurd hfound (h found)
  · exact h pattern
  · exact h pattern

theorem globFree_intersect (hrequested : requested.GlobFree) (hgranted : granted.GlobFree) :
    (intersectPermissionProfiles host globs requested granted cwd).GlobFree := by
  intro entry hentry
  cases hsome : requested.fileSystem with
  | none => simp [AdditionalPermissionProfile.entries, intersectPermissionProfiles, hsome] at hentry
  | some fileSystem =>
      rw [entries_intersect hsome, mem_intersectFileSystem, entries_getD, ← entries_of_some hsome] at hentry
      rcases hentry with haccepted | ⟨source, hsource, -, -, rfl⟩
      · obtain ⟨source, hsource, -, rfl⟩ := mem_acceptedEntries.mp haccepted
        rw [entries_getD] at hsource
        exact materialize_ne_globPattern (hgranted source hsource)
      · rcases hsource with hsource | hsource
        · exact materialize_ne_globPattern (hrequested source hsource)
        · exact materialize_ne_globPattern (hgranted source hsource)

theorem resolveAccess_congr {other : AdditionalPermissionProfile}
    (h : ∀ rule, rule ∈ profile.rules host cwd ↔ rule ∈ other.rules host cwd) {path : Str}
    (hpath : isAbsolute path = true) :
    profile.policy.resolveAccessWithCwd host path cwd = other.policy.resolveAccessWithCwd host path cwd := by
  by_cases hdecides : ∃ rule, DecidesIn host cwd other (.normalizePath path) rule
  · obtain ⟨rule, hrule⟩ := hdecides
    rw [resolveAccess_of_decides rfl hpath hrule, resolveAccess_of_decides rfl hpath ((decides_congr h).mpr hrule)]
  · rw [resolveAccess_of_none rfl hpath fun rule hrule => hdecides ⟨rule, hrule⟩,
      resolveAccess_of_none rfl hpath fun rule hrule => hdecides ⟨rule, (decides_congr h).mp hrule⟩]

theorem mem_rules_intersect_again (hlinks : NoSymlinks host) (hcwd : isAbsolute cwd = true)
    (hrequested : requested.GlobFree) (hgranted : granted.GlobFree) :
    rule ∈ (intersectPermissionProfiles host globs requested
        (intersectPermissionProfiles host globs requested granted cwd) cwd).rules host cwd ↔
      rule ∈ (intersectPermissionProfiles host globs requested granted cwd).rules host cwd := by
  have hmem {rule : ResolvedFileSystemEntry} := @mem_rules_intersect host cwd requested granted rule globs hlinks hcwd
    hrequested hgranted
  have haccepted {rule : ResolvedFileSystemEntry} : Accepted host cwd requested
      (intersectPermissionProfiles host globs requested granted cwd) rule ↔ Accepted host cwd requested granted rule := by
    constructor
    · intro h
      apply accepted_of_mem hlinks hcwd hrequested hgranted h.granted
      intro hnone
      have hread := h.canRead
      rw [hnone] at hread
      cases hread
    · intro h
      exact ⟨hmem.mpr (.inl h), h.open', h.covered⟩
  rw [mem_rules_intersect globs hlinks hcwd hrequested (globFree_intersect hrequested hgranted)]
  simp only [haccepted]
  constructor
  · rintro (h | ⟨hrule | hrule, hnone, hmeets⟩)
    · exact hmem.mpr (.inl h)
    · exact hmem.mpr (.inr ⟨.inl hrule, hnone, hmeets⟩)
    · exact hrule
  · intro h
    rcases hmem.mp h with hrule | ⟨-, hnone, hmeets⟩
    · exact .inl hrule
    · exact .inr ⟨.inr h, hnone, hmeets⟩

end Profiles

end Codrex.Permissions
