import Codrex.AbsolutePath
import Codrex.Permissions.Spec

/-!
# Effective paths

Without links a path is its own effective path.
-/

namespace Codrex.Permissions

open Text UnixPath

variable {host : Host}

theorem canonicalizePreservingSymlinks_eq (h : NoSymlinks host) (path : AbsolutePathBuf) :
    canonicalizePreservingSymlinks host path = path := by
  rw [canonicalizePreservingSymlinks]
  split
  next canonical hcanonical =>
    rw [h path canonical hcanonical]
    split
    · rfl
    · rfl
  next => rfl

/-- A path is put together again from an ancestor and the rest. -/
theorem fromAbsolutePath_join_stripBase (env : HostEnv) {path ancestor : AbsolutePathBuf} {suffix : Str}
    (h : path.stripBase ancestor = some suffix) :
    AbsolutePathBuf.fromAbsolutePath env (UnixPath.join ancestor.toPath suffix) = some path := by
  rw [AbsolutePathBuf.stripBase] at h
  split at h
  next hpre =>
    obtain rfl := Option.some.inj h
    have hrest : ∀ name ∈ path.names.drop ancestor.names.length, IsName name :=
      fun name hmem => path.isName name (List.mem_of_mem_drop hmem)
    have hrelative : isAbsolute (['/'].intercalate (path.names.drop ancestor.names.length)) = false :=
      isAbsolute_intercalate hrest
    have habsolute : isAbsolute (UnixPath.join ancestor.toPath
        (['/'].intercalate (path.names.drop ancestor.names.length))) = true := by
      rw [AbsolutePathBuf.isAbsolute_join hrelative]
      rfl
    rw [AbsolutePathBuf.fromAbsolutePath_of_absolute env habsolute]
    refine congrArg some (AbsolutePathBuf.normalizePath_of_pieces ?_)
    rw [pieces_join (by simp [AbsolutePathBuf.toPath]) hrelative, AbsolutePathBuf.pieces_toPath, pieces_intercalate hrest]
    obtain ⟨rest, hnames⟩ := List.isPrefixOf_iff_prefix.mp hpre
    rw [← hnames, List.drop_left]
  next => cases h

theorem normalizeEffectiveAbsolutePath_eq (h : NoSymlinks host) (path : AbsolutePathBuf) :
    normalizeEffectiveAbsolutePath host path = path := by
  rw [normalizeEffectiveAbsolutePath]
  cases hfound : path.ancestors.findSome? _ with
  | none => rfl
  | some found =>
      obtain ⟨ancestor, -, hancestor⟩ := List.exists_of_findSome?_eq_some hfound
      split at hancestor
      · cases hancestor
      · obtain ⟨suffix, hsuffix, heq⟩ := Option.bind_eq_some_iff.mp hancestor
        rw [canonicalizePreservingSymlinks_eq h, fromAbsolutePath_join_stripBase host.env hsuffix] at heq
        exact (Option.some.inj heq).symm

end Codrex.Permissions

/-!
## Access to a path

The access of a path is the mode of the entry that decides it, and the roots of a policy are the places where an entry
of their own decides for `write`.
-/

namespace Codrex.Permissions

open Text UnixPath MostSpecific

variable {host : Host} {policy : FileSystemSandboxPolicy} {cwd : Str}

namespace ResolvedFileSystemEntry

def names (entry : ResolvedFileSystemEntry) : List Str := entry.path.names

end ResolvedFileSystemEntry

open ResolvedFileSystemEntry

namespace FileSystemSandboxPolicy

/-! ## The entry that decides -/

def DecidesAt (host : Host) (policy : FileSystemSandboxPolicy) (cwd : Str) (place : AbsolutePathBuf)
    (entry : ResolvedFileSystemEntry) : Prop :=
  Decides names ResolvedFileSystemEntry.access (policy.resolvedEntriesWithCwd host cwd) place.names entry

theorem startsWith_iff {path base : AbsolutePathBuf} : path.startsWith base = true ↔ base.names <+: path.names :=
  List.isPrefixOf_iff_prefix

variable {path : Str} {place : AbsolutePathBuf}

theorem resolveCandidatePath_of_absolute (h : isAbsolute path = true) :
    resolveCandidatePath host path cwd = some (.normalizePath path) := by
  rw [resolveCandidatePath, if_pos h]
  exact AbsolutePathBuf.fromAbsolutePath_of_absolute host.env h

theorem resolveAccess_of_decides (hkind : policy.kind = .restricted) (hpath : isAbsolute path = true)
    {entry : ResolvedFileSystemEntry} (h : policy.DecidesAt host cwd (.normalizePath path) entry) :
    policy.resolveAccessWithCwd host path cwd = entry.access := by
  rw [resolveAccessWithCwd, hkind]
  simp only [resolveCandidatePath_of_absolute hpath]
  cases hmax : maxByKey resolvedEntryPrecedence ((policy.resolvedEntriesWithCwd host cwd).filter fun entry =>
      (AbsolutePathBuf.normalizePath path).startsWith entry.path) with
  | none =>
      have hnil := List.filter_eq_nil_iff.mp (maxByKey_eq_none.mp hmax) entry h.mem
      exact absurd (startsWith_iff.mpr h.applies) hnil
  | some best =>
      have hbest : policy.DecidesAt host cwd (.normalizePath path) best :=
        decides_of_maxByKey (fun _ => rfl) (fun _ => startsWith_iff) hmax
      exact hbest.mode_eq h

theorem resolveAccess_of_none (hkind : policy.kind = .restricted) (hpath : isAbsolute path = true)
    (h : ∀ entry, ¬ policy.DecidesAt host cwd (.normalizePath path) entry) :
    policy.resolveAccessWithCwd host path cwd = .none := by
  rw [resolveAccessWithCwd, hkind]
  simp only [resolveCandidatePath_of_absolute hpath]
  cases hmax : maxByKey resolvedEntryPrecedence ((policy.resolvedEntriesWithCwd host cwd).filter fun entry =>
      (AbsolutePathBuf.normalizePath path).startsWith entry.path) with
  | none => rfl
  | some best => exact absurd (decides_of_maxByKey (fun _ => rfl) (fun _ => startsWith_iff) hmax) (h best)

theorem resolveAccess_iff (good : FileSystemAccessMode → Prop) (hnone : ¬ good .none)
    (hkind : policy.kind = .restricted) (hpath : isAbsolute path = true) :
    good (policy.resolveAccessWithCwd host path cwd) ↔
      ∃ entry, policy.DecidesAt host cwd (.normalizePath path) entry ∧ good entry.access := by
  constructor
  · intro h
    by_cases hdecides : ∃ entry, policy.DecidesAt host cwd (.normalizePath path) entry
    · obtain ⟨entry, hentry⟩ := hdecides
      rw [resolveAccess_of_decides hkind hpath hentry] at h
      exact ⟨entry, hentry, h⟩
    · rw [resolveAccess_of_none hkind hpath fun entry hentry => hdecides ⟨entry, hentry⟩] at h
      exact absurd h hnone
  · rintro ⟨entry, hentry, hgood⟩
    rw [resolveAccess_of_decides hkind hpath hentry]
    exact hgood

theorem canWrite_iff (hkind : policy.kind = .restricted) (hpath : isAbsolute path = true) :
    policy.canWritePathWithCwd host path cwd = true ↔
      ∃ entry, policy.DecidesAt host cwd (.normalizePath path) entry ∧ entry.access = .write := by
  rw [canWritePathWithCwd, FileSystemAccessMode.canWrite, decide_eq_true_eq]
  exact resolveAccess_iff (· = .write) (by decide) hkind hpath

theorem canRead_iff (hkind : policy.kind = .restricted) (hpath : isAbsolute path = true) :
    policy.canReadPathWithCwd host path cwd = true ↔
      ∃ entry, policy.DecidesAt host cwd (.normalizePath path) entry ∧ entry.access ≠ .none := by
  rw [canReadPathWithCwd, FileSystemAccessMode.canRead, decide_eq_true_eq]
  exact resolveAccess_iff (· ≠ .none) (by decide) hkind hpath

theorem canRead_toPath_iff (hkind : policy.kind = .restricted) :
    policy.canReadPathWithCwd host place.toPath cwd = true ↔
      ∃ entry, policy.DecidesAt host cwd place entry ∧ entry.access ≠ .none := by
  rw [canRead_iff hkind rfl, AbsolutePathBuf.normalizePath_toPath]

theorem canWrite_toPath_iff (hkind : policy.kind = .restricted) :
    policy.canWritePathWithCwd host place.toPath cwd = true ↔
      ∃ entry, policy.DecidesAt host cwd place entry ∧ entry.access = .write := by
  rw [canWrite_iff hkind rfl, AbsolutePathBuf.normalizePath_toPath]

/-! ## The roots -/

theorem mem_writableEntries (hkind : policy.kind = .restricted) :
    place ∈ policy.writableEntries host cwd ↔
      IsRoot names ResolvedFileSystemEntry.access (· = .write) (policy.resolvedEntriesWithCwd host cwd) place.names := by
  simp only [writableEntries, List.mem_map, List.mem_filter, Bool.and_eq_true, canWrite_toPath_iff hkind]
  constructor
  · rintro ⟨entry, ⟨hmem, -, rule, hrule, hwrite⟩, rfl⟩
    exact ⟨rule, hrule, hrule.path_eq hmem rfl, hwrite⟩
  · rintro ⟨rule, hrule, hpath, hwrite⟩
    obtain rfl : rule.path = place := AbsolutePathBuf.ext_names hpath
    exact ⟨rule, ⟨hrule.mem, by simp [FileSystemAccessMode.canWrite, hwrite], rule, hrule, hwrite⟩, rfl⟩

/-- Without links only the entries under the root are carved out, and they are spelled as they are. -/
theorem carveoutPath_eq (hlinks : NoSymlinks host) {root : AbsolutePathBuf} {rawWritableRoots : List AbsolutePathBuf}
    (hraw : ∀ rawRoot ∈ rawWritableRoots, rawRoot = root) (entry : AbsolutePathBuf) :
    carveoutPath host root rawWritableRoots entry =
      if entry = root || !entry.startsWith root then none else some entry := by
  have hrawCarveout : rawCarveoutPath host root rawWritableRoots entry =
      if entry = root || !entry.startsWith root then none else some entry := by
    rw [rawCarveoutPath]
    by_cases heq : entry = root
    · simp [heq]
    · by_cases hunder : entry.startsWith root = true
      · simp [heq, hunder]
      · have hnone : (rawWritableRoots.findSome? fun rawRoot => (entry.stripBase rawRoot).bind fun suffix =>
            if suffix = [] then none else some (root.join host.env suffix)) = none := by
          rw [List.findSome?_eq_none_iff]
          intro rawRoot hmem
          rw [hraw rawRoot hmem, AbsolutePathBuf.stripBase, if_neg hunder]
          rfl
        simp [heq, hunder, hnone]
  rw [carveoutPath]
  simp only [hrawCarveout, normalizeEffectiveAbsolutePath_eq hlinks]
  cases root.parent.isSome with
  | false => rfl
  | true =>
      split
      next found hfound => exact hfound.symm
      next => rfl

theorem mem_carveouts (hkind : policy.kind = .restricted) (hlinks : NoSymlinks host) {root : AbsolutePathBuf} :
    place ∈ policy.carveouts host cwd root ↔
      IsCarveout names ResolvedFileSystemEntry.access (· = .write) (policy.resolvedEntriesWithCwd host cwd)
        root.names place.names := by
  have hraw : ∀ rawRoot ∈ (policy.writableEntries host cwd).filter fun path =>
      normalizeEffectiveAbsolutePath host path = root, rawRoot = root := by
    intro rawRoot hmem
    simpa [normalizeEffectiveAbsolutePath_eq hlinks] using (List.mem_filter.mp hmem).2
  simp only [carveouts, List.mem_filterMap, List.mem_filter, carveoutPath_eq hlinks hraw]
  constructor
  · rintro ⟨entry, ⟨hmem, hcond⟩, heq⟩
    split at heq
    · cases heq
    next hunder =>
      obtain rfl := Option.some.inj heq
      simp only [Bool.or_eq_true, decide_eq_true_eq, Bool.not_eq_true', not_or, Bool.not_eq_false] at hunder
      simp only [Bool.and_eq_true, Bool.not_eq_true'] at hcond
      obtain ⟨rule, hrule⟩ : ∃ rule, policy.DecidesAt host cwd entry.path rule :=
        exists_decides hmem (List.prefix_refl _)
      refine ⟨startsWith_iff.mp hunder.2, fun hnames => hunder.1 (AbsolutePathBuf.ext_names hnames.symm), rule, hrule,
        hrule.path_eq hmem rfl, ?_⟩
      intro hwrite
      have hcan := (canWrite_toPath_iff hkind).mpr ⟨rule, hrule, hwrite⟩
      rw [hcond.2] at hcan
      cases hcan
  · rintro ⟨hunder, hne, rule, hrule, hpath, hwrite⟩
    obtain rfl : rule.path = place := AbsolutePathBuf.ext_names hpath
    refine ⟨rule, ⟨hrule.mem, ?_⟩, ?_⟩
    · simp only [Bool.and_eq_true, Bool.not_eq_true', FileSystemAccessMode.canWrite, decide_eq_false_iff_not]
      refine ⟨hwrite, ?_⟩
      rw [Bool.eq_false_iff, ne_eq, canWrite_toPath_iff hkind]
      rintro ⟨other, hother, hotherWrite⟩
      exact hwrite ((hrule.mode_eq hother).trans hotherWrite)
    · rw [if_neg]
      simp only [Bool.or_eq_true, decide_eq_true_eq, Bool.not_eq_true', not_or, Bool.not_eq_false]
      exact ⟨fun heq => hne (by rw [heq]), startsWith_iff.mpr hunder⟩

/-- A path can be written exactly if it is under a root and under none of its carveouts. -/
theorem canWrite_iff_root (hkind : policy.kind = .restricted) (hlinks : NoSymlinks host)
    (hpath : isAbsolute path = true) : policy.canWritePathWithCwd host path cwd = true ↔
      ∃ root ∈ policy.writableEntries host cwd, root.names <+: (AbsolutePathBuf.normalizePath path).names ∧
        ∀ carveout ∈ policy.carveouts host cwd root, ¬ carveout.names <+: (AbsolutePathBuf.normalizePath path).names := by
  have hgood := decides_good_iff names ResolvedFileSystemEntry.access (· = .write)
    (policy.resolvedEntriesWithCwd host cwd) (AbsolutePathBuf.normalizePath path).names
  refine (canWrite_iff hkind hpath).trans (hgood.trans ?_)
  constructor
  · rintro ⟨root, hroot, hunder, hcarveouts⟩
    obtain ⟨rule, -, rfl, -⟩ := id hroot
    refine ⟨rule.path, (mem_writableEntries hkind).mpr hroot, hunder, ?_⟩
    intro carveout hcarveout
    exact hcarveouts _ ((mem_carveouts hkind hlinks).mp hcarveout)
  · rintro ⟨root, hroot, hunder, hcarveouts⟩
    refine ⟨root.names, (mem_writableEntries hkind).mp hroot, hunder, ?_⟩
    intro carveout hcarveout
    obtain ⟨-, -, rule, -, rfl, -⟩ := id hcarveout
    exact hcarveouts rule.path ((mem_carveouts hkind hlinks).mpr hcarveout)

theorem mem_keepUnseen {seen paths : List AbsolutePathBuf} {path : AbsolutePathBuf} :
    path ∈ keepUnseen seen paths ↔ path ∈ paths ∧ path ∉ seen := by
  induction paths generalizing seen with
  | nil => simp [keepUnseen]
  | cons first paths ih =>
      rw [keepUnseen]
      split
      next hseen =>
        rw [ih]
        grind
      next hseen =>
        rw [List.mem_cons, ih]
        grind

theorem mem_dedupAbsolutePaths {paths : List AbsolutePathBuf} {path : AbsolutePathBuf} :
    path ∈ dedupAbsolutePaths host paths false ↔ path ∈ paths := by
  rw [dedupAbsolutePaths, mem_keepUnseen]
  simp

theorem mem_getWritableRoots (hlinks : NoSymlinks host) (hfull : policy.hasFullDiskWriteAccess = false)
    {writableRoot : WritableRoot} : writableRoot ∈ policy.getWritableRootsWithCwd host cwd ↔
      ∃ root ∈ policy.writableEntries host cwd, policy.writableRoot host cwd root = writableRoot := by
  have hsame : normalizeEffectiveAbsolutePath host = id := funext (normalizeEffectiveAbsolutePath_eq hlinks)
  rw [getWritableRootsWithCwd, if_neg (by simp [hfull]), List.mem_map]
  simp only [dedupAbsolutePaths, if_true, mem_keepUnseen, hsame, List.map_id, List.not_mem_nil, not_false_eq_true, and_true]

/-- The place is under the root, under no carveout, and under nothing that is protected by default. -/
theorem isPathWritable_iff {root : AbsolutePathBuf} :
    (policy.writableRoot host cwd root).isPathWritable place = true ↔
      root.names <+: place.names ∧ (∀ carveout ∈ policy.carveouts host cwd root, ¬ carveout.names <+: place.names) ∧
        ∀ subpath ∈ defaultReadOnlySubpathsForWritableRoot host root (protectMissingDotCodex host cwd root),
          hasExplicitResolvedPathEntry (policy.resolvedEntriesWithCwd host cwd) subpath = false →
            ¬ subpath.names <+: place.names := by
  simp only [WritableRoot.isPathWritable, writableRoot, Bool.and_eq_true, startsWith_iff, List.all_eq_true,
    mem_dedupAbsolutePaths, List.mem_append, List.mem_filter, Bool.not_eq_true', Bool.eq_false_iff, ne_eq]
  grind

end FileSystemSandboxPolicy

end Codrex.Permissions
