import Codrex.MinimaxDelegate.Spec

/-!
# Lemmas on the context packer

One lemma says when a path is resolved and one what an entry adds; the loops then keep what holds of the files packed
so far.
-/

namespace Codrex.MinimaxDelegate

open Text UnixPath

/-! ## Cuts -/

theorem takeBytesAtCharBoundary_eq (s : Str) (n : Nat) : takeBytesAtCharBoundary s n = fittingChars s n := by
  unfold takeBytesAtCharBoundary
  split
  · rename_i h
    exact (fittingChars_eq_self h).symm
  · rfl

variable {secrets : SecretPatterns} {packer : ContextPacker} {tree : FileTree}

theorem shownText_ne_nil_of_le {text : Str} {m n : Nat} (hle : m ≤ n) (h : shownText secrets packer text m ≠ []) :
    shownText secrets packer text n ≠ [] := by
  unfold shownText at h ⊢
  rw [takeBytesAtCharBoundary_eq _ m] at h
  rw [takeBytesAtCharBoundary_eq _ n]
  exact fittingChars_ne_nil_of_le hle h

theorem shownText_zero (secrets : SecretPatterns) (packer : ContextPacker) (text : Str) :
    shownText secrets packer text 0 = [] := by
  unfold shownText
  rw [takeBytesAtCharBoundary_eq _ 0, fittingChars_zero]

theorem remaining_ne_zero {text : Str} {remaining : Nat} (h : shownText secrets packer text remaining ≠ []) :
    remaining ≠ 0 := by
  rintro rfl
  exact h (shownText_zero secrets packer text)

/-! ## Paths -/

theorem canonicalOr_of_some {path : Str} {location : AbsolutePathBuf} (h : tree.canonicalize path = some location) :
    canonicalOr tree path = location.toPath := by
  rw [canonicalOr, h]
  rfl

variable {packer : ContextPacker} {tree : FileTree} {requested path display : Str}

theorem exists_location_of_isPresent (h : isPresent tree packer path = true) :
    ∃ location, tree.canonicalize path = some location := by
  simp only [isPresent, FileTree.exists?, Bool.and_eq_true] at h
  exact Option.isSome_iff_exists.mp h.2

theorem findSome?_eq_some_iff_find? {α β : Type} {f : α → Option β} {p : α → Bool}
    (hp : ∀ a, (f a).isSome = p a) (l : List α) (b : β) :
    l.findSome? f = some b ↔ ∃ a, l.find? p = some a ∧ f a = some b := by
  induction l with
  | nil => simp
  | cons a l ih =>
      cases hf : f a with
      | none =>
          have hpa : p a = false := by rw [← hp, hf]; rfl
          rw [List.findSome?_cons, hf, List.find?_cons, hpa]
          exact ih
      | some c =>
          have hpa : p a = true := by rw [← hp, hf]; rfl
          simp [hf, hpa]

namespace ContextPacker

theorem resolveCandidate_isSome (candidate : Str) :
    (packer.resolveCandidate tree candidate).isSome = isPresent tree packer candidate := by
  unfold resolveCandidate isPresent
  cases packer.isInsideRepoLexically candidate with
  | false => rfl
  | true =>
      cases tree.exists? candidate with
      | false => rfl
      | true =>
          simp only [Bool.not_true, Bool.false_eq_true, if_false]
          split
          · rfl
          · split
            · rfl
            · rfl

theorem resolveCandidate_resolved {candidate : Str} (h : isPresent tree packer candidate = true) :
    packer.resolveCandidate tree candidate = some (.resolved path display) ↔
      isDeniedPath (packer.displayPath candidate) = false ∧
      startsWith (canonicalOr tree candidate) packer.repoRootCanonical = true ∧
      path = candidate ∧ display = packer.displayPath candidate := by
  simp only [isPresent, Bool.and_eq_true] at h
  simp only [resolveCandidate, h.1, h.2, Bool.not_true, Bool.false_eq_true, if_false]
  cases hdisplay : isDeniedPath (packer.displayPath candidate) with
  | true => simp
  | false =>
      cases hinside : startsWith (canonicalOr tree candidate) packer.repoRootCanonical with
      | false => simp
      | true => simp [eq_comm]

theorem resolveAbsolutePath_resolved :
    packer.resolveAbsolutePath tree requested = .resolved path display ↔
      isDeniedPath requested = false ∧ isPresent tree packer requested = true ∧
      isDeniedPath (packer.displayPath requested) = false ∧
      startsWith (canonicalOr tree requested) packer.repoRootCanonical = true ∧
      path = requested ∧ display = packer.displayPath requested := by
  simp only [resolveAbsolutePath, isPresent]
  cases hrequested : isDeniedPath requested with
  | true => simp
  | false =>
      cases hdisplay : isDeniedPath (packer.displayPath requested) with
      | true => simp
      | false =>
          cases hlexical : packer.isInsideRepoLexically requested with
          | false => simp
          | true =>
              cases hexists : tree.exists? requested with
              | false => simp
              | true =>
                  cases hinside : startsWith (canonicalOr tree requested) packer.repoRootCanonical with
                  | false => simp
                  | true => simp [eq_comm]

theorem startsWith_canonicalOr (h : isPresent tree packer path = true) :
    startsWith (canonicalOr tree path) packer.repoRootCanonical = true ↔
      ∃ location, tree.canonicalize path = some location ∧ InsideRepo packer location := by
  obtain ⟨location, hlocation⟩ := exists_location_of_isPresent h
  rw [canonicalOr_of_some hlocation]
  simp [hlocation, InsideRepo]

theorem find?_singleton_iff {p : Str → Bool} :
    [requested].find? p = some path ↔ p requested = true ∧ path = requested := by
  cases h : p requested with
  | false => simp [h]
  | true => simp [h, eq_comm]

theorem admitted_of_resolved (h : packer.resolvePath tree requested = .resolved path display) :
    Admitted tree packer requested path ∧ display = packer.displayPath path ∧
      ∃ location, tree.canonicalize path = some location ∧ InsideRepo packer location := by
  unfold resolvePath at h
  split at h
  · cases h
  · rename_i hempty
    split at h
    · cases h
    · rename_i htraversal
      have hbelow : isPathTraversal requested = false := Bool.eq_false_iff.mpr htraversal
      split at h
      · rename_i habsolute
        obtain ⟨hplain, hpresent, hdisplay, hinside, rfl, rfl⟩ := resolveAbsolutePath_resolved.mp h
        refine ⟨⟨hempty, hbelow, hplain, ?_, hdisplay⟩, rfl, (startsWith_canonicalOr hpresent).mp hinside⟩
        rw [if_pos habsolute]
        exact find?_singleton_iff.mpr ⟨hpresent, rfl⟩
      · rename_i habsolute
        split at h
        · cases h
        · rename_i hdenied
          have hplain : isSensitivePath requested = false := Bool.eq_false_iff.mpr hdenied
          split at h
          · rename_i resolution hfound
            subst h
            obtain ⟨candidate, hfind, hresolved⟩ :=
              (findSome?_eq_some_iff_find? resolveCandidate_isSome _ _).mp hfound
            have hpresent := List.find?_some hfind
            obtain ⟨hdisplay, hinside, rfl, rfl⟩ := (resolveCandidate_resolved hpresent).mp hresolved
            refine ⟨⟨hempty, hbelow, hplain, ?_, hdisplay⟩, rfl, (startsWith_canonicalOr hpresent).mp hinside⟩
            rw [if_neg habsolute]
            exact hfind
          · split at h
            · cases h
            · cases h

theorem resolved_of_admitted (hadmitted : Admitted tree packer requested path)
    (hlocation : ∃ location, tree.canonicalize path = some location ∧ InsideRepo packer location) :
    packer.resolvePath tree requested = .resolved path (packer.displayPath path) := by
  have hfind := hadmitted.standsFor
  have hpresent := List.find?_some hfind
  have hinside := (startsWith_canonicalOr hpresent).mpr hlocation
  unfold resolvePath
  rw [if_neg hadmitted.nonempty, if_neg (Bool.eq_false_iff.mp hadmitted.staysBelow)]
  split
  · rename_i habsolute
    rw [if_pos habsolute] at hfind
    obtain ⟨-, rfl⟩ := find?_singleton_iff.mp hfind
    exact resolveAbsolutePath_resolved.mpr ⟨hadmitted.plain, hpresent, hadmitted.plainDisplay, hinside, rfl, rfl⟩
  · rename_i habsolute
    rw [if_neg habsolute] at hfind
    have hdenied : isDeniedPath requested = false := hadmitted.plain
    have hresolved := (resolveCandidate_resolved hpresent).mpr ⟨hadmitted.plainDisplay, hinside, rfl, rfl⟩
    rw [if_neg (Bool.eq_false_iff.mp hdenied),
      (findSome?_eq_some_iff_find? resolveCandidate_isSome _ _).mpr ⟨path, hfind, hresolved⟩]

end ContextPacker

/-! ## Steps -/

def Adds (state next : Packing) (files : List PackedContextFile) : Prop :=
  next.pack.files = state.pack.files ++ files ∧ next.remaining ≤ state.remaining

theorem adds_nil {state next : Packing} (hfiles : next.pack.files = state.pack.files)
    (hremaining : next.remaining = state.remaining) : Adds state next [] :=
  ⟨by rw [hfiles, List.append_nil], hremaining.le⟩

theorem files_ite {c : Prop} [Decidable c] {noted pack : ContextPack} (h : noted.files = pack.files) :
    (if c then noted else pack).files = pack.files := by
  split
  · exact h
  · rfl

section Steps

variable (secrets : SecretPatterns) (packer : ContextPacker)

def entryFor (path text : Str) (remaining : Nat) (source : ContextCandidateSource)
    (origin : Option AbsolutePathBuf) : PackedContextFile :=
  let redactedContent := sanitizeOutputText secrets text
  let perFileContent := takeBytesAtCharBoundary redactedContent.text packer.perFileBudgetBytes
  ⟨path, shownText secrets packer text remaining,
    decide (byteLen perFileContent < byteLen redactedContent.text) ||
      decide (byteLen (shownText secrets packer text remaining) < byteLen perFileContent),
    redactedContent.changed, source.contextFileSource, origin⟩

variable {tree : FileTree} (state : Packing)

theorem addContextEntry_adds (path content : Str) (source : ContextCandidateSource) (origin : Option AbsolutePathBuf) :
    Adds state (addContextEntry secrets state path content packer.perFileBudgetBytes source origin).1
      (if shownText secrets packer content state.remaining = [] then []
        else [entryFor secrets packer path content state.remaining source origin]) := by
  unfold addContextEntry
  split
  · rename_i hremaining
    rw [hremaining, shownText_zero, if_pos rfl]
    exact adds_nil rfl rfl
  · dsimp only
    split
    · rename_i hconsumed
      have hnil : shownText secrets packer content state.remaining = [] := byteLen_eq_zero.mp hconsumed
      rw [if_pos hnil]
      refine ⟨?_, Nat.sub_le _ _⟩
      rw [List.append_nil, files_ite, files_ite, files_ite]
      all_goals rfl
    · rename_i hconsumed
      have hshown : shownText secrets packer content state.remaining ≠ [] :=
        fun h => hconsumed (byteLen_eq_zero.mpr h)
      rw [if_neg hshown]
      refine ⟨?_, Nat.sub_le _ _⟩
      rw [files_ite, files_ite, files_ite]
      all_goals rfl

/-- A requested file is passed over, or one entry with its text is added. -/
theorem packFileCandidate_adds (requested : Str) (source : ContextCandidateSource) :
    Adds state (packer.packFileCandidate secrets tree requested source state) [] ∨
      ∃ path display location text, packer.resolvePath tree requested = .resolved path display ∧
        tree.read path = some (location, .utf8 text) ∧ '\x00' ∉ text ∧
        shownText secrets packer text state.remaining ≠ [] ∧
        Adds state (packer.packFileCandidate secrets tree requested source state)
          [entryFor secrets packer display text state.remaining source (some location)] := by
  unfold ContextPacker.packFileCandidate
  dsimp only
  split
  · exact .inl (adds_nil rfl rfl)
  · split
    · exact .inl (adds_nil rfl rfl)
    · split
      · rename_i path display hresolved
        split
        · exact .inl (adds_nil rfl rfl)
        · exact .inl (adds_nil rfl rfl)
        · rename_i location text hread
          split
          · exact .inl (adds_nil rfl rfl)
          · rename_i hnul
            have hadds := addContextEntry_adds secrets packer
              (state.insertSeen (normalizeDisplayPath (packer.resolvePath tree requested).displayPath))
              display text source (some location)
            rw [Packing.insertSeen_remaining] at hadds
            generalize addContextEntry secrets _ _ _ _ _ _ = result at hadds ⊢
            obtain ⟨next, added⟩ := result
            -- The list of modified paths is all that changes behind the entry.
            have hnext : ∀ {files}, Adds state next files → Adds state (if added && source.isGitModified then
                { next with pack :=
                    { next.pack with gitModifiedPaths := next.pack.gitModifiedPaths ++ [display] } }
                else next) files := by
              intro files h
              split
              · exact h
              · exact h
            by_cases hshown : shownText secrets packer text state.remaining = []
            · rw [if_pos hshown] at hadds
              exact .inl (hnext hadds)
            · rw [if_neg hshown] at hadds
              exact .inr ⟨path, display, location, text, hresolved, hread, hnul, hshown, hnext hadds⟩
      · exact .inl (adds_nil rfl rfl)
      · exact .inl (adds_nil rfl rfl)
      · exact .inl (adds_nil rfl rfl)

theorem packFileCandidate_files {requested path display text : Str} {location : AbsolutePathBuf}
    (source : ContextCandidateSource) (hresolved : packer.resolvePath tree requested = .resolved path display)
    (hread : tree.read path = some (location, .utf8 text)) (hnul : '\x00' ∉ text)
    (hseen : normalizeDisplayPath display ∉ state.seen)
    (hshown : shownText secrets packer text state.remaining ≠ []) :
    (packer.packFileCandidate secrets tree requested source state).pack.files =
      state.pack.files ++ [entryFor secrets packer display text state.remaining source (some location)] := by
  have hremaining := remaining_ne_zero hshown
  have hadds := addContextEntry_adds secrets packer (state.insertSeen (normalizeDisplayPath display)) display text
    source (some location)
  rw [Packing.insertSeen_remaining, if_neg hshown] at hadds
  simp only [ContextPacker.packFileCandidate, hresolved, PathResolution.displayPath, if_neg hseen,
    Packing.insertSeen_remaining, if_neg hremaining, hread, if_neg hnul]
  split
  · exact hadds.1
  · exact hadds.1

/-! ## Runs -/

/-- What holds of the loops as long as no request leads to a sensitive file. -/
structure Keeps (tree : FileTree) (state : Packing) : Prop where
  remaining : state.remaining ≤ packer.totalBudgetBytes
  confined : ConfinedPack secrets tree packer state.pack

variable {secrets packer state}

theorem Keeps.of_adds {next : Packing} {files : List PackedContextFile} (h : Keeps secrets packer tree state)
    (hadds : Adds state next files)
    (hfiles : ∀ file ∈ files, file.source ≠ .explicitSnippet → Confined secrets tree packer file) :
    Keeps secrets packer tree next := by
  constructor
  · exact Nat.le_trans hadds.2 h.remaining
  · intro file hfile
    rw [hadds.1] at hfile
    rcases List.mem_append.mp hfile with hfile | hfile
    · exact h.confined file hfile
    · exact hfiles file hfile

theorem Keeps.of_adds_nil {next : Packing} (h : Keeps secrets packer tree state) (hadds : Adds state next []) :
    Keeps secrets packer tree next :=
  h.of_adds hadds (fun _ hfile => absurd hfile List.not_mem_nil)

theorem Keeps.pushDiag (h : Keeps secrets packer tree state) (message : Str) :
    Keeps secrets packer tree (state.pushDiag message) :=
  h.of_adds_nil (adds_nil rfl rfl)

theorem Keeps.insertSeen (h : Keeps secrets packer tree state) (path : Str) :
    Keeps secrets packer tree (state.insertSeen path) :=
  h.of_adds_nil (adds_nil rfl rfl)

theorem Keeps.markTotalBudgetExhausted (h : Keeps secrets packer tree state) :
    Keeps secrets packer tree state.markTotalBudgetExhausted :=
  h.of_adds_nil (adds_nil rfl rfl)

/-- The step: a file that is packed is confined, because its canonical path is checked against the root and the
request does not lead to a sensitive one. -/
theorem Keeps.packFileCandidate (h : Keeps secrets packer tree state) {requested : Str}
    (hharmless : ¬ LeadsToSensitive secrets tree packer requested) (source : ContextCandidateSource) :
    Keeps secrets packer tree (packer.packFileCandidate secrets tree requested source state) := by
  rcases packFileCandidate_adds secrets packer state requested source with
    hadds | ⟨path, display, location, text, hresolved, hread, hnul, hshown, hadds⟩
  · exact h.of_adds_nil hadds
  · obtain ⟨hadmitted, -, location', hlocation', hinside⟩ := ContextPacker.admitted_of_resolved hresolved
    obtain ⟨hlocation, hnode⟩ := FileTree.read_utf8.mp hread
    rw [hlocation] at hlocation'
    cases hlocation'
    have hplain : ¬ IsSensitiveLocation packer location := by
      intro hsensitive
      exact hharmless ⟨path, location, text, hadmitted, hlocation, hinside, hsensitive, hnode, hnul,
        shownText_ne_nil_of_le h.remaining hshown⟩
    apply h.of_adds hadds
    intro file hfile _
    rw [List.mem_singleton.mp hfile]
    exact ⟨location, text, state.remaining, rfl, hnode, h.remaining, rfl, hinside, hplain⟩

theorem Keeps.packSnippets (snippets : List ExplicitContextSnippet) (h : Keeps secrets packer tree state) :
    Keeps secrets packer tree (packer.packSnippets secrets snippets state) := by
  induction snippets generalizing state with
  | nil => exact h
  | cons snippet rest ih =>
      simp only [ContextPacker.packSnippets]
      split
      · exact ih h
      · split
        · exact ih ((h.insertSeen _).pushDiag _)
        · split
          · exact ih ((h.insertSeen _).pushDiag _)
          · split
            · exact (h.insertSeen _).markTotalBudgetExhausted
            · have hnext := (h.insertSeen (normalizeDisplayPath snippet.path)).of_adds
                (addContextEntry_adds secrets packer _ (normalizeDisplayPath snippet.path) snippet.content
                  .explicitSnippet none) (by
                intro file hfile hsource
                split at hfile
                · cases hfile
                · rw [List.mem_singleton.mp hfile] at hsource
                  exact absurd rfl hsource)
              split
              · exact hnext
              · exact ih hnext

theorem Keeps.packFiles (source : ContextCandidateSource) {paths : List Str}
    (hharmless : ∀ path ∈ paths, ¬ LeadsToSensitive secrets tree packer path) (h : Keeps secrets packer tree state) :
    Keeps secrets packer tree (packer.packFiles secrets tree source paths state) := by
  induction paths generalizing state with
  | nil => exact h
  | cons path rest ih =>
      obtain ⟨hpath, hrest⟩ := List.forall_mem_cons.mp hharmless
      unfold ContextPacker.packFiles
      split
      · exact h.markTotalBudgetExhausted
      · exact ih hrest (h.packFileCandidate hpath source)

theorem Keeps.packModified {paths : List Str} (index : Nat)
    (hharmless : ∀ path ∈ paths, ¬ LeadsToSensitive secrets tree packer path) (h : Keeps secrets packer tree state) :
    Keeps secrets packer tree (packer.packModified secrets tree index paths state) := by
  induction paths generalizing index state with
  | nil => exact h
  | cons path rest ih =>
      obtain ⟨hpath, hrest⟩ := List.forall_mem_cons.mp hharmless
      unfold ContextPacker.packModified
      apply ih (index + 1) hrest
      split
      · exact h.pushDiag _
      · exact h.packFileCandidate hpath .gitModified

theorem Keeps.omitAll (paths : List Str) (reason : Str) (h : Keeps secrets packer tree state) :
    Keeps secrets packer tree (state.omitAll paths reason) := by
  induction paths generalizing state with
  | nil => exact h
  | cons path rest ih => exact ih (h.pushDiag _)

end Steps

/-! ## Git -/

theorem modified_gitPathsLoop {seen gitSeen : List Str} {gitCandidates : List GitStatusCandidate} {found : GitPaths}
    {path : Str} (h : path ∈ (gitPathsLoop seen gitCandidates gitSeen found).modified) :
    path ∈ found.modified ∨ path ∈ gitCandidates.filterMap GitStatusCandidate.modifiedPath? := by
  induction gitCandidates generalizing gitSeen found with
  | nil => exact .inl h
  | cons candidate rest ih =>
      cases candidate with
      | modified changed =>
          simp only [gitPathsLoop] at h
          simp only [List.filterMap_cons, GitStatusCandidate.modifiedPath?, List.mem_cons]
          split at h
          · rcases ih h with hfound | hrest
            · exact .inl hfound
            · exact .inr (.inr hrest)
          · rcases ih h with hfound | hrest
            · rcases List.mem_append.mp hfound with hfound | hchanged
              · exact .inl hfound
              · exact .inr (.inl (List.mem_singleton.mp hchanged))
            · exact .inr (.inr hrest)
      | deleted changed | untracked changed =>
          simp only [gitPathsLoop] at h
          simp only [List.filterMap_cons, GitStatusCandidate.modifiedPath?]
          split at h
          · exact ih h
          · rcases ih h with hfound | hrest
            · exact .inl hfound
            · exact .inr hrest

theorem mem_sortPaths {path : Str} {paths : List Str} : path ∈ sortPaths paths ↔ path ∈ paths :=
  (List.perm_insertionSort _ paths).mem_iff

theorem Keeps.packGitModifiedFiles {state : Packing} {gitStatus : GitStatus}
    (hharmless : ∀ path ∈ modifiedPaths packer gitStatus, ¬ LeadsToSensitive secrets tree packer path)
    (h : Keeps secrets packer tree state) :
    Keeps secrets packer tree (packer.packGitModifiedFiles secrets tree gitStatus state) := by
  unfold modifiedPaths at hharmless
  unfold ContextPacker.packGitModifiedFiles
  cases hstatus : gitStatus packer.repoRoot with
  | error reason => exact h.pushDiag _
  | ok gitCandidates =>
      simp only [hstatus] at hharmless
      apply Keeps.packModified
      · intro path hpath
        rcases modified_gitPathsLoop (mem_sortPaths.mp hpath) with hfound | hmodified
        · cases hfound
        · exact hharmless path hmodified
      · exact (h.omitAll _ _).omitAll _ _

theorem Keeps.packWithRequest {gitStatus : GitStatus} {request : ContextPackRequest}
    (hharmless : ∀ path ∈ requestedPaths packer gitStatus request, ¬ LeadsToSensitive secrets tree packer path) :
    ConfinedPack secrets tree packer (packer.packWithRequest secrets tree gitStatus request) := by
  unfold requestedPaths at hharmless
  have hstart : Keeps secrets packer tree ⟨.default, [], packer.totalBudgetBytes⟩ :=
    ⟨Nat.le_refl _, fun _ hfile => absurd hfile List.not_mem_nil⟩
  have hexplicit := (hstart.packSnippets request.explicitSnippets).packFiles .explicitFile
    (fun path hpath => hharmless path (List.mem_append_left _ (List.mem_append_left _ hpath)))
  have hmentioned := hexplicit.packFiles .taskMention
    (fun path hpath => hharmless path (List.mem_append_left _ (List.mem_append_right _ hpath)))
  unfold ContextPacker.packWithRequest
  split
  · rename_i hmodified
    apply Keeps.confined
    apply hmentioned.packGitModifiedFiles
    intro path hpath
    apply hharmless path
    rw [if_pos hmodified]
    exact List.mem_append_right _ hpath
  · exact hmentioned.confined

theorem requestedPaths_single (packer : ContextPacker) (gitStatus : GitStatus) (requested : Str) :
    requestedPaths packer gitStatus ⟨[requested], [], [], false⟩ = [requested] := rfl

theorem packWithRequest_single (hbudget : packer.totalBudgetBytes ≠ 0) (secrets : SecretPatterns) (tree : FileTree)
    (gitStatus : GitStatus) (requested : Str) :
    packer.packWithRequest secrets tree gitStatus ⟨[requested], [], [], false⟩ =
      (packer.packFileCandidate secrets tree requested .explicitFile ⟨.default, [], packer.totalBudgetBytes⟩).pack := by
  have hsingle : packer.packFiles secrets tree .explicitFile [requested] ⟨.default, [], packer.totalBudgetBytes⟩ =
      packer.packFileCandidate secrets tree requested .explicitFile ⟨.default, [], packer.totalBudgetBytes⟩ := by
    unfold ContextPacker.packFiles
    rw [if_neg hbudget]
    rfl
  exact congrArg Packing.pack hsingle

/-- Asked for alone, a path that leads to a sensitive file brings it into the pack. -/
theorem not_confinedPack_of_leadsToSensitive {requested : Str} (gitStatus : GitStatus)
    (h : LeadsToSensitive secrets tree packer requested) :
    ¬ ConfinedPack secrets tree packer
      (packer.packWithRequest secrets tree gitStatus ⟨[requested], [], [], false⟩) := by
  intro hconfined
  obtain ⟨path, location, text, hadmitted, hlocation, hinside, hsensitive, hnode, hnul, hshown⟩ := h
  have hresolved := ContextPacker.resolved_of_admitted hadmitted ⟨location, hlocation, hinside⟩
  have hfiles := packFileCandidate_files secrets packer ⟨.default, [], packer.totalBudgetBytes⟩ .explicitFile
    hresolved (FileTree.read_utf8.mpr ⟨hlocation, hnode⟩) hnul List.not_mem_nil hshown
  rw [packWithRequest_single (remaining_ne_zero hshown)] at hconfined
  have hentry := hconfined (entryFor secrets packer (packer.displayPath path) text packer.totalBudgetBytes
    .explicitFile (some location)) (by rw [hfiles]; exact List.mem_append_right _ (List.mem_singleton_self _))
  obtain ⟨location', _, _, horigin, _, _, _, _, hplain⟩ := hentry (fun hsource => by cases hsource)
  cases horigin
  exact hplain hsensitive

end Codrex.MinimaxDelegate
