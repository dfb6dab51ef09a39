import Codrex.MinimaxDelegate.Lemmas.ContextPacker

/-!
# Lemmas on the budgets of a pack

What the steps of the packer do to the account composes, so the account of a run is that of its steps put together.
-/

namespace Codrex.MinimaxDelegate

open Text UnixPath

/-! ## Cuts -/

variable {secrets : SecretPatterns} {tree : FileTree} {packer : ContextPacker}

theorem shownText_eq (text : Str) (remaining : Nat) :
    shownText secrets packer text remaining =
      fittingChars (fittingChars (sanitizeOutputText secrets text).text packer.perFileBudgetBytes) remaining := by
  unfold shownText
  rw [takeBytesAtCharBoundary_eq, takeBytesAtCharBoundary_eq]

theorem byteLen_shownText_le (text : Str) (remaining : Nat) :
    byteLen (shownText secrets packer text remaining) ≤ remaining := by
  rw [shownText_eq]
  exact byteLen_fittingChars_le _ _

theorem entryFor_cutFrom (path text : Str) (remaining : Nat) (source : ContextCandidateSource)
    (origin : Option AbsolutePathBuf) :
    CutFrom secrets packer (entryFor secrets packer path text remaining source origin) text := by
  have hperFile := fittingChars_starts (sanitizeOutputText secrets text).text packer.perFileBudgetBytes
  have hshown : shownText secrets packer text remaining <+:
      fittingChars (sanitizeOutputText secrets text).text packer.perFileBudgetBytes := by
    rw [shownText_eq]
    exact fittingChars_starts _ _
  have hperFileLen := byteLen_le_of_starts hperFile
  have hshownLen := byteLen_le_of_starts hshown
  constructor
  · exact Nat.le_trans hshownLen (byteLen_fittingChars_le _ _)
  · exact hshown.trans hperFile
  · simp only [entryFor, takeBytesAtCharBoundary_eq, Bool.or_eq_true, decide_eq_true_eq]
    omega

theorem normalizeDisplayPath_idem (path : Str) :
    normalizeDisplayPath (normalizeDisplayPath path) = normalizeDisplayPath path := by
  unfold normalizeDisplayPath
  rw [replace_singleton, replace_singleton, List.map_map]
  apply List.map_congr_left
  intro c _
  by_cases h : '\\' = c
  · simp [← h]
  · simp [h]

theorem normalizeDisplayPath_displayPath (path : Str) :
    normalizeDisplayPath (packer.displayPath path) = packer.displayPath path :=
  normalizeDisplayPath_idem _

/-! ## Accounts -/

/-- What happens to the account while `files` are packed. -/
structure Charges (state next : Packing) (files : List PackedContextFile) : Prop where
  packed : next.pack.files = state.pack.files ++ files
  spent : contentBytes files + next.remaining = state.remaining
  modified : next.pack.gitModifiedPaths = state.pack.gitModifiedPaths ++ (modifiedFiles files).map (·.path)
  seen : state.seen ⊆ next.seen
  fresh : ∀ file ∈ files, file.path ∉ state.seen
  listed : ∀ file ∈ files, file.path ∈ next.seen
  distinct : (files.map (·.path)).Nodup
  flagged : (state.pack.truncated = true ∨ ∃ file ∈ files, file.truncated = true) → next.pack.truncated = true

namespace Charges

theorem nothing {state next : Packing} (hfiles : next.pack.files = state.pack.files)
    (hremaining : next.remaining = state.remaining)
    (hmodified : next.pack.gitModifiedPaths = state.pack.gitModifiedPaths) (hseen : state.seen ⊆ next.seen)
    (hflagged : state.pack.truncated = true → next.pack.truncated = true) : Charges state next [] where
  packed := by rw [hfiles, List.append_nil]
  spent := by simp [contentBytes, hremaining]
  modified := by simp [modifiedFiles, hmodified]
  seen := hseen
  fresh := by simp
  listed := by simp
  distinct := List.nodup_nil
  flagged := by simpa using hflagged

theorem refl (state : Packing) : Charges state state [] :=
  nothing rfl rfl rfl (List.Subset.refl _) id

theorem pushDiag (state : Packing) (message : Str) : Charges state (state.pushDiag message) [] :=
  nothing rfl rfl rfl (List.Subset.refl _) id

theorem markTotalBudgetExhausted (state : Packing) : Charges state state.markTotalBudgetExhausted [] :=
  nothing rfl rfl rfl (List.Subset.refl _) (fun _ => rfl)

theorem insertSeen (state : Packing) (path : Str) : Charges state (state.insertSeen path) [] :=
  nothing rfl rfl rfl (List.subset_append_left _ _) id

theorem trans {state middle next : Packing} {first second : List PackedContextFile} (h : Charges state middle first)
    (h' : Charges middle next second) : Charges state next (first ++ second) where
  packed := by rw [h'.packed, h.packed, List.append_assoc]
  spent := by
    have hfirst := h.spent
    have hsecond := h'.spent
    simp only [contentBytes, List.map_append, List.sum_append] at hfirst hsecond ⊢
    omega
  modified := by
    rw [h'.modified, h.modified]
    simp [modifiedFiles]
  seen := List.Subset.trans h.seen h'.seen
  fresh := by
    intro file hfile
    rcases List.mem_append.mp hfile with hfile | hfile
    · exact h.fresh file hfile
    · exact fun hseen => h'.fresh file hfile (h.seen hseen)
  listed := by
    intro file hfile
    rcases List.mem_append.mp hfile with hfile | hfile
    · exact h'.seen (h.listed file hfile)
    · exact h'.listed file hfile
  distinct := by
    rw [List.map_append]
    apply h.distinct.append h'.distinct
    -- What is packed first has been seen by then, and what comes second has not.
    intro path hfirst hsecond
    obtain ⟨file, hfile, rfl⟩ := List.mem_map.mp hfirst
    obtain ⟨later, hlater, hpath⟩ := List.mem_map.mp hsecond
    apply h'.fresh later hlater
    rw [hpath]
    exact h.listed file hfile
  flagged := by
    rintro (hstate | ⟨file, hfile, hcut⟩)
    · exact h'.flagged (.inl (h.flagged (.inl hstate)))
    · rcases List.mem_append.mp hfile with hfile | hfile
      · exact h'.flagged (.inl (h.flagged (.inr ⟨file, hfile, hcut⟩)))
      · exact h'.flagged (.inr ⟨file, hfile, hcut⟩)

end Charges

/-! ## Entries -/

/-- Notes are made on a pack, with the mark of truncation where `cut` says so. -/
structure Noted (pack noted : ContextPack) (cut : Prop) : Prop where
  files : noted.files = pack.files
  modified : noted.gitModifiedPaths = pack.gitModifiedPaths
  flagged : pack.truncated = true ∨ cut → noted.truncated = true

theorem notes_noted (pack : ContextPack) (secret tooLong : Str) (redacted truncated cut : Bool) :
    let pack' := if redacted then pack.pushDiag secret else pack
    let pack' := if truncated then { pack'.pushDiag tooLong with truncated := true } else pack'
    Noted pack (if cut then pack'.markTotalBudgetExhausted else pack') ((truncated || cut) = true) := by
  cases redacted <;> cases truncated <;> cases cut <;>
    exact ⟨rfl, rfl, by simp [ContextPack.pushDiag, ContextPack.markTotalBudgetExhausted]⟩

section Entries

variable (secrets packer)

def entriesFor (path text : Str) (remaining : Nat) (source : ContextCandidateSource)
    (origin : Option AbsolutePathBuf) : List PackedContextFile :=
  if shownText secrets packer text remaining = [] then []
  else [entryFor secrets packer path text remaining source origin]

theorem addContextEntry_eq (state : Packing) (path text : Str) (source : ContextCandidateSource)
    (origin : Option AbsolutePathBuf) :
    ∃ noted, Noted state.pack noted
        ((entryFor secrets packer path text state.remaining source origin).truncated = true) ∧
      addContextEntry secrets state path text packer.perFileBudgetBytes source origin =
        (⟨{ noted with files := noted.files ++ entriesFor secrets packer path text state.remaining source origin },
          state.seen, state.remaining - byteLen (shownText secrets packer text state.remaining)⟩,
          decide (shownText secrets packer text state.remaining ≠ [])) := by
  unfold addContextEntry entriesFor
  split
  · rename_i hremaining
    refine ⟨state.pack.markTotalBudgetExhausted, ⟨rfl, rfl, fun _ => rfl⟩, ?_⟩
    simp [hremaining, shownText_zero, Packing.markTotalBudgetExhausted]
  · refine ⟨_, notes_noted state.pack ("redacted potential secret in ".toList ++ path)
      ("context file ".toList ++ path ++ " truncated at ".toList ++ Nat.toDigits 10 packer.perFileBudgetBytes ++
        " bytes".toList) (sanitizeOutputText secrets text).changed _ _, ?_⟩
    dsimp only
    split
    · rename_i hconsumed
      have hnil : shownText secrets packer text state.remaining = [] := byteLen_eq_zero.mp hconsumed
      rw [if_pos hnil, List.append_nil, decide_eq_false (not_not_intro hnil)]
      rfl
    · rename_i hconsumed
      have hshown : shownText secrets packer text state.remaining ≠ [] :=
        fun h => hconsumed (byteLen_eq_zero.mpr h)
      rw [if_neg hshown, decide_eq_true hshown]
      rfl

theorem addContextEntry_seen (state : Packing) (path text : Str) (source : ContextCandidateSource)
    (origin : Option AbsolutePathBuf) :
    (addContextEntry secrets state path text packer.perFileBudgetBytes source origin).1.seen = state.seen := by
  obtain ⟨noted, -, heq⟩ := addContextEntry_eq secrets packer state path text source origin
  rw [heq]

/-- What `pack_file_candidate` does behind an entry. -/
def recordModified (path : Str) (source : ContextCandidateSource) (result : Packing × Bool) : Packing :=
  if result.2 && source.isGitModified then
    { result.1 with pack :=
        { result.1.pack with gitModifiedPaths := result.1.pack.gitModifiedPaths ++ [path] } }
  else result.1

theorem recordModified_eq (path : Str) (source : ContextCandidateSource) (state : Packing) (added : Bool) :
    recordModified path source (state, added) = { state with pack :=
      { state.pack with gitModifiedPaths := state.pack.gitModifiedPaths ++
          if added && source.isGitModified then [path] else [] } } := by
  unfold recordModified
  cases added && source.isGitModified with
  | false => simp
  | true => simp

theorem recordModified_explicitSnippet (path : Str) (result : Packing × Bool) :
    recordModified path .explicitSnippet result = result.1 := by
  cases result with
  | mk state added => simp [recordModified_eq, ContextCandidateSource.isGitModified]

theorem modifiedFiles_entryFor (path text : Str) (remaining : Nat) (source : ContextCandidateSource)
    (origin : Option AbsolutePathBuf) :
    (modifiedFiles [entryFor secrets packer path text remaining source origin]).map (·.path) =
      if source.isGitModified then [path] else [] := by
  cases source <;> rfl

theorem addContextEntry_charges {state : Packing} {path : Str} (hfresh : path ∉ state.seen) (text : Str)
    (source : ContextCandidateSource) (origin : Option AbsolutePathBuf) :
    Charges state
      (recordModified path source (addContextEntry secrets (state.insertSeen path) path text
        packer.perFileBudgetBytes source origin))
      (entriesFor secrets packer path text state.remaining source origin) := by
  obtain ⟨noted, hnoted, heq⟩ := addContextEntry_eq secrets packer (state.insertSeen path) path text source origin
  rw [Packing.insertSeen_remaining] at hnoted heq
  rw [heq, recordModified_eq]
  have hle := @byteLen_shownText_le secrets packer text state.remaining
  have hseen : state.seen ⊆ (state.insertSeen path).seen := List.subset_append_left _ _
  unfold entriesFor
  by_cases hshown : shownText secrets packer text state.remaining = []
  · simp only [hshown, if_true, List.append_nil, ne_eq, not_true_eq_false, decide_false, Bool.false_and,
      Bool.false_eq_true, if_false]
    exact .nothing hnoted.files (Nat.sub_zero _) hnoted.modified hseen (fun h => hnoted.flagged (.inl h))
  · simp only [hshown, if_false, ne_eq, not_false_eq_true, decide_true, Bool.true_and]
    constructor
    · exact congrArg (· ++ _) hnoted.files
    · simp only [contentBytes, List.map_cons, List.map_nil, List.sum_singleton, entryFor]
      omega
    · rw [modifiedFiles_entryFor]
      exact congrArg (· ++ _) hnoted.modified
    · exact hseen
    · simpa [entryFor] using hfresh
    · simp [entryFor, Packing.insertSeen]
    · exact List.nodup_singleton _
    · rintro (hstate | ⟨file, hfile, hcut⟩)
      · exact hnoted.flagged (.inl hstate)
      · rw [List.mem_singleton.mp hfile] at hcut
        exact hnoted.flagged (.inr hcut)

end Entries

/-! ## Runs -/

section Runs

variable (secrets tree packer) (snippets : List ExplicitContextSnippet)

/-- The files were packed for one kind of candidate, each from a text of its own. -/
def Gathered (source : ContextCandidateSource) (files : List PackedContextFile) : Prop :=
  ∀ file ∈ files, file.source = source.contextFileSource ∧
    ∃ text, SourceText tree packer snippets file text ∧ CutFrom secrets packer file text

variable {secrets tree packer snippets}

theorem gathered_nil (source : ContextCandidateSource) : Gathered secrets tree packer snippets source [] :=
  fun _ hfile => absurd hfile List.not_mem_nil

theorem Gathered.append {source : ContextCandidateSource} {first second : List PackedContextFile}
    (h : Gathered secrets tree packer snippets source first)
    (h' : Gathered secrets tree packer snippets source second) :
    Gathered secrets tree packer snippets source (first ++ second) := by
  intro file hfile
  rcases List.mem_append.mp hfile with hfile | hfile
  · exact h file hfile
  · exact h' file hfile

theorem gathered_entriesFor {path text : Str} {remaining : Nat} {source : ContextCandidateSource}
    {origin : Option AbsolutePathBuf}
    (h : SourceText tree packer snippets (entryFor secrets packer path text remaining source origin) text) :
    Gathered secrets tree packer snippets source
      (entriesFor secrets packer path text remaining source origin) := by
  unfold entriesFor
  split
  · exact gathered_nil source
  · intro file hfile
    rw [List.mem_singleton.mp hfile]
    exact ⟨rfl, text, h, entryFor_cutFrom path text remaining source origin⟩

theorem length_entriesFor_le (path text : Str) (remaining : Nat) (source : ContextCandidateSource)
    (origin : Option AbsolutePathBuf) :
    (entriesFor secrets packer path text remaining source origin).length ≤ 1 := by
  unfold entriesFor
  split
  · exact Nat.zero_le 1
  · exact Nat.le_refl 1

theorem packFileCandidate_charges (requested : Str) (source : ContextCandidateSource)
    (hsource : source.contextFileSource ≠ .explicitSnippet) (state : Packing) :
    ∃ files, Charges state (packer.packFileCandidate secrets tree requested source state) files ∧
      files.length ≤ 1 ∧ Gathered secrets tree packer snippets source files := by
  have hpassed {next : Packing} (h : Charges state next []) : ∃ files, Charges state next files ∧
      files.length ≤ 1 ∧ Gathered secrets tree packer snippets source files :=
    ⟨[], h, Nat.zero_le 1, gathered_nil source⟩
  unfold ContextPacker.packFileCandidate
  dsimp only
  split
  · exact hpassed (.refl state)
  · rename_i hunseen
    have hseen := Charges.insertSeen state (normalizeDisplayPath (packer.resolvePath tree requested).displayPath)
    have homitted (message : Str) := hpassed (hseen.trans (.pushDiag _ message))
    split
    · exact hpassed (hseen.trans ((Charges.markTotalBudgetExhausted _).trans (.pushDiag _ _)))
    · split
      · rename_i path display hresolved
        split
        · exact homitted _
        · exact homitted _
        · rename_i location text hread
          split
          · exact homitted _
          · obtain ⟨-, rfl, -⟩ := ContextPacker.admitted_of_resolved hresolved
            rw [hresolved, PathResolution.displayPath, normalizeDisplayPath_displayPath] at hunseen ⊢
            exact ⟨_, addContextEntry_charges secrets packer hunseen text source (some location),
              length_entriesFor_le _ _ _ _ _, gathered_entriesFor (.read hsource rfl rfl hread)⟩
      · exact homitted _
      · exact homitted _
      · exact homitted _

theorem packFiles_charges (source : ContextCandidateSource) (hsource : source.contextFileSource ≠ .explicitSnippet)
    (paths : List Str) (state : Packing) :
    ∃ files, Charges state (packer.packFiles secrets tree source paths state) files ∧
      Gathered secrets tree packer snippets source files := by
  induction paths generalizing state with
  | nil => exact ⟨[], .refl state, gathered_nil source⟩
  | cons path rest ih =>
      unfold ContextPacker.packFiles
      split
      · exact ⟨[], .markTotalBudgetExhausted state, gathered_nil source⟩
      · obtain ⟨first, hfirst, -, hgathered⟩ := packFileCandidate_charges path source hsource state
        obtain ⟨others, hothers, hrest⟩ := ih (packer.packFileCandidate secrets tree path source state)
        exact ⟨first ++ others, hfirst.trans hothers, hgathered.append hrest⟩

theorem packModified_charges (index : Nat) (paths : List Str) (state : Packing) :
    ∃ files, Charges state (packer.packModified secrets tree index paths state) files ∧
      files.length ≤ maxGitContextFiles - index ∧ Gathered secrets tree packer snippets .gitModified files := by
  induction paths generalizing index state with
  | nil => exact ⟨[], .refl state, Nat.zero_le _, gathered_nil _⟩
  | cons path rest ih =>
      unfold ContextPacker.packModified
      split
      · obtain ⟨others, hothers, hlength, hrest⟩ := ih (index + 1) (state.pushDiag _)
        refine ⟨others, (Charges.pushDiag state _).trans hothers, ?_, hrest⟩
        omega
      · obtain ⟨first, hfirst, hone, hgathered⟩ := packFileCandidate_charges path .gitModified (by decide) state
        obtain ⟨others, hothers, hlength, hrest⟩ :=
          ih (index + 1) (packer.packFileCandidate secrets tree path .gitModified state)
        refine ⟨first ++ others, hfirst.trans hothers, ?_, hgathered.append hrest⟩
        rw [List.length_append]
        omega

theorem omitAll_charges (paths : List Str) (reason : Str) (state : Packing) :
    Charges state (state.omitAll paths reason) [] := by
  induction paths generalizing state with
  | nil => exact .refl state
  | cons path rest ih => exact (Charges.pushDiag state _).trans (ih _)

theorem packGitModifiedFiles_charges (gitStatus : GitStatus) (state : Packing) :
    ∃ files, Charges state (packer.packGitModifiedFiles secrets tree gitStatus state) files ∧
      files.length ≤ maxGitContextFiles ∧ Gathered secrets tree packer snippets .gitModified files := by
  unfold ContextPacker.packGitModifiedFiles
  cases gitStatus packer.repoRoot with
  | error reason => exact ⟨[], .pushDiag state _, Nat.zero_le _, gathered_nil _⟩
  | ok gitCandidates =>
      obtain ⟨files, hfiles, hlength, hgathered⟩ := packModified_charges 0 _ _
      exact ⟨files, (omitAll_charges _ _ state).trans ((omitAll_charges _ _ _).trans hfiles), hlength, hgathered⟩

/-- The snippets before `rest` have been seen, so what is packed under a new path is the first snippet with it. -/
theorem packSnippets_charges {done rest : List ExplicitContextSnippet} {state : Packing}
    (hseen : ∀ snippet ∈ done, normalizeDisplayPath snippet.path ∈ state.seen) :
    ∃ files, Charges state (packer.packSnippets secrets rest state) files ∧
      Gathered secrets tree packer (done ++ rest) .explicitSnippet files := by
  induction rest generalizing done state with
  | nil => exact ⟨[], .refl state, gathered_nil _⟩
  | cons snippet rest ih =>
      have hgoOn {next : Packing} {files : List PackedContextFile} (hstep : Charges state next files)
          (hlisted : normalizeDisplayPath snippet.path ∈ next.seen)
          (hfiles : Gathered secrets tree packer (done ++ snippet :: rest) .explicitSnippet files) :
          ∃ files, Charges state (packer.packSnippets secrets rest next) files ∧
            Gathered secrets tree packer (done ++ snippet :: rest) .explicitSnippet files := by
        have hdone : ∀ earlier ∈ done ++ [snippet], normalizeDisplayPath earlier.path ∈ next.seen := by
          simp only [List.mem_append, List.mem_singleton]
          rintro earlier (hearlier | rfl)
          · exact hstep.seen (hseen earlier hearlier)
          · exact hlisted
        obtain ⟨others, hothers, hrest⟩ := ih hdone
        rw [List.append_assoc] at hrest
        exact ⟨files ++ others, hstep.trans hothers, hfiles.append hrest⟩
      have hinsert := Charges.insertSeen state (normalizeDisplayPath snippet.path)
      have hlisted : normalizeDisplayPath snippet.path ∈
          (state.insertSeen (normalizeDisplayPath snippet.path)).seen :=
        List.mem_append_right _ (List.mem_singleton_self _)
      simp only [ContextPacker.packSnippets]
      split
      · rename_i hknown
        exact hgoOn (.refl state) hknown (gathered_nil _)
      · rename_i hunseen
        split
        · exact hgoOn (hinsert.trans (.pushDiag _ _)) hlisted (gathered_nil _)
        · split
          · exact hgoOn (hinsert.trans (.pushDiag _ _)) hlisted (gathered_nil _)
          · split
            · exact ⟨[], hinsert.trans (.markTotalBudgetExhausted _), gathered_nil _⟩
            · have hadded := addContextEntry_charges secrets packer hunseen snippet.content .explicitSnippet none
              rw [recordModified_explicitSnippet] at hadded
              have hfirst : (done ++ snippet :: rest).find?
                  (normalizeDisplayPath ·.path = normalizeDisplayPath snippet.path) = some snippet := by
                rw [List.find?_append, List.find?_eq_none.mpr, Option.none_or, List.find?_cons_of_pos]
                · simp
                · intro earlier hearlier heq
                  rw [← of_decide_eq_true heq] at hunseen
                  exact hunseen (hseen earlier hearlier)
              have hfiles : Gathered secrets tree packer (done ++ snippet :: rest) .explicitSnippet
                  (entriesFor secrets packer (normalizeDisplayPath snippet.path) snippet.content state.remaining
                    .explicitSnippet none) :=
                gathered_entriesFor (.snippet rfl hfirst)
              split
              · exact ⟨_, hadded, hfiles⟩
              · refine hgoOn hadded ?_ hfiles
                rw [addContextEntry_seen]
                exact hlisted

theorem modifiedFiles_append (first second : List PackedContextFile) :
    modifiedFiles (first ++ second) = modifiedFiles first ++ modifiedFiles second :=
  List.filter_append first second

theorem modifiedFiles_of_gathered {source : ContextCandidateSource} {files : List PackedContextFile}
    (h : Gathered secrets tree packer snippets source files) (hsource : source.contextFileSource ≠ .gitModified) :
    modifiedFiles files = [] := by
  unfold modifiedFiles
  rw [List.filter_eq_nil_iff]
  intro file hfile
  rw [(h file hfile).1]
  simpa using hsource

theorem Charges.accounted {state : Packing} {files : List PackedContextFile}
    (h : Charges ⟨.default, [], packer.totalBudgetBytes⟩ state files)
    (hcut : ∀ file ∈ files, ∃ text, SourceText tree packer snippets file text ∧ CutFrom secrets packer file text)
    (hcapped : (modifiedFiles files).length ≤ maxGitContextFiles) :
    Accounted secrets tree packer snippets state.pack := by
  have hfiles : state.pack.files = files := h.packed
  constructor
  · rw [hfiles]
    exact Nat.le_of_add_right_le h.spent.le
  · rwa [hfiles]
  · rw [hfiles]
    exact fun hfile => h.flagged (.inr hfile)
  · rw [hfiles]
    exact h.distinct
  · rw [hfiles]
    exact h.modified
  · rwa [hfiles]

end Runs

end Codrex.MinimaxDelegate
