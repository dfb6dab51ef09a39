import Codrex.MinimaxDelegate.Lemmas.Budget
import Codrex.MinimaxDelegate.Lemmas.DiffRedaction
import Codrex.MinimaxDelegate.Lemmas.ResponseParser
import Codrex.MinimaxDelegate.Lemmas.Shape

/-!
# Results for the delegation to a worker
-/

namespace Codrex.MinimaxDelegate

open Text ApplyPatch

/-! ## Delegated patches -/

/-- Whatever comes out completed spares the sensitive files, exactly when the worker does not answer with a
unified diff whose headers name one: only patches in the other format are looked at. -/
theorem delegated_sparesSensitive_iff {σ : Type} (tool : DiffTool) (secrets : SecretPatterns) (json : WorkerJson)
    (inv : InvocationEnv) (env : HostEnv) (fs : ExecutorFileSystem σ) (worktree : σ) (output cwd : Str)
    (contextDiagnostics : List Str) (contextSummary : Option MiniMaxContextSummary) :
    (∀ result, parseDelegateOutput secrets json output contextDiagnostics contextSummary = some result →
      SparesSensitive tool (validateDelegateResultAgainstWorktree secrets inv env fs worktree result cwd)) ↔
    ∀ diff, OffersUnifiedDiff secrets json output diff →
      ∀ path ∈ tool.fileHeaders diff, isSensitivePath path = false := by
  constructor
  · intro hspares diff hoffers
    obtain ⟨result, hparse, hstatus, hformat, hpatch⟩ :=
      completed_of_offersUnifiedDiff contextDiagnostics contextSummary hoffers
    have hresult := hspares result hparse
    rw [validate_of_not_applyPatch (Or.inr (by rw [hformat]; simp))] at hresult
    exact hresult hstatus .unifiedDiff diff hformat hpatch
  · intro hheaders result hparse
    by_cases hstatus : result.status = .completed
    · obtain ⟨response, diagnostics, hreads, hread⟩ := readsAs_of_completed hparse hstatus
      obtain ⟨format, patch, hcompleted, hformat, hsummary, hpatch, hresultFormat, hresultPatch⟩ :=
        readResponse_completed hread hstatus
      cases format with
      | applyPatch => exact sparesSensitive_of_applyPatch hresultFormat
      | unifiedDiff =>
          obtain ⟨source, diffDiagnostics, hsource, hdiff⟩ := completedPatch_unifiedDiff hpatch
          have hoffers : OffersUnifiedDiff secrets json output patch.patch :=
            ⟨response, source, diffDiagnostics, hreads, hcompleted, hformat, hsummary, hsource, hdiff⟩
          rw [validate_of_not_applyPatch (Or.inr (by rw [hresultFormat]; simp))]
          intro _ format' patch' hformat' hpatch'
          rw [hresultFormat] at hformat'
          rw [hresultPatch] at hpatch'
          cases hformat'
          cases hpatch'
          exact hheaders patch.patch hoffers
    · rw [validate_of_not_applyPatch (Or.inl hstatus)]
      intro hcompleted
      exact absurd hcompleted hstatus

theorem IsPlainName.not_mem {name : Str} (h : IsPlainName name) : '\n' ∉ name ∧ '\r' ∉ name := by
  constructor
  · intro hmem
    exact absurd (h.2 _ hmem) (by decide)
  · intro hmem
    exact absurd (h.2 _ hmem) (by decide)

/-- A tool that looks at the lines behind `+++` only is one. -/
instance : Nonempty DiffTool := by
  refine ⟨⟨fun diff => (lines diff).filterMap (stripPrefix "+++ b/" ·), ?_⟩⟩
  intro name oldLine newLine hname hold hnew
  have hfront : ∀ l ∈ ["--- a/".toList ++ name, "+++ b/".toList ++ name, "@@ -1 +1 @@".toList, '-' :: oldLine],
      '\n' ∉ l := by simp [hname.not_mem.1, hold]
  have hlines := lines_joinLines hfront (by simpa using hnew : '\n' ∉ '+' :: newLine) (List.cons_ne_nil _ _)
  have hkept : stripCr ("+++ b/".toList ++ name) = "+++ b/".toList ++ name := by
    apply stripCr_of_ne
    intro hcr
    have hmem := List.mem_of_getLast? hcr
    simp [hname.not_mem.2] at hmem
  apply List.mem_filterMap.mpr
  refine ⟨"+++ b/".toList ++ name, ?_, stripPrefix_append _ _⟩
  rw [oneLineDiff]
  exact hlines ▸ List.mem_append_left _ (List.mem_map.mpr ⟨_, by simp, hkept⟩)

def envAnswer : Str :=
  "\x7b\"status\":\"completed\",\"format\":\"unified_diff\",\"summary\":\"s\",\"patch\":\"--- a/.env\\n+++ b/.env\\n@@ -1 +1 @@\\n-a\\n+b\"\x7d"

def envDiff : Str := "--- a/.env\n+++ b/.env\n@@ -1 +1 @@\n-a\n+b"

def envJson : WorkerJson where
  fromStr text :=
    if text = envAnswer then
      some ⟨.completed, some .unifiedDiff, some "s".toList, some envDiff, none, none, none, []⟩
    else none
  isObject text := text == envAnswer

def noSecrets : SecretPatterns := ⟨fun text => ⟨text, false⟩⟩

def emptyWorktree : TextFiles := .empty

def noInvocation : InvocationEnv := ⟨fun _ => .error .commandDidNotStartWithApplyPatch, fun _ _ _ => []⟩

theorem envAnswer_completed :
    ∃ result, parseDelegateOutput noSecrets envJson envAnswer [] none = some result ∧
      (validateDelegateResultAgainstWorktree noSecrets noInvocation ⟨none, none⟩ textFiles emptyWorktree result
        "/repo").status = .completed ∧
      ∀ tool : DiffTool, ¬ SparesSensitive tool (validateDelegateResultAgainstWorktree noSecrets noInvocation
        ⟨none, none⟩ textFiles emptyWorktree result "/repo") := by
  have hparse : parseDelegateOutput noSecrets envJson envAnswer [] none =
      some (.ofCompleted .unifiedDiff "s" envDiff [] none) := by decide +kernel
  refine ⟨_, hparse, rfl, ?_⟩
  intro tool hspares
  have hdiff : envDiff = oneLineDiff ".env" "a" "b" := by decide
  have hheader : ".env".toList ∈ tool.fileHeaders envDiff := by
    rw [hdiff]
    exact tool.fileHeaders_plain ".env" "a" "b" (by decide) (by decide) (by decide)
  have henv := hspares rfl .unifiedDiff envDiff rfl rfl ".env" hheader
  exact absurd henv (by decide)

/-! ## The shape of results -/

/-- Every output of a worker is answered by a result with the fields of its status, exactly when it does not ask for
clarification without a question and no response hands over a patch with its markers the wrong way round. The worktree
never spoils the shape of a result. -/
theorem delegated_wellShaped_iff {engines : RegexEngines} (hredacts : engines.Redacts) (json : WorkerJson)
    (output : Str) (contextDiagnostics : List Str) (contextSummary : Option MiniMaxContextSummary) :
    ((∃ result, parseDelegateOutput engines.secretPatterns json output contextDiagnostics contextSummary = some result ∧
        WellShaped result) ↔
      trim output ≠ clarifyPrefix ∧ ∀ response, ReadsAs json output response → ¬ AsksBackwards response) ∧
    ∀ (σ : Type) (inv : InvocationEnv) (env : HostEnv) (fs : ExecutorFileSystem σ) (worktree : σ) (cwd : Str)
      (result : MiniMaxDelegationResult), WellShaped result →
      WellShaped (validateDelegateResultAgainstWorktree engines.secretPatterns inv env fs worktree result cwd) := by
  refine ⟨?_, fun σ inv env fs worktree cwd result h => validate_wellShaped hredacts h⟩
  cases hclarify : stripPrefix clarifyPrefix (trim output) with
  | some question =>
      obtain ⟨result, hparse, hshaped⟩ := parseDelegateOutput_clarify hredacts hclarify
      have hreads : ∀ response, ReadsAs json output response → ¬ AsksBackwards response := by
        rintro response ⟨-, hnone, -⟩
        rw [hclarify] at hnone
        cases hnone
      rw [hparse]
      simp only [Option.some.injEq, exists_eq_left']
      exact hshaped.trans ⟨fun h => ⟨h, hreads⟩, And.left⟩
  | none =>
      have hpre : trim output ≠ clarifyPrefix := by
        intro heq
        rw [heq] at hclarify
        exact absurd hclarify (by decide)
      rcases parseDelegateOutput_json hclarify with ⟨response, diagnostics, hreads, hparse⟩ | ⟨hnot, hresult⟩
      · rw [hparse]
        constructor
        · rintro ⟨result, hread, -⟩
          refine ⟨hpre, fun response' hreads' hbackwards => ?_⟩
          rw [← hreads.unique hreads', ← readResponse_eq_none hredacts, hread] at hbackwards
          cases hbackwards
        · rintro ⟨-, hforwards⟩
          obtain ⟨result, hread⟩ := Option.ne_none_iff_exists'.mp
            (mt (readResponse_eq_none hredacts).mp (hforwards response hreads))
          exact ⟨result, hread, readResponse_wellShaped hread⟩
      · exact ⟨fun _ => ⟨hpre, fun response hreads => absurd hreads (hnot response)⟩, fun _ => hresult⟩

/-- Engines on texts without secrets. -/
def idleEngines : RegexEngines := ⟨fun _ _ text => text, fun _ _ text => text⟩

theorem idleEngines_redacts : idleEngines.Redacts :=
  ⟨fun _ _ _ _ => Or.inl rfl, fun _ _ _ _ => Or.inl rfl, fun _ _ => rfl, fun _ _ => rfl⟩

theorem envAnswer_wellShaped_iff :
    ((∃ result, parseDelegateOutput idleEngines.secretPatterns envJson envAnswer [] none = some result ∧
        WellShaped result) ↔
      trim envAnswer ≠ clarifyPrefix ∧ ∀ response, ReadsAs envJson envAnswer response → ¬ AsksBackwards response) ∧
    ∀ (σ : Type) (inv : InvocationEnv) (env : HostEnv) (fs : ExecutorFileSystem σ) (worktree : σ) (cwd : Str)
      (result : MiniMaxDelegationResult), WellShaped result →
      WellShaped (validateDelegateResultAgainstWorktree idleEngines.secretPatterns inv env fs worktree result cwd) :=
  delegated_wellShaped_iff idleEngines_redacts envJson envAnswer [] none

/-- The prefix alone comes back as a request for clarification with an empty question. -/
theorem bareClarify_not_wellShaped :
    ¬ ∃ result, parseDelegateOutput idleEngines.secretPatterns envJson "CLARIFY:" [] none = some result ∧
      WellShaped result := by
  have hparse : parseDelegateOutput idleEngines.secretPatterns envJson "CLARIFY:" [] none =
      some (.ofClarify [] [] none) := by decide
  rintro ⟨result, heq, hshaped⟩
  rw [hparse] at heq
  cases heq
  exact wellShaped_ofClarify.mp hshaped rfl

/-! ## Objects in the text of a worker -/

/-- The JSON reader takes the object texts of the grammar for objects. -/
def AcceptsGrammar (json : WorkerJson) : Prop := ∀ text, JsonGrammar.IsObject text → json.isObject text = true

/-- The only object of a text is extracted from it, and a second one makes the text ambiguous. -/
theorem extractSingleJsonObject_objects {json : WorkerJson} (hserde : AcceptsGrammar json) :
    (∀ before o after, '{' ∉ before → JsonGrammar.IsObject o → '{' ∉ after →
      extractSingleJsonObject json (before ++ (o ++ after)) = .ok (some o)) ∧
    ∀ before o gap o' rest, '{' ∉ before → JsonGrammar.IsObject o → '{' ∉ gap → JsonGrammar.IsObject o' →
      extractSingleJsonObject json (before ++ (o ++ (gap ++ (o' ++ rest)))) =
        .error "ambiguous_worker_output: multiple JSON objects found" := by
  refine ⟨fun before o after hbefore ho hafter => ?_, fun before o gap o' rest hbefore ho hgap ho' => ?_⟩
  · obtain ⟨left, -, heq⟩ := exists_jsonObjects_eq_cons hbefore ho (hserde o ho) (Nat.lt_succ_self _)
    unfold extractSingleJsonObject
    rw [heq, jsonObjects_plain hafter]
  · obtain ⟨left, hleft, heq⟩ := exists_jsonObjects_eq_cons hbefore ho (hserde o ho) (Nat.lt_succ_self _)
    obtain ⟨left', -, heq'⟩ := exists_jsonObjects_eq_cons hgap ho' (hserde o' ho') hleft
    unfold extractSingleJsonObject
    rw [heq, heq']

/-- A reader that looks at the first character, as far as objects go. -/
def braceJson : WorkerJson := ⟨fun _ => none, fun text => text.head? == some '{'⟩

def quotedBrace : Str := "\x7b\"a\":\"\\\"\x7d\"\x7d"

theorem quotedBrace_isObject : JsonGrammar.IsObject quotedBrace := by
  have hname : JsonGrammar.IsString ['"', 'a', '"'] :=
    ⟨['a'], .unescaped (by decide) (by decide) (by decide) .nil, rfl⟩
  have hvalue : JsonGrammar.IsString ['"', '\\', '"', '}', '"'] :=
    ⟨['\\', '"', '}'], .escaped (by decide) (.unescaped (by decide) (by decide) (by decide) .nil), rfl⟩
  have hws : JsonGrammar.IsWs [] := by simp [JsonGrammar.IsWs]
  exact .members (.member hws hname hws hws (.string hvalue) hws)

theorem quotedBrace_extracted :
    AcceptsGrammar braceJson ∧
      extractSingleJsonObject braceJson ("say ".toList ++ (quotedBrace ++ " ok".toList)) = .ok (some quotedBrace) := by
  have hserde : AcceptsGrammar braceJson := by
    intro text h
    obtain ⟨rest, rfl⟩ := h.exists_cons
    rfl
  exact ⟨hserde, (extractSingleJsonObject_objects hserde).1 _ _ _ (by decide) quotedBrace_isObject (by decide)⟩

/-! ## Normalized patches -/

/-- The loop ends without a panic, and what the normalization returns is returned unchanged, and without a diagnostic,
when it is normalized again. -/
structure NormalizesStably (secrets : SecretPatterns) (patch : Str) : Prop where
  ends : ∀ text diagnostics, normalizeLineEndings (trim patch) "normalized worker patch: normalized line endings" =
    (text, diagnostics) → LoopEnds text diagnostics
  stable : ReturnsStable secrets patch

/-- A line ends in two carriage returns. -/
def HasTwoReturns (text : Str) : Prop := ['\r', '\r', '\n'] <:+: text

/-- Every turn of the loop leaves a shorter text. Normalizing is stable, exactly when the markers are not the wrong
way round and no accepted patch inside the wrappers has two carriage returns at the end of a line: only one of them is
dropped. -/
theorem normalizesStably_iff (secrets : SecretPatterns) :
    (∀ text next, UnwrapStep text next → next.length < text.length) ∧
    ∀ patch, NormalizesStably secrets patch ↔
      ¬ Backwards (unfence (trim patch)) ∧
      ¬ (HasTwoReturns (patchInside (trim patch)) ∧ Accepted (unifyEndings (patchInside (trim patch)))) := by
  refine ⟨fun text next => UnwrapStep.length_lt, fun patch => ?_⟩
  have hends : (∀ text diagnostics, normalizeLineEndings (trim patch)
      "normalized worker patch: normalized line endings" = (text, diagnostics) → LoopEnds text diagnostics) ↔
      ¬ Backwards (unfence (trim patch)) := by
    rw [← backwards_unfence_unifyEndings]
    constructor
    · intro h
      exact loopEnds_iff.mp (h _ _ (normalizeLineEndings_eq _ _))
    · intro h text diagnostics heq
      rw [normalizeLineEndings_eq] at heq
      cases heq
      exact loopEnds_iff.mpr h
  have htwo : HasTwoReturns (patchInside (trim patch)) ↔ ['\r', '\n'] <:+: unifyEndings (patchInside (trim patch)) :=
    crlf_infix_unifyEndings_iff.symm
  constructor
  · rintro ⟨hloop, hstable⟩
    have hforwards := hends.mp hloop
    refine ⟨hforwards, ?_⟩
    rintro ⟨hreturns, haccepted⟩
    exact (returnsStable_iff hforwards).mp hstable haccepted (htwo.mp hreturns)
  · rintro ⟨hforwards, hreturns⟩
    refine ⟨hends.mpr hforwards, (returnsStable_iff hforwards).mpr ?_⟩
    intro haccepted hcrlf
    exact hreturns ⟨htwo.mpr hcrlf, haccepted⟩

/-- A patch of three lines with a given line ending. -/
def deletePatch (ending : Str) : Str := ending.intercalate [beginPatchMarker, deleteFileMarker ++ ['a'], endPatchMarker]

def normalizedPatch (patch : Str) : Option Str :=
  ((normalizeApplyPatchText noSecrets patch).bind Except.toOption).map ResolvedPatchSource.patch

/-- Lines that end in two carriage returns are normalized a second time. -/
theorem deletePatch_not_stable : ¬ ∀ text diagnostics,
    normalizeApplyPatchText noSecrets (deletePatch ['\r', '\r', '\n']) = some (.ok ⟨text, diagnostics⟩) →
      normalizeApplyPatchText noSecrets text = some (.ok ⟨text, []⟩) := by
  intro h
  have honce : normalizedPatch (deletePatch ['\r', '\r', '\n']) = some (deletePatch ['\r', '\n']) := by
    decide
  have htwice : normalizedPatch (deletePatch ['\r', '\n']) = some (deletePatch ['\n']) := by decide
  obtain ⟨patch, hpatch, hfields⟩ := Option.map_eq_some_iff.mp honce
  obtain ⟨outcome, houtcome, hok⟩ := Option.bind_eq_some_iff.mp hpatch
  cases outcome with
  | error error => cases hok
  | ok source =>
      obtain rfl : source = patch := Option.some.inj hok
      have hagain := h source.patch source.diagnostics houtcome
      rw [hfields] at hagain
      rw [normalizedPatch, hagain] at htwice
      exact absurd htwice (by decide)

/-! ## Packed context -/

/-- The packs of all requests for the allowed paths are confined to harmless files of the repository, exactly when no
allowed path leads to a sensitive one: the canonical path is compared with the root, but the deny list sees only the
spelling. -/
theorem packWithRequest_confined_iff (secrets : SecretPatterns) (tree : FileTree) (gitStatus : GitStatus) (cwd : Str)
    (totalBudgetBytes perFileBudgetBytes : Nat) (allowed : Set Str) :
    (∀ request : ContextPackRequest,
      (∀ path ∈ requestedPaths (.new tree cwd totalBudgetBytes perFileBudgetBytes) gitStatus request, path ∈ allowed) →
      ConfinedPack secrets tree (.new tree cwd totalBudgetBytes perFileBudgetBytes)
        ((ContextPacker.new tree cwd totalBudgetBytes perFileBudgetBytes).packWithRequest secrets tree gitStatus
          request)) ↔
    ∀ path ∈ allowed, ¬ LeadsToSensitive secrets tree (.new tree cwd totalBudgetBytes perFileBudgetBytes) path := by
  constructor
  · intro hconfined path hpath hleads
    apply not_confinedPack_of_leadsToSensitive gitStatus hleads
    apply hconfined
    intro requested hrequested
    rw [requestedPaths_single, List.mem_singleton] at hrequested
    rw [hrequested]
    exact hpath
  · intro hharmless request hrequest
    apply Keeps.packWithRequest
    intro path hpath
    exact hharmless path (hrequest path hpath)

def envText : Str := "DB_HOST=10.0.0.2\n"

def envLocation : AbsolutePathBuf := ⟨["repo".toList, ".env".toList], by decide⟩

/-- A repository with a link `notes.txt` to `.env`. -/
def linkRepo : FileTree where
  nodes location :=
    if location.names ∈ [["repo".toList], ["repo".toList, ".git".toList]] then some .dir
    else if location = envLocation then some (.text envText)
    else if location.names = ["repo".toList, "notes.txt".toList] then some (.symlink ".env")
    else none
  currentDir := .root

/-- The text of `.env` is packed under the name of the link. -/
theorem linkRepo_leaks_env :
    ((ContextPacker.new linkRepo "/repo" 32768 24576).pack noSecrets linkRepo (fun _ => .ok []) ["notes.txt"] []
      []).files = [⟨"notes.txt", envText, false, false, .explicitFile, some envLocation⟩] ∧
    ¬ ConfinedPack noSecrets linkRepo (.new linkRepo "/repo" 32768 24576)
      ((ContextPacker.new linkRepo "/repo" 32768 24576).pack noSecrets linkRepo (fun _ => .ok []) ["notes.txt"] []
        []) := by
  have hfiles : ((ContextPacker.new linkRepo "/repo" 32768 24576).pack noSecrets linkRepo (fun _ => .ok [])
      ["notes.txt"] [] []).files = [⟨"notes.txt", envText, false, false, .explicitFile, some envLocation⟩] := by
    decide
  refine ⟨hfiles, ?_⟩
  intro hconfined
  rw [ConfinedPack, hfiles] at hconfined
  obtain ⟨location, _, _, horigin, _, _, _, _, hplain⟩ :=
    hconfined _ (List.mem_singleton_self _) (by decide)
  cases horigin
  exact hplain (by decide)

/-- Whatever a request asks for and whatever the budgets are, the pack keeps to them and its lists and marks agree
with its files. -/
theorem packWithRequest_accounted (secrets : SecretPatterns) (tree : FileTree) (gitStatus : GitStatus)
    (packer : ContextPacker) (request : ContextPackRequest) :
    Accounted secrets tree packer request.explicitSnippets
      (packer.packWithRequest secrets tree gitStatus request) := by
  obtain ⟨snippetFiles, hsnippets, hsnippetFiles⟩ :=
    @packSnippets_charges secrets tree packer [] request.explicitSnippets ⟨.default, [], packer.totalBudgetBytes⟩
      (fun _ hsnippet => absurd hsnippet List.not_mem_nil)
  obtain ⟨explicitFiles, hexplicit, hexplicitFiles⟩ :=
    @packFiles_charges secrets tree packer request.explicitSnippets .explicitFile (by decide) request.explicitFiles _
  obtain ⟨mentionedFiles, hmentioned, hmentionedFiles⟩ :=
    @packFiles_charges secrets tree packer request.explicitSnippets .taskMention (by decide)
      (mentionedTaskPaths request.taskText) _
  have hasked := (hsnippets.trans hexplicit).trans hmentioned
  have hcut : ∀ file ∈ (snippetFiles ++ explicitFiles) ++ mentionedFiles, ∃ text,
      SourceText tree packer request.explicitSnippets file text ∧ CutFrom secrets packer file text := by
    intro file hfile
    simp only [List.mem_append] at hfile
    rcases hfile with (hfile | hfile) | hfile
    · exact (hsnippetFiles file hfile).2
    · exact (hexplicitFiles file hfile).2
    · exact (hmentionedFiles file hfile).2
  have hnone : modifiedFiles ((snippetFiles ++ explicitFiles) ++ mentionedFiles) = [] := by
    have hsnippet := modifiedFiles_of_gathered hsnippetFiles (by decide)
    have hexplicit := modifiedFiles_of_gathered hexplicitFiles (by decide)
    have hmentioned := modifiedFiles_of_gathered hmentionedFiles (by decide)
    rw [modifiedFiles_append, modifiedFiles_append, hsnippet, hexplicit, hmentioned]
    rfl
  unfold ContextPacker.packWithRequest
  split
  · obtain ⟨gitFiles, hgit, hlength, hgitFiles⟩ :=
      @packGitModifiedFiles_charges secrets tree packer request.explicitSnippets gitStatus _
    apply (hasked.trans hgit).accounted
    · intro file hfile
      rcases List.mem_append.mp hfile with hfile | hfile
      · exact hcut file hfile
      · exact (hgitFiles file hfile).2
    · rw [modifiedFiles_append, hnone, List.nil_append]
      exact Nat.le_trans (List.length_filter_le _ _) hlength
  · apply hasked.accounted hcut
    rw [hnone]
    exact Nat.zero_le _

/-! ## Diffs in output -/

/-- One line stands for each sensitive file of a diff and everything else is as it was, exactly if the first words of each
path say whether the path is sensitive. -/
theorem redacted_iff_showsInFirstWords (diff : DiffText) :
    CleanlyRedacted diff (redactSensitiveDiffBlocks diff.text) ↔ ∀ block ∈ diff.blocks, ShowsInFirstWords block.path := by
  have hblocks : BlocksOf diff.blocks :=
    ⟨diff.body_plain, diff.path_noBreak, inclusiveLines_of_append diff.inclusive⟩
  have houtput : redactSensitiveDiffBlocks diff.text =
      ⟨diff.preamble.flatten ++ (redactLoop false (diff.blocks.flatMap DiffBlock.lines)).text,
        (redactLoop false (diff.blocks.flatMap DiffBlock.lines)).changed⟩ := by
    rw [redactSensitiveDiffBlocks, DiffText.text, splitInclusiveLines_flatten diff.inclusive,
      redactLoop_plain diff.preamble_plain]
  constructor
  · rintro ⟨⟨rest, hwithout, htext⟩, -, -⟩
    rw [houtput] at htext
    obtain rfl := List.append_cancel_left htext
    exact shows_of_withoutSensitive hblocks hwithout
  · intro hshows
    refine ⟨⟨_, withoutSensitive_redactLoop hblocks hshows, by rw [houtput]⟩, ?_, redactSensitiveDiffBlocks_again _⟩
    rw [houtput]
    refine (redactLoop_changed hblocks).trans ?_
    constructor
    · rintro ⟨block, hmem, hsensitive⟩
      exact ⟨block, hmem, (hshows block hmem).mpr ((isSome_sensitiveDiffBlockPath block).mp hsensitive)⟩
    · rintro ⟨block, hmem, hsensitive⟩
      exact ⟨block, hmem, (isSome_sensitiveDiffBlockPath block).mpr ((hshows block hmem).mp hsensitive)⟩

/-- No path is read wrongly that has no white space, no backslash and no quote at its end. -/
theorem showsInFirstWords_of_plain {path : Str} (hspace : ∀ c ∈ path, isWhitespace c = false) (hslash : '\\' ∉ path)
    (hquote : path.getLast? ≠ some '"') : ShowsInFirstWords path := by
  have htake : path.takeWhile (fun c => !isWhitespace c) = path :=
    List.takeWhile_eq_self_iff.mpr fun c hc => by simp [hspace c hc]
  have hdrop : path.dropWhile (fun c => !isWhitespace c) = [] :=
    List.dropWhile_eq_nil_iff.mpr fun c hc => by simp [hspace c hc]
  have htrim : path.rdropWhile (· == '"') = path := by
    rw [List.rdropWhile_eq_self_iff]
    intro hne hlast
    rw [List.getLast?_eq_some_getLast hne] at hquote
    exact hquote (congrArg some (by simpa using hlast))
  have hword : wordPath ("a/".toList ++ path) = path := by
    refine (wordPath_prefixed (Or.inl rfl) path).trans ?_
    rw [htrim, replace_singleton]
    refine (List.map_congr_left fun c hc => if_neg ?_).trans (List.map_id path)
    rintro rfl
    exact hslash hc
  unfold ShowsInFirstWords firstWords
  rw [htake, hdrop]
  have hnone : splitWhitespace [] = [] := rfl
  simp only [hnone, List.take_nil, List.mem_singleton, exists_eq_left]
  rw [hword]

/-- The file is `.env` in a directory whose name has spaces. -/
def spacedDiff : DiffText where
  preamble := []
  blocks := [⟨"my old keys/.env", true, ["-K=1\n"]⟩]
  preamble_plain := by simp
  body_plain := by decide
  path_noBreak := by decide
  inclusive := ⟨Or.inl ⟨"diff --git a/my old keys/.env b/my old keys/.env", by decide, by decide⟩,
    Or.inl ⟨"-K=1", by decide, by decide⟩, trivial⟩

theorem spacedDiff_leaks :
    isSensitivePath "my old keys/.env" = true ∧
      redactSensitiveDiffBlocks "diff --git a/my old keys/.env b/my old keys/.env\n-K=1\n" =
        ⟨"diff --git a/my old keys/.env b/my old keys/.env\n-K=1\n", false⟩ ∧
      spacedDiff.text = "diff --git a/my old keys/.env b/my old keys/.env\n-K=1\n" ∧
      ¬ CleanlyRedacted spacedDiff (redactSensitiveDiffBlocks spacedDiff.text) := by
  refine ⟨by decide, by decide, by decide, ?_⟩
  intro hredacted
  have hchanged := hredacted.changed.mpr ⟨_, List.mem_cons_self, (by decide)⟩
  exact absurd hchanged (by decide)

end Codrex.MinimaxDelegate
