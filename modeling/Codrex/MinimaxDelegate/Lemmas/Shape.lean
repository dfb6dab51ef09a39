import Codrex.MinimaxDelegate.Lemmas.Normalization
import Codrex.MinimaxDelegate.Lemmas.ResponseParser

/-!
# The shape of results
-/

namespace Codrex.MinimaxDelegate

open Text ApplyPatch

/-! ## Redaction -/

/-- What is documented of `replace_all`: the text comes back as it was, or with the replacement in it; and none of
the patterns matches an empty text. -/
structure RegexEngines.Redacts (engines : RegexEngines) : Prop where
  marks : ∀ pattern replacement text, redactedSecretPlaceholder <:+ replacement →
    engines.replaceAll pattern replacement text = text ∨
      redactedSecretPlaceholder <:+: engines.replaceAll pattern replacement text
  marksLite : ∀ pattern replacement text, redactedSecretPlaceholder <:+ replacement →
    engines.replaceAllLite pattern replacement text = text ∨
      redactedSecretPlaceholder <:+: engines.replaceAllLite pattern replacement text
  keepsEmpty : ∀ entry ∈ secretRegexes, engines.replaceAll entry.1 entry.2 [] = []
  keepsEmptyLite : ∀ entry ∈ redactionPatterns, engines.replaceAllLite entry.1 entry.2 [] = []

variable {engines : RegexEngines} {text : Str}

/-- A text that was redacted, or left as it is. -/
def Marks (text redacted : Str) : Prop := redacted = text ∨ redactedSecretPlaceholder <:+: redacted

theorem Marks.trans {redacted redacted' : Str} (h : Marks text redacted) (h' : Marks redacted redacted') :
    Marks text redacted' := by
  rcases h' with rfl | h'
  · exact h
  · exact Or.inr h'

theorem Marks.trim_ne_nil {redacted : Str} (h : Marks text redacted) (hne : trim text ≠ []) : trim redacted ≠ [] := by
  rcases h with rfl | h
  · exact hne
  · intro hblank
    have hmem : '[' ∈ redactedSecretPlaceholder := by decide
    have hws := trim_eq_nil_iff.mp hblank '[' (h.subset hmem)
    exact absurd hws (by decide)

theorem marks_foldl {α : Type} {f : α → Str × Str → α} (view : α → Str) {table : List (Str × Str)}
    (hstep : ∀ a, ∀ entry ∈ table, Marks (view a) (view (f a entry))) (a : α) :
    Marks (view a) (view (table.foldl f a)) := by
  induction table generalizing a with
  | nil => exact Or.inl rfl
  | cons entry table ih =>
      have hfirst := hstep a entry List.mem_cons_self
      exact hfirst.trans (ih (fun a entry' hmem => hstep a entry' (List.mem_cons_of_mem _ hmem)) (f a entry))

theorem foldl_eq_self {α β : Type} {f : α → β → α} {table : List β} {a : α} (h : ∀ entry ∈ table, f a entry = a) :
    table.foldl f a = a := by
  induction table with
  | nil => rfl
  | cons entry table ih =>
      rw [List.foldl_cons, h entry List.mem_cons_self]
      exact ih fun entry' hmem => h entry' (List.mem_cons_of_mem _ hmem)

theorem suffix_secretRegexes : ∀ entry ∈ secretRegexes, redactedSecretPlaceholder <:+ entry.2 := by decide

theorem suffix_redactionPatterns : ∀ entry ∈ redactionPatterns, redactedSecretPlaceholder <:+ entry.2 := by
  decide

namespace RegexEngines.Redacts

theorem marks_redact (h : engines.Redacts) (text : Str) :
    Marks text (engines.secretPatterns.redactSecretPatterns text).text := by
  have hsecrets : Marks text (redactSecrets engines text) :=
    marks_foldl id (fun text entry hmem => h.marks _ _ text (suffix_secretRegexes entry hmem)) text
  refine hsecrets.trans (marks_foldl SanitizedOutput.text (fun output entry hmem => ?_) _)
  simp only
  split
  · exact h.marksLite _ _ output.text (suffix_redactionPatterns entry hmem)
  · exact Or.inl rfl

end RegexEngines.Redacts

/-- Lines are dropped only behind a line that stands for them. -/
theorem trim_redactLoop_ne_nil {lines : List Str} (h : trim lines.flatten ≠ []) :
    trim (redactLoop false lines).text ≠ [] := by
  induction lines with
  | nil => exact h
  | cons line rest ih =>
      simp only [redactLoop, Bool.false_and, Bool.false_eq_true, if_false]
      split
      · intro hblank
        have hws := trim_eq_nil_iff.mp hblank '[' (by simp)
        exact absurd hws (by decide)
      · intro hblank
        rw [trim_eq_nil_iff] at hblank
        apply h
        have hrest : trim rest.flatten = [] := by
          by_contra hne
          exact ih hne (trim_eq_nil_iff.mpr fun c hc => hblank c (List.mem_append_right _ hc))
        rw [trim_eq_nil_iff, List.flatten_cons]
        intro c hc
        rcases List.mem_append.mp hc with hc | hc
        · exact hblank c (List.mem_append_left _ hc)
        · exact trim_eq_nil_iff.mp hrest c hc

namespace RegexEngines.Redacts

theorem trim_sanitizeMetadata_ne_nil (h : engines.Redacts) (hne : trim text ≠ []) :
    trim (sanitizeMetadata engines.secretPatterns text) ≠ [] := by
  have hdiff : trim (redactSensitiveDiffBlocks text).text ≠ [] := by
    apply trim_redactLoop_ne_nil
    rw [flatten_splitInclusiveLines]
    exact hne
  exact (h.marks_redact _).trim_ne_nil hdiff

theorem sanitizeMetadata_nil (h : engines.Redacts) : sanitizeMetadata engines.secretPatterns [] = [] := by
  have hsecrets : redactSecrets engines [] = [] := foldl_eq_self h.keepsEmpty
  have hpatterns : (engines.secretPatterns.redactSecretPatterns []).text = [] := by
    simp only [RegexEngines.secretPatterns, hsecrets]
    rw [foldl_eq_self fun entry hmem => if_neg (not_not.mpr (h.keepsEmptyLite entry hmem))]
  exact hpatterns

/-- A field is blank after it was redacted exactly when it was blank before. -/
theorem trimmedMetadata_eq_nil_iff (h : engines.Redacts) (field : Option Str) :
    trimmedMetadata engines.secretPatterns field = [] ↔ trim (field.getD []) = [] := by
  unfold trimmedMetadata
  constructor
  · intro hblank
    by_contra hne
    have htrimmed : trim (trim (field.getD [])) ≠ [] := by
      rw [trim_trim]
      exact hne
    exact h.trim_sanitizeMetadata_ne_nil htrimmed hblank
  · intro hblank
    rw [hblank, h.sanitizeMetadata_nil]
    rfl

end RegexEngines.Redacts

/-! ## Results -/

/-- The fields of its status are there, and no others. -/
def WellShaped (result : MiniMaxDelegationResult) : Prop :=
  match result.status with
  | .completed => ∃ format summary patch, result.format = some format ∧ result.summary = some summary ∧
      result.patch = some patch ∧ result.question = none ∧ result.error = none ∧ trim summary ≠ [] ∧ patch ≠ [] ∧
      (format = .applyPatch → ∃ args, parsePatch patch = .ok args ∧ args.hunks ≠ [])
  | .clarify => ∃ question, result.format = none ∧ result.summary = none ∧ result.patch = none ∧
      result.question = some question ∧ result.error = none ∧ trim question ≠ []
  | .invalid => ∃ error, result.format = none ∧ result.summary = none ∧ result.patch = none ∧
      result.question = none ∧ result.error = some error ∧ trim error ≠ []

section Constructors

variable {format : WorkerPatchFormat} {summary patch question error : Str} {diagnostics : List Str}
  {contextSummary : Option MiniMaxContextSummary}

@[simp] theorem wellShaped_ofCompleted :
    WellShaped (.ofCompleted format summary patch diagnostics contextSummary) ↔
      trim summary ≠ [] ∧ patch ≠ [] ∧
        (format = .applyPatch → ∃ args, parsePatch patch = .ok args ∧ args.hunks ≠ []) := by
  simp [WellShaped, MiniMaxDelegationResult.ofCompleted]

@[simp] theorem wellShaped_ofClarify :
    WellShaped (.ofClarify question diagnostics contextSummary) ↔ trim question ≠ [] := by
  simp [WellShaped, MiniMaxDelegationResult.ofClarify]

@[simp] theorem wellShaped_invalid :
    WellShaped (.invalidWithContextSummary error diagnostics contextSummary) ↔ trim error ≠ [] := by
  simp [WellShaped, MiniMaxDelegationResult.invalidWithContextSummary]

end Constructors

/-! ## Errors -/

theorem literal_nonblank {c : Char} {s : List Char} (hc : isWhitespace c = false) :
    trim (String.ofList (c :: s)).toList ≠ [] := by
  rw [String.toList_ofList, Ne, trim_eq_nil_iff]
  intro hblank
  rw [hblank c List.mem_cons_self] at hc
  cases hc

theorem nonblank_append {s : Str} (t : Str) (h : trim s ≠ []) : trim (s ++ t) ≠ [] := by
  intro hblank
  apply h
  rw [trim_eq_nil_iff] at hblank ⊢
  intro c hc
  exact hblank c (List.mem_append_left t hc)

theorem mapApplyPatchParseError_nonblank (secrets : SecretPatterns) (error : ParseError) :
    trim (mapApplyPatchParseError secrets error) ≠ [] := by
  have hpre : trim "invalid_apply_patch_format: ".toList ≠ [] := literal_nonblank (by decide)
  cases error with
  | invalidPatchError message =>
      simp only [mapApplyPatchParseError]
      split
      · exact literal_nonblank (by decide)
      · split
        · exact literal_nonblank (by decide)
        · exact nonblank_append _ hpre
  | invalidHunkError message line =>
      simp only [mapApplyPatchParseError]
      split
      · exact literal_nonblank (by decide)
      · split
        · exact literal_nonblank (by decide)
        · exact nonblank_append _ hpre

/-! ## Completed responses -/

/-- What a normalization hands on: an error with a text, or a patch that is not empty and is one of its format. -/
def GoodOutcome (format : WorkerPatchFormat) : Except NormalizationFailure ResolvedPatchSource → Prop
  | .error failure => trim failure.error ≠ []
  | .ok source => source.patch ≠ [] ∧
      (format = .applyPatch → ∃ args, parsePatch source.patch = .ok args ∧ args.hunks ≠ [])

variable {format : WorkerPatchFormat} {outcome : Except NormalizationFailure ResolvedPatchSource} {patch : Str}
  {diagnostics : List Str} {response : RawWorkerResponse} {contextSummary : Option MiniMaxContextSummary}
  {result : MiniMaxDelegationResult}

theorem Accepted.ne_nil (h : Accepted patch) : patch ≠ [] := by
  rintro rfl
  obtain ⟨args, hparse, -⟩ := h.parses
  have herror : (parsePatch []).isOk = false := rfl
  rw [hparse] at herror
  cases herror

theorem checkApplyPatchText_good (secrets : SecretPatterns) (text : Str) (diagnostics : List Str) :
    GoodOutcome .applyPatch (checkApplyPatchText secrets text diagnostics) := by
  have hdiff : trim "invalid_apply_patch_format: patch looks like unified diff, not apply_patch".toList ≠ [] :=
    literal_nonblank (by decide)
  have hfence : trim "invalid_apply_patch_format: patch contains markdown fence".toList ≠ [] :=
    literal_nonblank (by decide)
  have hheredoc : trim "invalid_apply_patch_format: patch contains apply_patch heredoc wrapper".toList ≠ [] :=
    literal_nonblank (by decide)
  have hempty : trim "invalid_apply_patch_format: patch contained no file operations".toList ≠ [] :=
    literal_nonblank (by decide)
  cases hcheck : checkApplyPatchText secrets text diagnostics with
  | ok source =>
      obtain ⟨haccepted, rfl⟩ := checkApplyPatchText_eq_ok.mp hcheck
      exact ⟨haccepted.ne_nil, fun _ => haccepted.parses⟩
  | error failure =>
      unfold checkApplyPatchText at hcheck
      split at hcheck
      · cases hcheck
        exact hdiff
      · split at hcheck
        · cases hcheck
          exact hfence
        · split at hcheck
          · cases hcheck
            exact hheredoc
          · split at hcheck
            · split at hcheck
              · cases hcheck
                exact hempty
              · cases hcheck
            · cases hcheck
              exact mapApplyPatchParseError_nonblank secrets _

theorem normalizeUnifiedDiffText_good (patch : Str) : GoodOutcome .unifiedDiff (normalizeUnifiedDiffText patch) := by
  unfold normalizeUnifiedDiffText
  simp only
  split
  · rename_i hdiff
    refine ⟨?_, fun h => by cases h⟩
    intro hnil
    simp only at hnil
    rw [hnil] at hdiff
    exact absurd hdiff (by decide)
  · have herror : trim "invalid_unified_diff_format: expected diff --git, ---/+++, or @@ markers".toList ≠ [] :=
      literal_nonblank (by decide)
    exact herror

theorem normalizePatchForFormat_good {secrets : SecretPatterns}
    (h : normalizePatchForFormat secrets format patch = some outcome) : GoodOutcome format outcome := by
  cases format with
  | applyPatch =>
      obtain ⟨hpanics, hreturns⟩ := normalizeApplyPatchText_spec secrets patch
      simp only [normalizePatchForFormat] at h
      by_cases hbackwards : Backwards (unfence (trim patch))
      · rw [hpanics hbackwards] at h
        cases h
      · obtain ⟨diagnostics, heq⟩ := hreturns hbackwards
        rw [heq, Option.some.injEq] at h
        rw [← h]
        exact checkApplyPatchText_good _ _ _
  | unifiedDiff =>
      simp only [normalizePatchForFormat, Option.some.injEq] at h
      rw [← h]
      exact normalizeUnifiedDiffText_good patch

theorem resolvePatchSource_error {patch : Option Str} {patchLines : Option (List Str)} {failure : NormalizationFailure}
    (h : resolvePatchSource patch patchLines = .error failure) : trim failure.error ≠ [] := by
  have hmissing : trim "invalid_completed_response: missing patch".toList ≠ [] := literal_nonblank (by decide)
  unfold resolvePatchSource at h
  split at h
  · split at h
    · cases h
    · split at h
      · cases h
      · cases h
        exact hmissing
  · split at h
    · cases h
    · cases h
      exact hmissing
  · split at h
    · cases h
    · cases h
      exact hmissing
  · cases h
    exact hmissing

theorem completedPatch_good {secrets : SecretPatterns} (h : completedPatch secrets response format = some outcome) :
    GoodOutcome format outcome := by
  unfold completedPatch at h
  split at h
  · rename_i failure hresolve
    cases h
    exact resolvePatchSource_error hresolve
  · obtain ⟨normalized, hnormalized, rfl⟩ := Option.map_eq_some_iff.mp h
    have hgood := normalizePatchForFormat_good hnormalized
    cases normalized with
    | ok source => exact hgood
    | error failure => exact hgood

/-- A response that hands over a patch with its markers the wrong way round. -/
structure AsksBackwards (response : RawWorkerResponse) : Prop where
  completed : response.status = .completed
  applyPatch : response.format = some .applyPatch
  summary : trim (response.summary.getD []) ≠ []
  backwards : ∃ source, resolvePatchSource response.patch response.patchLines = .ok source ∧
    Backwards (unfence (trim source.patch))

theorem completedPatch_eq_none {secrets : SecretPatterns} :
    completedPatch secrets response format = none ↔ format = .applyPatch ∧
      ∃ source, resolvePatchSource response.patch response.patchLines = .ok source ∧
        Backwards (unfence (trim source.patch)) := by
  unfold completedPatch
  cases hresolve : resolvePatchSource response.patch response.patchLines with
  | error failure => simp
  | ok source =>
      simp only [Option.map_eq_none_iff, Except.ok.injEq, exists_eq_left']
      cases format with
      | applyPatch =>
          obtain ⟨hpanics, hreturns⟩ := normalizeApplyPatchText_spec secrets source.patch
          simp only [normalizePatchForFormat, true_and]
          refine ⟨fun hnone => ?_, hpanics⟩
          by_contra hforwards
          obtain ⟨diagnostics, heq⟩ := hreturns hforwards
          rw [heq] at hnone
          cases hnone
      | unifiedDiff => simp [normalizePatchForFormat]

/-! ## Responses -/

section Responses

variable {json : WorkerJson} {output : Str} {contextDiagnostics : List Str}

theorem readResponse_wellShaped
    (h : readResponse engines.secretPatterns response diagnostics contextSummary = some result) :
    WellShaped result := by
  have hformat : trim "invalid_completed_response: missing format".toList ≠ [] := literal_nonblank (by decide)
  have hsummary : trim "invalid_completed_response: missing summary".toList ≠ [] := literal_nonblank (by decide)
  have hquestion : trim "invalid_clarify_response: missing question".toList ≠ [] := literal_nonblank (by decide)
  have herror : trim "invalid_worker_response: missing error".toList ≠ [] := literal_nonblank (by decide)
  unfold readResponse at h
  cases hstatus : response.status with
  | completed =>
      simp only [hstatus, readCompleted] at h
      split at h
      · cases h
        exact wellShaped_invalid.mpr hformat
      · rename_i format _
        split at h
        · cases h
          exact wellShaped_invalid.mpr hsummary
        · rename_i hne
          obtain ⟨outcome, houtcome, rfl⟩ := Option.map_eq_some_iff.mp h
          have hgood := completedPatch_good houtcome
          cases outcome with
          | ok source => exact wellShaped_ofCompleted.mpr ⟨by rwa [trimmedMetadata, trim_trim], hgood⟩
          | error failure => exact wellShaped_invalid.mpr hgood
  | clarify =>
      simp only [hstatus] at h
      split at h
      · cases h
        exact wellShaped_invalid.mpr hquestion
      · rename_i hne
        cases h
        exact wellShaped_ofClarify.mpr (by rwa [trimmedMetadata, trim_trim])
  | invalid =>
      simp only [hstatus, Option.some.injEq] at h
      rw [← h]
      apply wellShaped_invalid.mpr
      split
      · exact herror
      · rename_i hne
        rwa [trimmedMetadata, trim_trim]

/-- Reading a response panics exactly when a patch is taken out of its wrappers the wrong way round. -/
theorem readResponse_eq_none (hredacts : engines.Redacts) :
    readResponse engines.secretPatterns response diagnostics contextSummary = none ↔ AsksBackwards response := by
  unfold readResponse
  constructor
  · intro h
    cases hstatus : response.status with
    | completed =>
        simp only [hstatus, readCompleted] at h
        split at h
        · cases h
        · rename_i format hformat
          split at h
          · cases h
          · rename_i hsummary
            rw [Option.map_eq_none_iff, completedPatch_eq_none] at h
            obtain ⟨rfl, hbackwards⟩ := h
            exact ⟨hstatus, hformat, mt (hredacts.trimmedMetadata_eq_nil_iff _).mpr hsummary, hbackwards⟩
    | clarify =>
        simp only [hstatus] at h
        split at h
        · cases h
        · cases h
    | invalid =>
        simp only [hstatus] at h
        cases h
  · rintro ⟨hstatus, hformat, hsummary, hbackwards⟩
    have hnone : completedPatch engines.secretPatterns response .applyPatch = none :=
      completedPatch_eq_none.mpr ⟨rfl, hbackwards⟩
    have hne := mt (hredacts.trimmedMetadata_eq_nil_iff _).mp hsummary
    simp only [hstatus, readCompleted, hformat, if_neg hne, hnone, Option.map_none]

theorem normalizeWorkerOutput_error {failure : NormalizationFailure}
    (h : normalizeWorkerOutput json output = .error failure) : trim failure.error ≠ [] := by
  have hambiguous : trim "ambiguous_worker_output: multiple JSON objects found".toList ≠ [] :=
    literal_nonblank (by decide)
  unfold normalizeWorkerOutput at h
  simp only at h
  split at h
  · split at h
    · cases h
    · cases h
  · cases h
  · rename_i error hextract
    cases h
    unfold extractSingleJsonObject at hextract
    split at hextract
    · cases hextract
    · cases hextract
    · cases hextract
      exact hambiguous

/-- White space does not stand at the end of what was trimmed. -/
theorem trim_eq_nil_of_suffix {q : Str} (h : q <:+ trim output) : trim q = [] ↔ q = [] := by
  constructor
  · intro hblank
    by_contra hne
    have hlast : (trim output).getLast? = some (q.getLast hne) := by
      obtain ⟨front, hfront⟩ := h
      rw [← hfront, List.getLast?_append_of_ne_nil _ hne, List.getLast?_eq_some_getLast hne]
    have hws := trim_eq_nil_iff.mp hblank _ (List.getLast_mem hne)
    rw [getLast?_trim hlast] at hws
    cases hws
  · rintro rfl
    rfl

theorem stripPrefix_clarify_some {question : Str} (h : stripPrefix clarifyPrefix (trim output) = some question) :
    trim question = [] ↔ trim output = clarifyPrefix := by
  have hsplit := eq_append_of_stripPrefix h
  rw [trim_eq_nil_of_suffix ⟨clarifyPrefix, hsplit.symm⟩, hsplit, List.append_right_eq_self]

theorem parseDelegateOutput_clarify (hredacts : engines.Redacts) {question : Str}
    (h : stripPrefix clarifyPrefix (trim output) = some question) :
    ∃ result, parseDelegateOutput engines.secretPatterns json output contextDiagnostics contextSummary = some result ∧
      (WellShaped result ↔ trim output ≠ clarifyPrefix) := by
  have hne : trim output ≠ [] := by
    rw [eq_append_of_stripPrefix h]
    exact List.append_ne_nil_of_left_ne_nil (by decide) _
  unfold parseDelegateOutput
  simp only [if_neg hne, h]
  refine ⟨_, rfl, ?_⟩
  have hmetadata := hredacts.trimmedMetadata_eq_nil_iff (some question)
  rw [trimmedMetadata, Option.getD_some] at hmetadata
  rw [wellShaped_ofClarify, trim_trim, Ne, hmetadata, stripPrefix_clarify_some h]

/-- Without the prefix the output is read as a response, or an error says why it is not one. -/
theorem parseDelegateOutput_json (h : stripPrefix clarifyPrefix (trim output) = none) :
    (∃ response diagnostics, ReadsAs json output response ∧
      parseDelegateOutput engines.secretPatterns json output contextDiagnostics contextSummary =
        readResponse engines.secretPatterns response diagnostics contextSummary) ∨
    (∀ response, ¬ ReadsAs json output response) ∧
      ∃ result, parseDelegateOutput engines.secretPatterns json output contextDiagnostics contextSummary = some result ∧
        WellShaped result := by
  have hempty : trim "worker_response_not_json: empty response".toList ≠ [] := literal_nonblank (by decide)
  have hjson : trim "worker_response_not_json: expected JSON object with status completed/clarify/invalid".toList ≠ [] :=
    literal_nonblank (by decide)
  by_cases hreads : ∃ response, ReadsAs json output response
  · obtain ⟨response, hreads⟩ := hreads
    obtain ⟨diagnostics, hparse⟩ :=
      parseDelegateOutput_of_readsAs engines.secretPatterns contextDiagnostics contextSummary hreads
    exact Or.inl ⟨response, diagnostics, hreads, hparse⟩
  · refine Or.inr ⟨not_exists.mp hreads, ?_⟩
    unfold parseDelegateOutput
    simp only [h]
    by_cases hne : trim output = []
    · rw [if_pos hne]
      exact ⟨_, rfl, wellShaped_invalid.mpr hempty⟩
    · rw [if_neg hne]
      cases hnormalized : normalizeWorkerOutput json output with
      | error failure => exact ⟨_, rfl, wellShaped_invalid.mpr (normalizeWorkerOutput_error hnormalized)⟩
      | ok normalized =>
          cases hresponse : json.fromStr normalized.text with
          | some response => exact absurd ⟨response, hne, h, normalized, hnormalized, hresponse⟩ hreads
          | none =>
              simp only [hresponse]
              exact ⟨_, rfl, wellShaped_invalid.mpr hjson⟩

theorem ReadsAs.unique {response response' : RawWorkerResponse} (h : ReadsAs json output response)
    (h' : ReadsAs json output response') : response = response' := by
  obtain ⟨-, -, normalized, hok, hsome⟩ := h
  obtain ⟨-, -, normalized', hok', hsome'⟩ := h'
  rw [hok] at hok'
  cases hok'
  rw [hsome] at hsome'
  exact Option.some.inj hsome'

end Responses

/-! ## The worktree -/

section Worktree

variable {σ : Type} {inv : InvocationEnv} {env : HostEnv} {fs : ExecutorFileSystem σ} {worktree : σ} {cwd : Str}

theorem invalidFromCompletedResult_wellShaped (hredacts : engines.Redacts) (result : MiniMaxDelegationResult)
    {error : Str} (diagnostic : Option Str) (h : trim error ≠ []) :
    WellShaped (invalidFromCompletedResult engines.secretPatterns result error diagnostic) :=
  ⟨_, rfl, rfl, rfl, rfl, rfl, hredacts.trim_sanitizeMetadata_ne_nil h⟩

theorem mapApplicabilityError_nonblank (secrets : SecretPatterns) (hunks : List Hunk) (error : ApplyPatchError) :
    trim (mapApplicabilityError secrets hunks error) ≠ [] := by
  have hcontext : trim "patch_not_applicable: context did not match ".toList ≠ [] := literal_nonblank (by decide)
  have htarget : trim "patch_not_applicable: update target ".toList ≠ [] := literal_nonblank (by decide)
  have hread : trim "patch_not_applicable: could not read ".toList ≠ [] := literal_nonblank (by decide)
  have hinvocation : trim "invalid_apply_patch_format: patch could not be parsed as apply_patch".toList ≠ [] :=
    literal_nonblank (by decide)
  unfold mapApplicabilityError
  split
  · exact nonblank_append _ hcontext
  · dsimp only
    split
    · exact nonblank_append _ (nonblank_append _ htarget)
    · exact nonblank_append _ hread
  · exact mapApplyPatchParseError_nonblank secrets _
  · exact hinvocation

/-- A result keeps its shape, or an error takes its place. -/
theorem validate_wellShaped (hredacts : engines.Redacts) (h : WellShaped result) :
    WellShaped (validateDelegateResultAgainstWorktree engines.secretPatterns inv env fs worktree result cwd) := by
  have hsensitive : trim "blocked_sensitive_patch: patch modifies sensitive path ".toList ≠ [] :=
    literal_nonblank (by decide)
  have hcwd : trim "patch_not_applicable: current working directory is not absolute".toList ≠ [] :=
    literal_nonblank (by decide)
  have hshell : trim "invalid_apply_patch_format: patch could not be parsed as apply_patch".toList ≠ [] :=
    literal_nonblank (by decide)
  unfold validateDelegateResultAgainstWorktree
  split
  · exact h
  · split
    · exact h
    · unfold validateApplyPatch
      split
      · exact invalidFromCompletedResult_wellShaped hredacts _ _ (mapApplyPatchParseError_nonblank _ _)
      · split
        · exact invalidFromCompletedResult_wellShaped hredacts _ _ (nonblank_append _ hsensitive)
        · split
          · exact invalidFromCompletedResult_wellShaped hredacts _ _ hcwd
          · split
            · exact h
            · exact invalidFromCompletedResult_wellShaped hredacts _ _ (mapApplicabilityError_nonblank _ _ _)
            · exact invalidFromCompletedResult_wellShaped hredacts _ _ hshell
            · exact invalidFromCompletedResult_wellShaped hredacts _ _ hshell

end Worktree

end Codrex.MinimaxDelegate
