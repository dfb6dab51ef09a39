import Codrex.Lib.Json
import Codrex.MinimaxDelegate.ResponseParser
import Codrex.MinimaxDelegate.Spec

/-!
# The scan for JSON objects
-/

namespace Codrex.MinimaxDelegate

open Text JsonGrammar

/-! ## Balanced text -/

/-- Outside of strings, the scan goes over the text without stopping in it and comes out at the depth it went in. -/
def Passes (depth : Nat) (s : Str) : Prop :=
  ∀ rest, balancedEnd (s ++ rest) depth false false = (balancedEnd rest depth false false).map (· + s.length)

theorem map_add_map_add (end? : Option Nat) (m n : Nat) : (end?.map (· + m)).map (· + n) = end?.map (· + (m + n)) := by
  cases end? with
  | none => rfl
  | some stop => simp [Nat.add_assoc]

theorem Passes.append {depth : Nat} {s t : Str} (hs : Passes depth s) (ht : Passes depth t) : Passes depth (s ++ t) := by
  intro rest
  rw [List.append_assoc, hs, ht, map_add_map_add, List.length_append, Nat.add_comm s.length]

theorem Passes.char {c : Char} (hquote : c ≠ '"') (hopen : c ≠ '{') (hclose : c ≠ '}') (depth : Nat) :
    Passes depth [c] := by
  intro rest
  simp [balancedEnd, hquote, hopen, hclose]

theorem passes_of_plain {s : Str} (h : Plain s) (depth : Nat) : Passes depth s := by
  induction s with
  | nil =>
      intro rest
      simp
  | cons c s ih =>
      obtain ⟨hquote, hopen, hclose⟩ := h c List.mem_cons_self
      exact (Passes.char hquote hopen hclose depth).append (ih fun d hd => h d (List.mem_cons_of_mem _ hd))

theorem balancedEnd_unescaped {c : Char} (hquote : c ≠ '"') (hslash : c ≠ '\\') (s : Str) (depth : Nat) :
    balancedEnd (c :: s) depth true false = (balancedEnd s depth true false).map (· + 1) := by
  simp [balancedEnd, hquote, hslash]

theorem balancedEnd_escaped (c : Char) (s : Str) (depth : Nat) :
    balancedEnd ('\\' :: c :: s) depth true false = (balancedEnd s depth true false).map (· + 2) := by
  simp only [balancedEnd, decide_true, show (decide ('\\' ≠ '"')) = true by decide]
  exact map_add_map_add _ 1 1

/-- Inside of a string the scan comes to its closing quotation mark, whatever is escaped in it. -/
theorem balancedEnd_chars {body : Str} (h : Chars body) (depth : Nat) (rest : Str) :
    balancedEnd (body ++ '"' :: rest) depth true false =
      (balancedEnd rest depth false false).map (· + (body.length + 1)) := by
  induction h with
  | nil => simp [balancedEnd]
  | unescaped hquote hslash _ _ ih =>
      rw [List.cons_append, balancedEnd_unescaped hquote hslash, ih, map_add_map_add]
      rfl
  | escaped _ _ ih =>
      rw [List.cons_append, List.cons_append, balancedEnd_escaped, ih, map_add_map_add]
      rfl
  | @unicode a b c d s hhex _ ih =>
      have ha := (hhex a (by simp)).ne
      have hb := (hhex b (by simp)).ne
      have hc := (hhex c (by simp)).ne
      have hd := (hhex d (by simp)).ne
      simp only [List.cons_append]
      rw [balancedEnd_escaped, balancedEnd_unescaped ha.1 ha.2, balancedEnd_unescaped hb.1 hb.2,
        balancedEnd_unescaped hc.1 hc.2, balancedEnd_unescaped hd.1 hd.2, ih]
      simp only [map_add_map_add, List.length_cons, Nat.add_assoc]

theorem passes_of_isString {s : Str} (h : IsString s) (depth : Nat) : Passes depth s := by
  obtain ⟨body, hbody, rfl⟩ := h
  intro rest
  have hquote : balancedEnd ('"' :: (body ++ '"' :: rest)) depth false false =
      (balancedEnd (body ++ '"' :: rest) depth true false).map (· + 1) := by simp [balancedEnd]
  rw [List.cons_append, List.append_assoc, List.singleton_append, hquote, balancedEnd_chars hbody, map_add_map_add]
  simp

/-- A pair of braces around balanced text is balanced, below the outermost level. -/
theorem Passes.braces {depth : Nat} {s : Str} (h : Passes (depth + 1) s) (hdepth : 0 < depth) :
    Passes depth ('{' :: (s ++ ['}'])) := by
  intro rest
  have hopen : balancedEnd ('{' :: (s ++ ('}' :: rest))) depth false false =
      (balancedEnd (s ++ ('}' :: rest)) (depth + 1) false false).map (· + 1) := by simp [balancedEnd]
  have hclose : balancedEnd ('}' :: rest) (depth + 1) false false =
      (balancedEnd rest depth false false).map (· + 1) := by
    simp [balancedEnd, Nat.ne_of_gt hdepth]
  rw [List.cons_append, List.append_assoc, List.singleton_append, hopen, h, hclose, map_add_map_add, map_add_map_add]
  congr 2
  funext stop
  simp
  omega

/-- Whatever the grammar derives is balanced. -/
theorem passes_of_derives {n : Nonterminal} {s : Str} (h : Derives n s) {depth : Nat} (hdepth : 0 < depth) :
    Passes depth s := by
  induction h generalizing depth with
  | null => exact passes_of_plain (by simp [Plain]) depth
  | true => exact passes_of_plain (by simp [Plain]) depth
  | false => exact passes_of_plain (by simp [Plain]) depth
  | number h => exact passes_of_plain h.plain depth
  | string h => exact passes_of_isString h depth
  | object _ ih => exact ih hdepth
  | array _ ih => exact ih hdepth
  | emptyObject hw => exact (passes_of_plain hw.plain _).braces hdepth
  | members _ ih => exact (ih (Nat.succ_pos depth)).braces hdepth
  | member hw₁ hname hw₂ hw₃ _ hw₄ ih =>
      have hcolon : Passes depth [':'] := Passes.char (by decide) (by decide) (by decide) depth
      exact (passes_of_plain hw₁.plain depth).append <| (passes_of_isString hname depth).append <|
        (passes_of_plain hw₂.plain depth).append <| hcolon.append <| (passes_of_plain hw₃.plain depth).append <|
        (ih hdepth).append (passes_of_plain hw₄.plain depth)
  | moreMembers _ _ ih ihrest =>
      have hcomma : Passes depth [','] := Passes.char (by decide) (by decide) (by decide) depth
      exact (ih hdepth).append (hcomma.append (ihrest hdepth))
  | emptyArray hw =>
      have hopen : Passes depth ['['] := Passes.char (by decide) (by decide) (by decide) depth
      have hclose : Passes depth [']'] := Passes.char (by decide) (by decide) (by decide) depth
      exact hopen.append ((passes_of_plain hw.plain depth).append hclose)
  | elements _ ih =>
      have hopen : Passes depth ['['] := Passes.char (by decide) (by decide) (by decide) depth
      have hclose : Passes depth [']'] := Passes.char (by decide) (by decide) (by decide) depth
      exact hopen.append ((ih hdepth).append hclose)
  | element hw₁ _ hw₂ ih =>
      exact (passes_of_plain hw₁.plain depth).append ((ih hdepth).append (passes_of_plain hw₂.plain depth))
  | moreElements _ _ ih ihrest =>
      have hcomma : Passes depth [','] := Passes.char (by decide) (by decide) (by decide) depth
      exact (ih hdepth).append (hcomma.append (ihrest hdepth))

/-- From the opening brace of an object the scan comes to its closing brace. -/
theorem findBalancedJsonObjectEnd_object {o : Str} (h : IsObject o) (rest : Str) :
    findBalancedJsonObjectEnd (o ++ rest) = some o.length := by
  have hinside : ∃ s, o = '{' :: (s ++ ['}']) ∧ Passes 1 s := by
    cases h with
    | emptyObject hw => exact ⟨_, rfl, passes_of_plain hw.plain 1⟩
    | members hmembers => exact ⟨_, rfl, passes_of_derives hmembers Nat.one_pos⟩
  obtain ⟨s, rfl, hpasses⟩ := hinside
  have hopen : balancedEnd ('{' :: (s ++ ('}' :: rest))) 0 false false =
      (balancedEnd (s ++ ('}' :: rest)) 1 false false).map (· + 1) := by simp [balancedEnd]
  have hclose : balancedEnd ('}' :: rest) 1 false false = some 1 := by simp [balancedEnd]
  unfold findBalancedJsonObjectEnd
  rw [List.cons_append, List.append_assoc, List.singleton_append, hopen, hpasses, hclose]
  simp
  omega

/-! ## The objects of a text -/

variable {json : WorkerJson} {before o rest : Str} {fuel : Nat}

theorem jsonObjects_append (h : '{' ∉ before) :
    jsonObjects json (fuel + before.length) (before ++ rest) = jsonObjects json fuel rest := by
  induction before with
  | nil => rfl
  | cons c before ih =>
      simp only [List.mem_cons, not_or] at h
      rw [List.length_cons, ← Nat.add_assoc, List.cons_append, jsonObjects, if_pos (Ne.symm h.1), ih h.2]

theorem jsonObjects_plain (h : '{' ∉ before) (fuel : Nat) : jsonObjects json fuel before = [] := by
  induction before generalizing fuel with
  | nil =>
      cases fuel with
      | zero => rfl
      | succ fuel => rfl
  | cons c before ih =>
      simp only [List.mem_cons, not_or] at h
      cases fuel with
      | zero => rfl
      | succ fuel =>
          rw [jsonObjects, if_pos (Ne.symm h.1)]
          exact ih h.2 fuel

theorem jsonObjects_object (h : IsObject o) (hjson : json.isObject o = true) :
    jsonObjects json (fuel + 1) (o ++ rest) = o :: jsonObjects json fuel rest := by
  have hend := findBalancedJsonObjectEnd_object h rest
  obtain ⟨tail, rfl⟩ := h.exists_cons
  rw [List.cons_append] at hend ⊢
  simp only [jsonObjects, ne_eq, not_true_eq_false, if_false, hend]
  rw [← List.cons_append, List.take_left, List.drop_left, if_pos hjson]
  rfl

/-- With a turn for each character the scan takes the first object, and has a turn for each character behind it. -/
theorem exists_jsonObjects_eq_cons (hbefore : '{' ∉ before) (ho : IsObject o) (hjson : json.isObject o = true)
    (hfuel : (before ++ (o ++ rest)).length < fuel) :
    ∃ left, rest.length < left ∧ jsonObjects json fuel (before ++ (o ++ rest)) = o :: jsonObjects json left rest := by
  obtain ⟨tail, htail⟩ := ho.exists_cons
  have hpos : 0 < o.length := by rw [htail]; simp
  simp only [List.length_append] at hfuel
  obtain ⟨left, rfl⟩ : ∃ left, fuel = left + 1 + before.length := ⟨fuel - before.length - 1, by omega⟩
  refine ⟨left, by omega, ?_⟩
  rw [jsonObjects_append hbefore, jsonObjects_object ho hjson]

end Codrex.MinimaxDelegate

/-!
## Completed responses
-/

namespace Codrex.MinimaxDelegate

open Text ApplyPatch

variable {secrets : SecretPatterns} {json : WorkerJson} {output : Str} {contextDiagnostics diagnostics : List Str}
  {contextSummary : Option MiniMaxContextSummary} {response : RawWorkerResponse} {result : MiniMaxDelegationResult}

/-! ## Parsing -/

theorem parseDelegateOutput_of_readsAs (secrets : SecretPatterns) (contextDiagnostics : List Str)
    (contextSummary : Option MiniMaxContextSummary) (h : ReadsAs json output response) :
    ∃ diagnostics, parseDelegateOutput secrets json output contextDiagnostics contextSummary =
      readResponse secrets response diagnostics contextSummary := by
  obtain ⟨hne, hclarify, normalized, hnormalized, hresponse⟩ := h
  unfold parseDelegateOutput
  simp only [if_neg hne, hclarify, hnormalized, hresponse]
  exact ⟨_, rfl⟩

theorem readsAs_of_completed
    (h : parseDelegateOutput secrets json output contextDiagnostics contextSummary = some result)
    (hstatus : result.status = .completed) :
    ∃ response diagnostics, ReadsAs json output response ∧
      readResponse secrets response diagnostics contextSummary = some result := by
  unfold parseDelegateOutput at h
  simp only at h
  split at h
  · cases h
    cases hstatus
  · rename_i hne
    split at h
    · cases h
      cases hstatus
    · rename_i hclarify
      split at h
      · cases h
        cases hstatus
      · rename_i normalized hnormalized
        split at h
        · rename_i response hresponse
          exact ⟨response, _, ⟨hne, hclarify, normalized, hnormalized, hresponse⟩, h⟩
        · cases h
          cases hstatus

theorem readResponse_completed (h : readResponse secrets response diagnostics contextSummary = some result)
    (hstatus : result.status = .completed) :
    ∃ format patch, response.status = .completed ∧ response.format = some format ∧
      trimmedMetadata secrets response.summary ≠ [] ∧ completedPatch secrets response format = some (.ok patch) ∧
      result.format = some format ∧ result.patch = some patch.patch := by
  unfold readResponse at h
  cases hresponse : response.status with
  | completed =>
      simp only [hresponse, readCompleted] at h
      split at h
      · cases h
        cases hstatus
      · rename_i format hformat
        split at h
        · cases h
          cases hstatus
        · rename_i hsummary
          obtain ⟨outcome, houtcome, hresult⟩ := Option.map_eq_some_iff.mp h
          cases outcome with
          | ok patch =>
              cases hresult
              exact ⟨format, patch, rfl, hformat, hsummary, houtcome, rfl, rfl⟩
          | error error =>
              cases hresult
              cases hstatus
  | clarify =>
      simp only [hresponse] at h
      split at h
      · cases h
        cases hstatus
      · cases h
        cases hstatus
  | invalid =>
      simp only [hresponse, Option.some.injEq] at h
      cases h
      cases hstatus

theorem completedPatch_unifiedDiff {patch : ResolvedPatchSource}
    (h : completedPatch secrets response .unifiedDiff = some (.ok patch)) :
    ∃ source diagnostics, resolvePatchSource response.patch response.patchLines = .ok source ∧
      normalizeUnifiedDiffText source.patch = .ok ⟨patch.patch, diagnostics⟩ := by
  unfold completedPatch at h
  split at h
  · cases h
  · rename_i source hsource
    simp only [normalizePatchForFormat, Option.map_some, Option.some.injEq] at h
    split at h
    · rename_i normalized hnormalized
      cases h
      exact ⟨source, normalized.diagnostics, hsource, hnormalized⟩
    · cases h

theorem completed_of_offersUnifiedDiff (contextDiagnostics : List Str)
    (contextSummary : Option MiniMaxContextSummary) {diff : Str} (h : OffersUnifiedDiff secrets json output diff) :
    ∃ result, parseDelegateOutput secrets json output contextDiagnostics contextSummary = some result ∧
      result.status = .completed ∧ result.format = some .unifiedDiff ∧ result.patch = some diff := by
  obtain ⟨response, source, diagnostics, hreads, hstatus, hformat, hsummary, hsource, hdiff⟩ := h
  obtain ⟨before, hparse⟩ := parseDelegateOutput_of_readsAs secrets contextDiagnostics contextSummary hreads
  rw [hparse]
  simp only [readResponse, hstatus, readCompleted, hformat, if_neg hsummary, completedPatch, hsource,
    normalizePatchForFormat, hdiff, Option.map_some]
  exact ⟨_, rfl, rfl, rfl, rfl⟩

/-! ## Validating -/

variable {σ : Type} {inv : InvocationEnv} {env : HostEnv} {fs : ExecutorFileSystem σ} {worktree : σ} {cwd : Str}
  {tool : DiffTool}

theorem validate_of_not_applyPatch (h : result.status ≠ .completed ∨ result.format ≠ some .applyPatch) :
    validateDelegateResultAgainstWorktree secrets inv env fs worktree result cwd = result := by
  unfold validateDelegateResultAgainstWorktree
  rw [if_pos h]

theorem mem_pathsFromHunks {hunks : List Hunk} {path : Str}
    (h : path ∈ hunks.flatMap fun hunk => [hunk.sourcePath, hunk.path]) : path ∈ pathsFromHunks hunks := by
  obtain ⟨hunk, hhunk, hpath⟩ := List.mem_flatMap.mp h
  refine List.mem_flatMap.mpr ⟨hunk, hhunk, ?_⟩
  cases hunk with
  | addFile p contents => simpa [Hunk.sourcePath, Hunk.path] using hpath
  | deleteFile p => simpa [Hunk.sourcePath, Hunk.path] using hpath
  | updateFile p movePath chunks =>
      cases movePath with
      | none => simpa [Hunk.sourcePath, Hunk.path] using hpath
      | some dest => simpa [Hunk.sourcePath, Hunk.path] using hpath

/-- A patch that names a sensitive path does not pass. -/
theorem sparesSensitive_validateApplyPatch {patch : Str} (hformat : result.format = some .applyPatch)
    (hpatch : result.patch = some patch) :
    SparesSensitive tool (validateApplyPatch secrets inv env fs worktree result patch cwd) := by
  unfold validateApplyPatch
  split
  · intro hstatus
    cases hstatus
  · rename_i parsed hparsed
    split
    · intro hstatus
      cases hstatus
    · rename_i hnone
      split
      · intro hstatus
        cases hstatus
      · split
        · intro _ format patch' hformat' hpatch' path hpath
          rw [hformat] at hformat'
          rw [hpatch] at hpatch'
          cases hformat'
          cases hpatch'
          simp only [touchedPaths, hparsed] at hpath
          exact firstSensitivePath_eq_none.mp hnone path (mem_pathsFromHunks hpath)
        · intro hstatus
          cases hstatus
        · intro hstatus
          cases hstatus
        · intro hstatus
          cases hstatus

theorem sparesSensitive_of_applyPatch (hformat : result.format = some .applyPatch) :
    SparesSensitive tool (validateDelegateResultAgainstWorktree secrets inv env fs worktree result cwd) := by
  unfold validateDelegateResultAgainstWorktree
  split
  · rename_i h
    intro hstatus
    rcases h with h | h
    · exact absurd hstatus h
    · exact absurd hformat h
  · split
    · rename_i hpatch
      intro _ format patch _ hsome
      rw [hpatch] at hsome
      cases hsome
    · rename_i patch hpatch
      exact sparesSensitive_validateApplyPatch hformat hpatch

end Codrex.MinimaxDelegate
