import Codrex.MinimaxDelegate.Lemmas.Wrapping

/-!
# The loop that takes wrappers off
-/

namespace Codrex.MinimaxDelegate

open Text ApplyPatch

variable {text body next diagnostic : Str}

/-! ## Steps -/

/-- A turn of the loop in `normalize_apply_patch_text` that goes on. -/
inductive UnwrapStep : Str → Str → Prop
  | fence {text body : Str} (h : stripMarkdownFence text = some body) : UnwrapStep text (trim body)
  | markers {text body diagnostic : Str} (hfence : stripMarkdownFence text = none)
      (h : extractWrappedApplyPatch text = some (some (body, diagnostic))) : UnwrapStep text (trim body)

/-- Neither unwrapper takes anything off. -/
structure Unwrapped (text : Str) : Prop where
  noFence : stripMarkdownFence text = none
  noMarkers : extractWrappedApplyPatch text = some none

theorem Unwrapped.not_step (h : Unwrapped text) : ¬ UnwrapStep text next := by
  intro hstep
  cases hstep with
  | fence hbody =>
      rw [h.noFence] at hbody
      cases hbody
  | markers _ hbody =>
      rw [h.noMarkers] at hbody
      cases hbody

theorem extract_eq_some (h : extractWrappedApplyPatch text = some (some (body, diagnostic))) :
    (∃ front middle back, Marked text front middle back ∧ body = beginPatchMarker ++ (middle ++ endPatchMarker) ∧
      ¬ (trim front = [] ∧ trim back = [])) ∨ body = [] ∧ text ≠ [] := by
  rcases marker_cases text with hboth | ⟨front, middle, back, hmarked⟩ | ⟨front, gap, back, hreversed⟩
  · rw [extract_of_not_bothOnce hboth] at h
    cases h
  · obtain ⟨diagnostic', heq⟩ := hmarked.extract_eq
    rw [heq] at h
    split at h
    · cases h
    · rename_i hblank
      simp only [Option.some.injEq, Prod.mk.injEq] at h
      exact Or.inl ⟨front, middle, back, hmarked, h.1.symm, hblank⟩
  · obtain ⟨diagnostic', heq⟩ := hreversed.extract_eq
    rw [heq] at h
    split at h
    · simp only [Option.some.injEq, Prod.mk.injEq] at h
      refine Or.inr ⟨h.1.symm, ?_⟩
      rw [hreversed.ends.split]
      simp [end_ne_nil]
    · cases h

theorem length_trim_lt_of_extract (h : extractWrappedApplyPatch text = some (some (body, diagnostic))) :
    (trim body).length < text.length := by
  have hbody := length_trim_le body
  rcases extract_eq_some h with ⟨front, middle, back, hmarked, rfl, hblank⟩ | ⟨rfl, hne⟩
  · have hlen := congrArg List.length hmarked.begins.split
    have hpos : 0 < front.length + back.length := by
      by_contra hzero
      have hfront : front = [] := List.eq_nil_of_length_eq_zero (by omega)
      have hback : back = [] := List.eq_nil_of_length_eq_zero (by omega)
      exact hblank (by simp [hfront, hback, trim, trimStart, trimEnd])
    simp only [List.length_append] at hlen hbody
    omega
  · have hpos := List.length_pos_of_ne_nil hne
    simp only [List.length_nil] at hbody
    omega

theorem UnwrapStep.length_lt (h : UnwrapStep text next) : next.length < text.length := by
  cases h with
  | fence h => exact length_trim_lt_of_strip h
  | markers _ h => exact length_trim_lt_of_extract h

theorem Marked.inner {front middle back : Str} (h : Marked text front middle back) :
    Marked (beginPatchMarker ++ (middle ++ endPatchMarker)) [] middle [] where
  begins := by
    have hbegins : OnceAt beginPatchMarker text (front ++ []) ((middle ++ endPatchMarker) ++ back) := by
      simpa using h.begins
    simpa using hbegins.inner
  ends := by
    have hends : OnceAt endPatchMarker text (front ++ (beginPatchMarker ++ middle)) ([] ++ back) := h.ends
    simpa using hends.inner

theorem trim_marked (middle : Str) :
    trim (beginPatchMarker ++ (middle ++ endPatchMarker)) = beginPatchMarker ++ (middle ++ endPatchMarker) := by
  rw [trim_eq_self_iff]
  refine ⟨fun c hc => ?_, fun c hc => ?_⟩
  · rw [List.head?_append_of_ne_nil _ begin_ne_nil] at hc
    obtain rfl : '*' = c := Option.some.inj hc
    decide
  · rw [List.getLast?_append_of_ne_nil _ (by simp [end_ne_nil]), List.getLast?_append_of_ne_nil _ end_ne_nil] at hc
    obtain rfl : 'h' = c := Option.some.inj hc
    decide

/-- What stands between the markers has no wrapper of its own. -/
theorem unwrapped_of_extract (h : extractWrappedApplyPatch text = some (some (body, diagnostic))) :
    Unwrapped (trim body) := by
  rcases extract_eq_some h with ⟨front, middle, back, hmarked, rfl, -⟩ | ⟨rfl, -⟩
  · rw [trim_marked]
    refine ⟨?_, ?_⟩
    · unfold stripMarkdownFence
      have hopens : ¬ fence.isPrefixOf (trim (beginPatchMarker ++ (middle ++ endPatchMarker))) = true := by
        rw [trim_marked]
        intro hopens
        cases hopens
      rw [if_neg hopens]
    · obtain ⟨diagnostic', heq⟩ := (hmarked.inner).extract_eq
      rw [heq, if_pos ⟨rfl, rfl⟩]
  · exact ⟨by decide, by decide⟩

/-! ## Runs of the loop -/

/-- The patch inside the wrappers of a text. -/
def patchInside (text : Str) : Str :=
  match extractWrappedApplyPatch (unfence text) with
  | some (some (body, _)) => trim body
  | _ => unfence text

theorem patchInside_of_none (h : extractWrappedApplyPatch (unfence text) = some none) :
    patchInside text = unfence text := by
  unfold patchInside
  rw [h]

theorem patchInside_of_some (h : extractWrappedApplyPatch (unfence text) = some (some (body, diagnostic))) :
    patchInside text = trim body := by
  unfold patchInside
  rw [h]

theorem unwrapped_patchInside (h : ¬ Backwards (unfence text)) : Unwrapped (patchInside text) := by
  rw [← extract_eq_none_iff] at h
  cases hextract : extractWrappedApplyPatch (unfence text) with
  | none => exact absurd hextract h
  | some wrapped =>
      cases wrapped with
      | none =>
          rw [patchInside_of_none hextract]
          exact ⟨strip_unfence text, hextract⟩
      | some wrapped =>
          rw [patchInside_of_some hextract]
          exact unwrapped_of_extract hextract

theorem unwrapLoop_of_unwrapped (h : Unwrapped text) (fuel : Nat) (diagnostics : List Str) :
    unwrapLoop fuel text diagnostics = some (text, diagnostics) := by
  cases fuel with
  | zero => rfl
  | succ fuel => simp only [unwrapLoop, h.noFence, h.noMarkers]

theorem unwrapLoop_fenced (h : stripMarkdownFence text = some body) (fuel : Nat) (diagnostics : List Str) :
    unwrapLoop (fuel + 1) text diagnostics =
      unwrapLoop fuel (trim body) (diagnostics ++ ["normalized worker patch: stripped markdown fence".toList]) := by
  simp only [unwrapLoop, h]

/-- The last turn but one takes the patch out of the text around its markers. -/
theorem unwrapLoop_bare (h : stripMarkdownFence text = none) (fuel : Nat) (diagnostics : List Str) :
    unwrapLoop (fuel + 1) text diagnostics = (extractWrappedApplyPatch text).map fun
      | none => (text, diagnostics)
      | some (body, diagnostic) => (trim body, diagnostics ++ [diagnostic]) := by
  simp only [unwrapLoop, h]
  cases hextract : extractWrappedApplyPatch text with
  | none => rfl
  | some wrapped =>
      cases wrapped with
      | none => rfl
      | some wrapped => exact unwrapLoop_of_unwrapped (unwrapped_of_extract hextract) fuel _

/-- With a turn for each character the loop comes to the patch inside, or to a slice that panics. -/
theorem unwrapLoop_spec (text : Str) (diagnostics : List Str) :
    (Backwards (unfence text) → ∀ fuel, text.length < fuel → unwrapLoop fuel text diagnostics = none) ∧
    (¬ Backwards (unfence text) → ∃ diagnostics', ∀ fuel, text.length < fuel →
      unwrapLoop fuel text diagnostics = some (patchInside text, diagnostics')) := by
  rw [← extract_eq_none_iff]
  induction text using unfence_induction generalizing diagnostics with
  | bare text hstrip =>
      unfold patchInside
      rw [unfence_of_none hstrip]
      refine ⟨fun h fuel hfuel => ?_, fun h => ?_⟩
      · obtain ⟨turns, rfl⟩ := Nat.exists_eq_add_one_of_ne_zero (Nat.ne_of_gt (Nat.zero_lt_of_lt hfuel))
        rw [unwrapLoop_bare hstrip, h]
        rfl
      · obtain ⟨wrapped, hextract⟩ := Option.ne_none_iff_exists'.mp h
        cases wrapped with
        | none =>
            refine ⟨diagnostics, fun fuel hfuel => ?_⟩
            obtain ⟨turns, rfl⟩ := Nat.exists_eq_add_one_of_ne_zero (Nat.ne_of_gt (Nat.zero_lt_of_lt hfuel))
            rw [unwrapLoop_bare hstrip, hextract]
            rfl
        | some wrapped =>
            refine ⟨diagnostics ++ [wrapped.2], fun fuel hfuel => ?_⟩
            obtain ⟨turns, rfl⟩ := Nat.exists_eq_add_one_of_ne_zero (Nat.ne_of_gt (Nat.zero_lt_of_lt hfuel))
            rw [unwrapLoop_bare hstrip, hextract]
            rfl
  | fenced text body hstrip ih =>
      have hlt := length_trim_lt_of_strip hstrip
      obtain ⟨hpanics, hreturns⟩ := ih (diagnostics ++ ["normalized worker patch: stripped markdown fence".toList])
      unfold patchInside at hreturns ⊢
      rw [unfence_of_some hstrip]
      refine ⟨fun h fuel hfuel => ?_, fun h => ?_⟩
      · obtain ⟨turns, rfl⟩ := Nat.exists_eq_add_one_of_ne_zero (Nat.ne_of_gt (Nat.zero_lt_of_lt hfuel))
        rw [unwrapLoop_fenced hstrip]
        exact hpanics h turns (by omega)
      · obtain ⟨diagnostics', hall⟩ := hreturns h
        refine ⟨diagnostics', fun fuel hfuel => ?_⟩
        obtain ⟨turns, rfl⟩ := Nat.exists_eq_add_one_of_ne_zero (Nat.ne_of_gt (Nat.zero_lt_of_lt hfuel))
        rw [unwrapLoop_fenced hstrip]
        exact hall turns (by omega)

/-- The loop comes to an end, however many turns it is given, where nothing is left to be taken off. -/
def LoopEnds (text : Str) (diagnostics : List Str) : Prop :=
  ∃ final diagnostics', (∀ next, ¬ UnwrapStep final next) ∧
    ∀ fuel, text.length < fuel → unwrapLoop fuel text diagnostics = some (final, diagnostics')

theorem loopEnds_iff {diagnostics : List Str} : LoopEnds text diagnostics ↔ ¬ Backwards (unfence text) := by
  obtain ⟨hpanics, hreturns⟩ := unwrapLoop_spec text diagnostics
  constructor
  · rintro ⟨final, diagnostics', -, hall⟩ hbackwards
    have hnone := hpanics hbackwards _ (Nat.lt_succ_self _)
    rw [hall _ (Nat.lt_succ_self _)] at hnone
    cases hnone
  · intro h
    obtain ⟨diagnostics', hall⟩ := hreturns h
    exact ⟨patchInside text, diagnostics', fun next => (unwrapped_patchInside h).not_step, hall⟩

/-! ## Line endings -/

theorem backwards_unfence_unifyEndings : Backwards (unfence (unifyEndings text)) ↔ Backwards (unfence text) := by
  have heq := extract_unifyEndings (unfence text)
  rw [unfence_unifyEndings, ← extract_eq_none_iff, ← extract_eq_none_iff]
  constructor
  · intro h
    rw [h, Option.map_none] at heq
    exact Option.map_eq_none_iff.mp heq.symm
  · intro h
    rw [h, Option.map_none] at heq
    exact Option.map_eq_none_iff.mp heq

theorem patchInside_unifyEndings (text : Str) : patchInside (unifyEndings text) = unifyEndings (patchInside text) := by
  have heq := extract_unifyEndings (unfence text)
  unfold patchInside
  rw [unfence_unifyEndings]
  cases hextract : extractWrappedApplyPatch (unfence text) with
  | none =>
      rw [hextract, Option.map_none, Option.map_eq_none_iff] at heq
      rw [heq]
  | some wrapped =>
      obtain ⟨wrapped', hextract', hwrapped⟩ := Option.map_eq_some_iff.mp (heq.trans (by rw [hextract]; rfl))
      rw [hextract']
      cases wrapped with
      | none =>
          rw [Option.map_none, Option.map_eq_none_iff] at hwrapped
          rw [hwrapped]
      | some wrapped =>
          obtain ⟨inner, rfl, hinner⟩ := Option.map_eq_some_iff.mp hwrapped
          simp only [hinner, trim_unifyEndings]

theorem normalizeLineEndings_eq (text diagnostic : Str) :
    normalizeLineEndings text diagnostic =
      (unifyEndings text, if contains text ['\r', '\n'] then [diagnostic] else []) := by
  unfold normalizeLineEndings
  by_cases h : contains text ['\r', '\n'] = true
  · rw [if_pos h, if_pos h, replace_crlf]
  · rw [if_neg h, if_neg h, unifyEndings_eq_self_of_not_infix (mt contains_eq_true_iff.mpr h)]

theorem trim_patchInside (h : trim text = text) : trim (patchInside text) = patchInside text := by
  have hunfence : trim (unfence text) = unfence text := by
    induction text using unfence_induction with
    | bare text hstrip =>
        rw [unfence_of_none hstrip]
        exact h
    | fenced text body hstrip ih =>
        rw [unfence_of_some hstrip]
        exact ih (trim_trim body)
  unfold patchInside
  split
  · exact trim_trim _
  · exact hunfence

theorem patchInside_of_unwrapped (h : Unwrapped text) : patchInside text = text := by
  have hself := unfence_of_none h.noFence
  rw [patchInside_of_none (hself.symm ▸ h.noMarkers), hself]

/-! ## The whole normalization -/

variable {secrets : SecretPatterns} {diagnostics : List Str}

/-- What the checks behind the loop ask of a text. -/
structure Accepted (text : Str) : Prop where
  notDiff : looksLikeUnifiedDiff text = false
  noFence : contains text fence = false
  noHeredoc : contains text heredocCall = false
  parses : ∃ args, parsePatch text = .ok args ∧ args.hunks ≠ []

theorem checkApplyPatchText_eq_ok {patch : ResolvedPatchSource} :
    checkApplyPatchText secrets text diagnostics = .ok patch ↔ Accepted text ∧ patch = ⟨text, diagnostics⟩ := by
  unfold checkApplyPatchText
  constructor
  · intro h
    split at h
    · cases h
    · rename_i hdiff
      split at h
      · cases h
      · rename_i hfence
        split at h
        · cases h
        · rename_i hheredoc
          split at h
          · rename_i args hparse
            split at h
            · cases h
            · rename_i hhunks
              cases h
              exact ⟨⟨Bool.eq_false_iff.mpr hdiff, Bool.eq_false_iff.mpr hfence, Bool.eq_false_iff.mpr hheredoc, args,
                hparse, by simpa using hhunks⟩, rfl⟩
          · cases h
  · rintro ⟨⟨hdiff, hfence, hheredoc, args, hparse, hhunks⟩, rfl⟩
    simp [hdiff, hfence, hheredoc, hparse, hhunks]

/-- The normalization panics on a patch with its markers the wrong way round, and checks the patch inside the
wrappers of any other. -/
theorem normalizeApplyPatchText_spec (secrets : SecretPatterns) (patch : Str) :
    (Backwards (unfence (trim patch)) → normalizeApplyPatchText secrets patch = none) ∧
    (¬ Backwards (unfence (trim patch)) → ∃ diagnostics, normalizeApplyPatchText secrets patch =
      some (checkApplyPatchText secrets (unifyEndings (patchInside (trim patch))) diagnostics)) := by
  unfold normalizeApplyPatchText
  rw [normalizeLineEndings_eq, ← backwards_unfence_unifyEndings, ← patchInside_unifyEndings]
  generalize (if contains (trim patch) ['\r', '\n'] = true then _ else _ : List Str) = diagnostics
  obtain ⟨hpanics, hreturns⟩ := unwrapLoop_spec (unifyEndings (trim patch)) diagnostics
  refine ⟨fun h => ?_, fun h => ?_⟩
  · simp only [hpanics h _ (Nat.lt_succ_self _), Option.map_none]
  · obtain ⟨diagnostics', hall⟩ := hreturns h
    exact ⟨diagnostics', by simp only [hall _ (Nat.lt_succ_self _), Option.map_some]⟩

/-- A text without wrappers, white space around it and carriage returns at the ends of its lines stays as it is. -/
theorem normalizeApplyPatchText_self (htrim : trim text = text) (hunwrapped : Unwrapped text)
    (hendings : ¬ ['\r', '\n'] <:+: text) :
    normalizeApplyPatchText secrets text = some (checkApplyPatchText secrets text []) := by
  have hcontains : ¬ contains text ['\r', '\n'] = true := mt contains_eq_true_iff.mp hendings
  unfold normalizeApplyPatchText
  rw [normalizeLineEndings_eq, htrim, if_neg hcontains, unifyEndings_eq_self_of_not_infix hendings]
  simp only [unwrapLoop_of_unwrapped hunwrapped, Option.map_some]

theorem unwrapped_unifyEndings_patchInside (h : ¬ Backwards (unfence text)) :
    Unwrapped (unifyEndings (patchInside text)) := by
  rw [← patchInside_unifyEndings]
  exact unwrapped_patchInside (mt backwards_unfence_unifyEndings.mp h)

/-- What is normalized is normalized again without a change. -/
def ReturnsStable (secrets : SecretPatterns) (patch : Str) : Prop :=
  ∀ text diagnostics, normalizeApplyPatchText secrets patch = some (.ok ⟨text, diagnostics⟩) →
    normalizeApplyPatchText secrets text = some (.ok ⟨text, []⟩)

theorem returnsStable_iff {patch : Str} (h : ¬ Backwards (unfence (trim patch))) :
    ReturnsStable secrets patch ↔ (Accepted (unifyEndings (patchInside (trim patch))) →
      ¬ ['\r', '\n'] <:+: unifyEndings (patchInside (trim patch))) := by
  have htrim : trim (unifyEndings (patchInside (trim patch))) = unifyEndings (patchInside (trim patch)) := by
    rw [trim_unifyEndings, trim_patchInside (trim_trim patch)]
  have hunwrapped := unwrapped_unifyEndings_patchInside h
  obtain ⟨diagnostics, heq⟩ := (normalizeApplyPatchText_spec secrets patch).2 h
  generalize unifyEndings (patchInside (trim patch)) = inside at *
  constructor
  · intro hstable haccepted
    have hok : normalizeApplyPatchText secrets patch = some (.ok ⟨inside, diagnostics⟩) := by
      rw [heq, checkApplyPatchText_eq_ok.mpr ⟨haccepted, rfl⟩]
    have hagain := hstable inside diagnostics hok
    -- The second time the text comes out with its line endings normalized once more.
    have hforwards : ¬ Backwards (unfence (trim inside)) := by
      intro hbackwards
      rw [(normalizeApplyPatchText_spec secrets inside).1 hbackwards] at hagain
      cases hagain
    obtain ⟨diagnostics', heq'⟩ := (normalizeApplyPatchText_spec secrets inside).2 hforwards
    rw [htrim, patchInside_of_unwrapped hunwrapped, hagain, Option.some.injEq] at heq'
    have hpatch := (checkApplyPatchText_eq_ok.mp heq'.symm).2
    rw [← unifyEndings_eq_self_iff]
    exact (congrArg ResolvedPatchSource.patch hpatch).symm
  · intro hendings text diagnostics' hok
    rw [heq, Option.some.injEq] at hok
    obtain ⟨haccepted, hpatch⟩ := checkApplyPatchText_eq_ok.mp hok
    cases hpatch
    rw [normalizeApplyPatchText_self htrim hunwrapped (hendings haccepted), checkApplyPatchText_eq_ok.mpr ⟨haccepted, rfl⟩]

end Codrex.MinimaxDelegate
