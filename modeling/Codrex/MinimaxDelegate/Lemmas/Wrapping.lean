import Codrex.Lib.LineEndings
import Codrex.MinimaxDelegate.ResponseParser

/-!
# Patches and their wrappers

What the two unwrappers of `normalize_apply_patch_text` take off, and that they do the same before and after the
line endings are normalized.
-/

namespace Codrex.MinimaxDelegate

open Text ApplyPatch

variable {text body info last front middle gap back : Str}

/-! ## Fences -/

/-- The text, without white space around it, is a body between a line that opens a fence and one that closes it. -/
structure Fenced (text info body last : Str) : Prop where
  split : trim text = info ++ '\n' :: (body ++ '\n' :: last)
  opens : fence <+: info
  info_noBreak : '\n' ∉ info
  last_noBreak : '\n' ∉ last
  closes : trim last = fence

theorem find_lf (h : '\n' ∉ info) (t : Str) : find ['\n'] (info ++ '\n' :: t) = some info.length := by
  induction info with
  | nil => exact find_eq_zero (by simp)
  | cons c info ih =>
      simp only [List.mem_cons, not_or] at h
      rw [List.cons_append, find_cons (by simpa using h.1), ih h.2]
      rfl

theorem rfind_lf (h : '\n' ∉ last) (t : Str) : rfind ['\n'] (t ++ '\n' :: last) = some t.length := by
  have hnone : rfind ['\n'] last = none := by
    rw [rfind_eq_none_iff, find_eq_none_iff]
    rintro ⟨front, back, rfl⟩
    simp at h
  induction t with
  | nil => simp [rfind, hnone]
  | cons c t ih => simp [rfind, ih]

theorem exists_find_lf {s : Str} {i : Nat} (h : find ['\n'] s = some i) :
    ∃ info t, s = info ++ '\n' :: t ∧ '\n' ∉ info ∧ info.length = i := by
  obtain ⟨front, back, rfl, hlen, hfirst⟩ := exists_split_of_find h
  refine ⟨front, back, rfl, fun hmem => ?_, hlen⟩
  obtain ⟨a, b, rfl, -⟩ := List.eq_append_cons_of_mem hmem
  apply hfirst a.length (by simp)
  rw [List.drop_left]
  simp

theorem exists_rfind_lf {s : Str} {j : Nat} (h : rfind ['\n'] s = some j) :
    ∃ t last, s = t ++ '\n' :: last ∧ '\n' ∉ last ∧ t.length = j := by
  have hmem : '\n' ∈ s := by
    by_contra hno
    have hnone : rfind ['\n'] s = none := by
      rw [rfind_eq_none_iff, find_eq_none_iff]
      rintro ⟨front, back, rfl⟩
      simp at hno
    rw [hnone] at h
    cases h
  obtain ⟨t, last, rfl, hlast⟩ : ∃ t last, s = t ++ '\n' :: last ∧ '\n' ∉ last := by
    obtain ⟨a, b, hab, hno⟩ := List.eq_append_cons_of_mem (List.mem_reverse.mpr hmem)
    refine ⟨b.reverse, a.reverse, ?_, by simpa using hno⟩
    rw [← List.reverse_reverse s, hab]
    simp
  rw [rfind_lf hlast t] at h
  exact ⟨t, last, rfl, hlast, Option.some.inj h⟩

theorem fence_prefix_append {t : Str} : fence <+: info ++ '\n' :: t ↔ fence <+: info := by
  constructor
  · intro h
    rcases List.prefix_or_prefix_of_prefix h (List.prefix_append info ('\n' :: t)) with hle | hle
    · exact hle
    · -- The line would end inside the fence.
      obtain ⟨u, hu⟩ := hle
      rw [← hu, List.prefix_append_right_inj] at h
      cases u with
      | nil => rw [← hu, List.append_nil]
      | cons c u =>
          have hc : c = '\n' := (List.cons_prefix_cons.mp h).1
          have hmem : '\n' ∈ fence := by
            rw [← hu, hc]
            simp
          exact absurd hmem (by decide)
  · intro h
    exact h.trans (List.prefix_append _ _)

theorem Fenced.strip_eq (h : Fenced text info body last) : stripMarkdownFence text = some body := by
  have hassoc : trim text = (info ++ '\n' :: body) ++ '\n' :: last := by rw [h.split]; simp
  have hopens : fence.isPrefixOf (trim text) = true := by
    rw [List.isPrefixOf_iff_prefix, h.split, fence_prefix_append]
    exact h.opens
  have hfind : find ['\n'] (trim text) = some info.length := by
    rw [h.split]
    exact find_lf h.info_noBreak _
  have hrfind : rfind ['\n'] (trim text) = some (info ++ '\n' :: body).length := by
    rw [hassoc]
    exact rfind_lf h.last_noBreak _
  have hlt : ¬ (info ++ '\n' :: body).length ≤ info.length := by simp
  have hlast : (trim text).drop ((info ++ '\n' :: body).length + 1) = last := by
    rw [hassoc, ← List.drop_drop, List.drop_left]
    rfl
  have hbody : ((trim text).take (info ++ '\n' :: body).length).drop (info.length + 1) = body := by
    rw [hassoc, List.take_left, ← List.drop_drop, List.drop_left]
    rfl
  unfold stripMarkdownFence
  simp only [hopens, if_true, hfind, hrfind, if_neg hlt, hlast, h.closes, hbody]

theorem exists_fenced (h : stripMarkdownFence text = some body) : ∃ info last, Fenced text info body last := by
  have hstrip := h
  unfold stripMarkdownFence at h
  simp only at h
  split at h
  · rename_i hopens
    split at h
    · rename_i i j hfind hrfind
      split at h
      · cases h
      · rename_i hlt
        split at h
        · rename_i hcloses
          obtain ⟨info, t, hsplit, hinfo, rfl⟩ := exists_find_lf hfind
          obtain ⟨t', last, hsplit', hlast, rfl⟩ := exists_rfind_lf hrfind
          have heq : info ++ ['\n'] ++ t = t' ++ '\n' :: last := by
            rw [← hsplit', hsplit]
            simp
          obtain ⟨middle, rfl, -⟩ := append_append_cases heq (by simp; omega)
          rw [hsplit, List.isPrefixOf_iff_prefix, fence_prefix_append] at hopens
          rw [hsplit', ← List.drop_drop, List.drop_left] at hcloses
          have hfenced : Fenced text info middle last :=
            ⟨by rw [hsplit']; simp, hopens, hinfo, hlast, hcloses⟩
          rw [hfenced.strip_eq] at hstrip
          cases hstrip
          exact ⟨info, last, hfenced⟩
        · cases h
    · cases h
  · cases h

/-- Each fence taken off leaves a shorter text. -/
theorem length_trim_lt_of_strip (h : stripMarkdownFence text = some body) : (trim body).length < text.length := by
  obtain ⟨info, last, hfenced⟩ := exists_fenced h
  have hsplit := congrArg List.length hfenced.split
  have htext := length_trim_le text
  have hbody := length_trim_le body
  simp only [List.length_append, List.length_cons] at hsplit
  omega

theorem Fenced.unifyEndings (h : Fenced text info body last) :
    Fenced (unifyEndings text) (stripCr info) (Text.unifyEndings (stripCr body)) last where
  split := by
    have hinfo : '\n' ∉ stripCr info := fun hmem => h.info_noBreak (mem_of_mem_stripCr hmem)
    rw [trim_unifyEndings, h.split, unifyEndings_append_lf, unifyEndings_append_lf, unifyEndings_eq_self hinfo,
      unifyEndings_eq_self h.last_noBreak]
  opens := by
    obtain ⟨more, rfl⟩ := h.opens
    exact prefix_stripCr_append (by decide) more
  info_noBreak hmem := h.info_noBreak (mem_of_mem_stripCr hmem)
  last_noBreak := h.last_noBreak
  closes := h.closes

theorem exists_fenced_of_unifyEndings (h : Fenced (unifyEndings text) info body last) :
    ∃ info' body', Fenced text info' body' last := by
  have hsplit := h.split
  rw [trim_unifyEndings] at hsplit
  obtain ⟨x, rest, htext, hx, hrest⟩ := unifyEndings_eq_append hsplit
  obtain ⟨cr, rest', rfl, hcr, hrest'⟩ := unifyEndings_eq_lf_cons hrest
  obtain ⟨y, z, rfl, -, hz⟩ := unifyEndings_eq_append hrest'
  obtain ⟨cr', z', rfl, hcr', hz'⟩ := unifyEndings_eq_lf_cons hz
  rw [eq_of_unifyEndings_eq hx h.info_noBreak, eq_of_unifyEndings_eq hz' h.last_noBreak] at htext
  have hlf : '\n' ∉ cr := fun hmem => absurd (hcr _ hmem) (by decide)
  refine ⟨info ++ cr, y ++ cr', by rw [htext]; simp, h.opens.trans (List.prefix_append _ _), ?_, h.last_noBreak,
    h.closes⟩
  simp [h.info_noBreak, hlf]

/-- A fence is seen before and after the line endings are normalized, with the same body. -/
theorem stripMarkdownFence_unifyEndings (text : Str) :
    stripMarkdownFence (unifyEndings text) =
      (stripMarkdownFence text).map fun body => unifyEndings (stripCr body) := by
  cases hstrip : stripMarkdownFence text with
  | some body =>
      obtain ⟨info, last, hfenced⟩ := exists_fenced hstrip
      exact hfenced.unifyEndings.strip_eq
  | none =>
      cases hstrip' : stripMarkdownFence (unifyEndings text) with
      | none => rfl
      | some body =>
          obtain ⟨info, last, hfenced⟩ := exists_fenced hstrip'
          obtain ⟨info', body', hfenced'⟩ := exists_fenced_of_unifyEndings hfenced
          rw [hfenced'.strip_eq] at hstrip
          cases hstrip

/-- A text out of all its fences. -/
def unfence (text : Str) : Str :=
  match _h : stripMarkdownFence text with
  | some body => unfence (trim body)
  | none => text
termination_by text.length
decreasing_by exact length_trim_lt_of_strip _h

theorem unfence_of_some (h : stripMarkdownFence text = some body) : unfence text = unfence (trim body) := by
  rw [unfence]
  split
  · rename_i body' hbody'
    rw [h] at hbody'
    cases hbody'
    rfl
  · rename_i hnone
    rw [h] at hnone
    cases hnone

theorem unfence_of_none (h : stripMarkdownFence text = none) : unfence text = text := by
  rw [unfence]
  split
  · rename_i body hbody
    rw [h] at hbody
    cases hbody
  · rfl

/-- Induction along the fences. -/
theorem unfence_induction {P : Str → Prop} (bare : ∀ text, stripMarkdownFence text = none → P text)
    (fenced : ∀ text body, stripMarkdownFence text = some body → P (trim body) → P text) (text : Str) : P text := by
  induction hn : text.length using Nat.strong_induction_on generalizing text with
  | _ n ih =>
      cases h : stripMarkdownFence text with
      | none => exact bare text h
      | some body => exact fenced text body h (ih _ (hn ▸ length_trim_lt_of_strip h) _ rfl)

theorem strip_unfence (text : Str) : stripMarkdownFence (unfence text) = none := by
  induction text using unfence_induction with
  | bare text h =>
      rw [unfence_of_none h]
      exact h
  | fenced text body h ih =>
      rw [unfence_of_some h]
      exact ih

theorem unfence_unifyEndings (text : Str) : unfence (unifyEndings text) = unifyEndings (unfence text) := by
  induction text using unfence_induction with
  | bare text h =>
      rw [unfence_of_none h, unfence_of_none]
      rw [stripMarkdownFence_unifyEndings, h]
      rfl
  | fenced text body h ih =>
      have hstrip : stripMarkdownFence (unifyEndings text) = some (unifyEndings (stripCr body)) := by
        rw [stripMarkdownFence_unifyEndings, h]
        rfl
      rw [unfence_of_some h, unfence_of_some hstrip, trim_unifyEndings, trim_stripCr, ih]

/-! ## Markers -/

/-- One marker of each kind, and the patch between them. -/
structure Marked (text front middle back : Str) : Prop where
  begins : OnceAt beginPatchMarker text front (middle ++ (endPatchMarker ++ back))
  ends : OnceAt endPatchMarker text (front ++ (beginPatchMarker ++ middle)) back

/-- One marker of each kind, in the wrong order. -/
structure Reversed (text front gap back : Str) : Prop where
  ends : OnceAt endPatchMarker text front (gap ++ (beginPatchMarker ++ back))
  begins : OnceAt beginPatchMarker text (front ++ (endPatchMarker ++ gap)) back

def BothOnce (text : Str) : Prop :=
  (∃ front back, OnceAt beginPatchMarker text front back) ∧ ∃ front back, OnceAt endPatchMarker text front back

theorem begin_ne_nil : beginPatchMarker ≠ [] := by decide

theorem end_ne_nil : endPatchMarker ≠ [] := by decide

theorem begin_noBreak : '\r' ∉ beginPatchMarker ∧ '\n' ∉ beginPatchMarker := by decide

theorem end_noBreak : '\r' ∉ endPatchMarker ∧ '\n' ∉ endPatchMarker := by decide

theorem matchCount_begin : matchCount text beginPatchMarker = 1 ↔ ∃ front back, OnceAt beginPatchMarker text front back :=
  matchCount_eq_one_iff begin_ne_nil (by decide)

theorem matchCount_end : matchCount text endPatchMarker = 1 ↔ ∃ front back, OnceAt endPatchMarker text front back :=
  matchCount_eq_one_iff end_ne_nil (by decide)

theorem marker_cases (text : Str) :
    ¬ BothOnce text ∨ (∃ front middle back, Marked text front middle back) ∨
      ∃ front gap back, Reversed text front gap back := by
  by_cases hboth : BothOnce text
  · obtain ⟨⟨a, b, hbegin⟩, c, d, hend⟩ := hboth
    have heq : a ++ (beginPatchMarker ++ b) = c ++ (endPatchMarker ++ d) := hbegin.split.symm.trans hend.split
    rcases Nat.le_total a.length c.length with hle | hle
    · have hapart : Apart beginPatchMarker endPatchMarker := by decide
      obtain ⟨middle, rfl⟩ := hapart.append_cases heq hle
      obtain rfl : b = middle ++ (endPatchMarker ++ d) := by simpa using heq
      exact Or.inr (Or.inl ⟨a, middle, d, hbegin, hend⟩)
    · have hapart : Apart endPatchMarker beginPatchMarker := by decide
      obtain ⟨gap, rfl⟩ := hapart.append_cases heq.symm hle
      obtain rfl : d = gap ++ (beginPatchMarker ++ b) := by simpa using heq.symm
      exact Or.inr (Or.inr ⟨c, gap, b, hend, hbegin⟩)
  · exact Or.inl hboth

theorem extract_of_not_bothOnce (h : ¬ BothOnce text) : extractWrappedApplyPatch text = some none := by
  unfold extractWrappedApplyPatch
  rw [if_pos]
  by_contra hcount
  rw [not_or, not_not, not_not, matchCount_begin, matchCount_end] at hcount
  exact h hcount

theorem extract_of_onceAt {a b c d : Str} (hbegin : OnceAt beginPatchMarker text a b)
    (hend : OnceAt endPatchMarker text c d) :
    ∃ diagnostic, extractWrappedApplyPatch text =
      if trim a = [] ∧ trim d = [] then some none
      else (slice text a.length (c.length + endPatchMarker.length)).map fun body => some (body, diagnostic) := by
  have hcounts : ¬ (matchCount text beginPatchMarker ≠ 1 ∨ matchCount text endPatchMarker ≠ 1) := by
    rw [not_or, not_not, not_not, matchCount_begin, matchCount_end]
    exact ⟨⟨a, b, hbegin⟩, c, d, hend⟩
  have hfront : text.take a.length = a := by
    rw [hbegin.split, List.take_left]
  have hback : text.drop (c.length + endPatchMarker.length) = d := by
    rw [hend.split, ← List.drop_drop, List.drop_left, List.drop_left]
  unfold extractWrappedApplyPatch
  rw [if_neg hcounts, hbegin.find_eq, hend.rfind_eq end_ne_nil]
  simp only [hfront, hback]
  exact ⟨_, rfl⟩

/-- What stands between the markers is taken out of the text around them. -/
theorem Marked.extract_eq (h : Marked text front middle back) :
    ∃ diagnostic, extractWrappedApplyPatch text =
      if trim front = [] ∧ trim back = [] then some none
      else some (some (beginPatchMarker ++ (middle ++ endPatchMarker), diagnostic)) := by
  obtain ⟨diagnostic, heq⟩ := extract_of_onceAt h.begins h.ends
  have hsplit : text = (front ++ (beginPatchMarker ++ (middle ++ endPatchMarker))) ++ back := by
    rw [h.begins.split]
    simp
  have hlen : (front ++ (beginPatchMarker ++ middle)).length + endPatchMarker.length =
      (front ++ (beginPatchMarker ++ (middle ++ endPatchMarker))).length := by
    simp only [List.length_append]
    omega
  have hslice : slice text front.length ((front ++ (beginPatchMarker ++ middle)).length + endPatchMarker.length) =
      some (beginPatchMarker ++ (middle ++ endPatchMarker)) := by
    rw [hlen, slice, if_pos]
    · rw [hsplit, List.take_left, List.drop_left]
    · rw [hsplit]
      simp
  rw [heq, hslice]
  exact ⟨diagnostic, rfl⟩

/-- Markers in the wrong order leave an empty patch when they touch, and a slice with its ends swapped otherwise. -/
theorem Reversed.extract_eq (h : Reversed text front gap back) :
    ∃ diagnostic, extractWrappedApplyPatch text = if gap = [] then some (some ([], diagnostic)) else none := by
  obtain ⟨diagnostic, heq⟩ := extract_of_onceAt h.begins h.ends
  have hnonblank : ¬ (trim (front ++ (endPatchMarker ++ gap)) = [] ∧ trim (gap ++ (beginPatchMarker ++ back)) = []) := by
    rintro ⟨hblank, -⟩
    have hmem : '*' ∈ endPatchMarker := by decide
    have hstar := trim_eq_nil_iff.mp hblank '*' (List.mem_append_right _ (List.mem_append_left _ hmem))
    exact absurd hstar (by decide)
  refine ⟨diagnostic, ?_⟩
  rw [heq, if_neg hnonblank]
  have hlen := congrArg List.length h.ends.split
  by_cases hgap : gap = []
  · subst hgap
    rw [if_pos rfl, slice, if_pos]
    · simp
    · simp only [List.length_append, List.length_nil] at hlen ⊢
      omega
  · have hpos := List.length_pos_of_ne_nil hgap
    rw [if_neg hgap, slice, if_neg]
    · rfl
    · simp only [List.length_append]
      omega

/-- The only end marker stands in front of the only begin marker, with something between. -/
def Backwards (text : Str) : Prop := ∃ front gap back, Reversed text front gap back ∧ gap ≠ []

theorem extract_eq_none_iff : extractWrappedApplyPatch text = none ↔ Backwards text := by
  constructor
  · intro h
    rcases marker_cases text with hboth | ⟨front, middle, back, hmarked⟩ | ⟨front, gap, back, hreversed⟩
    · rw [extract_of_not_bothOnce hboth] at h
      cases h
    · obtain ⟨diagnostic, heq⟩ := hmarked.extract_eq
      rw [heq] at h
      split at h
      · cases h
      · cases h
    · obtain ⟨diagnostic, heq⟩ := hreversed.extract_eq
      rw [heq] at h
      split at h
      · cases h
      · rename_i hgap
        exact ⟨front, gap, back, hreversed, hgap⟩
  · rintro ⟨front, gap, back, hreversed, hgap⟩
    obtain ⟨diagnostic, heq⟩ := hreversed.extract_eq
    rw [heq, if_neg hgap]

theorem Marked.unifyEndings (h : Marked text front middle back) :
    Marked (unifyEndings text) (unifyEndings front) (unifyEndings middle) (unifyEndings back) where
  begins := by
    have honce := h.begins.unifyEndings begin_ne_nil begin_noBreak.1 begin_noBreak.2
    rwa [unifyEndings_append_pattern end_ne_nil end_noBreak.1 end_noBreak.2] at honce
  ends := by
    have honce := h.ends.unifyEndings end_ne_nil end_noBreak.1 end_noBreak.2
    rwa [unifyEndings_append_pattern begin_ne_nil begin_noBreak.1 begin_noBreak.2] at honce

theorem Reversed.unifyEndings (h : Reversed text front gap back) :
    Reversed (unifyEndings text) (unifyEndings front) (unifyEndings gap) (unifyEndings back) where
  ends := by
    have honce := h.ends.unifyEndings end_ne_nil end_noBreak.1 end_noBreak.2
    rwa [unifyEndings_append_pattern begin_ne_nil begin_noBreak.1 begin_noBreak.2] at honce
  begins := by
    have honce := h.begins.unifyEndings begin_ne_nil begin_noBreak.1 begin_noBreak.2
    rwa [unifyEndings_append_pattern end_ne_nil end_noBreak.1 end_noBreak.2] at honce

theorem not_bothOnce_unifyEndings (h : ¬ BothOnce text) : ¬ BothOnce (unifyEndings text) := by
  rintro ⟨⟨a, b, hbegin⟩, c, d, hend⟩
  exact h ⟨onceAt_of_unifyEndings hbegin begin_ne_nil begin_noBreak.1 begin_noBreak.2,
    onceAt_of_unifyEndings hend end_ne_nil end_noBreak.1 end_noBreak.2⟩

theorem unifyEndings_marked (middle : Str) :
    unifyEndings (beginPatchMarker ++ (middle ++ endPatchMarker)) =
      beginPatchMarker ++ (unifyEndings middle ++ endPatchMarker) := by
  have hbegin := unifyEndings_append_pattern begin_ne_nil begin_noBreak.1 begin_noBreak.2 [] (middle ++ endPatchMarker)
  have hend := unifyEndings_append_pattern end_ne_nil end_noBreak.1 end_noBreak.2 middle []
  rw [List.append_nil] at hend
  rw [List.nil_append] at hbegin
  rw [hbegin, hend]
  simp [unifyEndings]

/-- The body that is taken out of a text is taken out of it after its line endings are normalized too. -/
theorem extract_unifyEndings (text : Str) :
    (extractWrappedApplyPatch (unifyEndings text)).map (Option.map Prod.fst) =
      (extractWrappedApplyPatch text).map (Option.map fun wrapped => unifyEndings wrapped.1) := by
  rcases marker_cases text with hboth | ⟨front, middle, back, hmarked⟩ | ⟨front, gap, back, hreversed⟩
  · rw [extract_of_not_bothOnce hboth, extract_of_not_bothOnce (not_bothOnce_unifyEndings hboth)]
    rfl
  · obtain ⟨diagnostic, heq⟩ := hmarked.extract_eq
    obtain ⟨diagnostic', heq'⟩ := hmarked.unifyEndings.extract_eq
    have hblank : (trim (unifyEndings front) = [] ∧ trim (unifyEndings back) = []) ↔ trim front = [] ∧ trim back = [] :=
      and_congr trim_unifyEndings_eq_nil_iff trim_unifyEndings_eq_nil_iff
    rw [heq, heq']
    by_cases h : trim front = [] ∧ trim back = []
    · rw [if_pos h, if_pos (hblank.mpr h)]
      rfl
    · rw [if_neg h, if_neg (mt hblank.mp h)]
      simp [unifyEndings_marked]
  · obtain ⟨diagnostic, heq⟩ := hreversed.extract_eq
    obtain ⟨diagnostic', heq'⟩ := hreversed.unifyEndings.extract_eq
    have hgap : unifyEndings gap = [] ↔ gap = [] := by
      refine ⟨fun h => eq_of_unifyEndings_eq h (by simp), fun h => ?_⟩
      rw [h]
      rfl
    rw [heq, heq']
    by_cases h : gap = []
    · rw [if_pos h, if_pos (hgap.mpr h)]
      rfl
    · rw [if_neg h, if_neg (mt hgap.mp h)]
      rfl

end Codrex.MinimaxDelegate
