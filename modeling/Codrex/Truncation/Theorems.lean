import Codrex.Truncation.Truncate

/-!
# The split of a text in one pass
-/

namespace Codrex.Truncation

open Text

/-! ## The three parts -/

theorem longestStart_fittingChars (s : Str) (limit : Nat) : LongestStart s limit (fittingChars s limit) :=
  ⟨fittingChars_starts s limit, byteLen_fittingChars_le s limit, fun _ => starts_fittingChars⟩

theorem LongestStart.reverse {s start : Str} {limit : Nat} (h : LongestStart s.reverse limit start) :
    LongestEnd s limit start.reverse := by
  refine ⟨?_, ?_, fun other hends hfits => ?_⟩
  · rw [← List.reverse_prefix, List.reverse_reverse]
    exact h.starts
  · rw [byteLen_reverse]
    exact h.fits
  · rw [← List.reverse_prefix, List.reverse_reverse]
    apply h.longest
    · exact List.reverse_prefix.mpr hends
    · rw [byteLen_reverse]
      exact hfits

theorem exists_middleOut {s : Str} {budget : Nat} (h : budget < byteLen s) :
    ∃ before middle after, MiddleOut s budget before middle after := by
  have hbefore := longestStart_fittingChars s (budget / 2)
  have hafter := (longestStart_fittingChars s.reverse (budget - budget / 2)).reverse
  generalize fittingChars s (budget / 2) = before at hbefore
  generalize (fittingChars s.reverse (budget - budget / 2)).reverse = after at hafter
  obtain ⟨rest, hrest⟩ := hbefore.starts
  obtain ⟨front, hfront⟩ := hafter.ends
  -- Together the outer parts are shorter than the text, so the last one begins behind the first one.
  have hlength : after.length ≤ rest.length := by
    by_contra hlong
    have hsuffix : rest <:+ after := by
      apply List.suffix_of_suffix_length_le ⟨before, hrest⟩ ⟨front, hfront⟩
      omega
    obtain ⟨more, hmore⟩ := hsuffix
    have hbytes : byteLen s = byteLen before + byteLen rest := by rw [← hrest, byteLen_append]
    have hle : byteLen rest ≤ byteLen after := by
      rw [← hmore, byteLen_append]
      exact Nat.le_add_left _ _
    have hfitsBefore := hbefore.fits
    have hfitsAfter := hafter.fits
    omega
  obtain ⟨middle, hmiddle⟩ : after <:+ rest :=
    List.suffix_of_suffix_length_le ⟨front, hfront⟩ ⟨before, hrest⟩ hlength
  refine ⟨before, middle, after, ?_, hbefore, hafter⟩
  rw [List.append_assoc, hmiddle, hrest]

namespace MiddleOut

variable {s before middle after : Str} {budget : Nat}

/-- The first character behind the first part does not fit. -/
theorem first_over (h : MiddleOut s budget before middle after) {c : Char} {rest : Str} (hmiddle : middle = c :: rest) :
    budget / 2 < byteLen before + c.utf8Size := by
  by_contra hfits
  have hlen : byteLen (before ++ [c]) = byteLen before + c.utf8Size := by simp [byteLen]
  have hlonger := h.before.longest (before ++ [c]) ?_ (by omega)
  · have hlength := hlonger.length_le
    simp only [List.length_append, List.length_singleton] at hlength
    omega
  · rw [h.parts, hmiddle]
    simp

theorem last_over (h : MiddleOut s budget before middle after) {c : Char} {front : Str}
    (hmiddle : middle = front ++ [c]) : budget - budget / 2 < byteLen after + c.utf8Size := by
  by_contra hfits
  have hlen : byteLen (c :: after) = byteLen after + c.utf8Size := by simp [byteLen, Nat.add_comm]
  have hlonger := h.after.longest (c :: after) ?_ (by omega)
  · have hlength := hlonger.length_le
    simp only [List.length_cons] at hlength
    omega
  · rw [h.parts, hmiddle]
    exact ⟨before ++ front, by simp⟩

end MiddleOut

/-! ## The pass -/

section Pass

variable {beginningBytes tailStartTarget : Nat} {state : SplitState} {idx : Nat}

theorem byteLen_cons (c : Char) (s : Str) : byteLen (c :: s) = c.utf8Size + byteLen s := by simp [byteLen]

theorem splitLoop_append (state : SplitState) (idx : Nat) (front rest : Str) :
    splitLoop beginningBytes tailStartTarget state idx (front ++ rest) =
      splitLoop beginningBytes tailStartTarget (splitLoop beginningBytes tailStartTarget state idx front)
        (idx + byteLen front) rest := by
  induction front generalizing state idx with
  | nil => rfl
  | cons c front ih =>
      rw [List.cons_append, splitLoop, splitLoop, ih, byteLen_cons, Nat.add_assoc]

theorem splitLoop_before {before : Str} (hbegin : state.prefixEnd = idx) (hend : idx + byteLen before ≤ beginningBytes) :
    splitLoop beginningBytes tailStartTarget state idx before = { state with prefixEnd := idx + byteLen before } := by
  induction before generalizing state idx with
  | nil =>
      subst hbegin
      rfl
  | cons c before ih =>
      rw [byteLen_cons] at hend
      have hfits : idx + c.utf8Size ≤ beginningBytes := by omega
      have hrest : idx + c.utf8Size + byteLen before ≤ beginningBytes := by omega
      simp only [splitLoop, splitChar]
      rw [if_pos hfits, ih rfl hrest, byteLen_cons, Nat.add_assoc]

theorem splitLoop_middle {middle : Str}
    (hfirst : ∀ c rest, middle = c :: rest → beginningBytes < idx + c.utf8Size)
    (hlast : ∀ front c, middle = front ++ [c] → idx + byteLen front < tailStartTarget) :
    splitLoop beginningBytes tailStartTarget state idx middle =
      { state with removedChars := state.removedChars + middle.length } := by
  induction middle generalizing state idx with
  | nil => rfl
  | cons c middle ih =>
      have hover := hfirst c middle rfl
      have hin : idx < tailStartTarget := by
        obtain ⟨front, last, hsplit⟩ : ∃ front last, c :: middle = front ++ [last] :=
          ⟨_, _, (List.dropLast_concat_getLast (List.cons_ne_nil c middle)).symm⟩
        have := hlast front last hsplit
        omega
      simp only [splitLoop, splitChar]
      rw [if_neg (Nat.not_le.mpr hover), if_neg (Nat.not_le.mpr hin), ih]
      · simp only [List.length_cons, SplitState.mk.injEq, true_and, and_true]
        omega
      · intro d rest hrest
        have := Char.utf8Size_pos d
        omega
      · intro front d hfront
        have := hlast (c :: front) d (by rw [hfront, List.cons_append])
        rw [byteLen_cons] at this
        omega

theorem splitLoop_after {after : Str} (hbegin : beginningBytes ≤ idx) (htarget : tailStartTarget ≤ idx)
    (hstarted : state.suffixStarted = true) : splitLoop beginningBytes tailStartTarget state idx after = state := by
  induction after generalizing idx with
  | nil => rfl
  | cons c after ih =>
      have hc := Char.utf8Size_pos c
      simp only [splitLoop, splitChar]
      rw [if_neg (by omega), if_pos htarget, hstarted]
      exact ih (by omega) (by omega)

end Pass

theorem splitString_eq {s before middle after : Str} {budget : Nat} (h : MiddleOut s budget before middle after)
    (hlong : budget < byteLen s) :
    splitString s (budget / 2) (budget - budget / 2) = (middle.length, before, after) := by
  have hne : s ≠ [] := by
    rintro rfl
    simp [byteLen] at hlong
  have hbytes : byteLen s = byteLen before + byteLen middle + byteLen after := by
    rw [h.parts, byteLen_append, byteLen_append]
  have hfitsBefore := h.before.fits
  have hfitsAfter := h.after.fits
  have htarget : byteLen s - (budget - budget / 2) ≤ byteLen before + byteLen middle := by omega
  have hbegin : budget / 2 ≤ byteLen before + byteLen middle := by omega
  have hstate : splitLoop (budget / 2) (byteLen s - (budget - budget / 2)) ⟨0, byteLen s, 0, false⟩ 0
      (before ++ middle) = ⟨byteLen before, byteLen s, middle.length, false⟩ := by
    have hfront : 0 + byteLen before ≤ budget / 2 := by omega
    rw [splitLoop_append, splitLoop_before rfl hfront, splitLoop_middle]
    · simp
    · intro c rest hmiddle
      have := h.first_over hmiddle
      omega
    · intro front c hmiddle
      have hover := h.last_over hmiddle
      have hfront : byteLen middle = byteLen front + c.utf8Size := by simp [hmiddle, byteLen]
      omega
  have hwhole : splitLoop (budget / 2) (byteLen s - (budget - budget / 2)) ⟨0, byteLen s, 0, false⟩ 0 s =
      ⟨byteLen before, byteLen before + byteLen middle, middle.length, !after.isEmpty⟩ := by
    conv_lhs => rw [h.parts, splitLoop_append, ← h.parts, hstate]
    cases after with
    | nil =>
        have hnil : byteLen [] = 0 := rfl
        simp [splitLoop, hbytes, hnil]
    | cons c after =>
        have hc := Char.utf8Size_pos c
        rw [Nat.zero_add, byteLen_append]
        simp only [splitLoop, splitChar]
        rw [if_neg (by omega), if_pos htarget]
        exact splitLoop_after (by omega) (by omega) rfl
  rw [splitString, if_neg hne]
  simp only [hwhole]
  rw [if_neg (by omega), ← byteLen_append]
  conv_lhs => rw [h.parts, dropBytes_byteLen, List.append_assoc, fittingChars_byteLen]

end Codrex.Truncation

/-!
## Truncation accounts for what it removes
-/

namespace Codrex.Truncation

open Text History

/-! ## Texts -/

theorem MiddleOut.zero {s before middle after : Str} (h : MiddleOut s 0 before middle after) :
    before = [] ∧ middle = s ∧ after = [] := by
  obtain rfl : before = [] := byteLen_eq_zero.mp (Nat.le_zero.mp h.before.fits)
  obtain rfl : after = [] := byteLen_eq_zero.mp (Nat.le_zero.mp h.after.fits)
  refine ⟨rfl, ?_, rfl⟩
  simpa using h.parts.symm

theorem truncateWithByteEstimate_of_lt {s before middle after : Str} {maxBytes : Nat}
    (h : MiddleOut s maxBytes before middle after) (hlong : maxBytes < byteLen s) (useTokens : Bool) :
    truncateWithByteEstimate s maxBytes useTokens =
      before ++ formatTruncationMarker useTokens (removedUnits useTokens (byteLen s - maxBytes) middle.length) ++
        after := by
  have hne : s ≠ [] := by
    rintro rfl
    simp [byteLen] at hlong
  rw [truncateWithByteEstimate, if_neg hne]
  by_cases hzero : maxBytes = 0
  · subst hzero
    obtain ⟨rfl, rfl, rfl⟩ := h.zero
    simp
  · simp only [if_neg hzero, if_neg (Nat.not_le.mpr hlong), splitBudget, splitString_eq h hlong,
      assembleTruncatedOutput]

theorem formatTruncationMarker_ne_nil (useTokens : Bool) (removedCount : Nat) :
    formatTruncationMarker useTokens removedCount ≠ [] := by
  cases useTokens with
  | false => simp [formatTruncationMarker]
  | true => simp [formatTruncationMarker]

theorem truncateWithByteEstimate_ne_nil {s : Str} {maxBytes : Nat} (hlong : maxBytes < byteLen s) (useTokens : Bool) :
    truncateWithByteEstimate s maxBytes useTokens ≠ [] := by
  obtain ⟨before, middle, after, h⟩ := exists_middleOut hlong
  rw [truncateWithByteEstimate_of_lt h hlong]
  simp [formatTruncationMarker_ne_nil]

theorem truncateText_tokens {text : Str} {remaining : Nat} (h : remaining < approxTokenCount text) :
    approxBytesForTokens remaining < byteLen text ∧
      truncateText text (.tokens remaining) = truncateWithByteEstimate text (approxBytesForTokens remaining) true := by
  have hlong : approxBytesForTokens remaining < byteLen text := by
    simp only [approxTokenCount, approxBytesPerToken] at h
    simp only [approxBytesForTokens, approxBytesPerToken]
    omega
  have hne : text ≠ [] := by
    rintro rfl
    simp [byteLen] at hlong
  refine ⟨hlong, ?_⟩
  rw [truncateText, truncateMiddleWithTokenBudget, if_neg hne,
    if_neg fun hfits => absurd hfits.2 (Nat.not_le.mpr hlong)]
  simp only
  split
  · rfl
  · rfl

/-! ## Items -/

section Items

variable {policy : TruncationPolicy}

@[simp] theorem spent_nil : spent policy [] = 0 := rfl

@[simp] theorem spent_append (items more : List FunctionCallOutputContentItem) :
    spent policy (items ++ more) = spent policy items + spent policy more := by
  simp [spent]

@[simp] theorem spent_text (text : Str) : spent policy [.inputText text] = textCost policy text := by
  simp [spent, itemCost]

@[simp] theorem spent_image (imageUrl : Str) (detail : Option ImageDetail) :
    spent policy [.inputImage imageUrl detail] = 0 := by
  simp [spent, itemCost]

/-- A text that costs more than is left is cut, and the mark of the cut stays. -/
theorem truncateText_ne_nil {text : Str} {remaining : Nat} (h : remaining < textCost policy text) :
    truncateText text (snippetPolicy policy remaining) ≠ [] := by
  cases policy with
  | bytes limit => exact truncateWithByteEstimate_ne_nil h false
  | tokens limit =>
      obtain ⟨hlong, hsnippet⟩ := truncateText_tokens h
      rw [snippetPolicy, hsnippet]
      exact truncateWithByteEstimate_ne_nil hlong true

/-- Behind the end of the budget only images are kept. -/
theorem foldl_truncateItem_zero (out items : List FunctionCallOutputContentItem) (omitted : Nat) :
    items.foldl (truncateItem policy) ⟨out, 0, omitted⟩ = ⟨out ++ images items, 0, omitted + textCount items⟩ := by
  induction items generalizing out omitted with
  | nil => simp [images, textCount]
  | cons item items ih =>
      cases item with
      | inputText text =>
          have hcount : textCount (.inputText text :: items) = textCount items + 1 := List.countP_cons_of_pos rfl
          rw [List.foldl_cons, truncateItem, if_pos rfl, ih, hcount, Nat.add_right_comm, Nat.add_assoc]
          simp [images, isText]
      | inputImage imageUrl detail =>
          rw [List.foldl_cons, truncateItem, ih]
          simp [images, textCount, isText]

def ItemsState.finish (state : ItemsState) : List FunctionCallOutputContentItem :=
  state.out ++ report state.omittedTextItems

theorem afforded_nil : Afforded policy [] := by
  refine ⟨Nat.zero_le _, ?_⟩
  intro front text rest hsplit
  cases front with
  | nil => cases hsplit
  | cons item front => cases hsplit

theorem Afforded.concat {kept : List FunctionCallOutputContentItem} {item : FunctionCallOutputContentItem}
    (h : Afforded policy kept) (hwithin : spent policy (kept ++ [item]) ≤ budget policy)
    (hleft : isText item = true → spent policy kept < budget policy) : Afforded policy (kept ++ [item]) := by
  refine ⟨hwithin, ?_⟩
  intro front text rest hsplit
  rcases List.eq_nil_or_concat rest with rfl | ⟨more, last, rfl⟩
  · obtain ⟨rfl, hitem⟩ := List.append_inj' hsplit rfl
    exact hleft (by rw [List.singleton_inj.mp hitem]; rfl)
  · rw [List.concat_eq_append, ← List.cons_append, ← List.append_assoc] at hsplit
    exact h.left front text more (List.append_inj_left' hsplit rfl)

theorem keeps_foldl (kept rest : List FunctionCallOutputContentItem) (h : Afforded policy kept) :
    Keeps policy (kept ++ rest)
      (rest.foldl (truncateItem policy) ⟨kept, budget policy - spent policy kept, 0⟩).finish := by
  induction rest generalizing kept with
  | nil =>
      simp only [List.append_nil, List.foldl_nil, ItemsState.finish, report, if_true]
      exact .all h
  | cons item rest ih =>
      cases item with
      | inputImage imageUrl detail =>
          have hspent : spent policy (kept ++ [.inputImage imageUrl detail]) = spent policy kept := by simp
          have hrest := ih (kept ++ [.inputImage imageUrl detail])
            (h.concat (by rw [hspent]; exact h.within) fun htext => by cases htext)
          rw [hspent, ← List.append_cons] at hrest
          exact hrest
      | inputText text =>
          rw [List.foldl_cons, truncateItem]
          by_cases hzero : budget policy - spent policy kept = 0
          · rw [if_pos hzero, hzero, foldl_truncateItem_zero]
            have husedUp : spent policy kept = budget policy :=
              Nat.le_antisymm h.within (Nat.le_of_sub_eq_zero hzero)
            simpa [ItemsState.finish, Nat.add_comm] using Keeps.usedUp h husedUp
          · simp only [if_neg hzero]
            by_cases hcost : textCost policy text ≤ budget policy - spent policy kept
            · have hspent : spent policy (kept ++ [.inputText text]) = spent policy kept + textCost policy text := by simp
              have hrest := ih (kept ++ [.inputText text]) (h.concat (by omega) fun _ => by omega)
              rw [hspent, ← Nat.sub_sub, ← List.append_cons] at hrest
              rw [if_pos hcost]
              exact hrest
            · have hsnippet := truncateText_ne_nil (Nat.not_le.mp hcost)
              have hcut : Keeps policy (kept ++ .inputText text :: rest) _ := .cut h (by omega) (by omega)
              rw [if_neg hcost, if_neg (by simpa using hsnippet), foldl_truncateItem_zero]
              simpa [ItemsState.finish] using hcut

theorem ItemsState.finish_eq (state : ItemsState) :
    (if 0 < state.omittedTextItems then
      state.out ++
        [.inputText ("[omitted ".toList ++ (Nat.repr state.omittedTextItems).toList ++ " text items ...]".toList)]
      else state.out) = state.finish := by
  rw [finish, report]
  by_cases h : state.omittedTextItems = 0
  · rw [if_neg (by omega), if_pos h, List.append_nil]
  · rw [if_pos (Nat.pos_of_ne_zero h), if_neg h]

theorem truncateFunctionOutputItemsWithPolicy_eq (items : List FunctionCallOutputContentItem) (policy : TruncationPolicy) :
    truncateFunctionOutputItemsWithPolicy items policy =
      (items.foldl (truncateItem policy) ⟨[], budget policy, 0⟩).finish := by
  cases policy with
  | bytes limit => exact ItemsState.finish_eq _
  | tokens limit => exact ItemsState.finish_eq _

theorem images_report (dropped : Nat) : images (report dropped) = [] := by
  rw [report]
  split
  · rfl
  · rfl

theorem Keeps.images_eq {items out : List FunctionCallOutputContentItem} (h : Keeps policy items out) :
    images out = images items := by
  have hagain (rest : List FunctionCallOutputContentItem) : images (images rest) = images rest := by
    simp [images]
  have happend (front rest : List FunctionCallOutputContentItem) : images (front ++ rest) = images front ++ images rest := by
    simp [images]
  have htext (text : Str) (rest : List FunctionCallOutputContentItem) : images (.inputText text :: rest) = images rest := by
    simp [images, isText]
  cases h with
  | all hafforded => rfl
  | usedUp hafforded hspent => simp [happend, hagain, htext, images_report]
  | cut hafforded hleft hover => simp [happend, hagain, htext, images_report]

end Items

/-! ## The two together -/

/-- A text keeps its ends, as much of them as the halves of the budget hold, around the number of the characters that it
lost. A tool output keeps its images, and its texts up to the one that finds the budget used up or too small. -/
theorem truncation_accounts :
    (∀ (s : Str) (maxBytes : Nat),
      if s = [] ∨ byteLen s ≤ maxBytes ∧ 0 < maxBytes then truncateMiddleChars s maxBytes = s
      else ∃ before middle after, MiddleOut s maxBytes before middle after ∧
        truncateMiddleChars s maxBytes = before ++ charsMarker middle.length ++ after) ∧
    ∀ (items : List FunctionCallOutputContentItem) (policy : TruncationPolicy),
      Keeps policy items (truncateFunctionOutputItemsWithPolicy items policy) ∧
        images (truncateFunctionOutputItemsWithPolicy items policy) = images items := by
  constructor
  · intro s maxBytes
    split
    · rename_i hfits
      rcases hfits with rfl | ⟨hle, hpos⟩
      · rfl
      · rw [truncateMiddleChars, truncateWithByteEstimate]
        by_cases hnil : s = []
        · rw [if_pos hnil, hnil]
        · simp only [if_neg hnil, if_neg (Nat.ne_of_gt hpos), if_pos hle]
    · rename_i hover
      have hpos : 0 < byteLen s := Nat.pos_of_ne_zero fun hzero => hover (.inl (byteLen_eq_zero.mp hzero))
      have hlong : maxBytes < byteLen s := by
        by_contra hle
        exact hover (.inr ⟨by omega, by omega⟩)
      obtain ⟨before, middle, after, h⟩ := exists_middleOut hlong
      exact ⟨before, middle, after, h, truncateWithByteEstimate_of_lt h hlong false⟩
  · intro items policy
    have hkeeps : Keeps policy items (truncateFunctionOutputItemsWithPolicy items policy) := by
      rw [truncateFunctionOutputItemsWithPolicy_eq]
      exact keeps_foldl [] items afforded_nil
    exact ⟨hkeeps, hkeeps.images_eq⟩

/-- A text that costs nothing is dropped when there is no budget. -/
theorem free_text_dropped :
    ¬ ∀ (items : List FunctionCallOutputContentItem) (policy : TruncationPolicy),
      spent policy items ≤ budget policy → truncateFunctionOutputItemsWithPolicy items policy = items := by
  intro h
  have hdropped := h [.inputText []] (.bytes 0) (by decide)
  revert hdropped
  decide

end Codrex.Truncation
