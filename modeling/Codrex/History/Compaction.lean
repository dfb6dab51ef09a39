import Codrex.History.Rollout
import Codrex.Truncation.Theorems

/-!
# Compaction (`core/src/compact.rs`)

The newest user messages that fit are kept as they are, the one before them is cut in the middle, and the summary
follows.
-/

namespace Codrex.History

open Text Truncation

/-- `truncate_text` with a number of tokens. -/
def Externals.withTruncation (env : Externals) : Externals :=
  { env with truncateText := fun message tokens => Truncation.truncateText message (.tokens tokens) }

def userTextMessage (message : Str) : ResponseItem := .message none "user" [.inputText message] none

def buildCompactedHistoryWithLimit (env : Externals) (initialContext : List ResponseItem) (userMessages : List Str)
    (summaryText : Str) (maxTokens : Nat) : List ResponseItem :=
  let selectedMessages := (selectMessages env userMessages.reverse maxTokens).reverse
  let summaryText := if summaryText = [] then "(no summary available)".toList else summaryText
  initialContext ++ selectedMessages.map userTextMessage ++ [userTextMessage summaryText]

/-! ## What is to be kept -/

def tokensOf (messages : List Str) : Nat := (messages.map History.approxTokenCount).sum

/-- The budget lasts for the messages, and some of it was left before the oldest of them. -/
def Affordable (maxTokens : Nat) (messages : List Str) : Prop :=
  tokensOf messages ≤ maxTokens ∧ (messages ≠ [] → tokensOf messages.tail < maxTokens)

/-- A start and an end of the message, with a mark for what is left out in between. -/
def CutInTheMiddle (maxTokens : Nat) (message cut : Str) : Prop :=
  ∃ before middle after, MiddleOut message (approxBytesForTokens maxTokens) before middle after ∧
    ∃ removed, cut = before ++ formatTruncationMarker true removed ++ after

/-- The kept messages are the longest run of last ones that the budget lasts for, behind a cut one if some of it is
left. -/
structure KeepsNewest (messages : List Str) (maxTokens : Nat) (cut verbatim : List Str) : Prop where
  run : verbatim <:+ messages
  affordable : Affordable maxTokens verbatim
  longest : ∀ other, other <:+ messages → Affordable maxTokens other → other <:+ verbatim
  none : tokensOf verbatim = maxTokens ∨ verbatim = messages → cut = []
  one : ∀ older next, messages = older ++ next :: verbatim → tokensOf verbatim < maxTokens →
    ∃ text, cut = [text] ∧ CutInTheMiddle (maxTokens - tokensOf verbatim) next text

def isPlainUserMessage (env : Externals) (message : Str) : Bool := !isContextualUserFragment env (.inputText message)

/-! ## The selection -/

theorem tokensOf_append (first second : List Str) : tokensOf (first ++ second) = tokensOf first + tokensOf second := by
  simp [tokensOf]

theorem tokensOf_cons (message : Str) (messages : List Str) :
    tokensOf (message :: messages) = History.approxTokenCount message + tokensOf messages := by
  simp [tokensOf]

theorem tokensOf_reverse (messages : List Str) : tokensOf messages.reverse = tokensOf messages := by
  rw [tokensOf, List.map_reverse, List.sum_reverse, tokensOf]

theorem tokensOf_le_of_suffix {first second : List Str} (h : first <:+ second) : tokensOf first ≤ tokensOf second := by
  obtain ⟨more, rfl⟩ := h
  rw [tokensOf_append]
  exact Nat.le_add_left _ _

/-- The messages are taken from the newest on, until the budget is used up or does not last for the next one. -/
structure Selection (env : Externals) (newest : List Str) (remaining : Nat) (taken rest cut : List Str) : Prop where
  parts : newest = taken ++ rest
  fits : tokensOf taken ≤ remaining
  left : taken ≠ [] → tokensOf taken.dropLast < remaining
  stops : ∀ next older, rest = next :: older → tokensOf taken < remaining →
    remaining - tokensOf taken < History.approxTokenCount next ∧
      cut = [env.truncateText next (remaining - tokensOf taken)]
  whole : tokensOf taken = remaining ∨ rest = [] → cut = []

theorem selectMessages_selection (env : Externals) (newest : List Str) (remaining : Nat) :
    ∃ taken rest cut, selectMessages env newest remaining = taken ++ cut ∧
      Selection env newest remaining taken rest cut := by
  induction newest generalizing remaining with
  | nil => exact ⟨[], [], [], rfl, rfl, Nat.zero_le _, fun h => absurd rfl h, nofun, fun _ => rfl⟩
  | cons message older ih =>
      rw [selectMessages]
      by_cases hzero : remaining = 0
      · subst hzero
        exact ⟨[], message :: older, [], rfl, rfl, Nat.le_refl _, fun h => absurd rfl h,
          fun _ _ _ hlt => absurd hlt (Nat.not_lt_zero _), fun _ => rfl⟩
      · rw [if_neg hzero]
        by_cases hfits : History.approxTokenCount message ≤ remaining
        · obtain ⟨taken, rest, cut, hselect, hselection⟩ := ih (remaining - History.approxTokenCount message)
          have hpaid := hselection.fits
          refine ⟨message :: taken, rest, cut, ?_, ?_, ?_, ?_, ?_, ?_⟩
          · rw [if_pos hfits, hselect]
            rfl
          · rw [hselection.parts]
            rfl
          · rw [tokensOf_cons]
            omega
          · intro _
            by_cases hnone : taken = []
            · subst hnone
              exact Nat.pos_of_ne_zero hzero
            · have hleft := hselection.left hnone
              rw [List.dropLast_cons_of_ne_nil hnone, tokensOf_cons]
              omega
          · intro next front hrest hlt
            rw [tokensOf_cons] at hlt
            have hstops := hselection.stops next front hrest (by omega)
            rwa [tokensOf_cons, Nat.sub_add_eq]
          · intro hend
            apply hselection.whole
            rw [tokensOf_cons] at hend
            exact hend.imp_left fun heq => by omega
        · refine ⟨[], message :: older, [env.truncateText message remaining], ?_, rfl, Nat.zero_le _,
            fun h => absurd rfl h, ?_, ?_⟩
          · rw [if_neg hfits]
            rfl
          · rintro _ _ ⟨rfl, rfl⟩ _
            exact ⟨Nat.lt_of_not_le hfits, rfl⟩
          · rintro (heq | hnone)
            · exact absurd heq.symm hzero
            · cases hnone

theorem cutInTheMiddle_truncateText {message : Str} {remaining : Nat} (h : remaining < History.approxTokenCount message) :
    CutInTheMiddle remaining message (Truncation.truncateText message (.tokens remaining)) := by
  obtain ⟨hlong, heq⟩ := truncateText_tokens h
  obtain ⟨before, middle, after, hmiddle⟩ := exists_middleOut hlong
  exact ⟨before, middle, after, hmiddle, _, heq.trans (truncateWithByteEstimate_of_lt hmiddle hlong true)⟩

theorem keepsNewest_selection {env : Externals} {messages : List Str} {maxTokens : Nat} {taken rest cut : List Str}
    (h : Selection env.withTruncation messages.reverse maxTokens taken rest cut) :
    KeepsNewest messages maxTokens cut.reverse taken.reverse := by
  have hparts : messages = rest.reverse ++ taken.reverse := by
    rw [← List.reverse_append, ← h.parts, List.reverse_reverse]
  refine ⟨⟨rest.reverse, hparts.symm⟩, ⟨?_, ?_⟩, ?_, ?_, ?_⟩
  · rw [tokensOf_reverse]
    exact h.fits
  · intro hne
    rw [List.tail_reverse, tokensOf_reverse]
    exact h.left fun hnil => hne (by rw [hnil]; rfl)
  · rintro other ⟨oldest, hother⟩ ⟨hfits, hleft⟩
    rcases List.suffix_or_suffix_of_suffix ⟨oldest, hother⟩ ⟨_, hparts.symm⟩ with hshort | ⟨more, hmore⟩
    · exact hshort
    -- a longer run has the message in front of the kept ones, which was not taken
    rcases List.eq_nil_or_concat more with rfl | ⟨front, next, rfl⟩
    · rw [← hmore]
      exact List.suffix_refl _
    exfalso
    have hrest : rest = next :: (front.reverse ++ oldest.reverse) := by
      rw [hparts, ← hmore, ← List.append_assoc] at hother
      rw [← List.reverse_reverse rest, ← List.append_cancel_right hother]
      simp
    have hmoreTokens : tokensOf other = tokensOf front + (History.approxTokenCount next + tokensOf taken) := by
      rw [← hmore, List.concat_eq_append, List.append_assoc, tokensOf_append, List.singleton_append, tokensOf_cons,
        tokensOf_reverse]
    rcases Nat.lt_or_eq_of_le h.fits with hlt | heq
    · have hstops := (h.stops next _ hrest hlt).1
      omega
    · have hne : other ≠ [] := by
        rw [← hmore]
        simp
      have htail : taken.reverse <:+ other.tail := by
        rw [← hmore, List.concat_eq_append, List.append_assoc]
        cases front with
        | nil => exact List.suffix_refl _
        | cons first front => exact (List.suffix_cons next _).trans (List.suffix_append _ _)
      have hle := tokensOf_le_of_suffix htail
      rw [tokensOf_reverse, heq] at hle
      exact absurd (hleft hne) (Nat.not_lt.mpr hle)
  · intro hend
    rw [List.reverse_eq_nil_iff]
    apply h.whole
    rw [tokensOf_reverse] at hend
    refine hend.imp_right fun hall => ?_
    rw [hall] at hparts
    exact List.reverse_eq_nil_iff.mp (List.self_eq_append_left.mp hparts)
  · intro older next hmessages hlt
    rw [tokensOf_reverse] at hlt ⊢
    have hrest : rest = next :: older.reverse := by
      rw [hparts, ← List.singleton_append, ← List.append_assoc] at hmessages
      rw [← List.reverse_reverse rest, List.append_cancel_right hmessages]
      simp
    obtain ⟨hlong, hcut⟩ := h.stops next _ hrest hlt
    exact ⟨_, by rw [hcut]; rfl, cutInTheMiddle_truncateText hlong⟩

/-! ## What later compactions find -/

section

variable {env : Externals}

theorem collectUserMessages_append (first second : List ResponseItem) :
    collectUserMessages env (first ++ second) = collectUserMessages env first ++ collectUserMessages env second :=
  List.filterMap_append

theorem parseUserTurnItem_userTextMessage (message : Str) : parseUserTurnItem env (userTextMessage message) =
    if isPlainUserMessage env message then some [.text message] else none := by
  have hinputs : userInputs [.inputText message] = [.text message] := by simp [userInputs]
  have hcontent : isContextualUserMessageContent env [.inputText message] =
      isContextualUserFragment env (.inputText message) := by simp [isContextualUserMessageContent]
  rw [userTextMessage, parseUserTurnItem, if_pos rfl, parseUserMessage, hinputs, hcontent, isPlainUserMessage]
  cases hplain : isContextualUserFragment env (.inputText message) with
  | true => simp
  | false =>
      have hhook : isVisibleHookPromptMessage env [.inputText message] = false := by
        simp only [isContextualUserFragment, Bool.or_eq_false_iff] at hplain
        simp [isVisibleHookPromptMessage, hplain.1]
      simp [hhook]

/-- Of the messages that are kept those are found again that are plain and no summaries. -/
theorem collectUserMessages_userTextMessages (messages : List Str) :
    collectUserMessages env (messages.map userTextMessage) =
      messages.filter fun message => isPlainUserMessage env message && !isSummaryMessage message := by
  have htext (message : Str) : userMessageText [.text message] = message := by simp [userMessageText]
  induction messages with
  | nil => rfl
  | cons message messages ih =>
      rw [List.map_cons, ← List.singleton_append, collectUserMessages_append, ih, List.filter_cons]
      simp only [collectUserMessages, List.filterMap_cons, List.filterMap_nil, parseUserTurnItem_userTextMessage]
      cases hplain : isPlainUserMessage env message with
      | false => simp
      | true =>
          cases hsummary : isSummaryMessage message with
          | true => simp [htext, hsummary]
          | false => simp [htext, hsummary]

theorem starts_of_starts_append {start before rest : Str} {c : Char} (hmem : c ∉ start)
    (h : start <+: before ++ c :: rest) : start <+: before := by
  refine List.prefix_of_prefix_length_le h (List.prefix_append _ _) ?_
  by_contra hlong
  have hat := List.IsPrefix.getElem h (Nat.lt_of_not_le hlong)
  rw [List.getElem_append_right (Nat.le_refl _)] at hat
  simp only [Nat.sub_self, List.getElem_cons_zero] at hat
  exact hmem (hat ▸ List.getElem_mem _)

set_option maxRecDepth 4096 in
theorem noMark_summaryPrefix : '…' ∉ summaryPrefix := not_mem_literal (by decide)

set_option maxRecDepth 4096 in
theorem summaryPrefix_starts : ∃ rest, summaryPrefix = 'A' :: rest := ⟨_, literal_cons⟩

theorem not_summary_of_ne {c : Char} (hne : c ≠ 'A') (message : Str) : isSummaryMessage (c :: message) = false := by
  obtain ⟨rest, hrest⟩ := summaryPrefix_starts
  simp [isSummaryMessage, hrest, List.isPrefixOf, Ne.symm hne]

/-- A cut message is a summary only if the whole message is one. -/
theorem not_summary_of_cut {maxTokens : Nat} {message cut : Str} (hcut : CutInTheMiddle maxTokens message cut)
    (h : isSummaryMessage message = false) : isSummaryMessage cut = false := by
  obtain ⟨before, middle, after, hmiddle, removed, rfl⟩ := hcut
  rw [Bool.eq_false_iff] at h ⊢
  intro hsummary
  apply h
  rw [isSummaryMessage, List.isPrefixOf_iff_prefix] at hsummary ⊢
  have hmark : '…' ∉ summaryPrefix ++ ['\n'] := by simp [noMark_summaryPrefix]
  have hbefore : summaryPrefix ++ ['\n'] <+: before := by
    apply starts_of_starts_append hmark
    rw [List.append_assoc] at hsummary
    exact hsummary
  rw [hmiddle.parts, List.append_assoc]
  exact hbefore.trans (List.prefix_append _ _)

end

/-! ## The compacted history -/

theorem approxTokenCount_pos {message : Str} (h : message ≠ []) : 0 < History.approxTokenCount message := by
  have hbytes : 0 < byteLen message := Nat.pos_of_ne_zero fun hzero => h (byteLen_eq_zero.mp hzero)
  rw [History.approxTokenCount]
  omega

/-- Without empty messages a run is affordable as soon as its sum is. -/
theorem affordable_of_nonempty {messages : List Str} {maxTokens : Nat} (hnonempty : ∀ message ∈ messages, message ≠ [])
    (h : tokensOf messages ≤ maxTokens) : Affordable maxTokens messages := by
  refine ⟨h, fun hne => ?_⟩
  obtain ⟨message, rest, rfl⟩ := List.exists_cons_of_ne_nil hne
  have hpos := approxTokenCount_pos (hnonempty message List.mem_cons_self)
  rw [tokensOf_cons] at h
  rw [List.tail_cons]
  omega

/-- The history in its parts, and the user messages that a later compaction finds in it. -/
structure CompactedTo (env : Externals) (initialContext : List ResponseItem) (messages : List Str) (summary : Str)
    (maxTokens : Nat) (cut verbatim : List Str) (history : List ResponseItem) : Prop where
  parts : history = initialContext ++ (cut ++ verbatim).map userTextMessage ++ [userTextMessage summary]
  keeps : KeepsNewest messages maxTokens cut verbatim
  longest : (∀ message ∈ messages, message ≠ []) → ∀ other, other <:+ messages → tokensOf other ≤ maxTokens →
    other <:+ verbatim
  found : isSummaryMessage summary = true → collectUserMessages env history =
    collectUserMessages env initialContext ++
      (cut ++ verbatim).filter fun message => isPlainUserMessage env message && !isSummaryMessage message
  noSummary : (∀ message ∈ messages, isSummaryMessage message = false) →
    ∀ message ∈ cut ++ verbatim, isSummaryMessage message = false

theorem KeepsNewest.not_summary {messages cut verbatim : List Str} {maxTokens : Nat}
    (h : KeepsNewest messages maxTokens cut verbatim) (hmessages : ∀ message ∈ messages, isSummaryMessage message = false) :
    ∀ message ∈ cut ++ verbatim, isSummaryMessage message = false := by
  obtain ⟨older, holder⟩ := h.run
  intro message hmem
  rcases List.mem_append.mp hmem with hcut | hverbatim
  · rcases List.eq_nil_or_concat older with rfl | ⟨front, next, rfl⟩
    · rw [h.none (.inr holder)] at hcut
      cases hcut
    · rcases Nat.lt_or_eq_of_le h.affordable.1 with hlt | heq
      · rw [List.concat_eq_append, List.append_assoc] at holder
        obtain ⟨text, hone, hmiddle⟩ := h.one front next holder.symm hlt
        rw [hone] at hcut
        obtain rfl := List.mem_singleton.mp hcut
        exact not_summary_of_cut hmiddle (hmessages next (by rw [← holder]; simp))
      · rw [h.none (.inl heq)] at hcut
        cases hcut
  · exact hmessages message (h.run.subset hverbatim)

/-- Compaction keeps the newest messages that the budget lasts for, at most one cut message in front of them, and the
summary behind them, which is no user message for later compactions. -/
theorem compaction_keepsNewest (env : Externals) (initialContext : List ResponseItem) (messages : List Str)
    (summary : Str) (maxTokens : Nat) (hsummary : summary ≠ []) :
    ∃ cut verbatim, CompactedTo env.withTruncation initialContext messages summary maxTokens cut verbatim
      (buildCompactedHistoryWithLimit env.withTruncation initialContext messages summary maxTokens) := by
  obtain ⟨taken, rest, cut, hselect, hselection⟩ :=
    selectMessages_selection env.withTruncation messages.reverse maxTokens
  have hkeeps := keepsNewest_selection hselection
  have hparts : buildCompactedHistoryWithLimit env.withTruncation initialContext messages summary maxTokens =
      initialContext ++ (cut.reverse ++ taken.reverse).map userTextMessage ++ [userTextMessage summary] := by
    simp only [buildCompactedHistoryWithLimit, hselect, List.reverse_append, if_neg hsummary]
  refine ⟨cut.reverse, taken.reverse, hparts, hkeeps, ?_, ?_, hkeeps.not_summary⟩
  · intro hnonempty other hother hfits
    have hothers : ∀ message ∈ other, message ≠ [] := fun message hmem => hnonempty message (hother.subset hmem)
    exact hkeeps.longest other hother (affordable_of_nonempty hothers hfits)
  · intro hmarked
    have hlast : collectUserMessages env.withTruncation [userTextMessage summary] = [] := by
      have hcollect := @collectUserMessages_userTextMessages env.withTruncation [summary]
      simpa [hmarked] using hcollect
    rw [hparts, collectUserMessages_append, collectUserMessages_append, collectUserMessages_userTextMessages, hlast,
      List.append_nil]

def noExternals : Externals := ⟨fun _ => false, fun _ => false, id, fun text _ => text⟩

theorem oldest_cut : ∃ cut verbatim,
    CompactedTo noExternals.withTruncation [] ["aaaaaaaaaaaaaaaaaaaaaaaaaaaaaaaaaaaaaaaa", "bbbb"]
      (summaryPrefix ++ "\ndone".toList) 2 cut verbatim
      (buildCompactedHistoryWithLimit noExternals.withTruncation []
        ["aaaaaaaaaaaaaaaaaaaaaaaaaaaaaaaaaaaaaaaa", "bbbb"] (summaryPrefix ++ "\ndone".toList) 2) :=
  compaction_keepsNewest noExternals [] _ _ 2 (by simp)

/-- The empty message costs nothing, and is not kept once the budget is used up. A summary without the mark of one is
found as a user message. -/
theorem empty_not_kept :
    buildCompactedHistoryWithLimit noExternals.withTruncation [] [[], "bbbb"] "done" 1 =
        [userTextMessage "bbbb", userTextMessage "done"] ∧
      tokensOf [[], "bbbb"] ≤ 1 ∧
      collectUserMessages noExternals.withTruncation [userTextMessage "bbbb", userTextMessage "done"] =
        ["bbbb", "done"] := by
  refine ⟨by decide, by decide, ?_⟩
  have hfound := @collectUserMessages_userTextMessages noExternals.withTruncation ["bbbb", "done"]
  rw [List.filter_eq_self.mpr] at hfound
  · exact hfound
  · have hplain : ∀ message ∈ [("bbbb" : Str), "done"], isPlainUserMessage noExternals.withTruncation message = true := by
      decide
    intro message hmem
    have hsummary : isSummaryMessage message = false := by
      simp only [List.mem_cons, List.not_mem_nil, or_false] at hmem
      rcases hmem with rfl | rfl
      · exact not_summary_of_ne (by decide) ['b', 'b', 'b']
      · exact not_summary_of_ne (by decide) ['o', 'n', 'e']
    rw [hplain message hmem, hsummary]
    rfl

end Codrex.History
