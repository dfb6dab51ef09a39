import Codrex.Composer.Lemmas.Edits

/-!
# Completing an `@` token (`tui/src/bottom_pane/chat_composer.rs`)

The token is looked for to the left and to the right of the cursor, and the path is put in the place of the word around
it. A function that slices gives `none` where the slice panics.
-/

namespace Codrex.Composer

open Text

/-! ## The token -/

def clampToCharBoundary (text : Str) (pos : Nat) : Nat :=
  let p := min pos (byteLen text)
  if p < byteLen text ∧ ¬ Boundary text p then TextArea.prevCharBoundary text p else p

/-- Behind the last white space, or 0. -/
def behindWhitespace (before : Str) : Nat := byteLen (before.rdropWhile fun c => !isWhitespace c)

/-- In front of the first white space, or at the end. -/
def frontOfWhitespace (after : Str) : Nat := byteLen (after.takeWhile fun c => !isWhitespace c)

/-- The text of a candidate, if it has any, with its start. -/
def candidate (text : Str) (start stop : Nat) : Option (Option (Nat × Str)) :=
  if start < stop then (slice text start stop).map fun token => some (start, token) else some none

/-- What `current_prefixed_token` returns, with the start of the candidate that it returns. -/
def findPrefixedToken (area : TextArea) (prefixChar : Char) (allowEmpty : Bool) : Option (Option (Nat × Str)) := do
  let text := area.text
  let safeCursor := clampToCharBoundary text area.cursorPos
  let (beforeCursor, afterCursor) ← splitAtByte text safeCursor
  let atWhitespace := afterCursor.head?.any isWhitespace
  let tokenLeft ← candidate text (behindWhitespace beforeCursor) (safeCursor + frontOfWhitespace afterCursor)
  let startRight := safeCursor + byteLen (afterCursor.takeWhile isWhitespace)
  let (_, fromRight) ← splitAtByte text startRight
  let tokenRight ← candidate text startRight (startRight + frontOfWhitespace fromRight)
  let leftMatch := tokenLeft.filter fun (_, token) => token.head? = some prefixChar
  let rightMatch := tokenRight.filter fun (_, token) => token.head? = some prefixChar
  let leftPrefixed := leftMatch.map fun (idx, token) => (idx, token.tail)
  let rightPrefixed := rightMatch.map fun (idx, token) => (idx, token.tail)
  return if atWhitespace then
      if rightPrefixed.isSome then rightPrefixed
      else if tokenLeft.any fun (_, token) => token = [prefixChar] then
        if allowEmpty then some (behindWhitespace beforeCursor, []) else none
      else leftPrefixed
    else if afterCursor.head? = some prefixChar then
      if beforeCursor.getLast?.all isWhitespace then rightPrefixed <|> leftPrefixed else leftPrefixed
    else leftPrefixed <|> rightPrefixed

def currentPrefixedToken (area : TextArea) (prefixChar : Char) (allowEmpty : Bool) : Option (Option Str) :=
  (findPrefixedToken area prefixChar allowEmpty).map (Option.map Prod.snd)

def currentAtToken (area : TextArea) : Option (Option Str) := currentPrefixedToken area '@' false

/-! ## The replacement -/

/-- The path, in quotes where it has white space. -/
def insertedPath (path : Str) : Str :=
  let needsQuotes := path.any isWhitespace
  if needsQuotes ∧ '"' ∉ path then '"' :: path ++ ['"'] else path

def insertSelectedPath (area : TextArea) (path : Str) : Option TextArea := do
  let text := area.text
  let safeCursor := clampToCharBoundary text area.cursorPos
  let (beforeCursor, afterCursor) ← splitAtByte text safeCursor
  let startIdx := behindWhitespace beforeCursor
  let endIdx := safeCursor + frontOfWhitespace afterCursor
  let inserted := insertedPath path
  let area ← area.replaceRange ⟨startIdx, endIdx⟩ (inserted ++ [' '])
  return area.setCursor (startIdx + byteLen inserted + 1)

/-! ## Words -/

/-- A word with no white space around it but at its ends. -/
structure Word (text before word after : Str) : Prop where
  text : text = before ++ word ++ after
  word : ∀ c ∈ word, isWhitespace c = false
  before : ∀ c ∈ before.getLast?, isWhitespace c = true
  after : ∀ c ∈ after.head?, isWhitespace c = true

/-- What is replaced: the word around the cursor. -/
def wordSpan (front back : Str) : Span :=
  ⟨behindWhitespace front, byteLen front + frontOfWhitespace back⟩

/-- The cursor stands in front of white space, and the next word starts with `@`. -/
def NextWord (back : Str) : Prop := back.head?.any isWhitespace ∧ (back.dropWhile isWhitespace).head? = some '@'

/-- The cursor is not between words with the token in the next one, and the word around it cuts no element. -/
def Aimed (area : TextArea) : Prop :=
  ∃ front back, area.text = front ++ back ∧ byteLen front = area.cursorPos ∧ ¬ NextWord back ∧
    ∀ e ∈ area.elements, Span.Whole (wordSpan front back) e.range

variable {area : TextArea} {text front back before after word token path : Str} {start stop : Nat}

theorem exists_wordSpan (front back : Str) : ∃ before word after, Word (front ++ back) before word after ∧
    wordSpan front back = ⟨byteLen before, byteLen (before ++ word)⟩ ∧ before <+: front ∧ front <+: before ++ word := by
  have hfront : (front.rdropWhile fun c => !isWhitespace c) ++ (front.rtakeWhile fun c => !isWhitespace c) = front :=
    List.rdropWhile_append_rtakeWhile
  have hback := List.takeWhile_append_dropWhile (p := fun c => !isWhitespace c) (l := back)
  refine ⟨front.rdropWhile fun c => !isWhitespace c, (front.rtakeWhile fun c => !isWhitespace c) ++
    back.takeWhile fun c => !isWhitespace c, back.dropWhile fun c => !isWhitespace c, ⟨?_, ?_, ?_, ?_⟩, ?_, ?_, ?_⟩
  · rw [← List.append_assoc, hfront, List.append_assoc, hback]
  · intro c hc
    rcases List.mem_append.mp hc with hc | hc
    · simpa using List.mem_rtakeWhile_imp hc
    · simpa using List.mem_takeWhile_imp hc
  · intro c hc
    obtain ⟨hne, rfl⟩ := List.mem_getLast?_eq_getLast hc
    simpa using List.rdropWhile_last_not _ _ hne
  · intro c hc
    have hnot := List.head?_dropWhile_not (fun c => !isWhitespace c) back
    rw [Option.mem_def.mp hc] at hnot
    simpa using hnot
  · rw [← List.append_assoc, hfront, byteLen_append]
    rfl
  · exact List.rdropWhile_prefix _ _
  · rw [← List.append_assoc, hfront]
    exact List.prefix_append _ _

/-! ## The token that is found -/

def candidateOf (start : Nat) (token : Str) : Option (Nat × Str) := if token = [] then none else some (start, token)

theorem candidate_eq (before token after : Str) :
    candidate (before ++ token ++ after) (byteLen before) (byteLen (before ++ token)) =
      some (candidateOf (byteLen before) token) := by
  rw [candidate, candidateOf]
  by_cases hnil : token = []
  · rw [hnil, List.append_nil, if_neg (Nat.lt_irrefl _), if_pos rfl]
  · have hpos : byteLen token ≠ 0 := fun hzero => hnil (byteLen_eq_zero.mp hzero)
    rw [if_pos (by rw [byteLen_append]; omega), slice_append, if_neg hnil]
    rfl

theorem clampToCharBoundary_eq (front back : Str) : clampToCharBoundary (front ++ back) (byteLen front) = byteLen front := by
  have hle : byteLen front ≤ byteLen (front ++ back) := byteLen_le_of_starts (List.prefix_append _ _)
  simp only [clampToCharBoundary, Nat.min_eq_left hle]
  rw [if_neg fun h => h.2 (boundary_append front back)]

/-- The text behind the cursor: white space, a token and what is behind it. -/
theorem exists_nextWord (back : Str) : ∃ token after, back = back.takeWhile isWhitespace ++ token ++ after ∧
    token ++ after = back.dropWhile isWhitespace ∧ frontOfWhitespace (token ++ after) = byteLen token ∧
    (∀ c ∈ token, isWhitespace c = false) ∧ (∀ c ∈ after.head?, isWhitespace c = true) ∧
    (token.head? = some '@' ↔ (back.dropWhile isWhitespace).head? = some '@') := by
  have hback := List.takeWhile_append_dropWhile (p := isWhitespace) (l := back)
  have hrest := List.takeWhile_append_dropWhile (p := fun c => !isWhitespace c) (l := back.dropWhile isWhitespace)
  refine ⟨(back.dropWhile isWhitespace).takeWhile fun c => !isWhitespace c,
    (back.dropWhile isWhitespace).dropWhile fun c => !isWhitespace c, ?_, hrest, ?_, ?_, ?_, ?_⟩
  · rw [List.append_assoc, hrest, hback]
  · rw [hrest]
    rfl
  · intro c hc
    simpa using List.mem_takeWhile_imp hc
  · intro c hc
    have hnot := List.head?_dropWhile_not (fun c => !isWhitespace c) (back.dropWhile isWhitespace)
    rw [Option.mem_def.mp hc] at hnot
    simpa using hnot
  · have hfirst := List.head?_dropWhile_not isWhitespace back
    cases hdrop : back.dropWhile isWhitespace with
    | nil => rfl
    | cons c rest =>
        rw [hdrop] at hfirst
        have hc : isWhitespace c = false := by simpa using hfirst
        simp [hc]

theorem candidateOf_prefixed {idx : Nat} {text : Str} (h : ((candidateOf idx text).filter fun found =>
    found.2.head? = some '@').map (fun found => (found.1, found.2.tail)) = some (start, token)) :
    idx = start ∧ text = '@' :: token := by
  obtain ⟨found, hfound, heq⟩ := Option.map_eq_some_iff.mp h
  obtain ⟨hcandidate, hhead⟩ := Option.filter_eq_some_iff.mp hfound
  rw [candidateOf] at hcandidate
  split at hcandidate
  · cases hcandidate
  · cases hcandidate
    cases heq
    simp only [decide_eq_true_eq] at hhead
    exact ⟨rfl, (List.cons_head?_tail hhead).symm⟩

theorem candidateOf_prefixed_isSome {idx : Nat} {text : Str} : (((candidateOf idx text).filter fun found =>
    found.2.head? = some '@').map (fun found => (found.1, found.2.tail))).isSome ↔ text.head? = some '@' := by
  cases text with
  | nil => simp [candidateOf]
  | cons c text => simp [candidateOf, Option.filter]

theorem candidateOf_prefixed_none (idx : Nat) {text : Str} (h : text.head? ≠ some '@') :
    ((candidateOf idx text).filter fun found => found.2.head? = some '@').map
      (fun found => (found.1, found.2.tail)) = none :=
  Option.not_isSome_iff_eq_none.mp fun hsome => h (candidateOf_prefixed_isSome.mp hsome)

theorem takeWhile_word {after : Str} (hword : ∀ c ∈ word, isWhitespace c = false)
    (hafter : ∀ c ∈ after.head?, isWhitespace c = true) :
    ((word ++ after).takeWhile fun c => !isWhitespace c) = word := by
  have hnone : (after.takeWhile fun c => !isWhitespace c) = [] := by
    cases after with
    | nil => rfl
    | cons c after => simp [hafter c rfl]
  rw [List.takeWhile_append_of_pos fun c hc => by simp [hword c hc], hnone, List.append_nil]

theorem word_unique {word' after after' : Str} (h : word ++ after = word' ++ after')
    (hword : ∀ c ∈ word, isWhitespace c = false) (hafter : ∀ c ∈ after.head?, isWhitespace c = true)
    (hword' : ∀ c ∈ word', isWhitespace c = false) (hafter' : ∀ c ∈ after'.head?, isWhitespace c = true) :
    word = word' := by
  rw [← takeWhile_word hword hafter, h, takeWhile_word hword' hafter']

/-- The token is the next word, where the cursor stands in front of white space, or the word around the cursor. -/
theorem found_cases (htext : area.text = front ++ back) (hcursor : byteLen front = area.cursorPos)
    (hfound : findPrefixedToken area '@' false = some (some (start, token))) :
    (NextWord back ∧ ∃ blank after, back = blank ++ '@' :: token ++ after ∧ blank ≠ [] ∧
      (∀ c ∈ blank, isWhitespace c = true) ∧ start = byteLen (front ++ blank) ∧
      (∀ c ∈ '@' :: token, isWhitespace c = false) ∧ ∀ c ∈ after.head?, isWhitespace c = true) ∨
    (¬ NextWord back ∧ ∃ before after, Word area.text before ('@' :: token) after ∧
      wordSpan front back = ⟨byteLen before, byteLen (before ++ '@' :: token)⟩ ∧ start = byteLen before) := by
  obtain ⟨before, word, after, hword, hspan, hbefore, hfront⟩ := exists_wordSpan front back
  obtain ⟨next, rest, hback, hnextRest, hnextLen, hnextWord, hrest, hnext⟩ := exists_nextWord back
  have hleft : candidate area.text (behindWhitespace front) (byteLen front + frontOfWhitespace back) =
      some (candidateOf (byteLen before) word) := by
    have hstart := congrArg Span.start hspan
    have hstop := congrArg Span.stop hspan
    simp only [wordSpan] at hstart hstop
    rw [htext, hword.text, hstart, hstop]
    exact candidate_eq before word after
  have hsplitRight : splitAtByte area.text (byteLen front + byteLen (back.takeWhile isWhitespace)) =
      some (front ++ back.takeWhile isWhitespace, back.dropWhile isWhitespace) := by
    rw [htext, ← byteLen_append]
    refine splitAtByte_eq_some.mpr ⟨?_, rfl⟩
    rw [List.append_assoc, List.takeWhile_append_dropWhile]
  have hright : candidate area.text (byteLen front + byteLen (back.takeWhile isWhitespace))
      (byteLen front + byteLen (back.takeWhile isWhitespace) + frontOfWhitespace (back.dropWhile isWhitespace)) =
      some (candidateOf (byteLen (front ++ back.takeWhile isWhitespace)) next) := by
    have hcut := candidate_eq (front ++ back.takeWhile isWhitespace) next rest
    rw [← hnextRest, hnextLen, htext, ← byteLen_append, ← byteLen_append]
    rwa [List.append_assoc, List.append_assoc front, ← List.append_assoc (back.takeWhile isWhitespace), ← hback] at hcut
  have hsplit : splitAtByte area.text (byteLen front) = some (front, back) := by
    rw [htext]
    exact splitAtByte_append front back
  have hclamp : clampToCharBoundary area.text area.cursorPos = byteLen front := by
    rw [htext, ← hcursor]
    exact clampToCharBoundary_eq front back
  simp only [findPrefixedToken, hclamp, hsplit, hleft, hsplitRight, hright, Option.bind_eq_bind, Option.bind_some,
    Option.pure_def, Option.some.injEq, Bool.false_eq_true, if_false] at hfound
  have hthis (hidx : byteLen before = start) (hsame : word = '@' :: token) (hnot : ¬ NextWord back) :
      ¬ NextWord back ∧ ∃ before after, Word area.text before ('@' :: token) after ∧
        wordSpan front back = ⟨byteLen before, byteLen (before ++ '@' :: token)⟩ ∧ start = byteLen before := by
    subst hsame
    exact ⟨hnot, before, after, htext ▸ hword, hspan, hidx.symm⟩
  split at hfound
  · next hblank =>
      split at hfound
      · next hsome =>
          obtain ⟨hidx, rfl⟩ := candidateOf_prefixed hfound
          refine .inl ⟨⟨hblank, hnext.mp rfl⟩, back.takeWhile isWhitespace, rest, hback, ?_,
            fun c hc => List.mem_takeWhile_imp hc, hidx.symm, hnextWord, hrest⟩
          cases back with
          | nil => cases hblank
          | cons c back =>
              have hc : isWhitespace c = true := hblank
              simp [hc]
      · next hnone =>
          have hnot : ¬ NextWord back := fun h => hnone (candidateOf_prefixed_isSome.mpr (hnext.mpr h.2))
          split at hfound
          · cases hfound
          · obtain ⟨hidx, hsame⟩ := candidateOf_prefixed hfound
            exact .inr (hthis hidx hsame hnot)
  · next hblank =>
      have hnot : ¬ NextWord back := fun h => hblank h.1
      have hnoBlank : back.takeWhile isWhitespace = [] := by
        cases back with
        | nil => rfl
        | cons c back => simpa using hblank
      have hnoDrop : back.dropWhile isWhitespace = back := by
        have hall := List.takeWhile_append_dropWhile (p := isWhitespace) (l := back)
        rwa [hnoBlank, List.nil_append] at hall
      refine .inr ?_
      split at hfound
      · split at hfound
        · next hstarts =>
            -- the cursor stands at the start of the word, and both candidates are this word
            obtain ⟨held, rfl⟩ := hbefore
            have hheld : held = [] := by
              have hwithin : held <+: word := (List.prefix_append_right_inj before).mp hfront
              rcases List.eq_nil_or_concat held with hnil | ⟨held, c, rfl⟩
              · exact hnil
              · rw [List.concat_eq_append, ← List.append_assoc, List.getLast?_concat] at hstarts
                have hc := hword.word c (hwithin.subset (by simp))
                rw [Option.all_some, hc] at hstarts
                cases hstarts
            subst hheld
            have hwords : back = word ++ after := by
              have hwhole := hword.text
              rwa [List.append_nil, List.append_assoc, List.append_cancel_left_eq] at hwhole
            have hsameWord : word = next := by
              refine word_unique ?_ hword.word hword.after hnextWord hrest
              rw [← hwords, hnextRest, hnoDrop]
            rw [hnoBlank, List.append_nil, List.append_nil, ← hsameWord] at hfound
            obtain ⟨hidx, hsame⟩ : byteLen before = start ∧ word = '@' :: token := by
              refine candidateOf_prefixed ?_
              rw [← hfound]
              cases Option.map _ _ <;> rfl
            exact hthis hidx hsame hnot
        · obtain ⟨hidx, hsame⟩ := candidateOf_prefixed hfound
          exact hthis hidx hsame hnot
      · next hother =>
          have hnone : ¬ (back.dropWhile isWhitespace).head? = some '@' := by rwa [hnoDrop]
          rw [candidateOf_prefixed_none _ fun h => hnone (hnext.mp h)] at hfound
          simp only [Option.orElse_eq_orElse, Option.orElse_eq_or, Option.or_none] at hfound
          obtain ⟨hidx, hsame⟩ := candidateOf_prefixed hfound
          exact hthis hidx hsame hnot

/-! ## The replacement -/

theorem wordSpan_boundaries (htext : area.text = front ++ back) : Boundary area.text (wordSpan front back).start ∧
    Boundary area.text (wordSpan front back).stop ∧ (wordSpan front back).start ≤ (wordSpan front back).stop := by
  obtain ⟨before, word, after, hword, hspan, -, -⟩ := exists_wordSpan front back
  rw [htext, hspan, hword.text]
  refine ⟨?_, boundary_append _ _, byteLen_le_of_starts (List.prefix_append _ _)⟩
  rw [List.append_assoc]
  exact boundary_append _ _

theorem insertSelectedPath_edited (h : area.Sound) (htext : area.text = front ++ back)
    (hcursor : byteLen front = area.cursorPos) (path : Str) : ∃ edited,
    Edited area (area.expandRangeToElementBoundaries (wordSpan front back)) (insertedPath path ++ [' ']) edited ∧
      insertSelectedPath area path =
        some (edited.setCursor ((wordSpan front back).start + byteLen (insertedPath path) + 1)) := by
  obtain ⟨hstart, hstop, hle⟩ := wordSpan_boundaries htext
  obtain ⟨edited, hreplace, hedited⟩ := replaceRange_edited h hle hstart hstop (insertedPath path ++ [' '])
  refine ⟨edited, hedited, ?_⟩
  have hclamp : clampToCharBoundary area.text area.cursorPos = byteLen front := by
    rw [htext, ← hcursor]
    exact clampToCharBoundary_eq front back
  have hsplit : splitAtByte area.text (byteLen front) = some (front, back) := by
    rw [htext]
    exact splitAtByte_append front back
  have hrange : (⟨behindWhitespace front, byteLen front + frontOfWhitespace back⟩ : Span) = wordSpan front back := rfl
  simp only [insertSelectedPath, hclamp, hsplit, Option.bind_eq_bind, Option.bind_some, hrange, hreplace,
    Option.pure_def]
  rfl

/-- A text whose parts have been cut and put in the same places is cut in the same places. -/
theorem cuts_eq {front' cut cut' back' new : Str} (h : front ++ cut ++ back = front' ++ cut' ++ back')
    (hnew : front ++ new ++ back = front' ++ new ++ back') (hle : byteLen front ≤ byteLen front')
    (hge : byteLen (front' ++ cut') ≤ byteLen (front ++ cut)) :
    byteLen front = byteLen front' ∧ byteLen (front ++ cut) = byteLen (front' ++ cut') := by
  have hlen := congrArg byteLen h
  have hlenNew := congrArg byteLen hnew
  simp only [byteLen_append] at hlen hlenNew hge ⊢
  omega

/-- The word of a token is not put in the place of a range that starts further in front. -/
theorem not_moved {front' cut back' new : Str} {c : Char} (h : front ++ cut ++ back = front' ++ word ++ back')
    (hnew : front ++ (new ++ [c]) ++ back = front' ++ (new ++ [c]) ++ back') (hlt : byteLen front < byteLen front')
    (hword : c ∉ word) (hne : word ≠ []) : False := by
  rw [List.append_assoc, List.append_assoc] at h hnew
  obtain ⟨between, rfl, hcut⟩ := exists_between h (Nat.le_of_lt hlt)
  have hback : byteLen back' ≤ byteLen back := by
    have hlen := congrArg byteLen hnew
    simp only [byteLen_append] at hlen hlt
    omega
  -- what stands behind the cut ends in the word, and in the text that has been put in
  have hafter : new ++ [c] ++ back = between ++ (new ++ [c]) ++ back' := by
    simpa using hnew
  obtain ⟨rest, rfl⟩ : ∃ rest, back = rest ++ back' := by
    rcases List.append_eq_append_iff.mp hafter with ⟨rest, -, hrest⟩ | ⟨rest, -, hrest⟩
    · exact ⟨rest, hrest⟩
    · refine ⟨[], ?_⟩
      have hnil : rest = [] := by
        rw [hrest, byteLen_append] at hback
        exact byteLen_eq_zero.mp (by omega)
      rw [hrest, hnil]
      rfl
  have hrestNew : new ++ [c] ++ rest = between ++ (new ++ [c]) := by
    rw [← List.append_assoc, List.append_cancel_right_eq] at hafter
    exact hafter
  have hrestCut : cut ++ rest = between ++ word := by
    rw [← List.append_assoc, ← List.append_assoc, List.append_cancel_right_eq] at hcut
    exact hcut
  rcases List.eq_nil_or_concat rest with rfl | ⟨rest, d, rfl⟩
  · rw [List.append_nil] at hrestNew
    have hlen := congrArg byteLen hrestNew
    rw [byteLen_append between] at hlen
    rw [byteLen_append] at hlt
    omega
  · rw [List.concat_eq_append] at hrestNew hrestCut
    have hlast := congrArg List.getLast? hrestNew
    have hlastCut := congrArg List.getLast? hrestCut
    rw [← List.append_assoc, ← List.append_assoc, List.getLast?_concat, List.getLast?_concat] at hlast
    rw [← List.append_assoc, List.getLast?_concat, List.getLast?_append_of_ne_nil _ hne, hlast] at hlastCut
    exact hword (List.mem_of_getLast? hlastCut.symm)

/-- The path replaces the token that has been found just where the token is that of the word around the cursor, and this
word cuts no element. -/
theorem insertSelectedPath_iff (h : area.Sound) (htoken : currentAtToken area = some (some token)) (path : Str) :
    ∃ before after, findPrefixedToken area '@' false = some (some (byteLen before, token)) ∧
      Word area.text before ('@' :: token) after ∧
      ((∃ area', insertSelectedPath area path = some area' ∧
          area'.text = before ++ (insertedPath path ++ [' ']) ++ after ∧
          area'.cursorPos = byteLen (before ++ (insertedPath path ++ [' ']))) ↔ Aimed area) := by
  obtain ⟨found, hfound, hsome⟩ := Option.map_eq_some_iff.mp htoken
  obtain ⟨⟨start, token⟩, rfl, rfl⟩ := Option.map_eq_some_iff.mp hsome
  obtain ⟨front, back, htext, hcursor⟩ := h.cursor
  obtain ⟨edited, hedited, hinsert⟩ := insertSelectedPath_edited h htext hcursor path
  obtain ⟨first, cut, last, hcuts, hfirst, hlast, hnew⟩ := hedited.parts
  obtain ⟨hstart, hstop, -⟩ := wordSpan_boundaries htext
  obtain ⟨hwithin, -, -, hwhole⟩ := TextArea.expandRange_spec h.laid hstart hstop
  have haimed : Aimed area ↔ ¬ NextWord back ∧ ∀ e ∈ area.elements, Span.Whole (wordSpan front back) e.range := by
    constructor
    · rintro ⟨front', back', htext', hcursor', haimed⟩
      have hsplit := splitAtByte_append front back
      rw [← htext, hcursor, htext', ← hcursor', splitAtByte_append] at hsplit
      cases hsplit
      exact haimed
    · rintro ⟨hnext, helements⟩
      exact ⟨front, back, htext, hcursor, hnext, helements⟩
  have hnewArea : ∀ area', insertSelectedPath area path = some area' →
      area'.text = first ++ (insertedPath path ++ [' ']) ++ last := by
    intro area' harea
    cases hinsert.symm.trans harea
    exact hnew
  rcases found_cases htext hcursor hfound with
    ⟨hnext, blank, after, hback, hblank, hblanks, hat, htokenWord, hafter⟩ | ⟨hnext, before, after, hword, hspan, hat⟩
  · have hparts : area.text = front ++ blank ++ '@' :: token ++ after := by
      rw [htext, hback]
      simp
    have hblankPos : 0 < byteLen blank := Nat.pos_of_ne_zero fun hzero => hblank (byteLen_eq_zero.mp hzero)
    refine ⟨front ++ blank, after, hat ▸ hfound, ⟨hparts, htokenWord, ?_, hafter⟩,
      iff_of_false ?_ fun haim => (haimed.mp haim).1 hnext⟩
    · intro c hc
      rw [Option.mem_def, List.getLast?_append_of_ne_nil _ hblank] at hc
      exact hblanks c (List.mem_of_getLast? hc)
    · rintro ⟨area', harea, htext', -⟩
      have hsame := (hnewArea area' harea).symm.trans htext'
      have hspace : ' ' ∉ '@' :: token := fun hmem => absurd (htokenWord ' ' hmem) (by decide)
      refine not_moved (hcuts.symm.trans hparts) hsame ?_ hspace (List.cons_ne_nil _ _)
      have hle : (wordSpan front back).start ≤ byteLen front := by
        obtain ⟨before, word, after, -, hspan, hstarts, -⟩ := exists_wordSpan front back
        rw [hspan]
        exact byteLen_le_of_starts hstarts
      have hstartLe := hwithin.1
      rw [hfirst, byteLen_append]
      omega
  · refine ⟨before, after, hat ▸ hfound, hword, ?_⟩
    rw [haimed]
    constructor
    · rintro ⟨area', harea, htext', -⟩
      refine ⟨hnext, ?_⟩
      have hsame := (hnewArea area' harea).symm.trans htext'
      have hle : byteLen first ≤ byteLen before := by
        rw [hfirst]
        exact hwithin.1.trans (Nat.le_of_eq (congrArg Span.start hspan))
      have hge : byteLen (before ++ '@' :: token) ≤ byteLen (first ++ cut) := by
        rw [hlast]
        exact (Nat.le_of_eq (congrArg Span.stop hspan).symm).trans hwithin.2
      obtain ⟨hfront, hback⟩ := cuts_eq (hcuts.symm.trans hword.text) hsame hle hge
      have hrange : area.expandRangeToElementBoundaries (wordSpan front back) = wordSpan front back := by
        refine Span.Within.antisymm ⟨?_, ?_⟩ hwithin
        · rw [← hfirst, hfront, hspan]
        · rw [← hlast, hback, hspan]
      rwa [hrange] at hwhole
    · rintro ⟨-, helements⟩
      have hrange : area.expandRangeToElementBoundaries (wordSpan front back) = wordSpan front back := by
        refine Span.expand_of_whole _ fun span hspan => ?_
        obtain ⟨e, he, rfl⟩ := List.mem_map.mp hspan
        exact helements e he
      rw [hrange, hspan] at hedited hfirst hlast
      -- what has been cut out is the word
      obtain ⟨rfl, hrest⟩ : first = before ∧ cut ++ last = '@' :: token ++ after := by
        have hsplit := hcuts.symm.trans hword.text
        rw [List.append_assoc, List.append_assoc] at hsplit
        obtain ⟨between, hbetween, hrest⟩ := exists_between hsplit (Nat.le_of_eq hfirst)
        have hnil : between = [] := by
          rw [hbetween, byteLen_append] at hfirst
          exact byteLen_eq_zero.mp (by simp only at hfirst; omega)
        rw [hnil, List.append_nil] at hbetween
        exact ⟨hbetween.symm, by rw [hrest, hnil, List.nil_append]⟩
      obtain ⟨rfl, rfl⟩ : cut = '@' :: token ∧ last = after := by
        have hlen : byteLen cut = byteLen ('@' :: token) := by
          simp only [byteLen_append] at hlast
          omega
        obtain ⟨between, hbetween, hlastEq⟩ := exists_between hrest (Nat.le_of_eq hlen)
        have hnil : between = [] := by
          rw [hbetween, byteLen_append] at hlen
          exact byteLen_eq_zero.mp (by omega)
        rw [hnil, List.append_nil] at hbetween
        rw [hnil, List.nil_append] at hlastEq
        exact ⟨hbetween.symm, hlastEq⟩
      refine ⟨_, hinsert, hnew, ?_⟩
      have hat : (wordSpan front back).start + byteLen (insertedPath path) + 1 =
          byteLen (first ++ (insertedPath path ++ [' '])) := by
        rw [hspan, byteLen_append first (insertedPath path ++ [' ']), byteLen_append (insertedPath path)]
        rfl
      have hboundary : Boundary edited.text (byteLen (first ++ (insertedPath path ++ [' ']))) := by
        rw [hnew]
        exact boundary_append _ _
      have hclear : ∀ e ∈ edited.elements, ¬ e.range.Inside (byteLen (first ++ (insertedPath path ++ [' ']))) := by
        rintro e he ⟨hlt, hgt⟩
        have happart := hedited.clear e he
        rw [byteLen_append] at hlt hgt
        simp only at happart
        omega
      simp only [TextArea.setCursor, hat]
      have hmin : min (byteLen (first ++ (insertedPath path ++ [' ']))) edited.len =
          byteLen (first ++ (insertedPath path ++ [' '])) := Nat.min_eq_left hboundary.le
      rw [hmin]
      exact TextArea.clampPosToNearestBoundary_of_outside hboundary hclear

def atWord : TextArea := { TextArea.new with text := ['@', 'b', ' ', 'c'], cursorPos := 1 }

theorem atWord_sound : atWord.Sound := ⟨by decide, Laid.nil _, nofun⟩

theorem atWord_replaced : currentAtToken atWord = some (some ['b']) ∧ ∃ area', insertSelectedPath atWord ['p'] = some area' ∧
    area'.text = ['p', ' ', ' ', 'c'] ∧ area'.cursorPos = 2 := by
  have htoken : currentAtToken atWord = some (some ['b']) := by decide
  refine ⟨htoken, ?_⟩
  obtain ⟨before, after, hfound, hword, hiff⟩ := insertSelectedPath_iff atWord_sound htoken ['p']
  have haimed : Aimed atWord := ⟨['@'], ['b', ' ', 'c'], rfl, rfl, by rw [NextWord]; decide, nofun⟩
  obtain ⟨area', harea, htext, hcursor⟩ := hiff.mpr haimed
  have hstart : findPrefixedToken atWord '@' false = some (some (0, ['b'])) := by decide
  obtain ⟨hzero, -⟩ := Prod.mk.inj (Option.some.inj (Option.some.inj (hfound.symm.trans hstart)))
  obtain rfl := byteLen_eq_zero.mp hzero
  obtain rfl : after = [' ', 'c'] := by
    have hparts := hword.text
    simpa [atWord] using hparts.symm
  exact ⟨area', harea, htext, hcursor⟩

/-- The cursor stands behind another word, and this word is replaced. -/
def beforeAtWord : TextArea := { TextArea.new with text := ['a', ' ', '@', 'b'], cursorPos := 1 }

theorem beforeAtWord_replaced : beforeAtWord.Sound ∧ currentAtToken beforeAtWord = some (some ['b']) ∧
    (insertSelectedPath beforeAtWord ['p']).map (·.text) = some ['p', ' ', ' ', '@', 'b'] ∧
    ¬ ∃ before after area', Word beforeAtWord.text before ['@', 'b'] after ∧
      insertSelectedPath beforeAtWord ['p'] = some area' ∧ area'.text = before ++ (insertedPath ['p'] ++ [' ']) ++ after := by
  have hedit : (insertSelectedPath beforeAtWord ['p']).map (·.text) = some ['p', ' ', ' ', '@', 'b'] := by decide
  refine ⟨⟨by decide, Laid.nil _, nofun⟩, by decide, hedit, ?_⟩
  rintro ⟨before, after, area', hword, harea, htext⟩
  rw [harea, Option.map_some, htext] at hedit
  have hparts := hword.text
  rcases before with _ | ⟨first, _ | ⟨second, before⟩⟩ <;> simp [beforeAtWord, insertedPath] at hparts hedit
  obtain ⟨rfl, -, -⟩ := hparts
  exact absurd hedit.1 (by decide)

end Codrex.Composer
