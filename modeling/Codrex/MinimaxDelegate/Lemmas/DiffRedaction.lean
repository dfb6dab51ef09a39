import Codrex.MinimaxDelegate.Spec

/-!
# The redaction of sensitive files in a diff
-/

namespace Codrex.MinimaxDelegate

open Text UnixPath

/-! ## Headers -/

theorem isSensitivePath_nil : isSensitivePath [] = false := by decide

theorem diffPathTokenToDisplayPath_eq (word : Str) :
    diffPathTokenToDisplayPath word = if wordPath word = [] then none else some (wordPath word) := by
  have hempty : ∀ s : Str, replace s ['\\'] ['/'] = [] ↔ s = [] := by
    intro s
    rw [replace_singleton]
    simp
  unfold diffPathTokenToDisplayPath wordPath
  simp only [hempty]

theorem rdropWhile_append_of_last {p : Char → Bool} {c : Char} (hc : p c = false) (front s : Str) :
    (front ++ c :: s).rdropWhile p = front ++ c :: s.rdropWhile p := by
  induction s using List.reverseRecOn with
  | nil =>
      rw [List.rdropWhile_concat_neg p front c (by simp [hc])]
      rfl
  | append_singleton s last ih =>
      by_cases hlast : p last = true
      · rw [← List.cons_append, ← List.append_assoc, List.rdropWhile_concat_pos p _ last hlast, ih,
          List.rdropWhile_concat_pos p _ last hlast]
      · rw [← List.cons_append, ← List.append_assoc, List.rdropWhile_concat_neg p _ last hlast,
          List.rdropWhile_concat_neg p _ last hlast, List.append_assoc, List.cons_append]

/-- The prefix is dropped, and the quotes at the end. -/
theorem wordPath_prefixed {letter : Char} (hletter : letter = 'a' ∨ letter = 'b') (first : Str) :
    wordPath (letter :: '/' :: first) = replace (first.rdropWhile (· == '"')) ['\\'] ['/'] := by
  have hquote : (letter == '"') = false := by
    rcases hletter with rfl | rfl
    · decide
    · decide
  have htrim : trimMatches (letter :: '/' :: first) (· == '"') = letter :: '/' :: first.rdropWhile (· == '"') := by
    unfold trimMatches
    rw [List.dropWhile_cons_of_neg (by simp [hquote])]
    exact rdropWhile_append_of_last (by decide) [letter] first
  simp only [wordPath, htrim]
  rcases hletter with rfl | rfl
  · rfl
  · rfl

/-- The words of the header behind the first two. -/
theorem words_header (block : DiffBlock) :
    ∃ rest, (splitWhitespace block.header).drop 2 =
      ("a/".toList ++ block.path.takeWhile fun c => !isWhitespace c) ::
        (splitWhitespace (block.path.dropWhile fun c => !isWhitespace c) ++
          ("b/".toList ++ block.path.takeWhile fun c => !isWhitespace c) :: rest) := by
  generalize hfirst : block.path.takeWhile (fun c => !isWhitespace c) = first
  generalize hbehind : block.path.dropWhile (fun c => !isWhitespace c) = behind
  have hpath : block.path = first ++ behind := by
    rw [← hfirst, ← hbehind, List.takeWhile_append_dropWhile]
  have hword : ∀ start : Str, (∀ c ∈ start, isWhitespace c = false) → ∀ c ∈ start ++ first, isWhitespace c = false := by
    intro start hstart c hc
    rcases List.mem_append.mp hc with hc | hc
    · exact hstart c hc
    · rw [← hfirst] at hc
      simpa using List.mem_takeWhile_imp hc
  have hhead : ∀ c ∈ behind.head?, isWhitespace c = true := by
    intro c hc
    rw [← hbehind] at hc
    have hstop := List.head?_dropWhile_not (fun c => !isWhitespace c) block.path
    rw [Option.mem_def.mp hc] at hstop
    simpa using hstop
  have hend : ∀ c ∈ (behind ++ block.lineEnd).head?, isWhitespace c = true := by
    intro c hc
    cases behind with
    | nil =>
        unfold DiffBlock.lineEnd at hc
        cases hterminated : block.terminated with
        | false => simp [hterminated] at hc
        | true =>
            obtain rfl : '\n' = c := by simpa [hterminated] using hc
            decide
    | cons d behind => exact hhead c hc
  have hheader : block.header = "diff".toList ++ ' ' :: ("--git".toList ++ ' ' :: (("a/".toList ++ first ++ behind) ++
      ' ' :: ("b/".toList ++ first ++ (behind ++ block.lineEnd)))) := by
    have hmarker : diffGitMarker = "diff".toList ++ ' ' :: ("--git".toList ++ [' ']) := by decide
    rw [DiffBlock.header, hpath, hmarker]
    simp only [List.append_assoc, List.cons_append, List.nil_append]
  have hspace : isWhitespace ' ' = true := by decide
  have hdiff : splitWhitespace "diff".toList = ["diff".toList] := splitWhitespace_word (by simp) (by simp [isWhitespace])
  have hgit : splitWhitespace "--git".toList = ["--git".toList] := splitWhitespace_word (by simp) (by simp [isWhitespace])
  have hold := splitWhitespace_word_append (by simp) (hword "a/".toList (by simp [isWhitespace])) hhead
  have hnew := splitWhitespace_word_append (by simp) (hword "b/".toList (by simp [isWhitespace])) hend
  refine ⟨splitWhitespace (behind ++ block.lineEnd), ?_⟩
  rw [hheader, splitWhitespace_append_cons _ _ hspace, splitWhitespace_append_cons _ _ hspace,
    splitWhitespace_append_cons _ _ hspace, hdiff, hgit, hold, hnew]
  rfl

theorem find_sensitive_isSome (lhs rhs : Str) :
    (([lhs, rhs].filterMap diffPathTokenToDisplayPath).find? isSensitivePath).isSome = true ↔
      isSensitivePath (wordPath lhs) = true ∨ isSensitivePath (wordPath rhs) = true := by
  have hone : ∀ word, (∃ path, diffPathTokenToDisplayPath word = some path ∧ isSensitivePath path = true) ↔
      isSensitivePath (wordPath word) = true := by
    intro word
    rw [diffPathTokenToDisplayPath_eq]
    by_cases hempty : wordPath word = []
    · simp [hempty, isSensitivePath_nil]
    · simp [hempty]
  rw [List.find?_isSome, ← hone, ← hone]
  simp [or_and_right, exists_or]

theorem marker_header (block : DiffBlock) : diffGitMarker.isPrefixOf block.header = true := by
  rw [List.isPrefixOf_iff_prefix, DiffBlock.header, List.append_assoc, List.append_assoc]
  exact List.prefix_append _ _

/-- A header is taken for one of a sensitive file exactly if the first words of its path are sensitive. -/
theorem isSome_sensitiveDiffBlockPath (block : DiffBlock) :
    (sensitiveDiffBlockPath block.header).isSome = true ↔
      ∃ word ∈ firstWords block.path, isSensitivePath (wordPath word) = true := by
  obtain ⟨rest, hwords⟩ := words_header block
  unfold sensitiveDiffBlockPath firstWords
  rw [if_pos (marker_header block), hwords]
  cases splitWhitespace (block.path.dropWhile fun c => !isWhitespace c) with
  | nil =>
      rw [List.nil_append]
      refine (find_sensitive_isSome _ _).trans ?_
      have hsame : ∀ first : Str, wordPath ("b/".toList ++ first) = wordPath ("a/".toList ++ first) :=
        fun first => (wordPath_prefixed (Or.inr rfl) first).trans (wordPath_prefixed (Or.inl rfl) first).symm
      rw [hsame, or_self]
      simp
  | cons second others =>
      refine (find_sensitive_isSome _ _).trans ?_
      simp

theorem mem_wordPath {word : Str} {c : Char} (h : c ∈ wordPath word) : c = '/' ∨ c ∈ word := by
  have hstrip : ∀ (p s : Str), ∀ t ∈ stripPrefix p s, t ⊆ s := by
    intro p s t ht
    rw [eq_append_of_stripPrefix ht]
    exact List.subset_append_right _ _
  have htrimmed : trimMatches word (· == '"') ⊆ word := by
    have hend := (List.rdropWhile_prefix (· == '"') (word.dropWhile (· == '"'))).subset
    exact List.Subset.trans hend (List.dropWhile_suffix _).subset
  simp only [wordPath, replace_singleton, List.mem_map] at h
  obtain ⟨d, hd, rfl⟩ := h
  split
  · exact Or.inl rfl
  · right
    apply htrimmed
    cases ha : stripPrefix "a/" (trimMatches word (· == '"')) with
    | some stripped =>
        rw [ha] at hd
        exact hstrip _ _ _ ha hd
    | none =>
        cases hb : stripPrefix "b/" (trimMatches word (· == '"')) with
        | some stripped =>
            rw [ha, hb] at hd
            exact hstrip _ _ _ hb hd
        | none =>
            rw [ha, hb] at hd
            exact hd

theorem noBreak_of_sensitive {line path : Str} (h : sensitiveDiffBlockPath line = some path) : '\n' ∉ path := by
  unfold sensitiveDiffBlockPath at h
  split at h
  · split at h
    · next lhs rhs others hwords =>
        obtain ⟨word, hword, hpath⟩ := List.mem_filterMap.mp (List.mem_of_find?_eq_some h)
        have hmem : word ∈ splitWhitespace line := by
          apply List.mem_of_mem_drop
          rw [hwords]
          rcases List.mem_cons.mp hword with rfl | hword
          · exact List.mem_cons_self
          · obtain rfl := List.mem_singleton.mp hword
            exact List.mem_cons_of_mem _ List.mem_cons_self
        rw [diffPathTokenToDisplayPath_eq] at hpath
        split at hpath
        · cases hpath
        · obtain rfl := Option.some.inj hpath
          intro hbreak
          rcases mem_wordPath hbreak with hslash | hbreak
          · exact absurd hslash (by decide)
          · exact absurd (noWhitespace_of_mem hmem _ hbreak) (by decide)
    · cases h
  · cases h

/-! ## The loop -/

theorem sensitiveDiffBlockPath_plain {line : Str} (h : diffGitMarker.isPrefixOf line = false) :
    sensitiveDiffBlockPath line = none := by
  rw [sensitiveDiffBlockPath, if_neg (by simp [h])]

section

variable {plain : List Str}

theorem redactLoop_plain (h : ∀ line ∈ plain, diffGitMarker.isPrefixOf line = false) (rest : List Str) :
    redactLoop false (plain ++ rest) =
      ⟨plain.flatten ++ (redactLoop false rest).text, (redactLoop false rest).changed⟩ := by
  induction plain with
  | nil => rfl
  | cons line plain ih =>
      rw [List.cons_append, redactLoop, sensitiveDiffBlockPath_plain (h line List.mem_cons_self)]
      simp [ih fun line hline => h line (List.mem_cons_of_mem _ hline)]

theorem redactLoop_skip (h : ∀ line ∈ plain, diffGitMarker.isPrefixOf line = false) (rest : List Str) :
    redactLoop true (plain ++ rest) = redactLoop true rest := by
  induction plain with
  | nil => rfl
  | cons line plain ih =>
      rw [List.cons_append, redactLoop, if_pos (by simp [h line List.mem_cons_self])]
      exact ih fun line hline => h line (List.mem_cons_of_mem _ hline)

end

/-- Behind a body, the loop goes on with the next header. -/
theorem redactLoop_blocks (blocks : List DiffBlock) :
    redactLoop true (blocks.flatMap DiffBlock.lines) = redactLoop false (blocks.flatMap DiffBlock.lines) := by
  cases blocks with
  | nil => rfl
  | cons block blocks =>
      rw [List.flatMap_cons, DiffBlock.lines, List.cons_append]
      simp only [redactLoop, marker_header, Bool.not_true, Bool.and_false]

variable {block : DiffBlock} {blocks : List DiffBlock}

theorem lineEnd_terminated (h : block.terminated = true) : block.lineEnd = ['\n'] := by simp [DiffBlock.lineEnd, h]

theorem lineEnd_not_terminated (h : block.terminated = false) : block.lineEnd = [] := by simp [DiffBlock.lineEnd, h]

theorem noBreak_header (hpath : '\n' ∉ block.path) (h : block.terminated = false) : '\n' ∉ block.header := by
  have hmarker : '\n' ∉ diffGitMarker := by decide
  simp [DiffBlock.header, lineEnd_not_terminated h, hpath, hmarker]

/-- A header without a line feed is the last line. -/
theorem rest_of_not_terminated (hpath : '\n' ∉ block.path) (hterminated : block.terminated = false) {rest : List Str}
    (h : InclusiveLines (block.header :: rest)) : rest = [] := by
  have hbreak := noBreak_header hpath hterminated
  obtain ⟨content, -, hcontent⟩ | ⟨-, -, hrest⟩ := h.1
  · rw [hcontent] at hbreak
    exact absurd (List.mem_append_right _ List.mem_cons_self) hbreak
  · exact hrest

/-- The line feed behind a placeholder is that of the header. -/
theorem lineEnd_eq (hpath : '\n' ∉ block.path) {rest : List Str} (h : InclusiveLines (block.header :: rest)) :
    (if block.header.getLast? = some '\n' ∨ rest ≠ [] then ['\n'] else []) = block.lineEnd := by
  cases hterminated : block.terminated with
  | true =>
      have hend := lineEnd_terminated hterminated
      rw [hend, if_pos (Or.inl (by rw [DiffBlock.header, hend, List.getLast?_concat]))]
  | false =>
      rw [lineEnd_not_terminated hterminated, if_neg]
      rintro (hlast | hne)
      · exact noBreak_header hpath hterminated (List.mem_of_getLast? hlast)
      · exact hne (rest_of_not_terminated hpath hterminated h)

/-- A block whose header is taken for sensitive is replaced by one line, any other is kept. -/
theorem redactLoop_cons (hbody : ∀ line ∈ block.body, diffGitMarker.isPrefixOf line = false) (hpath : '\n' ∉ block.path)
    (h : InclusiveLines ((block :: blocks).flatMap DiffBlock.lines)) :
    redactLoop false ((block :: blocks).flatMap DiffBlock.lines) =
      match sensitiveDiffBlockPath block.header with
      | some path =>
          ⟨placeholder path ++ block.lineEnd ++ (redactLoop false (blocks.flatMap DiffBlock.lines)).text, true⟩
      | none =>
          ⟨block.lines.flatten ++ (redactLoop false (blocks.flatMap DiffBlock.lines)).text,
            (redactLoop false (blocks.flatMap DiffBlock.lines)).changed⟩ := by
  rw [List.flatMap_cons, DiffBlock.lines, List.cons_append] at h ⊢
  rw [redactLoop, if_neg (by simp)]
  cases hsensitive : sensitiveDiffBlockPath block.header with
  | some path =>
      simp only [lineEnd_eq hpath h, redactLoop_skip hbody, redactLoop_blocks]
      rfl
  | none => simp [redactLoop_plain hbody]

/-! ## Diffs -/

/-- The blocks of a diff, and the lines from one of them on. -/
structure BlocksOf (blocks : List DiffBlock) : Prop where
  body_plain : ∀ block ∈ blocks, ∀ line ∈ block.body, diffGitMarker.isPrefixOf line = false
  path_noBreak : ∀ block ∈ blocks, '\n' ∉ block.path
  inclusive : InclusiveLines (blocks.flatMap DiffBlock.lines)

theorem inclusiveLines_of_append {front rest : List Str} (h : InclusiveLines (front ++ rest)) : InclusiveLines rest := by
  induction front with
  | nil => exact h
  | cons line front ih => exact ih h.2

theorem BlocksOf.tail (h : BlocksOf (block :: blocks)) : BlocksOf blocks where
  body_plain := fun other hother => h.body_plain other (List.mem_cons_of_mem _ hother)
  path_noBreak := fun other hother => h.path_noBreak other (List.mem_cons_of_mem _ hother)
  inclusive := by
    have hinclusive := h.inclusive
    rw [List.flatMap_cons] at hinclusive
    exact inclusiveLines_of_append hinclusive

theorem BlocksOf.last_of_not_terminated (h : BlocksOf (block :: blocks)) (hterminated : block.terminated = false) :
    blocks = [] := by
  have hinclusive := h.inclusive
  rw [List.flatMap_cons, DiffBlock.lines, List.cons_append] at hinclusive
  have hrest := rest_of_not_terminated (h.path_noBreak block List.mem_cons_self) hterminated hinclusive
  cases blocks with
  | nil => rfl
  | cons next blocks => simp [DiffBlock.lines] at hrest

theorem BlocksOf.redactLoop_cons (h : BlocksOf (block :: blocks)) :
    redactLoop false ((block :: blocks).flatMap DiffBlock.lines) =
      match sensitiveDiffBlockPath block.header with
      | some path =>
          ⟨placeholder path ++ block.lineEnd ++ (redactLoop false (blocks.flatMap DiffBlock.lines)).text, true⟩
      | none =>
          ⟨block.lines.flatten ++ (redactLoop false (blocks.flatMap DiffBlock.lines)).text,
            (redactLoop false (blocks.flatMap DiffBlock.lines)).changed⟩ :=
  MinimaxDelegate.redactLoop_cons (h.body_plain block List.mem_cons_self) (h.path_noBreak block List.mem_cons_self)
    h.inclusive

theorem redactLoop_changed (h : BlocksOf blocks) :
    (redactLoop false (blocks.flatMap DiffBlock.lines)).changed = true ↔
      ∃ block ∈ blocks, (sensitiveDiffBlockPath block.header).isSome = true := by
  induction blocks with
  | nil => simp [redactLoop]
  | cons block blocks ih =>
      rw [h.redactLoop_cons]
      cases hsensitive : sensitiveDiffBlockPath block.header with
      | some path => simp [hsensitive]
      | none => simp [hsensitive, ih h.tail]

theorem withoutSensitive_redactLoop (h : BlocksOf blocks) (hshows : ∀ block ∈ blocks, ShowsInFirstWords block.path) :
    WithoutSensitive blocks (redactLoop false (blocks.flatMap DiffBlock.lines)).text := by
  induction blocks with
  | nil => exact .nil
  | cons block blocks ih =>
      have hrest := ih h.tail fun other hother => hshows other (List.mem_cons_of_mem _ hother)
      have hblock := (isSome_sensitiveDiffBlockPath block).trans (hshows block List.mem_cons_self).symm
      rw [h.redactLoop_cons]
      cases hsensitive : sensitiveDiffBlockPath block.header with
      | some path => exact .sensitive (hblock.mp (by rw [hsensitive]; rfl)) (noBreak_of_sensitive hsensitive) hrest
      | none =>
          refine .plain ?_ hrest
          rw [hsensitive] at hblock
          simpa using hblock

/-- Two lines without a line feed in them, and what follows them. -/
theorem append_lineEnd_inj {first second rest rest' : Str} (hfirst : '\n' ∉ first) (hsecond : '\n' ∉ second)
    (h : first ++ '\n' :: rest = second ++ '\n' :: rest') : rest = rest' := by
  have hlines := congrArg splitInclusiveLines h
  rw [splitInclusiveLines_append_cons hfirst, splitInclusiveLines_append_cons hsecond] at hlines
  have hrest := congrArg List.flatten (List.cons.inj hlines).2
  rwa [flatten_splitInclusiveLines, flatten_splitInclusiveLines] at hrest

theorem noBreak_placeholder {shown : Str} (h : '\n' ∉ shown) : '\n' ∉ placeholder shown := by
  have hopen : '\n' ∉ "[REDACTED_SENSITIVE_FILE_DIFF path=\"".toList := by decide
  have hclose : '\n' ∉ "\"]".toList := by decide
  intro hmem
  rcases List.mem_append.mp hmem with hmem | hmem
  · rcases List.mem_append.mp hmem with hmem | hmem
    · exact hopen hmem
    · exact h hmem
  · exact hclose hmem

theorem head?_placeholder (shown rest : Str) : (placeholder shown ++ rest).head? = some '[' := by
  have hhead : ∀ {front : Str} (behind : Str), front.head? = some '[' → (front ++ behind).head? = some '[' := by
    intro front behind hfront
    rw [List.head?_append, hfront]
    rfl
  exact hhead rest (hhead _ (hhead shown (by decide)))

theorem placeholder_ne_header (shown : Str) (block : DiffBlock) (rest rest' : Str) :
    placeholder shown ++ rest ≠ block.header ++ rest' := by
  obtain ⟨tail, htail⟩ : ∃ tail, diffGitMarker = 'd' :: tail := ⟨_, rfl⟩
  have hheader : (block.header ++ rest').head? = some 'd' := by
    rw [DiffBlock.header, htail]
    rfl
  intro h
  have hhead := congrArg List.head? h
  rw [head?_placeholder, hheader] at hhead
  exact absurd hhead (by decide)

theorem sensitiveDiffBlockPath_placeholder (shown rest : Str) :
    sensitiveDiffBlockPath (placeholder shown ++ rest) = none := by
  apply sensitiveDiffBlockPath_plain
  rw [Bool.eq_false_iff, ne_eq, List.isPrefixOf_iff_prefix]
  rintro ⟨behind, hbehind⟩
  have hhead := congrArg List.head? hbehind
  have hmarker : diffGitMarker.head? = some 'd' := by decide
  rw [head?_placeholder, List.head?_append, hmarker] at hhead
  cases hhead

theorem withoutSensitive_cons {out : Str} (h : WithoutSensitive (block :: blocks) out) :
    (isSensitivePath block.path = true ∧ ∃ shown rest, '\n' ∉ shown ∧ WithoutSensitive blocks rest ∧
      out = placeholder shown ++ block.lineEnd ++ rest) ∨
      (isSensitivePath block.path = false ∧ ∃ rest, WithoutSensitive blocks rest ∧ out = block.lines.flatten ++ rest) := by
  cases h with
  | sensitive hpath hbreak htail => exact Or.inl ⟨hpath, _, _, hbreak, htail, rfl⟩
  | plain hpath htail => exact Or.inr ⟨hpath, _, htail, rfl⟩

/-- What follows the line of a block is the same, whatever the line shows. -/
theorem rest_eq_of_placeholder {shown shown' rest : Str} (h : BlocksOf (block :: blocks)) (hshown : '\n' ∉ shown)
    (hshown' : '\n' ∉ shown') (hrest : WithoutSensitive blocks rest)
    (heq : placeholder shown ++ block.lineEnd ++ (redactLoop false (blocks.flatMap DiffBlock.lines)).text =
      placeholder shown' ++ block.lineEnd ++ rest) :
    (redactLoop false (blocks.flatMap DiffBlock.lines)).text = rest := by
  cases hterminated : block.terminated with
  | true =>
      rw [lineEnd_terminated hterminated, List.append_assoc, List.append_assoc] at heq
      exact append_lineEnd_inj (noBreak_placeholder hshown) (noBreak_placeholder hshown') heq
  | false =>
      -- A header without a line feed is the last line, so that no block follows.
      obtain rfl : blocks = [] := h.last_of_not_terminated hterminated
      cases hrest with
      | nil => rfl

/-- If one line stands for each sensitive file, the first words say of each file whether it is one. -/
theorem shows_of_withoutSensitive (h : BlocksOf blocks)
    (hwithout : WithoutSensitive blocks (redactLoop false (blocks.flatMap DiffBlock.lines)).text) :
    ∀ block ∈ blocks, ShowsInFirstWords block.path := by
  induction blocks with
  | nil => simp
  | cons block blocks ih =>
      rw [h.redactLoop_cons] at hwithout
      have hblock := isSome_sensitiveDiffBlockPath block
      -- The head of the output decides which of the two was done.
      have hcons : ShowsInFirstWords block.path ∧
          WithoutSensitive blocks (redactLoop false (blocks.flatMap DiffBlock.lines)).text := by
        cases hsensitive : sensitiveDiffBlockPath block.header with
        | some path =>
            rw [hsensitive] at hwithout hblock
            obtain ⟨hpath, shown, rest, hbreak, htail, heq⟩ | ⟨-, rest, -, heq⟩ := withoutSensitive_cons hwithout
            · refine ⟨iff_of_true hpath (hblock.mp rfl), ?_⟩
              rwa [rest_eq_of_placeholder h (noBreak_of_sensitive hsensitive) hbreak htail heq]
            · simp only [DiffBlock.lines, List.flatten_cons, List.append_assoc] at heq
              exact absurd heq (placeholder_ne_header _ _ _ _)
        | none =>
            rw [hsensitive] at hwithout hblock
            obtain ⟨-, shown, rest, -, -, heq⟩ | ⟨hpath, rest, htail, heq⟩ := withoutSensitive_cons hwithout
            · simp only [DiffBlock.lines, List.flatten_cons, List.append_assoc] at heq
              exact absurd heq.symm (placeholder_ne_header _ _ _ _)
            · refine ⟨iff_of_false (by simp [hpath]) (mt hblock.mpr (by simp)), ?_⟩
              rwa [List.append_cancel_left heq]
      rw [List.forall_mem_cons]
      exact ⟨hcons.1, ih h.tail hcons.2⟩

/-! ## Again -/

/-- The lines that are put out are lines, and none of them is taken for a sensitive header. -/
theorem redactLoop_lines (skipping : Bool) {lines : List Str} (h : InclusiveLines lines) :
    ∃ out, (redactLoop skipping lines).text = out.flatten ∧ InclusiveLines out ∧
      (∀ line ∈ out, sensitiveDiffBlockPath line = none) ∧ (lines = [] → out = []) := by
  induction lines generalizing skipping with
  | nil => exact ⟨[], rfl, trivial, by simp, fun _ => rfl⟩
  | cons line rest ih =>
      obtain ⟨hline, hrest⟩ := h
      rw [redactLoop]
      split
      · obtain ⟨out, htext, hout, hkept, -⟩ := ih true hrest
        exact ⟨out, htext, hout, hkept, by simp⟩
      · cases hsensitive : sensitiveDiffBlockPath line with
        | some path =>
            obtain ⟨out, htext, hout, hkept, hnil⟩ := ih true hrest
            have hbreak := noBreak_placeholder (noBreak_of_sensitive hsensitive)
            generalize hnewline : (if line.getLast? = some '\n' ∨ rest ≠ [] then ['\n'] else []) = newline
            refine ⟨(placeholder path ++ newline) :: out, ?_, ⟨?_, hout⟩, ?_, by simp⟩
            · rw [List.flatten_cons, ← htext]
              rfl
            · split at hnewline
              · exact Or.inl ⟨placeholder path, hbreak, by rw [hnewline]⟩
              · next hlast =>
                  subst hnewline
                  rw [List.append_nil]
                  refine Or.inr ⟨?_, hbreak, hnil (not_not.mp (not_or.mp hlast).2)⟩
                  intro hempty
                  have hhead := head?_placeholder path []
                  rw [hempty] at hhead
                  cases hhead
            · rw [List.forall_mem_cons]
              exact ⟨sensitiveDiffBlockPath_placeholder path newline, hkept⟩
        | none =>
            obtain ⟨out, htext, hout, hkept, hnil⟩ := ih false hrest
            refine ⟨line :: out, ?_, ⟨?_, hout⟩, ?_, by simp⟩
            · rw [List.flatten_cons, ← htext]
            · obtain hterminated | ⟨hne, hbreak, hlast⟩ := hline
              · exact Or.inl hterminated
              · exact Or.inr ⟨hne, hbreak, hnil hlast⟩
            · rw [List.forall_mem_cons]
              exact ⟨hsensitive, hkept⟩

theorem redactLoop_kept {lines : List Str} (h : ∀ line ∈ lines, sensitiveDiffBlockPath line = none) :
    redactLoop false lines = ⟨lines.flatten, false⟩ := by
  induction lines with
  | nil => rfl
  | cons line lines ih =>
      rw [redactLoop, h line List.mem_cons_self]
      simp [ih fun line hline => h line (List.mem_cons_of_mem _ hline)]

theorem redactSensitiveDiffBlocks_again (input : Str) :
    redactSensitiveDiffBlocks (redactSensitiveDiffBlocks input).text = ⟨(redactSensitiveDiffBlocks input).text, false⟩ := by
  obtain ⟨out, hout, hlines, hkept, -⟩ := redactLoop_lines false (inclusiveLines_splitInclusiveLines input)
  have htext : (redactSensitiveDiffBlocks input).text = out.flatten := hout
  rw [htext, redactSensitiveDiffBlocks, splitInclusiveLines_flatten hlines, redactLoop_kept hkept]

end Codrex.MinimaxDelegate
