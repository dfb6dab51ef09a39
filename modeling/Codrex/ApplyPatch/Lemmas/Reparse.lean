import Codrex.ApplyPatch.Lemmas.Grammar
import Codrex.ApplyPatch.Spec

/-!
# The patch in an action

An action carries the lines of its patch, joined again. Parsed a second time, they give the same hunks.
-/

namespace Codrex.ApplyPatch

open Text

theorem ne_nil_of_trim {s : Str} {c : Char} {t : Str} (h : trim s = c :: t) :
    trim s ≠ [] ∧ trimStart s ≠ [] ∧ trimEnd s ≠ [] := by
  have hne : trim s ≠ [] := by
    rw [h]
    exact List.cons_ne_nil _ _
  refine ⟨hne, ?_, ?_⟩
  · intro hstart
    exact hne (trim_eq_nil_iff.mpr (List.dropWhile_eq_nil_iff.mp hstart))
  · intro hend
    exact hne (trim_eq_nil_iff.mpr (List.rdropWhile_eq_nil_iff.mp hend))

theorem checkPatchBoundariesStrict_eq_ok {ls patchLines hunkLines : List Str}
    (h : checkPatchBoundariesStrict ls = .ok (patchLines, hunkLines)) :
    ∃ first last, patchLines = ls ∧ ls = first :: hunkLines ++ [last] ∧ trim first = beginPatchMarker ∧
      trim last = endPatchMarker := by
  obtain ⟨u, hends, hlines⟩ := Fallible.bind_eq_ok h
  cases hlines
  cases ls with
  | nil => cases hends
  | cons first rest =>
      cases hlast : (first :: rest).getLast? with
      | none => simp at hlast
      | some last =>
          rw [List.head?_cons, hlast] at hends
          simp only [checkStartAndEndLinesStrict, Option.map_some] at hends
          split at hends
          · rename_i hmarkers
            have hne : rest ≠ [] := by
              rintro rfl
              cases hlast
              have : beginPatchMarker = endPatchMarker := hmarkers.1.symm.trans hmarkers.2
              exact absurd this (by decide)
            rw [List.getLast?_cons_of_ne_nil hne] at hlast
            obtain ⟨front, rfl⟩ := List.getLast?_eq_some_iff.mp hlast
            refine ⟨first, last, rfl, ?_, hmarkers.1, hmarkers.2⟩
            rw [List.tail_cons, List.dropLast_concat, List.cons_append]
          · split at hends
            · cases hends
            · cases hends

variable {first : Str} {mid : List Str}

theorem not_mem_heredocStarts (h : trim first = beginPatchMarker) : first ∉ heredocStarts := by
  intro hmem
  rw [heredocStarts] at hmem
  simp only [List.mem_cons, List.not_mem_nil, or_false] at hmem
  rcases hmem with rfl | rfl | rfl
  · exact absurd h (by decide)
  · exact absurd h (by decide)
  · exact absurd h (by decide)

theorem checkPatchBoundariesLenient_eq_ok {ls patchLines hunkLines : List Str}
    (h : checkPatchBoundariesLenient ls = .ok (patchLines, hunkLines)) :
    ∃ first last, patchLines = first :: hunkLines ++ [last] ∧ trim first = beginPatchMarker ∧
      trim last = endPatchMarker ∧ patchLines = unwrapHeredoc ls := by
  unfold checkPatchBoundariesLenient at h
  split at h
  · rename_i found hstrict
    cases h
    obtain ⟨first, last, rfl, heq, hfirst, hlast⟩ := checkPatchBoundariesStrict_eq_ok hstrict
    refine ⟨first, last, heq, hfirst, hlast, ?_⟩
    have hhead : patchLines.head? = some first := by rw [heq, List.cons_append, List.head?_cons]
    simp only [unwrapHeredoc, hhead]
    rw [if_neg (not_mem_heredocStarts hfirst)]
  · split at h
    · rename_i head end' hhead hend
      split at h
      · rename_i hheredoc
        obtain ⟨first, last, rfl, heq, hfirst, hlast⟩ := checkPatchBoundariesStrict_eq_ok h
        refine ⟨first, last, heq, hfirst, hlast, ?_⟩
        simp only [unwrapHeredoc, hhead]
        rw [if_pos hheredoc.1]
      · cases h
    · cases h

theorem mem_of_mem_unwrapHeredoc {ls : List Str} {l : Str} (h : l ∈ unwrapHeredoc ls) : l ∈ ls := by
  unfold unwrapHeredoc at h
  split at h
  · split at h
    · exact List.mem_of_mem_tail (List.dropLast_subset _ h)
    · exact h
  · exact h

theorem checkPatchBoundariesLenient_markers {last : Str} (hunkLines : List Str) (hfirst : trim first = beginPatchMarker)
    (hlast : trim last = endPatchMarker) :
    checkPatchBoundariesLenient (first :: hunkLines ++ [last]) = .ok (first :: hunkLines ++ [last], hunkLines) := by
  have hends : checkStartAndEndLinesStrict (some first) (some last) = .ok () := by
    simp only [checkStartAndEndLinesStrict, Option.map_some]
    rw [if_pos ⟨hfirst, hlast⟩]
  have hstrict : checkPatchBoundariesStrict (first :: hunkLines ++ [last]) =
      .ok (first :: hunkLines ++ [last], hunkLines) := by
    rw [checkPatchBoundariesStrict, List.getLast?_concat, List.cons_append, List.head?_cons, hends,
      List.tail_cons, List.dropLast_concat]
    rfl
  rw [checkPatchBoundariesLenient, hstrict]

theorem trim_joinLines {last : Str} (mid : List Str) (hfirst : trimStart first ≠ []) (hlast : trimEnd last ≠ []) :
    trim (joinLines (first :: mid ++ [last])) = joinLines (trimStart first :: mid ++ [trimEnd last]) := by
  have hstart : trimStart (joinLines (first :: mid ++ [last])) = joinLines (trimStart first :: mid ++ [last]) := by
    rw [List.cons_append, joinLines_cons _ (by simp), trimStart_append _ hfirst, List.cons_append,
      joinLines_cons _ (by simp)]
  unfold trim
  rw [hstart, joinLines_concat (List.cons_ne_nil _ _), joinLines_concat (List.cons_ne_nil _ _)]
  have happ := trimEnd_append (joinLines (trimStart first :: mid) ++ ['\n']) hlast
  rwa [List.append_assoc, List.append_assoc] at happ

theorem noBreak_trimmed {last : Str} (hlf : ∀ l ∈ first :: mid ++ [last], '\n' ∉ l) :
    (∀ l ∈ trimStart first :: mid, '\n' ∉ l) ∧ '\n' ∉ trimEnd last := by
  constructor
  · intro l hl hmem
    rcases List.mem_cons.mp hl with rfl | hl
    · exact hlf first (by simp) (List.dropWhile_subset _ hmem)
    · exact hlf l (by simp [hl]) hmem
  · intro hmem
    exact hlf last (by simp) ((List.rdropWhile_prefix _ _).subset hmem)

/-- The lines of a patch that is joined and cut again. -/
theorem lines_trim_joinLines {last : Str} (hlf : ∀ l ∈ first :: mid ++ [last], '\n' ∉ l) (hstart : trimStart first ≠ [])
    (hend : trimEnd last ≠ []) :
    lines (trim (joinLines (first :: mid ++ [last]))) =
      stripCr (trimStart first) :: mid.map stripCr ++ [trimEnd last] := by
  obtain ⟨hlfFront, hlfLast⟩ := noBreak_trimmed hlf
  rw [trim_joinLines mid hstart hend, lines_joinLines hlfFront hlfLast hend, List.map_cons]

theorem noBreak_reparsed {last : Str} (hlf : ∀ l ∈ first :: mid ++ [last], '\n' ∉ l) :
    ∀ l ∈ stripCr (trimStart first) :: mid.map stripCr ++ [trimEnd last], '\n' ∉ l := by
  obtain ⟨hlfFront, hlfLast⟩ := noBreak_trimmed hlf
  intro l hl
  rcases List.mem_append.mp hl with hl | hl
  · rw [← List.map_cons] at hl
    obtain ⟨piece, hpiece, rfl⟩ := List.mem_map.mp hl
    exact fun hmem => hlfFront piece hpiece (mem_of_mem_stripCr hmem)
  · rwa [List.mem_singleton.mp hl]

/-- What a patch that was parsed is when it is parsed again. -/
theorem parsePatch_joinLines {last : Str} (hlf : ∀ l ∈ first :: mid ++ [last], '\n' ∉ l)
    (hfirst : trim first = beginPatchMarker) (hlast : trim last = endPatchMarker) :
    parsePatch (joinLines (first :: mid ++ [last])) =
      (hunksLoop false (mid.length + 1) (mid.map stripCr) 2 >>= fun hunks =>
        .ok ⟨joinLines (stripCr (trimStart first) :: mid.map stripCr ++ [trimEnd last]), hunks, none⟩) := by
  obtain ⟨-, hstart, -⟩ := ne_nil_of_trim hfirst
  obtain ⟨hne, -, hend⟩ := ne_nil_of_trim hlast
  have hfirst' : trim (stripCr (trimStart first)) = beginPatchMarker := by
    rw [trim_stripCr, trim_trimStart, hfirst]
  have hbounds := checkPatchBoundariesLenient_markers (mid.map stripCr) hfirst' ((trim_trimEnd hne).trans hlast)
  rw [parsePatch, parsePatchText, lines_trim_joinLines hlf hstart hend, checkPatchBoundaries, hbounds,
    Fallible.ok_bind]
  simp only [List.length_map]
  rfl

/-- A patch that was parsed, as the lines it was cut into. -/
theorem parsePatch_eq_ok {patch : Str} {args : ApplyPatchArgs} (h : parsePatch patch = .ok args) :
    ∃ first mid last hunks, args = ⟨joinLines (first :: mid ++ [last]), hunks, none⟩ ∧
      hunksLoop false (mid.length + 1) mid 2 = .ok hunks ∧ trim first = beginPatchMarker ∧
      trim last = endPatchMarker ∧ unwrapHeredoc (lines (trim patch)) = first :: mid ++ [last] := by
  obtain ⟨⟨patchLines, hunkLines⟩, hbounds, h⟩ := Fallible.bind_eq_ok h
  obtain ⟨hunks, hhunks, h⟩ := Fallible.bind_eq_ok h
  cases h
  obtain ⟨first, last, rfl, hfirst, hlast, hunwrap⟩ := checkPatchBoundariesLenient_eq_ok hbounds
  exact ⟨first, hunkLines, last, hunks, rfl, hhunks, hfirst, hlast, hunwrap.symm⟩

theorem noBreaks_unwrapHeredoc (s : Str) : ∀ l ∈ unwrapHeredoc (lines s), '\n' ∉ l :=
  fun _ hl => not_mem_of_mem_lines (mem_of_mem_unwrapHeredoc hl)

theorem map_stripCr {ls : List Str} (h : ∀ l ∈ ls, l.getLast? ≠ some '\r') : ls.map stripCr = ls :=
  (List.map_congr_left fun l hl => stripCr_of_ne (h l hl)).trans (List.map_id _)

/-! ## Carriage returns on headers -/

theorem IsHunkHeader.stripCr {line : Str} (h : IsHunkHeader line) : IsHunkHeader (stripCr line) := by
  obtain ⟨marker, hmarker, rest, rfl⟩ := h
  refine ⟨marker, hmarker, prefix_stripCr_append ?_ rest⟩
  simp only [List.mem_cons, List.not_mem_nil, or_false] at hmarker
  rcases hmarker with rfl | rfl | rfl
  · decide
  · decide
  · decide

theorem IsHunkHeader.eq_cons {line : Str} (h : IsHunkHeader line) :
    ∃ c rest, line = '*' :: '*' :: '*' :: ' ' :: c :: rest ∧ c ≠ 'E' ∧ c ≠ 'M' := by
  obtain ⟨marker, hmarker, rest, rfl⟩ := h
  simp only [List.mem_cons, List.not_mem_nil, or_false] at hmarker
  rcases hmarker with rfl | rfl | rfl
  · exact ⟨'A', _, rfl, by decide, by decide⟩
  · exact ⟨'D', _, rfl, by decide, by decide⟩
  · exact ⟨'U', _, rfl, by decide, by decide⟩

theorem IsHunkHeader.nextMarker {line : Str} (h : IsHunkHeader line) (rest : List Str) : NextMarker (line :: rest) := by
  obtain ⟨c, tail, rfl, hc, -⟩ := h.eq_cons
  refine .inr ⟨_, rest, rfl, ?_⟩
  intro heq
  cases heq
  exact hc rfl

theorem IsHunkHeader.not_move {line : Str} (h : IsHunkHeader line) : stripPrefix moveToMarker line = none := by
  obtain ⟨c, rest, rfl, -, hc⟩ := h.eq_cons
  cases hmove : stripPrefix moveToMarker ('*' :: '*' :: '*' :: ' ' :: c :: rest) with
  | none => rfl
  | some path =>
      have heq := eq_append_of_stripPrefix hmove
      cases heq
      exact absurd rfl hc

variable {ls rest : List Str} {line : Str} {ln : Nat}

theorem stripCr_of_not_header (hcr : KeepsNoCr line) (hheader : ¬ IsHunkHeader line) : stripCr line = line :=
  stripCr_of_ne (hcr.resolve_left hheader)

/-- A line ends the chunk, or is read into it, whatever stands behind it. -/
theorem chunkLoop_line (ln : Nat) (line : Str) (chunk : UpdateFileChunk) (n : Nat) :
    (∀ rest, chunkLoop ln (line :: rest) chunk n = chunkLoop ln [line] chunk n) ∨
      ∃ chunk', ∀ rest, chunkLoop ln (line :: rest) chunk n = chunkLoop ln rest chunk' (n + 1) := by
  by_cases heof : line = eofMarker
  · refine .inl fun rest => ?_
    rw [chunkLoop.eq_def, chunkLoop.eq_def ln [line]]
    simp only [if_pos heof]
  · cases line with
    | nil => exact .inr ⟨_, fun rest => by rw [chunkLoop, if_neg heof]⟩
    | cons c text =>
        by_cases hkept : c = ' '
        · subst hkept
          exact .inr ⟨_, fun rest => by rw [chunkLoop, if_neg heof]⟩
        by_cases hadded : c = '+'
        · subst hadded
          exact .inr ⟨_, fun rest => by rw [chunkLoop, if_neg heof]⟩
        by_cases hremoved : c = '-'
        · subst hremoved
          exact .inr ⟨_, fun rest => by rw [chunkLoop, if_neg heof]⟩
        refine .inl fun rest => ?_
        rw [chunkLoop.eq_def, chunkLoop.eq_def ln [c :: text]]
        simp only [if_neg heof]
        split
        · rename_i hnil
          cases hnil
        · rename_i hcons
          exact absurd (List.cons.inj hcons).1 hkept
        · rename_i hcons
          exact absurd (List.cons.inj hcons).1 hadded
        · rename_i hcons
          exact absurd (List.cons.inj hcons).1 hremoved
        · rfl

theorem chunkLoop_stripCr (hcr : ∀ l ∈ ls, KeepsNoCr l) {chunk : UpdateFileChunk} {n : Nat}
    {result : UpdateFileChunk × Nat} (h : chunkLoop ln ls chunk n = .ok result) :
    chunkLoop ln (ls.map stripCr) chunk n = .ok result := by
  induction ls generalizing chunk n with
  | nil => exact h
  | cons line rest ih =>
      obtain ⟨hline, hrest⟩ := List.forall_mem_cons.mp hcr
      rw [List.map_cons]
      by_cases hheader : IsHunkHeader line
      · have hn : n ≠ 0 := by
          rintro rfl
          obtain ⟨c, tail, rfl, hc, -⟩ := hheader.eq_cons
          have heof : '*' :: '*' :: '*' :: ' ' :: c :: tail ≠ eofMarker := by
            intro heq
            cases heq
            exact hc rfl
          rw [chunkLoop.eq_def] at h
          simp only [if_neg heof, if_true] at h
          cases h
        rw [chunkLoop_stops ln (hheader.nextMarker rest).stops chunk hn] at h
        rw [chunkLoop_stops ln (hheader.stripCr.nextMarker _).stops chunk hn, h]
      · rw [stripCr_of_not_header hline hheader]
        rcases chunkLoop_line ln line chunk n with hends | ⟨chunk', hreads⟩
        · rw [hends] at h ⊢
          exact h
        · rw [hreads] at h ⊢
          exact ih hrest h

theorem parseUpdateFileChunk_stripCr (hcr : ∀ l ∈ line :: rest, KeepsNoCr l) (hheader : ¬ IsHunkHeader line)
    {allowMissing : Bool} {result : UpdateFileChunk × Nat}
    (h : parseUpdateFileChunk (line :: rest) ln allowMissing = .ok result) :
    parseUpdateFileChunk ((line :: rest).map stripCr) ln allowMissing = .ok result := by
  have hline := stripCr_of_not_header (hcr line List.mem_cons_self) hheader
  simp only [parseUpdateFileChunk] at h
  obtain ⟨⟨context, start⟩, hcontext, h⟩ := Fallible.bind_eq_ok h
  obtain ⟨hlong, h⟩ := Fallible.guard_eq_ok h
  obtain ⟨⟨chunk, read⟩, hloop, h⟩ := Fallible.bind_eq_ok h
  have hloop' := chunkLoop_stripCr (fun l hl => hcr l (List.mem_of_mem_drop hl)) hloop
  rw [List.map_cons, hline]
  simp only [parseUpdateFileChunk, hcontext, Fallible.ok_bind]
  rw [if_neg (by simpa using hlong)]
  rw [List.map_drop, List.map_cons, hline] at hloop'
  simp only [hloop', Fallible.ok_bind]
  exact h

theorem chunksLoop_stripCr (hcr : ∀ l ∈ ls, KeepsNoCr l) {fuel n : Nat} {chunks : List UpdateFileChunk}
    {result : List UpdateFileChunk × Nat} (h : chunksLoop ln false fuel ls n chunks = .ok result) :
    chunksLoop ln false fuel (ls.map stripCr) n chunks = .ok result := by
  induction fuel generalizing ls n chunks with
  | zero => exact h
  | succ fuel ih =>
      cases ls with
      | nil => exact h
      | cons line rest =>
          have hrest : ∀ l ∈ rest, KeepsNoCr l := fun l hl => hcr l (List.mem_cons_of_mem _ hl)
          by_cases hheader : IsHunkHeader line
          · rw [chunksLoop_nextMarker (hheader.nextMarker rest)] at h
            rw [List.map_cons, chunksLoop_nextMarker (hheader.stripCr.nextMarker _), h]
          · have hline := stripCr_of_not_header (hcr line List.mem_cons_self) hheader
            rw [List.map_cons, hline]
            rw [chunksLoop] at h ⊢
            by_cases hblank : (trim line).isEmpty
            · rw [if_pos hblank] at h ⊢
              exact ih hrest h
            · rw [if_neg hblank] at h ⊢
              by_cases hmarker : line.head? = some '*'
              · rw [if_pos hmarker] at h ⊢
                exact h
              · rw [if_neg hmarker, if_neg (by simp)] at h ⊢
                split at h
                · rename_i chunk chunkLines hchunk
                  have hchunk' := parseUpdateFileChunk_stripCr hcr hheader hchunk
                  have hdrop := ih (fun l hl => hcr l (List.mem_of_mem_drop hl)) h
                  rw [List.map_cons, hline] at hchunk'
                  rw [List.map_drop, List.map_cons, hline] at hdrop
                  simp only [hchunk']
                  exact hdrop
                · rw [if_neg (by simp)] at h
                  cases h
                · cases h

theorem addLines_stripCr (hcr : ∀ l ∈ ls, KeepsNoCr l) : addLines (ls.map stripCr) = addLines ls := by
  induction ls with
  | nil => rfl
  | cons line rest ih =>
      obtain ⟨hline, hrest⟩ := List.forall_mem_cons.mp hcr
      rw [List.map_cons]
      by_cases hheader : IsHunkHeader line
      · obtain ⟨c, tail, hcons, -⟩ := hheader.eq_cons
        obtain ⟨c', tail', hcons', -⟩ := hheader.stripCr.eq_cons
        rw [hcons', hcons]
        rfl
      · rw [stripCr_of_not_header hline hheader]
        cases line with
        | nil => rfl
        | cons c text =>
            by_cases hadded : c = '+'
            · subst hadded
              rw [addLines, addLines, ih hrest]
            · rw [addLines.eq_def, addLines.eq_def]
              simp [hadded]

theorem parseUpdateFile_stripCr (hcr : ∀ l ∈ ls, KeepsNoCr l) {path : Str} {result : Hunk × Nat}
    (h : parseUpdateFile path ls ln false = .ok result) :
    parseUpdateFile path (ls.map stripCr) ln false = .ok result := by
  have hmove : (ls.map stripCr).head?.bind (stripPrefix moveToMarker) = ls.head?.bind (stripPrefix moveToMarker) := by
    cases ls with
    | nil => rfl
    | cons line rest =>
        by_cases hheader : IsHunkHeader line
        · simp [hheader.not_move, hheader.stripCr.not_move]
        · simp [stripCr_of_not_header (hcr line List.mem_cons_self) hheader]
  rw [parseUpdateFile] at h ⊢
  rw [hmove]
  cases hpath : ls.head?.bind (stripPrefix moveToMarker) with
  | none =>
      simp only [hpath, Option.isSome_none, Bool.false_eq_true, if_false] at h ⊢
      obtain ⟨⟨chunks, parsed⟩, hchunks, hresult⟩ := Fallible.bind_eq_ok h
      rw [List.length_map]
      exact Fallible.bind_ok (chunksLoop_stripCr hcr hchunks) hresult
  | some dest =>
      simp only [hpath, Option.isSome_some, if_true] at h ⊢
      obtain ⟨⟨chunks, parsed⟩, hchunks, hresult⟩ := Fallible.bind_eq_ok h
      rw [← List.map_tail, List.length_map]
      exact Fallible.bind_ok (chunksLoop_stripCr (fun l hl => hcr l (List.mem_of_mem_tail hl)) hchunks) hresult

theorem parseOneHunk_stripCr (hcr : ∀ l ∈ rest, KeepsNoCr l) {result : Hunk × Nat}
    (h : parseOneHunk (line :: rest) ln false = .ok result) :
    parseOneHunk ((line :: rest).map stripCr) ln false = .ok result := by
  rw [parseOneHunk] at h ⊢
  simp only [List.map_cons, List.headD_cons, List.tail_cons, trim_stripCr] at h ⊢
  split at h
  · rw [parseAddFile, addLines_stripCr hcr]
    exact h
  · split at h
    · exact h
    · split at h
      · exact parseUpdateFile_stripCr hcr h
      · cases h

/-- Without the carriage returns on their headers the hunks are the same. -/
theorem hunksLoop_stripCr (hcr : ∀ l ∈ ls, KeepsNoCr l) {fuel : Nat} {hunks : List Hunk}
    (h : hunksLoop false fuel ls ln = .ok hunks) : hunksLoop false fuel (ls.map stripCr) ln = .ok hunks := by
  induction fuel generalizing ls ln hunks with
  | zero => exact h
  | succ fuel ih =>
      cases ls with
      | nil => exact h
      | cons line rest =>
          rw [hunksLoop] at h
          obtain ⟨⟨hunk, hunkLines⟩, hhunk, h⟩ := Fallible.bind_eq_ok h
          obtain ⟨more, hmore, hresult⟩ := Fallible.bind_eq_ok h
          have hhunk' := parseOneHunk_stripCr (fun l hl => hcr l (List.mem_cons_of_mem _ hl)) hhunk
          have hmore' := ih (fun l hl => hcr l (List.mem_of_mem_drop hl)) hmore
          rw [List.map_drop] at hmore'
          exact Fallible.bind_ok hhunk' (Fallible.bind_ok hmore' hresult)

/-- The hunks of a patch are those of the patch that its action carries. -/
theorem parsePatch_patch {patch : Str} {args : ApplyPatchArgs} (h : parsePatch patch = .ok args)
    (hcr : ∀ line ∈ (unwrapHeredoc (lines (trim patch))).tail.dropLast, KeepsNoCr line) :
    ∃ args', parsePatch args.patch = .ok args' ∧ args'.hunks = args.hunks := by
  obtain ⟨first, mid, last, hunks, rfl, hhunks, hfirst, hlast, hunwrap⟩ := parsePatch_eq_ok h
  have hlf := noBreaks_unwrapHeredoc (trim patch)
  rw [hunwrap] at hlf hcr
  rw [List.cons_append, List.tail_cons, List.dropLast_concat] at hcr
  refine ⟨⟨joinLines (stripCr (trimStart first) :: mid.map stripCr ++ [trimEnd last]), hunks, none⟩, ?_, rfl⟩
  rw [parsePatch_joinLines hlf hfirst hlast, hunksLoop_stripCr hcr hhunks, Fallible.ok_bind]

/-! ## Patches that stay as they are -/

theorem settled_iff {last : Str} : Settled (first :: mid ++ [last]) ↔
    stripCr (trimStart first) :: mid.map stripCr ++ [trimEnd last] = first :: mid ++ [last] := by
  constructor
  · intro h
    have hfirst : trimStart first = first := h.first first (by simp)
    have hlast : trimEnd last = last := h.last last List.getLast?_concat
    have hmid : mid.map stripCr = mid := map_stripCr fun l hl => h.noCr l (by simp [hl])
    rw [hfirst, hlast, hmid, stripCr_of_ne (h.noCr first (by simp))]
  · intro h
    obtain ⟨hfront, hlast⟩ := List.append_inj' h rfl
    obtain ⟨hfirst, hmid⟩ := List.cons.inj hfront
    have hlast : trimEnd last = last := (List.cons.inj hlast).1
    -- Neither cut lengthens the line, so both leave it.
    have hstart : trimStart first = first := by
      apply (List.dropWhile_suffix isWhitespace).eq_of_length
      have hle := length_stripCr_le (trimStart first)
      have hle' := (List.dropWhile_suffix isWhitespace (l := first)).length_le
      rw [hfirst] at hle
      exact Nat.le_antisymm hle' hle
    rw [hstart] at hfirst
    refine ⟨?_, ?_, ?_⟩
    · intro l hl
      rcases List.mem_append.mp hl with hl | hl
      · rcases List.mem_cons.mp hl with rfl | hl
        · exact stripCr_eq_self_iff.mp hfirst
        · exact stripCr_eq_self_iff.mp (List.map_inj_left.mp (hmid.trans (List.map_id mid).symm) l hl)
      · rw [List.mem_singleton.mp hl]
        intro hcr
        obtain ⟨front, rfl⟩ := List.getLast?_eq_some_iff.mp hcr
        rw [trimEnd_concat_ws (by decide)] at hlast
        have hle : (trimEnd front).length ≤ front.length := (List.rdropWhile_prefix _ _).length_le
        rw [hlast, List.length_append, List.length_singleton] at hle
        omega
    · intro f hf
      cases hf
      exact hstart
    · intro l hl
      rw [List.getLast?_concat] at hl
      cases hl
      exact hlast

end Codrex.ApplyPatch
