import Codrex.ApplyPatch.Lemmas.Grammar
import Codrex.ApplyPatch.Lemmas.Reparse

/-!
# Parsing a text that still grows

A hunk that another hunk follows is read the same from a longer text: the header that ends it is there already,
though its line may still grow.
-/

namespace Codrex.ApplyPatch

open Text

/-! ## How far the loops read -/

def asDiffLine : Str → Option (Sign × Str)
  | [] => some (.kept, [])
  | ' ' :: text => some (.kept, text)
  | '+' :: text => some (.added, text)
  | '-' :: text => some (.removed, text)
  | _ => none

variable {line : Str} {n ln : Nat} {ls rest : List Str} {allow : Bool}

theorem chunkLoop_diffLine (ln : Nat) {signed : Sign × Str} (h : asDiffLine line = some signed) (rest : List Str)
    (chunk : UpdateFileChunk) (n : Nat) :
    chunkLoop ln (line :: rest) chunk n = chunkLoop ln rest (chunk.push signed.1 signed.2) (n + 1) := by
  unfold asDiffLine at h
  split at h
  · cases h
    rfl
  · cases h
    exact chunkLoop_signed ln .kept _ rest chunk n
  · cases h
    exact chunkLoop_signed ln .added _ rest chunk n
  · cases h
    exact chunkLoop_signed ln .removed _ rest chunk n
  · cases h

/-- A line that is not of a diff ends the chunk, whatever comes behind it. -/
theorem chunkLoop_other (ln : Nat) (h : asDiffLine line = none) (hne : line ≠ eofMarker) (rest : List Str)
    (chunk : UpdateFileChunk) :
    (n ≠ 0 → chunkLoop ln (line :: rest) chunk n = .ok (chunk, n)) ∧
      (n = 0 → ∃ message number, chunkLoop ln (line :: rest) chunk n = .error (.invalidHunkError message number)) := by
  unfold asDiffLine at h
  split at h
  · cases h
  · cases h
  · cases h
  · cases h
  · rw [chunkLoop.eq_def]
    simp only [if_neg hne]
    exact ⟨fun hn => if_neg hn, fun hn => ⟨_, _, if_pos hn⟩⟩

/-- What a line is to the loop over the lines of a chunk. -/
theorem diffLine_cases (line : Str) :
    line = eofMarker ∨ (line ≠ eofMarker ∧ asDiffLine line = none) ∨ ∃ signed, asDiffLine line = some signed := by
  by_cases heof : line = eofMarker
  · exact Or.inl heof
  · cases h : asDiffLine line with
    | none => exact Or.inr (Or.inl ⟨heof, rfl⟩)
    | some signed => exact Or.inr (Or.inr ⟨signed, rfl⟩)

theorem chunkLoop_eofMarker (ln : Nat) (rest : List Str) (chunk : UpdateFileChunk) (n : Nat) :
    chunkLoop ln (eofMarker :: rest) chunk n =
      if n = 0 then .error (noLines (ln + 1)) else .ok ({ chunk with isEndOfFile := true }, n + 1) := by
  rw [chunkLoop.eq_def]
  simp only [if_true]

/-- A loop that returns has read a line, unless there was none. -/
theorem chunkLoop_le {chunk chunk' : UpdateFileChunk} {n' : Nat} (h : chunkLoop ln ls chunk n = .ok (chunk', n')) :
    n ≤ n' ∧ (ls ≠ [] → n' ≠ 0) := by
  induction ls generalizing chunk n with
  | nil =>
      cases h
      exact ⟨Nat.le_refl _, fun hne => absurd rfl hne⟩
  | cons line rest ih =>
      rcases diffLine_cases line with rfl | ⟨hne, hnone⟩ | ⟨signed, hsigned⟩
      · rw [chunkLoop_eofMarker] at h
        split at h
        · cases h
        · cases h
          exact ⟨by omega, fun _ => by omega⟩
      · obtain ⟨hstop, herror⟩ := chunkLoop_other ln hnone hne rest chunk (n := n)
        by_cases hn : n = 0
        · obtain ⟨message, number, herror⟩ := herror hn
          rw [herror] at h
          cases h
        · rw [hstop hn] at h
          cases h
          exact ⟨Nat.le_refl _, fun _ => hn⟩
      · rw [chunkLoop_diffLine ln hsigned] at h
        have hle := (ih h).1
        exact ⟨by omega, fun _ => by omega⟩

theorem chunkContext_le {allowMissing : Bool} {context : Option Str}
    (h : chunkContext line ln allowMissing = .ok (context, n)) : n ≤ 1 := by
  unfold chunkContext at h
  split at h
  · cases h
    exact Nat.le_refl _
  · split at h
    · cases h
      exact Nat.le_refl _
    · split at h
      · cases h
        exact Nat.zero_le _
      · cases h

/-- The parts of a chunk that was read. -/
theorem parseUpdateFileChunk_eq_ok {allowMissing : Bool} {chunk : UpdateFileChunk}
    (h : parseUpdateFileChunk (line :: rest) ln allowMissing = .ok (chunk, n)) :
    ∃ context start parsed, chunkContext line ln allowMissing = .ok (context, start) ∧
      start < (line :: rest).length ∧
      chunkLoop ln ((line :: rest).drop start) ⟨context, [], [], false⟩ 0 = .ok (chunk, parsed) ∧
      n = parsed + start := by
  obtain ⟨⟨context, start⟩, hcontext, h⟩ := Fallible.bind_eq_ok h
  simp only at h
  split at h
  · cases h
  · rename_i hstart
    obtain ⟨⟨chunk', parsed⟩, hloop, h⟩ := Fallible.bind_eq_ok h
    cases h
    exact ⟨context, start, parsed, hcontext, Nat.lt_of_not_le hstart, hloop, rfl⟩

theorem parseUpdateFileChunk_pos {allowMissing : Bool} {chunk : UpdateFileChunk}
    (h : parseUpdateFileChunk ls ln allowMissing = .ok (chunk, n)) : 0 < n := by
  cases ls with
  | nil => cases h
  | cons line rest =>
      obtain ⟨context, start, parsed, -, hstart, hloop, rfl⟩ := parseUpdateFileChunk_eq_ok h
      have hne : (line :: rest).drop start ≠ [] := by
        rw [← List.length_pos_iff, List.length_drop]
        omega
      have hpos := (chunkLoop_le hloop).2 hne
      omega

/-- The loop over the chunks goes forward, and one that stands still has found no chunk. -/
theorem chunksLoop_le {fuel : Nat} {n' : Nat} {chunks chunks' : List UpdateFileChunk}
    (h : chunksLoop ln allow fuel ls n chunks = .ok (chunks', n')) : n ≤ n' ∧ (n' = n → chunks' = chunks) := by
  fun_induction chunksLoop ln allow fuel ls n chunks with
  | case1 =>
      cases h
      exact ⟨Nat.le_refl _, fun _ => rfl⟩
  | case2 =>
      cases h
      exact ⟨Nat.le_refl _, fun _ => rfl⟩
  | case3 =>
      rename_i ih
      have hle := (ih h).1
      exact ⟨by omega, fun hn => by omega⟩
  | case4 =>
      cases h
      exact ⟨Nat.le_refl _, fun _ => rfl⟩
  | case5 =>
      cases h
      exact ⟨Nat.le_refl _, fun _ => rfl⟩
  | case6 =>
      rename_i hchunk ih
      have hpos := parseUpdateFileChunk_pos hchunk
      have hle := (ih h).1
      exact ⟨by omega, fun hn => by omega⟩
  | case7 =>
      cases h
      exact ⟨Nat.le_refl _, fun _ => rfl⟩
  | case8 => cases h
  | case9 => cases h

/-! ## Headers that still grow -/

def hunkMarkers : List Str := [addFileMarker, deleteFileMarker, updateFileMarker]

def IsHeader (line : Str) : Prop := ∃ marker ∈ hunkMarkers, marker <+: trim line

/-- Two lines at which the loops do the same, that of a header and what it grows into. -/
structure Grown (line line' : Str) : Prop where
  start : ∃ c text text', line = c :: text ∧ line' = c :: text' ∧ c ≠ '@' ∧ c ≠ '+'
  ne_eof : line ≠ eofMarker ∧ line' ≠ eofMarker
  visible : trim line ≠ [] ∧ trim line' ≠ []

theorem asDiffLine_grown {line' : Str} (h : Grown line line') (hnone : asDiffLine line = none) :
    asDiffLine line' = none := by
  obtain ⟨c, text, text', rfl, rfl, -, -⟩ := h.start
  unfold asDiffLine at hnone ⊢
  split at hnone
  · cases hnone
  · cases hnone
  · cases hnone
  · cases hnone
  · rename_i hkept hadded hremoved
    split
    · rename_i hnil
      cases hnil
    · rename_i hcons
      cases hcons
      exact absurd rfl (hkept _)
    · rename_i hcons
      cases hcons
      exact absurd rfl (hadded _)
    · rename_i hcons
      cases hcons
      exact absurd rfl (hremoved _)
    · rfl

theorem parseUpdateFileChunk_noContext {c : Char} (text : Str) (rest : List Str) (ln : Nat) (hat : c ≠ '@') :
    ∃ message, parseUpdateFileChunk ((c :: text) :: rest) ln false = .error (.invalidHunkError message ln) := by
  have hempty : c :: text ≠ emptyChangeContextMarker := fun h => hat (List.cons.inj h).1
  have hstrip : stripPrefix changeContextMarker (c :: text) = none := by
    rw [stripPrefix, if_neg]
    intro hpre
    exact hat (List.cons_prefix_cons.mp (List.isPrefixOf_iff_prefix.mp hpre)).1.symm
  refine ⟨"Expected update hunk to start with a @@ context marker, got: '".toList ++ (c :: text) ++ ['\''], ?_⟩
  simp only [parseUpdateFileChunk, chunkContext]
  rw [if_neg hempty, hstrip]
  rfl

theorem addLines_other (h : line.head? ≠ some '+') (rest : List Str) : addLines (line :: rest) = [] := by
  unfold addLines
  split
  · rename_i heq
    rw [(List.cons.inj heq).1] at h
    exact absurd rfl h
  · rfl

theorem parseUpdateFile_eq_ok {path : Str} {hunk : Hunk} :
    parseUpdateFile path rest ln allow = .ok (hunk, n) ↔
      ∃ chunks, chunks ≠ [] ∧
        hunk = .updateFile path (rest.head?.bind (stripPrefix moveToMarker)) chunks ∧
        chunksLoop ln allow
            ((rest.drop (rest.head?.bind (stripPrefix moveToMarker)).toList.length).length + 1)
            (rest.drop (rest.head?.bind (stripPrefix moveToMarker)).toList.length)
            (1 + (rest.head?.bind (stripPrefix moveToMarker)).toList.length) [] = .ok (chunks, n) := by
  unfold parseUpdateFile
  generalize hmove : rest.head?.bind (stripPrefix moveToMarker) = movePath
  have hremaining : (if movePath.isSome then (rest.tail, 2) else (rest, 1)) =
      (rest.drop movePath.toList.length, 1 + movePath.toList.length) := by
    cases movePath with
    | none => rfl
    | some dest => simp
  simp only [hremaining]
  constructor
  · intro h
    obtain ⟨⟨chunks, m⟩, hloop, h⟩ := Fallible.bind_eq_ok h
    simp only at h
    split at h
    · cases h
    · rename_i hempty
      cases h
      exact ⟨chunks, by simpa using hempty, rfl, hloop⟩
  · rintro ⟨chunks, hne, rfl, hloop⟩
    rw [hloop, Fallible.ok_bind]
    exact if_neg (by simpa using hne)

section

variable {line line' : Str} (hgrown : Grown line line') (rest' : List Str)
include hgrown

/-- A chunk that ends before the header is the same in the longer text. -/
theorem chunkLoop_grown {ln : Nat} {front rest : List Str} {chunk chunk' : UpdateFileChunk} {m n : Nat}
    (h : chunkLoop ln (front ++ line :: rest) chunk m = .ok (chunk', n)) (hn : n ≤ m + front.length) :
    chunkLoop ln (front ++ line' :: rest') chunk m = .ok (chunk', n) := by
  induction front generalizing chunk m with
  | nil =>
      rw [List.nil_append] at h ⊢
      rw [List.length_nil, Nat.add_zero] at hn
      rcases diffLine_cases line with heof | ⟨hne, hnone⟩ | ⟨signed, hsigned⟩
      · exact absurd heof hgrown.ne_eof.1
      · by_cases hm : m = 0
        · obtain ⟨message, number, herror⟩ := (chunkLoop_other ln hnone hne rest chunk).2 hm
          rw [herror] at h
          cases h
        · rw [(chunkLoop_other ln hnone hne rest chunk).1 hm] at h
          rw [(chunkLoop_other ln (asDiffLine_grown hgrown hnone) hgrown.ne_eof.2 rest' chunk).1 hm]
          exact h
      · rw [chunkLoop_diffLine ln hsigned] at h
        have hle := (chunkLoop_le h).1
        omega
  | cons first front ih =>
      rw [List.cons_append] at h ⊢
      rw [List.length_cons] at hn
      rcases diffLine_cases first with rfl | ⟨hne, hnone⟩ | ⟨signed, hsigned⟩
      · rw [chunkLoop_eofMarker] at h ⊢
        exact h
      · by_cases hm : m = 0
        · obtain ⟨message, number, herror⟩ := (chunkLoop_other ln hnone hne (front ++ line :: rest) chunk).2 hm
          rw [herror] at h
          cases h
        · rw [(chunkLoop_other ln hnone hne _ chunk).1 hm] at h ⊢
          exact h
      · rw [chunkLoop_diffLine ln hsigned] at h ⊢
        exact ih h (by omega)

theorem parseUpdateFileChunk_grown {ln : Nat} {allowMissing : Bool} {front rest : List Str} (hne : front ≠ [])
    {chunk : UpdateFileChunk} {n : Nat}
    (h : parseUpdateFileChunk (front ++ line :: rest) ln allowMissing = .ok (chunk, n)) (hn : n ≤ front.length) :
    parseUpdateFileChunk (front ++ line' :: rest') ln allowMissing = .ok (chunk, n) := by
  obtain ⟨first, front, rfl⟩ := List.exists_cons_of_ne_nil hne
  rw [List.cons_append] at h
  obtain ⟨context, start, parsed, hcontext, -, hloop, rfl⟩ := parseUpdateFileChunk_eq_ok h
  have hstart := chunkContext_le hcontext
  have hfront : start ≤ (first :: front).length := by
    rw [List.length_cons]
    omega
  rw [← List.cons_append, List.drop_append_of_le_length hfront] at hloop
  have hloop' := chunkLoop_grown hgrown rest' hloop (by rw [List.length_drop]; omega)
  have hlong : ¬ start ≥ (first :: (front ++ line' :: rest')).length := by
    simp only [List.length_cons, List.length_append]
    omega
  rw [← List.drop_append_of_le_length hfront, List.cons_append] at hloop'
  rw [List.cons_append]
  simp only [parseUpdateFileChunk, hcontext, Fallible.ok_bind]
  rw [if_neg hlong, hloop', Fallible.ok_bind]

/-- At the header itself the loop over the chunks stops, with the error of a chunk that has no context if the
header is indented. -/
theorem chunksLoop_header_grown {ln fuel fuel' : Nat} {rest : List Str} {n : Nat}
    {chunks chunks' : List UpdateFileChunk}
    (h : chunksLoop ln true (fuel + 1) (line :: rest) n chunks = .ok (chunks', n)) :
    chunksLoop ln true (fuel' + 1) (line' :: rest') n chunks = .ok (chunks', n) := by
  have hsame := (chunksLoop_le h).2 rfl
  subst hsame
  obtain ⟨c, text, text', rfl, rfl, hat, -⟩ := hgrown.start
  rw [chunksLoop, if_neg (by simpa using hgrown.visible.1), List.head?_cons] at h
  rw [chunksLoop, if_neg (by simpa using hgrown.visible.2), List.head?_cons]
  by_cases hstar : some c = some '*'
  · rw [if_pos hstar]
  · rw [if_neg hstar] at h ⊢
    have hlone : ∀ t : Str, ¬ (True ∧ c :: t = ['@']) := by
      rintro t ⟨-, heq⟩
      exact hat (List.cons.inj heq).1
    rw [if_neg (by simpa using hlone text)] at h
    rw [if_neg (by simpa using hlone text')]
    split at h
    · rename_i chunk k hchunk
      have hle := (chunksLoop_le h).1
      have hpos := parseUpdateFileChunk_pos hchunk
      omega
    · split at h
      · rename_i hchunks
        obtain ⟨message, hno⟩ := parseUpdateFileChunk_noContext text' rest' (ln + n) hat
        have hempty : chunks'.isEmpty = false := by simpa using hchunks.2
        rw [hempty, hno]
        exact if_pos hchunks
      · cases h
    · cases h

theorem chunksLoop_grown {ln fuel fuel' : Nat} {front rest : List Str} {n : Nat}
    {chunks chunks' : List UpdateFileChunk} (hfuel : front.length < fuel) (hfuel' : front.length < fuel')
    (h : chunksLoop ln true fuel (front ++ line :: rest) n chunks = .ok (chunks', n + front.length)) :
    chunksLoop ln true fuel' (front ++ line' :: rest') n chunks = .ok (chunks', n + front.length) := by
  induction fuel generalizing front fuel' n chunks with
  | zero => cases hfuel
  | succ fuel ih =>
      obtain ⟨fuel', rfl⟩ := Nat.exists_eq_succ_of_ne_zero (Nat.ne_zero_of_lt hfuel')
      cases front with
      | nil => exact chunksLoop_header_grown hgrown rest' h
      | cons first front =>
          have hlen : (first :: front).length = front.length + 1 := rfl
          rw [List.cons_append, chunksLoop] at h ⊢
          split at h
          · rename_i hblank
            rw [if_pos hblank]
            have hcount : n + (first :: front).length = n + 1 + front.length := by omega
            rw [hcount] at h ⊢
            exact ih (by omega) (by omega) h
          · rename_i hblank
            rw [if_neg hblank]
            split at h
            · cases h
            · rename_i hstar
              rw [if_neg hstar]
              split at h
              · cases h
              · rename_i hat
                rw [if_neg hat]
                split at h
                · rename_i chunk k hchunk
                  have hle := (chunksLoop_le h).1
                  have hk : k ≤ (first :: front).length := by omega
                  have hpos := parseUpdateFileChunk_pos hchunk
                  rw [← List.cons_append] at hchunk h ⊢
                  rw [parseUpdateFileChunk_grown hgrown rest' (List.cons_ne_nil _ _) hchunk hk]
                  rw [List.drop_append_of_le_length hk] at h
                  simp only [List.drop_append_of_le_length hk]
                  have hdrop : ((first :: front).drop k).length = (first :: front).length - k := List.length_drop
                  have hcount : n + (first :: front).length = n + k + ((first :: front).drop k).length := by omega
                  rw [hcount] at h ⊢
                  exact ih (by omega) (by omega) h
                · split at h
                  · cases h
                  · cases h
                · cases h

theorem addLines_grown {front rest : List Str} (h : (addLines (front ++ line :: rest)).length ≤ front.length) :
    addLines (front ++ line' :: rest') = addLines (front ++ line :: rest) := by
  induction front with
  | nil =>
      obtain ⟨c, text, text', rfl, rfl, -, hplus⟩ := hgrown.start
      have hother : ∀ t : Str, (c :: t).head? ≠ some '+' := fun t heq => hplus (Option.some.inj heq)
      rw [List.nil_append, List.nil_append, addLines_other (hother _), addLines_other (hother _)]
  | cons first front ih =>
      rw [List.cons_append, List.cons_append]
      by_cases hplus : first.head? = some '+'
      · obtain ⟨text, rfl⟩ : ∃ text, first = '+' :: text := List.head?_eq_some_iff.mp hplus
        rw [List.cons_append, addLines, List.length_cons, List.length_cons] at h
        rw [addLines, addLines, ih (by omega)]
      · rw [addLines_other hplus, addLines_other hplus]

theorem parseUpdateFile_grown {path : Str} {ln : Nat} {front rest : List Str} {hunk : Hunk}
    (h : parseUpdateFile path (front ++ line :: rest) ln true = .ok (hunk, 1 + front.length)) :
    parseUpdateFile path (front ++ line' :: rest') ln true = .ok (hunk, 1 + front.length) := by
  obtain ⟨chunks, hne, rfl, hloop⟩ := parseUpdateFile_eq_ok.mp h
  cases front with
  | nil =>
      -- A hunk that ends at its own header has no chunk.
      have hstill := chunksLoop_le hloop
      simp only [List.length_nil] at hstill
      exact absurd (hstill.2 (by omega)) hne
  | cons first front =>
      apply parseUpdateFile_eq_ok.mpr
      refine ⟨chunks, hne, rfl, ?_⟩
      have hhead : ∀ ls : List Str, (first :: front ++ ls).head? = some first := fun ls => rfl
      simp only [hhead, Option.bind_some] at hloop ⊢
      have hle : (stripPrefix moveToMarker first).toList.length ≤ (first :: front).length := by
        cases stripPrefix moveToMarker first with
        | none => exact Nat.zero_le _
        | some dest => simp
      rw [List.drop_append_of_le_length hle] at hloop ⊢
      have hdrop : ((first :: front).drop (stripPrefix moveToMarker first).toList.length).length =
          (first :: front).length - (stripPrefix moveToMarker first).toList.length := List.length_drop
      have hcount : 1 + (first :: front).length = 1 + (stripPrefix moveToMarker first).toList.length +
          ((first :: front).drop (stripPrefix moveToMarker first).toList.length).length := by omega
      rw [hcount] at hloop ⊢
      refine chunksLoop_grown hgrown rest' ?_ ?_ hloop
      · simp only [List.length_append, List.length_cons]
        omega
      · simp only [List.length_append, List.length_cons]
        omega

theorem parseOneHunk_grown {ln : Nat} {front rest : List Str} (hne : front ≠ []) {hunk : Hunk}
    (h : parseOneHunk (front ++ line :: rest) ln true = .ok (hunk, front.length)) :
    parseOneHunk (front ++ line' :: rest') ln true = .ok (hunk, front.length) := by
  obtain ⟨header, front, rfl⟩ := List.exists_cons_of_ne_nil hne
  simp only [parseOneHunk, List.cons_append, List.headD_cons, List.tail_cons] at h ⊢
  rw [List.length_cons, Nat.add_comm] at h ⊢
  split at h
  · rename_i path hpath
    simp only [parseAddFile, Except.ok.injEq, Prod.mk.injEq] at h
    have hlen : (addLines (front ++ line :: rest)).length ≤ front.length := by omega
    simp only [parseAddFile]
    rw [addLines_grown hgrown rest' hlen, h.1, h.2]
  · rename_i hadd
    split at h
    · exact h
    · split at h
      · exact parseUpdateFile_grown hgrown rest' h
      · cases h

end

/-! ## The hunks of a text that grows -/

/-- Wherever the lines have a header, the longer text has the same lines up to it, and the header or more. -/
def Continues (ls ls' : List Str) : Prop :=
  ∀ front line rest, ls = front ++ line :: rest → IsHeader line →
    ∃ line' rest', ls' = front ++ line' :: rest' ∧ line <+: line'

theorem Continues.drop {front ls' : List Str} (h : Continues (front ++ ls) (front ++ ls')) : Continues ls ls' := by
  intro mid line rest hls hheader
  obtain ⟨line', rest', hls', hline⟩ := h (front ++ mid) line rest (by rw [hls, List.append_assoc]) hheader
  rw [List.append_assoc] at hls'
  exact ⟨line', rest', List.append_cancel_left hls', hline⟩

theorem isHeader_of_parseOneHunk {result : Hunk × Nat} (h : parseOneHunk (line :: rest) ln allow = .ok result) :
    IsHeader line := by
  simp only [parseOneHunk, List.headD_cons, List.tail_cons] at h
  split at h
  · rename_i path hpath
    exact ⟨addFileMarker, by simp [hunkMarkers], ⟨path, (eq_append_of_stripPrefix hpath).symm⟩⟩
  · split at h
    · rename_i path hpath
      exact ⟨deleteFileMarker, by simp [hunkMarkers], ⟨path, (eq_append_of_stripPrefix hpath).symm⟩⟩
    · split at h
      · rename_i path hpath
        exact ⟨updateFileMarker, by simp [hunkMarkers], ⟨path, (eq_append_of_stripPrefix hpath).symm⟩⟩
      · cases h

theorem parseOneHunk_pos {hunk : Hunk} (h : parseOneHunk ls ln allow = .ok (hunk, n)) : 0 < n := by
  simp only [parseOneHunk] at h
  split at h
  · cases h
    omega
  · split at h
    · cases h
      omega
    · split at h
      · obtain ⟨chunks, -, -, hloop⟩ := parseUpdateFile_eq_ok.mp h
        have hle := (chunksLoop_le hloop).1
        omega
      · cases h

theorem IsHeader.trim_ne_nil (h : IsHeader line) : trim line ≠ [] := by
  obtain ⟨marker, hmarker, hpre⟩ := h
  intro hnil
  rw [hnil, List.prefix_nil] at hpre
  subst hpre
  exact absurd hmarker (by decide)

theorem IsHeader.grow {line' : Str} (h : IsHeader line) (hpre : line <+: line') : IsHeader line' := by
  obtain ⟨marker, hmarker, hstart⟩ := h
  exact ⟨marker, hmarker, hstart.trans (trim_prefix_trim hpre (IsHeader.trim_ne_nil ⟨marker, hmarker, hstart⟩))⟩

theorem not_isHeader_marker (h : trim line = eofMarker ∨ trim line = endPatchMarker) : ¬ IsHeader line := by
  unfold IsHeader
  rcases h with h | h
  · rw [h]
    decide
  · rw [h]
    decide

theorem trimEnd_starts (s : Str) : trimEnd s <+: s := List.rdropWhile_prefix _ _

/-- The first character of a header is a star, or white space in front of it. -/
theorem IsHeader.head (h : IsHeader line) : ∃ c text, line = c :: text ∧ (c = '*' ∨ isWhitespace c = true) := by
  obtain ⟨marker, hmarker, hpre⟩ := h
  have hstar : ∃ rest, marker = '*' :: rest := by
    simp only [hunkMarkers, List.mem_cons, List.not_mem_nil, or_false] at hmarker
    rcases hmarker with rfl | rfl | rfl
    · exact ⟨_, rfl⟩
    · exact ⟨_, rfl⟩
    · exact ⟨_, rfl⟩
  obtain ⟨tail, rfl⟩ := hstar
  cases line with
  | nil => exact absurd hpre (by simp [trim, trimStart, trimEnd])
  | cons c text =>
      refine ⟨c, text, rfl, ?_⟩
      cases hc : isWhitespace c with
      | true => exact Or.inr rfl
      | false =>
          rw [trim, trimStart_cons hc] at hpre
          have hline := hpre.trans (trimEnd_starts (c :: text))
          exact Or.inl (List.cons_prefix_cons.mp hline).1.symm

theorem grown_of_isHeader {line' : Str} (h : IsHeader line) (hpre : line <+: line') : Grown line line' := by
  have h' := h.grow hpre
  have heof : trim eofMarker = eofMarker := by decide
  refine ⟨?_, ⟨?_, ?_⟩, h.trim_ne_nil, h'.trim_ne_nil⟩
  · obtain ⟨c, text, rfl, hc⟩ := h.head
    obtain ⟨more, rfl⟩ := hpre
    refine ⟨c, text, text ++ more, rfl, rfl, ?_, ?_⟩
    · rintro rfl
      revert hc
      decide
    · rintro rfl
      revert hc
      decide
  · rintro rfl
    exact not_isHeader_marker (Or.inl heof) h
  · rintro rfl
    exact not_isHeader_marker (Or.inl heof) h'

theorem hunksLoop_nil (allow : Bool) (fuel ln : Nat) : hunksLoop allow fuel [] ln = .ok [] := by
  cases fuel with
  | zero => rfl
  | succ fuel => rfl

theorem hunksLoop_eq_ok {fuel : Nat} {hunks : List Hunk}
    (h : hunksLoop allow (fuel + 1) (line :: rest) ln = .ok hunks) :
    ∃ hunk n others, parseOneHunk (line :: rest) ln allow = .ok (hunk, n) ∧
      hunksLoop allow fuel ((line :: rest).drop n) (ln + n) = .ok others ∧ hunks = hunk :: others := by
  obtain ⟨⟨hunk, n⟩, hhunk, h⟩ := Fallible.bind_eq_ok h
  obtain ⟨others, hothers, h⟩ := Fallible.bind_eq_ok h
  cases h
  exact ⟨hunk, n, others, hhunk, hothers, rfl⟩

theorem hunksLoop_continues {fuel fuel' : Nat} {ls' : List Str} {hunks hunks' : List Hunk} (hcont : Continues ls ls')
    (hfuel : ls.length < fuel) (hfuel' : ls'.length < fuel') (h : hunksLoop true fuel ls ln = .ok hunks)
    (h' : hunksLoop true fuel' ls' ln = .ok hunks') : hunks.length ≤ hunks'.length ∧ hunks.dropLast <+: hunks' := by
  induction fuel generalizing fuel' ln ls ls' hunks hunks' with
  | zero => cases hfuel
  | succ fuel ih =>
      obtain ⟨fuel', rfl⟩ := Nat.exists_eq_succ_of_ne_zero (Nat.ne_zero_of_lt hfuel')
      cases ls with
      | nil =>
          cases h
          exact ⟨Nat.zero_le _, List.nil_prefix⟩
      | cons line rest =>
          obtain ⟨hunk, n, others, hhunk, hothers, rfl⟩ := hunksLoop_eq_ok h
          have hpos := parseOneHunk_pos hhunk
          cases hrest : (line :: rest).drop n with
          | nil =>
              -- The last hunk: the longer text has one there, perhaps another.
              obtain ⟨line', rest', rfl, -⟩ := hcont [] line rest rfl (isHeader_of_parseOneHunk hhunk)
              obtain ⟨hunk', n', others', -, -, rfl⟩ := hunksLoop_eq_ok h'
              rw [hrest, hunksLoop_nil] at hothers
              cases hothers
              exact ⟨Nat.succ_le_succ (Nat.zero_le _), List.nil_prefix⟩
          | cons next rest₁ =>
              have hlen : ((line :: rest).drop n).length = (line :: rest).length - n := List.length_drop
              rw [hrest, List.length_cons] at hlen
              have htake : ((line :: rest).take n).length = n := List.length_take_of_le (by omega)
              have hsplit : line :: rest = (line :: rest).take n ++ next :: rest₁ := by
                rw [← hrest, List.take_append_drop]
              rw [hrest] at hothers
              have hheader : IsHeader next := by
                obtain ⟨fuel, rfl⟩ : ∃ k, fuel = k + 1 := Nat.exists_eq_succ_of_ne_zero (by omega)
                obtain ⟨_, _, _, hnext, -⟩ := hunksLoop_eq_ok hothers
                exact isHeader_of_parseOneHunk hnext
              generalize (line :: rest).take n = front at hsplit htake
              subst htake
              rw [hsplit] at hhunk hcont hfuel
              obtain ⟨next', rest', rfl, hpre⟩ := hcont front next rest₁ rfl hheader
              have hne : front ≠ [] := List.length_pos_iff.mp hpos
              have hhunk' := parseOneHunk_grown (grown_of_isHeader hheader hpre) rest' hne hhunk
              rw [Nat.succ_eq_add_one, hunksLoop_step (by simp) hhunk', List.drop_left] at h'
              obtain ⟨others', hothers', h'⟩ := Fallible.bind_eq_ok h'
              cases h'
              rw [List.length_append] at hfuel hfuel'
              obtain ⟨hcount, hfirst⟩ := ih hcont.drop (by omega) (by omega) hothers hothers'
              refine ⟨Nat.succ_le_succ hcount, ?_⟩
              cases others with
              | nil => exact List.nil_prefix
              | cons second others => exact List.cons_prefix_cons.mpr ⟨rfl, hfirst⟩

/-! ## Complete patches -/

/-- A lone `@`, at which the streaming parser waits for more, is an error in a complete patch. -/
theorem parseUpdateFileChunk_lone (rest : List Str) (ln : Nat) (allowMissing : Bool) (result : UpdateFileChunk × Nat) :
    parseUpdateFileChunk (['@'] :: rest) ln allowMissing ≠ .ok result := by
  obtain ⟨chunk, n⟩ := result
  intro h
  obtain ⟨context, start, parsed, hcontext, -, hloop, -⟩ := parseUpdateFileChunk_eq_ok h
  cases allowMissing with
  | false => cases hcontext
  | true =>
      cases hcontext
      cases hloop

theorem chunksLoop_streaming {fuel : Nat} {chunks : List UpdateFileChunk} {result : List UpdateFileChunk × Nat}
    (h : chunksLoop ln false fuel ls n chunks = .ok result) : chunksLoop ln true fuel ls n chunks = .ok result := by
  induction fuel generalizing ls n chunks with
  | zero => exact h
  | succ fuel ih =>
      cases ls with
      | nil => exact h
      | cons line rest =>
          rw [chunksLoop] at h ⊢
          split at h
          · rename_i hblank
            rw [if_pos hblank]
            exact ih h
          · rename_i hblank
            rw [if_neg hblank]
            split at h
            · rename_i hstar
              rw [if_pos hstar]
              exact h
            · rename_i hstar
              rw [if_neg hstar]
              rw [if_neg (by simp)] at h
              split at h
              · rename_i chunk k hchunk
                have hlone : line ≠ ['@'] := by
                  rintro rfl
                  exact parseUpdateFileChunk_lone _ _ _ _ hchunk
                rw [if_neg (fun hat => hlone hat.2)]
                exact ih h
              · rw [if_neg (by simp)] at h
                cases h
              · cases h

theorem parseOneHunk_streaming {result : Hunk × Nat} (h : parseOneHunk ls ln false = .ok result) :
    parseOneHunk ls ln true = .ok result := by
  obtain ⟨hunk, n⟩ := result
  simp only [parseOneHunk] at h ⊢
  split at h
  · exact h
  · split at h
    · exact h
    · split at h
      · obtain ⟨chunks, hne, hhunk, hloop⟩ := parseUpdateFile_eq_ok.mp h
        exact parseUpdateFile_eq_ok.mpr ⟨chunks, hne, hhunk, chunksLoop_streaming hloop⟩
      · cases h

theorem hunksLoop_streaming {fuel : Nat} {hunks : List Hunk} (h : hunksLoop false fuel ls ln = .ok hunks) :
    hunksLoop true fuel ls ln = .ok hunks := by
  induction fuel generalizing ls ln hunks with
  | zero => exact h
  | succ fuel ih =>
      cases ls with
      | nil => exact h
      | cons line rest =>
          obtain ⟨hunk, n, others, hhunk, hothers, rfl⟩ := hunksLoop_eq_ok h
          rw [hunksLoop_step (List.cons_ne_nil _ _) (parseOneHunk_streaming hhunk), ih hothers, Fallible.ok_bind]

/-! ## The text between the markers -/

/-- The lines behind the begin marker, without an end marker. -/
def betweenMarkers (rest : List Str) : List Str :=
  if rest.getLast?.map trim = some endPatchMarker then rest.dropLast else rest

theorem checkPatchBoundariesStreaming_begin {first : Str} (hfirst : trim first = beginPatchMarker)
    (rest : List Str) :
    checkPatchBoundariesStreaming (first :: rest) = .ok (first :: rest, betweenMarkers rest) := by
  simp only [checkPatchBoundariesStreaming]
  rw [if_pos hfirst]
  cases rest with
  | nil =>
      have hend : ¬ ([first].getLast?.map trim = some endPatchMarker) := by
        simp only [List.getLast?_singleton, Option.map_some, hfirst, Option.some.injEq]
        decide
      rw [if_neg hend]
      rfl
  | cons second rest =>
      rw [List.getLast?_cons_of_ne_nil (List.cons_ne_nil _ _), betweenMarkers]
      split
      · rfl
      · rfl

theorem checkPatchBoundariesStreaming_eq_ok {patchLines hunkLines : List Str}
    (h : checkPatchBoundariesStreaming ls = .ok (patchLines, hunkLines)) :
    ∃ first rest, ls = first :: rest ∧ trim first = beginPatchMarker ∧ hunkLines = betweenMarkers rest := by
  cases ls with
  | nil => cases h
  | cons first rest =>
      by_cases hfirst : trim first = beginPatchMarker
      · rw [checkPatchBoundariesStreaming_begin hfirst] at h
        cases h
        exact ⟨first, rest, rfl, hfirst, rfl⟩
      · simp only [checkPatchBoundariesStreaming] at h
        rw [if_neg hfirst] at h
        obtain ⟨first', last, -, heq, hbegin, -⟩ := checkPatchBoundariesStrict_eq_ok h
        rw [List.cons_append] at heq
        rw [(List.cons.inj heq).1] at hfirst
        exact absurd hbegin hfirst

theorem parsePatchStreaming_of_strict {patch : Str} {args : ApplyPatchArgs}
    (h : parsePatchText patch .strict = .ok args) : parsePatchStreaming patch = .ok args := by
  obtain ⟨⟨patchLines, hunkLines⟩, hbounds, h⟩ := Fallible.bind_eq_ok h
  obtain ⟨hunks, hhunks, h⟩ := Fallible.bind_eq_ok h
  cases h
  obtain ⟨first, last, rfl, hlines, hfirst, hlast⟩ := checkPatchBoundariesStrict_eq_ok hbounds
  have hbetween : betweenMarkers (hunkLines ++ [last]) = hunkLines := by
    rw [betweenMarkers, List.getLast?_concat, Option.map_some, hlast, if_pos rfl, List.dropLast_concat]
  have hbounds' := checkPatchBoundariesStreaming_begin hfirst (hunkLines ++ [last])
  rw [hbetween, ← List.cons_append, ← hlines] at hbounds'
  rw [parsePatchStreaming, parsePatchText, checkPatchBoundaries, hbounds', Fallible.ok_bind]
  exact (congrArg (· >>= _) (hunksLoop_streaming hhunks)).trans (Fallible.ok_bind _ _)

theorem continues_append (front more : List Str) : Continues front (front ++ more) := by
  rintro before line rest rfl -
  exact ⟨line, rest ++ more, by simp, List.prefix_refl _⟩

theorem continues_concat {l : Str} {more : List Str} (front : List Str)
    (h : IsHeader l → ∃ l' rest, more = l' :: rest ∧ l <+: l') : Continues (front ++ [l]) (front ++ more) := by
  intro before line rest hsplit hheader
  rcases List.eq_nil_or_concat rest with rfl | ⟨rest, last, rfl⟩
  · obtain ⟨rfl, hline⟩ := List.append_inj' hsplit rfl
    cases hline
    obtain ⟨l', rest', rfl, hpre⟩ := h hheader
    exact ⟨l', rest', rfl, hpre⟩
  · rw [List.concat_eq_append, ← List.cons_append, ← List.append_assoc] at hsplit
    obtain ⟨rfl, -⟩ := List.append_inj' hsplit rfl
    exact continues_append _ more before line rest rfl hheader

/-- The lines between the markers of a text are continued by those of a longer text. -/
theorem continues_betweenMarkers {l l' : Str} (front rest : List Str) (hpre : l <+: l') :
    Continues (betweenMarkers (front ++ [l])) (betweenMarkers (front ++ l' :: rest)) := by
  have hmore : ∃ more, betweenMarkers (front ++ l' :: rest) = front ++ more ∧
      (IsHeader l → ∃ next others, more = next :: others ∧ l <+: next) := by
    unfold betweenMarkers
    split
    · rename_i hend
      refine ⟨(l' :: rest).dropLast, List.dropLast_append_of_ne_nil (List.cons_ne_nil _ _), ?_⟩
      intro hheader
      cases rest with
      | nil =>
          rw [List.getLast?_concat, Option.map_some] at hend
          exact absurd (hheader.grow hpre) (not_isHeader_marker (Or.inr (Option.some.inj hend)))
      | cons next rest => exact ⟨l', (next :: rest).dropLast, rfl, hpre⟩
    · exact ⟨l' :: rest, rfl, fun _ => ⟨l', rest, rfl, hpre⟩⟩
  obtain ⟨more, hbetween, hheader⟩ := hmore
  rw [hbetween, betweenMarkers]
  split
  · rw [List.dropLast_concat]
    exact continues_append front more
  · exact continues_concat front hheader

theorem parsePatchStreaming_eq_ok {patch : Str} {args : ApplyPatchArgs} (h : parsePatchStreaming patch = .ok args) :
    ∃ first rest, lines (trim patch) = first :: rest ∧ trim first = beginPatchMarker ∧
      hunksLoop true ((betweenMarkers rest).length + 1) (betweenMarkers rest) 2 = .ok args.hunks := by
  obtain ⟨⟨patchLines, hunkLines⟩, hbounds, h⟩ := Fallible.bind_eq_ok h
  obtain ⟨hunks, hhunks, h⟩ := Fallible.bind_eq_ok h
  cases h
  obtain ⟨first, rest, hlines, hfirst, rfl⟩ := checkPatchBoundariesStreaming_eq_ok hbounds
  exact ⟨first, rest, hlines, hfirst, hhunks⟩

theorem hunks_of_prefix {p q : Str} {args args' : ApplyPatchArgs} (hpre : p <+: q)
    (h : parsePatchStreaming p = .ok args) (h' : parsePatchStreaming q = .ok args') :
    args.hunks.length ≤ args'.hunks.length ∧ args.hunks.dropLast <+: args'.hunks := by
  obtain ⟨first, rest, hlines, hfirst, hhunks⟩ := parsePatchStreaming_eq_ok h
  obtain ⟨first', rest', hlines', -, hhunks'⟩ := parsePatchStreaming_eq_ok h'
  have hne : trim p ≠ [] := by
    intro hnil
    rw [hnil] at hlines
    cases hlines
  obtain ⟨front, l, l', more, hfront, hmore, hgrows⟩ := lines_trim_of_prefix hpre hne
  rw [hlines] at hfront
  rw [hlines'] at hmore
  cases front with
  | nil =>
      -- Only the begin marker is there.
      cases hfront
      have hnone : hunksLoop true ((betweenMarkers []).length + 1) (betweenMarkers []) 2 = .ok [] := rfl
      rw [hnone] at hhunks
      rw [← Except.ok.inj hhunks]
      exact ⟨Nat.zero_le _, List.nil_prefix⟩
  | cons start front =>
      cases hfront
      cases hmore
      exact hunksLoop_continues (continues_betweenMarkers front more hgrows) (Nat.lt_succ_self _)
        (Nat.lt_succ_self _) hhunks hhunks'

end Codrex.ApplyPatch
