import Codrex.Minimax.Bridge

/-!
# One turn of the parser for think blocks

What a call of `push` emits and holds back, against the segmentation of the whole string.
-/

namespace Codrex.Minimax

open Text

/-! ## Holding back -/

/-- A partial tag: what may still become the tag with more text. -/
def IsPartial (tag p : Str) : Prop := p <+: tag ∧ p.length < tag.length

theorem trailingPartialMatch_cases (buf tag : Str) :
    trailingPartialMatch buf tag = buf.length ∨
      (trailingPartialMatch buf tag < buf.length ∧
        IsPartial tag (buf.drop (trailingPartialMatch buf tag))) := by
  unfold trailingPartialMatch
  simp only
  split
  · rename_i n hn
    have hp := List.find?_some hn
    have hmem := List.mem_of_find?_eq_some hn
    simp only [List.mem_reverse, List.mem_range'_1] at hmem
    exact Or.inr ⟨by omega, List.isPrefixOf_iff_prefix.mp hp, by simp only [List.length_drop]; omega⟩
  · exact Or.inl rfl

/-- The scan goes from the longest suffix down, so nothing longer than what is held back can still
become the tag. -/
theorem trailingPartialMatch_le {buf tag : Str} {j : Nat} (hj : j < buf.length)
    (hp : IsPartial tag (buf.drop j)) : trailingPartialMatch buf tag ≤ j := by
  have hlt : buf.length - j < tag.length := by simpa using hp.2
  have hn : ((buf.drop (buf.length - (buf.length - j))).isPrefixOf tag) = true := by
    rw [Nat.sub_sub_self (Nat.le_of_lt hj)]
    exact List.isPrefixOf_iff_prefix.mpr hp.1
  unfold trailingPartialMatch
  simp only
  split
  · rename_i n hfind
    obtain ⟨-, pre, post, hsplit, hbefore⟩ := List.find?_eq_some_iff_append.mp hfind
    -- The lengths before `n` in the scan are the longer ones.
    by_contra hgt
    have hmem : buf.length - j ∈ pre := by
      have hall : buf.length - j ∈ (List.range' 1 (min buf.length (tag.length - 1))).reverse := by
        simp only [List.mem_reverse, List.mem_range'_1]
        omega
      have hsorted : (pre ++ n :: post).Pairwise (· > ·) := by
        rw [← hsplit, List.pairwise_reverse]
        exact List.pairwise_lt_range'
      rw [hsplit, List.mem_append, List.mem_cons] at hall
      rcases hall with hall | hall | hall
      · exact hall
      · omega
      · have := List.rel_of_pairwise_cons (List.pairwise_append.mp hsorted).2.1 hall
        omega
    have := hbefore _ hmem
    simp [hn] at this
  · rename_i hnone
    have := List.find?_eq_none.mp hnone (buf.length - j) (by
      simp only [List.mem_reverse, List.mem_range'_1]
      omega)
    exact absurd hn this

theorem trailingPartialMatch_le_length (buf tag : Str) : trailingPartialMatch buf tag ≤ buf.length := by
  rcases trailingPartialMatch_cases buf tag with h | h
  · exact Nat.le_of_eq h
  · exact Nat.le_of_lt h.1

def heldBack (buf tag : Str) : Str := buf.drop (trailingPartialMatch buf tag)

theorem heldBack_suffix (buf tag : Str) : heldBack buf tag <:+ buf := List.drop_suffix _ _

theorem isPartial_heldBack (buf : Str) {tag : Str} (hpos : 0 < tag.length) :
    IsPartial tag (heldBack buf tag) := by
  unfold heldBack
  rcases trailingPartialMatch_cases buf tag with hk | ⟨_, hp⟩
  · rw [hk, List.drop_length]
    exact ⟨List.nil_prefix, hpos⟩
  · exact hp

theorem suffix_heldBack {buf tag p : Str} (hsuf : p <:+ buf) (hp : IsPartial tag p) :
    p <:+ heldBack buf tag := by
  obtain ⟨front, rfl⟩ := hsuf
  cases p with
  | nil => exact List.nil_suffix
  | cons c p =>
      have hlt : front.length < (front ++ c :: p).length := by simp
      have hdrop : IsPartial tag ((front ++ c :: p).drop front.length) := by rwa [List.drop_left]
      have hle := trailingPartialMatch_le hlt hdrop
      unfold heldBack
      rw [List.drop_append_of_le_length hle]
      exact List.suffix_append _ _

theorem heldBack_eq_nil {buf tag : Str} (hpos : 0 < tag.length) (hfind : find tag buf = none) :
    heldBack buf tag = [] ↔ ∀ p, p ≠ [] → p <:+ buf → ¬ p <+: tag := by
  constructor
  · intro h p hne hsuf hp
    have hlt : p.length < tag.length := by
      apply Nat.lt_of_le_of_ne hp.length_le
      intro hlen
      obtain ⟨front, rfl⟩ := hsuf
      have hno := find_eq_none.mp hfind front.length (by simp)
      rw [List.drop_left, hp.eq_of_length hlen] at hno
      exact hno List.prefix_rfl
    have hheld := suffix_heldBack hsuf ⟨hp, hlt⟩
    rw [h] at hheld
    exact hne (List.suffix_nil.mp hheld)
  · intro h
    by_contra hne
    exact h _ hne (heldBack_suffix buf tag) (isPartial_heldBack buf hpos).1

variable {s : Str} {inside : Bool}

theorem find_emitted {tag : Str} (t : Str) (h : find tag s = none) :
    find tag (s ++ t) = (find tag (heldBack s tag ++ t)).map (· + trailingPartialMatch s tag) := by
  have hle := trailingPartialMatch_le_length s tag
  have hlen : (s.take (trailingPartialMatch s tag)).length = trailingPartialMatch s tag := by
    rw [List.length_take, Nat.min_eq_left hle]
  have hsplit : s ++ t = s.take (trailingPartialMatch s tag) ++ (heldBack s tag ++ t) := by
    rw [heldBack, ← List.append_assoc, List.take_append_drop]
  have hno : ∀ j < (s.take (trailingPartialMatch s tag)).length,
      ¬ tag <+: (s.take (trailingPartialMatch s tag)).drop j ++ (heldBack s tag ++ t) := by
    intro j hj hp
    rw [hlen] at hj
    rw [heldBack, ← List.append_assoc, ← List.drop_append_of_le_length (by omega),
      List.take_append_drop] at hp
    by_cases hshort : tag.length ≤ s.length - j
    · exact find_eq_none.mp h j (by omega)
        (List.prefix_of_prefix_length_le hp (List.prefix_append _ _) (by simpa using hshort))
    · have hpre : IsPartial tag (s.drop j) :=
        ⟨List.prefix_of_prefix_length_le (List.prefix_append _ t) hp (by simp; omega), by simp; omega⟩
      exact absurd (trailingPartialMatch_le (by omega) hpre) (by omega)
  rw [hsplit, find_append hno, hlen]

/-- What was emitted before has no part in what is held back later. -/
theorem heldBack_append {tag : Str} (hpos : 0 < tag.length) (s t : Str) :
    heldBack (heldBack s tag ++ t) tag = heldBack (s ++ t) tag := by
  obtain ⟨front, hfront⟩ := heldBack_suffix s tag
  have hle : heldBack (heldBack s tag ++ t) tag <:+ heldBack (s ++ t) tag := by
    refine suffix_heldBack ?_ (isPartial_heldBack _ hpos)
    refine (heldBack_suffix _ tag).trans ⟨front, ?_⟩
    rw [← List.append_assoc, hfront]
  have hge : heldBack (s ++ t) tag <:+ heldBack (heldBack s tag ++ t) tag := by
    have hp := isPartial_heldBack (s ++ t) hpos
    refine suffix_heldBack ?_ hp
    rcases List.suffix_or_suffix_of_suffix (heldBack_suffix (s ++ t) tag) (List.suffix_append s t) with
      h | ⟨q, hq⟩
    · exact h.trans (List.suffix_append _ _)
    · -- The part of it in `s` is itself a partial tag.
      have hqs : q <:+ s := by
        have hsuf := heldBack_suffix (s ++ t) tag
        rwa [← hq, List.suffix_append_self_iff] at hsuf
      have hlen : q.length ≤ (heldBack (s ++ t) tag).length := by rw [← hq]; simp
      have hqp : IsPartial tag q :=
        ⟨(hq ▸ List.prefix_append q t).trans hp.1, Nat.lt_of_le_of_lt hlen hp.2⟩
      rw [← hq, List.suffix_append_self_iff]
      exact suffix_heldBack hqs hqp
  exact hle.eq_of_length_le hge.length_le

/-! ## Merging segments -/

@[simp] theorem pushSegment_nil (seg : ParsedSegment) : pushSegment [] seg = [seg] := by
  cases seg with
  | text s => rfl
  | reasoning s => rfl

theorem pushSegment_same (out : List ParsedSegment) (inside : Bool) (s t : Str) :
    pushSegment (out ++ [segment inside s]) (segment inside t) = out ++ [segment inside (s ++ t)] := by
  cases inside with
  | false => simp [pushSegment, segment]
  | true => simp [pushSegment, segment]

theorem pushSegment_other (out : List ParsedSegment) (inside : Bool) (s t : Str) :
    pushSegment (out ++ [segment (!inside) s]) (segment inside t) =
      out ++ [segment (!inside) s] ++ [segment inside t] := by
  cases inside with
  | false => simp [pushSegment, segment]
  | true => simp [pushSegment, segment]

theorem exists_segment (seg : ParsedSegment) : ∃ inside s, seg = segment inside s := by
  cases seg with
  | text s => exact ⟨false, s, rfl⟩
  | reasoning s => exact ⟨true, s, rfl⟩

theorem last_cases (out : List ParsedSegment) (inside : Bool) :
    out = [] ∨ (∃ front s, out = front ++ [segment inside s]) ∨
      ∃ front s, out = front ++ [segment (!inside) s] := by
  rcases List.eq_nil_or_concat out with rfl | ⟨front, last, rfl⟩
  · exact Or.inl rfl
  · obtain ⟨kind, s, rfl⟩ := exists_segment last
    rw [List.concat_eq_append]
    by_cases hkind : kind = inside
    · exact Or.inr (Or.inl ⟨front, s, by rw [hkind]⟩)
    · exact Or.inr (Or.inr ⟨front, s, by rw [Bool.eq_not_of_ne hkind]⟩)

theorem pushSegment_pushSegment (out : List ParsedSegment) (inside : Bool) (s t : Str) :
    pushSegment (pushSegment out (segment inside s)) (segment inside t) =
      pushSegment out (segment inside (s ++ t)) := by
  rcases last_cases out inside with rfl | ⟨front, u, rfl⟩ | ⟨front, u, rfl⟩
  · rw [pushSegment_nil, pushSegment_nil, ← List.nil_append [segment inside s], pushSegment_same]
    rfl
  · rw [pushSegment_same, pushSegment_same, pushSegment_same, List.append_assoc]
  · rw [pushSegment_other, pushSegment_same, pushSegment_other]

/-- Merging within the output of one call changes nothing for the merged output of all calls. -/
theorem foldl_pushSegment (acc out : List ParsedSegment) (seg : ParsedSegment) :
    (pushSegment out seg).foldl pushSegment acc = pushSegment (out.foldl pushSegment acc) seg := by
  obtain ⟨inside, t, rfl⟩ := exists_segment seg
  rcases last_cases out inside with rfl | ⟨front, u, rfl⟩ | ⟨front, u, rfl⟩
  · rw [pushSegment_nil]
    rfl
  · rw [pushSegment_same]
    simp only [List.foldl_append, List.foldl_cons, List.foldl_nil]
    rw [pushSegment_pushSegment]
  · rw [pushSegment_other]
    simp only [List.foldl_append, List.foldl_cons, List.foldl_nil]

def emit (out : List ParsedSegment) (inside : Bool) (s : Str) : List ParsedSegment :=
  if s = [] then out else pushSegment out (segment inside s)

@[simp] theorem emit_nil (out : List ParsedSegment) (inside : Bool) : emit out inside [] = out := rfl

theorem emit_of_ne (out : List ParsedSegment) (inside : Bool) (h : s ≠ []) :
    emit out inside s = pushSegment out (segment inside s) := by
  simp [emit, h]

theorem emit_emit (out : List ParsedSegment) (inside : Bool) (s t : Str) :
    emit (emit out inside s) inside t = emit out inside (s ++ t) := by
  by_cases hs : s = []
  · rw [hs]
    rfl
  · by_cases ht : t = []
    · rw [ht, emit_nil, List.append_nil]
    · rw [emit_of_ne _ _ ht, emit_of_ne _ _ hs, emit_of_ne _ _ (by simp [hs]), pushSegment_pushSegment]

/-! ## The segmentation, piece by piece -/

theorem pieces_of_none (h : find (tagAfter inside) s = none) : pieces inside s = [(inside, s)] := by
  rw [pieces]
  split
  · rfl
  · rename_i hsome
    rw [h] at hsome
    cases hsome

theorem pieces_of_some {idx : Nat} (h : find (tagAfter inside) s = some idx) :
    pieces inside s =
      (inside, s.take idx) :: pieces (!inside) (s.drop (idx + (tagAfter inside).length)) := by
  rw [pieces]
  split
  · rename_i hnone
    rw [h] at hnone
    cases hnone
  · rename_i i hsome
    rw [h] at hsome
    cases hsome
    rfl

theorem pieces_ne_nil (inside : Bool) (s : Str) : pieces inside s ≠ [] := by
  cases h : find (tagAfter inside) s with
  | none => simp [pieces_of_none h]
  | some idx => simp [pieces_of_some h]

theorem rebuild_pieces (inside : Bool) (s : Str) : rebuild (pieces inside s) = s := by
  induction hn : s.length using Nat.strong_induction_on generalizing inside s with
  | _ n ih =>
      cases h : find (tagAfter inside) s with
      | none =>
          rw [pieces_of_none h]
          rfl
      | some idx =>
          have hpos := length_tagAfter_pos inside
          have hlen := length_le_of_find h
          have hrest := ih (s.drop (idx + (tagAfter inside).length)).length
            (by simp only [List.length_drop]; omega) (!inside) _ rfl
          obtain ⟨p, ps, hps⟩ := List.exists_cons_of_ne_nil
            (pieces_ne_nil (!inside) (s.drop (idx + (tagAfter inside).length)))
          rw [pieces_of_some h, hps, rebuild, ← hps, hrest]
          · obtain ⟨t, ht⟩ := prefix_of_find h
            rw [← List.drop_drop, ← ht, List.drop_left, List.append_assoc, ht, List.take_append_drop]
          · exact List.cons_ne_nil _ _

/-- The reference segmentation of a rest, behind what is already there. -/
def segmentFrom (out : List ParsedSegment) (inside : Bool) (s : Str) : List ParsedSegment :=
  (segmentsOf (pieces inside s)).foldl pushSegment out

theorem foldl_segmentsOf_cons (out : List ParsedSegment) (inside : Bool) (s : Str) (ps : List (Bool × Str)) :
    (segmentsOf ((inside, s) :: ps)).foldl pushSegment out =
      (segmentsOf ps).foldl pushSegment (emit out inside s) := by
  by_cases hs : s = []
  · rw [hs]
    rfl
  · rw [emit_of_ne _ _ hs]
    simp [segmentsOf, hs]

theorem segmentFrom_of_none {out : List ParsedSegment} (h : find (tagAfter inside) s = none) :
    segmentFrom out inside s = emit out inside s := by
  rw [segmentFrom, pieces_of_none h, foldl_segmentsOf_cons]
  rfl

theorem segmentFrom_of_some {out : List ParsedSegment} {idx : Nat} (h : find (tagAfter inside) s = some idx) :
    segmentFrom out inside s = segmentFrom (emit out inside (s.take idx)) (!inside)
      (s.drop (idx + (tagAfter inside).length)) := by
  rw [segmentFrom, pieces_of_some h, foldl_segmentsOf_cons]
  rfl

def stateAfter (piece : Bool × Str) : ThinkParser := ⟨heldBack piece.2 (tagAfter piece.1), piece.1⟩

def endState (inside : Bool) (s : Str) : Option ThinkParser := (pieces inside s).getLast?.map stateAfter

theorem endState_of_none (h : find (tagAfter inside) s = none) :
    endState inside s = some ⟨heldBack s (tagAfter inside), inside⟩ := by
  rw [endState, pieces_of_none h]
  rfl

theorem endState_of_some {idx : Nat} (h : find (tagAfter inside) s = some idx) :
    endState inside s = endState (!inside) (s.drop (idx + (tagAfter inside).length)) := by
  rw [endState, pieces_of_some h, List.getLast?_cons_of_ne_nil (pieces_ne_nil _ _)]
  rfl

/-! ## One turn of the loop, whatever text is still to come -/

/-- What a turn does: the rest of the string is segmented as before, and the parser will stop in the
same state. -/
structure Agrees (parser parser' : ThinkParser) (out out' : List ParsedSegment) : Prop where
  segments : ∀ future, segmentFrom out parser.insideThink (parser.pending ++ future) =
    segmentFrom out' parser'.insideThink (parser'.pending ++ future)
  state : ∀ future, endState parser.insideThink (parser.pending ++ future) =
    endState parser'.insideThink (parser'.pending ++ future)

theorem Agrees.trans {p₁ p₂ p₃ : ThinkParser} {o₁ o₂ o₃ : List ParsedSegment} (h : Agrees p₁ p₂ o₁ o₂)
    (h' : Agrees p₂ p₃ o₂ o₃) : Agrees p₁ p₃ o₁ o₃ :=
  ⟨fun future => (h.segments future).trans (h'.segments future),
    fun future => (h.state future).trans (h'.state future)⟩

theorem agrees_tag {idx : Nat} (out : List ParsedSegment) (h : find (tagAfter inside) s = some idx) :
    Agrees ⟨s, inside⟩ ⟨s.drop (idx + (tagAfter inside).length), !inside⟩ out
      (emit out inside (s.take idx)) := by
  have hlen := length_le_of_find h
  have hpos := length_tagAfter_pos inside
  constructor
  · intro future
    rw [segmentFrom_of_some (find_append_of_some future h), List.take_append_of_le_length (by omega),
      List.drop_append_of_le_length (by omega)]
  · intro future
    rw [endState_of_some (find_append_of_some future h), List.drop_append_of_le_length (by omega)]

theorem agrees_emit (out : List ParsedSegment) (h : find (tagAfter inside) s = none) :
    Agrees ⟨s, inside⟩ ⟨heldBack s (tagAfter inside), inside⟩ out
      (emit out inside (s.take (trailingPartialMatch s (tagAfter inside)))) := by
  have hpos := length_tagAfter_pos inside
  have hk := trailingPartialMatch_le_length s (tagAfter inside)
  have hlen : (s.take (trailingPartialMatch s (tagAfter inside))).length =
      trailingPartialMatch s (tagAfter inside) := by
    rw [List.length_take, Nat.min_eq_left hk]
  have hsplit : ∀ future, s ++ future =
      s.take (trailingPartialMatch s (tagAfter inside)) ++ (heldBack s (tagAfter inside) ++ future) := by
    intro future
    rw [heldBack, ← List.append_assoc, List.take_append_drop]
  have hdrop : ∀ future n, (s ++ future).drop (trailingPartialMatch s (tagAfter inside) + n) =
      (heldBack s (tagAfter inside) ++ future).drop n := by
    intro future n
    rw [hsplit, ← List.drop_drop, List.drop_left' hlen]
  constructor
  · intro future
    have hfind := find_emitted future h
    cases hrest : find (tagAfter inside) (heldBack s (tagAfter inside) ++ future) with
    | none =>
        rw [hrest] at hfind
        rw [segmentFrom_of_none hfind, segmentFrom_of_none hrest, emit_emit, ← hsplit]
    | some j =>
        rw [hrest, Option.map_some, Nat.add_comm] at hfind
        have htake : (s ++ future).take (trailingPartialMatch s (tagAfter inside) + j) =
            s.take (trailingPartialMatch s (tagAfter inside)) ++
              (heldBack s (tagAfter inside) ++ future).take j := by
          rw [hsplit, List.take_append, hlen, Nat.add_sub_cancel_left,
            List.take_of_length_le (by rw [hlen]; omega)]
        rw [segmentFrom_of_some hfind, segmentFrom_of_some hrest, emit_emit, htake, Nat.add_assoc, hdrop]
  · intro future
    have hfind := find_emitted future h
    cases hrest : find (tagAfter inside) (heldBack s (tagAfter inside) ++ future) with
    | none =>
        rw [hrest] at hfind
        rw [endState_of_none hfind, endState_of_none hrest, heldBack_append hpos]
    | some j =>
        rw [hrest, Option.map_some, Nat.add_comm] at hfind
        rw [endState_of_some hfind, endState_of_some hrest, Nat.add_assoc, hdrop]

namespace ThinkParser

theorem emit_take {pending : Str} {n : Nat} (out : List ParsedSegment) (inside : Bool)
    (hn : n ≤ pending.length) :
    (if n > 0 then pushSegment out (segment inside (pending.take n)) else out) =
      emit out inside (pending.take n) := by
  cases n with
  | zero => rfl
  | succ n =>
      have hne : pending.take (n + 1) ≠ [] := by
        intro h
        have := congrArg List.length h
        simp only [List.length_take, List.length_nil] at this
        omega
      rw [emit_of_ne _ _ hne, if_pos (Nat.succ_pos n)]

/-- The two branches of the loop are one, with the tag and the kind of segment exchanged. -/
theorem pushLoop_succ (fuel : Nat) (pending : Str) (inside : Bool) (out : List ParsedSegment) :
    pushLoop (fuel + 1) ⟨pending, inside⟩ out =
      match find (tagAfter inside) pending with
      | some idx =>
          pushLoop fuel ⟨pending.drop (idx + (tagAfter inside).length), !inside⟩
            (if idx > 0 then pushSegment out (segment inside (pending.take idx)) else out)
      | none =>
          let safeEmitTo := trailingPartialMatch pending (tagAfter inside)
          if safeEmitTo > 0 then
            (⟨pending.drop safeEmitTo, inside⟩, pushSegment out (segment inside (pending.take safeEmitTo)))
          else (⟨pending, inside⟩, out) := by
  cases inside with
  | false => rfl
  | true => rfl

theorem pushLoop_of_some {pending : Str} {inside : Bool} {idx : Nat} (fuel : Nat) (out : List ParsedSegment)
    (h : find (tagAfter inside) pending = some idx) :
    pushLoop (fuel + 1) ⟨pending, inside⟩ out =
      pushLoop fuel ⟨pending.drop (idx + (tagAfter inside).length), !inside⟩
        (emit out inside (pending.take idx)) := by
  have hlen := length_le_of_find h
  have hpos := length_tagAfter_pos inside
  rw [pushLoop_succ, h]
  simp only
  rw [emit_take out inside (by omega)]

theorem pushLoop_of_none {pending : Str} {inside : Bool} (fuel : Nat) (out : List ParsedSegment)
    (h : find (tagAfter inside) pending = none) :
    pushLoop (fuel + 1) ⟨pending, inside⟩ out =
      (⟨heldBack pending (tagAfter inside), inside⟩,
        emit out inside (pending.take (trailingPartialMatch pending (tagAfter inside)))) := by
  rw [pushLoop_succ, h]
  simp only
  rw [← emit_take out inside (trailingPartialMatch_le_length _ _), heldBack]
  split
  · rfl
  · rename_i hzero
    rw [Nat.eq_zero_of_not_pos hzero]
    rfl

/-- A parser that waits for more text: no tag is in the buffer, and all of it may become one. -/
def Waiting (parser : ThinkParser) : Prop :=
  find (tagAfter parser.insideThink) parser.pending = none ∧
    heldBack parser.pending (tagAfter parser.insideThink) = parser.pending

/-- Enough turns bring the parser to wait, with the rest of the string segmented as before. -/
theorem pushLoop_spec {fuel : Nat} (parser : ThinkParser) (hfuel : parser.pending.length < fuel)
    (out : List ParsedSegment) :
    Agrees parser (pushLoop fuel parser out).1 out (pushLoop fuel parser out).2 ∧
      Waiting (pushLoop fuel parser out).1 := by
  induction fuel generalizing parser out with
  | zero => exact absurd hfuel (Nat.not_lt_zero _)
  | succ fuel ih =>
      obtain ⟨pending, inside⟩ := parser
      have hpos := length_tagAfter_pos inside
      cases h : find (tagAfter inside) pending with
      | none =>
          rw [pushLoop_of_none fuel out h]
          refine ⟨agrees_emit out h, ?_, ?_⟩
          · have hfind := find_emitted [] h
            rw [List.append_nil, h, List.append_nil] at hfind
            exact Option.map_eq_none_iff.mp hfind.symm
          · have := heldBack_append hpos pending []
            rwa [List.append_nil, List.append_nil] at this
      | some idx =>
          have hlen := length_le_of_find h
          rw [pushLoop_of_some fuel out h]
          obtain ⟨hagrees, hwait⟩ := ih ⟨pending.drop (idx + (tagAfter inside).length), !inside⟩
            (by simp only [List.length_drop]; simp only at hfuel; omega) (emit out inside (pending.take idx))
          exact ⟨(agrees_tag out h).trans hagrees, hwait⟩

end ThinkParser

end Codrex.Minimax
