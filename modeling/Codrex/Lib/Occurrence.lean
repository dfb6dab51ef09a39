import Codrex.Lib.Text

/-!
# Single occurrences

A pattern that occurs once in a string is found there from both sides, and counted once.
-/

namespace Text

variable {p q s t front back : Str}

/-- The string holds the pattern between these two parts, and nowhere else. -/
structure OnceAt (p s front back : Str) : Prop where
  split : s = front ++ (p ++ back)
  unique : ∀ front' back', s = front' ++ (p ++ back') → front' = front

/-- No end of the pattern is a beginning of it. -/
def Borderless (p : Str) : Prop := ∀ k < p.length, 0 < k → ¬ p.drop k <+: p

/-- An occurrence of one pattern does not reach into one of the other that starts no earlier. -/
def Apart (p q : Str) : Prop := ∀ k < p.length, ¬ p.drop k <+: q ∧ ¬ q <+: p.drop k

instance (p : Str) : Decidable (Borderless p) := inferInstanceAs (Decidable (∀ k < p.length, 0 < k → ¬ p.drop k <+: p))

instance (p q : Str) : Decidable (Apart p q) :=
  inferInstanceAs (Decidable (∀ k < p.length, ¬ p.drop k <+: q ∧ ¬ q <+: p.drop k))

/-! ## Where patterns start -/

theorem split_of_prefix_drop {j : Nat} (h : p <+: s.drop j) : ∃ back, s = s.take j ++ (p ++ back) := by
  obtain ⟨back, hback⟩ := h
  exact ⟨back, by rw [hback, List.take_append_drop]⟩

theorem find_eq_none_iff : find p s = none ↔ ¬ ∃ front back, s = front ++ (p ++ back) := by
  rw [find_eq_none]
  constructor
  · rintro h ⟨front, back, rfl⟩
    apply h front.length (by simp)
    rw [List.drop_left]
    exact List.prefix_append p back
  · intro h j _ hj
    obtain ⟨back, hback⟩ := split_of_prefix_drop hj
    exact h ⟨_, _, hback⟩

theorem contains_eq_true_iff : contains s p = true ↔ p <:+: s := by
  unfold contains
  rw [← Option.ne_none_iff_isSome, Ne, find_eq_none_iff, not_not]
  constructor
  · rintro ⟨front, back, rfl⟩
    exact ⟨front, back, by simp⟩
  · rintro ⟨front, back, rfl⟩
    exact ⟨front, back, by simp⟩

theorem OnceAt.not_before (h : OnceAt p s front back) : ∀ j < front.length, ¬ p <+: front.drop j ++ (p ++ back) := by
  intro j hj hp
  have hdrop : p <+: s.drop j := by
    rw [h.split, List.drop_append_of_le_length (Nat.le_of_lt hj)]
    exact hp
  obtain ⟨back', hback'⟩ := split_of_prefix_drop hdrop
  have hlen := congrArg List.length (h.unique _ _ hback')
  rw [List.length_take] at hlen
  omega

theorem OnceAt.find_eq (h : OnceAt p s front back) : find p s = some front.length := by
  rw [h.split, find_append h.not_before, find_eq_zero (List.prefix_append p back)]
  simp

/-- A part of the string that holds the pattern holds it once. -/
theorem OnceAt.inner {a b x y : Str} (h : OnceAt p s (a ++ x) (y ++ b)) : OnceAt p (x ++ (p ++ y)) x y where
  split := rfl
  unique front' back' heq := by
    have hs : s = (a ++ front') ++ (p ++ (back' ++ b)) :=
      calc s = a ++ (x ++ (p ++ y)) ++ b := by rw [h.split]; simp
        _ = a ++ (front' ++ (p ++ back')) ++ b := by rw [heq]
        _ = (a ++ front') ++ (p ++ (back' ++ b)) := by simp
    exact List.append_cancel_left (h.unique _ _ hs)

theorem rfind_eq_none_iff : rfind p s = none ↔ find p s = none := by
  induction s with
  | nil => simp [rfind, find]
  | cons c s ih =>
      by_cases hp : p <+: c :: s
      · rw [find_eq_zero hp]
        simp only [rfind, List.isPrefixOf_iff_prefix.mpr hp, if_true]
        cases rfind p s with
        | none => simp
        | some i => simp
      · rw [find_cons hp, Option.map_eq_none_iff, ← ih]
        simp only [rfind]
        cases rfind p s with
        | none => simp [hp]
        | some i => simp

theorem OnceAt.rfind_eq (h : OnceAt p s front back) (hp : p ≠ []) : rfind p s = some front.length := by
  obtain ⟨hsplit, hunique⟩ := h
  subst hsplit
  induction front with
  | nil =>
      obtain ⟨c, p', rfl⟩ := List.exists_cons_of_ne_nil hp
      have hnone : rfind (c :: p') (p' ++ back) = none := by
        rw [rfind_eq_none_iff, find_eq_none_iff]
        rintro ⟨front', back', heq⟩
        have hcons := hunique (c :: front') back' (by simp [heq])
        cases hcons
      simp [rfind, hnone]
  | cons c front ih =>
      have htail := ih fun front' back' heq => by
        have hcons := hunique (c :: front') back' (by simp [heq])
        exact (List.cons.inj hcons).2
      simp [rfind, htail]

/-! ## Counting -/

theorem matchCountFrom_skip (p s : Str) (skip : Nat) : matchCountFrom p s skip = matchCountFrom p (s.drop skip) 0 := by
  induction skip generalizing s with
  | zero => rfl
  | succ skip ih =>
      cases s with
      | nil => rfl
      | cons c s => exact ih s

theorem matchCount_eq_zero (h : find p s = none) : matchCount s p = 0 := by
  induction s with
  | nil => rfl
  | cons c s ih =>
      have hpre : ¬ p <+: c :: s := by
        intro hpre
        rw [find_eq_zero hpre] at h
        cases h
      rw [find_cons hpre, Option.map_eq_none_iff] at h
      have hrest := ih h
      unfold matchCount at hrest ⊢
      rw [matchCountFrom, if_neg (by simpa using hpre), hrest]

/-- The leftmost occurrence is counted, and then those behind it. -/
theorem matchCount_append (hp : p ≠ []) (h : ∀ j < front.length, ¬ p <+: front.drop j ++ (p ++ back)) :
    matchCount (front ++ (p ++ back)) p = matchCount back p + 1 := by
  induction front with
  | nil =>
      obtain ⟨c, p', rfl⟩ := List.exists_cons_of_ne_nil hp
      unfold matchCount
      simp only [List.nil_append, List.cons_append, matchCountFrom]
      rw [if_pos (by simp), matchCountFrom_skip]
      simp
  | cons c front ih =>
      have hfirst : ¬ p <+: c :: (front ++ (p ++ back)) := h 0 (by simp)
      have hrest := ih fun j hj => h (j + 1) (by simpa using hj)
      unfold matchCount at hrest ⊢
      rw [List.cons_append, matchCountFrom, if_neg (by simpa using hfirst), hrest]

theorem append_append_cases {a b c d : Str} (h : a ++ b = c ++ d) (hle : a.length ≤ c.length) :
    ∃ m, c = a ++ m ∧ b = m ++ d := by
  rcases List.append_eq_append_iff.mp h with ⟨m, hc, hb⟩ | ⟨m, ha, hd⟩
  · exact ⟨m, hc, hb⟩
  · have hm : m = [] := by
      rw [ha, List.length_append] at hle
      exact List.eq_nil_of_length_eq_zero (by omega)
    subst hm
    simp only [List.append_nil] at ha
    exact ⟨[], by simp [ha], by simpa using hd.symm⟩

/-- Two occurrences that cannot overlap where they start. -/
theorem append_cases_of_apart {c d : Str} (heq : front ++ (p ++ back) = c ++ (q ++ d))
    (hle : front.length ≤ c.length)
    (hapart : ∀ k < p.length, c.length = front.length + k → ¬ p.drop k <+: q ∧ ¬ q <+: p.drop k) :
    ∃ m, c = front ++ (p ++ m) := by
  obtain ⟨m, rfl, hm⟩ := append_append_cases heq hle
  by_cases hlen : p.length ≤ m.length
  · obtain ⟨m', rfl, -⟩ := append_append_cases hm hlen
    exact ⟨m', rfl⟩
  · -- The second pattern would start inside the first.
    exfalso
    obtain ⟨r, rfl, hr⟩ := append_append_cases hm.symm (by omega)
    have hno := hapart m.length (by omega) (by simp)
    rw [List.drop_left] at hno
    rcases Nat.le_total r.length q.length with hrq | hrq
    · obtain ⟨u, hu, -⟩ := append_append_cases hr.symm hrq
      exact hno.1 ⟨u, hu.symm⟩
    · obtain ⟨u, hu, -⟩ := append_append_cases hr hrq
      exact hno.2 ⟨u, hu.symm⟩

theorem Apart.append_cases {c d : Str} (h : Apart p q) (heq : front ++ (p ++ back) = c ++ (q ++ d))
    (hle : front.length ≤ c.length) : ∃ m, c = front ++ (p ++ m) :=
  append_cases_of_apart heq hle fun k hk _ => h k hk

theorem Borderless.append_cases {c d : Str} (h : Borderless p) (heq : front ++ (p ++ back) = c ++ (p ++ d))
    (hlt : front.length < c.length) : ∃ m, c = front ++ (p ++ m) := by
  apply append_cases_of_apart heq (Nat.le_of_lt hlt)
  intro k hk hc
  refine ⟨h k hk (by omega), fun hpre => ?_⟩
  have hlen := hpre.length_le
  rw [List.length_drop] at hlen
  omega

theorem not_prefix_of_lt_find {i j : Nat} (h : find p s = some i) (hj : j < i) : ¬ p <+: s.drop j := by
  induction s generalizing i j with
  | nil =>
      simp only [find] at h
      split at h
      · cases h
        omega
      · cases h
  | cons c s ih =>
      by_cases hp : p <+: c :: s
      · rw [find_eq_zero hp] at h
        cases h
        omega
      · rw [find_cons hp] at h
        obtain ⟨i', hi', rfl⟩ := Option.map_eq_some_iff.mp h
        cases j with
        | zero => exact hp
        | succ j => exact ih hi' (by omega)

/-- A string cut at the leftmost occurrence. -/
theorem exists_split_of_find {i : Nat} (h : find p s = some i) :
    ∃ front back, s = front ++ (p ++ back) ∧ front.length = i ∧
      ∀ j < front.length, ¬ p <+: front.drop j ++ (p ++ back) := by
  obtain ⟨back, hback⟩ := split_of_prefix_drop (prefix_of_find h)
  have hi : i ≤ s.length := by
    by_contra hlt
    have hnone := not_prefix_of_lt_find h (Nat.lt_of_not_le hlt)
    have hpre := prefix_of_find h
    rw [List.drop_eq_nil_of_le (by omega)] at hpre hnone
    exact hnone hpre
  have hlen : (s.take i).length = i := by rw [List.length_take, Nat.min_eq_left hi]
  refine ⟨s.take i, back, hback, hlen, ?_⟩
  intro j hj hp
  apply not_prefix_of_lt_find h (j := j) (by omega)
  rw [hback, List.drop_append_of_le_length (Nat.le_of_lt hj)]
  exact hp

theorem matchCount_eq_zero_iff (hp : p ≠ []) : matchCount s p = 0 ↔ find p s = none := by
  refine ⟨fun hzero => ?_, matchCount_eq_zero⟩
  cases hfind : find p s with
  | none => rfl
  | some i =>
      obtain ⟨front, back, rfl, -, hfirst⟩ := exists_split_of_find hfind
      rw [matchCount_append hp hfirst] at hzero
      omega

theorem matchCount_eq_one_iff (hp : p ≠ []) (hborder : Borderless p) :
    matchCount s p = 1 ↔ ∃ front back, OnceAt p s front back := by
  constructor
  · intro hcount
    cases hfind : find p s with
    | none =>
        rw [matchCount_eq_zero hfind] at hcount
        cases hcount
    | some i =>
        obtain ⟨front, back, hsplit, hlen, hfirst⟩ := exists_split_of_find hfind
        refine ⟨front, back, hsplit, fun front' back' heq => ?_⟩
        rcases Nat.lt_trichotomy front'.length front.length with hlt | heqlen | hgt
        · have hpre := not_prefix_of_lt_find hfind (hlen ▸ hlt)
          rw [heq, List.drop_left] at hpre
          exact absurd (List.prefix_append p back') hpre
        · rw [hsplit] at heq
          exact (List.append_inj_left heq heqlen.symm).symm
        · -- A second occurrence lies behind the first and is counted too.
          rw [hsplit] at heq
          obtain ⟨m, rfl⟩ := hborder.append_cases heq hgt
          have hback : back = m ++ (p ++ back') := by simpa using heq
          rw [hsplit, matchCount_append hp hfirst] at hcount
          have hzero : matchCount back p = 0 := by omega
          rw [matchCount_eq_zero_iff hp, find_eq_none_iff] at hzero
          exact absurd ⟨m, back', hback⟩ hzero
  · rintro ⟨front, back, h⟩
    have hnone : find p back = none := by
      rw [find_eq_none_iff]
      rintro ⟨front', back', rfl⟩
      have heq := h.unique (front ++ (p ++ front')) back' (by rw [h.split]; simp)
      have hlen := congrArg List.length heq
      have hpos := List.length_pos_of_ne_nil hp
      simp only [List.length_append] at hlen
      omega
    rw [h.split, matchCount_append hp h.not_before, matchCount_eq_zero hnone]

end Text
