import Codrex.Lib.Occurrence

/-!
# Line endings

A carriage return in front of a line feed is dropped. What a text holds without line breaks stays where it is.
-/

namespace Text

variable {s t x y : Str} {c : Char}

/-- `replace("\r\n", "\n")`. -/
def unifyEndings : Str → Str
  | [] => []
  | c :: s => if c = '\r' ∧ s.head? = some '\n' then unifyEndings s else c :: unifyEndings s

attribute [local simp] unifyEndings

theorem unifyEndings_cons (h : ¬ (c = '\r' ∧ s.head? = some '\n')) : unifyEndings (c :: s) = c :: unifyEndings s := by
  rw [unifyEndings, if_neg h]

theorem unifyEndings_drop (h : c = '\r' ∧ s.head? = some '\n') : unifyEndings (c :: s) = unifyEndings s := by
  rw [unifyEndings, if_pos h]

@[simp] theorem unifyEndings_crlf (s : Str) : unifyEndings ('\r' :: '\n' :: s) = unifyEndings ('\n' :: s) :=
  unifyEndings_drop ⟨rfl, rfl⟩

@[simp] theorem unifyEndings_lf (s : Str) : unifyEndings ('\n' :: s) = '\n' :: unifyEndings s :=
  unifyEndings_cons (by simp)

theorem replace_crlf (s : Str) : replace s ['\r', '\n'] ['\n'] = unifyEndings s := by
  unfold replace
  fun_induction unifyEndings s with
  | case1 => rfl
  | case2 c s h ih =>
      obtain ⟨rfl, hhead⟩ := h
      obtain ⟨s', rfl⟩ := List.head?_eq_some_iff.mp hhead
      rw [replaceFrom, if_pos (by simp), ← ih]
      simp [replaceFrom]
  | case3 c s h ih =>
      have hpre : ¬ ['\r', '\n'].isPrefixOf (c :: s) = true := by
        intro hpre
        apply h
        cases s with
        | nil => simp at hpre
        | cons d s =>
            simp only [List.isPrefixOf_iff_prefix, List.cons_prefix_cons] at hpre
            exact ⟨hpre.1.symm, congrArg some hpre.2.1.symm⟩
      rw [replaceFrom, if_neg hpre, ih]

theorem unifyEndings_append (h : ¬ (x.getLast? = some '\r' ∧ y.head? = some '\n')) :
    unifyEndings (x ++ y) = unifyEndings x ++ unifyEndings y := by
  induction x with
  | nil => rfl
  | cons c x ih =>
      cases x with
      | nil =>
          have hc : ¬ (c = '\r' ∧ y.head? = some '\n') := by simpa using h
          rw [List.singleton_append, unifyEndings_cons hc, unifyEndings_cons (by simp)]
          rfl
      | cons d x =>
          have hrest := ih (by simpa using h)
          have hhead : (d :: x ++ y).head? = (d :: x).head? := rfl
          by_cases hcr : c = '\r' ∧ (d :: x).head? = some '\n'
          · rw [List.cons_append, unifyEndings_drop (hhead ▸ hcr), unifyEndings_drop hcr, hrest]
          · rw [List.cons_append, unifyEndings_cons (hhead ▸ hcr), unifyEndings_cons hcr, hrest]
            rfl

/-- A line loses one carriage return at its end. -/
theorem unifyEndings_append_lf (x y : Str) :
    unifyEndings (x ++ '\n' :: y) = unifyEndings (stripCr x) ++ '\n' :: unifyEndings y := by
  unfold stripCr
  split
  · rename_i hcr
    obtain ⟨front, rfl⟩ := List.getLast?_eq_some_iff.mp hcr
    rw [List.dropLast_concat, List.append_assoc, unifyEndings_append (by simp)]
    simp
  · rename_i hcr
    rw [unifyEndings_append (by simp [hcr])]
    simp

theorem unifyEndings_eq_self (h : '\n' ∉ s) : unifyEndings s = s := by
  induction s with
  | nil => rfl
  | cons c s ih =>
      have hrest : '\n' ∉ s := fun hmem => h (List.mem_cons_of_mem _ hmem)
      rw [unifyEndings_cons, ih hrest]
      rintro ⟨-, hhead⟩
      exact hrest (List.mem_of_mem_head? hhead)

theorem unifyEndings_eq_self_of_not_infix (h : ¬ ['\r', '\n'] <:+: s) : unifyEndings s = s := by
  induction s with
  | nil => rfl
  | cons c s ih =>
      rw [unifyEndings_cons, ih fun hrest => h (hrest.trans (List.suffix_cons c s).isInfix)]
      rintro ⟨rfl, hhead⟩
      obtain ⟨rest, rfl⟩ := List.head?_eq_some_iff.mp hhead
      exact h (List.prefix_append ['\r', '\n'] rest).isInfix

theorem length_unifyEndings_le (s : Str) : (unifyEndings s).length ≤ s.length := by
  fun_induction unifyEndings s with
  | case1 => exact Nat.le_refl _
  | case2 c s h ih => exact Nat.le_succ_of_le ih
  | case3 c s h ih => exact Nat.succ_le_succ ih

theorem unifyEndings_eq_self_iff : unifyEndings s = s ↔ ¬ ['\r', '\n'] <:+: s := by
  refine ⟨?_, unifyEndings_eq_self_of_not_infix⟩
  rintro hself ⟨x, y, rfl⟩
  have hlf := unifyEndings_append_lf (x ++ ['\r']) y
  rw [show stripCr (x ++ ['\r']) = x by simp [stripCr],
    show x ++ ['\r'] ++ '\n' :: y = x ++ ['\r', '\n'] ++ y by simp, hself] at hlf
  have hlen := congrArg List.length hlf
  have hx := length_unifyEndings_le x
  have hy := length_unifyEndings_le y
  simp only [List.length_append, List.length_cons, List.length_nil] at hlen
  omega

theorem mem_unifyEndings_of_ne (hc : c ≠ '\r') : c ∈ unifyEndings s ↔ c ∈ s := by
  fun_induction unifyEndings s with
  | case1 => rfl
  | case2 d s h ih =>
      rw [ih, h.1]
      simp [hc]
  | case3 d s h ih => rw [List.mem_cons, List.mem_cons, ih]

theorem mem_of_mem_unifyEndings (h : c ∈ unifyEndings s) : c ∈ s := by
  fun_induction unifyEndings s with
  | case1 => exact h
  | case2 d s hcr ih => exact List.mem_cons_of_mem _ (ih h)
  | case3 d s hcr ih =>
      rcases List.mem_cons.mp h with rfl | h
      · exact List.mem_cons_self
      · exact List.mem_cons_of_mem _ (ih h)

/-- A text without line feeds comes from itself only. -/
theorem eq_of_unifyEndings_eq (h : unifyEndings s = t) (ht : '\n' ∉ t) : s = t := by
  have hs : '\n' ∉ s := by
    rw [← mem_unifyEndings_of_ne (by decide), h]
    exact ht
  rw [← h, unifyEndings_eq_self hs]

/-- Parts of the result come from parts of the text. -/
theorem unifyEndings_eq_append {x' y' : Str} (h : unifyEndings s = x' ++ y') :
    ∃ x y, s = x ++ y ∧ unifyEndings x = x' ∧ unifyEndings y = y' := by
  induction s generalizing x' with
  | nil =>
      obtain ⟨rfl, rfl⟩ := List.append_eq_nil_iff.mp h.symm
      exact ⟨[], [], rfl, rfl, rfl⟩
  | cons c s ih =>
      by_cases hcr : c = '\r' ∧ s.head? = some '\n'
      · have hdrop := unifyEndings_drop hcr
        obtain ⟨x, y, rfl, rfl, rfl⟩ := ih (hdrop ▸ h)
        cases x with
        | nil => exact ⟨[], c :: y, rfl, rfl, hdrop⟩
        | cons d x => exact ⟨c :: d :: x, y, rfl, unifyEndings_drop (by simpa using hcr), rfl⟩
      · cases x' with
        | nil => exact ⟨[], c :: s, rfl, rfl, h⟩
        | cons d x' =>
            rw [unifyEndings_cons hcr, List.cons_append, List.cons.injEq] at h
            obtain ⟨rfl, h⟩ := h
            obtain ⟨x, y, rfl, rfl, rfl⟩ := ih h
            refine ⟨c :: x, y, rfl, ?_, rfl⟩
            apply unifyEndings_cons
            rintro ⟨hc, hhead⟩
            exact hcr ⟨hc, by simp [hhead]⟩

theorem unifyEndings_eq_lf_cons {y' : Str} (h : unifyEndings s = '\n' :: y') :
    ∃ cr y, s = cr ++ '\n' :: y ∧ (∀ c ∈ cr, c = '\r') ∧ unifyEndings y = y' := by
  induction s with
  | nil => cases h
  | cons c s ih =>
      by_cases hcr : c = '\r' ∧ s.head? = some '\n'
      · rw [unifyEndings_drop hcr] at h
        obtain ⟨cr, y, rfl, hall, hy⟩ := ih h
        exact ⟨c :: cr, y, rfl, by simpa [hcr.1] using hall, hy⟩
      · rw [unifyEndings_cons hcr, List.cons.injEq] at h
        obtain ⟨rfl, h⟩ := h
        exact ⟨[], s, rfl, by simp, h⟩

/-! ## White space -/

theorem trim_unifyEndings_eq_nil_iff : trim (unifyEndings s) = [] ↔ trim s = [] := by
  rw [trim_eq_nil_iff, trim_eq_nil_iff]
  constructor
  · intro h c hc
    by_cases hcr : c = '\r'
    · rw [hcr]
      decide
    · exact h c ((mem_unifyEndings_of_ne hcr).mpr hc)
  · intro h c hc
    exact h c (mem_of_mem_unifyEndings hc)

theorem trim_append_of_ws (s : Str) {w : Str} (hw : ∀ c ∈ w, isWhitespace c = true) : trim (s ++ w) = trim s := by
  induction w using List.reverseRecOn with
  | nil => rw [List.append_nil]
  | append_singleton w c ih =>
      rw [← List.append_assoc, trim_append_ws (hw c (by simp))]
      exact ih fun d hd => hw d (by simp [hd])

theorem trim_ws_append {w : Str} (hw : ∀ c ∈ w, isWhitespace c = true) (s : Str) : trim (w ++ s) = trim s := by
  induction w with
  | nil => rfl
  | cons c w ih =>
      have hrest := ih fun d hd => hw d (List.mem_cons_of_mem _ hd)
      unfold trim trimStart at hrest ⊢
      rw [List.cons_append, List.dropWhile_cons_of_pos (hw c List.mem_cons_self)]
      exact hrest

/-- A text, cut into white space, what is left of it, and white space. -/
theorem exists_trim (s : Str) :
    ∃ w w', s = w ++ (trim s ++ w') ∧ (∀ c ∈ w, isWhitespace c = true) ∧ ∀ c ∈ w', isWhitespace c = true := by
  obtain ⟨w', hw', hblank⟩ := exists_trimEnd (trimStart s)
  refine ⟨s.takeWhile isWhitespace, w', ?_, fun c hc => List.mem_takeWhile_imp hc, hblank⟩
  have hstart : s = s.takeWhile isWhitespace ++ trimStart s := (List.takeWhile_append_dropWhile).symm
  nth_rewrite 1 [hstart]
  rw [hw']
  rfl

theorem trim_trim (s : Str) : trim (trim s) = trim s := by
  obtain ⟨w, w', hs, hw, hw'⟩ := exists_trim s
  nth_rewrite 2 [hs]
  rw [trim_ws_append hw, trim_append_of_ws _ hw']

theorem length_trim_le (s : Str) : (trim s).length ≤ s.length := by
  obtain ⟨w, w', hs, -, -⟩ := exists_trim s
  have hlen := congrArg List.length hs
  simp only [List.length_append] at hlen
  omega

theorem trim_eq_self_iff :
    trim s = s ↔ (∀ c ∈ s.head?, isWhitespace c = false) ∧ ∀ c ∈ s.getLast?, isWhitespace c = false := by
  constructor
  · intro h
    refine ⟨fun c hc => ?_, fun c hc => getLast?_trim (s := s) (by rw [h]; exact hc)⟩
    obtain ⟨rest, rfl⟩ := List.head?_eq_some_iff.mp hc
    by_contra hws
    have hdrop : trim (c :: rest) = trim rest := trim_ws_append (w := [c]) (by simpa using hws) rest
    have hlen := length_trim_le rest
    rw [← hdrop, h, List.length_cons] at hlen
    omega
  · rintro ⟨hhead, hlast⟩
    have hstart : trimStart s = s := by
      cases s with
      | nil => rfl
      | cons c s => exact trimStart_cons (hhead c rfl)
    unfold trim
    rw [hstart]
    rcases List.eq_nil_or_concat s with rfl | ⟨front, c, rfl⟩
    · rfl
    · rw [List.concat_eq_append] at hlast ⊢
      exact trimEnd_concat (hlast c (by simp))

theorem head?_unifyEndings (hc : c ≠ '\r') (h : s.head? = some c) : (unifyEndings s).head? = some c := by
  obtain ⟨rest, rfl⟩ := List.head?_eq_some_iff.mp h
  rw [unifyEndings_cons (fun hcr => hc hcr.1)]
  rfl

theorem getLast?_unifyEndings (hc : c ≠ '\n') (h : s.getLast? = some c) : (unifyEndings s).getLast? = some c := by
  obtain ⟨front, rfl⟩ := List.getLast?_eq_some_iff.mp h
  rw [unifyEndings_append (by simp [hc]), unifyEndings_cons (by simp)]
  exact List.getLast?_concat

/-- White space around a text is the same before and after. -/
theorem trim_unifyEndings (s : Str) : trim (unifyEndings s) = unifyEndings (trim s) := by
  by_cases hnil : trim s = []
  · rw [hnil, trim_unifyEndings_eq_nil_iff.mpr hnil]
    rfl
  · obtain ⟨w, w', hs, hw, hw'⟩ := exists_trim s
    obtain ⟨hhead, hlast⟩ := trim_eq_self_iff.mp (trim_trim s)
    -- No line break of the text reaches over an end of what is left of it.
    have hleft : ¬ (w.getLast? = some '\r' ∧ (trim s ++ w').head? = some '\n') := by
      rintro ⟨-, hlf⟩
      rw [List.head?_append_of_ne_nil _ hnil] at hlf
      exact absurd (hhead _ hlf) (by decide)
    have hright : ¬ ((trim s).getLast? = some '\r' ∧ w'.head? = some '\n') := by
      rintro ⟨hcr, -⟩
      exact absurd (hlast _ hcr) (by decide)
    have hws : ∀ v : Str, (∀ c ∈ v, isWhitespace c = true) → ∀ c ∈ unifyEndings v, isWhitespace c = true :=
      fun v hv c hc => hv c (mem_of_mem_unifyEndings hc)
    have hself : trim (unifyEndings (trim s)) = unifyEndings (trim s) := by
      rw [trim_eq_self_iff]
      have hfirst := hhead _ (List.head?_eq_some_head hnil)
      have hfinal := hlast _ (List.getLast?_eq_some_getLast hnil)
      have hcr : (trim s).head hnil ≠ '\r' := fun hcr => absurd (hcr ▸ hfirst) (by decide)
      have hlf : (trim s).getLast hnil ≠ '\n' := fun hlf => absurd (hlf ▸ hfinal) (by decide)
      rw [head?_unifyEndings hcr (List.head?_eq_some_head hnil),
        getLast?_unifyEndings hlf (List.getLast?_eq_some_getLast hnil)]
      simpa using ⟨hfirst, hfinal⟩
    nth_rewrite 1 [hs]
    rw [unifyEndings_append hleft, unifyEndings_append hright, trim_ws_append (hws w hw),
      trim_append_of_ws _ (hws w' hw'), hself]

/-! ## Patterns without line breaks -/

theorem unifyEndings_append_pattern {p : Str} (hp : p ≠ []) (hcr : '\r' ∉ p) (hlf : '\n' ∉ p) (x y : Str) :
    unifyEndings (x ++ (p ++ y)) = unifyEndings x ++ (p ++ unifyEndings y) := by
  rw [unifyEndings_append, unifyEndings_append, unifyEndings_eq_self hlf]
  · rintro ⟨hlast, -⟩
    exact hcr (List.mem_of_getLast? hlast)
  · rintro ⟨-, hhead⟩
    rw [List.head?_append_of_ne_nil _ hp] at hhead
    exact hlf (List.mem_of_mem_head? hhead)

theorem unifyEndings_eq_append_pattern {p x' y' : Str} (hlf : '\n' ∉ p) (h : unifyEndings s = x' ++ (p ++ y')) :
    ∃ x y, s = x ++ (p ++ y) ∧ unifyEndings x = x' ∧ unifyEndings y = y' := by
  obtain ⟨x, rest, rfl, hx, hrest⟩ := unifyEndings_eq_append h
  obtain ⟨p', y, rfl, hp', hy⟩ := unifyEndings_eq_append hrest
  rw [eq_of_unifyEndings_eq hp' hlf]
  exact ⟨x, y, rfl, hx, hy⟩

theorem OnceAt.unifyEndings {p front back : Str} (h : OnceAt p s front back) (hp : p ≠ []) (hcr : '\r' ∉ p)
    (hlf : '\n' ∉ p) : OnceAt p (unifyEndings s) (unifyEndings front) (unifyEndings back) where
  split := by
    rw [h.split]
    exact unifyEndings_append_pattern hp hcr hlf front back
  unique front' back' heq := by
    obtain ⟨x, y, hs, rfl, -⟩ := unifyEndings_eq_append_pattern hlf heq
    rw [h.unique x y hs]

theorem eq_of_unifyEndings_eq_of_pattern {p x₂ y₂ : Str} (hp : p ≠ []) (hlf : '\n' ∉ p)
    (heq : x ++ (p ++ y) = x₂ ++ (p ++ y₂)) (hle : x.length ≤ x₂.length)
    (h : Text.unifyEndings x₂ = Text.unifyEndings x) : x₂ = x := by
  obtain ⟨d, rfl, hd⟩ := append_append_cases heq hle
  have hhead : ¬ (x.getLast? = some '\r' ∧ d.head? = some '\n') := by
    rintro ⟨-, hhead⟩
    have hfirst : (p ++ y).head? = some '\n' := by
      rw [hd, List.head?_append, hhead]
      rfl
    rw [List.head?_append_of_ne_nil _ hp] at hfirst
    exact hlf (List.mem_of_mem_head? hfirst)
  rw [unifyEndings_append hhead] at h
  have hnil : Text.unifyEndings d = [] := List.append_right_eq_self.mp h
  rw [eq_of_unifyEndings_eq hnil (by simp), List.append_nil]

theorem onceAt_of_unifyEndings {p front' back' : Str} (h : OnceAt p (unifyEndings s) front' back') (hp : p ≠ [])
    (hcr : '\r' ∉ p) (hlf : '\n' ∉ p) : ∃ front back, OnceAt p s front back := by
  obtain ⟨x, y, hs, hx, -⟩ := unifyEndings_eq_append_pattern hlf h.split
  refine ⟨x, y, hs, fun x₂ y₂ hs₂ => ?_⟩
  have hx₂ : unifyEndings x₂ = unifyEndings x := by
    rw [hx]
    apply h.unique _ (unifyEndings y₂)
    rw [hs₂, unifyEndings_append_pattern hp hcr hlf]
  have heq : x ++ (p ++ y) = x₂ ++ (p ++ y₂) := hs.symm.trans hs₂
  rcases Nat.le_total x.length x₂.length with hle | hle
  · exact eq_of_unifyEndings_eq_of_pattern hp hlf heq hle hx₂
  · exact (eq_of_unifyEndings_eq_of_pattern hp hlf heq.symm hle hx₂.symm).symm

theorem exists_concat_cr {cr : Str} (h : ∀ c ∈ cr, c = '\r') : ∃ front, '\r' :: cr = front ++ ['\r'] := by
  rcases List.eq_nil_or_concat cr with rfl | ⟨front, c, rfl⟩
  · exact ⟨[], rfl⟩
  · obtain rfl : c = '\r' := h c (by simp)
    exact ⟨'\r' :: front, by simp⟩

/-- A line break with a carriage return is left for each that had two. -/
theorem crlf_infix_unifyEndings_iff : ['\r', '\n'] <:+: unifyEndings s ↔ ['\r', '\r', '\n'] <:+: s := by
  constructor
  · rintro ⟨x', y', h⟩
    have heq : unifyEndings s = x' ++ (['\r'] ++ '\n' :: y') := by rw [← h]; simp
    obtain ⟨x, y, rfl, rfl, hy⟩ := unifyEndings_eq_append_pattern (by decide) heq
    obtain ⟨cr, y, rfl, hcr, hy'⟩ := unifyEndings_eq_lf_cons hy
    rcases List.eq_nil_or_concat cr with rfl | ⟨cr, c, rfl⟩
    · -- The only carriage return would have been dropped.
      have hlf := unifyEndings_append_lf (x ++ ['\r']) y
      rw [show stripCr (x ++ ['\r']) = x by simp [stripCr], List.append_assoc] at hlf
      have hbad := hlf.symm.trans heq
      simp at hbad
    · obtain rfl : c = '\r' := hcr c (by simp)
      have hrest : ∀ c ∈ cr, c = '\r' := fun c hc => hcr c (by simp [hc])
      obtain ⟨front, hfront⟩ := exists_concat_cr hrest
      refine ⟨x ++ front, y, ?_⟩
      calc x ++ front ++ ['\r', '\r', '\n'] ++ y = x ++ (front ++ ['\r'] ++ '\r' :: '\n' :: y) := by simp
        _ = x ++ (['\r'] ++ (cr.concat '\r' ++ '\n' :: y)) := by rw [← hfront]; simp
  · rintro ⟨x, y, rfl⟩
    have hlf := unifyEndings_append_lf (x ++ ['\r', '\r']) y
    rw [show stripCr (x ++ ['\r', '\r']) = x ++ ['\r'] by simp [stripCr, List.dropLast_append_of_ne_nil],
      unifyEndings_append (x := x) (y := ['\r']) (by simp)] at hlf
    refine ⟨unifyEndings x, unifyEndings y, ?_⟩
    calc unifyEndings x ++ ['\r', '\n'] ++ unifyEndings y
        = unifyEndings x ++ unifyEndings ['\r'] ++ '\n' :: unifyEndings y := by simp [unifyEndings]
      _ = unifyEndings (x ++ ['\r', '\r'] ++ '\n' :: y) := hlf.symm
      _ = unifyEndings (x ++ ['\r', '\r', '\n'] ++ y) := by simp

end Text
