import Codrex.Lib.Text

/-!
# Escapes with a backslash

Where an escape counts, the backslash is removed and the next character stays, but for a newline, which goes with it.
-/

namespace Text

variable {counts : Char → Bool} {s : Str}

def unescape (counts : Char → Bool) : Str → Str
  | '\\' :: c :: s =>
      if counts c then
        if c = '\n' then unescape counts s else c :: unescape counts s
      else '\\' :: c :: unescape counts s
  | c :: s => c :: unescape counts s
  | [] => []

def hasEscape (counts : Char → Bool) : Str → Bool
  | '\\' :: c :: s => counts c || hasEscape counts s
  | _ :: s => hasEscape counts s
  | [] => false

theorem unescape_of_not (h : hasEscape counts s = false) : unescape counts s = s := by
  fun_induction unescape counts s with
  | case1 s hcounts ih => simp [hasEscape, hcounts] at h
  | case2 c s hcounts hc ih => simp [hasEscape, hcounts] at h
  | case3 c s hcounts ih =>
      simp only [hasEscape, Bool.or_eq_false_iff] at h
      rw [ih h.2]
  | case4 c s hnot ih =>
      rw [hasEscape] at h
      · rw [ih h]
      · exact hnot
  | case5 => rfl

theorem length_unescape_le (counts : Char → Bool) (s : Str) : (unescape counts s).length ≤ s.length := by
  fun_induction unescape counts s with
  | case1 s hcounts ih => simp only [List.length_cons]; omega
  | case2 c s hcounts hc ih => simp only [List.length_cons]; omega
  | case3 c s hcounts ih => simp only [List.length_cons]; omega
  | case4 c s hnot ih => simp only [List.length_cons]; omega
  | case5 => exact Nat.le_refl 0

/-- An escape that counts makes the text shorter. -/
theorem length_unescape_lt (h : hasEscape counts s = true) : (unescape counts s).length < s.length := by
  fun_induction unescape counts s with
  | case1 s hcounts ih =>
      have hle := length_unescape_le counts s
      simp only [List.length_cons]
      omega
  | case2 c s hcounts hc ih =>
      have hle := length_unescape_le counts s
      simp only [List.length_cons]
      omega
  | case3 c s hcounts ih =>
      simp only [hasEscape, Bool.or_eq_true] at h
      have hlt := ih (h.resolve_left hcounts)
      simp only [List.length_cons]
      omega
  | case4 c s hnot ih =>
      rw [hasEscape] at h
      · have hlt := ih h
        simp only [List.length_cons]
        omega
      · exact hnot
  | case5 => cases h

theorem length_flatten_le {α : Type} {f g : α → Str} {parts : List α}
    (hle : ∀ part ∈ parts, (f part).length ≤ (g part).length) :
    (parts.map f).flatten.length ≤ (parts.map g).flatten.length := by
  induction parts with
  | nil => exact Nat.le_refl 0
  | cons first parts ih =>
      have hfirst := hle first (List.mem_cons_self ..)
      have hrest := ih fun part hpart => hle part (List.mem_cons_of_mem _ hpart)
      simp only [List.map_cons, List.flatten_cons, List.length_append]
      omega

/-- Parts that are not longer than others make as long a whole only if each is as long. -/
theorem length_eq_of_flatten {α : Type} {f g : α → Str} {parts : List α}
    (hle : ∀ part ∈ parts, (f part).length ≤ (g part).length)
    (h : (parts.map f).flatten.length = (parts.map g).flatten.length) :
    ∀ part ∈ parts, (f part).length = (g part).length := by
  induction parts with
  | nil => exact nofun
  | cons first parts ih =>
      have hfirst := hle first (List.mem_cons_self ..)
      have hle' : ∀ part ∈ parts, (f part).length ≤ (g part).length :=
        fun part hpart => hle part (List.mem_cons_of_mem _ hpart)
      have hrest := length_flatten_le hle'
      simp only [List.map_cons, List.flatten_cons, List.length_append] at h
      intro part hpart
      rcases List.mem_cons.mp hpart with rfl | hpart
      · omega
      · exact ih hle' (by omega) part hpart

end Text
