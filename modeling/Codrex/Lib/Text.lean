import Mathlib.Algebra.Group.Int.Defs
import Mathlib.Algebra.Group.Nat.Defs
import Mathlib.Algebra.GroupWithZero.Nat
import Mathlib.Data.Char
import Mathlib.Data.List.DropRight
import Mathlib.Data.List.Infix
import Mathlib.Data.List.Lex
import Mathlib.Tactic.Common

/-!
# Strings as lists of characters

The string operations of Rust's standard library, on lists of characters.
-/

namespace Text

/-- A string, as the list of its characters. -/
abbrev Str := List Char

instance : Coe String Str := ⟨String.toList⟩

/-! The laws of equality and of the order, under names of their own for the definitions that rest on them. -/

instance strLawfulBEq : LawfulBEq Str := List.instLawfulBEq

instance strsLawfulBEq : LawfulBEq (List Str) := List.instLawfulBEq

instance strIsTrans : IsTrans Str (· ≤ ·) := instIsTransLe

instance strAntisymm : Std.Antisymm (α := Str) (· ≤ ·) := instAntisymmLe

instance strTotal : Std.Total (α := Str) (· ≤ ·) := LE.total

/-! ## White space -/

/-- `char::is_whitespace`, the Unicode property `White_Space`. -/
def isWhitespace (c : Char) : Bool :=
  let n := c.toNat
  (9 ≤ n && n ≤ 13) || n == 0x20 || n == 0x85 || n == 0xA0 || n == 0x1680 ||
    (0x2000 ≤ n && n ≤ 0x200A) || n == 0x2028 || n == 0x2029 || n == 0x202F || n == 0x205F ||
    n == 0x3000

def trimStart (s : Str) : Str := s.dropWhile isWhitespace

def trimEnd (s : Str) : Str := s.rdropWhile isWhitespace

def trim (s : Str) : Str := trimEnd (trimStart s)

variable {c : Char} {s : Str}

theorem trimStart_cons (h : isWhitespace c = false) : trimStart (c :: s) = c :: s := by
  simp [trimStart, h]

theorem trimEnd_concat (h : isWhitespace c = false) : trimEnd (s ++ [c]) = s ++ [c] := by
  simp [trimEnd, h]

theorem trimEnd_concat_ws (h : isWhitespace c = true) : trimEnd (s ++ [c]) = trimEnd s := by
  simp [trimEnd, h]

theorem trimStart_append (t : Str) (h : trimStart s ≠ []) : trimStart (s ++ t) = trimStart s ++ t := by
  induction s with
  | nil => exact absurd rfl h
  | cons c s ih =>
      unfold trimStart at h ih ⊢
      by_cases hc : isWhitespace c = true
      · simp only [List.cons_append, List.dropWhile_cons, hc, ↓reduceIte] at h ⊢
        exact ih h
      · simp [hc]

theorem trimEnd_append (s : Str) {t : Str} (h : trimEnd t ≠ []) : trimEnd (s ++ t) = s ++ trimEnd t := by
  unfold trimEnd List.rdropWhile at h ⊢
  rw [List.reverse_append]
  have h' : trimStart t.reverse ≠ [] := by
    intro he
    apply h
    unfold trimStart at he
    rw [he]; rfl
  have := trimStart_append s.reverse h'
  unfold trimStart at this
  rw [this]; simp

theorem trim_eq_self {d : Char} (hc : isWhitespace c = false) (hd : isWhitespace d = false) :
    trim (c :: s ++ [d]) = c :: s ++ [d] := by
  unfold trim
  rw [List.cons_append, trimStart_cons hc, ← List.cons_append, trimEnd_concat hd]

theorem trim_append_ws (h : isWhitespace c = true) : trim (s ++ [c]) = trim s := by
  unfold trim
  by_cases hs : trimStart s = []
  · have hall : ∀ d ∈ s ++ [c], isWhitespace d = true := by
      intro d hd
      rcases List.mem_append.mp hd with hd | hd
      · exact List.dropWhile_eq_nil_iff.mp hs d hd
      · rw [List.mem_singleton.mp hd]; exact h
    have hnil : trimStart (s ++ [c]) = [] := List.dropWhile_eq_nil_iff.mpr hall
    rw [hs, hnil]
  · rw [trimStart_append _ hs, trimEnd_concat_ws h]

theorem trim_eq_nil_iff : trim s = [] ↔ ∀ c ∈ s, isWhitespace c = true := by
  unfold trim trimEnd
  rw [List.rdropWhile_eq_nil_iff]
  induction s with
  | nil => simp [trimStart]
  | cons c s ih =>
      by_cases hc : isWhitespace c = true
      · simp only [trimStart, List.dropWhile_cons, hc, if_true, List.mem_cons, forall_eq_or_imp, true_and]
        exact ih
      · simp [trimStart, hc]

theorem trim_trimStart (s : Str) : trim (trimStart s) = trim s := by
  unfold trim trimStart
  rw [List.dropWhile_idempotent]

theorem trimEnd_append_of_ws (s : Str) {w : Str} (hw : ∀ c ∈ w, isWhitespace c = true) :
    trimEnd (s ++ w) = trimEnd s := by
  induction w using List.reverseRecOn with
  | nil => rw [List.append_nil]
  | append_singleton w c ih =>
      rw [← List.append_assoc, trimEnd_concat_ws (hw c (by simp))]
      exact ih fun d hd => hw d (by simp [hd])

theorem exists_trimEnd (s : Str) : ∃ w, s = trimEnd s ++ w ∧ ∀ c ∈ w, isWhitespace c = true := by
  induction s using List.reverseRecOn with
  | nil => exact ⟨[], rfl, by simp⟩
  | append_singleton s c ih =>
      by_cases hc : isWhitespace c = true
      · obtain ⟨w, hs, hw⟩ := ih
        refine ⟨w ++ [c], ?_, ?_⟩
        · rw [trimEnd_concat_ws hc, ← List.append_assoc, ← hs]
        · intro d hd
          rcases List.mem_append.mp hd with hd | hd
          · exact hw d hd
          · rw [List.mem_singleton.mp hd]
            exact hc
      · rw [trimEnd_concat (Bool.eq_false_iff.mpr hc)]
        exact ⟨[], (List.append_nil _).symm, by simp⟩

theorem trim_trimEnd (h : trim s ≠ []) : trim (trimEnd s) = trim s := by
  obtain ⟨w, hs, hw⟩ := exists_trimEnd s
  have hstart : trimStart (trimEnd s) ≠ [] := by
    intro hnil
    apply h
    rw [trim_eq_nil_iff, hs]
    intro c hc
    rcases List.mem_append.mp hc with hc | hc
    · exact List.dropWhile_eq_nil_iff.mp hnil c hc
    · exact hw c hc
  have happ : trimStart s = trimStart (trimEnd s) ++ w := by
    rw [← trimStart_append w hstart, ← hs]
  unfold trim
  rw [happ, trimEnd_append_of_ws _ hw]

theorem trim_prefix_trim {t : Str} (h : s <+: t) (hne : trim s ≠ []) : trim s <+: trim t := by
  obtain ⟨u, rfl⟩ := h
  have hstart : trimStart s ≠ [] := by
    intro hnil
    rw [trim, hnil] at hne
    exact hne rfl
  obtain ⟨w, hw, hblank⟩ := exists_trimEnd (trimStart s)
  have hsplit : trimStart (s ++ u) = trim s ++ (w ++ u) := by
    rw [trimStart_append u hstart, ← List.append_assoc]
    exact congrArg (· ++ u) hw
  have hidem : trimEnd (trim s) = trim s := List.rdropWhile_idempotent _ _
  rw [trim, trim, hsplit]
  by_cases htail : trimEnd (w ++ u) = []
  · rw [trimEnd_append_of_ws (trim s) (List.rdropWhile_eq_nil_iff.mp htail), hidem]
    exact List.prefix_refl _
  · rw [trimEnd_append (trim s) htail]
    exact List.prefix_append _ _

theorem exists_last_of_trim (h : trim s = s) (hne : s ≠ []) : ∃ front d, s = front ++ [d] ∧ isWhitespace d = false := by
  have hend : trimEnd s = s := by
    have hpre : trimEnd (trimStart s) <+: trimStart s := List.rdropWhile_prefix _ _
    have hsuf : trimStart s <:+ s := List.dropWhile_suffix _
    have hle := hpre.length_le
    have hstart : trimStart s = s := by
      apply hsuf.eq_of_length_le
      have : (trimEnd (trimStart s)).length = s.length := congrArg List.length h
      omega
    unfold trim at h
    rwa [hstart] at h
  have hlast := List.rdropWhile_eq_self_iff.mp hend hne
  refine ⟨s.dropLast, s.getLast hne, (List.dropLast_append_getLast hne).symm, ?_⟩
  exact Bool.eq_false_iff.mpr hlast

/-! ## Prefixes and substrings -/

def stripPrefix (p s : Str) : Option Str :=
  if p.isPrefixOf s then some (s.drop p.length) else none

@[simp] theorem stripPrefix_append (p s : Str) : stripPrefix p (p ++ s) = some s := by
  simp [stripPrefix]

theorem eq_append_of_stripPrefix {p rest : Str} (h : stripPrefix p s = some rest) : s = p ++ rest := by
  rw [stripPrefix] at h
  split at h
  next hopens =>
    obtain ⟨tail, rfl⟩ := List.isPrefixOf_iff_prefix.mp hopens
    obtain rfl : tail = rest := by simpa using h
    rfl
  next => cases h

def stripSuffix (p s : Str) : Option Str :=
  if p.isSuffixOf s then some (s.take (s.length - p.length)) else none

/-- `str::find`: the index of the leftmost occurrence. -/
def find (p : Str) : Str → Option Nat
  | [] => if p.isPrefixOf [] then some 0 else none
  | c :: s => if p.isPrefixOf (c :: s) then some 0 else (find p s).map (· + 1)

attribute [local simp] find

def contains (s p : Str) : Bool := (find p s).isSome

theorem find_eq_zero {p : Str} (h : p <+: s) : find p s = some 0 := by
  have hp : p.isPrefixOf s = true := List.isPrefixOf_iff_prefix.mpr h
  cases s with
  | nil => simp [find, hp]
  | cons c s => simp [find, hp]

theorem find_cons {p : Str} (h : ¬ p <+: c :: s) : find p (c :: s) = (find p s).map (· + 1) := by
  simp [find, h]

theorem find_eq_none {p : Str} : find p s = none ↔ ∀ j ≤ s.length, ¬ p <+: s.drop j := by
  induction s with
  | nil => simp [find]
  | cons c s ih =>
      by_cases h : p <+: c :: s
      · rw [find_eq_zero h]
        simp only [reduceCtorEq, false_iff]
        intro hall
        exact hall 0 (Nat.zero_le _) h
      · rw [find_cons h, Option.map_eq_none_iff, ih]
        constructor
        · intro hall j hj
          cases j with
          | zero => exact h
          | succ j => exact hall j (by simpa using hj)
        · intro hall j hj
          exact hall (j + 1) (by simpa using hj)

theorem prefix_of_find {p : Str} {i : Nat} (h : find p s = some i) : p <+: s.drop i := by
  induction s generalizing i with
  | nil =>
      simp only [find] at h
      split at h
      · rename_i hp
        cases h
        exact List.isPrefixOf_iff_prefix.mp hp
      · cases h
  | cons c s ih =>
      by_cases hp : p <+: c :: s
      · rw [find_eq_zero hp] at h
        cases h
        exact hp
      · rw [find_cons hp] at h
        obtain ⟨j, hj, rfl⟩ := Option.map_eq_some_iff.mp h
        exact ih hj

theorem not_prefix_of_find {p : Str} {i j : Nat} (h : find p s = some i) (hj : j < i) : ¬ p <+: s.drop j := by
  induction s generalizing i j with
  | nil =>
      simp only [find] at h
      split at h
      · cases h
        exact absurd hj (Nat.not_lt_zero j)
      · cases h
  | cons c s ih =>
      by_cases hp : p <+: c :: s
      · rw [find_eq_zero hp] at h
        cases h
        exact absurd hj (Nat.not_lt_zero j)
      · rw [find_cons hp] at h
        obtain ⟨k, hk, rfl⟩ := Option.map_eq_some_iff.mp h
        cases j with
        | zero => exact hp
        | succ j => exact ih hk (Nat.lt_of_succ_lt_succ hj)

theorem exists_find_le {p : Str} {j : Nat} (hj : j ≤ s.length) (h : p <+: s.drop j) : ∃ i ≤ j, find p s = some i := by
  cases hfind : find p s with
  | none => exact absurd h (find_eq_none.mp hfind j hj)
  | some i =>
      refine ⟨i, ?_, rfl⟩
      by_contra hlt
      exact not_prefix_of_find hfind (Nat.not_le.mp hlt) h

theorem length_le_of_find {p : Str} {i : Nat} (h : find p s = some i) : p.length ≤ s.length - i := by
  have := (prefix_of_find h).length_le
  rwa [List.length_drop] at this

/-- Text in front in which no occurrence starts moves the index. -/
theorem find_append {p t : Str} (h : ∀ j < s.length, ¬ p <+: s.drop j ++ t) :
    find p (s ++ t) = (find p t).map (· + s.length) := by
  induction s with
  | nil => simp
  | cons c s ih =>
      have h0 : ¬ p <+: c :: (s ++ t) := h 0 (by simp)
      have hrest : ∀ j < s.length, ¬ p <+: s.drop j ++ t := fun j hj => h (j + 1) (by simpa using hj)
      rw [List.cons_append, find_cons h0, ih hrest, Option.map_map]
      congr 1

theorem find_append_of_some {p : Str} {i : Nat} (t : Str) (h : find p s = some i) : find p (s ++ t) = some i := by
  induction s generalizing i with
  | nil =>
      obtain ⟨u, hu⟩ := prefix_of_find h
      simp only [List.drop_nil, List.append_eq_nil_iff] at hu
      simp only [hu.1, find, List.isPrefixOf, ↓reduceIte, Option.some.injEq] at h
      rw [hu.1, ← h]
      exact find_eq_zero List.nil_prefix
  | cons c s ih =>
      by_cases hp : p <+: c :: s
      · rw [find_eq_zero hp] at h
        cases h
        exact find_eq_zero (hp.trans (List.prefix_append _ _))
      · rw [find_cons hp] at h
        obtain ⟨j, hj, rfl⟩ := Option.map_eq_some_iff.mp h
        have hj' := ih hj
        have hp' : ¬ p <+: c :: (s ++ t) := by
          intro hpt
          -- The occurrence found lies behind the first character, so `p` is not longer than `c :: s`.
          have hlen := length_le_of_find hj
          exact hp (List.prefix_of_prefix_length_le hpt (List.prefix_append (c :: s) t) (by simp; omega))
        rw [List.cons_append, find_cons hp', hj']
        rfl

/-- `str::rfind`: the index of the rightmost occurrence. -/
def rfind (p : Str) : Str → Option Nat
  | [] => if p.isPrefixOf [] then some 0 else none
  | c :: s =>
      match rfind p s with
      | some i => some (i + 1)
      | none => if p.isPrefixOf (c :: s) then some 0 else none

attribute [local simp] rfind

/-- The occurrences of `p` that do not overlap, behind the first `skip` characters. -/
def matchCountFrom (p : Str) : Str → Nat → Nat
  | [], _ => 0
  | _ :: s, skip + 1 => matchCountFrom p s skip
  | c :: s, 0 => if p.isPrefixOf (c :: s) then matchCountFrom p s (p.length - 1) + 1 else matchCountFrom p s 0

attribute [local simp] matchCountFrom

/-- `str::matches(p).count()`, for a pattern that is not empty. -/
def matchCount (s p : Str) : Nat := matchCountFrom p s 0

def replaceFrom (p r : Str) : Str → Nat → Str
  | [], _ => []
  | _ :: s, skip + 1 => replaceFrom p r s skip
  | c :: s, 0 => if p.isPrefixOf (c :: s) then r ++ replaceFrom p r s (p.length - 1) else c :: replaceFrom p r s 0

attribute [local simp] replaceFrom

def replace (s p r : Str) : Str := replaceFrom p r s 0

theorem replace_singleton (s : Str) (a b : Char) : replace s [a] [b] = s.map fun c => if a = c then b else c := by
  unfold replace
  induction s with
  | nil => rfl
  | cons c s ih =>
      simp only [replaceFrom, List.isPrefixOf, Bool.and_true, beq_iff_eq, List.length_singleton, Nat.sub_self, ih,
        List.map_cons]
      split
      · rfl
      · rfl

def splitWhitespace (s : Str) : List Str := (s.splitOnP isWhitespace).filter (· ≠ [])

def toAsciiLowercase (s : Str) : Str := s.map Char.toLower

def eqIgnoreAsciiCase (s t : Str) : Bool := toAsciiLowercase s == toAsciiLowercase t

def trimMatches (s : Str) (p : Char → Bool) : Str := (s.dropWhile p).rdropWhile p

/-! ## Literals

A literal is `String.ofList` of its characters, so that they need not be read from its bytes again. -/

theorem not_mem_literal {cs : Str} (h : cs.contains c = false) : c ∉ (String.ofList cs).toList := by
  rw [String.toList_ofList]
  simpa using h

theorem literal_cons {cs : Str} : (String.ofList (c :: cs)).toList = c :: cs := String.toList_ofList

/-! ## Bytes -/

/-- `str::len`, in bytes of UTF-8. -/
def byteLen (s : Str) : Nat := (s.map Char.utf8Size).sum

theorem byteLen_eq_zero : byteLen s = 0 ↔ s = [] := by
  cases s with
  | nil => simp [byteLen]
  | cons c s =>
      have hc := Char.utf8Size_pos c
      simp only [byteLen, List.map_cons, List.sum_cons, reduceCtorEq, iff_false]
      omega

def fittingChars : Str → Nat → Str
  | [], _ => []
  | c :: s, maxb => if c.utf8Size ≤ maxb then c :: fittingChars s (maxb - c.utf8Size) else []

attribute [local simp] fittingChars

theorem fittingChars_ne_nil_of_le {m n : Nat} (hle : m ≤ n) (h : fittingChars s m ≠ []) : fittingChars s n ≠ [] := by
  cases s with
  | nil => exact h
  | cons c s =>
      simp only [fittingChars] at h ⊢
      split at h
      · rename_i hc
        rw [if_pos (Nat.le_trans hc hle)]
        exact List.cons_ne_nil _ _
      · exact absurd rfl h

theorem fittingChars_eq_self {n : Nat} (h : byteLen s ≤ n) : fittingChars s n = s := by
  induction s generalizing n with
  | nil => rfl
  | cons c s ih =>
      have hlen : byteLen (c :: s) = c.utf8Size + byteLen s := by simp [byteLen]
      have hrest : byteLen s ≤ n - c.utf8Size := by omega
      rw [fittingChars, if_pos (by omega), ih hrest]

theorem fittingChars_zero (s : Str) : fittingChars s 0 = [] := by
  cases s with
  | nil => rfl
  | cons c s =>
      have hc := Char.utf8Size_pos c
      rw [fittingChars, if_neg (by omega)]

theorem fittingChars_starts (s : Str) (n : Nat) : fittingChars s n <+: s := by
  induction s generalizing n with
  | nil => exact List.prefix_rfl
  | cons c s ih =>
      simp only [fittingChars]
      split
      · exact (List.prefix_cons_inj c).mpr (ih _)
      · exact List.nil_prefix

theorem byteLen_fittingChars_le (s : Str) (n : Nat) : byteLen (fittingChars s n) ≤ n := by
  induction s generalizing n with
  | nil => exact Nat.zero_le n
  | cons c s ih =>
      simp only [fittingChars]
      split
      · have hrest := ih (n - c.utf8Size)
        simp only [byteLen, List.map_cons, List.sum_cons] at hrest ⊢
        omega
      · exact Nat.zero_le n

/-! ## Lines -/

def splitInclusiveLines (s : Str) : List Str :=
  let parts := s.splitOn '\n'
  let terminated := parts.dropLast.map (· ++ ['\n'])
  match parts.getLast? with
  | some (c :: last) => terminated ++ [c :: last]
  | _ => terminated

def stripCr (s : Str) : Str := if s.getLast? = some '\r' then s.dropLast else s

/-- `str::lines`: the pieces between line feeds. A terminated line loses one carriage return, and an
empty piece after the last line feed is no line. -/
def lines (s : Str) : List Str :=
  let parts := s.splitOn '\n'
  let terminated := parts.dropLast.map stripCr
  match parts.getLast? with
  | some (c :: last) => terminated ++ [c :: last]
  | _ => terminated

attribute [local simp] lines

def joinLines (ls : List Str) : Str := ['\n'].intercalate ls

theorem joinLines_cons (first : Str) {rest : List Str} (h : rest ≠ []) :
    joinLines (first :: rest) = first ++ '\n' :: joinLines rest := by
  obtain ⟨next, rest, rfl⟩ := List.exists_cons_of_ne_nil h
  simp [joinLines, List.intercalate]

theorem joinLines_concat {front : List Str} (h : front ≠ []) (last : Str) :
    joinLines (front ++ [last]) = joinLines front ++ '\n' :: last := by
  induction front with
  | nil => exact absurd rfl h
  | cons first front ih =>
      by_cases hfront : front = []
      · subst hfront
        simp [joinLines, List.intercalate]
      · rw [List.cons_append, joinLines_cons first (by simp), ih hfront, joinLines_cons first hfront]
        simp

theorem stripCr_of_ne (h : s.getLast? ≠ some '\r') : stripCr s = s := by
  simp [stripCr, h]

theorem stripCr_eq_self_iff : stripCr s = s ↔ s.getLast? ≠ some '\r' := by
  constructor
  · intro h hcr
    have hlen := congrArg List.length h
    rw [stripCr, if_pos hcr, List.length_dropLast] at hlen
    have hpos : 0 < s.length := List.length_pos_of_mem (List.mem_of_getLast? hcr)
    omega
  · exact stripCr_of_ne

theorem trim_stripCr (s : Str) : trim (stripCr s) = trim s := by
  unfold stripCr
  split
  · rename_i hcr
    obtain ⟨front, rfl⟩ := List.getLast?_eq_some_iff.mp hcr
    rw [List.dropLast_concat, trim_append_ws (by decide)]
  · rfl

theorem length_stripCr_le (s : Str) : (stripCr s).length ≤ s.length := by
  unfold stripCr
  split
  · rw [List.length_dropLast]
    omega
  · exact Nat.le_refl _

theorem joinLines_injective {ls ls' : List Str} (hls : ∀ l ∈ ls, '\n' ∉ l) (hne : ls ≠ [])
    (hls' : ∀ l ∈ ls', '\n' ∉ l) (hne' : ls' ≠ []) (h : joinLines ls = joinLines ls') : ls = ls' :=
  calc ls = (joinLines ls).splitOn '\n' := (List.splitOn_intercalate '\n' hls hne).symm
    _ = (joinLines ls').splitOn '\n' := by rw [h]
    _ = ls' := List.splitOn_intercalate '\n' hls' hne'

theorem lines_joinLines {ls : List Str} {last : Str} (hls : ∀ l ∈ ls, '\n' ∉ l) (hlast : '\n' ∉ last)
    (hne : last ≠ []) : lines (joinLines (ls ++ [last])) = ls.map stripCr ++ [last] := by
  have hsplit : (joinLines (ls ++ [last])).splitOn '\n' = ls ++ [last] := by
    refine List.splitOn_intercalate '\n' ?_ (by simp)
    intro l hl
    rcases List.mem_append.mp hl with hl | hl
    · exact hls l hl
    · rw [List.mem_singleton.mp hl]; exact hlast
  unfold lines
  obtain ⟨c, t, rfl⟩ := List.exists_cons_of_ne_nil hne
  simp [hsplit]

theorem not_mem_of_mem_splitOn {p : Str} (h : p ∈ s.splitOn c) : c ∉ p := by
  induction s generalizing p with
  | nil =>
      rw [List.splitOn_nil, List.mem_singleton] at h
      simp [h]
  | cons d s ih =>
      rw [List.splitOn_cons_eq_if_modifyHead] at h
      split at h
      · rcases List.mem_cons.mp h with rfl | h
        · simp
        · exact ih h
      · rename_i hd
        obtain ⟨q, qs, hq⟩ := List.exists_cons_of_ne_nil (List.splitOn_ne_nil c s)
        rw [hq, List.modifyHead_cons] at h
        rcases List.mem_cons.mp h with rfl | h
        · have hcq : c ∉ q := ih (by simp [hq])
          have hdc : c ≠ d := fun e => hd (by simp [e])
          simp [hdc, hcq]
        · exact ih (by simp [hq, h])

theorem mem_of_mem_stripCr (h : c ∈ stripCr s) : c ∈ s := by
  unfold stripCr at h
  split at h
  · exact List.dropLast_subset _ h
  · exact h

theorem not_mem_of_mem_lines {l : Str} (h : l ∈ lines s) : '\n' ∉ l := by
  have hterminated : ∀ l ∈ (s.splitOn '\n').dropLast.map stripCr, '\n' ∉ l := by
    intro l hl hmem
    obtain ⟨piece, hpiece, rfl⟩ := List.mem_map.mp hl
    exact not_mem_of_mem_splitOn (List.dropLast_subset _ hpiece) (mem_of_mem_stripCr hmem)
  simp only [lines] at h
  split at h
  · rename_i c last hlast
    rcases List.mem_append.mp h with h | h
    · exact hterminated l h
    · rw [List.mem_singleton.mp h]
      exact not_mem_of_mem_splitOn (List.mem_of_getLast? hlast)
  · exact hterminated l h

/-! ### Texts of terminated lines -/

/-- The text is empty or ends with a line feed. -/
def Terminated (s : Str) : Prop := ∀ last ∈ s.getLast?, last = '\n'

theorem Terminated.nil : Terminated [] := by simp [Terminated]

theorem Terminated.append {t : Str} (hs : Terminated s) (ht : Terminated t) : Terminated (s ++ t) := by
  intro last hlast
  rw [List.getLast?_append, Option.mem_def, Option.or_eq_some_iff] at hlast
  rcases hlast with hlast | ⟨-, hlast⟩
  · exact ht last hlast
  · exact hs last hlast

theorem terminated_flatten {ls : List Str} (h : ∀ l ∈ ls, Terminated l) : Terminated ls.flatten := by
  induction ls with
  | nil => exact Terminated.nil
  | cons l ls ih =>
      rw [List.flatten_cons]
      exact (h l (by simp)).append (ih fun l' hl' => h l' (by simp [hl']))

theorem Terminated.eq_nil_or_concat (h : Terminated s) : s = [] ∨ ∃ front, s = front ++ ['\n'] := by
  rcases List.eq_nil_or_concat s with rfl | ⟨front, last, rfl⟩
  · exact .inl rfl
  · obtain rfl : last = '\n' := h last (by simp)
    exact .inr ⟨front, by simp⟩

theorem lines_append_cons (s t : Str) : lines (s ++ '\n' :: t) = (s.splitOn '\n').map stripCr ++ lines t := by
  have hparts := List.splitOn_ne_nil '\n' t
  unfold lines
  simp only [List.splitOn_append_cons_self, List.dropLast_append_of_ne_nil hparts, List.map_append,
    List.getLast?_append_of_ne_nil _ hparts]
  split <;> simp

theorem length_splitOn (c : Char) (s : Str) : (s.splitOn c).length = s.count c + 1 := by
  induction s with
  | nil => simp
  | cons d s ih =>
      rw [List.splitOn_cons_eq_if_modifyHead]
      split
      · rename_i hd
        simp [ih, beq_iff_eq.mp hd]
      · rename_i hd
        have hne : d ≠ c := fun h => hd (by simp [h])
        rw [List.length_modifyHead, ih, List.count_cons_of_ne hne]

/-- Each line of a terminated text is a line feed of it. -/
theorem Terminated.length_lines (h : Terminated s) : (lines s).length = s.count '\n' := by
  rcases h.eq_nil_or_concat with rfl | ⟨front, rfl⟩
  · simp [lines]
  · rw [lines_append_cons, List.length_append, List.length_map, length_splitOn]
    simp [lines]

theorem Terminated.lines_append (h : Terminated s) (t : Str) : lines (s ++ t) = lines s ++ lines t := by
  rcases h.eq_nil_or_concat with rfl | ⟨front, rfl⟩
  · simp [lines]
  · rw [List.append_assoc, List.singleton_append, lines_append_cons, lines_append_cons]
    simp [lines]

/-- What follows the last line feed. -/
theorem exists_terminated (s : Str) : ∃ front rest, s = front ++ rest ∧ Terminated front ∧ '\n' ∉ rest := by
  induction s using List.reverseRecOn with
  | nil => exact ⟨[], [], rfl, Terminated.nil, by simp⟩
  | append_singleton s c ih =>
      by_cases hc : c = '\n'
      · refine ⟨s ++ [c], [], by simp, ?_, by simp⟩
        intro last hlast
        simp only [List.getLast?_append, List.getLast?_singleton, Option.some_or, Option.mem_def,
          Option.some.injEq] at hlast
        rw [← hlast, hc]
      · obtain ⟨front, rest, rfl, hfront, hrest⟩ := ih
        refine ⟨front, rest ++ [c], by simp, hfront, ?_⟩
        simp [hrest, Ne.symm hc]

theorem splitOn_of_noBreak {l : Str} (hlf : '\n' ∉ l) : l.splitOn '\n' = [l] := by
  have h : (['\n'].intercalate [l]).splitOn '\n' = [l] :=
    List.splitOn_intercalate '\n' (by simpa using hlf) (by simp)
  simpa [List.intercalate] using h

theorem lines_of_noBreak {l : Str} (hlf : '\n' ∉ l) (hne : l ≠ []) : lines l = [l] := by
  obtain ⟨c, t, rfl⟩ := List.exists_cons_of_ne_nil hne
  simp [lines, splitOn_of_noBreak hlf]

theorem prefix_stripCr_append {l : Str} (hcr : l.getLast? ≠ some '\r') (more : Str) : l <+: stripCr (l ++ more) := by
  by_cases hmore : more = []
  · rw [hmore, List.append_nil, stripCr_of_ne hcr]
  · unfold stripCr
    split
    · rw [List.dropLast_append_of_ne_nil hmore]
      exact List.prefix_append _ _
    · exact List.prefix_append _ _

/-- A line that is cut off, with what comes behind it. -/
theorem lines_append_of_noBreak {l : Str} (hlf : '\n' ∉ l) (hne : l ≠ []) (hcr : l.getLast? ≠ some '\r') (t : Str) :
    ∃ l' rest, lines (l ++ t) = l' :: rest ∧ l <+: l' := by
  by_cases hmem : '\n' ∈ t
  · obtain ⟨front, rest, rfl, hfront⟩ := List.eq_append_cons_of_mem hmem
    refine ⟨stripCr (l ++ front), lines rest, ?_, prefix_stripCr_append hcr front⟩
    have hlf' : '\n' ∉ l ++ front := by simp [hlf, hfront]
    rw [← List.append_assoc, lines_append_cons, splitOn_of_noBreak hlf']
    rfl
  · refine ⟨l ++ t, [], lines_of_noBreak ?_ ?_, List.prefix_append _ _⟩
    · simp [hlf, hmem]
    · simp [hne]

theorem getLast?_trim (h : (trim s).getLast? = some c) : isWhitespace c = false := by
  have hne : (trimStart s).rdropWhile isWhitespace ≠ [] := List.ne_nil_of_mem (List.mem_of_getLast? h)
  have hlast := List.rdropWhile_last_not isWhitespace (trimStart s) hne
  have hc : ((trimStart s).rdropWhile isWhitespace).getLast hne = c := by
    rw [List.getLast_eq_iff_getLast?_eq_some]
    exact h
  rw [hc] at hlast
  simpa using hlast

/-- The lines of a text and those of a longer text differ from the last line on, and there one goes on. -/
theorem lines_trim_of_prefix {t : Str} (h : s <+: t) (hne : trim s ≠ []) :
    ∃ front l l' rest, lines (trim s) = front ++ [l] ∧ lines (trim t) = front ++ l' :: rest ∧ l <+: l' := by
  obtain ⟨more, hmore⟩ := trim_prefix_trim h hne
  obtain ⟨front, l, hsplit, hterminated, hlf⟩ := exists_terminated (trim s)
  have hl : l ≠ [] := by
    rintro rfl
    rw [List.append_nil] at hsplit
    rcases hterminated.eq_nil_or_concat with rfl | ⟨front, rfl⟩
    · exact hne hsplit
    · have hws := getLast?_trim (s := s) (c := '\n') (by rw [hsplit, List.getLast?_concat])
      exact absurd hws (by decide)
  have hcr : l.getLast? ≠ some '\r' := by
    intro hcr
    have hws := getLast?_trim (s := s) (c := '\r') (by rw [hsplit, List.getLast?_append_of_ne_nil _ hl, hcr])
    exact absurd hws (by decide)
  obtain ⟨l', rest, hrest, hopens⟩ := lines_append_of_noBreak hlf hl hcr more
  refine ⟨lines front, l, l', rest, ?_, ?_, hopens⟩
  · rw [hsplit, hterminated.lines_append, lines_of_noBreak hlf hl]
  · rw [← hmore, hsplit, List.append_assoc, hterminated.lines_append, hrest]

/-- Text behind a terminated line does not change it. -/
theorem getElem?_lines_append {k : Nat} (t : Str) (hk : k < s.count '\n') : (lines (s ++ t))[k]? = (lines s)[k]? := by
  obtain ⟨front, rest, rfl, hfront, hrest⟩ := exists_terminated s
  have hcount : k < (lines front).length := by
    rw [hfront.length_lines]
    simpa [List.count_eq_zero.mpr hrest] using hk
  rw [List.append_assoc, hfront.lines_append, hfront.lines_append, List.getElem?_append_left hcount,
    List.getElem?_append_left hcount]

theorem flatten_terminated_append (front : List Str) (last : Str) :
    (front.map (· ++ ['\n'])).flatten ++ last = joinLines (front ++ [last]) := by
  induction front with
  | nil => simp [joinLines, List.intercalate]
  | cons first front ih =>
      rw [List.cons_append, joinLines_cons first (by simp), ← ih]
      simp

/-- The pieces of `splitInclusiveLines`: terminated ones, and possibly one that is not. -/
theorem splitInclusiveLines_eq (s : Str) :
    ∃ front rest, splitInclusiveLines s = front ++ rest ∧ (front ++ rest).flatten = s ∧
      (∀ l ∈ front, Terminated l) ∧ rest.length ≤ 1 := by
  have hjoin : joinLines (s.splitOn '\n') = s := List.intercalate_splitOn '\n'
  obtain ⟨front, last, hparts⟩ : ∃ front last, s.splitOn '\n' = front ++ [last] := by
    refine ⟨_, _, (List.dropLast_append_getLast (List.splitOn_ne_nil '\n' s)).symm⟩
  have hflat := flatten_terminated_append front last
  rw [← hparts, hjoin] at hflat
  have hterm : ∀ l ∈ front.map (· ++ ['\n']), Terminated l := by
    intro l hl
    obtain ⟨piece, -, rfl⟩ := List.mem_map.mp hl
    simp [Terminated]
  cases last with
  | nil =>
      refine ⟨front.map (· ++ ['\n']), [], ?_, ?_, hterm, by simp⟩
      · simp [splitInclusiveLines, hparts]
      · simpa using hflat
  | cons c last =>
      refine ⟨front.map (· ++ ['\n']), [c :: last], ?_, ?_, hterm, by simp⟩
      · simp [splitInclusiveLines, hparts]
      · simpa using hflat

theorem flatten_splitInclusiveLines (s : Str) : (splitInclusiveLines s).flatten = s := by
  obtain ⟨front, rest, heq, hflat, -⟩ := splitInclusiveLines_eq s
  rw [heq, hflat]

/-- Pieces in front of another piece are terminated. -/
theorem terminated_take_splitInclusiveLines (s : Str) {i : Nat} (h : i < (splitInclusiveLines s).length) :
    Terminated ((splitInclusiveLines s).take i).flatten := by
  obtain ⟨front, rest, heq, -, hfront, hrest⟩ := splitInclusiveLines_eq s
  rw [heq, List.length_append] at h
  rw [heq, List.take_append_of_le_length (by omega)]
  exact terminated_flatten fun l hl => hfront l (List.mem_of_mem_take hl)

/-! ### Records behind which a separator stands -/

theorem splitOn_records {α : Type} [BEq α] [LawfulBEq α] {separator : α} {records : List (List α)}
    (h : ∀ record ∈ records, separator ∉ record) :
    (records.flatMap (· ++ [separator])).splitOn separator = records ++ [[]] := by
  induction records with
  | nil => rfl
  | cons record records ih =>
      rw [List.flatMap_cons, List.append_assoc, List.singleton_append,
        List.splitOn_append_cons_self_of_not_mem (h record List.mem_cons_self),
        ih fun other hother => h other (List.mem_cons_of_mem _ hother)]
      rfl

/-- Of records that are not empty, dropping the empty pieces leaves the records. -/
theorem filter_splitOn_records {α : Type} [BEq α] [LawfulBEq α] {separator : α} {records : List (List α)}
    (h : ∀ record ∈ records, record ≠ [] ∧ separator ∉ record) :
    ((records.flatMap (· ++ [separator])).splitOn separator).filter (!·.isEmpty) = records := by
  rw [splitOn_records fun record hrecord => (h record hrecord).2, List.filter_append]
  have hempty : [([] : List α)].filter (!·.isEmpty) = [] := rfl
  rw [hempty, List.append_nil]
  apply List.filter_eq_self.mpr
  intro record hrecord
  simp [(h record hrecord).1]

/-! ### Bytes in front -/

/-- What follows the first `n` bytes, for `n` bytes that are whole characters. -/
def dropBytes : Str → Nat → Str
  | [], _ => []
  | c :: s, n => if n = 0 then c :: s else dropBytes s (n - c.utf8Size)

attribute [local simp] dropBytes

theorem byteLen_append (s t : Str) : byteLen (s ++ t) = byteLen s + byteLen t := by
  simp [byteLen]

theorem byteLen_le_of_starts {t : Str} (h : s <+: t) : byteLen s ≤ byteLen t := by
  obtain ⟨rest, rfl⟩ := h
  rw [byteLen_append]
  exact Nat.le_add_right _ _

theorem dropBytes_byteLen (s t : Str) : dropBytes (s ++ t) (byteLen s) = t := by
  induction s with
  | nil =>
      cases t with
      | nil => rfl
      | cons c t => simp [dropBytes, byteLen]
  | cons c s ih =>
      have hc := Char.utf8Size_pos c
      have hlen : byteLen (c :: s) = c.utf8Size + byteLen s := by simp [byteLen]
      rw [List.cons_append, dropBytes, if_neg (by omega), hlen, Nat.add_sub_cancel_left, ih]

/-! ### The longest text that fits -/

theorem starts_fittingChars {t : Str} {n : Nat} (h : t <+: s) (hle : byteLen t ≤ n) : t <+: fittingChars s n := by
  induction s generalizing t n with
  | nil => exact h
  | cons c s ih =>
      cases t with
      | nil => exact List.nil_prefix
      | cons d t =>
          obtain ⟨rfl, htail⟩ := List.cons_prefix_cons.mp h
          have hlen : byteLen (d :: t) = d.utf8Size + byteLen t := by simp [byteLen]
          rw [fittingChars, if_pos (by omega)]
          exact (List.prefix_cons_inj d).mpr (ih htail (by omega))

theorem fittingChars_byteLen (s t : Str) : fittingChars (s ++ t) (byteLen s) = s := by
  have hstarts := starts_fittingChars (List.prefix_append s t) (Nat.le_refl (byteLen s))
  obtain ⟨rest, hrest⟩ := hstarts
  have hle := byteLen_fittingChars_le (s ++ t) (byteLen s)
  rw [← hrest, byteLen_append] at hle
  have hnil : rest = [] := byteLen_eq_zero.mp (by omega)
  rw [← hrest, hnil, List.append_nil]

theorem byteLen_reverse (s : Str) : byteLen s.reverse = byteLen s := by
  simp [byteLen]

/-! ## Numbers -/

theorem repr_injective {i j : Nat} (h : i.repr.toList = j.repr.toList) : i = j := by
  rw [Nat.toList_repr, Nat.toList_repr] at h
  calc i = Nat.ofDigitChars 10 (Nat.toDigits 10 i) 0 := Nat.ofDigitChars_ten_toDigits.symm
    _ = Nat.ofDigitChars 10 (Nat.toDigits 10 j) 0 := by rw [h]
    _ = j := Nat.ofDigitChars_ten_toDigits

theorem isDigit_of_mem_repr {n : Nat} (h : c ∈ n.repr.toList) : c.isDigit = true := by
  rw [Nat.toList_repr] at h
  exact Nat.isDigit_of_mem_toDigits (by decide) (by decide) h

end Text

/-!
## The lines and the words of a text

Lines are taken with their line feeds, so that together they are the text. Words stand between white space.
-/

namespace Text

/-! ## Lines with their line feeds -/

/-- Each piece ends at its only line feed; the last one may have none. -/
def InclusiveLines : List Str → Prop
  | [] => True
  | line :: rest =>
      ((∃ content, '\n' ∉ content ∧ line = content ++ ['\n']) ∨ (line ≠ [] ∧ '\n' ∉ line ∧ rest = [])) ∧
        InclusiveLines rest

attribute [local simp] InclusiveLines

theorem splitInclusiveLines_append_cons {content : Str} (h : '\n' ∉ content) (s : Str) :
    splitInclusiveLines (content ++ '\n' :: s) = (content ++ ['\n']) :: splitInclusiveLines s := by
  have hparts := List.splitOn_ne_nil '\n' s
  unfold splitInclusiveLines
  simp only [List.splitOn_append_cons_self, splitOn_of_noBreak h, List.singleton_append,
    List.dropLast_cons_of_ne_nil hparts, List.map_cons, List.getLast?_cons_of_ne_nil hparts]
  split
  · simp
  · simp

theorem splitInclusiveLines_of_noBreak {line : Str} (hne : line ≠ []) (h : '\n' ∉ line) :
    splitInclusiveLines line = [line] := by
  obtain ⟨c, line, rfl⟩ := List.exists_cons_of_ne_nil hne
  simp [splitInclusiveLines, splitOn_of_noBreak h]

theorem splitInclusiveLines_flatten {lines : List Str} (h : InclusiveLines lines) :
    splitInclusiveLines lines.flatten = lines := by
  induction lines with
  | nil => rfl
  | cons line rest ih =>
      obtain ⟨⟨content, hcontent, rfl⟩ | ⟨hne, hbreak, rfl⟩, hrest⟩ := h
      · rw [List.flatten_cons, List.append_assoc, List.singleton_append, splitInclusiveLines_append_cons hcontent,
          ih hrest]
      · rw [List.flatten_cons, List.flatten_nil, List.append_nil]
        exact splitInclusiveLines_of_noBreak hne hbreak

theorem inclusiveLines_splitInclusiveLines (s : Str) : InclusiveLines (splitInclusiveLines s) := by
  by_cases hbreak : '\n' ∈ s
  · obtain ⟨content, rest, rfl, hcontent⟩ := List.eq_append_cons_of_mem hbreak
    rw [splitInclusiveLines_append_cons hcontent]
    exact ⟨Or.inl ⟨content, hcontent, rfl⟩, inclusiveLines_splitInclusiveLines rest⟩
  · by_cases hne : s = []
    · subst hne
      trivial
    · rw [splitInclusiveLines_of_noBreak hne hbreak]
      exact ⟨Or.inr ⟨hne, hbreak, rfl⟩, trivial⟩
  termination_by s.length
  decreasing_by
    simp [*]
    omega

/-! ## Words -/

theorem splitWhitespace_append_cons (s t : Str) {c : Char} (hc : isWhitespace c = true) :
    splitWhitespace (s ++ c :: t) = splitWhitespace s ++ splitWhitespace t := by
  unfold splitWhitespace
  rw [List.splitOnP_append_cons s t hc, List.filter_append]

theorem splitWhitespace_word {word : Str} (hne : word ≠ []) (hword : ∀ c ∈ word, isWhitespace c = false) :
    splitWhitespace word = [word] := by
  unfold splitWhitespace
  rw [List.splitOnP_eq_singleton hword]
  simp [hne]

theorem noWhitespace_of_mem {s word : Str} (h : word ∈ splitWhitespace s) : ∀ c ∈ word, isWhitespace c = false := by
  have hpieces : ∀ s : Str, ∀ piece ∈ s.splitOnP isWhitespace, ∀ c ∈ piece, isWhitespace c = false := by
    intro s
    induction s with
    | nil => simp
    | cons c s ih =>
        rw [List.splitOnP_cons_eq_if_modifyHead]
        split
        · simpa using ih
        · next hc =>
            obtain ⟨first, rest, hfirst⟩ := List.exists_cons_of_ne_nil (List.splitOnP_ne_nil isWhitespace s)
            rw [hfirst] at ih ⊢
            simp only [List.modifyHead_cons, List.forall_mem_cons] at ih ⊢
            exact ⟨⟨by simpa using hc, ih.1⟩, ih.2⟩
  exact hpieces s word (List.mem_of_mem_filter h)

/-- A word in front, up to white space or to the end. -/
theorem splitWhitespace_word_append {word rest : Str} (hne : word ≠ []) (hword : ∀ c ∈ word, isWhitespace c = false)
    (hrest : ∀ c ∈ rest.head?, isWhitespace c = true) : splitWhitespace (word ++ rest) = word :: splitWhitespace rest := by
  cases rest with
  | nil =>
      rw [List.append_nil, splitWhitespace_word hne hword]
      rfl
  | cons c rest =>
      have hc := hrest c rfl
      rw [splitWhitespace_append_cons word rest hc, splitWhitespace_word hne hword]
      exact congrArg (word :: ·) (splitWhitespace_append_cons [] rest hc).symm

end Text
