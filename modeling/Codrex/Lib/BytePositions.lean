import Codrex.Lib.Text

/-!
# Byte positions in a text

Where a position stands between two characters, what is cut out between two positions, and where positions and cuts
are found again after an edit.
-/

namespace Text

variable {s front back before cut after : Str} {n p start stop : Nat}

/-! ## Splitting -/

/-- The text in front of a position and behind it; none inside a character or behind the end. -/
def splitAtByte : Str → Nat → Option (Str × Str)
  | s, 0 => some ([], s)
  | [], _ + 1 => none
  | c :: s, n + 1 =>
      if c.utf8Size ≤ n + 1 then
        (splitAtByte s (n + 1 - c.utf8Size)).map fun (front, back) => (c :: front, back)
      else none

attribute [local simp] splitAtByte

theorem splitAtByte_append (front back : Str) : splitAtByte (front ++ back) (byteLen front) = some (front, back) := by
  induction front with
  | nil => cases back <;> rfl
  | cons c front ih =>
      have hlen : byteLen (c :: front) = c.utf8Size + byteLen front := by simp [byteLen]
      obtain ⟨n, hn⟩ := Nat.exists_eq_succ_of_ne_zero (show byteLen (c :: front) ≠ 0 by have := c.utf8Size_pos; omega)
      have hrest : n + 1 - c.utf8Size = byteLen front := by omega
      rw [List.cons_append, hn, splitAtByte, if_pos (by omega), hrest, ih]
      rfl

theorem splitAtByte_eq_some : splitAtByte s n = some (front, back) ↔ s = front ++ back ∧ byteLen front = n := by
  constructor
  · intro h
    fun_induction splitAtByte s n generalizing front with
    | case1 => cases h; exact ⟨rfl, rfl⟩
    | case2 => cases h
    | case3 c s n hle ih =>
        obtain ⟨⟨first, second⟩, hrest, heq⟩ := Option.map_eq_some_iff.mp h
        cases heq
        obtain ⟨rfl, hlen⟩ := ih hrest
        refine ⟨rfl, ?_⟩
        have hcons : byteLen (c :: first) = c.utf8Size + byteLen first := by simp [byteLen]
        omega
    | case4 => cases h
  · rintro ⟨rfl, rfl⟩
    exact splitAtByte_append front back

/-- The position stands between two characters, or at an end. -/
def Boundary (s : Str) (n : Nat) : Prop := ∃ front back, s = front ++ back ∧ byteLen front = n

theorem boundary_iff : Boundary s n ↔ (splitAtByte s n).isSome = true := by
  rw [Option.isSome_iff_exists]
  constructor
  · rintro ⟨front, back, h⟩
    exact ⟨_, splitAtByte_eq_some.mpr h⟩
  · rintro ⟨⟨front, back⟩, h⟩
    exact ⟨front, back, splitAtByte_eq_some.mp h⟩

instance (s : Str) (n : Nat) : Decidable (Boundary s n) := decidable_of_iff _ boundary_iff.symm

theorem boundary_zero (s : Str) : Boundary s 0 := ⟨[], s, rfl, rfl⟩

theorem boundary_byteLen (s : Str) : Boundary s (byteLen s) := ⟨s, [], (List.append_nil s).symm, rfl⟩

theorem boundary_append (front back : Str) : Boundary (front ++ back) (byteLen front) := ⟨front, back, rfl, rfl⟩

theorem Boundary.le (h : Boundary s n) : n ≤ byteLen s := by
  obtain ⟨front, back, rfl, rfl⟩ := h
  rw [byteLen_append]
  omega

/-- A text that is split twice. -/
theorem exists_between {front' back' : Str} (h : front ++ back = front' ++ back') (hle : byteLen front ≤ byteLen front') :
    ∃ between, front' = front ++ between ∧ back = between ++ back' := by
  rcases List.append_eq_append_iff.mp h with ⟨between, hfront, hback⟩ | ⟨between, hfront, hback⟩
  · exact ⟨between, hfront, hback⟩
  · have hnil : between = [] := by
      rw [hfront, byteLen_append] at hle
      exact byteLen_eq_zero.mp (by omega)
    rw [hnil, List.append_nil] at hfront
    rw [hnil, List.nil_append] at hback
    exact ⟨[], by rw [List.append_nil, hfront], hback.symm⟩

theorem boundary_append_left (h : p ≤ byteLen front) : Boundary (front ++ back) p ↔ Boundary front p := by
  constructor
  · rintro ⟨first, rest, heq, rfl⟩
    obtain ⟨between, rfl, -⟩ := exists_between heq.symm h
    exact boundary_append first between
  · rintro ⟨first, rest, rfl, rfl⟩
    rw [List.append_assoc]
    exact boundary_append first _

theorem boundary_append_right : Boundary (front ++ back) (byteLen front + n) ↔ Boundary back n := by
  constructor
  · rintro ⟨first, rest, heq, hlen⟩
    obtain ⟨between, rfl, rfl⟩ := exists_between heq (by omega)
    rw [byteLen_append, Nat.add_left_cancel_iff] at hlen
    exact ⟨between, rest, rfl, hlen⟩
  · rintro ⟨first, rest, rfl, rfl⟩
    rw [← List.append_assoc, ← byteLen_append]
    exact boundary_append _ _

/-! ## Slices -/

/-- `s[start..stop]`; none where this panics. -/
def slice (s : Str) (start stop : Nat) : Option Str :=
  (splitAtByte s stop).bind fun parts => (splitAtByte parts.1 start).map Prod.snd

theorem slice_eq_some : slice s start stop = some cut ↔
    ∃ before after, s = before ++ cut ++ after ∧ byteLen before = start ∧ byteLen (before ++ cut) = stop := by
  rw [slice, Option.bind_eq_some_iff]
  constructor
  · rintro ⟨⟨front, back⟩, hstop, hstart⟩
    obtain ⟨⟨before, rest⟩, hsplit, rfl⟩ := Option.map_eq_some_iff.mp hstart
    obtain ⟨rfl, hlen⟩ := splitAtByte_eq_some.mp hstop
    obtain ⟨rfl, hbefore⟩ := splitAtByte_eq_some.mp hsplit
    exact ⟨before, back, rfl, hbefore, hlen⟩
  · rintro ⟨before, after, rfl, rfl, rfl⟩
    exact ⟨(before ++ cut, after), splitAtByte_append _ _, Option.map_eq_some_iff.mpr
      ⟨(before, cut), splitAtByte_append _ _, rfl⟩⟩

theorem slice_append (before cut after : Str) :
    slice (before ++ cut ++ after) (byteLen before) (byteLen (before ++ cut)) = some cut :=
  slice_eq_some.mpr ⟨before, after, rfl, rfl, rfl⟩

/-- Between two positions there is something to cut out. -/
theorem exists_cut (hstart : Boundary s start) (hstop : Boundary s stop) (hle : start ≤ stop) :
    ∃ before cut after, s = before ++ cut ++ after ∧ byteLen before = start ∧ byteLen (before ++ cut) = stop := by
  obtain ⟨before, rest, rfl, rfl⟩ := hstart
  obtain ⟨front, after, heq, rfl⟩ := hstop
  obtain ⟨cut, rfl, rfl⟩ := exists_between heq hle
  exact ⟨before, cut, after, (List.append_assoc _ _ _).symm, rfl, rfl⟩

theorem slice_append_left (h : stop ≤ byteLen front) : slice (front ++ back) start stop = slice front start stop := by
  refine Option.ext fun cut => ?_
  rw [slice_eq_some, slice_eq_some]
  constructor
  · rintro ⟨before, after, heq, rfl, rfl⟩
    obtain ⟨between, rfl, -⟩ := exists_between heq.symm h
    exact ⟨before, between, rfl, rfl, rfl⟩
  · rintro ⟨before, after, rfl, rfl, rfl⟩
    exact ⟨before, after ++ back, List.append_assoc _ _ _, rfl, rfl⟩

theorem slice_append_right : slice (front ++ back) (byteLen front + start) (byteLen front + stop) =
    slice back start stop := by
  refine Option.ext fun cut => ?_
  rw [slice_eq_some, slice_eq_some]
  constructor
  · rintro ⟨before, after, heq, hstart, hstop⟩
    rw [List.append_assoc] at heq
    obtain ⟨between, rfl, rfl⟩ := exists_between heq (by omega)
    rw [byteLen_append, byteLen_append, Nat.add_assoc, Nat.add_left_cancel_iff, ← byteLen_append] at hstop
    rw [byteLen_append, Nat.add_left_cancel_iff] at hstart
    exact ⟨between, after, (List.append_assoc _ _ _).symm, hstart, hstop⟩
  · rintro ⟨before, after, rfl, rfl, rfl⟩
    refine ⟨front ++ before, after, by simp, byteLen_append _ _, ?_⟩
    rw [List.append_assoc, byteLen_append]

/-! ## Edits -/

/-- `s.replace_range(start..stop, new)`; none where this panics. -/
def replaceBytes (s : Str) (start stop : Nat) (new : Str) : Option Str :=
  (splitAtByte s stop).bind fun parts => (splitAtByte parts.1 start).map fun halves => halves.1 ++ new ++ parts.2

theorem replaceBytes_append (before cut after new : Str) :
    replaceBytes (before ++ cut ++ after) (byteLen before) (byteLen (before ++ cut)) new =
      some (before ++ new ++ after) := by
  simp only [replaceBytes, splitAtByte_append, Option.bind_some, Option.map_some]

/-- What stands in front of an edit stays where it is. -/
theorem boundary_edit_left (new : Str) (h : p ≤ byteLen before) :
    Boundary (before ++ new ++ after) p ↔ Boundary (before ++ cut ++ after) p := by
  rw [List.append_assoc, List.append_assoc, boundary_append_left h, boundary_append_left h]

theorem slice_edit_left (new : Str) (h : stop ≤ byteLen before) :
    slice (before ++ new ++ after) start stop = slice (before ++ cut ++ after) start stop := by
  rw [List.append_assoc, List.append_assoc, slice_append_left h, slice_append_left h]

/-- What stands behind an edit moves with its end. -/
theorem boundary_edit_right (new : Str) :
    Boundary (before ++ new ++ after) (byteLen (before ++ new) + n) ↔
      Boundary (before ++ cut ++ after) (byteLen (before ++ cut) + n) := by
  rw [boundary_append_right, boundary_append_right]

theorem slice_edit_right (new : Str) :
    slice (before ++ new ++ after) (byteLen (before ++ new) + start) (byteLen (before ++ new) + stop) =
      slice (before ++ cut ++ after) (byteLen (before ++ cut) + start) (byteLen (before ++ cut) + stop) := by
  rw [slice_append_right, slice_append_right]

/-! ## Newlines -/

/-- `find('\n')`. -/
def findNewline : Str → Option Nat
  | [] => none
  | c :: s => if c = '\n' then some 0 else (findNewline s).map (· + c.utf8Size)

attribute [local simp] findNewline

/-- `rfind('\n')`. -/
def rfindNewline : Str → Option Nat
  | [] => none
  | c :: s =>
      match rfindNewline s with
      | some i => some (i + c.utf8Size)
      | none => if c = '\n' then some 0 else none

attribute [local simp] rfindNewline

theorem findNewline_eq_some {i : Nat} (h : findNewline s = some i) :
    ∃ before after, s = before ++ '\n' :: after ∧ byteLen before = i := by
  induction s generalizing i with
  | nil => cases h
  | cons c s ih =>
      rw [findNewline] at h
      split at h
      · next hc =>
          cases h
          exact ⟨[], s, by rw [hc, List.nil_append], rfl⟩
      · obtain ⟨j, hj, rfl⟩ := Option.map_eq_some_iff.mp h
        obtain ⟨before, after, rfl, rfl⟩ := ih hj
        refine ⟨c :: before, after, rfl, ?_⟩
        simp [byteLen, Nat.add_comm]

theorem rfindNewline_eq_none (h : rfindNewline s = none) : '\n' ∉ s := by
  induction s with
  | nil => exact List.not_mem_nil
  | cons c s ih =>
      rw [rfindNewline] at h
      split at h
      · cases h
      · next hrest =>
          split at h
          · cases h
          · next hc => exact fun hmem => (List.mem_cons.mp hmem).elim (fun heq => hc heq.symm) (ih hrest)

theorem rfindNewline_eq_some {i : Nat} (h : rfindNewline s = some i) :
    ∃ before after, s = before ++ '\n' :: after ∧ byteLen before = i ∧ '\n' ∉ after := by
  induction s generalizing i with
  | nil => cases h
  | cons c s ih =>
      rw [rfindNewline] at h
      split at h
      · next j hj =>
          cases h
          obtain ⟨before, after, rfl, rfl, hafter⟩ := ih hj
          refine ⟨c :: before, after, rfl, ?_, hafter⟩
          simp [byteLen, Nat.add_comm]
      · next hrest =>
          split at h
          · next hc =>
              cases h
              exact ⟨[], s, by rw [hc, List.nil_append], rfl, rfindNewline_eq_none hrest⟩
          · cases h

theorem byteLen_newline (before : Str) : byteLen (before ++ ['\n']) = byteLen before + 1 := by
  rw [byteLen_append]
  rfl

theorem boundary_newline : Boundary (before ++ '\n' :: after) (byteLen before + 1) := by
  rw [← List.singleton_append, ← List.append_assoc, ← byteLen_newline]
  exact boundary_append _ _

end Text
