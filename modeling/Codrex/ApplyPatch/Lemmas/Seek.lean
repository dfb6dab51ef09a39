import Codrex.ApplyPatch.Spec

/-!
# Where `seek_sequence` finds a pattern
-/

namespace Codrex.ApplyPatch

open Text Fallible

variable {lines pattern : List Str} {start i : Nat}

/-! ## One position -/

theorem matchesAt_iff {view : Str → Str} {lines pattern : List Str} :
    matchesAt view lines pattern = true ↔ (lines.take pattern.length).map view = pattern.map view := by
  induction pattern generalizing lines with
  | nil => simp [matchesAt]
  | cons pat pattern ih =>
      cases lines with
      | nil => simp [matchesAt]
      | cons line lines => simp [matchesAt, ih]

theorem matchesAt_drop_iff (level : Strictness) :
    matchesAt level.view (lines.drop i) pattern = true ↔ MatchesLevel level lines pattern i := matchesAt_iff

theorem MatchesLevel.le_length {level : Strictness} (h : MatchesLevel level lines pattern i) (hne : pattern ≠ []) :
    i + pattern.length ≤ lines.length := by
  have hlen := congrArg List.length h
  simp only [List.length_map, List.length_take, List.length_drop] at hlen
  have hpos := List.length_pos_of_ne_nil hne
  omega

/-! ## One pass -/

theorem seekPass_eq_some_iff (level : Strictness) (hne : pattern ≠ []) :
    seekPass level.view lines pattern start = some i ↔
      start ≤ i ∧ MatchesLevel level lines pattern i ∧ ∀ j, start ≤ j → j < i → ¬ MatchesLevel level lines pattern j := by
  rw [seekPass, List.find?_range'_eq_some, List.mem_range'_1, matchesAt_drop_iff]
  simp only [Bool.not_eq_true', ← Bool.not_eq_true, matchesAt_drop_iff]
  constructor
  · rintro ⟨hmatch, ⟨hle, -⟩, hbefore⟩
    exact ⟨hle, hmatch, hbefore⟩
  · rintro ⟨hle, hmatch, hbefore⟩
    have := hmatch.le_length hne
    exact ⟨hmatch, ⟨hle, by omega⟩, hbefore⟩

theorem seekPass_eq_none_iff (level : Strictness) (hne : pattern ≠ []) :
    seekPass level.view lines pattern start = none ↔ ∀ j, start ≤ j → ¬ MatchesLevel level lines pattern j := by
  rw [seekPass, List.find?_eq_none]
  simp only [matchesAt_drop_iff, List.mem_range'_1]
  constructor
  · intro h j hj hmatch
    have := hmatch.le_length hne
    exact h j ⟨hj, by omega⟩ hmatch
  · intro h j hj
    exact h j hj.1

/-! ## All passes -/

def Strictness.all : List Strictness := [.exact, .trimmedEnd, .trimmed, .normalised]

theorem Strictness.mem_all (level : Strictness) : level ∈ Strictness.all := by cases level <;> decide

/-- The first pass with a result decides. -/
def passesFrom (lines pattern : List Str) (start : Nat) : List Strictness → Option Nat
  | [] => none
  | level :: levels => seekPass level.view lines pattern start <|> passesFrom lines pattern start levels

theorem passesFrom_sought (lines : List Str) (start : Nat) (hne : pattern ≠ []) {levels : List Strictness}
    (hsorted : levels.Pairwise fun level level' => level.rank < level'.rank) :
    match passesFrom lines pattern start levels with
    | some i => ∃ level ∈ levels, start ≤ i ∧ MatchesLevel level lines pattern i ∧
        (∀ j, start ≤ j → j < i → ¬ MatchesLevel level lines pattern j) ∧
        ∀ stricter ∈ levels, stricter.rank < level.rank → ∀ j, start ≤ j → ¬ MatchesLevel stricter lines pattern j
    | none => ∀ level ∈ levels, ∀ j, start ≤ j → ¬ MatchesLevel level lines pattern j := by
  induction levels with
  | nil => simp [passesFrom]
  | cons level levels ih =>
      obtain ⟨hlt, hsorted⟩ := List.pairwise_cons.mp hsorted
      cases hpass : seekPass level.view lines pattern start with
      | some i =>
          have hfound : passesFrom lines pattern start (level :: levels) = some i := by
            rw [passesFrom, hpass]
            rfl
          rw [hfound]
          obtain ⟨hle, hmatch, hbefore⟩ := (seekPass_eq_some_iff level hne).mp hpass
          refine ⟨level, by simp, hle, hmatch, hbefore, ?_⟩
          intro stricter hmem hrank
          rcases List.mem_cons.mp hmem with rfl | hmem
          · exact absurd hrank (Nat.lt_irrefl _)
          · exact absurd (hlt stricter hmem) (Nat.not_lt.mpr (Nat.le_of_lt hrank))
      | none =>
          have hrest : passesFrom lines pattern start (level :: levels) = passesFrom lines pattern start levels := by
            rw [passesFrom, hpass]
            rfl
          have hnone := (seekPass_eq_none_iff level hne).mp hpass
          have ih := ih hsorted
          rw [hrest]
          split
          · rename_i i hi
            rw [hi] at ih
            obtain ⟨level', hmem, hle, hmatch, hbefore, hstricter⟩ := ih
            refine ⟨level', by simp [hmem], hle, hmatch, hbefore, ?_⟩
            intro stricter hmem' hrank
            rcases List.mem_cons.mp hmem' with rfl | hmem'
            · exact hnone
            · exact hstricter stricter hmem' hrank
          · rename_i hi
            rw [hi] at ih
            intro level' hmem
            rcases List.mem_cons.mp hmem with rfl | hmem
            · exact hnone
            · exact ih level' hmem

theorem passesFrom_all_sought (hne : pattern ≠ []) :
    Sought lines pattern start (passesFrom lines pattern start Strictness.all) := by
  have hsorted : Strictness.all.Pairwise fun level level' => level.rank < level'.rank := by decide
  have hsought := passesFrom_sought lines start hne hsorted
  cases hfound : passesFrom lines pattern start Strictness.all with
  | none =>
      rw [hfound] at hsought
      exact fun level => hsought level level.mem_all
  | some i =>
      rw [hfound] at hsought
      obtain ⟨level, -, hle, hmatch, hbefore, hstricter⟩ := hsought
      exact ⟨level, hle, hmatch, hbefore, fun stricter => hstricter stricter stricter.mem_all⟩

theorem seekSequence_eq_passesFrom (hne : pattern ≠ []) (hlen : pattern.length ≤ lines.length) (eof : Bool) :
    seekSequence lines pattern start eof =
      passesFrom lines pattern (if eof then lines.length - pattern.length else start) Strictness.all := by
  have hempty : pattern.isEmpty = false := by simpa using hne
  rw [seekSequence, hempty, if_neg Bool.false_ne_true, if_neg (Nat.not_lt.mpr hlen)]
  simp only [hlen, and_true, passesFrom, Strictness.all, Strictness.view, Option.orElse_eq_orElse,
    Option.orElse_eq_or, Option.or_none]

theorem noMatch_of_length_lt (hne : pattern ≠ []) (h : lines.length < pattern.length) (start : Nat) :
    NoMatch lines pattern start := by
  intro level i _ hmatch
  have := hmatch.le_length hne
  omega

theorem seekSequence_of_length_lt (hne : pattern ≠ []) (h : lines.length < pattern.length) (eof : Bool) :
    seekSequence lines pattern start eof = none := by
  have hempty : pattern.isEmpty = false := by simpa using hne
  rw [seekSequence, hempty, if_neg Bool.false_ne_true, if_pos h]

/-- The search from a start. -/
theorem seekSequence_sought (lines : List Str) (start : Nat) (hne : pattern ≠ []) :
    Sought lines pattern start (seekSequence lines pattern start false) := by
  by_cases hlen : pattern.length ≤ lines.length
  · rw [seekSequence_eq_passesFrom hne hlen]
    exact passesFrom_all_sought hne
  · have hlt : lines.length < pattern.length := Nat.lt_of_not_le hlen
    rw [seekSequence_of_length_lt hne hlt]
    exact noMatch_of_length_lt hne hlt start

theorem Sought.eq_some_of_end {result : Option Nat} (hne : pattern ≠ [])
    (h : Sought lines pattern (lines.length - pattern.length) result) :
    (result = some (lines.length - pattern.length) ↔ MatchesEnd lines pattern) ∧
      (result = none ↔ ¬ MatchesEnd lines pattern) := by
  cases result with
  | none =>
      have hnone : ¬ MatchesEnd lines pattern := by
        rintro ⟨level, hmatch⟩
        exact h level _ (Nat.le_refl _) hmatch
      simp [hnone]
  | some i =>
      obtain ⟨level, hle, hmatch, -, -⟩ := h
      obtain rfl : i = lines.length - pattern.length := by
        have := hmatch.le_length hne
        omega
      have hend : MatchesEnd lines pattern := ⟨level, hmatch⟩
      simp [hend]

/-- With the mark the search finds the end of the lines or nothing. -/
theorem seekSequence_end (lines : List Str) (start : Nat) (hne : pattern ≠ []) :
    (seekSequence lines pattern start true = some (lines.length - pattern.length) ↔ MatchesEnd lines pattern) ∧
      (seekSequence lines pattern start true = none ↔ ¬ MatchesEnd lines pattern) := by
  by_cases hlen : pattern.length ≤ lines.length
  · rw [seekSequence_eq_passesFrom hne hlen]
    exact (passesFrom_all_sought hne).eq_some_of_end hne
  · have hlt : lines.length < pattern.length := Nat.lt_of_not_le hlen
    have hend : ¬ MatchesEnd lines pattern := by
      rintro ⟨level, hmatch⟩
      exact noMatch_of_length_lt hne hlt _ level _ (Nat.le_refl _) hmatch
    rw [seekSequence_of_length_lt hne hlt]
    simp [hend]

theorem Sought.noMatch_iff {result : Option Nat} (h : Sought lines pattern start result) :
    result = none ↔ NoMatch lines pattern start := by
  cases result with
  | none => exact ⟨fun _ => h, fun _ => rfl⟩
  | some i =>
      obtain ⟨level, hle, hmatch, -, -⟩ := h
      exact ⟨nofun, fun hnone => absurd hmatch (hnone level i hle)⟩

/-! ## Every read is in range -/

theorem exactAt_eq (h : i + pattern.length ≤ lines.length) :
    exactAt lines pattern i = some (matchesAt id (lines.drop i) pattern) := by
  rw [exactAt, slice, if_pos h]
  have hmatch : matchesAt id (lines.drop i) pattern = ((lines.drop i).take pattern.length == pattern) := by
    rw [Bool.eq_iff_iff, matchesAt_iff, List.map_id, List.map_id, beq_iff_eq]
  rw [hmatch]
  rfl

theorem viewedAt_eq (view : Str → Str) {rest : List Str} {pIdx : Nat} (h : i + pIdx + rest.length ≤ lines.length) :
    viewedAt view lines i rest pIdx = some (matchesAt view (lines.drop (i + pIdx)) rest) := by
  induction rest generalizing pIdx with
  | nil => simp [viewedAt, matchesAt]
  | cons pat rest ih =>
      rw [List.length_cons] at h
      have hlt : i + pIdx < lines.length := by omega
      rw [viewedAt, List.getElem?_eq_getElem hlt, List.drop_eq_getElem_cons hlt, matchesAt]
      have hrest := ih (by omega : i + (pIdx + 1) + rest.length ≤ lines.length)
      by_cases hview : view lines[i + pIdx] = view pat
      · simp [hview, hrest, Nat.add_assoc]
      · simp [hview]

theorem firstAt_eq {isMatch : Nat → MayPanic Bool} {p : Nat → Bool} {indices : List Nat}
    (h : ∀ i ∈ indices, isMatch i = some (p i)) : firstAt isMatch indices = some (indices.find? p) := by
  induction indices with
  | nil => rfl
  | cons i indices ih =>
      rw [firstAt, h i (by simp), ih fun j hj => h j (by simp [hj])]
      cases hp : p i <;> simp [hp]

theorem seekPasses_cons {isMatch : Nat → MayPanic Bool} {p : Nat → Bool} {indices : List Nat} {rest : Option Nat}
    {passes : List (Nat → MayPanic Bool)} (h : ∀ i ∈ indices, isMatch i = some (p i))
    (hrest : seekPasses indices passes = some rest) :
    seekPasses indices (isMatch :: passes) = some (indices.find? p <|> rest) := by
  rw [seekPasses, firstAt_eq h]
  cases hfind : indices.find? p with
  | some i => rfl
  | none => exact hrest

/-- No read of the search is out of range, whatever the start. -/
theorem seekSequenceReading_eq (lines pattern : List Str) (start : Nat) (eof : Bool) :
    seekSequenceReading lines pattern start eof = some (seekSequence lines pattern start eof) := by
  rw [seekSequenceReading, seekSequence]
  split
  · rfl
  split
  · rfl
  generalize (if eof = true ∧ lines.length ≥ pattern.length then lines.length - pattern.length else start) = searchStart
  have hin : ∀ i ∈ List.range' searchStart (lines.length - pattern.length + 1 - searchStart),
      i + pattern.length ≤ lines.length := by
    intro i hi
    have := List.mem_range'_1.mp hi
    omega
  have hviewed : ∀ view : Str → Str, ∀ i ∈ List.range' searchStart (lines.length - pattern.length + 1 - searchStart),
      viewedAt view lines i pattern 0 = some (matchesAt view (lines.drop i) pattern) := by
    intro view i hi
    exact viewedAt_eq view (hin i hi)
  have hnil : seekPasses (List.range' searchStart (lines.length - pattern.length + 1 - searchStart)) [] = some none := rfl
  have hnormalised := seekPasses_cons (hviewed normalise) hnil
  have htrimmed := seekPasses_cons (hviewed trim) hnormalised
  have htrimmedEnd := seekPasses_cons (hviewed trimEnd) htrimmed
  have hexact := seekPasses_cons (fun i hi => exactAt_eq (hin i hi)) htrimmedEnd
  rw [hexact]
  simp [seekPass]

end Codrex.ApplyPatch
