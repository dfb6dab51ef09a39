import Codrex.Rollout.Listing
import Mathlib.Data.List.Perm.Basic

/-!
# The walk visits the files in their order
-/

namespace Codrex.Rollout

open Text

section

variable {σ : Type} {visit : σ → Found → Nat → σ × Bool}

/-- The same visitor and count; the walks may differ in whether they go on where the cap is reached. -/
structure Walk.Agrees (walk walk' : Walk σ) : Prop where
  visitor : walk.visitor = walk'.visitor
  scannedFiles : walk.scannedFiles = walk'.scannedFiles
  stopped : walk.stopped = walk'.stopped ∨ maxScanFiles ≤ walk'.scannedFiles

/-- A part of the walk visits exactly the given files, as far as the cap allows for them. -/
def Visits (visit : σ → Found → Nat → σ × Bool) (part : Walk σ → Walk σ) (files : List Found) : Prop :=
  ∀ walk walk' : Walk σ, walk.Agrees walk' → walk'.scannedFiles + files.length ≤ maxScanFiles →
    (part walk).Agrees (files.foldl (Walk.visitFile visit) walk')

theorem scannedFiles_visitFile (visit : σ → Found → Nat → σ × Bool) (walk : Walk σ) (found : Found) :
    (walk.visitFile visit found).scannedFiles ≤ walk.scannedFiles + 1 := by
  rw [Walk.visitFile]
  split
  · omega
  split
  · exact Nat.le_refl _
  · exact Nat.le_refl _

theorem scannedFiles_foldl (visit : σ → Found → Nat → σ × Bool) (walk : Walk σ) (files : List Found) :
    (files.foldl (Walk.visitFile visit) walk).scannedFiles ≤ walk.scannedFiles + files.length := by
  induction files generalizing walk with
  | nil => exact Nat.le_refl _
  | cons found files ih =>
      have hfirst := scannedFiles_visitFile visit walk found
      have hrest := ih (walk.visitFile visit found)
      rw [List.foldl_cons, List.length_cons]
      omega

theorem visits_files (files : List Found) : Visits visit (files.foldl (Walk.visitFile visit)) files := by
  rintro ⟨visitor, scanned, stopped⟩ ⟨visitor', scanned', stopped'⟩ ⟨hvisitor, hscanned, hstopped⟩ hcap
  dsimp only at hvisitor hscanned hstopped hcap
  subst hvisitor hscanned
  cases files with
  | nil => exact ⟨rfl, rfl, hstopped⟩
  | cons found files =>
      rw [List.length_cons] at hcap
      obtain rfl : stopped = stopped' := hstopped.resolve_right (by omega)
      exact ⟨rfl, rfl, .inl rfl⟩

theorem Visits.comp {first second : Walk σ → Walk σ} {files more : List Found} (h : Visits visit first files)
    (h' : Visits visit second more) : Visits visit (fun walk => second (first walk)) (files ++ more) := by
  intro walk walk' hagrees hcap
  rw [List.length_append] at hcap
  rw [List.foldl_append]
  refine h' _ _ (h walk walk' hagrees (by omega)) ?_
  have hscanned := scannedFiles_foldl visit walk' files
  omega

theorem Visits.foldl {α : Type} {part : Walk σ → α → Walk σ} {files : α → List Found}
    (h : ∀ x, Visits visit (part · x) (files x)) (xs : List α) :
    Visits visit (fun walk => xs.foldl part walk) (xs.flatMap files) := by
  induction xs with
  | nil =>
      intro walk walk' hagrees _
      exact hagrees
  | cons x xs ih =>
      rw [List.flatMap_cons]
      exact (h x).comp ih

theorem foldl_visitFile_stopped (walk : Walk σ) (h : walk.stopped = true) (files : List Found) :
    files.foldl (Walk.visitFile visit) walk = walk := by
  induction files with
  | nil => rfl
  | cons found files ih => rw [List.foldl_cons, Walk.visitFile, if_pos h, ih]

/-- Where a directory is not entered because of the cap, no files are left. -/
theorem Visits.enter {inside : Walk σ → Walk σ} {files : List Found} (h : Visits visit inside files) :
    Visits visit (fun walk => walk.enter inside) files := by
  intro walk walk' hagrees hcap
  simp only [Walk.enter]
  split
  · rename_i hstopped
    rcases hagrees.stopped with hsame | hfull
    · rw [foldl_visitFile_stopped walk' (hsame.symm.trans hstopped)]
      exact hagrees
    · obtain rfl : files = [] := List.eq_nil_of_length_eq_zero (by omega)
      exact hagrees
  split
  · rename_i hfull
    rw [hagrees.scannedFiles] at hfull
    obtain rfl : files = [] := List.eq_nil_of_length_eq_zero (by omega)
    exact ⟨hagrees.visitor, hagrees.scannedFiles, .inr hfull⟩
  · exact h walk walk' hagrees hcap

end

/-! ## The files of the nested directories -/

def dayFilesDesc (out : Outside) (day : Nat × RolloutPath × Directory) : List Found :=
  collectRolloutDayFiles out day.2.1 day.2.2

/-- The files in the order of the walk. -/
def walkedFiles (out : Outside) (root : Directory) : List Found :=
  (collectDirsDesc [] 65535 root).flatMap fun year => (collectDirsDesc year.2.1 255 year.2.2).flatMap fun month =>
    (collectDirsDesc month.2.1 255 month.2.2).flatMap (dayFilesDesc out)

theorem walkRolloutFiles_agrees {σ : Type} (out : Outside) (visit : σ → Found → Nat → σ × Bool) (root : Directory)
    (visitor : σ) (hcap : (walkedFiles out root).length ≤ maxScanFiles) :
    (walkRolloutFiles out visit root visitor).Agrees
      ((walkedFiles out root).foldl (Walk.visitFile visit) ⟨visitor, 0, false⟩) := by
  have hday : ∀ day, Visits visit (walkDay out visit · day) (dayFilesDesc out day) :=
    fun day => (visits_files (dayFilesDesc out day)).enter
  have hmonth : ∀ month, Visits visit (walkMonth out visit · month)
      ((collectDirsDesc month.2.1 255 month.2.2).flatMap (dayFilesDesc out)) :=
    fun month => (Visits.foldl hday _).enter
  have hyear : ∀ year, Visits visit (walkYear out visit · year)
      ((collectDirsDesc year.2.1 255 year.2.2).flatMap fun month =>
        (collectDirsDesc month.2.1 255 month.2.2).flatMap (dayFilesDesc out)) :=
    fun year => (Visits.foldl hmonth _).enter
  exact Visits.foldl hyear _ _ _ ⟨rfl, rfl, .inl rfl⟩ (by dsimp only; rw [Nat.zero_add]; exact hcap)

theorem collectDirsDesc_perm (parent : RolloutPath) (max : Nat) (entries : Directory) :
    (collectDirsDesc parent max entries).Perm (collectDirs parent max entries) := List.perm_insertionSort ..

theorem walkedFiles_perm (out : Outside) (root : Directory) :
    (walkedFiles out root).Perm (rolloutFiles out root .nestedByDate) := by
  refine (collectDirsDesc_perm ..).flatMap fun year _ => ?_
  refine (collectDirsDesc_perm ..).flatMap fun month _ => ?_
  exact (collectDirsDesc_perm ..).flatMap fun day _ => List.perm_insertionSort ..

/-! ## The walk goes from the newest file to the oldest -/

theorem lt_of_year {a b : OffsetDateTime} (h : a.year < b.year) : a < b :=
  Prod.Lex.toLex_lt_toLex.mpr (.inl h)

theorem lt_of_month {a b : OffsetDateTime} (hyear : a.year = b.year) (h : a.month < b.month) : a < b :=
  Prod.Lex.toLex_lt_toLex.mpr (.inr ⟨hyear, Prod.Lex.toLex_lt_toLex.mpr (.inl h)⟩)

theorem lt_of_day {a b : OffsetDateTime} (hyear : a.year = b.year) (hmonth : a.month = b.month)
    (h : a.day < b.day) : a < b :=
  Prod.Lex.toLex_lt_toLex.mpr
    (.inr ⟨hyear, Prod.Lex.toLex_lt_toLex.mpr (.inr ⟨hmonth, Prod.Lex.toLex_lt_toLex.mpr (.inl h)⟩)⟩)

theorem Newer.total (a b : OffsetDateTime × Nat) : Newer a b ∨ Newer b a := by
  rcases lt_trichotomy a.1 b.1 with hlt | heq | hgt
  · exact .inr (.inl hlt)
  · rcases Nat.le_total b.2 a.2 with hle | hle
    · exact .inl (.inr ⟨heq.symm, hle⟩)
    · exact .inr (.inr ⟨heq, hle⟩)
  · exact .inl (.inl hgt)

theorem Newer.trans {a b c : OffsetDateTime × Nat} (hab : Newer a b) (hbc : Newer b c) : Newer a c := by
  rcases hab with hlt | ⟨heq, hle⟩
  · rcases hbc with hlt' | ⟨heq', -⟩
    · exact .inl (hlt'.trans hlt)
    · exact .inl (heq'.trans_lt hlt)
  · rcases hbc with hlt' | ⟨heq', hle'⟩
    · exact .inl (hlt'.trans_eq heq)
    · exact .inr ⟨heq'.trans heq, hle'.trans hle⟩

/-- Sorting by any stamp goes from the newest to the oldest. -/
theorem pairwise_newer {α : Type} (stamp : α → OffsetDateTime × Nat) (xs : List α) :
    (xs.insertionSort fun a b => Newer (stamp a) (stamp b)).Pairwise fun a b => Newer (stamp a) (stamp b) := by
  have : Std.Total fun a b : α => Newer (stamp a) (stamp b) := ⟨fun a b => Newer.total _ _⟩
  have : IsTrans α fun a b => Newer (stamp a) (stamp b) := ⟨fun _ _ _ => Newer.trans⟩
  exact List.pairwise_insertionSort _ xs

theorem collectDirsDesc_pairwise {parent : RolloutPath} {max : Nat} {entries : Directory}
    (h : ((collectDirs parent max entries).map Prod.fst).Nodup) :
    (collectDirsDesc parent max entries).Pairwise fun a b => b.1 < a.1 := by
  have hsorted : (collectDirsDesc parent max entries).Pairwise fun a b => b.1 ≤ a.1 := by
    have : Std.Total fun a b : Nat × RolloutPath × Directory => b.1 ≤ a.1 := ⟨fun a b => Nat.le_total _ _⟩
    have : IsTrans (Nat × RolloutPath × Directory) fun a b => b.1 ≤ a.1 := ⟨fun _ _ _ h h' => Nat.le_trans h' h⟩
    exact List.pairwise_insertionSort _ _
  have hdistinct : (collectDirsDesc parent max entries).Pairwise fun a b => a.1 ≠ b.1 :=
    List.pairwise_map.mp (((collectDirsDesc_perm parent max entries).map Prod.fst).nodup_iff.mpr h)
  exact (hsorted.and hdistinct).imp fun ⟨hle, hne⟩ => by omega

/-- The files of directories in descending order, each of them in order. -/
theorem pairwise_flatMap_desc {α : Type} {dirs : List (Nat × α)} {files : Nat × α → List Found}
    (hdirs : dirs.Pairwise fun a b => b.1 < a.1)
    (hfiles : ∀ dir ∈ dirs, (files dir).Pairwise fun a b => Newer a.stamp b.stamp)
    (hcross : ∀ dir ∈ dirs, ∀ dir' ∈ dirs, dir'.1 < dir.1 →
      ∀ found ∈ files dir, ∀ found' ∈ files dir', found'.ts < found.ts) :
    (dirs.flatMap files).Pairwise fun a b => Newer a.stamp b.stamp := by
  rw [List.pairwise_flatMap]
  refine ⟨hfiles, hdirs.imp_of_mem ?_⟩
  intro dir dir' hdir hdir' hlt found hfound found' hfound'
  exact .inl (hcross dir hdir dir' hdir' hlt found hfound found' hfound')

theorem mem_dayFilesDesc {out : Outside} {day : Nat × RolloutPath × Directory} {found : Found} :
    found ∈ dayFilesDesc out day ↔ found ∈ dayFiles out day := List.mem_insertionSort _

theorem mem_innerDirsDesc {dir inner : Nat × RolloutPath × Directory} :
    inner ∈ collectDirsDesc dir.2.1 255 dir.2.2 ↔ inner ∈ innerDirs dir := List.mem_insertionSort _

theorem mem_yearDirsDesc {root : Directory} {year : Nat × RolloutPath × Directory} :
    year ∈ collectDirsDesc [] 65535 root ↔ year ∈ yearDirs root := List.mem_insertionSort _

theorem walkedFiles_pairwise {out : Outside} {root : Directory} (h : PlacedByDate out root) :
    (walkedFiles out root).Pairwise fun a b => Newer a.stamp b.stamp := by
  have hdate : ∀ {year month day found}, year ∈ yearDirs root → month ∈ innerDirs year → day ∈ innerDirs month →
      found ∈ dayFiles out day → found.ts.year = year.1 ∧ found.ts.month = month.1 ∧ found.ts.day = day.1 := by
    intro year month day found hyear hmonth hday hfound
    have hdates := h.dates year hyear month hmonth day hday found hfound
    rw [OffsetDateTime.date, Prod.mk.injEq, Prod.mk.injEq] at hdates
    exact hdates
  refine pairwise_flatMap_desc (collectDirsDesc_pairwise h.years) ?_ ?_
  · intro year hyear
    rw [mem_yearDirsDesc] at hyear
    refine pairwise_flatMap_desc (collectDirsDesc_pairwise (h.months year hyear)) ?_ ?_
    · intro month hmonth
      rw [mem_innerDirsDesc] at hmonth
      refine pairwise_flatMap_desc (collectDirsDesc_pairwise (h.days year hyear month hmonth)) ?_ ?_
      · exact fun day _ => pairwise_newer Found.stamp _
      · intro day hday day' hday' hlt found hfound found' hfound'
        rw [mem_innerDirsDesc] at hday hday'
        rw [mem_dayFilesDesc] at hfound hfound'
        obtain ⟨hy, hm, hd⟩ := hdate hyear hmonth hday hfound
        obtain ⟨hy', hm', hd'⟩ := hdate hyear hmonth hday' hfound'
        exact lt_of_day (hy'.trans hy.symm) (hm'.trans hm.symm) (by omega)
    · intro month hmonth month' hmonth' hlt found hfound found' hfound'
      rw [mem_innerDirsDesc] at hmonth hmonth'
      obtain ⟨day, hday, hfound⟩ := List.mem_flatMap.mp hfound
      obtain ⟨day', hday', hfound'⟩ := List.mem_flatMap.mp hfound'
      rw [mem_innerDirsDesc] at hday hday'
      rw [mem_dayFilesDesc] at hfound hfound'
      obtain ⟨hy, hm, -⟩ := hdate hyear hmonth hday hfound
      obtain ⟨hy', hm', -⟩ := hdate hyear hmonth' hday' hfound'
      exact lt_of_month (hy'.trans hy.symm) (by omega)
  · intro year hyear year' hyear' hlt found hfound found' hfound'
    rw [mem_yearDirsDesc] at hyear hyear'
    obtain ⟨month, hmonth, hfound⟩ := List.mem_flatMap.mp hfound
    obtain ⟨month', hmonth', hfound'⟩ := List.mem_flatMap.mp hfound'
    rw [mem_innerDirsDesc] at hmonth hmonth'
    obtain ⟨day, hday, hfound⟩ := List.mem_flatMap.mp hfound
    obtain ⟨day', hday', hfound'⟩ := List.mem_flatMap.mp hfound'
    rw [mem_innerDirsDesc] at hday hday'
    rw [mem_dayFilesDesc] at hfound hfound'
    obtain ⟨hy, -, -⟩ := hdate hyear hmonth hday hfound
    obtain ⟨hy', -, -⟩ := hdate hyear' hmonth' hday' hfound'
    exact lt_of_year (by omega)

end Codrex.Rollout
