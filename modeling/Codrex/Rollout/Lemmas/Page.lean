import Codrex.Rollout.Lemmas.Walk

/-!
# Every traversal serves pages of its sorted files
-/

namespace Codrex.Rollout

open Text

/-! ## Filling a page -/

section

variable {α : Type} {ts : α → OffsetDateTime} {build : α → Option ThreadItem} {pageSize : Nat}

/-- Behind the anchor, the page takes the matching files up to its size. -/
structure Fills (build : α → Option ThreadItem) (pageSize : Nat) (xs : List α) (filled : List ThreadItem × Bool) :
    Prop where
  items : filled.1 = (xs.filterMap build).take pageSize
  done : filled.2 = false → (xs.filterMap build).length ≤ pageSize
  more : filled.2 = true → filled.1.length = pageSize

theorem fillPage_passed {anchor : AnchorState} (hpassed : anchor.passed = true) {items : List ThreadItem}
    (hitems : items.length ≤ pageSize) (xs : List α) :
    (fillPage ts build pageSize anchor items xs).1 = (items ++ xs.filterMap build).take pageSize ∧
      ((fillPage ts build pageSize anchor items xs).2 = false → (items ++ xs.filterMap build).length ≤ pageSize) ∧
      ((fillPage ts build pageSize anchor items xs).2 = true →
        (fillPage ts build pageSize anchor items xs).1.length = pageSize) := by
  induction xs generalizing items with
  | nil =>
      rw [fillPage, List.filterMap_nil, List.append_nil]
      exact ⟨(List.take_of_length_le hitems).symm, fun _ => hitems, nofun⟩
  | cons x xs ih =>
      have hskip : anchor.shouldSkip (ts x) = (false, anchor) := by rw [AnchorState.shouldSkip, if_pos hpassed]
      rw [fillPage, hskip]
      simp only [Bool.false_eq_true, if_false]
      split
      · rename_i hfull
        refine ⟨?_, nofun, fun _ => hfull⟩
        rw [List.take_append_of_le_length (Nat.le_of_eq hfull.symm), List.take_of_length_le hitems]
      · rename_i hroom
        have hlength : (items ++ (build x).toList).length ≤ pageSize := by
          rw [List.length_append]
          cases build x <;> simp <;> omega
        have happend : items ++ (x :: xs).filterMap build = items ++ (build x).toList ++ xs.filterMap build := by
          rw [List.filterMap_cons, List.append_assoc]
          cases build x <;> rfl
        rw [happend]
        exact ih hlength

theorem fillPage_after {anchor : Option Cursor} {xs : List α} (hsorted : xs.Pairwise fun a b => ts b ≤ ts a) :
    fillPage ts build pageSize (AnchorState.new anchor) [] xs =
      fillPage ts build pageSize ⟨.unixEpoch, true⟩ [] (Paging.after ts anchor xs) := by
  have hpassed : ∀ (anchor anchor' : AnchorState) (items : List ThreadItem) (xs : List α), anchor.passed = true →
      anchor'.passed = true →
      fillPage ts build pageSize anchor items xs = fillPage ts build pageSize anchor' items xs := by
    intro anchor anchor' items xs h h'
    induction xs generalizing items with
    | nil => rfl
    | cons x xs ih =>
        simp only [fillPage, AnchorState.shouldSkip, if_pos h, if_pos h', Bool.false_eq_true, if_false]
        rw [ih]
  cases anchor with
  | none =>
      rw [Paging.after]
      simp only [Option.all_none, List.filter_true]
      rfl
  | some cursor =>
      induction xs with
      | nil => rfl
      | cons x xs ih =>
          rw [List.pairwise_cons] at hsorted
          by_cases hlt : ts x < cursor
          · have hall : Paging.after ts (some cursor) (x :: xs) = x :: xs := by
              rw [Paging.after, List.filter_eq_self]
              intro y hy
              rcases List.mem_cons.mp hy with rfl | hy
              · simpa using hlt
              · simpa using (hsorted.1 y hy).trans_lt hlt
            have hskip : (AnchorState.new (some cursor)).shouldSkip (ts x) = (false, ⟨cursor, true⟩) := by
              simp [AnchorState.new, AnchorState.shouldSkip, hlt]
            have hskip' : AnchorState.shouldSkip ⟨.unixEpoch, true⟩ (ts x) = (false, ⟨.unixEpoch, true⟩) := rfl
            rw [hall, fillPage, fillPage, hskip, hskip']
            simp only [Bool.false_eq_true, if_false]
            rw [hpassed ⟨cursor, true⟩ ⟨.unixEpoch, true⟩ ([] ++ (build x).toList) xs rfl rfl]
          · have hskip : (AnchorState.new (some cursor)).shouldSkip (ts x) = (true, AnchorState.new (some cursor)) := by
              simp [AnchorState.new, AnchorState.shouldSkip, hlt]
            have hafter : Paging.after ts (some cursor) (x :: xs) = Paging.after ts (some cursor) xs := by
              rw [Paging.after, List.filter_cons_of_neg (by simpa using hlt), Paging.after]
            rw [hafter, ← ih hsorted.2, fillPage, hskip]
            rfl

theorem fillPage_fills {anchor : Option Cursor} {xs : List α} (hsorted : xs.Pairwise fun a b => ts b ≤ ts a) :
    Fills build pageSize (Paging.after ts anchor xs)
      (fillPage ts build pageSize (AnchorState.new anchor) [] xs) := by
  rw [fillPage_after hsorted]
  have hpassed : (⟨.unixEpoch, true⟩ : AnchorState).passed = true := rfl
  have hempty : ([] : List ThreadItem).length ≤ pageSize := Nat.zero_le _
  obtain ⟨hitems, hdone, hmore⟩ := fillPage_passed hpassed hempty (Paging.after ts anchor xs)
  exact ⟨hitems, hdone, hmore⟩

theorem fillPage_map {β : Type} (f : β → α) (anchor : AnchorState) (items : List ThreadItem) (xs : List β) :
    fillPage ts build pageSize anchor items (xs.map f) =
      fillPage (ts ∘ f) (build ∘ f) pageSize anchor items xs := by
  induction xs generalizing anchor items with
  | nil => rfl
  | cons x xs ih =>
      simp only [List.map_cons, fillPage, Function.comp_apply]
      rw [ih, ih]

end

/-! ## The visitor fills a page -/

variable {out : Outside} {filters : Filters} {pageSize : Nat}

theorem shouldSkip_cases (anchor : AnchorState) (ts : OffsetDateTime) :
    (anchor.passed = false ∧ anchor.shouldSkip ts = (true, anchor)) ∨
      ∃ anchor', anchor'.passed = true ∧ anchor.shouldSkip ts = (false, anchor') := by
  rw [AnchorState.shouldSkip]
  split
  · rename_i hpassed
    exact .inr ⟨anchor, hpassed, rfl⟩
  split
  · exact .inr ⟨_, rfl, rfl⟩
  · rename_i hpassed _
    exact .inl ⟨Bool.eq_false_iff.mpr hpassed, rfl⟩

theorem foldl_visit (out : Outside) (filters : Filters) (hsize : 0 < pageSize) (files : List Found) (visitor : FilesByCreatedAtVisitor) (scanned : Nat)
    (hmore : visitor.moreMatchesAvailable = false) (hitems : visitor.items.length ≤ pageSize)
    (hanchor : visitor.anchorState.passed = true ∨ visitor.items = [])
    (hcap : scanned + files.length ≤ maxScanFiles) :
    ((files.foldl (Walk.visitFile (FilesByCreatedAtVisitor.visit out filters pageSize))
        ⟨visitor, scanned, false⟩).visitor.items,
      (files.foldl (Walk.visitFile (FilesByCreatedAtVisitor.visit out filters pageSize))
        ⟨visitor, scanned, false⟩).visitor.moreMatchesAvailable) =
      fillPage Found.ts (buildFound out filters) pageSize visitor.anchorState visitor.items files := by
  induction files generalizing visitor scanned with
  | nil => simp only [List.foldl_nil, fillPage, hmore]
  | cons found files ih =>
      rw [List.length_cons] at hcap
      have hroom : ¬ scanned + 1 > maxScanFiles := by omega
      have hstop : ∀ visitor' : FilesByCreatedAtVisitor,
          files.foldl (Walk.visitFile (FilesByCreatedAtVisitor.visit out filters pageSize)) ⟨visitor', scanned + 1, true⟩ =
            ⟨visitor', scanned + 1, true⟩ := fun visitor' => foldl_visitFile_stopped _ rfl files
      rw [List.foldl_cons, Walk.visitFile, if_neg Bool.false_ne_true, if_neg hroom, fillPage]
      rcases shouldSkip_cases visitor.anchorState found.ts with ⟨hpassed, hskip⟩ | ⟨anchor, hpassed, hskip⟩
      · -- Nothing has been taken yet, so the page is not full, whatever the cap says.
        have hnil : visitor.items = [] := hanchor.resolve_left (by rw [hpassed]; exact Bool.false_ne_true)
        have hnotFull : ¬ (scanned + 1 ≥ maxScanFiles ∧ visitor.items.length ≥ pageSize) := by
          rw [hnil, List.length_nil]
          omega
        rw [FilesByCreatedAtVisitor.visit, if_neg hnotFull, hskip]
        exact ih _ (scanned + 1) hmore hitems hanchor (by omega)
      · rw [FilesByCreatedAtVisitor.visit, hskip]
        dsimp only
        by_cases hfull : visitor.items.length = pageSize
        · simp only [if_pos hfull, Bool.false_eq_true, if_false]
          split
          · rw [Bool.not_false, hstop]
          · rw [Bool.not_false, hstop]
        · have hnotFull : ¬ (scanned + 1 ≥ maxScanFiles ∧ visitor.items.length ≥ pageSize) := by omega
          rw [if_neg hnotFull, if_neg Bool.false_ne_true, if_neg hfull, if_neg Bool.false_ne_true, if_neg hfull]
          refine ih _ (scanned + 1) hmore ?_ (.inl hpassed) (by omega)
          dsimp only
          rw [List.length_append]
          cases buildFound out filters found <;> simp <;> omega

theorem foldl_collect (files : List Found) (candidates : List ThreadCandidate) (scanned : Nat)
    (hcap : scanned + files.length ≤ maxScanFiles) :
    (files.foldl (Walk.visitFile fun candidates found _ => (candidates ++ [found.candidate], true))
      ⟨candidates, scanned, false⟩).visitor = candidates ++ files.map Found.candidate := by
  induction files generalizing candidates scanned with
  | nil => exact (List.append_nil _).symm
  | cons found files ih =>
      rw [List.length_cons] at hcap
      have hroom : ¬ scanned + 1 > maxScanFiles := by omega
      rw [List.foldl_cons, Walk.visitFile, if_neg Bool.false_ne_true, if_neg hroom]
      dsimp only
      rw [Bool.not_true, ih (candidates ++ [found.candidate]) (scanned + 1) (by omega), List.map_cons,
        List.append_assoc]
      rfl

theorem collectFlatLoop_eq (root : RolloutPath) (entries : Directory) (scanned : Nat)
    (hcap : scanned + (entries.filterMap (foundAt out root)).length ≤ maxScanFiles) :
    (collectFlatLoop out root entries scanned).1 = entries.filterMap (foundAt out root) := by
  induction entries generalizing scanned with
  | nil => rfl
  | cons entry entries ih =>
      rw [collectFlatLoop]
      split
      · have hnil : (entry :: entries).filterMap (foundAt out root) = [] :=
          List.eq_nil_of_length_eq_zero (by omega)
        exact hnil.symm
      cases hfound : foundAt out root entry with
      | none =>
          rw [List.filterMap_cons_none hfound] at hcap ⊢
          exact ih scanned hcap
      | some found =>
          rw [List.filterMap_cons_some hfound, List.length_cons] at hcap
          rw [List.filterMap_cons_some hfound]
          have hroom : ¬ scanned + 1 > maxScanFiles := by omega
          dsimp only
          rw [if_neg hroom, ih (scanned + 1) (by omega)]

/-! ## The traversals -/

/-- The page is filled from the given files, by the time of the sort key. -/
def FilledFrom (out : Outside) (filters : Filters) (pageSize : Nat) (sortKey : ThreadSortKey) (cursor : Option Cursor)
    (files : List Found) (page : ThreadsPage) : Prop :=
  ∃ filled scanned,
    fillPage (Found.listedAt sortKey) (buildFound out filters) pageSize (AnchorState.new cursor) [] files = filled ∧
      page = toPage out sortKey filled.1 filled.2 scanned

/-- The files by their last update. -/
def sortByUpdatedAt (files : List Found) : List Found :=
  files.insertionSort fun a b => Newer (a.listedAt .updatedAt, a.id) (b.listedAt .updatedAt, b.id)

/-- Candidates are sorted as their files are. -/
theorem sortCandidates_map (files : List Found) :
    sortCandidates (files.map Found.candidate) = (sortByUpdatedAt files).map Found.candidate := by
  have hstamp : ∀ a ∈ files, ∀ b ∈ files,
      Newer (a.listedAt .updatedAt, a.id) (b.listedAt .updatedAt, b.id) ↔ Newer a.candidate.stamp b.candidate.stamp :=
    fun _ _ _ _ => Iff.rfl
  exact (List.map_insertionSort _ (fun a b : ThreadCandidate => Newer a.stamp b.stamp) _ files hstamp).symm

theorem filledFrom_candidates {cursor : Option Cursor} (files : List Found) (scanned : Nat) :
    FilledFrom out filters pageSize .updatedAt cursor (sortByUpdatedAt files)
      (let (items, more) := fillPage (fun candidate : ThreadCandidate => candidate.stamp.1)
        (buildCandidate out filters) pageSize (AnchorState.new cursor) [] (sortCandidates (files.map Found.candidate))
      toPage out .updatedAt items more scanned) := by
  rw [sortCandidates_map, fillPage_map]
  exact ⟨_, scanned, rfl, rfl⟩

variable {root : Directory}

theorem traverseDirectoriesForPathsCreated_filled (hsize : 0 < pageSize)
    (hcap : (walkedFiles out root).length ≤ maxScanFiles) (cursor : Option Cursor) :
    FilledFrom out filters pageSize .createdAt cursor (walkedFiles out root)
      (traverseDirectoriesForPathsCreated out root pageSize cursor filters) := by
  have hagrees := walkRolloutFiles_agrees out (FilesByCreatedAtVisitor.visit out filters pageSize) root
    ⟨[], AnchorState.new cursor, false⟩ hcap
  have hfold := foldl_visit out filters hsize (walkedFiles out root) ⟨[], AnchorState.new cursor, false⟩ 0 rfl (Nat.zero_le _)
    (.inr rfl) (by rw [Nat.zero_add]; exact hcap)
  rw [← hagrees.visitor] at hfold
  exact ⟨_, _, hfold.symm, rfl⟩

theorem traverseDirectoriesForPathsUpdated_filled (hcap : (walkedFiles out root).length ≤ maxScanFiles)
    (cursor : Option Cursor) :
    FilledFrom out filters pageSize .updatedAt cursor (sortByUpdatedAt (walkedFiles out root))
      (traverseDirectoriesForPathsUpdated out root pageSize cursor filters) := by
  have hagrees := walkRolloutFiles_agrees out (fun candidates found _ => (candidates ++ [found.candidate], true)) root []
    hcap
  have hcollected : (collectFilesByUpdatedAt out root).1 = (walkedFiles out root).map Found.candidate := by
    rw [collectFilesByUpdatedAt, hagrees.visitor,
      foldl_collect (walkedFiles out root) [] 0 (by rw [Nat.zero_add]; exact hcap)]
    rfl
  rw [traverseDirectoriesForPathsUpdated]
  generalize collectFilesByUpdatedAt out root = collected at hcollected
  obtain ⟨candidates, scannedFiles⟩ := collected
  obtain rfl : candidates = _ := hcollected
  exact filledFrom_candidates _ _

theorem collectFlatLoop_root (hcap : (rolloutFiles out root .flat).length ≤ maxScanFiles) :
    (collectFlatLoop out [] root 0).1 = rolloutFiles out root .flat :=
  collectFlatLoop_eq [] root 0 (by rw [Nat.zero_add]; exact hcap)

theorem traverseFlatPathsCreated_filled (hcap : (rolloutFiles out root .flat).length ≤ maxScanFiles)
    (cursor : Option Cursor) :
    FilledFrom out filters pageSize .createdAt cursor
      ((rolloutFiles out root .flat).insertionSort fun a b => Newer a.stamp b.stamp)
      (traverseFlatPathsCreated out root pageSize cursor filters) := by
  rw [traverseFlatPathsCreated, collectFlatRolloutFiles, ← collectFlatLoop_root hcap]
  exact ⟨_, _, rfl, rfl⟩

theorem traverseFlatPathsUpdated_filled (hcap : (rolloutFiles out root .flat).length ≤ maxScanFiles)
    (cursor : Option Cursor) :
    FilledFrom out filters pageSize .updatedAt cursor (sortByUpdatedAt (rolloutFiles out root .flat))
      (traverseFlatPathsUpdated out root pageSize cursor filters) := by
  rw [traverseFlatPathsUpdated, collectFlatFilesByUpdatedAt, ← collectFlatLoop_root hcap]
  exact filledFrom_candidates _ _

end Codrex.Rollout
