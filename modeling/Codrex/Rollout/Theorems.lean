import Codrex.Rollout.Lemmas.Page

/-!
# Results for the listing of threads
-/

namespace Codrex.Rollout

open Text

variable {out : Outside} {root : Directory} {pageSize : Nat} {sortKey : ThreadSortKey} {layout : ThreadListLayout}

/-! ## Cursors -/

theorem buildNextCursor_eq (items : List ThreadItem) :
    buildNextCursor out items sortKey = items.getLast?.bind fun item => buildNextCursor out [item] sortKey := by
  cases h : items.getLast? <;> simp [buildNextCursor, h]

theorem foundAt_eq_some {parent : RolloutPath} {entry : Str × DirEntry} {found : Found}
    (h : foundAt out parent entry = some found) :
    ∃ name, found.path.getLast? = some name ∧
      parseTimestampUuidFromFilename out name = some (found.ts, found.id) := by
  obtain ⟨name, entry⟩ := entry
  cases entry with
  | dir entries => cases h
  | other => cases h
  | file file =>
      rw [foundAt] at h
      split at h
      · obtain ⟨⟨ts, id⟩, hparse, rfl⟩ := Option.map_eq_some_iff.mp h
        exact ⟨name, List.getLast?_concat, hparse⟩
      · cases h

theorem mem_rolloutFiles {found : Found} (h : found ∈ rolloutFiles out root layout) :
    ∃ parent entry, foundAt out parent entry = some found := by
  cases layout with
  | flat =>
      obtain ⟨entry, -, hfound⟩ := List.mem_filterMap.mp h
      exact ⟨[], entry, hfound⟩
  | nestedByDate =>
      obtain ⟨year, -, h⟩ := List.mem_flatMap.mp h
      obtain ⟨month, -, h⟩ := List.mem_flatMap.mp h
      obtain ⟨day, -, h⟩ := List.mem_flatMap.mp h
      obtain ⟨entry, -, hfound⟩ := List.mem_filterMap.mp h
      exact ⟨day.2.1, entry, hfound⟩

theorem buildThreadItem_eq_some {filters : Filters} {path : RolloutPath} {file : RolloutFile} {updatedAt : Option Str}
    {item : ThreadItem} (h : buildThreadItem out filters path file updatedAt = some item) :
    item.path = path ∧ ∃ summary : HeadTailSummary,
      summary = (readHeadSummary out file headRecordLimit).getD {} ∧
      item.updatedAt = summary.updatedAt.or (updatedAt.or summary.createdAt) := by
  simp only [buildThreadItem] at h
  split at h
  · obtain rfl := Option.some.inj h
    exact ⟨rfl, _, rfl, rfl⟩
  · cases h

/-- The head of a file says nothing of its last update. -/
theorem updatedAt_readHeadLoop {headLimit : Nat} {lines : List (Option Str)} {summary result : HeadTailSummary}
    {scanned : Nat} (hsummary : summary.updatedAt = none)
    (h : readHeadLoop out headLimit lines summary scanned = some result) : result.updatedAt = none := by
  have hnote : ∀ (summary : HeadTailSummary) line, summary.updatedAt = none → (summary.note line).updatedAt = none := by
    intro summary line hnone
    rw [HeadTailSummary.note]
    split
    · split
      · exact hnone
      · exact hnone
    all_goals exact hnone
  induction lines generalizing summary scanned with
  | nil =>
      obtain rfl := Option.some.inj h
      exact hsummary
  | cons line lines ih =>
      rw [readHeadLoop.eq_def] at h
      dsimp only at h
      split at h
      · cases line with
        | none => cases h
        | some line =>
            dsimp only at h
            split at h
            · exact ih hsummary h
            split at h
            · exact ih hsummary h
            · split at h
              · obtain rfl := Option.some.inj h
                exact hnote _ _ hsummary
              · exact ih (hnote _ _ hsummary) h
      · obtain rfl := Option.some.inj h
        exact hsummary

theorem updatedAt_readHeadSummary (file : RolloutFile) :
    ((readHeadSummary out file headRecordLimit).getD {}).updatedAt = none := by
  cases h : readHeadSummary out file headRecordLimit with
  | none => rfl
  | some summary => exact updatedAt_readHeadLoop rfl h

/-- The cursor behind an item is the time by which its file is listed. -/
theorem cursor_of_item {filters : Filters} (h : Listable out root layout sortKey) {found : Found}
    (hfound : found ∈ rolloutFiles out root layout) {item : ThreadItem}
    (hitem : buildFound out filters found = some item) :
    buildNextCursor out [item] sortKey = some (found.listedAt sortKey) := by
  obtain ⟨parent, entry, hat⟩ := mem_rolloutFiles hfound
  obtain ⟨name, hname, hparse⟩ := foundAt_eq_some hat
  obtain ⟨hpath, summary, hsummary, hupdated⟩ := buildThreadItem_eq_some hitem
  have hcreated : buildNextCursor out [item] .createdAt = some found.ts := by
    simp [buildNextCursor, hpath, hname, hparse]
  cases sortKey with
  | createdAt => exact hcreated
  | updatedAt =>
      obtain ⟨ts, hts, hround⟩ := h.dated rfl found hfound
      obtain ⟨text, hformat, hread⟩ := Option.bind_eq_some_iff.mp hround
      rw [hsummary, updatedAt_readHeadSummary, hts, Option.bind_some, hformat] at hupdated
      have hlisted : found.listedAt .updatedAt = ts := by simp [Found.listedAt, hts]
      simp [buildNextCursor, hpath, hname, hparse, hupdated, hread, hlisted]

/-! ## Pages -/

theorem nextCursor_eq_some {items : List ThreadItem} {more : Bool} {scanned : Nat} {cursor : Cursor}
    (h : (toPage out sortKey items more scanned).nextCursor = some cursor) :
    buildNextCursor out items sortKey = some cursor := by
  simp only [toPage] at h
  split at h
  · exact h
  · cases h

theorem nextCursor_eq_none {items : List ThreadItem} {scanned : Nat}
    (h : (toPage out sortKey items true scanned).nextCursor = none) : buildNextCursor out items sortKey = none := by
  simpa only [toPage, Bool.true_or, if_true] using h

/-- There is a cursor behind every item of a page. -/
theorem isSome_buildNextCursor (filters : Filters) (h : Listable out root layout sortKey) {files : List Found}
    (hfiles : ∀ found ∈ files, found ∈ rolloutFiles out root layout) {items : List ThreadItem}
    (hitems : ∀ item ∈ items, item ∈ files.filterMap (buildFound out filters)) (hne : items ≠ []) :
    (buildNextCursor out items sortKey).isSome = true := by
  rw [buildNextCursor_eq, List.getLast?_eq_some_getLast hne, Option.bind_some]
  obtain ⟨found, hfound, hbuild⟩ := List.mem_filterMap.mp (hitems _ (List.getLast_mem hne))
  rw [cursor_of_item h (hfiles found hfound) hbuild]
  rfl

theorem serves_of_filled {files : List Found} {filters : Filters} (hsize : 0 < pageSize)
    (h : Listable out root layout sortKey) (hperm : files.Perm (rolloutFiles out root layout))
    (hsorted : files.Pairwise fun a b => b.listedAt sortKey ≤ a.listedAt sortKey) {get : Option Cursor → ThreadsPage}
    (hget : ∀ cursor, FilledFrom out filters pageSize sortKey cursor files (get cursor)) :
    Paging.Serves (Found.listedAt sortKey) (buildFound out filters) (fun item => buildNextCursor out [item] sortKey)
      pageSize files fun cursor => ((get cursor).items, (get cursor).nextCursor) := by
  have hfilled : ∀ cursor, ∃ filled scanned, get cursor = toPage out sortKey filled.1 filled.2 scanned ∧
      Fills (buildFound out filters) pageSize (Paging.after (Found.listedAt sortKey) cursor files) filled := by
    intro cursor
    obtain ⟨filled, scanned, rfl, hpage⟩ := hget cursor
    exact ⟨_, scanned, hpage, fillPage_fills hsorted⟩
  refine ⟨?_, ?_, ?_⟩
  · intro cursor
    obtain ⟨filled, scanned, hpage, hfills⟩ := hfilled cursor
    exact (congrArg ThreadsPage.items hpage).trans hfills.items
  · intro cursor hnone
    obtain ⟨⟨items, more⟩, scanned, hpage, hfills⟩ := hfilled cursor
    dsimp only at hnone hpage
    rw [hpage] at hnone
    cases more with
    | false => exact hfills.done rfl
    | true =>
        have hfull : items.length = pageSize := hfills.more rfl
        have hne : items ≠ [] := List.ne_nil_of_length_pos (by omega)
        have hitems : items = _ := hfills.items
        have hsome := isSome_buildNextCursor filters h
          (fun found hfound => hperm.mem_iff.mp (List.mem_of_mem_filter hfound))
          (fun item hitem => List.mem_of_mem_take (hitems ▸ hitem)) hne
        rw [nextCursor_eq_none hnone] at hsome
        cases hsome
  · intro cursor k hnext
    obtain ⟨filled, scanned, hpage, hfills⟩ := hfilled cursor
    dsimp only at hnext ⊢
    rw [hpage] at hnext ⊢
    rw [← buildNextCursor_eq]
    exact nextCursor_eq_some hnext

/-- The files, all of them, in the order in which the pages go through them. -/
theorem exists_ordered {config : ThreadListConfig} (hsize : 0 < pageSize)
    (h : Listable out root config.layout sortKey) :
    ∃ files : List Found, files.Perm (rolloutFiles out root config.layout) ∧
      files.Pairwise (fun a b => Newer (a.listedAt sortKey, a.id) (b.listedAt sortKey, b.id)) ∧
      ∀ cursor, FilledFrom out config.filters pageSize sortKey cursor files
        (getThreadsInRoot out (some root) pageSize cursor sortKey config) := by
  have hcapped := h.capped
  have hplaced := h.placed
  simp only [getThreadsInRoot]
  generalize config.layout = layout at hcapped hplaced ⊢
  cases layout with
  | nestedByDate =>
      have hperm := walkedFiles_perm out root
      have hcap : (walkedFiles out root).length ≤ maxScanFiles := hperm.length_eq.trans_le hcapped
      cases sortKey with
      | createdAt =>
          exact ⟨_, hperm, walkedFiles_pairwise (hplaced rfl rfl), traverseDirectoriesForPathsCreated_filled hsize hcap⟩
      | updatedAt =>
          exact ⟨_, (List.perm_insertionSort ..).trans hperm,
            pairwise_newer (fun a : Found => (a.listedAt .updatedAt, a.id)) _,
            traverseDirectoriesForPathsUpdated_filled hcap⟩
  | flat =>
      cases sortKey with
      | createdAt =>
          exact ⟨_, List.perm_insertionSort .., pairwise_newer Found.stamp _, traverseFlatPathsCreated_filled hcapped⟩
      | updatedAt =>
          exact ⟨_, List.perm_insertionSort .., pairwise_newer (fun a : Found => (a.listedAt .updatedAt, a.id)) _,
            traverseFlatPathsUpdated_filled hcapped⟩

/-- The pages come to an end. They show every matching thread once, by descending time and id, but for those that
share their time with the last thread of a full page and stand behind it; without such threads they show them all. -/
theorem lists_resumed (out : Outside) (root : Directory) (pageSize : Nat) (sortKey : ThreadSortKey)
    (config : ThreadListConfig) (hsize : 0 < pageSize) (h : Listable out root config.layout sortKey) :
    Lists out root pageSize sortKey config (Paging.resumed (Found.listedAt sortKey) pageSize) ∧
      (((rolloutFiles out root config.layout).filter fun found => (buildFound out config.filters found).isSome).Pairwise
          (fun a b => a.listedAt sortKey ≠ b.listedAt sortKey) →
        Lists out root pageSize sortKey config id) := by
  obtain ⟨files, hperm, hpairwise, hfilled⟩ := exists_ordered hsize h
  have hsorted : files.Pairwise fun a b => b.listedAt sortKey ≤ a.listedAt sortKey := by
    refine hpairwise.imp ?_
    rintro a b (hlt | ⟨heq, -⟩)
    · exact hlt.le
    · exact heq.le
  have henumerates := (serves_of_filled hsize h hperm hsorted hfilled).enumerates hsorted hsize
    (fun found hfound item hitem => cursor_of_item h (hperm.mem_iff.mp hfound) hitem) none
  have hall : Paging.after (Found.listedAt sortKey) none
      (files.filter fun found => (buildFound out config.filters found).isSome) =
      files.filter fun found => (buildFound out config.filters found).isSome := by
    rw [Paging.after]
    exact List.filter_true _
  rw [hall] at henumerates
  have hmatching := hperm.filter fun found => (buildFound out config.filters found).isSome
  refine ⟨⟨_, hmatching, hpairwise.filter _, henumerates⟩, ?_⟩
  intro hdistinct
  have hdistinct' := (hmatching.pairwise_iff fun hne => hne.symm).mpr hdistinct
  rw [Paging.resumed_eq_self hsize hdistinct'] at henumerates
  exact ⟨_, hmatching, hpairwise.filter _, henumerates⟩

/-! ## Threads of the same second -/

def tiedTime : Str := "2025-07-01".toList ++ "T00:00:00Z".toList

def tiedUuid (digit : Char) : Str :=
  "00000000".toList ++ "-0000-0000".toList ++ "-0000-".toList ++ "00000000000".toList ++ [digit]

def jsonPair (key value : Str) : Str := ['"'] ++ key ++ ['"', ':', '"'] ++ value ++ ['"']

def tiedMetaText : Str :=
  ['\x7b'] ++ jsonPair "timestamp".toList tiedTime ++ [','] ++ jsonPair "type".toList "session_meta".toList ++
    ",\"payload\":".toList ++ ['\x7b'] ++ jsonPair "id".toList (tiedUuid '1') ++ [','] ++
    jsonPair "timestamp".toList tiedTime ++ [','] ++ jsonPair "cwd".toList ['/'] ++ [','] ++
    jsonPair "originator".toList "cli".toList ++ [','] ++ jsonPair "cli_version".toList ['0'] ++ [','] ++
    jsonPair "source".toList "cli".toList ++ ['\x7d', '\x7d']

def tiedMessageText : Str :=
  ['\x7b'] ++ jsonPair "timestamp".toList tiedTime ++ [','] ++ jsonPair "type".toList "event_msg".toList ++
    ",\"payload\":".toList ++ ['\x7b'] ++ jsonPair "type".toList "user_message".toList ++ [','] ++
    jsonPair "message".toList "hi".toList ++ ['\x7d', '\x7d']

/-- What is outside, for the texts of these files: the lengths tell them apart. -/
def tiedOutside : Outside where
  parseUuid s := if s.length = 36 then s.getLast?.map fun c => c.toNat - '0'.toNat else none
  parseDateTime s := if s.length = 19 then some ⟨2025, 7, 1, 0⟩ else none
  formatRfc3339 ts := if ts = ⟨2025, 7, 1, 0⟩ then some tiedTime else none
  parseRfc3339 s := if s = tiedTime then some ⟨2025, 7, 1, 0⟩ else none
  parseLine s :=
    if s.length = tiedMetaText.length then
      some ⟨tiedTime, .sessionMeta ⟨tiedUuid '1', tiedTime, ['/'], ['0'], .cli, none, none, none, none⟩⟩
    else if s.length = tiedMessageText.length then some ⟨tiedTime, .userMessage "hi".toList⟩
    else none
  normalizeForPathComparison s := if s = ['/'] then some s else none

def tiedFile : RolloutFile := ⟨[some tiedMetaText, some tiedMessageText], some ⟨2025, 7, 1, 0⟩⟩

def tiedName (digit : Char) : Str :=
  "rollout-".toList ++ "2025-07-01".toList ++ "T00-00-00-".toList ++ tiedUuid digit ++ ".jsonl".toList

/-- Three threads of one second. -/
def tiedRoot : Directory :=
  [("2025".toList, .dir [("07".toList, .dir [("01".toList, .dir
    [(tiedName '1', .file tiedFile), (tiedName '2', .file tiedFile), (tiedName '3', .file tiedFile)])])])]

def anyThread : ThreadListConfig := ⟨[], none, none, [], .nestedByDate⟩

theorem listable_tiedRoot : Listable tiedOutside tiedRoot .nestedByDate .createdAt :=
  ⟨by decide, fun _ _ => ⟨by decide, by decide, by decide, by decide⟩, nofun⟩

theorem lists_tiedRoot :
    Lists tiedOutside tiedRoot 2 .createdAt anyThread (Paging.resumed (Found.listedAt .createdAt) 2) ∧
      (((rolloutFiles tiedOutside tiedRoot .nestedByDate).filter fun found =>
          (buildFound tiedOutside anyThread.filters found).isSome).Pairwise
          (fun a b => a.listedAt .createdAt ≠ b.listedAt .createdAt) →
        Lists tiedOutside tiedRoot 2 .createdAt anyThread id) :=
  lists_resumed tiedOutside tiedRoot 2 .createdAt anyThread (by decide) listable_tiedRoot

/-- With two threads to a page, the third one is on none of them. -/
theorem tiedRoot_not_listed :
    Listable tiedOutside tiedRoot .nestedByDate .createdAt ∧
      ¬ Lists tiedOutside tiedRoot 2 .createdAt anyThread id := by
  refine ⟨listable_tiedRoot, ?_⟩
  rintro ⟨ordered, hperm, -, hlisted⟩
  have hfirst : (pageOf tiedOutside tiedRoot 2 .createdAt anyThread none).2 = some ⟨2025, 7, 1, 0⟩ := by
    decide +kernel
  have hsecond : (pageOf tiedOutside tiedRoot 2 .createdAt anyThread (some ⟨2025, 7, 1, 0⟩)).2 = none := by
    decide +kernel
  have hpages := hlisted.unique (.next hfirst (.last hsecond))
  have hlength : ((pageOf tiedOutside tiedRoot 2 .createdAt anyThread none).1 ++
      (pageOf tiedOutside tiedRoot 2 .createdAt anyThread (some ⟨2025, 7, 1, 0⟩)).1).length = 2 := by
    decide +kernel
  have hall : ∀ found ∈ ordered, (buildFound tiedOutside anyThread.filters found).isSome = true := by
    intro found hfound
    exact (List.mem_filter.mp (hperm.mem_iff.mp hfound)).2
  have hthree : ordered.length = 3 := hperm.length_eq.trans (by decide +kernel)
  rw [← hpages, id, Paging.length_filterMap_of_isSome hall, hthree] at hlength
  cases hlength

end Codrex.Rollout
