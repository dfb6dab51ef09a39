import Codrex.ComposerHistory.Lookups
import Codrex.Lib.Keyed
import Mathlib.Data.List.Range

/-!
# A search is a cursor over the matches

Entries come from a log that answers the same for an offset whenever it is asked. The matches are those of all entries
from the newest to the oldest, each text once.
-/

namespace Codrex.ComposerHistory

open Text ChatComposerHistory

variable {D : Type} {texts : Texts D} {log : Nat → Option Str} {query : Str}
  {history history' : ChatComposerHistory D} {search : HistorySearchState D} {direction : HistorySearchDirection}
  {boundary : Bool} {offset : Nat} {offsets rest : List Nat} {logId : Nat} {seen : List Str} {entry : HistoryEntry D}

/-! ## The matches -/

def UniqueHistoryMatch.text (found : UniqueHistoryMatch D) : Str := found.entry.text

/-- The entry of an offset, as the log has it or as it has been recorded. -/
def entryAt (texts : Texts D) (log : Nat → Option Str) (history : ChatComposerHistory D) (offset : Nat) :
    Option (HistoryEntry D) :=
  if history.historyEntryCount ≤ offset then history.localHistory[offset - history.historyEntryCount]?
  else (log offset).map texts.newEntry

def Matches (texts : Texts D) (query : Str) (entry : HistoryEntry D) : Prop :=
  query = [] ∨ contains (texts.toLowercase entry.text) (texts.toLowercase query) = true

instance (texts : Texts D) (query : Str) (entry : HistoryEntry D) : Decidable (Matches texts query entry) :=
  inferInstanceAs (Decidable (_ ∨ _))

def matchAt (texts : Texts D) (log : Nat → Option Str) (query : Str) (history : ChatComposerHistory D) (offset : Nat) :
    Option (UniqueHistoryMatch D) :=
  ((entryAt texts log history offset).filter fun entry => Matches texts query entry).map (⟨offset, ·⟩)

/-- The matches at these offsets. -/
def matchesAt (texts : Texts D) (log : Nat → Option Str) (query : Str) (history : ChatComposerHistory D)
    (offsets : List Nat) : List (UniqueHistoryMatch D) :=
  offsets.filterMap (matchAt texts log query history)

/-- The offsets from the newest one below a bound. -/
def below (bound : Nat) : List Nat := (List.range bound).reverse

/-- All matches from the newest to the oldest, without later repetitions of a text. -/
def uniqueMatches (texts : Texts D) (log : Nat → Option Str) (query : Str) (history : ChatComposerHistory D) :
    List (UniqueHistoryMatch D) :=
  Keyed.firsts UniqueHistoryMatch.text [] (matchesAt texts log query history (below history.totalEntries))

/-- What is known of the log is what the log says. -/
def FromLog (texts : Texts D) (log : Nat → Option Str) (history : ChatComposerHistory D) : Prop :=
  ∀ offset entry, offset < history.historyEntryCount → history.fetchedHistory offset = some entry →
    (log offset).map texts.newEntry = some entry

theorem below_succ (bound : Nat) : below (bound + 1) = bound :: below bound := by
  rw [below, List.range_succ, List.reverse_append]
  rfl

theorem mem_below {bound offset : Nat} : offset ∈ below bound ↔ offset < bound := by
  rw [below, List.mem_reverse, List.mem_range]

/-- Behind an offset come those below it. -/
theorem below_split {bound : Nat} {front : List Nat} (h : below bound = front ++ offset :: rest) :
    rest = below offset ∧ ∀ newer, offset < newer → newer < bound → newer ∈ front := by
  induction bound generalizing front with
  | zero => exact absurd h (by simp [below])
  | succ bound ih =>
      rw [below_succ] at h
      cases front with
      | nil =>
          obtain ⟨rfl, rfl⟩ := List.cons.inj h
          exact ⟨rfl, fun newer hlt hle => by omega⟩
      | cons first front =>
          obtain ⟨rfl, htail⟩ := List.cons.inj h
          obtain ⟨hrest, hnewer⟩ := ih htail
          refine ⟨hrest, fun newer hlt hle => ?_⟩
          by_cases heq : newer = bound
          · rw [heq]
            exact List.mem_cons_self ..
          · exact List.mem_cons_of_mem _ (hnewer newer hlt (by omega))

theorem offset_of_matchAt {found : UniqueHistoryMatch D} (h : matchAt texts log query history offset = some found) :
    found.offset = offset := by
  obtain ⟨entry, -, rfl⟩ := Option.map_eq_some_iff.mp h
  rfl

theorem pairwise_below (bound : Nat) : (below bound).Pairwise fun newer older => older < newer := by
  rw [below, List.pairwise_reverse]
  exact List.pairwise_lt_range

theorem uniqueMatches_pairwise (texts : Texts D) (log : Nat → Option Str) (query : Str)
    (history : ChatComposerHistory D) :
    (uniqueMatches texts log query history).Pairwise fun newer older => older.offset < newer.offset := by
  refine List.Pairwise.sublist (Keyed.firsts_sublist _ _) ?_
  refine (pairwise_below history.totalEntries).filterMap _ fun newer older hlt found hfound other hother => ?_
  rw [offset_of_matchAt hfound, offset_of_matchAt hother]
  exact hlt

/-- No offset above that of the newest match has a match. -/
theorem matchAt_newer {newest : UniqueHistoryMatch D} (h : (uniqueMatches texts log query history)[0]? = some newest)
    (hlt : newest.offset < offset) (hbound : offset < history.totalEntries) :
    matchAt texts log query history offset = none := by
  obtain ⟨tail, htail⟩ : ∃ tail, uniqueMatches texts log query history = newest :: tail := by
    cases hall : uniqueMatches texts log query history with
    | nil => rw [hall] at h; cases h
    | cons first tail =>
        rw [hall] at h
        cases h
        exact ⟨tail, rfl⟩
  obtain ⟨others, hothers⟩ := Keyed.firsts_head htail
  obtain ⟨front, found, back, hsplit, hnone, hfound, -⟩ := List.filterMap_eq_cons_iff.mp hothers
  obtain rfl := offset_of_matchAt hfound
  exact hnone offset ((below_split hsplit).2 offset hlt hbound)

/-! ## Scanning -/

theorem entryAt_of_cached (hlog : FromLog texts log history) (h : history.entryAtCachedOffset offset = some entry) :
    entryAt texts log history offset = some entry := by
  rw [entryAtCachedOffset] at h
  rw [entryAt]
  split
  · next hle => rwa [if_pos hle] at h
  · next hlt =>
      rw [if_neg hlt] at h
      exact hlog offset entry (Nat.not_le.mp hlt) h

theorem entryAt_of_local (hle : history.historyEntryCount ≤ offset) (h : history.entryAtCachedOffset offset = none) :
    entryAt texts log history offset = none := by
  rw [entryAtCachedOffset, if_pos hle] at h
  rw [entryAt, if_pos hle, h]

/-- The history that waits for an offset. -/
def awaitingAt (history : ChatComposerHistory D) (search : HistorySearchState D) (pending : PendingHistorySearch)
    (logId : Nat) : ChatComposerHistory D :=
  { history with
    search := some { search with awaiting := some pending }
    requests := history.requests ++ [(pending.offset, logId)] }

/-- A scan finds the first new match among the offsets, or waits for an offset in front of which there is none. -/
inductive Scanned (texts : Texts D) (log : Nat → Option Str) (query : Str) (history : ChatComposerHistory D)
    (search : HistorySearchState D) (logId : Nat) (direction : HistorySearchDirection) (boundary : Bool)
    (offsets : List Nat) : HistorySearchResult D × ChatComposerHistory D → Prop
  | found (front : List Nat) (offset : Nat) (rest : List Nat) (entry : HistoryEntry D)
      (hsplit : offsets = front ++ offset :: rest)
      (hfirsts : Keyed.firsts UniqueHistoryMatch.text search.seenTexts (matchesAt texts log query history offsets) =
        ⟨offset, entry⟩ :: Keyed.firsts UniqueHistoryMatch.text (entry.text :: search.seenTexts)
          (matchesAt texts log query history rest)) :
      Scanned texts log query history search logId direction boundary offsets (history.searchMatch offset entry)
  | pending (front : List Nat) (offset : Nat) (rest : List Nat) (hsplit : offsets = front ++ offset :: rest)
      (hcount : offset < history.historyEntryCount)
      (hfirsts : Keyed.firsts UniqueHistoryMatch.text search.seenTexts (matchesAt texts log query history offsets) =
        Keyed.firsts UniqueHistoryMatch.text search.seenTexts (matchesAt texts log query history (offset :: rest))) :
      Scanned texts log query history search logId direction boundary offsets
        (.pending, awaitingAt history search ⟨offset, direction, boundary⟩ logId)
  | notFound (hfirsts : Keyed.firsts UniqueHistoryMatch.text search.seenTexts
        (matchesAt texts log query history offsets) = []) :
      Scanned texts log query history search logId direction boundary offsets (.notFound, history)

theorem matchesAt_cons_none (h : matchAt texts log query history offset = none) (offsets : List Nat) :
    matchesAt texts log query history (offset :: offsets) = matchesAt texts log query history offsets := by
  rw [matchesAt, List.filterMap_cons_none h]
  rfl

theorem matchesAt_cons_some {found : UniqueHistoryMatch D} (h : matchAt texts log query history offset = some found)
    (offsets : List Nat) :
    matchesAt texts log query history (offset :: offsets) = found :: matchesAt texts log query history offsets := by
  rw [matchesAt, List.filterMap_cons_some h]
  rfl

theorem Scanned.cons {result : HistorySearchResult D × ChatComposerHistory D}
    (h : Scanned texts log query history search logId direction boundary offsets result)
    (hsame : Keyed.firsts UniqueHistoryMatch.text search.seenTexts
        (matchesAt texts log query history (offset :: offsets)) =
      Keyed.firsts UniqueHistoryMatch.text search.seenTexts (matchesAt texts log query history offsets)) :
    Scanned texts log query history search logId direction boundary (offset :: offsets) result := by
  cases h with
  | found front next rest entry hsplit hfirsts =>
      exact .found (offset :: front) next rest entry (by rw [hsplit]; rfl) (hsame.trans hfirsts)
  | pending front next rest hsplit hcount hfirsts =>
      exact .pending (offset :: front) next rest (by rw [hsplit]; rfl) hcount (hsame.trans hfirsts)
  | notFound hfirsts => exact .notFound (hsame.trans hfirsts)

theorem advanceSearchLoop_scanned (hlog : FromLog texts log history)
    (hid : 0 < history.historyEntryCount → history.historyLogId = some logId) (hsearch : history.search = some search)
    (hquery : search.query = query) (hlower : search.queryLower = texts.toLowercase query)
    (direction : HistorySearchDirection) (boundary : Bool)
    (offsets : List Nat) : Scanned texts log query history search logId direction boundary offsets
      (advanceSearchLoop texts history direction boundary offsets) := by
  induction offsets with
  | nil => exact .notFound rfl
  | cons offset offsets ih =>
      rw [advanceSearchLoop]
      cases hcached : history.entryAtCachedOffset offset with
      | some entry =>
          have hentry := entryAt_of_cached hlog hcached
          have hmatches : history.searchMatches texts entry = true ↔ Matches texts query entry := by
            simp [searchMatches, hsearch, hquery, hlower, Matches]
          have hunique : history.searchResultIsUnique entry = true ↔ entry.text ∉ search.seenTexts := by
            simp [searchResultIsUnique, hsearch]
          simp only
          by_cases hmatch : Matches texts query entry
          · have hat : matchAt texts log query history offset = some ⟨offset, entry⟩ := by
              simp [matchAt, hentry, hmatch]
            by_cases hnew : UniqueHistoryMatch.text ⟨offset, entry⟩ ∈ search.seenTexts
            · have hseen : entry.text ∈ search.seenTexts := hnew
              rw [if_neg (by simp [hunique, hseen])]
              refine ih.cons ?_
              rw [matchesAt_cons_some hat]
              exact Keyed.firsts_cons_of_mem hnew _
            · have hfresh : entry.text ∉ search.seenTexts := hnew
              rw [if_pos (by simp [hmatches, hunique, hmatch, hfresh])]
              refine .found [] offset offsets entry rfl ?_
              rw [matchesAt_cons_some hat]
              exact Keyed.firsts_cons_of_not hnew _
          · have hat : matchAt texts log query history offset = none := by
              simp [matchAt, hentry, hmatch]
            rw [if_neg (by simp [hmatches, hmatch])]
            refine ih.cons ?_
            rw [matchesAt_cons_none hat]
      | none =>
          simp only
          by_cases hcount : offset < history.historyEntryCount
          · rw [if_pos hcount]
            split
            · next id heq =>
                obtain rfl := Option.some.inj (heq.symm.trans (hid (Nat.zero_lt_of_lt hcount)))
                rw [hsearch]
                exact .pending [] offset offsets rfl hcount rfl
            · next heq => cases heq.symm.trans (hid (Nat.zero_lt_of_lt hcount))
          · rw [if_neg hcount]
            have hat : matchAt texts log query history offset = none := by
              rw [matchAt, entryAt_of_local (Nat.not_lt.mp hcount) hcached]
              rfl
            refine ih.cons ?_
            rw [matchesAt_cons_none hat]

/-! ## The cursor -/

/-- A cursor over the matches: what it shows after a move, and where it then stands. -/
def move (all : List (UniqueHistoryMatch D)) : Option Nat → HistorySearchDirection → HistorySearchResult D × Option Nat
  | none, _ =>
      match all[0]? with
      | some first => (.found first.entry, some 0)
      | none => (.notFound, none)
  | some k, .older =>
      match all[k + 1]? with
      | some older => (.found older.entry, some (k + 1))
      | none => (.atBoundary, some k)
  | some 0, .newer => (.atBoundary, some 0)
  | some (k + 1), .newer =>
      match all[k]? with
      | some newer => (.found newer.entry, some k)
      | none => (.atBoundary, some (k + 1))

/-- There is no move from the position in a direction. -/
def AtEnd (all : List (UniqueHistoryMatch D)) (pos : Option Nat) : HistorySearchDirection → Prop
  | .older => ∀ k, pos = some k → all.length ≤ k + 1
  | .newer => ∀ k, pos = some k → k = 0

variable {all : List (UniqueHistoryMatch D)} {known k : Nat} {pos : Option Nat}

theorem move_of_atEnd (hend : AtEnd all pos direction) (hnone : pos = none → all = []) :
    move all pos direction = (if pos.isSome then .atBoundary else .notFound, pos) := by
  cases pos with
  | none =>
      rw [hnone rfl]
      rfl
  | some k =>
      cases direction with
      | older =>
          have hget : all[k + 1]? = none := List.getElem?_eq_none (hend k rfl)
          simp [move, hget]
      | newer =>
          obtain rfl := hend k rfl
          rfl

/-- The selected match of a search is the one at the position. -/
def Selected (all : List (UniqueHistoryMatch D)) (search : HistorySearchState D) (known : Nat) : Option Nat → Prop
  | none => known = 0 ∧ search.selectedOffset = none ∧ search.selectedMatchIndex = none
  | some k => k < known ∧ search.selectedMatchIndex = some k ∧
      search.selectedOffset = (all[k]?).map UniqueHistoryMatch.offset

/-- The search knows the newest matches, and the older ones lie behind them. -/
structure Tracks (texts : Texts D) (log : Nat → Option Str) (query : Str) (logId : Nat)
    (all : List (UniqueHistoryMatch D)) (history : ChatComposerHistory D) (search : HistorySearchState D) (known : Nat)
    (pos : Option Nat) : Prop where
  id : 0 < history.historyEntryCount → history.historyLogId = some logId
  fromLog : FromLog texts log history
  allMatches : uniqueMatches texts log query history = all
  active : history.search = some search
  sameQuery : search.query = query
  sameLower : search.queryLower = texts.toLowercase query
  cached : search.uniqueMatches = all.take known
  le : known ≤ all.length
  seen : ∀ text, text ∈ search.seenTexts ↔ text ∈ (all.take known).map UniqueHistoryMatch.text
  behind : ∀ last, 0 < known → all[known - 1]? = some last → all.drop known =
    Keyed.firsts UniqueHistoryMatch.text search.seenTexts (matchesAt texts log query history (below last.offset))
  selected : Selected all search known pos
  noOlder : search.exhaustedOlder = true → ∃ k, pos = some k ∧ all.length ≤ k + 1
  noNewer : search.exhaustedNewer = true → pos = some 0

/-- Scanning these offsets is what is left of a move. -/
def Ahead (texts : Texts D) (log : Nat → Option Str) (query : Str) (all : List (UniqueHistoryMatch D))
    (history : ChatComposerHistory D) (search : HistorySearchState D) (known : Nat) (pos : Option Nat)
    (offsets : List Nat) : HistorySearchDirection → Prop
  | .older => (∀ k, pos = some k → known = k + 1) ∧ (∃ bound, offsets = below bound) ∧ all.drop known =
      Keyed.firsts UniqueHistoryMatch.text search.seenTexts (matchesAt texts log query history offsets)
  | .newer => pos = some 0 ∧ ∀ newest, all[0]? = some newest → ∀ offset ∈ offsets,
      newest.offset < offset ∧ offset < history.totalEntries

/-- The offsets that are left behind one, in a direction. -/
def following (total offset : Nat) : HistorySearchDirection → List Nat
  | .older => below offset
  | .newer => List.range' (offset + 1) (total - (offset + 1))

/-- The matches that are not known lie behind the offset that is waited for, or at it. -/
structure Waits (texts : Texts D) (log : Nat → Option Str) (query : Str) (all : List (UniqueHistoryMatch D))
    (history : ChatComposerHistory D) (search : HistorySearchState D) (known : Nat) (pos : Option Nat)
    (direction : HistorySearchDirection) (pending : PendingHistorySearch) : Prop where
  awaiting : search.awaiting = some pending
  towards : pending.direction = direction
  boundary : pending.boundaryIfExhausted = pos.isSome
  count : pending.offset < history.historyEntryCount
  ahead : Ahead texts log query all history search known pos
    (pending.offset :: following history.totalEntries pending.offset direction) direction

/-- A call has been answered as the cursor answers it, or it waits for an offset among those that are left. -/
inductive Outcome (texts : Texts D) (log : Nat → Option Str) (query : Str) (logId : Nat)
    (all : List (UniqueHistoryMatch D)) (direction : HistorySearchDirection) (pos : Option Nat) (offsets : List Nat) :
    HistorySearchResult D × ChatComposerHistory D → Prop
  | answered (result : HistorySearchResult D) (pos' : Option Nat) (history : ChatComposerHistory D)
      (search : HistorySearchState D) (known : Nat) (hmove : move all pos direction = (result, pos'))
      (h : Tracks texts log query logId all history search known pos') (hidle : search.awaiting = none)
      (hnone : pos' = none → all = []) : Outcome texts log query logId all direction pos offsets (result, history)
  | waiting (history : ChatComposerHistory D) (search : HistorySearchState D) (known : Nat)
      (pending : PendingHistorySearch) (h : Tracks texts log query logId all history search known pos)
      (hwaits : Waits texts log query all history search known pos direction pending)
      (hmem : pending.offset ∈ offsets) :
      Outcome texts log query logId all direction pos offsets (.pending, history)

theorem lt_of_getElem? (h : Tracks texts log query logId all history search known pos) {found : UniqueHistoryMatch D}
    (hfound : all[k]? = some found) : found.offset < history.totalEntries := by
  have hmem := List.mem_of_getElem? hfound
  rw [← h.allMatches] at hmem
  obtain ⟨offset, hoffset, hmatch⟩ := List.mem_filterMap.mp ((Keyed.firsts_sublist _ _).subset hmem)
  rw [offset_of_matchAt hmatch]
  exact mem_below.mp hoffset

/-- The search that has a match recorded behind those it knows. -/
def recorded (search : HistorySearchState D) (offset : Nat) (entry : HistoryEntry D) : HistorySearchState D :=
  { search with
    seenTexts := entry.text :: search.seenTexts
    uniqueMatches := search.uniqueMatches ++ [⟨offset, entry⟩]
    selectedOffset := some offset
    selectedMatchIndex := some search.uniqueMatches.length
    awaiting := none
    exhaustedOlder := false
    exhaustedNewer := false }

theorem recordMatch_eq (h : ∀ found ∈ search.uniqueMatches, offset < found.offset) :
    search.recordMatch offset entry = recorded search offset entry := by
  have hnone : search.uniqueMatches.findIdx? (fun found => found.offset = offset) = none := by
    rw [List.findIdx?_eq_none_iff]
    intro found hfound
    have hlt := h found hfound
    simp only [decide_eq_false_iff_not]
    omega
  have hall : (search.uniqueMatches.takeWhile fun found => offset < found.offset) = search.uniqueMatches := by
    rw [List.takeWhile_eq_self_iff]
    exact fun found hfound => by simpa using h found hfound
  simp only [HistorySearchState.recordMatch, hnone, hall, List.insertIdx_length_self, HistorySearchState.selectMatch]
  simp [recorded]

/-- The next match is recorded behind those that are known. -/
theorem Tracks.searchMatch (h : Tracks texts log query logId all history search known pos)
    (hnext : all.drop known = ⟨offset, entry⟩ ::
      Keyed.firsts UniqueHistoryMatch.text (entry.text :: search.seenTexts)
        (matchesAt texts log query history (below offset))) :
    Tracks texts log query logId all (history.searchMatch offset entry).2 (recorded search offset entry) (known + 1)
      (some known) := by
  have hget : all[known]? = some ⟨offset, entry⟩ := by
    rw [← List.head?_drop, hnext]
    rfl
  obtain ⟨hlt, hgetElem⟩ := List.getElem?_eq_some_iff.mp hget
  have htake : all.take (known + 1) = all.take known ++ [⟨offset, entry⟩] := by
    rw [List.take_add_one, hget]
    rfl
  have hnewer : ∀ found ∈ search.uniqueMatches, offset < found.offset := by
    intro found hfound
    rw [h.cached] at hfound
    have hpairs := uniqueMatches_pairwise texts log query history
    rw [h.allMatches, ← List.take_append_drop known all, hnext] at hpairs
    exact (List.pairwise_append.mp hpairs).2.2 found hfound _ (List.mem_cons_self ..)
  have hnewer' : ∀ found ∈ ({ search with selectedOffset := some offset } : HistorySearchState D).uniqueMatches,
      offset < found.offset := hnewer
  have hdrop : all.drop (known + 1) = Keyed.firsts UniqueHistoryMatch.text (entry.text :: search.seenTexts)
      (matchesAt texts log query history (below offset)) := by
    have htail := congrArg List.tail hnext
    rwa [List.tail_drop] at htail
  have hlen : search.uniqueMatches.length = known := by
    rw [h.cached, List.length_take, Nat.min_eq_left h.le]
  refine ⟨h.id, h.fromLog, h.allMatches, ?_, ?_, ?_, ?_, hlt, ?_, ?_, ?_, nofun, nofun⟩
  · simp only [ChatComposerHistory.searchMatch, h.active, Option.map_some, recordMatch_eq hnewer']
    rfl
  · exact h.sameQuery
  · exact h.sameLower
  · rw [htake, ← h.cached]
    rfl
  · intro text
    rw [htake, List.map_append, List.mem_append, ← h.seen, or_comm]
    simp [recorded, UniqueHistoryMatch.text]
  · intro last _ hlast
    rw [Nat.add_sub_cancel, hget] at hlast
    cases hlast
    exact hdrop
  · exact ⟨Nat.lt_succ_self known, congrArg some hlen, by rw [hget]; rfl⟩

theorem Tracks.awaitingAt (h : Tracks texts log query logId all history search known pos)
    (pending : PendingHistorySearch) (sentTo : Nat) :
    Tracks texts log query logId all (awaitingAt history search pending sentTo)
      { search with awaiting := some pending } known pos :=
  ⟨h.id, h.fromLog, h.allMatches, rfl, h.sameQuery, h.sameLower, h.cached, h.le, h.seen, h.behind, h.selected,
    h.noOlder, h.noNewer⟩

/-- Where there is no move the position stays. -/
theorem Tracks.exhausted (h : Tracks texts log query logId all history search known pos)
    (hend : AtEnd all pos direction) (hnone : pos = none → all = []) :
    Outcome texts log query logId all direction pos offsets (history.exhaustedSearchResult direction pos.isSome) := by
  have hmove := move_of_atEnd hend hnone
  cases pos with
  | none =>
      refine .answered _ _ _ { search with awaiting := none } known hmove ?_ rfl hnone
      exact ⟨h.id, h.fromLog, h.allMatches, by simp [h.active], h.sameQuery, h.sameLower,
        h.cached, h.le, h.seen, h.behind, h.selected, h.noOlder, h.noNewer⟩
  | some k =>
      refine .answered _ _ _ (HistorySearchState.markExhausted { search with awaiting := none } direction) known hmove
        ?_ (by cases direction <;> rfl) nofun
      cases direction with
      | older =>
          exact ⟨h.id, h.fromLog, h.allMatches, by simp [h.active], h.sameQuery, h.sameLower,
            h.cached, h.le, h.seen, h.behind, h.selected, fun _ => ⟨k, rfl, hend k rfl⟩, h.noNewer⟩
      | newer =>
          obtain rfl := hend k rfl
          exact ⟨h.id, h.fromLog, h.allMatches, by simp [h.active], h.sameQuery, h.sameLower,
            h.cached, h.le, h.seen, h.behind, h.selected, h.noOlder, fun _ => rfl⟩

/-- The next match at the front of what is left is the answer to a move to an older one. -/
theorem Tracks.found (h : Tracks texts log query logId all history search known pos)
    (hpos : ∀ k, pos = some k → known = k + 1)
    (hnext : all.drop known = ⟨offset, entry⟩ ::
      Keyed.firsts UniqueHistoryMatch.text (entry.text :: search.seenTexts)
        (matchesAt texts log query history (below offset))) :
    Outcome texts log query logId all .older pos offsets (history.searchMatch offset entry) := by
  have hget : all[known]? = some ⟨offset, entry⟩ := by
    rw [← List.head?_drop, hnext]
    rfl
  refine .answered _ (some known) _ _ (known + 1) ?_ (h.searchMatch hnext) rfl nofun
  cases pos with
  | none =>
      obtain ⟨rfl, -⟩ := h.selected
      simp [move, hget]
  | some k =>
      obtain rfl := hpos k rfl
      simp [move, hget]

theorem Ahead.matchesAt_newer (h : Tracks texts log query logId all history search known pos)
    (hahead : Ahead texts log query all history search known pos offsets .newer) :
    ∀ offset ∈ offsets, matchAt texts log query history offset = none := by
  obtain ⟨rfl, hbeyond⟩ := hahead
  intro offset hmem
  have hlt : 0 < all.length := h.selected.1.trans_le h.le
  have hget : all[0]? = some all[0] := List.getElem?_eq_getElem hlt
  obtain ⟨hnewer, hbound⟩ := hbeyond _ hget offset hmem
  exact matchAt_newer (h.allMatches ▸ hget) hnewer hbound

theorem Tracks.scan (h : Tracks texts log query logId all history search known pos)
    (hahead : Ahead texts log query all history search known pos offsets direction) :
    Outcome texts log query logId all direction pos offsets
      (orExhausted direction pos.isSome (advanceSearchLoop texts history direction pos.isSome offsets)) := by
  have hscanned :=
    advanceSearchLoop_scanned h.fromLog h.id h.active h.sameQuery h.sameLower direction pos.isSome offsets
  generalize advanceSearchLoop texts history direction pos.isSome offsets = scanned at hscanned
  cases hscanned with
  | found front offset rest entry hsplit hfirsts =>
      cases direction with
      | older =>
          obtain ⟨hpos, ⟨bound, rfl⟩, hleft⟩ := hahead
          rw [(below_split hsplit).1] at hfirsts
          exact h.found hpos (hleft.trans hfirsts)
      | newer =>
          have hempty : matchesAt texts log query history offsets = [] :=
            List.filterMap_eq_nil_iff.mpr (hahead.matchesAt_newer h)
          rw [hempty] at hfirsts
          cases hfirsts
  | pending front offset rest hsplit hcount hfirsts =>
      have hmem : offset ∈ offsets := by
        rw [hsplit]
        exact List.mem_append_right _ (List.mem_cons_self ..)
      refine .waiting _ _ known _ (h.awaitingAt _ _) ⟨rfl, rfl, rfl, hcount, ?_⟩ hmem
      cases direction with
      | older =>
          obtain ⟨hpos, ⟨bound, rfl⟩, hleft⟩ := hahead
          obtain ⟨rfl, -⟩ := below_split hsplit
          exact ⟨hpos, ⟨offset + 1, (below_succ offset).symm⟩, hleft.trans hfirsts⟩
      | newer =>
          obtain ⟨hpos, hbeyond⟩ := hahead
          refine ⟨hpos, fun newest hnewest later hlater => ?_⟩
          obtain ⟨hnewer, hbound⟩ := hbeyond newest hnewest offset hmem
          cases List.mem_cons.mp hlater with
          | inl heq => exact heq ▸ ⟨hnewer, hbound⟩
          | inr hrange =>
              obtain ⟨hle, hlater⟩ : offset + 1 ≤ later ∧ later < offset + 1 + (history.totalEntries - (offset + 1)) :=
                List.mem_range'_1.mp hrange
              exact ⟨hnewer.trans hle, show later < history.totalEntries by omega⟩
  | notFound hfirsts =>
      cases direction with
      | older =>
          obtain ⟨hpos, -, hleft⟩ := hahead
          have hle : all.length ≤ known := List.drop_eq_nil_iff.mp (hleft.trans hfirsts)
          refine h.exhausted (fun k hk => hpos k hk ▸ hle) fun hnone => ?_
          subst hnone
          obtain ⟨rfl, -⟩ := h.selected
          exact List.eq_nil_of_length_eq_zero (Nat.le_zero.mp hle)
      | newer =>
          obtain ⟨rfl, -⟩ := hahead
          exact h.exhausted (fun k hk => (Option.some.inj hk).symm) nofun

/-! ## The calls -/

theorem advanceSearchAfter_eq (history : ChatComposerHistory D) (direction : HistorySearchDirection) (boundary : Bool)
    (hbound : offset < history.totalEntries) : history.advanceSearchAfter texts offset direction boundary =
      orExhausted direction boundary
        (advanceSearchLoop texts history direction boundary (following history.totalEntries offset direction)) := by
  cases direction with
  | older =>
      by_cases hzero : offset = 0
      · subst hzero
        rfl
      · have hoffsets : offsetsFrom history.totalEntries (offset - 1) .older = below offset := by
          rw [offsetsFrom, if_pos (by omega), Nat.sub_add_cancel (by omega)]
          rfl
        simp only [advanceSearchAfter, nextOffset, if_neg hzero, advanceSearchFrom, hoffsets, following]
  | newer =>
      by_cases hlt : offset + 1 < history.totalEntries
      · simp only [advanceSearchAfter, nextOffset, if_pos hlt, advanceSearchFrom, offsetsFrom, following]
      · have hoffsets : history.totalEntries - (offset + 1) = 0 := by omega
        simp only [advanceSearchAfter, nextOffset, if_neg hlt, following, hoffsets]
        rfl

/-- A search that has just begun knows no match. -/
theorem tracks_new (hid : 0 < history.historyEntryCount → history.historyLogId = some logId)
    (hlog : FromLog texts log history) : Tracks texts log query logId (uniqueMatches texts log query history)
      { history with search := some (.new texts query) } (.new texts query) 0 none :=
  ⟨hid, hlog, rfl, rfl, rfl, rfl, rfl, Nat.zero_le _, fun text => by simp [HistorySearchState.new],
    fun _ hlt => absurd hlt (Nat.lt_irrefl 0), ⟨rfl, rfl, rfl⟩, nofun, nofun⟩

theorem uniqueMatches_of_empty (hzero : history.totalEntries = 0) : uniqueMatches texts log query history = [] := by
  rw [uniqueMatches, hzero]
  rfl

/-- Without entries there is nothing to find. -/
theorem searchFor_of_empty (hid : 0 < history.historyEntryCount → history.historyLogId = some logId)
    (hlog : FromLog texts log history) (hzero : history.totalEntries = 0) (direction : HistorySearchDirection)
    (restart : Bool) : Outcome texts log query logId (uniqueMatches texts log query history) direction none offsets
      (history.searchFor texts query direction restart) := by
  have hall : uniqueMatches texts log query history = [] := uniqueMatches_of_empty hzero
  simp only [searchFor, if_pos hzero]
  refine .answered _ none _ _ 0 ?_ (tracks_new hid hlog) rfl fun _ => hall
  rw [hall]
  rfl

/-- The first call starts a cursor. -/
theorem searchFor_restart (hid : 0 < history.historyEntryCount → history.historyLogId = some logId)
    (hlog : FromLog texts log history) :
    Outcome texts log query logId (uniqueMatches texts log query history) .older none (below history.totalEntries)
      (history.searchFor texts query .older true) := by
  by_cases hzero : history.totalEntries = 0
  · exact searchFor_of_empty hid hlog hzero .older true
  · have hoffsets : offsetsFrom history.totalEntries (history.totalEntries - 1) .older =
        below history.totalEntries := by
      rw [offsetsFrom, if_pos (by omega), Nat.sub_add_cancel (by omega)]
      rfl
    have hcall : history.searchFor texts query .older true = orExhausted .older false
        (advanceSearchLoop texts { history with search := some (.new texts query) } .older false
          (offsetsFrom history.totalEntries (history.totalEntries - 1) .older)) := by
      simp [searchFor, hzero, searchStartOffset]
      rfl
    rw [hcall, hoffsets]
    exact (tracks_new hid hlog).scan ⟨(by rintro _ ⟨⟩), ⟨_, rfl⟩, rfl⟩

/-- What is selected has been recorded. -/
theorem Tracks.select (h : Tracks texts log query logId all history search known pos) (hk : k < known)
    {found : UniqueHistoryMatch D} (hfound : all[k]? = some found) (cursor : Option Nat) (last : Option Str) :
    Tracks texts log query logId all
      { history with
        historyCursor := cursor
        lastHistoryText := last
        search := some (search.selectMatch k) } (search.selectMatch k) known (some k) ∧
      (search.selectMatch k).awaiting = none := by
  have hget : search.uniqueMatches[k]? = some found := by
    rw [h.cached, List.getElem?_take_of_lt hk, hfound]
  rw [HistorySearchState.selectMatch, hget]
  exact ⟨⟨h.id, h.fromLog, h.allMatches, rfl, h.sameQuery, h.sameLower, h.cached, h.le, h.seen, h.behind,
    ⟨hk, rfl, by rw [hfound]; rfl⟩, (by rintro ⟨⟩), (by rintro ⟨⟩)⟩, rfl⟩

/-- A later call with the same query selects a recorded match, or goes on from the selected one. -/
theorem searchFor_resume (hsearch : history.search = some search) (hquery : search.query = query)
    (hidle : search.awaiting = none) (htotal : history.totalEntries ≠ 0) (direction : HistorySearchDirection) :
    history.searchFor texts query direction false =
      match history.selectCachedUniqueMatch direction, search.selectedOffset with
      | some result, _ => result
      | none, none => history.exhaustedSearchResult direction false
      | none, some offset =>
          if search.isExhausted direction then (.atBoundary, history)
          else history.advanceSearchAfter texts offset direction true := by
  subst hquery
  have hsame : { history with search := some { search with awaiting := none } } = history := by
    have heq : { search with awaiting := none } = search := by rw [← hidle]
    rw [heq, ← hsearch]
  have hstart : history.searchStartOffset history.totalEntries direction false =
      search.selectedOffset.bind fun offset => nextOffset history.totalEntries offset direction := by
    cases direction <;> simp [searchStartOffset, hsearch]
  simp only [searchFor, if_neg htotal, hsearch, hidle, Option.all_some, Option.bind_some, Option.map_some,
    Option.any_some, hsame, hstart, ne_eq, not_true_eq_false, decide_false, Bool.not_false, Bool.true_and,
    Option.isSome_none, Bool.or_false, Bool.false_eq_true, if_false, if_true]
  cases history.selectCachedUniqueMatch direction with
  | some result => rfl
  | none =>
      cases search.selectedOffset with
      | none => simp
      | some offset =>
          simp only [Option.isSome_some, Bool.true_and, Option.bind_some]
          rfl

/-- Without a match there is nothing to select, and with one the next one that is known in the direction. -/
theorem Tracks.selectCached (h : Tracks texts log query logId all history search known (some k))
    (direction : HistorySearchDirection) :
    (history.selectCachedUniqueMatch direction = none ∧ (direction = .older → known = k + 1) ∧
      (direction = .newer → k = 0)) ∨
    ∃ result, history.selectCachedUniqueMatch direction = some result ∧
      Outcome texts log query logId all direction (some k) offsets result := by
  obtain ⟨hk, hindex, -⟩ := h.selected
  have hlen : search.uniqueMatches.length = known := by
    rw [h.cached, List.length_take, Nat.min_eq_left h.le]
  cases direction with
  | older =>
      by_cases hlt : k + 1 < known
      · obtain ⟨found, hfound⟩ : ∃ found, all[k + 1]? = some found :=
          ⟨_, List.getElem?_eq_getElem (hlt.trans_le h.le)⟩
        have hget : search.uniqueMatches[k + 1]? = all[k + 1]? := by
          rw [h.cached, List.getElem?_take_of_lt hlt]
        obtain ⟨htracks, hawaiting⟩ := h.select hlt hfound (some found.offset) (some found.entry.text)
        refine .inr ⟨_, ?_, .answered (.found found.entry) _ _ _ known ?_ htracks hawaiting (by rintro ⟨⟩)⟩
        · simp only [selectCachedUniqueMatch, h.active, hindex, hlen, if_pos hlt, hget, hfound, Option.bind_eq_bind,
            Option.bind_some]
          rfl
        · simp only [move, hfound]
      · refine .inl ⟨?_, fun _ => by omega, (by rintro ⟨⟩)⟩
        simp [selectCachedUniqueMatch, h.active, hindex, hlen, hlt]
  | newer =>
      cases k with
      | zero => exact .inl ⟨by simp [selectCachedUniqueMatch, h.active, hindex], (by rintro ⟨⟩), fun _ => rfl⟩
      | succ k =>
          have hlt : k < known := Nat.lt_of_succ_lt hk
          obtain ⟨found, hfound⟩ : ∃ found, all[k]? = some found := ⟨_, List.getElem?_eq_getElem (hlt.trans_le h.le)⟩
          have hget : search.uniqueMatches[k]? = all[k]? := by
            rw [h.cached, List.getElem?_take_of_lt hlt]
          obtain ⟨htracks, hawaiting⟩ := h.select hlt hfound (some found.offset) (some found.entry.text)
          refine .inr ⟨_, ?_, .answered (.found found.entry) _ _ _ known ?_ htracks hawaiting (by rintro ⟨⟩)⟩
          · simp only [selectCachedUniqueMatch, h.active, hindex, if_neg (Nat.succ_ne_zero k), Nat.add_sub_cancel, hget,
              hfound, Option.bind_eq_bind, Option.bind_some]
            rfl
          · simp only [move, hfound]

/-- A later call moves the cursor. -/
theorem Tracks.searchFor_next (h : Tracks texts log query logId all history search known pos)
    (hidle : search.awaiting = none) (hnone : pos = none → all = []) (direction : HistorySearchDirection) :
    ∃ offsets, Outcome texts log query logId all direction pos offsets
      (history.searchFor texts query direction false) := by
  by_cases hzero : history.totalEntries = 0
  · have hall : all = [] := h.allMatches ▸ uniqueMatches_of_empty hzero
    cases pos with
    | none => exact ⟨[], h.allMatches ▸ searchFor_of_empty h.id h.fromLog hzero direction false⟩
    | some k =>
        have hlt : k < all.length := h.selected.1.trans_le h.le
        rw [hall] at hlt
        cases hlt
  · rw [searchFor_resume h.active h.sameQuery hidle hzero]
    cases pos with
    | none =>
        obtain ⟨-, hoffset, hindex⟩ := h.selected
        have hcached : history.selectCachedUniqueMatch direction = none := by
          simp [selectCachedUniqueMatch, h.active, hindex]
        rw [hcached, hoffset]
        exact ⟨[], h.exhausted (by cases direction <;> rintro _ ⟨⟩) hnone⟩
    | some k =>
        obtain ⟨hcached, holder, hnewer⟩ | ⟨result, hcached, houtcome⟩ := h.selectCached direction
        · obtain ⟨hk, -, hoffset⟩ := h.selected
          obtain ⟨found, hfound⟩ : ∃ found, all[k]? = some found := ⟨_, List.getElem?_eq_getElem (hk.trans_le h.le)⟩
          rw [hfound, Option.map_some] at hoffset
          rw [hcached, hoffset]
          simp only
          by_cases hexhausted : search.isExhausted direction = true
          · rw [if_pos hexhausted]
            refine ⟨[], .answered _ (some k) _ _ known ?_ h hidle (by rintro ⟨⟩)⟩
            refine move_of_atEnd ?_ (by rintro ⟨⟩)
            cases direction with
            | older =>
                obtain ⟨j, hj, hend⟩ := h.noOlder hexhausted
                exact fun i hi => by rw [Option.some.inj (hi.symm.trans hj)]; exact hend
            | newer => exact fun i hi => Option.some.inj (hi.symm.trans (h.noNewer hexhausted))
          · rw [if_neg hexhausted, advanceSearchAfter_eq history direction true (lt_of_getElem? h hfound)]
            refine ⟨_, h.scan ?_⟩
            cases direction with
            | older =>
                obtain rfl := holder rfl
                exact ⟨fun j hj => by rw [Option.some.inj hj], ⟨_, rfl⟩, h.behind _ (Nat.succ_pos k) hfound⟩
            | newer =>
                obtain rfl := hnewer rfl
                refine ⟨rfl, fun newest hnewest offset hmem => ?_⟩
                cases Option.some.inj (hnewest.symm.trans hfound)
                have hrange := List.mem_range'_1.mp hmem
                omega
        · rw [hcached]
          exact ⟨[], houtcome⟩

/-- While a lookup is awaited a call changes nothing. -/
theorem searchFor_pending (hsearch : history.search = some search) (hquery : search.query = query)
    (hawaiting : search.awaiting.isSome) (htotal : history.totalEntries ≠ 0) (direction : HistorySearchDirection) :
    history.searchFor texts query direction false = (.pending, history) := by
  simp [searchFor, htotal, hsearch, hquery, hawaiting]

/-! ## The answers of the log -/

theorem FromLog.fetched (h : FromLog texts log history) (offset : Nat) :
    FromLog texts log (cacheAnswer texts history offset (log offset)) := by
  rw [cacheAnswer]
  cases hentry : (log offset).map texts.newEntry with
  | none => exact h
  | some entry =>
      intro other otherEntry hlt hother
      by_cases heq : other = offset
      · subst heq
        have hself : Function.update history.fetchedHistory other (some entry) other = some entry :=
          Function.update_self ..
        exact hentry.trans (hself.symm.trans hother)
      · exact h other otherEntry hlt ((Function.update_of_ne heq ..).symm.trans hother)

theorem Tracks.fetched (h : Tracks texts log query logId all history search known pos) (offset : Nat) :
    Tracks texts log query logId all (cacheAnswer texts history offset (log offset)) search known pos := by
  have hlog := h.fromLog.fetched offset
  rw [cacheAnswer] at hlog ⊢
  cases hentry : (log offset).map texts.newEntry with
  | none => exact h
  | some entry =>
      rw [hentry] at hlog
      exact ⟨h.id, hlog, h.allMatches, h.active, h.sameQuery, h.sameLower, h.cached, h.le, h.seen, h.behind,
        h.selected, h.noOlder, h.noNewer⟩

theorem Ahead.fetched (h : Ahead texts log query all history search known pos offsets direction) (offset : Nat)
    (entry : Option Str) :
    Ahead texts log query all (cacheAnswer texts history offset entry) search known pos offsets direction := by
  rw [cacheAnswer]
  cases entry with
  | none => exact h
  | some entry => cases direction <;> exact h

theorem matchesAt_cacheAnswer (texts : Texts D) (log : Nat → Option Str) (query : Str)
    (history : ChatComposerHistory D) (offset : Nat) (entry : Option Str) (offsets : List Nat) :
    matchesAt texts log query (cacheAnswer texts history offset entry) offsets =
      matchesAt texts log query history offsets := by
  cases entry <;> rfl

theorem Ahead.tail (h : Ahead texts log query all history search known pos
    (offset :: following history.totalEntries offset direction) direction)
    (hsame : direction = .older → Keyed.firsts UniqueHistoryMatch.text search.seenTexts
        (matchesAt texts log query history (offset :: below offset)) =
      Keyed.firsts UniqueHistoryMatch.text search.seenTexts (matchesAt texts log query history (below offset))) :
    Ahead texts log query all history search known pos (following history.totalEntries offset direction) direction := by
  cases direction with
  | older => exact ⟨h.1, ⟨offset, rfl⟩, h.2.2.trans (hsame rfl)⟩
  | newer => exact ⟨h.1, fun newest hnewest later hlater => h.2 newest hnewest later (List.mem_cons_of_mem _ hlater)⟩

/-- The answer to a lookup that is awaited answers the call, or leaves it waiting further on. -/
theorem Tracks.answer (h : Tracks texts log query logId all history search known pos) {pending : PendingHistorySearch}
    (hwaits : Waits texts log query all history search known pos direction pending) :
    ∃ result, history.onEntryResponse texts logId pending.offset (log pending.offset) = (.search result.1, result.2) ∧
      Outcome texts log query logId all direction pos (following history.totalEntries pending.offset direction)
        result := by
  obtain ⟨hawaiting, rfl, hboundary, hcount, hahead⟩ := hwaits
  have hid := h.id (Nat.zero_lt_of_lt hcount)
  obtain ⟨result, hresponse, hresult⟩ := onEntryResponse_awaited texts hid h.active hawaiting (log pending.offset)
  refine ⟨result, hresponse, ?_⟩
  have hentry : entryAt texts log history pending.offset = (log pending.offset).map texts.newEntry := by
    rw [entryAt, if_neg (Nat.not_le.mpr hcount)]
  have htracks := h.fetched pending.offset
  have hbound : pending.offset < (cacheAnswer texts history pending.offset (log pending.offset)).totalEntries := by
    rw [totalEntries_cacheAnswer, totalEntries]
    omega
  have hmatches : ∀ entry,
      (cacheAnswer texts history pending.offset (log pending.offset)).searchMatches texts entry = true ↔
        Matches texts query entry := by
    intro entry
    simp [searchMatches, htracks.active, h.sameQuery, h.sameLower, Matches]
  obtain ⟨found, hlogged, hmatch, hnew, rfl⟩ | ⟨hnone, rfl⟩ := hresult
  · have hat : matchAt texts log query history pending.offset = some ⟨pending.offset, found⟩ := by
      rw [matchAt, hentry, hlogged]
      simp [(hmatches found).mp hmatch]
    cases hdirection : pending.direction with
    | older =>
        rw [hdirection] at hahead
        obtain ⟨hpos, -, hleft⟩ := hahead
        refine htracks.found hpos (hleft.trans ?_)
        rw [matchesAt_cons_some hat, matchesAt_cacheAnswer]
        have hfresh : UniqueHistoryMatch.text ⟨pending.offset, found⟩ ∉ search.seenTexts := hnew
        exact Keyed.firsts_cons_of_not hfresh _
    | newer =>
        rw [hdirection] at hahead
        cases hat.symm.trans (hahead.matchesAt_newer h pending.offset (List.mem_cons_self ..))
  · rw [advanceSearchAfter_eq _ _ _ hbound, totalEntries_cacheAnswer, hboundary]
    refine htracks.scan ((hahead.tail fun _ => ?_).fetched pending.offset (log pending.offset))
    cases hat : matchAt texts log query history pending.offset with
    | none => rw [matchesAt_cons_none hat]
    | some found =>
        obtain ⟨entry, hfiltered, rfl⟩ := Option.map_eq_some_iff.mp hat
        obtain ⟨hlogged, hmatch⟩ := Option.filter_eq_some_iff.mp hfiltered
        rw [matchesAt_cons_some hat]
        have hseen : UniqueHistoryMatch.text ⟨pending.offset, entry⟩ ∈ search.seenTexts :=
          hnone entry (hentry ▸ hlogged) ((hmatches entry).mpr (of_decide_eq_true hmatch))
        exact Keyed.firsts_cons_of_mem hseen _

/-- The result of a search in a response. -/
def HistoryEntryResponse.searchResult : HistoryEntryResponse D → Option (HistorySearchResult D)
  | .search result => some result
  | _ => none

/-- Other answers leave the search as it is. -/
theorem Tracks.other (h : Tracks texts log query logId all history search known pos)
    (hother : ∀ pending, search.awaiting = some pending → pending.offset ≠ offset) :
    (history.onEntryResponse texts logId offset (log offset)).1.searchResult = none ∧
      Tracks texts log query logId all (history.onEntryResponse texts logId offset (log offset)).2 search known pos ∧
      ∀ pending, Waits texts log query all history search known pos direction pending →
        Waits texts log query all (history.onEntryResponse texts logId offset (log offset)).2 search known pos direction
          pending := by
  by_cases hid : history.historyLogId = some logId
  · have hfilter : (history.search.bind (·.awaiting)).filter (fun pending => pending.offset = offset) = none := by
      rw [h.active, Option.bind_some, Option.filter_eq_none_iff]
      exact fun pending hpending heq => hother pending hpending (of_decide_eq_true heq)
    have htracks := h.fetched offset
    have hwaits : ∀ pending, Waits texts log query all history search known pos direction pending →
        Waits texts log query all (cacheAnswer texts history offset (log offset)) search known pos direction
          pending := by
      rintro pending ⟨hawaiting, htowards, hboundary, hcount, hahead⟩
      refine ⟨hawaiting, htowards, hboundary, ?_, ?_⟩
      · cases log offset <;> exact hcount
      · rw [totalEntries_cacheAnswer]
        exact hahead.fetched offset (log offset)
    rw [onEntryResponse_eq hid, hfilter]
    simp only
    by_cases hcursor : history.historyCursor = some offset
    · rw [if_pos hcursor]
      cases hentry : log offset with
      | none =>
          rw [hentry] at htracks hwaits
          exact ⟨rfl, htracks, hwaits⟩
      | some text =>
          rw [hentry] at htracks hwaits
          refine ⟨rfl, ⟨htracks.id, htracks.fromLog, htracks.allMatches, htracks.active, htracks.sameQuery,
            htracks.sameLower, htracks.cached, htracks.le, htracks.seen, htracks.behind, htracks.selected,
            htracks.noOlder, htracks.noNewer⟩, fun pending hpending => ?_⟩
          obtain ⟨hawaiting, htowards, hboundary, hcount, hahead⟩ := hwaits pending hpending
          exact ⟨hawaiting, htowards, hboundary, hcount, by cases direction <;> exact hahead⟩
    · rw [if_neg hcursor]
      exact ⟨rfl, htracks, hwaits⟩
  · rw [onEntryResponse, if_pos hid]
    exact ⟨rfl, h, fun _ hpending => hpending⟩

end Codrex.ComposerHistory
