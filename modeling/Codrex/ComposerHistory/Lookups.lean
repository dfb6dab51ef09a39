import Codrex.ComposerHistory.History
import Codrex.Lib.Transition

/-!
# Lookups that are answered late

Navigation and search share one cursor, and an answer is known by its offset only. Every request is answered once, at
any later time, and an answer is not to replace what an active search shows.
-/

namespace Codrex.ComposerHistory

open Text ChatComposerHistory

variable {D : Type} {texts : Texts D} {query : Str} {history history' : ChatComposerHistory D}
  {search : HistorySearchState D} {direction : HistorySearchDirection} {boundary : Bool} {offset logId : Nat}

/-! ## What a search does to the history -/

/-- Nothing is learned of the log. -/
structure SameLog (history history' : ChatComposerHistory D) : Prop where
  logId : history'.historyLogId = history.historyLogId
  count : history'.historyEntryCount = history.historyEntryCount
  entries : history'.localHistory = history.localHistory
  fetched : history'.fetchedHistory = history.fetchedHistory

theorem SameLog.refl (history : ChatComposerHistory D) : SameLog history history := ⟨rfl, rfl, rfl, rfl⟩

theorem SameLog.totalEntries (h : SameLog history history') : history'.totalEntries = history.totalEntries := by
  rw [ChatComposerHistory.totalEntries, ChatComposerHistory.totalEntries, h.count, h.entries]

/-- The cursor and the match that the search has selected stay, or both go to one offset. -/
def MovesTogether (history : ChatComposerHistory D) (search : HistorySearchState D) (history' : ChatComposerHistory D)
    (search' : HistorySearchState D) : Prop :=
  (search'.selectedOffset = search.selectedOffset ∧ history'.historyCursor = history.historyCursor) ∨
    ∃ offset, search'.selectedOffset = some offset ∧ history'.historyCursor = some offset

/-- Nothing is sent, or one lookup in the log that the history is of. -/
def Sends (history history' : ChatComposerHistory D) : Prop :=
  history'.requests = history.requests ∨ ∃ offset logId, history.historyLogId = some logId ∧
    history'.requests = history.requests ++ [(offset, logId)]

/-- A search goes on, and may send for an entry. -/
structure Moved (history : ChatComposerHistory D) (search : HistorySearchState D) (history' : ChatComposerHistory D) :
    Prop where
  sameLog : SameLog history history'
  active : ∃ search', history'.search = some search' ∧ MovesTogether history search history' search'
  sends : Sends history history'

theorem Moved.refl (hsearch : history.search = some search) : Moved history search history :=
  ⟨.refl history, ⟨search, hsearch, .inl ⟨rfl, rfl⟩⟩, .inl rfl⟩

theorem Moved.congr {history₁ : ChatComposerHistory D} {search₁ : HistorySearchState D} (hhistory : history₁ = history)
    (hsearch : search₁ = search) (h : Moved history₁ search₁ history') : Moved history search history' := by
  subst hhistory hsearch
  exact h

theorem selectedOffset_selectMatch {index : Nat} {found : UniqueHistoryMatch D}
    (h : search.uniqueMatches[index]? = some found) : (search.selectMatch index).selectedOffset = some found.offset := by
  rw [HistorySearchState.selectMatch, h]

theorem selectedOffset_recordMatch (search : HistorySearchState D) (offset : Nat) (entry : HistoryEntry D) :
    (search.recordMatch offset entry).selectedOffset = some offset := by
  rw [HistorySearchState.recordMatch]
  split
  · next index hindex =>
      obtain ⟨hlt, hat, -⟩ := List.findIdx?_eq_some_iff_getElem.mp hindex
      rw [selectedOffset_selectMatch (List.getElem?_eq_getElem hlt)]
      exact congrArg some (of_decide_eq_true hat)
  · have hinsert : ∀ index ≤ search.uniqueMatches.length,
        (search.uniqueMatches.insertIdx index ⟨offset, entry⟩)[index]? = some ⟨offset, entry⟩ :=
      fun index hle => by rw [List.getElem?_insertIdx_self, if_pos hle]
    refine @selectedOffset_selectMatch _ _ _ ⟨offset, entry⟩ ?_
    exact hinsert _ (List.takeWhile_sublist _).length_le

theorem searchMatch_moved (hsearch : history.search = some search) (offset : Nat) (entry : HistoryEntry D) :
    Moved history search (history.searchMatch offset entry).2 :=
  ⟨⟨rfl, rfl, rfl, rfl⟩,
    ⟨_, congrArg (Option.map _) hsearch, .inr ⟨offset, selectedOffset_recordMatch _ offset entry, rfl⟩⟩, .inl rfl⟩

theorem exhaustedSearchResult_moved (hsearch : history.search = some search) (direction : HistorySearchDirection)
    (boundary : Bool) : Moved history search (history.exhaustedSearchResult direction boundary).2 := by
  refine ⟨⟨rfl, rfl, rfl, rfl⟩, ⟨_, congrArg (Option.map _) hsearch, .inl ⟨?_, rfl⟩⟩, .inl rfl⟩
  cases boundary <;> cases direction <;> rfl

theorem advanceSearchLoop_moved (hsearch : history.search = some search) (direction : HistorySearchDirection)
    (boundary : Bool) (offsets : List Nat) :
    Moved history search (advanceSearchLoop texts history direction boundary offsets).2 := by
  induction offsets with
  | nil => exact .refl hsearch
  | cons offset offsets ih =>
      rw [advanceSearchLoop]
      cases history.entryAtCachedOffset offset with
      | some entry =>
          simp only
          split
          · exact searchMatch_moved hsearch offset entry
          · exact ih
      | none =>
          simp only
          split
          · split
            · next logId hid =>
                exact ⟨⟨rfl, rfl, rfl, rfl⟩, ⟨_, congrArg (Option.map _) hsearch, .inl ⟨rfl, rfl⟩⟩,
                  .inr ⟨offset, logId, hid, rfl⟩⟩
            · exact ih
          · exact ih

/-- A scan that has found nothing has changed nothing. -/
theorem advanceSearchLoop_notFound {offsets : List Nat}
    (h : (advanceSearchLoop texts history direction boundary offsets).1 = .notFound) :
    (advanceSearchLoop texts history direction boundary offsets).2 = history := by
  induction offsets with
  | nil => rfl
  | cons offset offsets ih =>
      rw [advanceSearchLoop] at h ⊢
      cases hat : history.entryAtCachedOffset offset with
      | some entry =>
          rw [hat] at h
          simp only at h ⊢
          split at h
          · cases h
          · next hnot => rw [if_neg hnot, ih h]
      | none =>
          rw [hat] at h
          simp only at h ⊢
          split at h
          · next hcount =>
              rw [if_pos hcount]
              split at h
              · cases h
              · exact ih h
          · next hcount => rw [if_neg hcount, ih h]

theorem advanceSearchFrom_moved (hsearch : history.search = some search) (offset : Nat)
    (direction : HistorySearchDirection) (boundary : Bool) :
    Moved history search (orExhausted direction boundary
      (history.advanceSearchFrom texts offset direction boundary)).2 := by
  rw [orExhausted]
  split
  · next hnot =>
      rw [advanceSearchFrom] at hnot ⊢
      rw [advanceSearchLoop_notFound hnot]
      exact exhaustedSearchResult_moved hsearch direction boundary
  · exact advanceSearchLoop_moved hsearch direction boundary _

theorem advanceSearchAfter_moved (hsearch : history.search = some search) (offset : Nat)
    (direction : HistorySearchDirection) (boundary : Bool) :
    Moved history search (history.advanceSearchAfter texts offset direction boundary).2 := by
  rw [advanceSearchAfter]
  split
  · exact exhaustedSearchResult_moved hsearch direction boundary
  · exact advanceSearchFrom_moved hsearch _ direction boundary

theorem selectCachedUniqueMatch_moved (hsearch : history.search = some search)
    {result : HistorySearchResult D × ChatComposerHistory D}
    (h : history.selectCachedUniqueMatch direction = some result) :
    Moved history search result.2 := by
  rw [selectCachedUniqueMatch, hsearch] at h
  simp only [Option.bind_eq_bind, Option.bind_some, Option.bind_eq_some_iff] at h
  obtain ⟨selected, -, h⟩ := h
  have hshows : ∀ {next found}, search.uniqueMatches[next]? = some found → Moved history search
      { history with
        historyCursor := some found.offset
        lastHistoryText := some found.entry.text
        search := some (search.selectMatch next) } := fun {next found} hfound =>
    ⟨⟨rfl, rfl, rfl, rfl⟩, ⟨_, rfl, .inr ⟨found.offset, selectedOffset_selectMatch hfound, rfl⟩⟩, .inl rfl⟩
  cases direction with
  | older =>
      simp only at h
      split at h
      · obtain ⟨found, hfound, hresult⟩ := Option.bind_eq_some_iff.mp h
        cases hresult
        exact hshows hfound
      · cases h
  | newer =>
      simp only at h
      split at h
      · cases h
      · obtain ⟨found, hfound, hresult⟩ := Option.bind_eq_some_iff.mp h
        cases hresult
        exact hshows hfound

/-- The call begins a search: there is nothing to search, or it is to restart, or no search for the query is active. -/
def Begins (history : ChatComposerHistory D) (query : Str) (restart : Bool) : Prop :=
  history.totalEntries = 0 ∨ restart = true ∨ history.search.all (fun search => search.query ≠ query) = true

instance (history : ChatComposerHistory D) (query : Str) (restart : Bool) : Decidable (Begins history query restart) :=
  inferInstanceAs (Decidable (_ ∨ _))

theorem searchFor_continues (hactive : history.search = some search) (queryChanged restart : Bool) (boundary : Bool)
    (direction : HistorySearchDirection) : Moved history search
      (match if !restart && !queryChanged then history.selectCachedUniqueMatch direction else none with
      | some result => result
      | none =>
          if boundary && history.search.any (HistorySearchState.isExhausted · direction) then (.atBoundary, history)
          else
            match history.searchStartOffset history.totalEntries direction (queryChanged || restart) with
            | none => history.exhaustedSearchResult direction boundary
            | some startOffset =>
                orExhausted direction boundary
                  (history.advanceSearchFrom texts startOffset direction boundary)).2 := by
  split
  · next result hresult =>
      split at hresult
      · exact selectCachedUniqueMatch_moved hactive hresult
      · cases hresult
  · split
    · exact .refl hactive
    · split
      · exact exhaustedSearchResult_moved hactive direction boundary
      · exact advanceSearchFrom_moved hactive _ direction boundary

theorem searchFor_begins (texts : Texts D) (direction : HistorySearchDirection) {restart : Bool}
    (h : Begins history query restart) :
    Moved { history with search := some (.new texts query) } (.new texts query)
      (history.searchFor texts query direction restart).2 := by
  rw [searchFor]
  simp only
  by_cases hzero : history.totalEntries = 0
  · rw [if_pos hzero]
    exact .refl rfl
  · have hnew : (history.search.all (fun search => search.query ≠ query) || restart) = true :=
      Bool.or_eq_true_iff.mpr (h.resolve_left hzero).symm
    have hwaits : ¬ (!history.search.all (fun search => search.query ≠ query) && !restart &&
        (history.search.bind (·.awaiting)).isSome) = true := by
      intro hwaits
      simp only [Bool.and_eq_true, Bool.not_eq_true'] at hwaits
      rw [hwaits.1.1, hwaits.1.2] at hnew
      cases hnew
    rw [if_neg hzero, if_neg hwaits]
    simp only [if_pos hnew]
    exact searchFor_continues rfl _ restart _ direction

theorem searchFor_goesOn (texts : Texts D) (direction : HistorySearchDirection) {restart : Bool}
    (h : ¬ Begins history query restart) :
    ∃ search, history.search = some search ∧ Moved history search (history.searchFor texts query direction restart).2 := by
  rw [Begins, not_or, not_or] at h
  obtain ⟨hzero, hrestart, hquery⟩ := h
  obtain ⟨search, hactive⟩ : ∃ search, history.search = some search := by
    cases hactive : history.search with
    | none => rw [hactive] at hquery; exact absurd rfl hquery
    | some search => exact ⟨search, rfl⟩
  refine ⟨search, hactive, ?_⟩
  have hold : ¬ (history.search.all (fun search => search.query ≠ query) || restart) = true := by
    rw [Bool.or_eq_true, not_or]
    exact ⟨hquery, hrestart⟩
  rw [searchFor]
  simp only [if_neg hzero, if_neg hold]
  by_cases hwaits : (!history.search.all (fun search => search.query ≠ query) && !restart &&
      (history.search.bind (·.awaiting)).isSome) = true
  · rw [if_pos hwaits]
    exact .refl hactive
  · rw [if_neg hwaits]
    have hsame : search.query = query := by simpa [hactive] using hquery
    have hawaiting : search.awaiting = none := by simpa [hactive, hrestart, hsame] using hwaits
    have hidle : { search with awaiting := none } = search := by rw [← hawaiting]
    have hmap : history.search.map (fun search => { search with awaiting := none }) = some search := by
      rw [hactive, Option.map_some, hidle]
    have heq : ({ history with
        search := history.search.map fun search => { search with awaiting := none } } :
        ChatComposerHistory D) = history := by
      rw [hmap, ← hactive]
    exact Moved.congr heq rfl (searchFor_continues hmap _ restart _ direction)

/-! ## Answers -/

/-- The history with an answer in its cache. -/
def cacheAnswer (texts : Texts D) (history : ChatComposerHistory D) (offset : Nat) (entry : Option Str) :
    ChatComposerHistory D :=
  match entry.map texts.newEntry with
  | some entry => { history with fetchedHistory := Function.update history.fetchedHistory offset (some entry) }
  | none => history

theorem totalEntries_cacheAnswer (texts : Texts D) (history : ChatComposerHistory D) (offset : Nat)
    (entry : Option Str) : (cacheAnswer texts history offset entry).totalEntries = history.totalEntries := by
  cases entry <;> rfl

theorem onEntryResponse_eq (hid : history.historyLogId = some logId) (offset : Nat) (entry : Option Str) :
    history.onEntryResponse texts logId offset entry =
      match (history.search.bind (·.awaiting)).filter fun pending => pending.offset = offset with
      | some pending =>
          match (entry.map texts.newEntry).filter fun found =>
            (cacheAnswer texts history offset entry).searchMatches texts found &&
              (cacheAnswer texts history offset entry).searchResultIsUnique found with
          | some found =>
              (.search ((cacheAnswer texts history offset entry).searchMatch offset found).1,
                ((cacheAnswer texts history offset entry).searchMatch offset found).2)
          | none =>
              (.search ((cacheAnswer texts history offset entry).advanceSearchAfter texts offset pending.direction
                  pending.boundaryIfExhausted).1,
                ((cacheAnswer texts history offset entry).advanceSearchAfter texts offset pending.direction
                  pending.boundaryIfExhausted).2)
      | none =>
          if history.historyCursor = some offset then
            match entry.map texts.newEntry with
            | none => (.ignored, cacheAnswer texts history offset entry)
            | some found =>
                (.found found, { cacheAnswer texts history offset entry with lastHistoryText := some found.text })
          else (.ignored, cacheAnswer texts history offset entry) := by
  rw [onEntryResponse, if_neg (by simp [hid])]
  cases entry <;> rfl

/-- An answer that is awaited is taken as a match, or the scan goes on behind it. -/
theorem onEntryResponse_awaited (texts : Texts D) (hid : history.historyLogId = some logId)
    (hsearch : history.search = some search)
    {pending : PendingHistorySearch} (hawaiting : search.awaiting = some pending) (entry : Option Str) :
    ∃ result, history.onEntryResponse texts logId pending.offset entry = (.search result.1, result.2) ∧
      ((∃ found, entry.map texts.newEntry = some found ∧
          (cacheAnswer texts history pending.offset entry).searchMatches texts found = true ∧
          found.text ∉ search.seenTexts ∧
          result = (cacheAnswer texts history pending.offset entry).searchMatch pending.offset found) ∨
        ((∀ found, entry.map texts.newEntry = some found →
            (cacheAnswer texts history pending.offset entry).searchMatches texts found = true →
            found.text ∈ search.seenTexts) ∧
          result = (cacheAnswer texts history pending.offset entry).advanceSearchAfter texts pending.offset
            pending.direction pending.boundaryIfExhausted)) := by
  have hfilter : (history.search.bind (·.awaiting)).filter (fun other => other.offset = pending.offset) =
      some pending := by
    rw [hsearch, Option.bind_some, hawaiting, Option.filter_some, if_pos (decide_eq_true rfl)]
  have hunique : ∀ found, (cacheAnswer texts history pending.offset entry).searchResultIsUnique found = true ↔
      found.text ∉ search.seenTexts := by
    intro found
    cases entry <;> simp [searchResultIsUnique, cacheAnswer, hsearch]
  rw [onEntryResponse_eq hid, hfilter]
  simp only
  split
  · next found hfound =>
      obtain ⟨hentry, hmatch⟩ := Option.filter_eq_some_iff.mp hfound
      obtain ⟨hmatches, hnew⟩ := Bool.and_eq_true_iff.mp hmatch
      exact ⟨_, rfl, .inl ⟨found, hentry, hmatches, (hunique found).mp hnew, rfl⟩⟩
  · next hnone =>
      refine ⟨_, rfl, .inr ⟨fun found hentry hmatches => ?_, rfl⟩⟩
      rw [hentry, Option.filter_eq_none_iff] at hnone
      by_contra hnew
      exact hnone found rfl (Bool.and_eq_true_iff.mpr ⟨hmatches, (hunique found).mpr hnew⟩)

theorem search_cacheAnswer (texts : Texts D) (history : ChatComposerHistory D) (offset : Nat) (entry : Option Str) :
    (cacheAnswer texts history offset entry).search = history.search := by
  cases entry <;> rfl

/-- An awaited answer lets the search go on from the history that has it. -/
theorem onEntryResponse_moved (texts : Texts D) (hid : history.historyLogId = some logId)
    (hsearch : history.search = some search)
    {pending : PendingHistorySearch} (hawaiting : search.awaiting = some pending) (entry : Option Str) :
    ∃ result : HistorySearchResult D × ChatComposerHistory D,
      history.onEntryResponse texts logId pending.offset entry = (.search result.1, result.2) ∧
        Moved (cacheAnswer texts history pending.offset entry) search result.2 := by
  obtain ⟨result, hresponse, hresult⟩ := onEntryResponse_awaited texts hid hsearch hawaiting entry
  have hactive := (search_cacheAnswer texts history pending.offset entry).trans hsearch
  refine ⟨result, hresponse, ?_⟩
  obtain ⟨found, -, -, -, rfl⟩ | ⟨-, rfl⟩ := hresult
  · exact searchMatch_moved hactive pending.offset found
  · exact advanceSearchAfter_moved hactive _ _ _

def HistoryEntryResponse.isFound : HistoryEntryResponse D → Bool
  | .found _ => true
  | _ => false

/-- An answer that is not awaited only fills the cache, and it is shown if it brings the entry that the cursor stands
at. -/
theorem onEntryResponse_other (texts : Texts D) (hid : history.historyLogId = some logId)
    (hother : ∀ search pending, history.search = some search → search.awaiting = some pending → pending.offset ≠ offset)
    (entry : Option Str) :
    (history.onEntryResponse texts logId offset entry).2.historyLogId = history.historyLogId ∧
      (history.onEntryResponse texts logId offset entry).2.search = history.search ∧
      (history.onEntryResponse texts logId offset entry).2.historyCursor = history.historyCursor ∧
      (history.onEntryResponse texts logId offset entry).2.requests = history.requests ∧
      ((history.onEntryResponse texts logId offset entry).1.isFound = true ↔
        history.historyCursor = some offset ∧ entry.isSome = true) := by
  have hfilter : (history.search.bind (·.awaiting)).filter (fun pending => pending.offset = offset) = none := by
    rw [Option.filter_eq_none_iff]
    intro pending hpending heq
    obtain ⟨search, hsearch, hawaiting⟩ := Option.bind_eq_some_iff.mp hpending
    exact hother search pending hsearch hawaiting (of_decide_eq_true heq)
  rw [onEntryResponse_eq hid, hfilter]
  simp only
  by_cases hcursor : history.historyCursor = some offset
  · rw [if_pos hcursor]
    cases entry <;> exact ⟨rfl, rfl, rfl, rfl, by simp [HistoryEntryResponse.isFound, hcursor]⟩
  · rw [if_neg hcursor]
    cases entry <;> exact ⟨rfl, rfl, rfl, rfl, by simp [HistoryEntryResponse.isFound, hcursor]⟩

/-! ## What navigation does to the history -/

/-- Navigation ends a search, and may send for an entry. -/
structure Navigated (history history' : ChatComposerHistory D) : Prop where
  logId : history'.historyLogId = history.historyLogId
  inactive : history'.search = none
  sends : Sends history history'

theorem populateHistoryAtIndex_navigated (hnone : history.search = none) (globalIdx : Nat) :
    Navigated history (history.populateHistoryAtIndex globalIdx).2 := by
  rw [populateHistoryAtIndex]
  split
  · exact ⟨rfl, hnone, .inl rfl⟩
  · split
    · split
      · next logId hid => exact ⟨rfl, hnone, .inr ⟨globalIdx, logId, hid, rfl⟩⟩
      · exact ⟨rfl, hnone, .inl rfl⟩
    · exact ⟨rfl, hnone, .inl rfl⟩

/-- Where the cursor was does not matter. -/
theorem Navigated.of_cursor {cursor : Option Nat}
    (h : Navigated { history with search := none, historyCursor := cursor } history') : Navigated history history' :=
  ⟨h.logId, h.inactive, h.sends⟩

theorem navigateUp_navigated (history : ChatComposerHistory D) : Navigated history history.navigateUp.2 := by
  simp only [navigateUp]
  split
  · exact ⟨rfl, rfl, .inl rfl⟩
  · split
    · exact .of_cursor (populateHistoryAtIndex_navigated rfl _)
    · exact ⟨rfl, rfl, .inl rfl⟩
    · exact .of_cursor (populateHistoryAtIndex_navigated rfl _)

theorem navigateDown_navigated (texts : Texts D) (history : ChatComposerHistory D) :
    Navigated history (history.navigateDown texts).2 := by
  simp only [navigateDown]
  split
  · exact ⟨rfl, rfl, .inl rfl⟩
  · split
    · exact ⟨rfl, rfl, .inl rfl⟩
    · split
      · exact ⟨rfl, rfl, .inl rfl⟩
      · exact .of_cursor (populateHistoryAtIndex_navigated rfl _)

/-! ## Runs -/

/-- A history, those of its lookups that have not been answered, and where the cursor stood when the search that is
active, or the last one, began. -/
structure World (D : Type) where
  history : ChatComposerHistory D
  outstanding : List (Nat × Nat)
  began : Option Nat

inductive Action
  | navigateUp
  | navigateDown
  | search (query : Str) (direction : HistorySearchDirection) (restart : Bool)
  | resetSearch
  | resetNavigation
  | answer (request : Nat × Nat) (entry : Option Str)

/-- The lookups that have been sent between two histories. -/
def sent (history history' : ChatComposerHistory D) : List (Nat × Nat) :=
  history'.requests.drop history.requests.length

def operate (texts : Texts D) (history : ChatComposerHistory D) : Action → ChatComposerHistory D
  | .navigateUp => history.navigateUp.2
  | .navigateDown => (history.navigateDown texts).2
  | .search query direction restart => (history.searchFor texts query direction restart).2
  | .resetSearch => history.resetSearch
  | .resetNavigation => history.resetNavigation
  | .answer (offset, logId) entry => (history.onEntryResponse texts logId offset entry).2

def remaining (world : World D) : Action → List (Nat × Nat)
  | .answer request _ => world.outstanding.erase request
  | _ => world.outstanding

def origin (world : World D) : Action → Option Nat
  | .search query _ restart => if Begins world.history query restart then world.history.historyCursor else world.began
  | _ => world.began

def step (texts : Texts D) (world : World D) (action : Action) : World D :=
  ⟨operate texts world.history action,
    remaining world action ++ sent world.history (operate texts world.history action), origin world action⟩

/-- Only lookups that have been sent are answered, each once. -/
def Possible (world : World D) : Action → Prop
  | .answer request _ => request ∈ world.outstanding
  | _ => True

/-- An answer is not shown while a search is active. -/
def Quiet (texts : Texts D) (world : World D) : Action → Prop
  | .answer (offset, logId) entry => world.history.search.isSome = true →
      (world.history.onEntryResponse texts logId offset entry).1.isFound = false
  | _ => True

/-- What a search stands at: the match that it has selected, or the entry that had been recalled when it began. -/
def World.standsAt (world : World D) (search : HistorySearchState D) : Option Nat :=
  search.selectedOffset.or world.began

/-- An entry that arrives while a search is active without being awaited by it is not the one that the search stands
at. -/
def Apart (world : World D) : Action → Prop
  | .answer (offset, _) entry => ∀ search ∈ world.history.search, entry.isSome = true →
      (search.awaiting.all fun pending => pending.offset ≠ offset) = true → world.standsAt search ≠ some offset
  | _ => True

instance (texts : Texts D) (world : World D) (action : Action) : Decidable (Quiet texts world action) :=
  match action with
  | .answer (_, _) _ => inferInstanceAs (Decidable (_ → _))
  | .navigateUp | .navigateDown | .search _ _ _ | .resetSearch | .resetNavigation => .isTrue trivial

instance (world : World D) (action : Action) : Decidable (Apart world action) :=
  match action with
  | .answer (_, _) _ => inferInstanceAs (Decidable (∀ search ∈ world.history.search, _))
  | .navigateUp | .navigateDown | .search _ _ _ | .resetSearch | .resetNavigation => .isTrue trivial

instance (world : World D) (action : Action) : Decidable (Possible world action) :=
  match action with
  | .answer _ _ => inferInstanceAs (Decidable (_ ∈ _))
  | .navigateUp | .navigateDown | .search _ _ _ | .resetSearch | .resetNavigation => .isTrue trivial

/-! ## The invariant -/

variable {world : World D}

/-- Lookups are in the log that the history is of, and the cursor is where an active search stands. -/
structure Standing (world : World D) : Prop where
  ids : ∀ request ∈ world.outstanding, world.history.historyLogId = some request.2
  cursor : ∀ search, world.history.search = some search → world.history.historyCursor = world.standsAt search

theorem Sends.sent (h : Sends history history') :
    ∀ request ∈ sent history history', history.historyLogId = some request.2 := by
  intro request hmem
  obtain hsame | ⟨offset, logId, hid, hsent⟩ := h
  · rw [ComposerHistory.sent, hsame, List.drop_length] at hmem
    cases hmem
  · rw [ComposerHistory.sent, hsent, List.drop_left, List.mem_singleton] at hmem
    rw [hid, hmem]

theorem MovesTogether.cursor {search' : HistorySearchState D} {began : Option Nat}
    (h : MovesTogether history search history' search') (hcursor : history.historyCursor = search.selectedOffset.or began) :
    history'.historyCursor = search'.selectedOffset.or began := by
  obtain ⟨hselected, hsame⟩ | ⟨offset, hselected, hthere⟩ := h
  · rw [hselected, hsame, hcursor]
  · rw [hselected, hthere, Option.some_or]

theorem Standing.idsStep (h : Standing world) {action : Action} (hlog : history'.historyLogId = world.history.historyLogId)
    (hsends : Sends world.history history') :
    ∀ request ∈ remaining world action ++ sent world.history history', history'.historyLogId = some request.2 := by
  intro request hmem
  rw [hlog]
  cases List.mem_append.mp hmem with
  | inl hold =>
      cases action with
      | answer answered entry => exact h.ids request (List.mem_of_mem_erase hold)
      | _ => exact h.ids request hold
  | inr hnew => exact hsends.sent request hnew

theorem Moved.cursor {began : Option Nat} (h : Moved history search history')
    (hcursor : history.historyCursor = search.selectedOffset.or began) :
    ∀ search', history'.search = some search' → history'.historyCursor = search'.selectedOffset.or began := by
  obtain ⟨next, hactive, htogether⟩ := h.active
  intro search' hsearch'
  cases hactive.symm.trans hsearch'
  exact htogether.cursor hcursor

theorem Standing.searchFor (h : Standing world) (query : Str) (direction : HistorySearchDirection) (restart : Bool) :
    Standing (step texts world (.search query direction restart)) := by
  by_cases hbegins : Begins world.history query restart
  · have hmoved := searchFor_begins texts direction hbegins
    refine ⟨h.idsStep hmoved.sameLog.logId hmoved.sends, fun search hsearch => ?_⟩
    rw [World.standsAt, step, origin, if_pos hbegins]
    exact hmoved.cursor rfl search hsearch
  · obtain ⟨active, hactive, hmoved⟩ := searchFor_goesOn texts direction hbegins
    refine ⟨h.idsStep hmoved.sameLog.logId hmoved.sends, fun search hsearch => ?_⟩
    rw [World.standsAt, step, origin, if_neg hbegins]
    exact hmoved.cursor (h.cursor active hactive) search hsearch

theorem Standing.navigated (h : Standing world) {action : Action}
    (hnavigated : Navigated world.history (operate texts world.history action)) : Standing (step texts world action) := by
  refine ⟨h.idsStep hnavigated.logId hnavigated.sends, fun search hsearch => ?_⟩
  cases hnavigated.inactive.symm.trans hsearch

theorem sends_cacheAnswer {offset : Nat} {entry : Option Str}
    (h : Sends (cacheAnswer texts history offset entry) history') : Sends history history' := by
  cases entry <;> exact h

theorem not_awaited {offset : Nat} (hsearch : history.search = some search)
    (h : (search.awaiting.all fun pending => pending.offset ≠ offset) = true) :
    ∀ active pending, history.search = some active → active.awaiting = some pending → pending.offset ≠ offset := by
  intro active pending hactive hawaiting
  cases hsearch.symm.trans hactive
  rw [hawaiting] at h
  exact of_decide_eq_true h

theorem Standing.answer (h : Standing world) {request : Nat × Nat} (hmem : request ∈ world.outstanding)
    (entry : Option Str) : Standing (step texts world (.answer request entry)) := by
  have hid := h.ids request hmem
  by_cases hawaited : ∃ search pending, world.history.search = some search ∧ search.awaiting = some pending ∧
      pending.offset = request.1
  · obtain ⟨search, pending, hsearch, hawaiting, heq⟩ := hawaited
    obtain ⟨result, hresponse, hmoved⟩ := onEntryResponse_moved texts hid hsearch hawaiting entry
    have hoperate : operate texts world.history (.answer request entry) = result.2 := by
      rw [operate, ← heq, hresponse]
    have hlog : result.2.historyLogId = world.history.historyLogId := by
      rw [hmoved.sameLog.logId]
      cases entry <;> rfl
    rw [step, hoperate]
    refine ⟨h.idsStep hlog (sends_cacheAnswer hmoved.sends), fun next hnext => ?_⟩
    refine hmoved.cursor ?_ next hnext
    have hcursor := h.cursor search hsearch
    cases entry <;> exact hcursor
  · have hother : ∀ search pending, world.history.search = some search → search.awaiting = some pending →
        pending.offset ≠ request.1 := fun search pending hsearch hawaiting heq =>
      hawaited ⟨search, pending, hsearch, hawaiting, heq⟩
    obtain ⟨hlog, hsearch, hcursor, hrequests, -⟩ := onEntryResponse_other texts hid hother entry
    refine ⟨h.idsStep hlog (.inl hrequests), fun search hactive => ?_⟩
    exact hcursor.trans (h.cursor search (hsearch.symm.trans hactive))

theorem Standing.step {action : Action} (hpossible : Possible world action) (h : Standing world) :
    Standing (step texts world action) := by
  cases action with
  | navigateUp => exact h.navigated (navigateUp_navigated world.history)
  | navigateDown => exact h.navigated (navigateDown_navigated texts world.history)
  | resetSearch => exact h.navigated ⟨rfl, rfl, .inl rfl⟩
  | resetNavigation => exact h.navigated ⟨rfl, rfl, .inl rfl⟩
  | search query direction restart => exact h.searchFor query direction restart
  | answer request entry => exact h.answer hpossible entry

/-- An answer is shown over an active search exactly if it is not awaited and is for what the search stands at. -/
theorem Standing.quiet_iff (h : Standing world) {action : Action} (hpossible : Possible world action) :
    Quiet texts world action ↔ Apart world action := by
  cases action with
  | answer request entry =>
      have hid := h.ids request hpossible
      cases hsearch : world.history.search with
      | none => simp [Quiet, Apart, hsearch]
      | some search =>
          simp only [Quiet, Apart, hsearch, Option.isSome_some, forall_true_left, Option.mem_some, forall_eq']
          cases hawaited : search.awaiting.all fun pending => pending.offset ≠ request.1 with
          | false =>
              obtain ⟨pending, hawaiting, heq⟩ : ∃ pending, search.awaiting = some pending ∧ pending.offset = request.1 := by
                cases hawaiting : search.awaiting with
                | none => rw [hawaiting] at hawaited; cases hawaited
                | some pending => exact ⟨pending, rfl, by simpa [hawaiting] using hawaited⟩
              obtain ⟨result, hresponse, -⟩ := onEntryResponse_moved texts hid hsearch hawaiting entry
              rw [← heq, hresponse]
              simp [HistoryEntryResponse.isFound]
          | true =>
              obtain ⟨-, -, -, -, hfound⟩ := onEntryResponse_other texts hid (not_awaited hsearch hawaited) entry
              rw [← h.cursor search hsearch, ← Bool.not_eq_true, hfound]
              tauto
  | _ => exact Iff.rfl

/-- In every run no answer replaces what an active search shows, exactly if no entry arrives unawaited for what the
search stands at. -/
theorem quiet_iff_apart (texts : Texts D) (start : ChatComposerHistory D) (hnone : start.search = none)
    (actions : List Action) (hpossible : Transition.Guarded (step texts) Possible ⟨start, [], none⟩ actions) :
    Transition.Guarded (step texts) (Quiet texts) ⟨start, [], none⟩ actions ↔
      Transition.Guarded (step texts) Apart ⟨start, [], none⟩ actions := by
  have hstart : Standing ⟨start, [], none⟩ := by
    constructor
    · intro request hmem
      cases hmem
    · intro search hsearch
      cases hnone.symm.trans hsearch
  have hstep : ∀ before action after, actions = before ++ action :: after →
      (Quiet texts (Transition.run (step texts) ⟨start, [], none⟩ before) action ↔
        Apart (Transition.run (step texts) ⟨start, [], none⟩ before) action) := by
    rintro before action after rfl
    have hstanding := Transition.Guarded.invariant (fun _ _ => Standing.step) hpossible.of_append hstart
    exact hstanding.quiet_iff (Transition.guarded_iff.mp hpossible before action after rfl)
  rw [Transition.guarded_iff, Transition.guarded_iff]
  exact forall₃_congr fun before action after => forall_congr' (hstep before action after)

/-- Texts without mentions, in lower case. -/
def plainTexts : Texts Unit := ⟨(⟨·, ()⟩), id⟩

/-- Two entries in a log, and none at hand. -/
def twoLogged : ChatComposerHistory Unit := ⟨some 7, 2, [], fun _ => none, none, none, none, []⟩

/-- The newest entry is looked up twice and arrives before a search begins, and what the search looks up comes in it. -/
def recalledThenSearched : List Action :=
  [.navigateUp, .resetNavigation, .navigateUp, .answer (1, 7) (some "b".toList), .answer (1, 7) (some "b".toList),
    .resetSearch, .search "a".toList .older true, .answer (0, 7) (some "ab".toList), .search "a".toList .older false]

theorem recalledThenSearched_quiet :
    Transition.Guarded (step plainTexts) (Quiet plainTexts) ⟨twoLogged, [], none⟩ recalledThenSearched :=
  (quiet_iff_apart plainTexts twoLogged rfl recalledThenSearched (by decide)).mpr (by decide)

/-- The newest entry is recalled, and it arrives only after a search has looked it up once more. -/
def recalledDuringSearch : List Action :=
  [.navigateUp, .resetSearch, .search "a".toList .older true, .answer (1, 7) (some "b".toList),
    .answer (1, 7) (some "b".toList)]

theorem recalledDuringSearch_not_quiet :
    Transition.Guarded (step plainTexts) Possible ⟨twoLogged, [], none⟩ recalledDuringSearch ∧
      ¬ Transition.Guarded (step plainTexts) (Quiet plainTexts) ⟨twoLogged, [], none⟩ recalledDuringSearch := by
  decide

end Codrex.ComposerHistory
