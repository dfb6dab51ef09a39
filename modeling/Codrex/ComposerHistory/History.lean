import Codrex.Lib.Text
import Mathlib.Logic.Function.Basic

/-!
# The history of the composer (`tui/src/bottom_pane/chat_composer_history.rs`)

Persistent entries come first in the offsets and are looked up one by one, local entries come behind them. Of an entry
only the text is read; the rest of the draft is carried along.
-/

namespace Codrex.ComposerHistory

open Text

variable {D : Type}

structure HistoryEntry (D : Type) where
  text : Str
  draft : D
  deriving DecidableEq

/-- What is done to texts elsewhere: `HistoryEntry::new`, which decodes mentions, and `to_lowercase`. -/
structure Texts (D : Type) where
  newEntry : Str → HistoryEntry D
  toLowercase : Str → Str

inductive HistorySearchDirection
  | older | newer
  deriving DecidableEq

inductive HistorySearchResult (D : Type)
  | found (entry : HistoryEntry D)
  | pending
  | atBoundary
  | notFound
  deriving DecidableEq

inductive HistoryEntryResponse (D : Type)
  | found (entry : HistoryEntry D)
  | search (result : HistorySearchResult D)
  | ignored
  deriving DecidableEq

structure UniqueHistoryMatch (D : Type) where
  offset : Nat
  entry : HistoryEntry D

structure PendingHistorySearch where
  offset : Nat
  direction : HistorySearchDirection
  boundaryIfExhausted : Bool

structure HistorySearchState (D : Type) where
  query : Str
  queryLower : Str
  selectedOffset : Option Nat
  uniqueMatches : List (UniqueHistoryMatch D)
  selectedMatchIndex : Option Nat
  seenTexts : List Str
  awaiting : Option PendingHistorySearch
  exhaustedOlder : Bool
  exhaustedNewer : Bool

/-- `requests` are the offsets that have been sent as `GetHistoryEntryRequest`, with the log they are of. -/
structure ChatComposerHistory (D : Type) where
  historyLogId : Option Nat
  historyEntryCount : Nat
  localHistory : List (HistoryEntry D)
  fetchedHistory : Nat → Option (HistoryEntry D)
  historyCursor : Option Nat
  lastHistoryText : Option Str
  search : Option (HistorySearchState D)
  requests : List (Nat × Nat)

/-! ## The state of a search -/

namespace HistorySearchState

def new (texts : Texts D) (query : Str) : HistorySearchState D :=
  ⟨query, texts.toLowercase query, none, [], none, [], none, false, false⟩

def isExhausted (search : HistorySearchState D) : HistorySearchDirection → Bool
  | .older => search.exhaustedOlder
  | .newer => search.exhaustedNewer

def markExhausted (search : HistorySearchState D) : HistorySearchDirection → HistorySearchState D
  | .older => { search with exhaustedOlder := true }
  | .newer => { search with exhaustedNewer := true }

def selectMatch (search : HistorySearchState D) (index : Nat) : HistorySearchState D :=
  match search.uniqueMatches[index]? with
  | none => search
  | some historyMatch =>
      { search with
        selectedOffset := some historyMatch.offset
        selectedMatchIndex := some index
        awaiting := none
        exhaustedOlder := false
        exhaustedNewer := false }

def recordMatch (search : HistorySearchState D) (offset : Nat) (entry : HistoryEntry D) : HistorySearchState D :=
  match search.uniqueMatches.findIdx? fun historyMatch => historyMatch.offset = offset with
  | some index => search.selectMatch index
  | none =>
      let insertIndex := (search.uniqueMatches.takeWhile fun historyMatch => offset < historyMatch.offset).length
      { search with
        seenTexts := entry.text :: search.seenTexts
        uniqueMatches := search.uniqueMatches.insertIdx insertIndex ⟨offset, entry⟩ }.selectMatch insertIndex

end HistorySearchState

/-! ## Searching -/

namespace ChatComposerHistory

def totalEntries (history : ChatComposerHistory D) : Nat := history.historyEntryCount + history.localHistory.length

def entryAtCachedOffset (history : ChatComposerHistory D) (offset : Nat) : Option (HistoryEntry D) :=
  if history.historyEntryCount ≤ offset then history.localHistory[offset - history.historyEntryCount]?
  else history.fetchedHistory offset

def searchMatches (texts : Texts D) (history : ChatComposerHistory D) (entry : HistoryEntry D) : Bool :=
  match history.search with
  | none => false
  | some search => search.query = [] || contains (texts.toLowercase entry.text) search.queryLower

def searchResultIsUnique (history : ChatComposerHistory D) (entry : HistoryEntry D) : Bool :=
  match history.search with
  | none => true
  | some search => entry.text ∉ search.seenTexts

def searchMatch (history : ChatComposerHistory D) (offset : Nat) (entry : HistoryEntry D) :
    HistorySearchResult D × ChatComposerHistory D :=
  (.found entry, { history with
    historyCursor := some offset
    lastHistoryText := some entry.text
    search := history.search.map fun search =>
      { { search with selectedOffset := some offset }.recordMatch offset entry with
        awaiting := none, exhaustedOlder := false, exhaustedNewer := false } })

def exhaustedSearchResult (history : ChatComposerHistory D) (direction : HistorySearchDirection)
    (boundaryIfExhausted : Bool) : HistorySearchResult D × ChatComposerHistory D :=
  (if boundaryIfExhausted then .atBoundary else .notFound, { history with
    search := history.search.map fun search =>
      let search := { search with awaiting := none }
      if boundaryIfExhausted then search.markExhausted direction else search })

/-- The offsets from one on, in a direction. -/
def offsetsFrom (total offset : Nat) : HistorySearchDirection → List Nat
  | .older => if offset < total then (List.range (offset + 1)).reverse else []
  | .newer => List.range' offset (total - offset)

/-- The offset next to one, in a direction. -/
def nextOffset (total offset : Nat) : HistorySearchDirection → Option Nat
  | .older => if offset = 0 then none else some (offset - 1)
  | .newer => if offset + 1 < total then some (offset + 1) else none

def advanceSearchLoop (texts : Texts D) (history : ChatComposerHistory D) (direction : HistorySearchDirection)
    (boundaryIfExhausted : Bool) : (offsets : List Nat) → HistorySearchResult D × ChatComposerHistory D
  | [] => (.notFound, history)
  | offset :: offsets =>
      match history.entryAtCachedOffset offset with
      | some entry =>
          if history.searchMatches texts entry && history.searchResultIsUnique entry then
            history.searchMatch offset entry
          else advanceSearchLoop texts history direction boundaryIfExhausted offsets
      | none =>
          if offset < history.historyEntryCount then
            match history.historyLogId with
            | some logId =>
                (.pending, { history with
                  search := history.search.map fun search =>
                    { search with awaiting := some ⟨offset, direction, boundaryIfExhausted⟩ }
                  requests := history.requests ++ [(offset, logId)] })
            | none => advanceSearchLoop texts history direction boundaryIfExhausted offsets
          else advanceSearchLoop texts history direction boundaryIfExhausted offsets

def advanceSearchFrom (texts : Texts D) (history : ChatComposerHistory D) (offset : Nat)
    (direction : HistorySearchDirection) (boundaryIfExhausted : Bool) :
    HistorySearchResult D × ChatComposerHistory D :=
  advanceSearchLoop texts history direction boundaryIfExhausted (offsetsFrom history.totalEntries offset direction)

/-- What is done with a scan that may end without a match. -/
def orExhausted (direction : HistorySearchDirection) (boundaryIfExhausted : Bool)
    (scanned : HistorySearchResult D × ChatComposerHistory D) : HistorySearchResult D × ChatComposerHistory D :=
  match scanned.1 with
  | .notFound => scanned.2.exhaustedSearchResult direction boundaryIfExhausted
  | _ => scanned

def advanceSearchAfter (texts : Texts D) (history : ChatComposerHistory D) (offset : Nat)
    (direction : HistorySearchDirection) (boundaryIfExhausted : Bool) :
    HistorySearchResult D × ChatComposerHistory D :=
  match nextOffset history.totalEntries offset direction with
  | none => history.exhaustedSearchResult direction boundaryIfExhausted
  | some next =>
      orExhausted direction boundaryIfExhausted
        (history.advanceSearchFrom texts next direction boundaryIfExhausted)

def selectCachedUniqueMatch (history : ChatComposerHistory D) (direction : HistorySearchDirection) :
    Option (HistorySearchResult D × ChatComposerHistory D) := do
  let search ← history.search
  let selectedIndex ← search.selectedMatchIndex
  let nextIndex ← match direction with
    | .older => if selectedIndex + 1 < search.uniqueMatches.length then some (selectedIndex + 1) else none
    | .newer => if selectedIndex = 0 then none else some (selectedIndex - 1)
  let historyMatch ← search.uniqueMatches[nextIndex]?
  return (.found historyMatch.entry, { history with
    historyCursor := some historyMatch.offset
    lastHistoryText := some historyMatch.entry.text
    search := some (search.selectMatch nextIndex) })

def searchStartOffset (history : ChatComposerHistory D) (totalEntries : Nat) (direction : HistorySearchDirection)
    (restart : Bool) : Option Nat :=
  let selected := history.search.bind (·.selectedOffset)
  match direction with
  | .older =>
      if restart then if totalEntries = 0 then none else some (totalEntries - 1)
      else selected.bind fun offset => nextOffset totalEntries offset .older
  | .newer => if restart then some 0 else selected.bind fun offset => nextOffset totalEntries offset .newer

/-- `search`. -/
def searchFor (texts : Texts D) (history : ChatComposerHistory D) (query : Str) (direction : HistorySearchDirection)
    (restart : Bool) : HistorySearchResult D × ChatComposerHistory D :=
  let totalEntries := history.totalEntries
  if totalEntries = 0 then (.notFound, { history with search := some (.new texts query) })
  else
    let queryChanged := history.search.all fun search => search.query ≠ query
    if !queryChanged && !restart && (history.search.bind (·.awaiting)).isSome then (.pending, history)
    else
      let history :=
        if queryChanged || restart then { history with search := some (.new texts query) }
        else { history with search := history.search.map fun search => { search with awaiting := none } }
      let boundaryIfExhausted := !restart && (history.search.bind (·.selectedOffset)).isSome
      match if !restart && !queryChanged then history.selectCachedUniqueMatch direction else none with
      | some result => result
      | none =>
          if boundaryIfExhausted && history.search.any (·.isExhausted direction) then (.atBoundary, history)
          else
            match history.searchStartOffset totalEntries direction (queryChanged || restart) with
            | none => history.exhaustedSearchResult direction boundaryIfExhausted
            | some startOffset =>
                orExhausted direction boundaryIfExhausted
                  (history.advanceSearchFrom texts startOffset direction boundaryIfExhausted)

/-! ## Answers and navigation -/

def onEntryResponse (texts : Texts D) (history : ChatComposerHistory D) (logId offset : Nat) (entry : Option Str) :
    HistoryEntryResponse D × ChatComposerHistory D :=
  if history.historyLogId ≠ some logId then (.ignored, history)
  else
    let entry := entry.map texts.newEntry
    let history :=
      match entry with
      | some entry => { history with fetchedHistory := Function.update history.fetchedHistory offset (some entry) }
      | none => history
    match (history.search.bind (·.awaiting)).filter fun pending => pending.offset = offset with
    | some pending =>
        match entry.filter fun entry => history.searchMatches texts entry && history.searchResultIsUnique entry with
        | some entry =>
            let (result, history) := history.searchMatch offset entry
            (.search result, history)
        | none =>
            let (result, history) :=
              history.advanceSearchAfter texts offset pending.direction pending.boundaryIfExhausted
            (.search result, history)
    | none =>
        if history.historyCursor = some offset then
          match entry with
          | none => (.ignored, history)
          | some entry => (.found entry, { history with lastHistoryText := some entry.text })
        else (.ignored, history)

def populateHistoryAtIndex (history : ChatComposerHistory D) (globalIdx : Nat) :
    Option (HistoryEntry D) × ChatComposerHistory D :=
  match history.entryAtCachedOffset globalIdx with
  | some entry => (some entry, { history with lastHistoryText := some entry.text })
  | none =>
      if globalIdx < history.historyEntryCount then
        match history.historyLogId with
        | some logId => (none, { history with requests := history.requests ++ [(globalIdx, logId)] })
        | none => (none, history)
      else (none, history)

def navigateUp (history : ChatComposerHistory D) : Option (HistoryEntry D) × ChatComposerHistory D :=
  let history := { history with search := none }
  let totalEntries := history.totalEntries
  if totalEntries = 0 then (none, history)
  else
    match history.historyCursor with
    | none => { history with historyCursor := some (totalEntries - 1) }.populateHistoryAtIndex (totalEntries - 1)
    | some 0 => (none, history)
    | some (idx + 1) => { history with historyCursor := some idx }.populateHistoryAtIndex idx

def navigateDown (texts : Texts D) (history : ChatComposerHistory D) :
    Option (HistoryEntry D) × ChatComposerHistory D :=
  let history := { history with search := none }
  let totalEntries := history.totalEntries
  if totalEntries = 0 then (none, history)
  else
    match history.historyCursor with
    | none => (none, history)
    | some idx =>
        if totalEntries ≤ idx + 1 then
          (some (texts.newEntry []), { history with historyCursor := none, lastHistoryText := none })
        else { history with historyCursor := some (idx + 1) }.populateHistoryAtIndex (idx + 1)

def resetNavigation (history : ChatComposerHistory D) : ChatComposerHistory D :=
  { history with historyCursor := none, lastHistoryText := none, search := none }

def resetSearch (history : ChatComposerHistory D) : ChatComposerHistory D := { history with search := none }

end ChatComposerHistory

end Codrex.ComposerHistory
