import Codrex.ComposerHistory.Search

/-!
# The results of a search are those of a cursor

A search is called again and again with one query, and the log answers at any time.
-/

namespace Codrex.ComposerHistory

open Text ChatComposerHistory

variable {D : Type} {texts : Texts D} {log : Nat → Option Str} {query : Str} {history : ChatComposerHistory D}
  {search : HistorySearchState D} {direction : HistorySearchDirection} {offset logId known : Nat} {offsets : List Nat}
  {all : List (UniqueHistoryMatch D)} {pos : Option Nat} {asked : List HistorySearchDirection}

/-! ## The cursor's answers -/

def replies (all : List (UniqueHistoryMatch D)) :
    Option Nat → List HistorySearchDirection → List (HistorySearchResult D)
  | _, [] => []
  | pos, direction :: asked => (move all pos direction).1 :: replies all (move all pos direction).2 asked

def standing (all : List (UniqueHistoryMatch D)) (pos : Option Nat) (asked : List HistorySearchDirection) :
    Option Nat :=
  asked.foldl (fun pos direction => (move all pos direction).2) pos

theorem replies_append (all : List (UniqueHistoryMatch D)) (pos : Option Nat) (asked : List HistorySearchDirection)
    (direction : HistorySearchDirection) :
    replies all pos (asked ++ [direction]) =
      replies all pos asked ++ [(move all (standing all pos asked) direction).1] := by
  induction asked generalizing pos with
  | nil => rfl
  | cons first asked ih =>
      rw [List.cons_append, replies, ih]
      rfl

theorem standing_append (all : List (UniqueHistoryMatch D)) (pos : Option Nat) (asked : List HistorySearchDirection)
    (direction : HistorySearchDirection) :
    standing all pos (asked ++ [direction]) = (move all (standing all pos asked) direction).2 :=
  List.foldl_append

theorem move_ne_pending (all : List (UniqueHistoryMatch D)) (pos : Option Nat) (direction : HistorySearchDirection) :
    (move all pos direction).1 ≠ .pending := by
  unfold move
  split <;> try split
  all_goals nofun

/-! ## Calls and answers in any order -/

/-- The history, the moves that have been asked for, and the results that are not pending. -/
structure Session (D : Type) where
  history : ChatComposerHistory D
  asked : List HistorySearchDirection
  results : List (HistorySearchResult D)

inductive Event
  | call (direction : HistorySearchDirection)
  | answer (offset : Nat)

def isAwaiting (history : ChatComposerHistory D) : Bool := (history.search.bind (·.awaiting)).isSome

def settled : HistorySearchResult D → List (HistorySearchResult D)
  | .pending => []
  | result => [result]

theorem settled_of_ne {result : HistorySearchResult D} (h : result ≠ .pending) : settled result = [result] := by
  cases result with
  | pending => exact absurd rfl h
  | _ => rfl

namespace Session

/-- The first call. -/
def start (texts : Texts D) (query : Str) (history : ChatComposerHistory D) : Session D :=
  let (result, history) := history.searchFor texts query .older true
  ⟨history, [.older], settled result⟩

def step (texts : Texts D) (log : Nat → Option Str) (logId : Nat) (query : Str) (session : Session D) :
    Event → Session D
  | .call direction =>
      let (result, history) := session.history.searchFor texts query direction false
      ⟨history, if isAwaiting session.history then session.asked else session.asked ++ [direction],
        session.results ++ settled result⟩
  | .answer offset =>
      let (response, history) := session.history.onEntryResponse texts logId offset (log offset)
      ⟨history, session.asked, session.results ++ (response.searchResult.map settled).getD []⟩

/-- The answer is the one that the search waits for. -/
def Awaited (session : Session D) : Event → Prop
  | .call _ => False
  | .answer offset => ∃ search pending, session.history.search = some search ∧ search.awaiting = some pending ∧
      pending.offset = offset

end Session

variable {session : Session D}

/-- The results are those of the cursor, or all but the last are and that one waits for the log. -/
inductive Follows (texts : Texts D) (log : Nat → Option Str) (query : Str) (logId : Nat)
    (all : List (UniqueHistoryMatch D)) (session : Session D) : Prop
  | idle (search : HistorySearchState D) (known : Nat)
      (h : Tracks texts log query logId all session.history search known (standing all none session.asked))
      (hidle : search.awaiting = none) (hnone : standing all none session.asked = none → all = [])
      (hresults : session.results = replies all none session.asked)
  | waiting (asked : List HistorySearchDirection) (direction : HistorySearchDirection) (search : HistorySearchState D)
      (known : Nat) (pending : PendingHistorySearch) (hasked : session.asked = asked ++ [direction])
      (h : Tracks texts log query logId all session.history search known (standing all none asked))
      (hwaits : Waits texts log query all session.history search known (standing all none asked) direction pending)
      (hresults : session.results = replies all none asked)

theorem Outcome.follows {result : HistorySearchResult D × ChatComposerHistory D}
    (h : Outcome texts log query logId all direction (standing all none asked) offsets result) :
    Follows texts log query logId all ⟨result.2, asked ++ [direction], replies all none asked ++ settled result.1⟩ := by
  cases h with
  | answered result pos' history search known hmove h hidle hnone =>
      have hpos : standing all none (asked ++ [direction]) = pos' := by rw [standing_append, hmove]
      have hne : result ≠ .pending := by
        have hne := move_ne_pending all (standing all none asked) direction
        rwa [hmove] at hne
      refine .idle search known (hpos ▸ h) hidle (fun hstands => hnone (hpos ▸ hstands)) ?_
      rw [replies_append, hmove, settled_of_ne hne]
  | waiting history search known pending h hwaits hmem =>
      exact .waiting asked direction search known pending rfl h hwaits (List.append_nil _)

theorem Follows.start (hid : 0 < history.historyEntryCount → history.historyLogId = some logId)
    (hlog : FromLog texts log history) :
    Follows texts log query logId (uniqueMatches texts log query history) (.start texts query history) :=
  @Outcome.follows _ _ _ _ _ _ _ _ [] _ (searchFor_restart hid hlog)

theorem isAwaiting_of (hactive : history.search = some search) : isAwaiting history = search.awaiting.isSome := by
  rw [isAwaiting, hactive]
  rfl

theorem Waits.total {direction : HistorySearchDirection} {pending : PendingHistorySearch}
    (hwaits : Waits texts log query all history search known pos direction pending) : history.totalEntries ≠ 0 := by
  have hcount := hwaits.count
  rw [totalEntries]
  omega

/-- A call that finds a lookup awaited changes nothing. -/
theorem Tracks.call_waiting (h : Tracks texts log query logId all history search known pos)
    {pending : PendingHistorySearch} {waited : HistorySearchDirection}
    (hwaits : Waits texts log query all history search known pos waited pending) (direction : HistorySearchDirection) :
    history.searchFor texts query direction false = (.pending, history) :=
  searchFor_pending h.active h.sameQuery (by rw [hwaits.awaiting]; rfl) hwaits.total direction

theorem Follows.step (h : Follows texts log query logId all session) (event : Event) :
    Follows texts log query logId all (session.step texts log logId query event) := by
  cases event with
  | call direction =>
      cases h with
      | idle search known h hidle hnone hresults =>
          obtain ⟨offsets, houtcome⟩ := h.searchFor_next hidle hnone direction
          have hawaiting : isAwaiting session.history = false := by rw [isAwaiting_of h.active, hidle]; rfl
          have hfollows := houtcome.follows
          rw [← hresults] at hfollows
          simp only [Session.step, hawaiting, Bool.false_eq_true, if_false]
          exact hfollows
      | waiting asked waited search known pending hasked h hwaits hresults =>
          have hawaiting : isAwaiting session.history = true := by rw [isAwaiting_of h.active, hwaits.awaiting]; rfl
          simp only [Session.step, h.call_waiting hwaits direction, hawaiting, if_true, settled, List.append_nil]
          exact .waiting asked waited search known pending hasked h hwaits hresults
  | answer offset =>
      cases h with
      | idle search known h hidle hnone hresults =>
          obtain ⟨hnot, htracks, -⟩ := @Tracks.other _ _ _ _ _ _ .older offset _ _ _ _ h fun pending hpending => by
            cases hidle.symm.trans hpending
          simp only [Session.step, hnot, Option.map_none, Option.getD_none, List.append_nil]
          exact .idle search known htracks hidle hnone hresults
      | waiting asked waited search known pending hasked h hwaits hresults =>
          by_cases heq : pending.offset = offset
          · subst heq
            obtain ⟨result, hresponse, houtcome⟩ := h.answer hwaits
            have hfollows := houtcome.follows
            rw [← hresults, ← hasked] at hfollows
            simp only [Session.step, hresponse, HistoryEntryResponse.searchResult, Option.map_some, Option.getD_some]
            exact hfollows
          · obtain ⟨hnot, htracks, hkept⟩ := h.other fun other hother => by
              cases hwaits.awaiting.symm.trans hother
              exact heq
            simp only [Session.step, hnot, Option.map_none, Option.getD_none, List.append_nil]
            exact .waiting asked waited search known pending hasked htracks (hkept pending hwaits) hresults

theorem length_following_lt {total offset next : Nat} (h : next ∈ following total offset direction) :
    (following total next direction).length < (following total offset direction).length := by
  cases direction with
  | older =>
      have hlt := mem_below.mp h
      simpa [following, below] using hlt
  | newer =>
      have hrange := List.mem_range'_1.mp h
      simp only [following, List.length_range']
      omega

theorem Tracks.totalEntries_answer (h : Tracks texts log query logId all history search known pos)
    {pending : PendingHistorySearch}
    (hwaits : Waits texts log query all history search known pos direction pending) :
    (history.onEntryResponse texts logId pending.offset (log pending.offset)).2.totalEntries =
      history.totalEntries := by
  obtain ⟨result, hresponse, hmoved⟩ := onEntryResponse_moved texts (h.id (Nat.zero_lt_of_lt hwaits.count)) h.active
    hwaits.awaiting (log pending.offset)
  rw [hresponse]
  exact hmoved.sameLog.totalEntries.trans (totalEntries_cacheAnswer ..)

/-- Answering what is awaited, again and again, ends with the last call answered. -/
theorem settles (hasked : session.asked = asked ++ [direction])
    (hresults : session.results = replies all none asked) {pending : PendingHistorySearch}
    (h : Tracks texts log query logId all session.history search known (standing all none asked))
    (hwaits : Waits texts log query all session.history search known (standing all none asked) direction pending) :
    ∃ offsets : List Nat,
      Transition.Guarded (Session.step texts log logId query) Session.Awaited session (offsets.map .answer) ∧
      (Transition.run (Session.step texts log logId query) session (offsets.map .answer)).asked = session.asked ∧
      (Transition.run (Session.step texts log logId query) session (offsets.map .answer)).results =
        replies all none session.asked := by
  -- each answer leaves fewer offsets behind the one that is awaited
  induction hn : (following session.history.totalEntries pending.offset direction).length
    using Nat.strongRecOn generalizing session search known pending with
  | _ n ih =>
      obtain ⟨result, hresponse, houtcome⟩ := h.answer hwaits
      have hstep : session.step texts log logId query (.answer pending.offset) =
          ⟨result.2, session.asked, session.results ++ settled result.1⟩ := by
        simp only [Session.step, hresponse, HistoryEntryResponse.searchResult, Option.map_some, Option.getD_some]
      have hawaited : session.Awaited (.answer pending.offset) := ⟨search, pending, h.active, hwaits.awaiting, rfl⟩
      have htotal := h.totalEntries_answer hwaits
      rw [hresponse] at htotal
      cases houtcome with
      | answered result pos' history search known hmove hafter hidle hnone =>
          have hne : result ≠ .pending := by
            have hne := move_ne_pending all (standing all none asked) direction
            rwa [hmove] at hne
          have hrun : Transition.run (Session.step texts log logId query) session ([pending.offset].map .answer) =
              ⟨history, session.asked, session.results ++ settled result⟩ := hstep
          refine ⟨[pending.offset], ⟨hawaited, trivial⟩, by rw [hrun], ?_⟩
          rw [hrun, hresults, hasked, replies_append, hmove, settled_of_ne hne]
      | waiting history search known next hafter hwaits' hmem =>
          have hlt : (following history.totalEntries next.offset direction).length < n := by
            rw [← hn, ← htotal]
            exact length_following_lt (htotal ▸ hmem)
          have hwaiting : session.step texts log logId query (.answer pending.offset) =
              ⟨history, session.asked, session.results⟩ := hstep.trans (by rw [settled, List.append_nil])
          obtain ⟨offsets, hguarded, hsame, hall⟩ :=
            @ih _ hlt search known ⟨history, session.asked, session.results⟩ hasked hresults next hafter hwaits' rfl
          refine ⟨pending.offset :: offsets, ⟨hawaited, ?_⟩, ?_, ?_⟩
          · rw [hwaiting]
            exact hguarded
          · rw [List.map_cons, Transition.run, List.foldl_cons, hwaiting]
            exact hsame
          · rw [List.map_cons, Transition.run, List.foldl_cons, hwaiting]
            exact hall

/-- Whenever no lookup is awaited the results are those of the cursor over the matches. While one is, they are those of
all calls but the last, further calls change nothing, and answering what is awaited ends with the last call answered. -/
theorem session_follows_cursor (texts : Texts D) (log : Nat → Option Str) (logId : Nat) (query : Str)
    (history : ChatComposerHistory D) (hid : 0 < history.historyEntryCount → history.historyLogId = some logId)
    (hlog : FromLog texts log history) (events : List Event) :
    let all := uniqueMatches texts log query history
    let session := Transition.run (Session.step texts log logId query) (.start texts query history) events
    (isAwaiting session.history = false → session.results = replies all none session.asked) ∧
    (isAwaiting session.history = true → session.results = replies all none session.asked.dropLast ∧
      ∀ direction, session.history.searchFor texts query direction false = (.pending, session.history)) ∧
    ∃ offsets : List Nat,
      Transition.Guarded (Session.step texts log logId query) Session.Awaited session (offsets.map .answer) ∧
      (Transition.run (Session.step texts log logId query) session (offsets.map .answer)).asked = session.asked ∧
      (Transition.run (Session.step texts log logId query) session (offsets.map .answer)).results =
        replies all none session.asked := by
  intro all session
  have hfollows : Follows texts log query logId all session :=
    Transition.invariant (fun _ event h => h.step event) (.start hid hlog) events
  cases hfollows with
  | idle search known h hidle hnone hresults =>
      have hawaiting : isAwaiting session.history = false := by rw [isAwaiting_of h.active, hidle]; rfl
      refine ⟨fun _ => hresults, fun hwaiting => ?_, [], trivial, rfl, hresults⟩
      cases hawaiting.symm.trans hwaiting
  | waiting asked direction search known pending hasked h hwaits hresults =>
      have hawaiting : isAwaiting session.history = true := by rw [isAwaiting_of h.active, hwaits.awaiting]; rfl
      refine ⟨fun hidle => ?_, fun _ => ⟨?_, h.call_waiting hwaits⟩, settles hasked hresults h hwaits⟩
      · cases hawaiting.symm.trans hidle
      · rw [hasked, List.dropLast_concat, hresults]

/-- Three entries in a log, of which two are the same, and a local one. -/
def threeLogged : ChatComposerHistory Unit := ⟨some 7, 3, [⟨"abc".toList, ()⟩], fun _ => none, none, none, none, []⟩

def repeatedLog (offset : Nat) : Option Str := ["ab".toList, "b".toList, "ab".toList][offset]?

theorem threeLogged_follows :
    let session := Transition.run (Session.step plainTexts repeatedLog 7 "a".toList)
      (.start plainTexts "a".toList threeLogged)
      [.call .older, .answer 1, .answer 2, .call .older, .answer 1, .answer 0]
    session.results = replies (uniqueMatches plainTexts repeatedLog "a".toList threeLogged) none session.asked := by
  refine (session_follows_cursor plainTexts repeatedLog 7 "a".toList threeLogged (fun _ => rfl) ?_ _).1
    (by decide)
  intro offset entry _ hfetched
  cases hfetched

end Codrex.ComposerHistory
