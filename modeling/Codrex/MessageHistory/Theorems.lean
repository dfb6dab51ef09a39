import Codrex.Lib.Text
import Codrex.Lib.Transition

/-!
# The message history file

`history.jsonl` of the home directory holds one JSON object per line. Every process appends to it under
the file's lock and trims it to its own limit; readers keep the file's identity and its number of
entries, and ask for entries by offset.
-/

namespace Codrex.MessageHistory

open Text

structure HistoryEntry where
  sessionId : Str
  ts : Nat
  text : Str
deriving DecidableEq

/-- What the file operations call: the JSON library, and the soft cap, which the source computes with
floating point numbers. -/
structure Outside where
  toJson : HistoryEntry → Str
  fromJson : Str → Option HistoryEntry
  softCapBytes : Nat → Nat

inductive HistoryPersistence where
  | saveAll
  | none
deriving DecidableEq

structure HistoryConfig where
  persistence : HistoryPersistence
  maxBytes : Option Nat

/-- The file on disk. The identity is its inode or its time of creation, where the platform has one. -/
structure HistoryFile where
  logId : Option Nat
  contents : Str

/-! ## Trimming -/

def trimTargetBytes (outside : Outside) (maxBytes newestEntryLen : Nat) : Nat :=
  max (outside.softCapBytes maxBytes) newestEntryLen

/-- The bytes of the oldest lines to drop: as long as the file is over the target, and never the last
line. -/
def dropLoop (trimTarget : Nat) : List Nat → Nat → Nat
  | len :: next :: rest, currentLen =>
      if trimTarget < currentLen then len + dropLoop trimTarget (next :: rest) (currentLen - len) else 0
  | _, _ => 0

/-- The contents that are left. The file is rewritten in place. -/
def enforceHistoryLimit (outside : Outside) (maxBytes : Option Nat) (contents : Str) : Str :=
  match maxBytes with
  | none => contents
  | some 0 => contents
  | some (limit + 1) =>
      let currentLen := byteLen contents
      if currentLen ≤ limit + 1 then contents
      else
        let lineLengths := (splitInclusiveLines contents).map byteLen
        match lineLengths.getLast? with
        | none => contents
        | some newest =>
            dropBytes contents (dropLoop (trimTargetBytes outside (limit + 1) newest) lineLengths currentLen)

/-! ## Appending -/

/-- One call of `append_entry`. The file gets the identity `logId` if the call creates it, and `locked`
says whether one of the attempts to lock it succeeds. -/
structure Append where
  entry : HistoryEntry
  config : HistoryConfig
  logId : Option Nat
  locked : Bool

def openFile (file : Option HistoryFile) (append : Append) : HistoryFile := file.getD ⟨append.logId, []⟩

def Append.line (outside : Outside) (append : Append) : Str := outside.toJson append.entry ++ ['\n']

def writeLine (outside : Outside) (file : Option HistoryFile) (append : Append) : HistoryFile :=
  let opened := openFile file append
  { opened with contents := opened.contents ++ append.line outside }

def appendEntry (outside : Outside) (file : Option HistoryFile) (append : Append) : Option HistoryFile :=
  match append.config.persistence with
  | .none => file
  | .saveAll =>
      if append.locked then
        let written := writeLine outside file append
        some { written with contents := enforceHistoryLimit outside append.config.maxBytes written.contents }
      else some (openFile file append)

/-! ## Reading -/

def historyMetadata (file : Option HistoryFile) : Nat × Nat :=
  match file with
  | none => (0, 0)
  | some file => (file.logId.getD 0, file.contents.count '\n')

/-- `locked` says whether one of the attempts to lock the file for reading succeeds. -/
def lookup (outside : Outside) (file : Option HistoryFile) (locked : Bool) (logId offset : Nat) :
    Option HistoryEntry := do
  let file ← file
  let currentLogId ← file.logId
  if logId ≠ 0 ∧ currentLogId ≠ logId then none
  else if locked then
    let line ← (lines file.contents)[offset]?
    outside.fromJson line
  else none

end Codrex.MessageHistory

/-!
## What offsets are for

A client takes the metadata once, and addresses the entries it counted by their offsets from then on.
-/

namespace Codrex.MessageHistory

open Text

/-- The file, and the number of lines that trimming has dropped from it so far. -/
structure State where
  file : Option HistoryFile
  trimmed : Nat

def State.contents (state : State) : Str := (state.file.map HistoryFile.contents).getD []

/-- The text that the append leaves if it does not trim. -/
def Append.untrimmed (outside : Outside) (state : State) (append : Append) : Str :=
  match append.config.persistence with
  | .none => state.contents
  | .saveAll => if append.locked then state.contents ++ append.line outside else state.contents

def step (outside : Outside) (state : State) (append : Append) : State :=
  let file := appendEntry outside state.file append
  let left := ((file.map HistoryFile.contents).getD []).count '\n'
  { file, trimmed := state.trimmed + ((append.untrimmed outside state).count '\n' - left) }

/-- The entry on a line of the file. -/
def State.entry (outside : Outside) (state : State) (offset : Nat) : Option HistoryEntry :=
  (lines state.contents)[offset]?.bind outside.fromJson

/-- Offsets of the metadata that was taken at `start` are valid `later`: a lookup gives what the line was
then, and nothing for a line that has been trimmed away. -/
structure OffsetsValid (outside : Outside) (start later : State) : Prop where
  same : ∀ locked offset found, offset < (historyMetadata start.file).2 →
    lookup outside later.file locked (historyMetadata start.file).1 offset = some found →
      start.entry outside offset = some found
  gone : ∀ locked offset, offset < (historyMetadata start.file).2 → start.trimmed + offset < later.trimmed →
    lookup outside later.file locked (historyMetadata start.file).1 offset = none

/-- The append does not write, has no limit, or leaves the file within its limit. -/
def Fits (outside : Outside) (state : State) (append : Append) : Prop :=
  append.config.persistence = .saveAll → append.locked = true → ∀ limit, append.config.maxBytes = some limit →
    limit = 0 ∨ byteLen state.contents + byteLen (append.line outside) ≤ limit

end Codrex.MessageHistory

/-!
## Offsets and trimming

The file is a window on the text that has been written: appending moves its end, trimming its start.
Offsets count from the start, which the file's identity does not tell.
-/

namespace Codrex.MessageHistory

open Text Transition

variable {outside : Outside}

/-! ## One append -/

/-- The bytes that the loop drops are whole lines, and not the last one. -/
theorem dropLoop_eq (target : Nat) (pieces : List Str) (currentLen : Nat) :
    ∃ i, (i = 0 ∨ i < pieces.length) ∧
      dropLoop target (pieces.map byteLen) currentLen = byteLen (pieces.take i).flatten := by
  induction pieces generalizing currentLen with
  | nil => exact ⟨0, .inl rfl, rfl⟩
  | cons piece pieces ih =>
      cases pieces with
      | nil => exact ⟨0, .inl rfl, rfl⟩
      | cons next pieces =>
          by_cases hover : target < currentLen
          · obtain ⟨i, hi, heq⟩ := ih (currentLen - byteLen piece)
            refine ⟨i + 1, .inr ?_, ?_⟩
            · simp only [List.length_cons] at hi ⊢
              omega
            · rw [List.map_cons] at heq
              rw [List.map_cons, List.map_cons, dropLoop, if_pos hover, heq, List.take_succ_cons, List.flatten_cons,
                byteLen_append]
          · refine ⟨0, .inl rfl, ?_⟩
            rw [List.map_cons, List.map_cons, dropLoop, if_neg hover]
            rfl

/-- Trimming drops terminated lines from the start. -/
theorem enforceHistoryLimit_eq (maxBytes : Option Nat) (contents : Str) :
    ∃ dropped, Terminated dropped ∧ contents = dropped ++ enforceHistoryLimit outside maxBytes contents := by
  have hkeep : ∃ dropped, Terminated dropped ∧ contents = dropped ++ contents := ⟨[], Terminated.nil, rfl⟩
  unfold enforceHistoryLimit
  split
  · exact hkeep
  · exact hkeep
  · rename_i limit
    dsimp only
    split
    · exact hkeep
    · split
      · exact hkeep
      · rename_i newest _
        obtain ⟨i, hi, heq⟩ := dropLoop_eq (trimTargetBytes outside (limit + 1) newest) (splitInclusiveLines contents)
          (byteLen contents)
        have hsplit : contents = ((splitInclusiveLines contents).take i).flatten ++
            ((splitInclusiveLines contents).drop i).flatten := by
          rw [← List.flatten_append, List.take_append_drop, flatten_splitInclusiveLines]
        refine ⟨((splitInclusiveLines contents).take i).flatten, ?_, ?_⟩
        · rcases hi with rfl | hi
          · exact Terminated.nil
          · exact terminated_take_splitInclusiveLines contents hi
        · rw [heq]
          have hdrop := dropBytes_byteLen ((splitInclusiveLines contents).take i).flatten
            ((splitInclusiveLines contents).drop i).flatten
          rw [← hsplit] at hdrop
          rw [hdrop]
          exact hsplit

theorem enforceHistoryLimit_of_le {maxBytes : Option Nat} {contents : Str}
    (h : ∀ limit, maxBytes = some limit → limit = 0 ∨ byteLen contents ≤ limit) :
    enforceHistoryLimit outside maxBytes contents = contents := by
  unfold enforceHistoryLimit
  split
  · rfl
  · rfl
  · rename_i limit
    rcases h (limit + 1) rfl with hzero | hle
    · cases hzero
    · exact if_pos hle

theorem contents_openFile (state : State) (append : Append) :
    (openFile state.file append).contents = state.contents := by
  unfold openFile State.contents
  cases state.file with
  | none => rfl
  | some file => rfl

/-- What an append does to the text of the file. -/
theorem contents_step (state : State) (append : Append) :
    (step outside state append).contents =
      if append.config.persistence = .saveAll ∧ append.locked = true then
        enforceHistoryLimit outside append.config.maxBytes (state.contents ++ append.line outside)
      else state.contents := by
  rw [← contents_openFile state append]
  unfold step appendEntry writeLine
  cases hp : append.config.persistence with
  | none =>
      simp only [State.contents, openFile, reduceCtorEq, false_and, ↓reduceIte]
      cases state.file with
      | none => rfl
      | some file => rfl
  | saveAll => cases hl : append.locked <;> simp [State.contents]

theorem untrimmed_eq (state : State) (append : Append) :
    append.untrimmed outside state =
      state.contents ++
        if append.config.persistence = .saveAll ∧ append.locked = true then append.line outside else [] := by
  unfold Append.untrimmed
  cases hp : append.config.persistence with
  | none => simp
  | saveAll => cases hl : append.locked <;> simp

/-! ## Runs -/

/-- What the file holds `later` is what it held at `start` with the text that was written since, less
terminated lines from the start, which are counted. -/
def Window (start later : State) : Prop :=
  ∃ dropped written, Terminated dropped ∧ start.contents ++ written = dropped ++ later.contents ∧
    later.trimmed = start.trimmed + dropped.count '\n'

theorem Window.refl (state : State) : Window state state := ⟨[], [], Terminated.nil, by simp, by simp⟩

theorem Window.trans {first second third : State} (h : Window first second) (h' : Window second third) :
    Window first third := by
  obtain ⟨dropped, written, hterm, htext, hcount⟩ := h
  obtain ⟨dropped', written', hterm', htext', hcount'⟩ := h'
  refine ⟨dropped ++ dropped', written ++ written', hterm.append hterm', ?_, ?_⟩
  · rw [← List.append_assoc, htext, List.append_assoc, htext', List.append_assoc]
  · rw [hcount', hcount, List.count_append, Nat.add_assoc]

theorem window_step (state : State) (append : Append) : Window state (step outside state append) := by
  obtain ⟨dropped, hterm, htext⟩ : ∃ dropped, Terminated dropped ∧
      append.untrimmed outside state = dropped ++ (step outside state append).contents := by
    rw [untrimmed_eq, contents_step]
    split
    · exact enforceHistoryLimit_eq append.config.maxBytes _
    · exact ⟨[], Terminated.nil, by simp⟩
  refine ⟨dropped, _, hterm, (untrimmed_eq state append).symm.trans htext, ?_⟩
  have hcount : (step outside state append).trimmed =
      state.trimmed +
        ((append.untrimmed outside state).count '\n' - (step outside state append).contents.count '\n') := rfl
  rw [hcount, htext, List.count_append, Nat.add_sub_cancel]

theorem window_run (outside : Outside) (start : State) (actions : List Append) :
    Window start (run (step outside) start actions) :=
  invariant (fun state append h => h.trans (window_step state append)) (Window.refl start) actions

theorem trimmed_step {state : State} {append : Append} (h : Fits outside state append) :
    (step outside state append).trimmed = state.trimmed := by
  have hsame : (step outside state append).contents = append.untrimmed outside state := by
    rw [untrimmed_eq, contents_step]
    split
    · rename_i hwrites
      refine enforceHistoryLimit_of_le fun limit hlimit => ?_
      rw [byteLen_append]
      exact h hwrites.1 hwrites.2 limit hlimit
    · simp
  show state.trimmed +
    ((append.untrimmed outside state).count '\n' - (step outside state append).contents.count '\n') = state.trimmed
  rw [hsame, Nat.sub_self, Nat.add_zero]

theorem trimmed_run {start : State} {actions : List Append} (h : Guarded (step outside) (Fits outside) start actions) :
    (run (step outside) start actions).trimmed = start.trimmed := by
  have hstep : ∀ state append, Fits outside state append → state.trimmed = start.trimmed →
      (step outside state append).trimmed = start.trimmed :=
    fun state append hfits hsame => (trimmed_step hfits).trans hsame
  exact h.invariant hstep rfl

/-! ## Lookups -/

theorem historyMetadata_count (state : State) : (historyMetadata state.file).2 = state.contents.count '\n' := by
  unfold historyMetadata State.contents
  cases state.file with
  | none => rfl
  | some file => rfl

theorem entry_of_lookup {state : State} {locked : Bool} {logId offset : Nat} {found : HistoryEntry}
    (h : lookup outside state.file locked logId offset = some found) : state.entry outside offset = some found := by
  unfold lookup at h
  obtain ⟨file, hfile, h⟩ := Option.bind_eq_some_iff.mp h
  obtain ⟨current, -, h⟩ := Option.bind_eq_some_iff.mp h
  split at h
  · cases h
  · split at h
    · rw [State.entry, State.contents, hfile]
      exact h
    · cases h

/-- A lookup counts from where the window starts: the line that is asked for lies behind the lines that
have been trimmed away. -/
theorem lookup_shifted (outside : Outside) (start : State) (actions : List Append) :
    ∃ written, ∀ locked logId offset found,
      lookup outside (run (step outside) start actions).file locked logId offset = some found →
        (lines (start.contents ++ written))[offset + ((run (step outside) start actions).trimmed - start.trimmed)]?.bind
          outside.fromJson = some found := by
  obtain ⟨dropped, written, hterm, htext, hcount⟩ := window_run outside start actions
  refine ⟨written, fun locked logId offset found hfound => ?_⟩
  rw [htext, hterm.lines_append, hcount, Nat.add_sub_cancel_left, ← hterm.length_lines, Nat.add_comm,
    List.getElem?_append_right (Nat.le_add_right _ _), Nat.add_sub_cancel_left]
  exact entry_of_lookup hfound

/-- Offsets stay valid as long as every append leaves the file within the limit of its process. -/
theorem offsets_valid (outside : Outside) (start : State) (actions : List Append)
    (h : (historyMetadata start.file).2 = 0 ∨ Guarded (step outside) (Fits outside) start actions) :
    OffsetsValid outside start (run (step outside) start actions) := by
  rcases h with hnone | hguarded
  · exact ⟨fun _ _ _ hoffset => by omega, fun _ _ hoffset => by omega⟩
  · have htrimmed := trimmed_run hguarded
    refine ⟨?_, fun _ _ _ hgone => by omega⟩
    intro locked offset found hoffset hfound
    obtain ⟨written, hlookup⟩ := lookup_shifted outside start actions
    have hentry := hlookup locked _ offset found hfound
    rw [htrimmed, Nat.sub_self, Nat.add_zero] at hentry
    rw [historyMetadata_count] at hoffset
    rwa [getElem?_lines_append written hoffset] at hentry

/-! ### Two entries -/

/-- What the JSON library writes for strings without characters to escape. -/
def plainJson (entry : HistoryEntry) : Str :=
  "\x7b\"session_id".toList ++ "\":\"".toList ++ entry.sessionId ++ "\",\"ts\":".toList ++
    (Nat.repr entry.ts).toList ++ ",\"text\":\"".toList ++ entry.text ++ "\"\x7d".toList

def firstEntry : HistoryEntry := ⟨"a".toList, 1, "first".toList⟩

def secondEntry : HistoryEntry := ⟨"b".toList, 2, "second".toList⟩

def plainOutside : Outside where
  toJson := plainJson
  fromJson line := [firstEntry, secondEntry].find? fun entry => plainJson entry = line
  softCapBytes maxBytes := max 1 (maxBytes * 4 / 5)

def appendOf (entry : HistoryEntry) (maxBytes : Option Nat) : Append := ⟨entry, ⟨.saveAll, maxBytes⟩, some 7, true⟩

def oneLine : State := step plainOutside ⟨none, 0⟩ (appendOf firstEntry none)

theorem offsets_valid_twoLines :
    Guarded (step plainOutside) (Fits plainOutside) oneLine [appendOf secondEntry (some 100)] ∧
      OffsetsValid plainOutside oneLine (run (step plainOutside) oneLine [appendOf secondEntry (some 100)]) := by
  have hfits : Fits plainOutside oneLine (appendOf secondEntry (some 100)) := by
    intro _ _ limit hlimit
    cases hlimit
    exact .inr (by decide)
  exact ⟨⟨hfits, trivial⟩, offsets_valid plainOutside oneLine _ (.inr ⟨hfits, trivial⟩)⟩

/-- The second append trims the first line in place, and the first line's offset gives the second entry. -/
theorem oneLine_not_valid :
    ¬ OffsetsValid plainOutside oneLine (run (step plainOutside) oneLine [appendOf secondEntry (some 60)]) := by
  intro h
  have hmeta : historyMetadata oneLine.file = (7, 1) := by decide
  have hfound := h.same true 0 secondEntry (by rw [hmeta]; decide) (by rw [hmeta]; decide)
  have hfirst : oneLine.entry plainOutside 0 = some firstEntry := by decide
  rw [hfirst] at hfound
  exact absurd hfound (by decide)

end Codrex.MessageHistory
