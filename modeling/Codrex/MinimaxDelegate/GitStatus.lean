import Codrex.Lib.Utf8
import Codrex.MinimaxDelegate.ContextPacker

/-!
# Reading the status of a work tree (`core/src/minimax_delegate/git_status.rs`)

The records that `git status --porcelain=v1 -z` writes, one for an entry and a second one for an entry that was moved
or copied.
-/

namespace Codrex.MinimaxDelegate

open Text
open Utf8 (Bytes)

/-! ## The parser -/

/-- `char::from` of a byte. -/
def charFrom (byte : UInt8) : Char := .ofNat byte.toNat

/-- The entry reports its source path in a record of its own. -/
def isRenameOrCopy (indexStatus worktreeStatus : Char) : Bool :=
  (indexStatus == 'R' || indexStatus == 'C') || (worktreeStatus == 'R' || worktreeStatus == 'C')

section Parser

-- How the formatting `{:?}` shows a text.
variable (debug : Str → Str)

def unparseableEntry (record : Bytes) : Str :=
  "unparseable git status entry: ".toList ++ debug (Utf8.decodeLossy record)

/-- The statuses and the path of a record. -/
def parseRecord (record : Bytes) : Except Str (Char × Char × Str) :=
  match record with
  | index :: worktree :: space :: bytes =>
      if space ≠ 0x20 then .error (unparseableEntry debug record)
      else match Utf8.text? bytes with
        | none => .error "git status returned a non-utf8 path".toList
        | some path => .ok (charFrom index, charFrom worktree, replace path ['\\'] ['/'])
  | _ => .error (unparseableEntry debug record)

/-- The loop over the records, with the candidates so far. -/
def statusLoop : List Bytes → List GitStatusCandidate → Except Str (List GitStatusCandidate)
  | [], candidates => .ok candidates
  | record :: records, candidates =>
      match parseRecord debug record with
      | .error reason => .error reason
      | .ok (indexStatus, worktreeStatus, path) =>
          if indexStatus = '?' ∧ worktreeStatus = '?' then statusLoop records (candidates ++ [.untracked path])
          else if indexStatus = '!' ∧ worktreeStatus = '!' then statusLoop records candidates
          else
            let pushed := if indexStatus = 'D' ∨ worktreeStatus = 'D' then candidates ++ [.deleted path]
              else candidates ++ [.modified path]
            if isRenameOrCopy indexStatus worktreeStatus then
              match records with
              | [] => .error "git status rename/copy entry was missing the source path".toList
              | _ :: records => statusLoop records pushed
            else statusLoop records pushed

attribute [local simp] statusLoop

def splitRecords (output : Bytes) : List Bytes := (output.splitOn 0).filter (!·.isEmpty)

def parseStatusPorcelainV1Z (output : Bytes) : Except Str (List GitStatusCandidate) :=
  statusLoop debug (splitRecords output) []

end Parser

/-! ## Entries -/

/-- A path with what became of it in the index and in the work tree, and the path that it was moved or copied from. -/
structure StatusEntry where
  index : UInt8
  worktree : UInt8
  path : Str
  source : Option Bytes
  sourced : source.isSome = isRenameOrCopy (charFrom index) (charFrom worktree)

namespace StatusEntry

/-- What is known of the path. The source has no part in it, and an ignored path is left out. -/
def candidate (entry : StatusEntry) : Option GitStatusCandidate :=
  let path := entry.path.map fun c => if c = '\\' then '/' else c
  if charFrom entry.index = '!' ∧ charFrom entry.worktree = '!' then none
  else if charFrom entry.index = '?' ∧ charFrom entry.worktree = '?' then some (.untracked path)
  else if charFrom entry.index = 'D' ∨ charFrom entry.worktree = 'D' then some (.deleted path)
  else some (.modified path)

def records (entry : StatusEntry) : List Bytes :=
  (entry.index :: entry.worktree :: 0x20 :: Utf8.encode entry.path) :: entry.source.toList

end StatusEntry

/-- An entry that can be written: a zero byte ends a record, and stands in none. -/
structure PorcelainEntry extends StatusEntry where
  index_ne : index ≠ 0
  worktree_ne : worktree ≠ 0
  path_ne : path ≠ []
  path_noNul : '\x00' ∉ path
  source_ne : ∀ bytes ∈ source, bytes ≠ []
  source_noNul : ∀ bytes ∈ source, 0 ∉ bytes

def porcelainV1Z (entries : List PorcelainEntry) : Bytes :=
  (entries.flatMap fun entry => entry.records).flatMap (· ++ [0])

/-! ## The loop over entries -/

section Loop

variable (debug : Str → Str)

theorem replace_backslashes (path : Str) :
    replace path ['\\'] ['/'] = path.map fun c => if c = '\\' then '/' else c := by
  rw [replace_singleton]
  apply List.map_congr_left
  intro c _
  simp only [eq_comm]

theorem parseRecord_entry (index worktree : UInt8) (path : Str) :
    parseRecord debug (index :: worktree :: 0x20 :: Utf8.encode path) =
      .ok (charFrom index, charFrom worktree, path.map fun c => if c = '\\' then '/' else c) := by
  simp only [parseRecord, Utf8.text?_encode, replace_backslashes, ne_eq, not_true_eq_false, if_false]

theorem exists_entry_of_parseRecord {record : Bytes} {indexStatus worktreeStatus : Char} {path : Str}
    (h : parseRecord debug record = .ok (indexStatus, worktreeStatus, path)) :
    ∃ (index worktree : UInt8) (text : Str), record = index :: worktree :: 0x20 :: Utf8.encode text ∧
      charFrom index = indexStatus ∧ charFrom worktree = worktreeStatus := by
  match record with
  | [] | [_] | [_, _] => cases h
  | index :: worktree :: space :: bytes =>
      simp only [parseRecord] at h
      split at h
      · cases h
      · rename_i hspace
        obtain rfl : space = 0x20 := not_not.mp hspace
        split at h
        · cases h
        · rename_i text htext
          cases h
          exact ⟨index, worktree, text, by rw [Utf8.text?_eq_some_iff.mp htext], rfl, rfl⟩

/-- The records of an entry, and no more of them, are taken for its candidate. -/
theorem statusLoop_records (entry : StatusEntry) (rest : List Bytes) (candidates : List GitStatusCandidate) :
    statusLoop debug (entry.records ++ rest) candidates =
      statusLoop debug rest (candidates ++ entry.candidate.toList) := by
  obtain ⟨index, worktree, path, source, hsourced⟩ := entry
  have hnone (hsame : isRenameOrCopy (charFrom index) (charFrom worktree) = false) : source.toList = [] := by
    rw [hsame] at hsourced
    have hsource : source = none := Option.not_isSome_iff_eq_none.mp (by rw [hsourced]; exact Bool.false_ne_true)
    rw [hsource, Option.toList_none]
  simp only [StatusEntry.records, StatusEntry.candidate, List.cons_append, statusLoop, parseRecord_entry]
  by_cases huntracked : charFrom index = '?' ∧ charFrom worktree = '?'
  · have hsame : isRenameOrCopy (charFrom index) (charFrom worktree) = false := by
      rw [huntracked.1, huntracked.2]
      rfl
    have hmarked : ¬ (charFrom index = '!' ∧ charFrom worktree = '!') := by
      rw [huntracked.1]
      simp
    rw [if_pos huntracked, if_neg hmarked, if_pos huntracked, hnone hsame]
    rfl
  · rw [if_neg huntracked, if_neg huntracked]
    by_cases hignored : charFrom index = '!' ∧ charFrom worktree = '!'
    · have hsame : isRenameOrCopy (charFrom index) (charFrom worktree) = false := by
        rw [hignored.1, hignored.2]
        rfl
      rw [if_pos hignored, if_pos hignored, hnone hsame, Option.toList_none, List.append_nil]
      rfl
    · rw [if_neg hignored, if_neg hignored]
      -- The record that is skipped is there if and only if the entry has a source.
      cases source with
      | none =>
          rw [← hsourced, if_neg (by simp)]
          split
          · rfl
          · rfl
      | some bytes =>
          rw [← hsourced, Option.isSome_some, if_pos rfl]
          simp only [Option.toList_some, List.cons_append, List.nil_append]
          split
          · rfl
          · rfl

/-- What the loop accepts starts with the records of an entry. -/
theorem exists_entry {record : Bytes} {records : List Bytes} {candidates found : List GitStatusCandidate}
    (h : statusLoop debug (record :: records) candidates = .ok found) :
    ∃ (entry : StatusEntry) (rest : List Bytes), record :: records = entry.records ++ rest := by
  rw [statusLoop.eq_def] at h
  dsimp only at h
  split at h
  · cases h
  · rename_i indexStatus worktreeStatus path hparsed
    obtain ⟨index, worktree, text, rfl, rfl, rfl⟩ := exists_entry_of_parseRecord debug hparsed
    cases hmoved : isRenameOrCopy (charFrom index) (charFrom worktree) with
    | false => exact ⟨⟨index, worktree, text, none, hmoved.symm⟩, records, rfl⟩
    | true =>
        cases records with
        | cons source records => exact ⟨⟨index, worktree, text, some source, hmoved.symm⟩, records, rfl⟩
        | nil =>
            have hother {c : Char} (hsame : isRenameOrCopy c c = false) :
                ¬ (charFrom index = c ∧ charFrom worktree = c) := by
              rintro ⟨hindex, hworktree⟩
              rw [hindex, hworktree, hsame] at hmoved
              cases hmoved
            rw [if_neg (hother rfl), if_neg (hother rfl), if_pos hmoved] at h
            cases h

theorem statusLoop_entries (entries : List StatusEntry) (candidates : List GitStatusCandidate) :
    statusLoop debug (entries.flatMap (·.records)) candidates = .ok (candidates ++ entries.filterMap (·.candidate)) := by
  induction entries generalizing candidates with
  | nil => simp [statusLoop]
  | cons entry entries ih =>
      rw [List.flatMap_cons, statusLoop_records, ih, List.append_assoc, List.filterMap_cons]
      cases entry.candidate with
      | none => rfl
      | some candidate => rfl

/-- The loop accepts the records of entries, and nothing else. -/
theorem statusLoop_eq_ok_iff (records : List Bytes) (candidates found : List GitStatusCandidate) :
    statusLoop debug records candidates = .ok found ↔
      ∃ entries : List StatusEntry, records = entries.flatMap (·.records) ∧
        found = candidates ++ entries.filterMap (·.candidate) := by
  constructor
  · intro h
    induction hlength : records.length using Nat.strong_induction_on generalizing records candidates with
    | _ n ih =>
        cases records with
        | nil =>
            cases h
            exact ⟨[], rfl, by simp⟩
        | cons record records =>
            obtain ⟨entry, rest, hrest⟩ := exists_entry debug h
            have hshorter : rest.length < n := by
              rw [← hlength, hrest, StatusEntry.records]
              simp only [List.cons_append, List.length_cons, List.length_append]
              omega
            rw [hrest, statusLoop_records] at h
            obtain ⟨entries, rfl, rfl⟩ := ih rest.length hshorter rest _ h rfl
            refine ⟨entry :: entries, hrest, ?_⟩
            rw [List.filterMap_cons, List.append_assoc]
            cases entry.candidate with
            | none => rfl
            | some candidate => rfl
  · rintro ⟨entries, rfl, rfl⟩
    exact statusLoop_entries debug entries candidates

end Loop

/-! ## What is written is read back -/

/-- An accepted output is that of entries, whatever their statuses; the candidates are theirs, in their order. -/
theorem parseStatusPorcelainV1Z_eq_ok_iff (debug : Str → Str) (output : Bytes) (found : List GitStatusCandidate) :
    parseStatusPorcelainV1Z debug output = .ok found ↔
      ∃ entries : List StatusEntry, splitRecords output = entries.flatMap (·.records) ∧
        found = entries.filterMap (·.candidate) := by
  rw [parseStatusPorcelainV1Z, statusLoop_eq_ok_iff]
  simp only [List.nil_append]

theorem PorcelainEntry.records_wf (entry : PorcelainEntry) :
    ∀ record ∈ entry.records, record ≠ [] ∧ (0 : UInt8) ∉ record := by
  intro record hrecord
  rw [StatusEntry.records, List.mem_cons, Option.mem_toList] at hrecord
  rcases hrecord with rfl | hsource
  · refine ⟨List.cons_ne_nil _ _, ?_⟩
    simp only [List.mem_cons, not_or]
    refine ⟨entry.index_ne.symm, entry.worktree_ne.symm, by decide, ?_⟩
    intro hmem
    exact entry.path_noNul (Utf8.mem_of_mem_encode (by decide) hmem)
  · exact ⟨entry.source_ne record hsource, entry.source_noNul record hsource⟩

theorem splitRecords_porcelainV1Z (entries : List PorcelainEntry) :
    splitRecords (porcelainV1Z entries) = (entries.map (·.toStatusEntry)).flatMap (·.records) := by
  rw [List.flatMap_map]
  apply filter_splitOn_records
  intro record hrecord
  obtain ⟨entry, -, hmem⟩ := List.mem_flatMap.mp hrecord
  exact entry.records_wf record hmem

/-- What git writes for entries is read as their candidates, in order. The sources of moves and copies, whatever their
bytes look like, are read as no entry. -/
theorem parseStatusPorcelainV1Z_porcelainV1Z (debug : Str → Str) (entries : List PorcelainEntry) :
    parseStatusPorcelainV1Z debug (porcelainV1Z entries) = .ok (entries.filterMap (·.candidate)) := by
  rw [parseStatusPorcelainV1Z_eq_ok_iff]
  refine ⟨entries.map (·.toStatusEntry), splitRecords_porcelainV1Z entries, ?_⟩
  rw [List.filterMap_map]
  rfl

-- The source path of the move looks like an untracked entry.
example : parseStatusPorcelainV1Z id (Utf8.encode "R  new\\name\x00?? old\x00 D gone\x00".toList) =
    .ok [.modified "new/name".toList, .deleted "gone".toList] := by decide +kernel

end Codrex.MinimaxDelegate
