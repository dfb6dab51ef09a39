import Codrex.Lib.Text
import Codrex.Lib.Utf8
import Mathlib.Data.Char
import Mathlib.Data.List.Lex
import Mathlib.Data.List.Nodup
import Mathlib.Data.List.Perm.Basic

/-!
# Listing a directory (`core/src/tools/handlers/list_dir.rs`)
-/

namespace Codrex.ListDir

open Text

/-! ## Names -/

/-- The name of a directory entry. -/
structure FileName where
  bytes : List UInt8
  valid : bytes ≠ [] ∧ bytes ≠ [46] ∧ bytes ≠ [46, 46] ∧ 47 ∉ bytes
  deriving DecidableEq

def FileName.toStringLossy (name : FileName) : Str := Utf8.decodeLossy name.bytes

/-- The names of a path, from the listed directory or from the root on. -/
abbrev PathNames := List FileName

/-- A separator is part of no character, so a path is read name by name. -/
def toStringLossy (path : PathNames) : Str := ['/'].intercalate (path.map FileName.toStringLossy)

def maxEntryLength : Nat := 500

def indentationSpaces : Nat := 2

def formatEntryName (path : PathNames) : Str :=
  fittingChars (replace (toStringLossy path) ['\\'] ['/']) maxEntryLength

def formatEntryComponent (name : FileName) : Str := fittingChars name.toStringLossy maxEntryLength

/-! ## Entries -/

inductive DirEntryKind
  | directory
  | file
  | symlink
  | other
  deriving DecidableEq

/-- An entry with its path below the listed directory, which tells it apart. -/
structure DirEntry where
  relativePath : PathNames
  name : Str
  displayName : Str
  depth : Nat
  kind : DirEntryKind
  deriving DecidableEq

def formatEntryLine (entry : DirEntry) : Str :=
  let name := entry.displayName ++
    match entry.kind with
    | .directory => ['/']
    | .symlink => ['@']
    | .other => ['?']
    | .file => []
  List.replicate (entry.depth * indentationSpaces) ' ' ++ name

/-- `sort_unstable_by` with the names. The order of entries with one name is left open. -/
structure SortUnstable where
  sort : List DirEntry → List DirEntry
  perm : ∀ entries, (sort entries).Perm entries
  sorted : ∀ entries, (sort entries).Pairwise fun first second => first.name ≤ second.name

/-! ## Reading -/

structure DirItem where
  fileName : FileName
  fileType : Except Str DirEntryKind

/-- What reading a directory and going through its entries gives. -/
abbrev Disk := PathNames → Except Str (List (Except Str DirItem))

abbrev ReadDenyMatcher := PathNames → Bool

def isReadDenied (readDenyMatcher : Option ReadDenyMatcher) (path : PathNames) : Bool :=
  readDenyMatcher.any fun matcher => matcher path

def makeEntry (relativePrefix : PathNames) (fileName : FileName) (kind : DirEntryKind) : DirEntry where
  relativePath := relativePrefix ++ [fileName]
  name := formatEntryName (relativePrefix ++ [fileName])
  displayName := formatEntryComponent fileName
  depth := relativePrefix.length
  kind := kind

section Collecting

variable (sort : SortUnstable) (disk : Disk) (readDenyMatcher : Option ReadDenyMatcher)

def readEntries (currentDir relativePrefix : PathNames) : List (Except Str DirItem) → Except Str (List DirEntry)
  | [] => .ok []
  | .error err :: _ => .error ("failed to read directory: ".toList ++ err)
  | .ok item :: rest =>
      if isReadDenied readDenyMatcher (currentDir ++ [item.fileName]) then readEntries currentDir relativePrefix rest
      else
        match item.fileType with
        | .error err => .error ("failed to inspect entry: ".toList ++ err)
        | .ok kind => do
            let entries ← readEntries currentDir relativePrefix rest
            .ok (makeEntry relativePrefix item.fileName kind :: entries)

def readDirectory (currentDir relativePrefix : PathNames) : Except Str (List DirEntry) :=
  match disk currentDir with
  | .error err => .error ("failed to read directory: ".toList ++ err)
  | .ok items => readEntries readDenyMatcher currentDir relativePrefix items

def childDirectories (entries : List DirEntry) : List PathNames :=
  (entries.filter fun entry => entry.kind = .directory).map DirEntry.relativePath

/-- As many directories at least are read from here on. -/
def readsBelow (dirPath : PathNames) : Nat → PathNames → Nat
  | 0, _ => 1
  | depth + 1, relativePrefix =>
      match readDirectory disk readDenyMatcher (dirPath ++ relativePrefix) relativePrefix with
      | .error _ => 1
      | .ok entries => 1 + ((childDirectories entries).map (readsBelow dirPath depth)).sum

/-- The queue holds prefixes with what remains of the depth. Each turn reads a directory. -/
def collectLoop (dirPath : PathNames) : Nat → List (PathNames × Nat) → List DirEntry → Except Str (List DirEntry)
  | 0, _, entries => .ok entries
  | _, [], entries => .ok entries
  | fuel + 1, (relativePrefix, remainingDepth) :: queue, entries => do
      let dirEntries ← readDirectory disk readDenyMatcher (dirPath ++ relativePrefix) relativePrefix
      let dirEntries := sort.sort dirEntries
      let found := if remainingDepth > 1 then childDirectories dirEntries else []
      collectLoop dirPath fuel (queue ++ found.map fun path => (path, remainingDepth - 1)) (entries ++ dirEntries)

def collectEntries (dirPath : PathNames) (depth : Nat) : Except Str (List DirEntry) :=
  collectLoop sort disk readDenyMatcher dirPath (readsBelow disk readDenyMatcher dirPath depth []) [([], depth)] []

/-! ## Pages -/

/-- The entries in the order of the listing. -/
def sortedEntries (path : PathNames) (depth : Nat) : Except Str (List DirEntry) := do
  let entries ← collectEntries sort disk readDenyMatcher path depth
  .ok (sort.sort entries)

def listDirSliceWithPolicy (path : PathNames) (offset limit depth : Nat) : Except Str (List Str) := do
  let entries ← sortedEntries sort disk readDenyMatcher path depth
  if entries = [] then .ok []
  else
    let startIndex := offset - 1
    if startIndex ≥ entries.length then .error "offset exceeds directory entry count".toList
    else
      let cappedLimit := min limit (entries.length - startIndex)
      let endIndex := startIndex + cappedLimit
      let formatted := ((entries.drop startIndex).take cappedLimit).map formatEntryLine
      .ok (formatted ++
        if endIndex < entries.length then
          ["More than ".toList ++ (Nat.repr cappedLimit).toList ++ " entries found".toList]
        else [])

end Collecting

/-! ## What a listing is for -/

/-- A directory tree that can be read. -/
structure DirTree where
  entries : PathNames → List (FileName × DirEntryKind)
  distinct : ∀ path, ((entries path).map Prod.fst).Nodup

def DirTree.disk (tree : DirTree) : Disk :=
  fun path => .ok ((tree.entries path).map fun entry => .ok ⟨entry.1, .ok entry.2⟩)

/-- Every name is shorter than the limit and has no backslash. -/
def DirTree.Plain (tree : DirTree) : Prop :=
  ∀ path, ∀ entry ∈ tree.entries path, entry.1.bytes.length < maxEntryLength ∧ 92 ∉ entry.1.bytes

/-- An entry of the directory that is not denied. -/
def DirTree.Shows (tree : DirTree) (readDenyMatcher : Option ReadDenyMatcher) (dir : PathNames) (name : FileName)
    (kind : DirEntryKind) : Prop :=
  (name, kind) ∈ tree.entries dir ∧ isReadDenied readDenyMatcher (dir ++ [name]) = false

/-- The path leads through directories that are not denied to an entry that is not too deep. -/
def DirTree.Visible (tree : DirTree) (readDenyMatcher : Option ReadDenyMatcher) :
    PathNames → Nat → PathNames → DirEntryKind → Prop
  | dir, depth + 1, name :: rest, kind =>
      if rest = [] then tree.Shows readDenyMatcher dir name kind
      else tree.Shows readDenyMatcher dir name .directory ∧ tree.Visible readDenyMatcher (dir ++ [name]) depth rest kind
  | _, _, _, _ => False

/-- The nearest line in front that is one level up is the line of the parent. -/
def UnderParents (entries : List DirEntry) : Prop :=
  ∀ before entry after, entries = before ++ entry :: after → 0 < entry.depth →
    ((before.filter fun other => other.depth + 1 = entry.depth).getLast?).map DirEntry.relativePath =
      some entry.relativePath.dropLast

/-- The pages after each other give the lines, each but the last with a note behind it. -/
def Pages (slice : Nat → Except Str (List Str)) (limit : Nat) (lines : List Str) : Prop :=
  ∃ pages : List (List Str), pages.flatten = lines ∧ ∀ index page, pages[index]? = some page →
    slice (1 + index * limit) = .ok (page ++ if index + 1 < pages.length then
      ["More than ".toList ++ (Nat.repr limit).toList ++ " entries found".toList] else [])

/-- The listing is a faithful tree. -/
def ListsTree (sort : SortUnstable) (tree : DirTree) (readDenyMatcher : Option ReadDenyMatcher) (path : PathNames)
    (depth : Nat) : Prop :=
  ∃ entries, sortedEntries sort tree.disk readDenyMatcher path depth = .ok entries ∧
    (entries.map DirEntry.relativePath).Nodup ∧
    (∀ relativePath kind, (∃ entry ∈ entries, entry.relativePath = relativePath ∧ entry.kind = kind) ↔
      tree.Visible readDenyMatcher path depth relativePath kind) ∧
    UnderParents entries ∧
    (∀ entry ∈ entries, ∀ before, before <+: entry.relativePath → before ≠ [] →
      isReadDenied readDenyMatcher (path ++ before) = false) ∧
    (∀ limit ≥ entries.length, listDirSliceWithPolicy sort tree.disk readDenyMatcher path 1 limit depth =
      .ok (entries.map formatEntryLine)) ∧
    ∀ limit > 0, Pages (fun offset => listDirSliceWithPolicy sort tree.disk readDenyMatcher path offset limit depth) limit
      (entries.map formatEntryLine)

/-- The sort key of the sibling continues the path with nothing, or with a character that sorts before the separator. -/
def SortsBetween (directory sibling : PathNames) : Prop :=
  ∃ rest, formatEntryName sibling = toStringLossy directory ++ rest ∧ ∀ c ∈ rest.head?, c < '/'

/-- No directory with something below it has a path that is as long as a sort key, or a sibling that sorts between it and
what is below it. -/
def Separated (tree : DirTree) (readDenyMatcher : Option ReadDenyMatcher) (path : PathNames) (depth : Nat) : Prop :=
  ∀ parent name child kind, tree.Visible readDenyMatcher path depth (parent ++ [name, child]) kind →
    byteLen (toStringLossy (parent ++ [name])) < maxEntryLength ∧
      ∀ sibling siblingKind, tree.Visible readDenyMatcher path depth (parent ++ [sibling]) siblingKind → sibling ≠ name →
        ¬ SortsBetween (parent ++ [name]) (parent ++ [sibling])

end Codrex.ListDir

/-!
## What a listing collects
-/

namespace Codrex.ListDir

open Text

variable {sort : SortUnstable} {tree : DirTree} {readDenyMatcher : Option ReadDenyMatcher} {path : PathNames}
  {depth : Nat} {kind : DirEntryKind} {entries : List DirEntry}

/-! ## Reading -/

/-- The entries of a directory that are not denied. -/
def DirTree.shown (tree : DirTree) (readDenyMatcher : Option ReadDenyMatcher) (dir : PathNames) :
    List (FileName × DirEntryKind) :=
  (tree.entries dir).filter fun entry => !isReadDenied readDenyMatcher (dir ++ [entry.1])

theorem mem_shown {dir : PathNames} {name : FileName} :
    (name, kind) ∈ tree.shown readDenyMatcher dir ↔ tree.Shows readDenyMatcher dir name kind := by
  simp [DirTree.shown, DirTree.Shows]

theorem readDirectory_disk (dir relativePrefix : PathNames) :
    readDirectory tree.disk readDenyMatcher dir relativePrefix =
      .ok ((tree.shown readDenyMatcher dir).map fun entry => makeEntry relativePrefix entry.1 entry.2) := by
  rw [readDirectory, DirTree.disk, DirTree.shown]
  dsimp only
  induction tree.entries dir with
  | nil => rfl
  | cons entry rest ih =>
      rw [List.map_cons, readEntries]
      cases hdenied : isReadDenied readDenyMatcher (dir ++ [entry.1]) with
      | true => simpa [hdenied] using ih
      | false =>
          simp only [Bool.false_eq_true, if_false]
          rw [ih]
          simp [hdenied, bind, Except.bind]

/-- The entries below a prefix, down to a depth. -/
def DirTree.below (tree : DirTree) (readDenyMatcher : Option ReadDenyMatcher) (path : PathNames) :
    Nat → PathNames → List DirEntry
  | 0, _ => []
  | depth + 1, relativePrefix =>
      (tree.shown readDenyMatcher (path ++ relativePrefix)).flatMap fun entry =>
        makeEntry relativePrefix entry.1 entry.2 ::
          if entry.2 = .directory then tree.below readDenyMatcher path depth (relativePrefix ++ [entry.1]) else []

theorem flatMap_cons_perm {α β : Type} (f : α → β) (g : α → List β) (l : List α) :
    (l.flatMap fun a => f a :: g a).Perm (l.map f ++ l.flatMap g) := by
  induction l with
  | nil => exact .refl _
  | cons a l ih =>
      rw [List.flatMap_cons, List.flatMap_cons, List.map_cons, List.cons_append, List.cons_append]
      refine .cons _ ((ih.append_left _).trans ?_)
      rw [← List.append_assoc, ← List.append_assoc]
      exact List.perm_append_comm.append_right _

theorem childDirectories_map (relativePrefix : PathNames) (entries : List (FileName × DirEntryKind)) :
    childDirectories (entries.map fun entry => makeEntry relativePrefix entry.1 entry.2) =
      (entries.filter fun entry => entry.2 = .directory).map fun entry => relativePrefix ++ [entry.1] := by
  rw [childDirectories, List.filter_map, List.map_map]
  rfl

theorem flatMap_ite_filter {α β : Type} (p : α → Prop) [DecidablePred p] (g : α → List β) (l : List α) :
    (l.flatMap fun a => if p a then g a else []) = (l.filter p).flatMap g := by
  induction l with
  | nil => rfl
  | cons a l ih =>
      rw [List.flatMap_cons, ih, List.filter_cons]
      by_cases hp : p a <;> simp [hp]

theorem below_perm (relativePrefix : PathNames) {dirEntries : List DirEntry}
    (hread : readDirectory tree.disk readDenyMatcher (path ++ relativePrefix) relativePrefix = .ok dirEntries) :
    (tree.below readDenyMatcher path (depth + 1) relativePrefix).Perm
      (dirEntries ++ (childDirectories dirEntries).flatMap (tree.below readDenyMatcher path depth)) := by
  rw [readDirectory_disk, Except.ok.injEq] at hread
  subst hread
  rw [DirTree.below, childDirectories_map, List.flatMap_map]
  refine (flatMap_cons_perm _ _ _).trans (.append_left _ ?_)
  rw [flatMap_ite_filter fun entry : FileName × DirEntryKind => entry.2 = .directory]

theorem childDirectories_perm {others : List DirEntry} (h : entries.Perm others) :
    (childDirectories entries).Perm (childDirectories others) := (h.filter _).map _

theorem readsBelow_pos (relativePrefix : PathNames) :
    0 < readsBelow tree.disk readDenyMatcher path depth relativePrefix := by
  cases depth with
  | zero => exact Nat.one_pos
  | succ depth =>
      rw [readsBelow]
      split <;> omega

/-- What is queued for the directories of a directory is what is below them. At the end of the depth nothing is. -/
theorem queued {remainingDepth : Nat} {dirEntries sorted : List DirEntry} (hperm : sorted.Perm dirEntries) :
    let found := (if remainingDepth + 1 > 1 then childDirectories sorted else []).map fun path => (path, remainingDepth)
    (∀ item ∈ found, 0 < item.2) ∧
      (found.map fun item => readsBelow tree.disk readDenyMatcher path item.2 item.1).sum ≤
        ((childDirectories dirEntries).map (readsBelow tree.disk readDenyMatcher path remainingDepth)).sum ∧
      (found.flatMap fun item => tree.below readDenyMatcher path item.2 item.1).Perm
        ((childDirectories dirEntries).flatMap (tree.below readDenyMatcher path remainingDepth)) := by
  have hdirectories := childDirectories_perm hperm
  cases remainingDepth with
  | zero => simp [DirTree.below]
  | succ remainingDepth =>
      rw [if_pos (Nat.succ_lt_succ (Nat.succ_pos _))]
      refine ⟨?_, ?_, ?_⟩
      · intro item hitem
        obtain ⟨_, -, rfl⟩ := List.mem_map.mp hitem
        exact Nat.succ_pos _
      · rw [List.map_map]
        exact Nat.le_of_eq (hdirectories.map _).sum_nat
      · rw [List.flatMap_map]
        exact hdirectories.flatMap_right _

/-- With enough turns the loop collects what is below the prefixes in the queue. -/
theorem collectLoop_perm (fuel : Nat) {queue : List (PathNames × Nat)} (hdepth : ∀ item ∈ queue, 0 < item.2)
    (hfuel : (queue.map fun item => readsBelow tree.disk readDenyMatcher path item.2 item.1).sum ≤ fuel)
    (entries : List DirEntry) :
    ∃ result, collectLoop sort tree.disk readDenyMatcher path fuel queue entries = .ok (entries ++ result) ∧
      result.Perm (queue.flatMap fun item => tree.below readDenyMatcher path item.2 item.1) := by
  induction fuel generalizing queue entries with
  | zero =>
      cases queue with
      | nil => exact ⟨[], by rw [collectLoop, List.append_nil], .refl _⟩
      | cons item queue =>
          have := @readsBelow_pos tree readDenyMatcher path item.2 item.1
          rw [List.map_cons, List.sum_cons] at hfuel
          omega
  | succ fuel ih =>
      cases queue with
      | nil => exact ⟨[], by simp [collectLoop], .refl _⟩
      | cons item queue =>
          obtain ⟨relativePrefix, remainingDepth⟩ := item
          have hpos := hdepth _ List.mem_cons_self
          obtain ⟨remainingDepth, rfl⟩ := Nat.exists_eq_succ_of_ne_zero (Nat.ne_of_gt hpos)
          obtain ⟨dirEntries, hread⟩ : ∃ dirEntries,
              readDirectory tree.disk readDenyMatcher (path ++ relativePrefix) relativePrefix = .ok dirEntries :=
            ⟨_, readDirectory_disk _ _⟩
          have hsorted := sort.perm dirEntries
          have hbelow := @below_perm tree readDenyMatcher path remainingDepth relativePrefix dirEntries hread
          obtain ⟨hfoundDepth, hfoundFuel, hfound⟩ :=
            @queued tree readDenyMatcher path remainingDepth dirEntries _ hsorted
          rw [List.map_cons, List.sum_cons, readsBelow, hread] at hfuel
          dsimp only at hfuel
          rw [collectLoop, hread]
          simp only [bind, Except.bind, Nat.succ_eq_add_one, Nat.add_sub_cancel]
          generalize (if remainingDepth + 1 > 1 then childDirectories (sort.sort dirEntries) else []).map
            (fun path => (path, remainingDepth)) = found at *
          obtain ⟨result, hresult, hperm⟩ := @ih (queue ++ found) (by
            intro item hitem
            rcases List.mem_append.mp hitem with hold | hnew
            · exact hdepth item (List.mem_cons_of_mem _ hold)
            · exact hfoundDepth item hnew) (by
            rw [List.map_append, List.sum_append]
            omega) (entries ++ sort.sort dirEntries)
          refine ⟨sort.sort dirEntries ++ result, by rw [hresult, List.append_assoc], ?_⟩
          rw [List.flatMap_append] at hperm
          rw [List.flatMap_cons]
          have hcollected := hsorted.append (hperm.trans (hfound.append_left _))
          refine hcollected.trans ((List.perm_append_comm.append_left _).trans ?_)
          rw [← List.append_assoc]
          exact hbelow.symm.append_right _

theorem sortedEntries_perm (hdepth : 0 < depth) :
    ∃ entries, sortedEntries sort tree.disk readDenyMatcher path depth = .ok entries ∧
      entries.Perm (tree.below readDenyMatcher path depth []) ∧
      entries.Pairwise fun first second => first.name ≤ second.name := by
  obtain ⟨result, hresult, hperm⟩ := @collectLoop_perm sort tree readDenyMatcher path
    (readsBelow tree.disk readDenyMatcher path depth []) [([], depth)] (by simpa using hdepth) (by simp) []
  refine ⟨sort.sort result, ?_, (sort.perm result).trans (by simpa using hperm), sort.sorted result⟩
  rw [sortedEntries, collectEntries, hresult]
  rfl

/-! ## What is visible -/

theorem not_visible_nil (dir : PathNames) (kind : DirEntryKind) : ¬ tree.Visible readDenyMatcher dir depth [] kind := by
  cases depth <;> simp [DirTree.Visible]

theorem visible_cons {dir rest : PathNames} {name : FileName} :
    tree.Visible readDenyMatcher dir (depth + 1) (name :: rest) kind ↔
      rest = [] ∧ tree.Shows readDenyMatcher dir name kind ∨
        tree.Shows readDenyMatcher dir name .directory ∧
          tree.Visible readDenyMatcher (dir ++ [name]) depth rest kind := by
  rw [DirTree.Visible]
  split
  next hnil =>
    subst hnil
    simp [not_visible_nil]
  next hne => simp [hne]

/-- What leads to something visible is a visible directory. -/
theorem visible_front {dir front rest : PathNames} (hfront : front ≠ []) (hrest : rest ≠ [])
    (h : tree.Visible readDenyMatcher dir depth (front ++ rest) kind) :
    tree.Visible readDenyMatcher dir depth front .directory := by
  induction front generalizing dir depth with
  | nil => exact absurd rfl hfront
  | cons name front ih =>
      cases depth with
      | zero => exact h.elim
      | succ depth =>
          rw [List.cons_append, visible_cons] at h
          rw [visible_cons]
          rcases h with ⟨hnil, -⟩ | ⟨hshows, hbelow⟩
          · exact absurd (List.append_eq_nil_iff.mp hnil).2 hrest
          · by_cases hnil : front = []
            · exact .inl ⟨hnil, hshows⟩
            · exact .inr ⟨hshows, ih hnil hbelow⟩

theorem visible_not_denied {dir front rest : PathNames} (hfront : front ≠ [])
    (h : tree.Visible readDenyMatcher dir depth (front ++ rest) kind) :
    isReadDenied readDenyMatcher (dir ++ front) = false := by
  induction front generalizing dir depth with
  | nil => exact absurd rfl hfront
  | cons name front ih =>
      cases depth with
      | zero => exact h.elim
      | succ depth =>
          rw [List.cons_append, visible_cons] at h
          by_cases hnil : front = []
          · subst hnil
            rcases h with ⟨-, hshows⟩ | ⟨hshows, -⟩ <;> exact hshows.2
          · rcases h with ⟨hempty, -⟩ | ⟨-, hbelow⟩
            · exact absurd (List.append_eq_nil_iff.mp hempty).1 hnil
            · have := ih hnil hbelow
              rwa [List.append_assoc] at this

/-- The entry of a path. -/
def entryAt (path : PathNames) (kind : DirEntryKind) : Option DirEntry :=
  path.getLast?.map fun name => makeEntry path.dropLast name kind

theorem entryAt_concat (relativePrefix : PathNames) (name : FileName) (kind : DirEntryKind) :
    entryAt (relativePrefix ++ [name]) kind = some (makeEntry relativePrefix name kind) := by
  simp [entryAt]

theorem mem_below {relativePrefix : PathNames} {entry : DirEntry} :
    entry ∈ tree.below readDenyMatcher path depth relativePrefix ↔ ∃ rest kind,
      tree.Visible readDenyMatcher (path ++ relativePrefix) depth rest kind ∧
        entryAt (relativePrefix ++ rest) kind = some entry := by
  induction depth generalizing relativePrefix with
  | zero => simp [DirTree.below, DirTree.Visible]
  | succ depth ih =>
      rw [DirTree.below, List.mem_flatMap]
      constructor
      · rintro ⟨⟨name, kind⟩, hshown, hentry⟩
        have hshows := mem_shown.mp hshown
        rcases List.mem_cons.mp hentry with rfl | hbelow
        · exact ⟨[name], kind, visible_cons.mpr (.inl ⟨rfl, hshows⟩), entryAt_concat _ _ _⟩
        · split at hbelow
          next hkind =>
            dsimp only at hkind
            subst hkind
            obtain ⟨rest, kind, hvisible, hat⟩ := ih.mp hbelow
            rw [← List.append_assoc] at hvisible
            refine ⟨name :: rest, kind, visible_cons.mpr (.inr ⟨hshows, hvisible⟩), ?_⟩
            rwa [List.append_assoc] at hat
          next => cases hbelow
      · rintro ⟨rest, kind, hvisible, hat⟩
        cases rest with
        | nil => exact absurd hvisible (not_visible_nil _ _)
        | cons name rest =>
            rcases visible_cons.mp hvisible with ⟨rfl, hshows⟩ | ⟨hshows, hbelow⟩
            · refine ⟨(name, kind), mem_shown.mpr hshows, ?_⟩
              rw [entryAt_concat, Option.some.injEq] at hat
              exact hat ▸ List.mem_cons_self
            · refine ⟨(name, .directory), mem_shown.mpr hshows, List.mem_cons_of_mem _ ?_⟩
              rw [if_pos rfl, ih]
              refine ⟨rest, kind, ?_, ?_⟩
              · rwa [← List.append_assoc]
              · rwa [List.append_assoc]

theorem relativePath_of_entryAt {relativePath : PathNames} {entry : DirEntry}
    (h : entryAt relativePath kind = some entry) : entry.relativePath = relativePath ∧ entry.kind = kind ∧
    entry.depth + 1 = relativePath.length ∧ entry.name = formatEntryName relativePath := by
  rcases List.eq_nil_or_concat' relativePath with rfl | ⟨front, name, rfl⟩
  · cases h
  · rw [entryAt_concat, Option.some.injEq] at h
    subst h
    simp [makeEntry]

theorem starts_of_mem_below {relativePrefix : PathNames} {entry : DirEntry}
    (h : entry ∈ tree.below readDenyMatcher path depth relativePrefix) :
    ∃ rest ≠ [], entry.relativePath = relativePrefix ++ rest := by
  obtain ⟨rest, kind, hvisible, hat⟩ := mem_below.mp h
  refine ⟨rest, ?_, (relativePath_of_entryAt hat).1⟩
  rintro rfl
  exact not_visible_nil _ _ hvisible

/-- Everything that an entry of a directory leads to begins with its path. -/
theorem starts_of_mem_group {relativePrefix relativePath : PathNames} {entry : FileName × DirEntryKind}
    (h : relativePath ∈ (makeEntry relativePrefix entry.1 entry.2 ::
      if entry.2 = .directory then tree.below readDenyMatcher path depth (relativePrefix ++ [entry.1])
      else []).map DirEntry.relativePath) :
    ∃ rest, relativePath = relativePrefix ++ [entry.1] ++ rest := by
  rw [List.map_cons] at h
  rcases List.mem_cons.mp h with rfl | hbelow
  · exact ⟨[], (List.append_nil _).symm⟩
  · obtain ⟨found, hmem, rfl⟩ := List.mem_map.mp hbelow
    split at hmem
    · obtain ⟨rest, -, hrest⟩ := starts_of_mem_below hmem
      exact ⟨rest, hrest⟩
    · cases hmem

theorem nodup_below (relativePrefix : PathNames) :
    ((tree.below readDenyMatcher path depth relativePrefix).map DirEntry.relativePath).Nodup := by
  induction depth generalizing relativePrefix with
  | zero => exact List.nodup_nil
  | succ depth ih =>
      rw [DirTree.below, List.map_flatMap, List.nodup_flatMap]
      constructor
      · intro entry _
        rw [List.map_cons, List.nodup_cons]
        split
        · refine ⟨?_, ih _⟩
          intro hmem
          obtain ⟨found, hfound, hsame⟩ := List.mem_map.mp hmem
          obtain ⟨rest, hne, hrest⟩ := starts_of_mem_below hfound
          rw [hrest] at hsame
          exact hne (List.self_eq_append_right.mp hsame.symm)
        · simp
      · have hnames : (tree.shown readDenyMatcher (path ++ relativePrefix)).Pairwise fun first second =>
            first.1 ≠ second.1 := (List.pairwise_map.mp (tree.distinct _)).filter _
        refine hnames.imp ?_
        intro first second hne relativePath hfirst hsecond
        obtain ⟨rest, hrest⟩ := starts_of_mem_group hfirst
        obtain ⟨other, hother⟩ := starts_of_mem_group hsecond
        rw [hrest, List.append_assoc, List.append_assoc, List.append_right_inj] at hother
        exact hne (List.cons.inj hother).1

/-! ## Pages -/

theorem slice_eq {disk : Disk} (hentries : sortedEntries sort disk readDenyMatcher path depth = .ok entries)
    {start limit : Nat} (hstart : start < entries.length) :
    listDirSliceWithPolicy sort disk readDenyMatcher path (1 + start) limit depth =
      .ok (((entries.map formatEntryLine).drop start).take limit ++
        if start + limit < entries.length then
          ["More than ".toList ++ (Nat.repr limit).toList ++ " entries found".toList]
        else []) := by
  have hne : entries ≠ [] := List.ne_nil_of_length_pos (Nat.lt_of_le_of_lt (Nat.zero_le _) hstart)
  rw [listDirSliceWithPolicy, hentries]
  simp only [bind, Except.bind, hne, if_false, Nat.add_sub_cancel_left]
  rw [if_neg (by omega), List.map_take, List.map_drop]
  by_cases hle : limit ≤ entries.length - start
  · rw [Nat.min_eq_left hle]
  · have htake : ((entries.map formatEntryLine).drop start).take (entries.length - start) =
        ((entries.map formatEntryLine).drop start).take limit := by
      rw [List.take_of_length_le (by simp), List.take_of_length_le (by simp; omega)]
    rw [Nat.min_eq_right (by omega), htake, if_neg (by omega), if_neg (by omega)]

theorem slice_whole {disk : Disk} (hentries : sortedEntries sort disk readDenyMatcher path depth = .ok entries)
    {limit : Nat} (hlimit : entries.length ≤ limit) :
    listDirSliceWithPolicy sort disk readDenyMatcher path 1 limit depth = .ok (entries.map formatEntryLine) := by
  by_cases hne : entries = []
  · subst hne
    rw [listDirSliceWithPolicy, hentries]
    rfl
  · rw [slice_eq hentries (List.length_pos_iff.mpr hne), if_neg (by omega), List.drop_zero, List.append_nil,
      List.take_of_length_le (by simpa using hlimit)]

theorem flatten_pages {α : Type} (lines : List α) (limit count : Nat) :
    ((List.range count).map fun index => (lines.drop (index * limit)).take limit).flatten = lines.take (count * limit) := by
  induction count with
  | zero => simp
  | succ count ih =>
      rw [List.range_succ, List.map_append, List.flatten_append, ih, Nat.succ_mul, List.take_add]
      simp

theorem lt_count_iff {index length limit : Nat} (hlimit : 0 < limit) :
    index < (length + limit - 1) / limit ↔ index * limit < length := by
  rw [← Nat.succ_le_iff, Nat.le_div_iff_mul_le hlimit, Nat.succ_mul]
  omega

theorem pages_slice {disk : Disk} (hentries : sortedEntries sort disk readDenyMatcher path depth = .ok entries)
    {limit : Nat} (hlimit : 0 < limit) :
    Pages (fun offset => listDirSliceWithPolicy sort disk readDenyMatcher path offset limit depth) limit
      (entries.map formatEntryLine) := by
  have hcount (index : Nat) := @lt_count_iff index entries.length limit hlimit
  generalize (entries.length + limit - 1) / limit = count at hcount
  refine ⟨(List.range count).map fun index => ((entries.map formatEntryLine).drop (index * limit)).take limit, ?_, ?_⟩
  · rw [flatten_pages, List.take_of_length_le]
    have := (not_congr (hcount count)).mp (Nat.lt_irrefl _)
    rw [List.length_map]
    omega
  · intro index page hpage
    rw [List.getElem?_map, Option.map_eq_some_iff] at hpage
    obtain ⟨_, hindex, rfl⟩ := hpage
    obtain ⟨hlt, rfl⟩ := List.getElem?_eq_some_iff.mp hindex
    rw [List.getElem_range]
    rw [List.length_range] at hlt
    dsimp only
    rw [slice_eq hentries ((hcount index).mp hlt), List.length_map, List.length_range]
    have hnext := hcount (index + 1)
    rw [Nat.succ_mul] at hnext
    simp only [hnext]

end Codrex.ListDir
