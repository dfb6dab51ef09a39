import Codrex.AbsolutePath
import Codrex.Lib.Utf8
import Mathlib.Logic.Function.Basic

/-!
# The diff of a turn (`core/src/turn_diff_tracker.rs`)

The tracker is told of each patch before it is applied. It keeps the files as they were when a patch first touched
them, and follows their moves by an internal name.
-/

namespace Codrex.TurnDiff

open Text Utf8

/-- `FileChange` of the protocol. -/
inductive FileChange
  | add (content : Str)
  | delete (content : Str)
  | update (unifiedDiff : Str) (movePath : Option AbsolutePathBuf)
  deriving DecidableEq

inductive FileMode
  | regular
  | executable
  | symlink
  deriving DecidableEq

def FileMode.asStr : FileMode → Str
  | .regular => "100644"
  | .executable => "100755"
  | .symlink => "120000"

def zeroOid : Str := "0000000000000000000000000000000000000000"

def devNull : Str := "/dev/null"

/-- The crates behind the diff: the hash in hexadecimal digits, and the diff of two texts under two headers. -/
structure Crates where
  sha1Hex : Bytes → Str
  unifiedDiff : (oldHeader newHeader : Str) → (contextRadius : Nat) → (old new : Str) → Str

/-- What the tracker reads from the file system at one moment, and what `git` answers. -/
structure FileView where
  pathExists : AbsolutePathBuf → Bool
  isDir : AbsolutePathBuf → Bool
  isFile : AbsolutePathBuf → Bool
  fileModeForPath : AbsolutePathBuf → Option FileMode
  readFile : AbsolutePathBuf → Option Bytes
  readLink : AbsolutePathBuf → Option Bytes
  /-- `git -C <root> hash-object -- <path>`: the trimmed output of a run that succeeds. -/
  gitHashObject : AbsolutePathBuf → Str → Option Str

structure BaselineFileInfo where
  path : AbsolutePathBuf
  content : Bytes
  mode : FileMode
  oid : Str
  deriving DecidableEq

/-- `Uuid::new_v4`: the names are numbered as they are given. Nothing but their being different is used of them. -/
abbrev InternalName := Nat

/-- An external path and its internal name point at each other, and every internal name has its baseline. -/
@[ext]
structure TurnDiffTracker where
  externalToTempName : AbsolutePathBuf → Option InternalName
  baselineFileInfo : InternalName → Option BaselineFileInfo
  tempNameToCurrentPath : InternalName → Option AbsolutePathBuf
  gitRootCache : List AbsolutePathBuf
  /-- The next name that `Uuid::new_v4` gives. -/
  nextName : InternalName
  current : ∀ {path name}, externalToTempName path = some name → tempNameToCurrentPath name = some path
  issued : ∀ {name path}, tempNameToCurrentPath name = some path → name < nextName
  snapshotted : ∀ {name}, (baselineFileInfo name).isSome = true ↔ name < nextName

namespace TurnDiffTracker

def new : TurnDiffTracker where
  externalToTempName := fun _ => none
  baselineFileInfo := fun _ => none
  tempNameToCurrentPath := fun _ => none
  gitRootCache := []
  nextName := 0
  current := nofun
  issued := nofun
  snapshotted := by simp

end TurnDiffTracker

/-! ## Repositories -/

theorem isName_git : UnixPath.IsName ".git".toList := by decide

section

variable (crates : Crates) (view : FileView)

def hasGitMarker (cur : AbsolutePathBuf) : Bool :=
  view.isDir (cur.push ".git".toList isName_git) || view.isFile (cur.push ".git".toList isName_git)

/-- A root that is found is known from then on. -/
def findGitRootCached (cache : List AbsolutePathBuf) (start : AbsolutePathBuf) :
    Option AbsolutePathBuf × List AbsolutePathBuf :=
  match if view.isDir start then some start else start.parent with
  | none => (none, cache)
  | some dir =>
      match cache.find? dir.startsWith with
      | some root => (some root, cache)
      | none =>
          match dir.ancestors.find? (hasGitMarker view) with
          | none => (none, cache)
          | some cur => (some cur, if cur ∈ cache then cache else cache ++ [cur])

def relativeToGitRootStr (cache : List AbsolutePathBuf) (path : AbsolutePathBuf) : Str × List AbsolutePathBuf :=
  let (root, cache) := findGitRootCached view cache path
  let s := match root with
    | some root => (path.stripBase root).getD path.toPath
    | none => path.toPath
  (replace s "\\" "/", cache)

def gitBlobOidForPath (cache : List AbsolutePathBuf) (path : AbsolutePathBuf) : Option Str × List AbsolutePathBuf :=
  let (root, cache) := findGitRootCached view cache path
  let oid := root.bind fun root =>
    (view.gitHashObject root ((path.stripBase root).getD path.toPath)).filter fun s => byteLen s = 40
  (oid, cache)

def gitBlobSha1HexBytes (data : Bytes) : Str :=
  crates.sha1Hex (encode ("blob ".toList ++ Nat.toDigits 10 data.length ++ ['\x00']) ++ data)

def blobBytes (path : AbsolutePathBuf) (mode : FileMode) : Option Bytes :=
  if view.pathExists path then
    if mode = .symlink then view.readLink path else view.readFile path
  else none

/-! ## The patches -/

/-- The baseline of a path that is seen for the first time. -/
def snapshot (cache : List AbsolutePathBuf) (path : AbsolutePathBuf) : BaselineFileInfo × List AbsolutePathBuf :=
  if view.pathExists path then
    let mode := view.fileModeForPath path
    let modeVal := mode.getD .regular
    let content := (blobBytes view path modeVal).getD []
    if mode = some .symlink then (⟨path, content, modeVal, gitBlobSha1HexBytes crates content⟩, cache)
    else
      let (oid, cache) := gitBlobOidForPath view cache path
      (⟨path, content, modeVal, oid.getD (gitBlobSha1HexBytes crates content)⟩, cache)
  else (⟨path, [], .regular, zeroOid⟩, cache)

end

namespace TurnDiffTracker

/-- A fresh internal name for an external path. -/
def insertNew (tracker : TurnDiffTracker) (path : AbsolutePathBuf) (info : BaselineFileInfo)
    (cache : List AbsolutePathBuf) : TurnDiffTracker where
  externalToTempName := Function.update tracker.externalToTempName path (some tracker.nextName)
  baselineFileInfo := Function.update tracker.baselineFileInfo tracker.nextName (some info)
  tempNameToCurrentPath := Function.update tracker.tempNameToCurrentPath tracker.nextName (some path)
  gitRootCache := cache
  nextName := tracker.nextName + 1
  current := by
    intro other name h
    by_cases hother : other = path
    · subst hother
      rw [Function.update_self, Option.some.injEq] at h
      rw [h, Function.update_self]
    · rw [Function.update_of_ne hother] at h
      have hcurrent := tracker.current h
      rwa [Function.update_of_ne (Nat.ne_of_lt (tracker.issued hcurrent))]
  issued := by
    intro name other h
    by_cases hname : name = tracker.nextName
    · exact hname ▸ Nat.lt_succ_self _
    · rw [Function.update_of_ne hname] at h
      exact Nat.lt_succ_of_lt (tracker.issued h)
  snapshotted := by
    intro name
    by_cases hname : name = tracker.nextName
    · subst hname
      simp
    · rw [Function.update_of_ne hname, tracker.snapshotted, Nat.lt_succ_iff_lt_or_eq]
      exact (or_iff_left hname).symm

/-- The file under an internal name goes from one external path to another. -/
def rename (tracker : TurnDiffTracker) (path dest : AbsolutePathBuf) (name : InternalName)
    (h : tracker.externalToTempName path = some name) : TurnDiffTracker where
  externalToTempName := Function.update (Function.update tracker.externalToTempName path none) dest (some name)
  baselineFileInfo := tracker.baselineFileInfo
  tempNameToCurrentPath := Function.update tracker.tempNameToCurrentPath name (some dest)
  gitRootCache := tracker.gitRootCache
  nextName := tracker.nextName
  current := by
    intro other found hfound
    by_cases hdest : other = dest
    · subst hdest
      rw [Function.update_self, Option.some.injEq] at hfound
      rw [hfound, Function.update_self]
    · rw [Function.update_of_ne hdest] at hfound
      by_cases hother : other = path
      · rw [hother, Function.update_self] at hfound
        cases hfound
      · rw [Function.update_of_ne hother] at hfound
        have hne : found ≠ name := by
          rintro rfl
          exact hother (Option.some.inj ((tracker.current hfound).symm.trans (tracker.current h)))
        rw [Function.update_of_ne hne]
        exact tracker.current hfound
  issued := by
    intro found other hfound
    by_cases hname : found = name
    · exact hname ▸ tracker.issued (tracker.current h)
    · rw [Function.update_of_ne hname] at hfound
      exact tracker.issued hfound
  snapshotted := tracker.snapshotted

variable (crates : Crates) (view : FileView)

/-- A path gets its internal name and its baseline when it is seen for the first time. -/
def track (tracker : TurnDiffTracker) (path : AbsolutePathBuf) : TurnDiffTracker :=
  match tracker.externalToTempName path with
  | some _ => tracker
  | none =>
      let (info, cache) := snapshot crates view tracker.gitRootCache path
      tracker.insertNew path info cache

/-- A source that has no name, which is rare, is named without a baseline. -/
def moveTo (tracker : TurnDiffTracker) (path dest : AbsolutePathBuf) : TurnDiffTracker :=
  match h : tracker.externalToTempName path with
  | some name => tracker.rename path dest name h
  | none =>
      (tracker.insertNew path ⟨path, [], .regular, zeroOid⟩ tracker.gitRootCache).rename path dest tracker.nextName
        (Function.update_self ..)

/-- One round of the loop of `on_patch_begin`. -/
def visit (tracker : TurnDiffTracker) : AbsolutePathBuf × FileChange → TurnDiffTracker
  | (path, .update _ (some dest)) => (tracker.track crates view path).moveTo path dest
  | (path, _) => tracker.track crates view path

/-- `on_patch_begin`. The changes come in the order in which the hash map gives them. -/
def onPatchBegin (tracker : TurnDiffTracker) (changes : List (AbsolutePathBuf × FileChange)) : TurnDiffTracker :=
  changes.foldl (visit crates view) tracker

def getPathForInternal (tracker : TurnDiffTracker) (internal : InternalName) : Option AbsolutePathBuf :=
  (tracker.tempNameToCurrentPath internal).or ((tracker.baselineFileInfo internal).map BaselineFileInfo.path)

end TurnDiffTracker

/-! ## The diff -/

/-- A block of the diff, with what is compared in it. -/
structure FileDiff where
  leftPath : AbsolutePathBuf
  rightPath : AbsolutePathBuf
  leftDisplay : Str
  rightDisplay : Str
  leftMode : FileMode
  rightMode : FileMode
  leftOid : Str
  rightOid : Str
  leftBytes : Option Bytes
  rightBytes : Option Bytes
  deriving DecidableEq

/-- `std::str::from_utf8` -/
def fromUtf8 (bytes : Bytes) : Option Str :=
  match decode bytes with
  | (text, .done) => some text
  | _ => none

namespace FileDiff

variable (diff : FileDiff)

def isAdd : Bool := diff.leftBytes.isNone && diff.rightBytes.isSome

def isDelete : Bool := diff.leftBytes.isSome && diff.rightBytes.isNone

def oldHeader : Str := if diff.leftBytes.isSome then "a/".toList ++ diff.leftDisplay else devNull

def newHeader : Str := if diff.rightBytes.isSome then "b/".toList ++ diff.rightDisplay else devNull

def modeLines : Str :=
  if diff.isAdd then "new file mode ".toList ++ diff.rightMode.asStr ++ ['\n']
  else if diff.isDelete then "deleted file mode ".toList ++ diff.leftMode.asStr ++ ['\n']
  else if diff.leftMode ≠ diff.rightMode then
    "old mode ".toList ++ diff.leftMode.asStr ++ "\nnew mode ".toList ++ diff.rightMode.asStr ++ ['\n']
  else []

/-- The two texts, when they can be shown as lines. -/
def texts : Option (Str × Str) :=
  match diff.leftBytes.bind fromUtf8, diff.rightBytes.bind fromUtf8 with
  | some left, some right => some (left, right)
  | none, some right => if diff.isAdd then some ([], right) else none
  | some left, none => if diff.isDelete then some (left, []) else none
  | none, none => none

def text (crates : Crates) : Str :=
  "diff --git a/".toList ++ diff.leftDisplay ++ " b/".toList ++ diff.rightDisplay ++ ['\n'] ++ diff.modeLines ++
    "index ".toList ++ diff.leftOid ++ "..".toList ++ diff.rightOid ++ ['\n'] ++
    match diff.texts with
    | some (left, right) => crates.unifiedDiff diff.oldHeader diff.newHeader 3 left right
    | none => "--- ".toList ++ diff.oldHeader ++ "\n+++ ".toList ++ diff.newHeader ++ "\nBinary files differ\n".toList

end FileDiff

namespace TurnDiffTracker

variable (crates : Crates) (view : FileView) (tracker : TurnDiffTracker)

def currentOid (cache : List AbsolutePathBuf) (path : AbsolutePathBuf) (mode : FileMode) (bytes : Option Bytes) :
    Str × List AbsolutePathBuf :=
  match bytes with
  | some b =>
      if mode = .symlink then (gitBlobSha1HexBytes crates b, cache)
      else
        let (oid, cache) := gitBlobOidForPath view cache path
        (oid.getD (gitBlobSha1HexBytes crates b), cache)
  | none => (zeroOid, cache)

/-- What stands for the baseline of a name that has none. -/
def noBaseline : BaselineFileInfo := ⟨.root, [], .regular, zeroOid⟩

/-- The zero id stands for a file that was not there. -/
def leftBytes (info : BaselineFileInfo) : Option Bytes := if info.oid ≠ zeroOid then some info.content else none

/-- `get_file_diff` up to its text. There is no block for what is the same on both sides. -/
def getFileDiff (cache : List AbsolutePathBuf) (internal : InternalName) :
    Option FileDiff × List AbsolutePathBuf :=
  let info := (tracker.baselineFileInfo internal).getD noBaseline
  match tracker.getPathForInternal internal with
  | none => (none, cache)
  | some currentExternalPath =>
      let currentMode := (view.fileModeForPath currentExternalPath).getD .regular
      let rightBytes := blobBytes view currentExternalPath currentMode
      let (leftDisplay, cache) := relativeToGitRootStr view cache info.path
      let (rightDisplay, cache) := relativeToGitRootStr view cache currentExternalPath
      let (rightOid, cache) := currentOid crates view cache currentExternalPath currentMode rightBytes
      if leftBytes info = rightBytes then (none, cache)
      else (some ⟨info.path, currentExternalPath, leftDisplay, rightDisplay, info.mode, currentMode, info.oid, rightOid,
        leftBytes info, rightBytes⟩, cache)

def sortKey (cache : List AbsolutePathBuf) (internal : InternalName) : Str × List AbsolutePathBuf :=
  match tracker.getPathForInternal internal with
  | some p => relativeToGitRootStr view cache p
  | none => ([], cache)

def sortKeys : List AbsolutePathBuf → List InternalName → List (Str × InternalName) × List AbsolutePathBuf
  | cache, [] => ([], cache)
  | cache, internal :: names =>
      let (key, cache) := sortKey view tracker cache internal
      let (keyed, cache) := sortKeys cache names
      ((key, internal) :: keyed, cache)

/-- `sort_by_key`: it is stable, and asks for no key where there is nothing to compare. The sort does not promise when it
asks for which key; here it asks in the order of the list, which may be any. -/
def sortByKey (names : List InternalName) : List InternalName × List AbsolutePathBuf :=
  if names.length < 2 then (names, tracker.gitRootCache)
  else
    let (keyed, cache) := sortKeys view tracker tracker.gitRootCache names
    ((keyed.mergeSort fun a b => decide (a.1 ≤ b.1)).map Prod.snd, cache)

/-- The blocks of the names, one after the other. -/
def fileDiffs : List AbsolutePathBuf → List InternalName → List (Option FileDiff)
  | _, [] => []
  | cache, internal :: names =>
      let (diff, cache) := getFileDiff crates view tracker cache internal
      diff :: fileDiffs cache names

def aggregate (aggregated : Str) (diff : Option FileDiff) : Str :=
  let aggregated := aggregated ++ (diff.map fun diff => diff.text crates).getD []
  if aggregated.getLast? = some '\n' then aggregated else aggregated ++ ['\n']

/-- The diffs that `get_unified_diff` puts together; the names come in the order of the hash map. -/
def allFileDiffs (names : List InternalName) : List (Option FileDiff) :=
  let (names, cache) := sortByKey view tracker names
  fileDiffs crates view tracker cache names

def getUnifiedDiff (names : List InternalName) : Option Str :=
  let aggregated := (allFileDiffs crates view tracker names).foldl (aggregate crates) []
  if trim aggregated = [] then none else some aggregated

end TurnDiffTracker

end Codrex.TurnDiff
