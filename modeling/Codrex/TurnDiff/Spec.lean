import Codrex.ApplyPatch.Apply
import Codrex.TurnDiff.Tracker
import Mathlib.Logic.Equiv.Basic
import Mathlib.Data.Set.Defs

/-!
# What the diff of a turn promises

The internal names are made up, and the hash maps give their entries in any order. So trackers count as the same up
to a renaming, and a diff is one of those that some order gives.
-/

namespace Codrex.TurnDiff

open Text Utf8 ApplyPatch

/-! ## Orders -/

/-- The patch moves the file at `path` to another path. -/
def Moves (changes : List (AbsolutePathBuf × FileChange)) (path dest : AbsolutePathBuf) : Prop :=
  dest ≠ path ∧ ∃ unifiedDiff, (path, .update unifiedDiff (some dest)) ∈ changes

/-- The two caches give the same roots. -/
def SameRoots (first second : List AbsolutePathBuf) : Prop :=
  ∀ dir : AbsolutePathBuf, first.find? dir.startsWith = second.find? dir.startsWith

namespace TurnDiffTracker

structure SameUpTo (σ : Equiv.Perm InternalName) (first second : TurnDiffTracker) : Prop where
  external : ∀ path, second.externalToTempName path = (first.externalToTempName path).map σ
  baseline : ∀ name, second.baselineFileInfo (σ name) = first.baselineFileInfo name
  current : ∀ name, second.tempNameToCurrentPath (σ name) = first.tempNameToCurrentPath name
  roots : SameRoots first.gitRootCache second.gitRootCache

def Alike (first second : TurnDiffTracker) : Prop := ∃ σ, SameUpTo σ first second

/-- The names in an order in which the hash map of the baselines may give them. -/
structure Enumerates (tracker : TurnDiffTracker) (names : List InternalName) : Prop where
  nodup : names.Nodup
  mem : ∀ name, name ∈ names ↔ (tracker.baselineFileInfo name).isSome = true

variable (crates : Crates) (view : FileView) (tracker : TurnDiffTracker)

/-- The diffs that `get_unified_diff` may give. -/
def unifiedDiffs : Set (Option Str) :=
  {diff | ∃ names, Enumerates tracker names ∧ getUnifiedDiff crates view tracker names = diff}

def OrderFree (changes : List (AbsolutePathBuf × FileChange)) : Prop :=
  ∀ first second, first.Perm changes → second.Perm changes →
    Alike (onPatchBegin crates view tracker first) (onPatchBegin crates view tracker second) ∧
    ∀ later, unifiedDiffs crates later (onPatchBegin crates view tracker first) =
      unifiedDiffs crates later (onPatchBegin crates view tracker second)

/-- The baseline of a path, as it is or as it would be taken now. -/
def startInfo (path : AbsolutePathBuf) : Option BaselineFileInfo :=
  match tracker.externalToTempName path with
  | some name => tracker.baselineFileInfo name
  | none => some (snapshot crates view tracker.gitRootCache path).1

/-- The root that a lookup adds to the cache. -/
def newRoot (cache : List AbsolutePathBuf) (path : AbsolutePathBuf) : Option AbsolutePathBuf :=
  match if view.isDir path then some path else path.parent with
  | none => none
  | some dir =>
      match cache.find? dir.startsWith with
      | some _ => none
      | none => dir.ancestors.find? (hasGitMarker view)

/-- The root that the baseline of a path adds to the cache. -/
def foundRoot (path : AbsolutePathBuf) : Option AbsolutePathBuf :=
  if tracker.externalToTempName path = none ∧ view.pathExists path = true ∧
      view.fileModeForPath path ≠ some .symlink then
    newRoot view tracker.gitRootCache path
  else none

/-- No change of the patch gets in the way of another one. -/
structure Settled (changes : List (AbsolutePathBuf × FileChange)) : Prop where
  /-- What a file is moved to is not touched itself, or is tracked already and stays. -/
  onto : ∀ {path dest change}, Moves changes path dest → (dest, change) ∈ changes →
    tracker.externalToTempName dest ≠ none ∧ ∀ other, ¬ Moves changes dest other
  /-- Files that are moved to one path started out the same. -/
  together : ∀ {path other dest}, Moves changes path dest → Moves changes other dest →
    startInfo crates view tracker path = startInfo crates view tracker other
  /-- No repository that is found lies within another one that is found. -/
  repositories : ∀ {path change other otherChange root otherRoot}, (path, change) ∈ changes →
    (other, otherChange) ∈ changes → foundRoot view tracker path = some root →
    foundRoot view tracker other = some otherRoot → root.startsWith otherRoot = true → root = otherRoot

end TurnDiffTracker

/-! ## Turns -/

/-- What the paths hold. -/
abbrev Contents := AbsolutePathBuf → Option Bytes

def FileView.contents (view : FileView) : Contents := fun path =>
  blobBytes view path ((view.fileModeForPath path).getD .regular)

/-- `convert_apply_patch_to_protocol`, for one change. -/
def toProtocol : ApplyPatchFileChange → FileChange
  | .add content => .add content
  | .delete content => .delete content
  | .update unifiedDiff movePath _ => .update unifiedDiff movePath

/-- The changes of a patch in the order in which they are applied, and in the one in which the hash map gives
them. -/
structure Patch where
  changes : List (AbsolutePathBuf × ApplyPatchFileChange)
  distinct : (changes.map Prod.fst).Nodup
  visited : List (AbsolutePathBuf × FileChange)
  perm : visited.Perm (changes.map fun change => (change.1, toProtocol change.2))

/-- The new contents of a file that is moved are written before the original is removed. -/
def applyChange (contents : Contents) : AbsolutePathBuf × ApplyPatchFileChange → Contents
  | (path, .add content) => Function.update contents path (some (encode content))
  | (path, .delete _) => Function.update contents path none
  | (path, .update _ none newContent) => Function.update contents path (some (encode newContent))
  | (path, .update _ (some dest) newContent) =>
      Function.update (Function.update contents dest (some (encode newContent))) path none

def Patch.applied (patch : Patch) (contents : Contents) : Contents := patch.changes.foldl applyChange contents

/-- Where the files are that the paths held at the start of the turn: the path that a file is at, and the last one
that it was at before another file took its place. -/
@[ext]
structure Whereabouts where
  resident : AbsolutePathBuf → Option AbsolutePathBuf
  lastPlace : AbsolutePathBuf → AbsolutePathBuf
  lastPlace_of_resident : ∀ {place file}, resident place = some file → lastPlace file = place

namespace Whereabouts

def start : Whereabouts := ⟨some, id, fun h => (Option.some.inj h).symm⟩

def move (whereabouts : Whereabouts) (path dest : AbsolutePathBuf) : Whereabouts where
  resident := Function.update (Function.update whereabouts.resident path none) dest (whereabouts.resident path)
  lastPlace := fun file => if whereabouts.resident path = some file then dest else whereabouts.lastPlace file
  lastPlace_of_resident := by
    intro place file h
    by_cases hdest : place = dest
    · subst hdest
      rw [Function.update_self] at h
      exact if_pos h
    · rw [Function.update_of_ne hdest] at h
      by_cases hpath : place = path
      · rw [hpath, Function.update_self] at h
        cases h
      · rw [Function.update_of_ne hpath] at h
        have hplace := whereabouts.lastPlace_of_resident h
        rw [if_neg fun hfile => hpath (hplace.symm.trans (whereabouts.lastPlace_of_resident hfile)), hplace]

def follow (whereabouts : Whereabouts) : AbsolutePathBuf × ApplyPatchFileChange → Whereabouts
  | (path, .update _ (some dest) _) => whereabouts.move path dest
  | _ => whereabouts

end Whereabouts

def Patch.followed (patch : Patch) (whereabouts : Whereabouts) : Whereabouts :=
  patch.changes.foldl Whereabouts.follow whereabouts

/-- The patches of a turn, each one `allowed` by the tracker and the files before it. -/
inductive Turn (crates : Crates) (allowed : TurnDiffTracker → FileView → Patch → Prop) (start : FileView) :
    TurnDiffTracker → FileView → Whereabouts → Prop
  | begin : Turn crates allowed start .new start .start
  | patch {tracker view whereabouts} (patch : Patch) (view' : FileView) :
      Turn crates allowed start tracker view whereabouts → allowed tracker view patch →
      view'.contents = patch.applied view.contents →
      Turn crates allowed start (tracker.onPatchBegin crates view patch.visited) view' (patch.followed whereabouts)

/-- A patch whose files can be read, and no content has the null id. -/
structure Readable (view : FileView) (patch : Patch) : Prop where
  readable : ∀ entry ∈ patch.changes, view.pathExists entry.1 = true → (view.contents entry.1).isSome = true
  hashed : ∀ root path, view.gitHashObject root path ≠ some zeroOid

/-- A move goes to a path with no file, or to one that is tracked already. It does not go on to another path in the
same patch, and no other file goes there. -/
structure MovesOntoKnown (tracker : TurnDiffTracker) (view : FileView) (patch : Patch) : Prop where
  known : ∀ {path dest}, Moves patch.visited path dest →
    view.contents dest = none ∨ tracker.externalToTempName dest ≠ none
  stays : ∀ {path dest other}, Moves patch.visited path dest → ¬ Moves patch.visited dest other
  alone : ∀ {path other dest}, Moves patch.visited path dest → Moves patch.visited other dest → path = other

def MovesNothing (patch : Patch) : Prop := ∀ path dest, ¬ Moves patch.visited path dest

section

variable (crates : Crates) (start : FileView) (tracker : TurnDiffTracker) (view : FileView)

/-- The last place of the file holds the contents that it started with. -/
def MovedUnchanged (whereabouts : Whereabouts) (path : AbsolutePathBuf) : Prop :=
  whereabouts.lastPlace path ≠ path ∧ view.contents (whereabouts.lastPlace path) = start.contents path

def KeepsBaselines (whereabouts : Whereabouts) : Prop :=
  ∀ names, tracker.Enumerates names → ∀ path content, start.contents path = some content →
    view.contents path ≠ some content → ¬ MovedUnchanged start view whereabouts path →
    ∃ diff, some diff ∈ tracker.allFileDiffs crates view names ∧ diff.leftPath = path ∧
      diff.leftBytes = some content

/-- One block for each path that has changed, and no other. -/
def OneBlockPerChange : Prop :=
  ∀ names, tracker.Enumerates names →
    let diffs := (tracker.allFileDiffs crates view names).reduceOption
    (diffs.map FileDiff.leftPath).Nodup ∧
    (∀ path, path ∈ diffs.map FileDiff.leftPath ↔ start.contents path ≠ view.contents path) ∧
    ∀ diff ∈ diffs, diff.rightPath = diff.leftPath ∧ diff.leftBytes = start.contents diff.leftPath ∧
      diff.rightBytes = view.contents diff.leftPath

end

end Codrex.TurnDiff
