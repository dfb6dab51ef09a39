import Codrex.TurnDiff.Lemmas.Diffs
import Codrex.TurnDiff.Lemmas.Turns

/-!
# Theorems about the diff of a turn
-/

namespace Codrex.TurnDiff

open Utf8 ApplyPatch TurnDiffTracker

/-! ## A small file system -/

/-- Regular files outside of any repository. -/
def FileView.ofContents (contents : Contents) : FileView where
  pathExists := fun path => (contents path).isSome
  isDir := fun _ => false
  isFile := fun _ => false
  fileModeForPath := fun path => (contents path).map fun _ => .regular
  readFile := contents
  readLink := fun _ => none
  gitHashObject := fun _ _ => none

theorem contents_ofContents (contents : Contents) : (FileView.ofContents contents).contents = contents := by
  funext path
  rw [FileView.contents, blobBytes, FileView.ofContents]
  cases h : contents path <;> simp [h]

def exampleCrates : Crates where
  sha1Hex := fun data =>
    if data = encode ("blob 2\x00a\n".toList) then "78981922613b2afb6025042ff6bd878ac1994e85"
    else if data = encode ("blob 2\x00b\n".toList) then "61780798228d17af2d34fce4cfbdf35556832472"
    else "f2ad6c76f0115a6ba5b00456a849810e7ec0af20"
  unifiedDiff := fun oldHeader newHeader _ old new =>
    "--- ".toList ++ oldHeader ++ "\n+++ ".toList ++ newHeader ++ "\n@@ -1 +1 @@\n-".toList ++ old ++ ['+'] ++ new

theorem sha1Hex_exampleCrates (data : Bytes) : exampleCrates.sha1Hex data ≠ zeroOid := by
  simp only [exampleCrates]
  split
  · decide
  · split <;> decide

def pathA : AbsolutePathBuf := .normalizePath "/a.txt"

def pathB : AbsolutePathBuf := .normalizePath "/b.txt"

def pathC : AbsolutePathBuf := .normalizePath "/c.txt"

theorem pathB_ne_pathA : pathB ≠ pathA := by decide

def exampleContents : Contents := fun path =>
  if path = pathA then some (encode "a\n".toList) else if path = pathB then some (encode "b\n".toList) else none

/-! ## Orders -/

/-- The order of the hash map makes no difference if and only if no change gets in the way of another one. -/
theorem orderFree_iff (crates : Crates) (view : FileView) (tracker : TurnDiffTracker)
    (changes : List (AbsolutePathBuf × FileChange)) (hnodup : (changes.map Prod.fst).Nodup) :
    OrderFree crates view tracker changes ↔ Settled crates view tracker changes := by
  constructor
  · exact fun h => settled_of_alike hnodup fun first second hfirst hsecond => (h first second hfirst hsecond).1
  · intro h first second hfirst hsecond
    obtain ⟨σ, hσ⟩ := Ready.onPatchBegin ⟨hnodup, h⟩ hfirst hsecond
    exact ⟨⟨σ, hσ.toSameUpTo⟩, fun later => hσ.toSameUpTo.unifiedDiffs crates later⟩

def renameChain : List (AbsolutePathBuf × FileChange) :=
  [(pathA, .update [] (some pathB)), (pathB, .update [] (some pathC))]

theorem nodup_renameChain : (renameChain.map Prod.fst).Nodup := by decide

theorem moves_renameChain : Moves renameChain pathA pathB :=
  ⟨pathB_ne_pathA, [], List.mem_cons_self⟩

theorem orderFree_renameChain_iff :
    OrderFree exampleCrates (.ofContents exampleContents) .new renameChain ↔
      Settled exampleCrates (.ofContents exampleContents) .new renameChain :=
  orderFree_iff _ _ _ _ nodup_renameChain

/-- The file that is moved away has no baseline when the other one comes first. -/
theorem renameChain_not_orderFree :
    ¬ OrderFree exampleCrates (.ofContents exampleContents) .new renameChain := by
  intro h
  have hsettled : Settled exampleCrates (.ofContents exampleContents) .new renameChain :=
    settled_of_alike nodup_renameChain fun first second hfirst hsecond => (h first second hfirst hsecond).1
  exact (hsettled.onto moves_renameChain (List.mem_cons_of_mem _ List.mem_cons_self)).1 rfl

/-! ## Turns -/

/-- When every move goes to a path with no file or to a tracked one, no baseline is lost; and without moves there is
one block for each path that has changed. -/
theorem turn_keepsBaselines (crates : Crates) (hcrates : ∀ data, crates.sha1Hex data ≠ zeroOid) (start : FileView) :
    (∀ {tracker view whereabouts},
      Turn crates (fun tracker view patch => Readable view patch ∧ MovesOntoKnown tracker view patch) start
        tracker view whereabouts → KeepsBaselines crates start tracker view whereabouts) ∧
    (∀ {tracker view whereabouts},
      Turn crates (fun _ view patch => Readable view patch ∧ MovesNothing patch) start tracker view whereabouts →
      OneBlockPerChange crates start tracker view) := by
  constructor
  · exact fun turn => keepsBaselines_of_kept fun path hpath => turn.kept hcrates hpath
  · intro tracker view whereabouts turn
    obtain ⟨hnamed, rfl⟩ := turn.named
    exact oneBlockPerChange_of_kept hnamed (turn.kept_of_movesNothing hcrates)

/-- One change with the contents that it leaves. -/
def Patch.single (path : AbsolutePathBuf) (change : ApplyPatchFileChange) : Patch where
  changes := [(path, change)]
  distinct := List.nodup_singleton _
  visited := [(path, toProtocol change)]
  perm := List.Perm.refl _

def moveOntoB : Patch := .single pathA (.update [] (some pathB) "a\n")

def updateB : Patch := .single pathB (.update [] none "c\n")

theorem readable_ofContents (contents : Contents) (patch : Patch) : Readable (.ofContents contents) patch where
  readable := fun entry _ hexists => by
    rw [contents_ofContents]
    exact hexists
  hashed := fun _ _ => nofun

theorem Turn.applied {allowed : TurnDiffTracker → FileView → Patch → Prop} {start : FileView}
    {tracker : TurnDiffTracker} {contents : Contents} {whereabouts : Whereabouts}
    (turn : Turn exampleCrates allowed start tracker (.ofContents contents) whereabouts) (patch : Patch)
    (hallowed : allowed tracker (.ofContents contents) patch) :
    Turn exampleCrates allowed start (tracker.onPatchBegin exampleCrates (.ofContents contents) patch.visited)
      (.ofContents (patch.applied contents)) (patch.followed whereabouts) :=
  turn.patch patch _ hallowed (by rw [contents_ofContents, contents_ofContents])

theorem moves_moveOntoB {path dest : AbsolutePathBuf} (h : Moves moveOntoB.visited path dest) :
    path = pathA ∧ dest = pathB := by
  obtain ⟨-, unifiedDiff, hmem⟩ := h
  cases List.mem_singleton.mp hmem
  exact ⟨rfl, rfl⟩

theorem movesNothing_updateB : MovesNothing updateB := by
  rintro path dest ⟨-, unifiedDiff, hmem⟩
  cases List.mem_singleton.mp hmem

/-- A move to a path that is tracked, though a file is there. -/
theorem movesOntoKnown_moveOntoB {view : FileView} : MovesOntoKnown
    (TurnDiffTracker.new.onPatchBegin exampleCrates (.ofContents exampleContents) updateB.visited) view moveOntoB where
  known := fun hmoves => by
    obtain ⟨-, rfl⟩ := moves_moveOntoB hmoves
    have htracked : (TurnDiffTracker.new.visit exampleCrates (.ofContents exampleContents)
        (pathB, .update [] none)).externalToTempName pathB = some 0 := visit_external_place
    exact Or.inr fun hnone => nomatch htracked.symm.trans hnone
  stays := fun hmoves hother =>
    pathB_ne_pathA ((moves_moveOntoB hmoves).2.symm.trans (moves_moveOntoB hother).1)
  alone := fun hmoves hother => (moves_moveOntoB hmoves).1.trans (moves_moveOntoB hother).1.symm

theorem turn_keepsBaselines_example :
    KeepsBaselines exampleCrates (.ofContents exampleContents)
      ((TurnDiffTracker.new.onPatchBegin exampleCrates (.ofContents exampleContents) updateB.visited).onPatchBegin
        exampleCrates (.ofContents (updateB.applied exampleContents)) moveOntoB.visited)
      (.ofContents (moveOntoB.applied (updateB.applied exampleContents)))
      (moveOntoB.followed (updateB.followed .start)) ∧
    OneBlockPerChange exampleCrates (.ofContents exampleContents)
      (TurnDiffTracker.new.onPatchBegin exampleCrates (.ofContents exampleContents) updateB.visited)
      (.ofContents (updateB.applied exampleContents)) :=
  have htheorem := turn_keepsBaselines exampleCrates sha1Hex_exampleCrates (.ofContents exampleContents)
  ⟨htheorem.1 ((Turn.begin.applied updateB ⟨readable_ofContents _ _, movesNothing_updateB.movesOntoKnown⟩).applied
      moveOntoB ⟨readable_ofContents _ _, movesOntoKnown_moveOntoB⟩),
    htheorem.2 (Turn.begin.applied updateB ⟨readable_ofContents _ _, movesNothing_updateB⟩)⟩

/-- The file that a move overwrites has no baseline when no patch has touched it before. -/
theorem moveOntoB_loses_baseline :
    ¬ ∀ {tracker view whereabouts},
      Turn exampleCrates (fun _ view patch => Readable view patch) (.ofContents exampleContents) tracker view
        whereabouts →
      KeepsBaselines exampleCrates (.ofContents exampleContents) tracker view whereabouts := by
  intro h
  have hkeeps := h (Turn.begin.applied moveOntoB (readable_ofContents _ _))
  have hnames : (TurnDiffTracker.new.onPatchBegin exampleCrates (.ofContents exampleContents)
      moveOntoB.visited).Enumerates [0] := by
    refine ⟨List.nodup_singleton _, fun name => ?_⟩
    rw [TurnDiffTracker.snapshotted, List.mem_singleton]
    exact Nat.lt_one_iff.symm
  obtain ⟨diff, hdiff, hpath, -⟩ := hkeeps [0] hnames pathB (encode "b\n".toList)
    (by rw [contents_ofContents]; decide) (by rw [contents_ofContents]; decide)
    (fun hmoved => hmoved.1 (by decide))
  have hcompared : some (comparison diff) ∈ [compared (.ofContents (moveOntoB.applied exampleContents))
      (TurnDiffTracker.new.onPatchBegin exampleCrates (.ofContents exampleContents) moveOntoB.visited) 0] :=
    (perm_compared _ _ _ [0]).subset (List.mem_map_of_mem (f := Option.map comparison) hdiff)
  have hinfo : (TurnDiffTracker.new.visit exampleCrates (.ofContents exampleContents)
      (pathA, .update [] (some pathB))).baselineFileInfo 0 =
        startInfo exampleCrates (.ofContents exampleContents) .new pathA := visit_baseline_nameOf
  have hleft := leftPath_of_compared (List.mem_singleton.mp hcompared).symm (hinfo.trans (startInfo_of_untracked rfl))
  exact pathB_ne_pathA (hpath.symm.trans (hleft.trans (snapshot_path _ _)))

end Codrex.TurnDiff
