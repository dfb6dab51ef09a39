import Codrex.Lib.Keyed
import Mathlib.Tactic.Common

/-!
# Trees laid over each other

A tree is seen as what stands at each path. A tree over another one adds to its tables and replaces everything else. The
leaves that are left after many of them are those that no later tree replaces.
-/

namespace Overlay

variable {κ σ : Type} {path : List κ} {value : σ}

inductive Node (σ : Type)
  | leaf (value : σ)
  | list
  | table
  deriving DecidableEq

abbrev View (κ σ : Type) := List κ → Option (Node σ)

namespace View

def child (view : View κ σ) (key : κ) : View κ σ := fun path => view (key :: path)

/-- What is above something is a list or a table. -/
def Grounded (view : View κ σ) : Prop :=
  ∀ path key rest, (view (path ++ key :: rest)).isSome → view path = some .list ∨ view path = some .table

theorem Grounded.child {view : View κ σ} (h : view.Grounded) (key : κ) : (view.child key).Grounded :=
  fun path next rest => h (key :: path) next rest

theorem Grounded.isSome_of_prefix {view : View κ σ} (h : view.Grounded) {path front : List κ} (hstarts : front <+: path)
    (hpath : (view path).isSome) : (view front).isSome := by
  obtain ⟨rest, rfl⟩ := hstarts
  cases rest with
  | nil => simpa using hpath
  | cons key rest =>
      rcases h front key rest hpath with hfront | hfront
      · rw [hfront]; rfl
      · rw [hfront]; rfl

theorem Grounded.root {view : View κ σ} (h : view.Grounded) {path : List κ} (hpath : (view path).isSome) :
    (view []).isSome := h.isSome_of_prefix List.nil_prefix hpath

end View

/-- Wherever the upper tree has something on the path, both have a table. -/
def Keeps (lower upper : View κ σ) (path : List κ) : Prop :=
  ∀ front, front <+: path → upper front ≠ none → lower front = some .table ∧ upper front = some .table

theorem keeps_nil {lower upper : View κ σ} :
    Keeps lower upper [] ↔ (upper [] ≠ none → lower [] = some .table ∧ upper [] = some .table) := by
  constructor
  · exact fun h => h [] (List.prefix_refl [])
  · intro h front hfront
    rw [List.prefix_nil.mp hfront]
    exact h

theorem keeps_cons {lower upper : View κ σ} {key : κ} :
    Keeps lower upper (key :: path) ↔
      (upper [] ≠ none → lower [] = some .table ∧ upper [] = some .table) ∧
        Keeps (lower.child key) (upper.child key) path := by
  constructor
  · intro h
    exact ⟨h [] List.nil_prefix, fun front hfront => h (key :: front) (List.cons_prefix_cons.mpr ⟨rfl, hfront⟩)⟩
  · rintro ⟨hroot, hchild⟩ front hfront
    cases front with
    | nil => exact hroot
    | cons other front =>
        obtain ⟨rfl, hbelow⟩ := List.cons_prefix_cons.mp hfront
        exact hchild front hbelow

theorem keeps_congr {lower other upper : View κ σ} (h : ∀ front, front <+: path → lower front = other front) :
    Keeps lower upper path ↔ Keeps other upper path := by
  constructor
  · intro hkeeps front hfront
    rw [← h front hfront]
    exact hkeeps front hfront
  · intro hkeeps front hfront
    rw [h front hfront]
    exact hkeeps front hfront

/-! ## The last tree with a leaf -/

def View.HasLeaf (path : List κ) (view : View κ σ) : Prop := ∃ value, view path = some (.leaf value)

/-- The tree is the last one with a leaf at the path, and no later one replaces it. -/
structure Tops (trees : List (View κ σ)) (path : List κ) (tree : View κ σ) (value : σ) : Prop where
  leaf : tree path = some (.leaf value)
  last : ∃ after, LastWith (View.HasLeaf path) trees tree after ∧ ∀ later ∈ after, Keeps tree later path

variable {trees : List (View κ σ)}

theorem Tops.concat_cases {next tree : View κ σ} (h : Tops (trees ++ [next]) path tree value) :
    tree = next ∨ (¬ next.HasLeaf path ∧ Tops trees path tree value ∧ Keeps tree next path) := by
  obtain ⟨hleaf, after, hlast, hkeeps⟩ := h
  rcases hlast.concat_cases with ⟨rfl, -⟩ | ⟨hnext, rest, rfl, hrest⟩
  · exact .inl rfl
  · exact .inr ⟨hnext, ⟨hleaf, rest, hrest, fun later hlater => hkeeps later (by simp [hlater])⟩, hkeeps next (by simp)⟩

theorem Tops.concat {next tree : View κ σ} (h : Tops trees path tree value) (hnext : ¬ next.HasLeaf path)
    (hkeeps : Keeps tree next path) : Tops (trees ++ [next]) path tree value := by
  obtain ⟨hleaf, after, hlast, hafter⟩ := h
  refine ⟨hleaf, after ++ [next], hlast.concat hnext, fun later hlater => ?_⟩
  rcases List.mem_append.mp hlater with hmem | hmem
  · exact hafter later hmem
  · rw [List.mem_singleton.mp hmem]
    exact hkeeps

/-! ## One tree over another -/

variable [DecidableEq σ]

def overlay (lower upper : View κ σ) : View κ σ
  | [] => if upper [] = none then lower [] else upper []
  | key :: path =>
      if upper [] = none then lower (key :: path)
      else if lower [] = some .table ∧ upper [] = some .table then overlay (lower.child key) (upper.child key) path
      else upper (key :: path)

attribute [local simp] overlay

theorem overlay_of_tables {lower upper : View κ σ} (hlower : lower [] = some .table) (hupper : upper [] = some .table)
    (key : κ) (path : List κ) :
    overlay lower upper (key :: path) = overlay (lower.child key) (upper.child key) path := by
  rw [overlay, if_neg (by simp [hupper]), if_pos ⟨hlower, hupper⟩]

theorem overlay_of_not_tables {lower upper : View κ σ} (hroot : upper [] ≠ none)
    (h : ¬ (lower [] = some .table ∧ upper [] = some .table)) : overlay lower upper = upper := by
  funext path
  cases path with
  | nil => rw [overlay, if_neg hroot]
  | cons key path => rw [overlay, if_neg hroot, if_neg h]

theorem overlay_nothing {lower upper : View κ σ} (hroot : upper [] = none) : overlay lower upper = lower := by
  funext path
  cases path with
  | nil => rw [overlay, if_pos hroot]
  | cons key path => rw [overlay, if_pos hroot]

/-- On the way to a leaf of the upper tree everything is as in that tree. -/
theorem overlay_of_upper_leaf {lower upper : View κ σ} (hupper : upper.Grounded) (h : upper path = some (.leaf value))
    {front : List κ} (hfront : front <+: path) : overlay lower upper front = upper front := by
  induction front generalizing lower upper path with
  | nil =>
      rw [overlay]
      have hroot := hupper.root (by rw [h]; rfl : (upper path).isSome)
      rw [if_neg fun hnone => by rw [hnone] at hroot; cases hroot]
  | cons key front ih =>
      obtain ⟨rest, rfl⟩ := hfront
      have hroot := hupper.root (by rw [h]; rfl : (upper _).isSome)
      rw [overlay, if_neg fun hnone => by rw [hnone] at hroot; cases hroot]
      split
      · have hchild : upper.child key (front ++ rest) = some (.leaf value) := h
        exact ih (hupper.child key) hchild (List.prefix_append front rest)
      · rfl

/-- A path that is kept is as in the lower tree. -/
theorem overlay_of_keeps {lower upper : View κ σ} (hupper : upper.Grounded) {front : List κ}
    (h : Keeps lower upper path) (hfront : front <+: path) : overlay lower upper front = lower front := by
  induction front generalizing lower upper path with
  | nil =>
      rw [overlay]
      split
      · rfl
      next hsome =>
        obtain ⟨hlower, hboth⟩ := h [] List.nil_prefix hsome
        rw [hlower, hboth]
  | cons key front ih =>
      obtain ⟨rest, rfl⟩ := hfront
      obtain ⟨hroot, hchild⟩ := keeps_cons.mp h
      rw [overlay]
      split
      · rfl
      next hsome =>
        rw [if_pos (hroot hsome)]
        exact ih (hupper.child key) hchild (List.prefix_append front rest)

/-- Where the upper tree has no leaf, the leaves are those of the lower one that are kept. -/
theorem overlay_leaf_iff {lower upper : View κ σ} (hupper : upper.Grounded)
    (h : ∀ value, upper path ≠ some (.leaf value)) :
    overlay lower upper path = some (.leaf value) ↔ lower path = some (.leaf value) ∧ Keeps lower upper path := by
  constructor
  · intro hleaf
    suffices hkeeps : Keeps lower upper path from
      ⟨(overlay_of_keeps hupper hkeeps (List.prefix_refl path)).symm.trans hleaf, hkeeps⟩
    induction path generalizing lower upper with
    | nil =>
        rw [keeps_nil]
        intro hsome
        rw [overlay, if_neg hsome] at hleaf
        exact absurd hleaf (h value)
    | cons key path ih =>
        rw [overlay] at hleaf
        rw [keeps_cons]
        split at hleaf
        next hnone =>
          refine ⟨fun hsome => absurd hnone hsome, fun front _ hsome => ?_⟩
          have hroot := hupper.root (Option.isSome_iff_ne_none.mpr hsome)
          rw [hnone] at hroot
          cases hroot
        next hsome =>
          split at hleaf
          next hboth => exact ⟨fun _ => hboth, ih (hupper.child key) h hleaf⟩
          next => exact absurd hleaf (h value)
  · rintro ⟨hleaf, hkeeps⟩
    rw [overlay_of_keeps hupper hkeeps (List.prefix_refl path), hleaf]

/-! ## What is left of many trees -/

/-- On the way to a leaf that is left everything is as in the tree it is from. -/
theorem foldl_overlay_of_tops (htrees : ∀ tree ∈ trees, tree.Grounded) {base tree : View κ σ} {front : List κ}
    (h : Tops trees path tree value) (hfront : front <+: path) : trees.foldl overlay base front = tree front := by
  induction trees using List.reverseRecOn generalizing front with
  | nil =>
      obtain ⟨-, after, hlast, -⟩ := h
      exact absurd hlast.mem List.not_mem_nil
  | append_singleton trees next ih =>
      have hnext := htrees next (by simp)
      rw [List.foldl_append, List.foldl_cons, List.foldl_nil]
      rcases h.concat_cases with rfl | ⟨-, htops, hkeeps⟩
      · exact overlay_of_upper_leaf hnext h.leaf hfront
      · have hbelow : ∀ other, other <+: path → trees.foldl overlay base other = tree other := fun other hother =>
          ih (fun tree htree => htrees tree (by simp [htree])) htops hother
        rw [overlay_of_keeps hnext ((keeps_congr hbelow).mpr hkeeps) hfront, hbelow front hfront]

theorem foldl_overlay_leaf_iff (htrees : ∀ tree ∈ trees, tree.Grounded) {base : View κ σ}
    (hbase : ∀ other, base path ≠ some (.leaf other)) :
    trees.foldl overlay base path = some (.leaf value) ↔ ∃ tree, Tops trees path tree value := by
  constructor
  · intro hleaf
    induction trees using List.reverseRecOn with
    | nil => exact absurd hleaf (hbase value)
    | append_singleton trees next ih =>
        have hnext := htrees next (by simp)
        have hbelow : ∀ tree ∈ trees, tree.Grounded := fun tree htree => htrees tree (by simp [htree])
        rw [List.foldl_append, List.foldl_cons, List.foldl_nil] at hleaf
        by_cases hupper : next.HasLeaf path
        · obtain ⟨other, hother⟩ := hupper
          rw [overlay_of_upper_leaf hnext hother (List.prefix_refl path)] at hleaf
          exact ⟨next, hleaf, [], LastWith.last ⟨other, hother⟩ trees, by simp⟩
        · obtain ⟨hlower, hkeeps⟩ := (overlay_leaf_iff hnext (not_exists.mp hupper)).mp hleaf
          obtain ⟨tree, htops⟩ := ih hbelow hlower
          have hsame : ∀ front, front <+: path → trees.foldl overlay base front = tree front := fun front hfront =>
            foldl_overlay_of_tops hbelow htops hfront
          exact ⟨tree, htops.concat hupper ((keeps_congr hsame).mp hkeeps)⟩
  · rintro ⟨tree, htops⟩
    rw [foldl_overlay_of_tops htrees htops (List.prefix_refl path), htops.leaf]

end Overlay
