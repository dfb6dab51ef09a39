import Codrex.Config.Lemmas.Aliases
import Codrex.Lib.Overlay

/-!
# The effective config as layers laid over each other

A value is seen as what stands at each path. What is merged is the overlay of the base and the normalised value, so that
the effective config is the overlay of the normalised layers.
-/

namespace Codrex.Config
open Text Overlay

/-! ## What stands at each path -/

namespace TomlValue

def node : TomlValue → Node Scalar
  | .scalar value => .leaf value
  | .array _ => .list
  | .table _ => .table

def view (value : TomlValue) : View Str Scalar := fun path => (value.at? path).map node

variable {value : TomlValue}

theorem node_eq_leaf {leaf : Scalar} : value.node = .leaf leaf ↔ value = .scalar leaf := by
  cases value <;> simp [node]

theorem node_eq_table : value.node = .table ↔ value.isTable = true := by
  cases value <;> simp [node, isTable]

theorem view_eq_leaf {path : List Str} {leaf : Scalar} :
    value.view path = some (.leaf leaf) ↔ value.at? path = some (.scalar leaf) := by
  rw [view, Option.map_eq_some_iff]
  constructor
  · rintro ⟨found, hfound, hnode⟩
    rw [hfound, node_eq_leaf.mp hnode]
  · exact fun h => ⟨_, h, rfl⟩

@[simp] theorem view_nil (value : TomlValue) : value.view [] = some value.node := rfl

theorem child_view_some {child : TomlValue} {key : Str} (h : value.children.lookup key = some child) :
    value.view.child key = child.view := by
  funext path
  rw [View.child, view, at?, h]
  rfl

theorem child_view_none {key : Str} (h : value.children.lookup key = none) : value.view.child key = fun _ => none := by
  funext path
  rw [View.child, view, at?, h]
  rfl

theorem grounded_view (value : TomlValue) : value.view.Grounded := by
  intro path key rest h
  induction path generalizing value with
  | nil =>
      cases value with
      | scalar => cases h
      | array => exact .inl rfl
      | table => exact .inr rfl
  | cons first path ih =>
      cases hchild : value.children.lookup first with
      | none =>
          have hnone : value.view (first :: path ++ key :: rest) = none :=
            congrFun (child_view_none hchild) (path ++ key :: rest)
          rw [hnone] at h
          cases h
      | some child =>
          have hbelow : ∀ other, value.view (first :: other) = child.view other := congrFun (child_view_some hchild)
          rw [hbelow]
          rw [List.cons_append, hbelow] at h
          exact ih child h

end TomlValue

/-! ## Well-formed values without legacy keys -/

inductive NoLegacy : List Str → TomlValue → Prop
  | scalar {path : List Str} {value : Scalar} : NoLegacy path (.scalar value)
  | array {path : List Str} {items : List TomlValue} : NoLegacy path (.array items)
  | table {path : List Str} {entries : TomlMap} (here : IsCanonical path entries)
      (below : ∀ key value, entries.lookup key = some value → NoLegacy (path ++ [key]) value) :
      NoLegacy path (.table entries)

theorem noLegacy_normalized (path : List Str) (value : TomlValue) : NoLegacy path (normalizedWithKeyAliases path value) := by
  induction value using TomlValue.induct generalizing path with
  | scalar value => exact .scalar
  | array items _ => exact .array
  | table entries ih =>
      rw [normalizedWithKeyAliases_table]
      refine .table (fun keyAlias hmem hpath => ?_) fun key value hvalue => ?_
      · rw [Entries.lookup_map fun key => normalizedWithKeyAliases (path ++ [key]),
          isCanonical_normalizeKeyAliases path entries keyAlias hmem hpath]
        rfl
      · rw [Entries.lookup_map fun key => normalizedWithKeyAliases (path ++ [key])] at hvalue
        obtain ⟨own, hown, rfl⟩ := Option.map_eq_some_iff.mp hvalue
        obtain ⟨first, hfirst⟩ := mem_normalizeKeyAliases (Entries.mem_of_lookup hown)
        exact ih (first, own) hfirst (path ++ [key])

theorem wellFormed_table_iff {entries : TomlMap} : (TomlValue.table entries).WellFormed ↔
    (Entries.keys entries).Nodup ∧ ∀ key value, entries.lookup key = some value → value.WellFormed := by
  constructor
  · rintro (_ | _ | ⟨hnodup, hbelow⟩)
    exact ⟨hnodup, fun key value hvalue => hbelow (key, value) (Entries.mem_of_lookup hvalue)⟩
  · rintro ⟨hnodup, hbelow⟩
    exact .table hnodup fun entry hentry => hbelow entry.1 entry.2 (Entries.lookup_of_mem hnodup hentry)

variable {path : List Str}

theorem wellFormed_of_mem_normalizeKeyAliases {entries : TomlMap} (h : (TomlValue.table entries).WellFormed) {key : Str}
    {value : TomlValue} (hmem : (key, value) ∈ normalizeKeyAliases path entries) : value.WellFormed := by
  obtain ⟨hnodup, hbelow⟩ := wellFormed_table_iff.mp h
  obtain ⟨first, hfirst⟩ := mem_normalizeKeyAliases hmem
  exact hbelow first value (Entries.lookup_of_mem hnodup hfirst)

theorem wellFormed_normalized {value : TomlValue} (h : value.WellFormed) (path : List Str) :
    (normalizedWithKeyAliases path value).WellFormed := by
  induction value using TomlValue.induct generalizing path with
  | scalar value => exact .scalar
  | array items ih =>
      rw [normalizedWithKeyAliases, normalizedItems_eq]
      cases h with
      | array hbelow =>
          refine .array fun item hitem => ?_
          obtain ⟨own, hown, rfl⟩ := List.mem_map.mp hitem
          exact ih own hown (hbelow own hown) path
  | table entries ih =>
      rw [normalizedWithKeyAliases_table]
      have hnodup : (Entries.keys (normalizeKeyAliases path entries)).Nodup :=
        nodup_normalizeKeyAliases (wellFormed_table_iff.mp h).1
      refine .table ?_ fun entry hentry => ?_
      · rw [Entries.keys, List.map_map]
        exact hnodup
      · obtain ⟨⟨key, own⟩, hown, rfl⟩ := List.mem_map.mp hentry
        obtain ⟨first, hfirst⟩ := mem_normalizeKeyAliases hown
        exact ih (first, own) hfirst (wellFormed_of_mem_normalizeKeyAliases h hown) (path ++ [key])

/-! ## One merge -/

def mergeEntry (path : List Str) (key : Str) (existing : Option TomlValue) (value : TomlValue) : TomlValue :=
  match existing with
  | some existing => mergeTomlValuesAtPath existing value (path ++ [key])
  | none => normalizedWithKeyAliases (path ++ [key]) value

theorem merge_table (base overlay : TomlMap) (path : List Str) :
    mergeTomlValuesAtPath (.table base) (.table overlay) path = .table
      (Entries.updateAll (mergeEntry path) (normalizeKeyAliases path overlay) (normalizeKeyAliases path base)) := by
  rw [mergeTomlValuesAtPath, Entries.updateAll]
  congr 1
  conv_rhs => rw [← List.foldl_attach]
  congr 1
  funext merged entry
  cases hexisting : merged.lookup entry.1.1 with
  | some existing => rfl
  | none => rfl

theorem merge_of_not_tables {base overlay : TomlValue} (h : ¬ (base.isTable = true ∧ overlay.isTable = true))
    (path : List Str) : mergeTomlValuesAtPath base overlay path = normalizedWithKeyAliases path overlay := by
  rw [mergeTomlValuesAtPath]
  rintro baseTable overlayTable rfl rfl
  exact h ⟨rfl, rfl⟩

/-- What is merged keeps its form and is the overlay of the base and the normalised value. -/
structure Merged (base overlay merged : TomlValue) (path : List Str) : Prop where
  view : merged.view = Overlay.overlay base.view (normalizedWithKeyAliases path overlay).view
  noLegacy : NoLegacy path merged
  wellFormed : merged.WellFormed

theorem merged_of_not_tables {base overlay : TomlValue} (h : ¬ (base.isTable = true ∧ overlay.isTable = true))
    (hoverlay : overlay.WellFormed) : Merged base overlay (mergeTomlValuesAtPath base overlay path) path := by
  rw [merge_of_not_tables h]
  have hroot : (normalizedWithKeyAliases path overlay).node = .table ↔ overlay.isTable = true := by
    cases overlay <;> simp [normalizedWithKeyAliases, TomlValue.node, TomlValue.isTable]
  constructor
  case view =>
    symm
    apply overlay_of_not_tables
    · simp
    · rw [TomlValue.view_nil, TomlValue.view_nil, Option.some.injEq, Option.some.injEq, hroot, TomlValue.node_eq_table]
      exact h
  case noLegacy => exact noLegacy_normalized path overlay
  case wellFormed => exact wellFormed_normalized hoverlay path

section

variable {overlayTable : TomlMap}

/-- The entry of a key in the merged table: the base's, the normalised one, or what is merged of both. -/
theorem lookup_merged (hoverlay : (TomlValue.table overlayTable).WellFormed) (path : List Str) (baseTable : TomlMap)
    (key : Str) :
    (Entries.updateAll (mergeEntry path) (normalizeKeyAliases path overlayTable) baseTable).lookup key =
      match (normalizeKeyAliases path overlayTable).lookup key with
      | none => baseTable.lookup key
      | some value => some (mergeEntry path key (baseTable.lookup key) value) := by
  have hnodup : (Entries.keys (normalizeKeyAliases path overlayTable)).Nodup :=
    nodup_normalizeKeyAliases (wellFormed_table_iff.mp hoverlay).1
  rw [Entries.lookup_updateAll (mergeEntry path) hnodup]
  cases (normalizeKeyAliases path overlayTable).lookup key with
  | none => rfl
  | some value => rfl

theorem view_table_congr {first second : TomlMap} {key : Str} (h : first.lookup key = second.lookup key)
    (rest : List Str) : (TomlValue.table first).view (key :: rest) = (TomlValue.table second).view (key :: rest) := by
  rw [TomlValue.view, TomlValue.view, TomlValue.at?, TomlValue.at?, TomlValue.children, TomlValue.children, h]

theorem view_table_cons {entries : TomlMap} {key : Str} {value : TomlValue} (h : entries.lookup key = some value)
    (rest : List Str) : (TomlValue.table entries).view (key :: rest) = value.view rest := by
  have hchild : (TomlValue.table entries).view.child key = value.view := TomlValue.child_view_some h
  exact congrFun hchild rest

end

theorem merged_mergeTomlValuesAtPath {base overlay : TomlValue} (hlegacy : NoLegacy path base) (hbase : base.WellFormed)
    (hoverlay : overlay.WellFormed) : Merged base overlay (mergeTomlValuesAtPath base overlay path) path := by
  induction overlay using TomlValue.induct generalizing base path with
  | scalar value => exact merged_of_not_tables (fun h => Bool.false_ne_true h.2) hoverlay
  | array items _ => exact merged_of_not_tables (fun h => Bool.false_ne_true h.2) hoverlay
  | table overlayTable ih =>
      cases base with
      | scalar value => exact merged_of_not_tables (fun h => Bool.false_ne_true h.1) hoverlay
      | array items => exact merged_of_not_tables (fun h => Bool.false_ne_true h.1) hoverlay
      | table baseTable =>
          obtain ⟨hhere, hbelow⟩ : IsCanonical path baseTable ∧
              ∀ key value, baseTable.lookup key = some value → NoLegacy (path ++ [key]) value := by
            cases hlegacy with
            | table here below => exact ⟨here, below⟩
          obtain ⟨hbaseNodup, hbaseBelow⟩ := wellFormed_table_iff.mp hbase
          have hnormalized := normalizedWithKeyAliases_table path overlayTable
          rw [merge_table, normalizeKeyAliases_of_canonical hhere]
          -- One key after the other: what both tables have is merged by induction.
          have hentry : ∀ key existing value, (normalizeKeyAliases path overlayTable).lookup key = some value →
              baseTable.lookup key = some existing →
              Merged existing value (mergeTomlValuesAtPath existing value (path ++ [key])) (path ++ [key]) := by
            intro key existing value hvalue hexisting
            have hmem := Entries.mem_of_lookup hvalue
            obtain ⟨first, hfirst⟩ := mem_normalizeKeyAliases hmem
            exact ih (first, value) hfirst (hbelow key existing hexisting) (hbaseBelow key existing hexisting)
              (wellFormed_of_mem_normalizeKeyAliases hoverlay hmem)
          have hform : ∀ key value, (Entries.updateAll (mergeEntry path) (normalizeKeyAliases path overlayTable)
              baseTable).lookup key = some value → NoLegacy (path ++ [key]) value ∧ value.WellFormed := by
            intro key value hvalue
            rw [lookup_merged hoverlay] at hvalue
            split at hvalue
            next => exact ⟨hbelow key value hvalue, hbaseBelow key value hvalue⟩
            next own hown =>
              obtain rfl := Option.some.inj hvalue
              cases hexisting : baseTable.lookup key with
              | none =>
                  exact ⟨noLegacy_normalized _ own, wellFormed_normalized
                    (wellFormed_of_mem_normalizeKeyAliases hoverlay (Entries.mem_of_lookup hown)) _⟩
              | some existing =>
                  have hmerged := hentry key existing own hown hexisting
                  exact ⟨hmerged.noLegacy, hmerged.wellFormed⟩
          constructor
          case view =>
            funext place
            cases place with
            | nil => simp [overlay, hnormalized, TomlValue.node]
            | cons key rest =>
                have hupper : (normalizedWithKeyAliases path (.table overlayTable)).children.lookup key =
                    ((normalizeKeyAliases path overlayTable).lookup key).map
                      (normalizedWithKeyAliases (path ++ [key])) := by
                  rw [hnormalized]
                  exact Entries.lookup_map (fun key => normalizedWithKeyAliases (path ++ [key])) _
                rw [overlay_of_tables rfl (by rw [hnormalized]; rfl)]
                have hlookup := lookup_merged hoverlay path baseTable key
                cases hown : (normalizeKeyAliases path overlayTable).lookup key with
                | none =>
                    rw [hown] at hupper hlookup
                    rw [TomlValue.child_view_none hupper, overlay_nothing rfl, view_table_congr hlookup]
                    rfl
                | some own =>
                    rw [hown] at hupper hlookup
                    rw [TomlValue.child_view_some hupper, view_table_cons hlookup]
                    cases hexisting : baseTable.lookup key with
                    | none =>
                        rw [TomlValue.child_view_none hexisting, overlay_of_not_tables (by simp) (by simp)]
                        rfl
                    | some existing =>
                        rw [TomlValue.child_view_some hexisting]
                        exact congrFun (hentry key existing own hown hexisting).view rest
          case noLegacy =>
            refine .table (fun keyAlias hmem hpath => ?_) fun key value hvalue => (hform key value hvalue).1
            rw [lookup_merged hoverlay, isCanonical_normalizeKeyAliases path overlayTable keyAlias hmem hpath]
            exact hhere keyAlias hmem hpath
          case wellFormed =>
            exact wellFormed_table_iff.mpr ⟨Entries.nodup_updateAll _ _ hbaseNodup,
              fun key value hvalue => (hform key value hvalue).2⟩

/-! ## Many layers -/

theorem view_foldl_merge (layers : List ConfigLayerEntry) {base : TomlValue} (hlegacy : NoLegacy [] base)
    (hbase : base.WellFormed) :
    (layers.foldl (fun merged layer => mergeTomlValues merged layer.config) base).view =
      (layers.map fun layer => layer.normalizedConfig.view).foldl overlay base.view := by
  induction layers generalizing base with
  | nil => rfl
  | cons layer layers ih =>
      have hmerged : Merged base layer.config (mergeTomlValues base layer.config) [] :=
        merged_mergeTomlValuesAtPath hlegacy hbase layer.wellFormed
      rw [List.foldl_cons, ih hmerged.noLegacy hmerged.wellFormed, hmerged.view]
      rfl

/-- The effective config is the overlay of the normalised layers. -/
theorem view_effectiveConfig (stack : ConfigLayerStack) : stack.effectiveConfig.view =
    (stack.getLayers.map fun layer => layer.normalizedConfig.view).foldl overlay (TomlValue.table []).view :=
  view_foldl_merge stack.getLayers (.table (fun _ _ _ => rfl) fun _ _ h => by cases h)
    (.table List.nodup_nil fun _ h => by cases h)

def HasScalar (path : List Str) (layer : ConfigLayerEntry) : Prop :=
  ∃ value, layer.normalizedConfig.at? path = some (.scalar value)

theorem isHighest_iff {stack : ConfigLayerStack} {layer : ConfigLayerEntry} {higher : List ConfigLayerEntry}
    {value : Scalar} : IsHighest stack path layer higher value ↔
      layer.normalizedConfig.at? path = some (.scalar value) ∧
        LastWith (HasScalar path) stack.getLayers layer higher := by
  constructor
  · rintro ⟨henabled, hhere, hnone⟩
    exact ⟨hhere, ⟨value, hhere⟩, henabled, fun other hother hown => hown.elim (hnone other hother)⟩
  · rintro ⟨hhere, -, henabled, hnone⟩
    exact ⟨henabled, hhere, fun other hother own hown => hnone other hother ⟨own, hown⟩⟩

theorem lastWith_map_iff {layers : List ConfigLayerEntry} {tree : View Str Scalar} {after : List (View Str Scalar)} :
    LastWith (View.HasLeaf path) (layers.map fun layer => layer.normalizedConfig.view) tree after ↔
      ∃ layer higher, tree = layer.normalizedConfig.view ∧ after = higher.map (fun layer => layer.normalizedConfig.view) ∧
        LastWith (HasScalar path) layers layer higher := by
  have hleaf : ∀ layer : ConfigLayerEntry, layer.normalizedConfig.view.HasLeaf path ↔ HasScalar path layer := fun layer =>
    exists_congr fun value => TomlValue.view_eq_leaf
  constructor
  · rintro ⟨hhere, ⟨before, hsplit⟩, hnone⟩
    obtain ⟨lower, rest, hlayers, -, hrest⟩ := List.map_eq_append_iff.mp hsplit
    obtain ⟨layer, higher, rfl, rfl, rfl⟩ := List.map_eq_cons_iff.mp hrest
    exact ⟨layer, higher, rfl, rfl, (hleaf layer).mp hhere, ⟨lower, hlayers⟩, fun other hother hown =>
      hnone _ (List.mem_map_of_mem hother) ((hleaf other).mpr hown)⟩
  · rintro ⟨layer, higher, rfl, rfl, hhere, ⟨lower, rfl⟩, hnone⟩
    refine ⟨(hleaf layer).mpr hhere, ⟨lower.map fun layer => layer.normalizedConfig.view, by simp⟩, fun later hlater => ?_⟩
    obtain ⟨other, hother, rfl⟩ := List.mem_map.mp hlater
    exact fun hown => hnone other hother ((hleaf other).mp hown)

/-- A scalar of the effective config is that of the highest layer with one there, which nothing above it replaces. -/
theorem effective_scalar_iff (stack : ConfigLayerStack) {value : Scalar} :
    stack.effectiveConfig.at? path = some (.scalar value) ↔ ∃ layer higher, IsHighest stack path layer higher value ∧
      ∀ other ∈ higher, Keeps layer.normalizedConfig.view other.normalizedConfig.view path := by
  have hgrounded : ∀ tree ∈ stack.getLayers.map fun layer => layer.normalizedConfig.view, tree.Grounded := by
    intro tree htree
    obtain ⟨layer, -, rfl⟩ := List.mem_map.mp htree
    exact layer.normalizedConfig.grounded_view
  have hbase : ∀ other, (TomlValue.table []).view path ≠ some (.leaf other) := by
    intro other hleaf
    cases path with
    | nil => cases hleaf
    | cons key path => cases hleaf
  rw [← TomlValue.view_eq_leaf, view_effectiveConfig, foldl_overlay_leaf_iff hgrounded hbase]
  constructor
  · rintro ⟨tree, hleaf, after, hlast, hkeeps⟩
    obtain ⟨layer, higher, rfl, rfl, hhighest⟩ := lastWith_map_iff.mp hlast
    exact ⟨layer, higher, isHighest_iff.mpr ⟨TomlValue.view_eq_leaf.mp hleaf, hhighest⟩,
      fun other hother => hkeeps _ (List.mem_map_of_mem hother)⟩
  · rintro ⟨layer, higher, hhighest, hkeeps⟩
    obtain ⟨hhere, hlast⟩ := isHighest_iff.mp hhighest
    refine ⟨_, TomlValue.view_eq_leaf.mpr hhere, _, lastWith_map_iff.mpr ⟨layer, higher, rfl, rfl, hlast⟩,
      fun tree htree => ?_⟩
    obtain ⟨other, hother, rfl⟩ := List.mem_map.mp htree
    exact hkeeps other hother

theorem keeps_view_iff {lower upper : TomlValue} : Keeps lower.view upper.view path ↔
    ∀ front, front <+: path → ∀ replaced, upper.at? front = some replaced →
      replaced.isTable = true ∧ ∃ own, lower.at? front = some own ∧ own.isTable = true := by
  have htable : ∀ (value : TomlValue) front, value.view front = some .table ↔
      ∃ found, value.at? front = some found ∧ found.isTable = true := by
    intro value front
    rw [TomlValue.view, Option.map_eq_some_iff]
    simp only [TomlValue.node_eq_table]
  rw [Keeps]
  refine forall₂_congr fun front _ => ?_
  rw [htable, htable]
  cases hfound : upper.at? front with
  | none => simp [TomlValue.view, hfound]
  | some replaced => simp [TomlValue.view, hfound, and_comm]

end Codrex.Config
