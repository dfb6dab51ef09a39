import Codrex.ExecPolicy.Policy
import Codrex.Lib.Entries
import Codrex.Lib.Text
import Mathlib.Data.List.AList

/-!
# Merging of TOML values (`config/src/merge.rs`, `config/src/key_aliases.rs`)

A table is the list of its entries. The order of the entries is not observed. Floats and datetimes are opaque.
-/

namespace Codrex.Config
open Text

inductive Scalar
  | string (value : Str)
  | integer (value : Int)
  | float (bits : UInt64)
  | boolean (value : Bool)
  | datetime (text : Str)
  deriving DecidableEq

inductive TomlValue
  | scalar (value : Scalar)
  | array (items : List TomlValue)
  | table (entries : List (Str × TomlValue))

abbrev TomlMap := List (Str × TomlValue)

/-! ## Legacy keys -/

structure ConfigKeyAlias where
  tablePath : List Str
  legacyKey : Str
  canonicalKey : Str

def configKeyAliases : List ConfigKeyAlias :=
  [⟨["memories"], "no_memories_if_mcp_or_web_search", "disable_on_external_context"⟩,
    ⟨["agents"], "max_concurrent_threads_per_session", "max_threads"⟩]

def ConfigKeyAlias.apply (keyAlias : ConfigKeyAlias) (path : List Str) (table : TomlMap) : TomlMap :=
  if path = keyAlias.tablePath then
    match table.lookup keyAlias.legacyKey with
    | some value =>
        let removed := Entries.erase keyAlias.legacyKey table
        if (removed.lookup keyAlias.canonicalKey).isSome then removed else removed ++ [(keyAlias.canonicalKey, value)]
    | none => table
  else table

def normalizeKeyAliases (path : List Str) (table : TomlMap) : TomlMap :=
  configKeyAliases.foldl (fun table keyAlias => keyAlias.apply path table) table

mutual

def normalizedWithKeyAliases (path : List Str) : TomlValue → TomlValue
  | .table entries => .table (normalizeKeyAliases path (normalizedEntries path entries))
  | .array items => .array (normalizedItems path items)
  | .scalar value => .scalar value

def normalizedEntries (path : List Str) : TomlMap → TomlMap
  | [] => []
  | (key, child) :: rest => (key, normalizedWithKeyAliases (path ++ [key]) child) :: normalizedEntries path rest

/-- The items of an array are at the path of the array. -/
def normalizedItems (path : List Str) : List TomlValue → List TomlValue
  | [] => []
  | item :: rest => normalizedWithKeyAliases path item :: normalizedItems path rest

end

/-! ## Merging -/

theorem mem_apply {keyAlias : ConfigKeyAlias} {path : List Str} {table : TomlMap} {key : Str} {value : TomlValue}
    (h : (key, value) ∈ keyAlias.apply path table) : ∃ own, (own, value) ∈ table := by
  rw [ConfigKeyAlias.apply] at h
  split at h
  · split at h
    next found hfound =>
      have hmem : (keyAlias.legacyKey, found) ∈ table := Entries.mem_of_lookup hfound
      dsimp only at h
      split at h
      · exact ⟨key, (List.mem_filter.mp h).1⟩
      · rcases List.mem_append.mp h with h | h
        · exact ⟨key, (List.mem_filter.mp h).1⟩
        · cases List.mem_singleton.mp h
          exact ⟨_, hmem⟩
    next => exact ⟨key, h⟩
  · exact ⟨key, h⟩

theorem mem_normalizeKeyAliases {path : List Str} {table : TomlMap} {key : Str} {value : TomlValue}
    (h : (key, value) ∈ normalizeKeyAliases path table) : ∃ own, (own, value) ∈ table := by
  obtain ⟨own, hown⟩ := mem_apply h
  exact mem_apply hown

def mergeTomlValuesAtPath (base overlay : TomlValue) (path : List Str) : TomlValue :=
  match base, overlay with
  | .table baseTable, .table overlayTable =>
      .table ((normalizeKeyAliases path overlayTable).attach.foldl (fun merged entry =>
          match merged.lookup entry.1.1 with
          | some existing =>
              Entries.upsert entry.1.1 (mergeTomlValuesAtPath existing entry.1.2 (path ++ [entry.1.1])) merged
          | none => Entries.upsert entry.1.1 (normalizedWithKeyAliases (path ++ [entry.1.1]) entry.1.2) merged)
        (normalizeKeyAliases path baseTable))
  | _, overlay => normalizedWithKeyAliases path overlay
termination_by sizeOf overlay
decreasing_by
  obtain ⟨⟨key, value⟩, hentry⟩ := entry
  obtain ⟨own, hown⟩ := mem_normalizeKeyAliases hentry
  have hlt := List.sizeOf_lt_of_mem hown
  simp only [Prod.mk.sizeOf_spec] at hlt
  simp only [TomlValue.table.sizeOf_spec]
  omega

def mergeTomlValues (base overlay : TomlValue) : TomlValue := mergeTomlValuesAtPath base overlay []

end Codrex.Config

/-!
## Config layers (`config/src/state.rs`, `config/src/fingerprint.rs`)

The effective config of a stack of layers, and the layers its fields come from.
-/

namespace Codrex.Config
open Text

deriving instance DecidableEq for ExecPolicy.ConfigLayerSource

structure ConfigLayerMetadata where
  name : ExecPolicy.ConfigLayerSource
  version : Str
  deriving DecidableEq

/-- In every table each key stands once. -/
inductive TomlValue.WellFormed : TomlValue → Prop
  | scalar {value : Scalar} : WellFormed (.scalar value)
  | array {items : List TomlValue} (below : ∀ item ∈ items, WellFormed item) : WellFormed (.array items)
  | table {entries : TomlMap} (nodup : (Entries.keys entries).Nodup) (below : ∀ entry ∈ entries, WellFormed entry.2) :
      WellFormed (.table entries)

structure ConfigLayerEntry where
  name : ExecPolicy.ConfigLayerSource
  config : TomlValue
  wellFormed : config.WellFormed
  version : Str
  disabledReason : Option Str

def ConfigLayerEntry.metadata (layer : ConfigLayerEntry) : ConfigLayerMetadata := ⟨layer.name, layer.version⟩

/-- Layers are listed from the lowest precedence to the highest. -/
structure ConfigLayerStack where
  layers : List ConfigLayerEntry

abbrev Origins := AList fun _ : Str => ConfigLayerMetadata

/-- `path.join(".")`. -/
def dotted (path : List Str) : Str := ['.'].intercalate path

mutual

def recordOrigins (layerMeta : ConfigLayerMetadata) (path : List Str) (origins : Origins) : TomlValue → Origins
  | .table entries => recordEntries layerMeta path origins entries
  | .array items => recordItems layerMeta path 0 origins items
  | .scalar _ => if path ≠ [] then origins.insert (dotted path) layerMeta else origins

def recordEntries (layerMeta : ConfigLayerMetadata) (path : List Str) (origins : Origins) : TomlMap → Origins
  | [] => origins
  | (key, value) :: rest =>
      recordEntries layerMeta path (recordOrigins layerMeta (path ++ [key]) origins value) rest

/-- The index is an `i32`: an array with more items than it counts is not considered. -/
def recordItems (layerMeta : ConfigLayerMetadata) (path : List Str) (idx : Nat) (origins : Origins) :
    List TomlValue → Origins
  | [] => origins
  | item :: rest =>
      recordItems layerMeta path (idx + 1) (recordOrigins layerMeta (path ++ [idx.repr.toList]) origins item) rest

end

namespace ConfigLayerStack

/-- `get_layers(LowestPrecedenceFirst, include_disabled = false)`. -/
def getLayers (stack : ConfigLayerStack) : List ConfigLayerEntry := stack.layers.filter (·.disabledReason.isNone)

def effectiveConfig (stack : ConfigLayerStack) : TomlValue :=
  stack.getLayers.foldl (fun merged layer => mergeTomlValues merged layer.config) (.table [])

def origins (stack : ConfigLayerStack) : Origins :=
  stack.getLayers.foldl
    (fun origins layer => recordOrigins layer.metadata [] origins (normalizedWithKeyAliases [] layer.config)) ∅

end ConfigLayerStack

end Codrex.Config

/-!
## Where the fields of the config come from

Every scalar of the effective config has an origin, the highest layer that has a scalar there, and nothing else has one.
-/

namespace Codrex.Config
open Text

namespace TomlValue

def numbered (items : List TomlValue) (idx : Nat) : TomlMap := items.zipIdx idx |>.map fun (item, idx) => (idx.repr.toList, item)

/-- The entries of a table, and the items of an array by their number. -/
def children : TomlValue → TomlMap
  | .scalar _ => []
  | .array items => numbered items 0
  | .table entries => entries

/-- What stands at a path. -/
def at? (value : TomlValue) : List Str → Option TomlValue
  | [] => some value
  | key :: path => (value.children.lookup key).bind (at? · path)

def isTable : TomlValue → Bool
  | .table _ => true
  | _ => false

/-- No key of a table has a dot in it. -/
inductive DotFree : TomlValue → Prop
  | scalar {value : Scalar} : DotFree (.scalar value)
  | array {items : List TomlValue} (below : ∀ item ∈ items, DotFree item) : DotFree (.array items)
  | table {entries : TomlMap} (keys : ∀ entry ∈ entries, '.' ∉ entry.1) (below : ∀ entry ∈ entries, DotFree entry.2) :
      DotFree (.table entries)

end TomlValue

def ConfigLayerEntry.normalizedConfig (layer : ConfigLayerEntry) : TomlValue := normalizedWithKeyAliases [] layer.config

/-- The layers are tables without dots in their keys. -/
structure PlainLayers (stack : ConfigLayerStack) : Prop where
  tables : ∀ layer ∈ stack.layers, layer.config.isTable = true
  dotFree : ∀ layer ∈ stack.layers, layer.config.DotFree

/-- The layer is the highest one with a scalar at the path. -/
structure IsHighest (stack : ConfigLayerStack) (path : List Str) (layer : ConfigLayerEntry)
    (higher : List ConfigLayerEntry) (value : Scalar) : Prop where
  enabled : ∃ lower, stack.getLayers = lower ++ layer :: higher
  here : layer.normalizedConfig.at? path = some (.scalar value)
  noneHigher : ∀ other ∈ higher, ∀ own, other.normalizedConfig.at? path ≠ some (.scalar own)

structure OriginsAgree (stack : ConfigLayerStack) : Prop where
  keys : ∀ key, (stack.origins.lookup key).isSome ↔
    ∃ path value, stack.effectiveConfig.at? path = some (.scalar value) ∧ key = dotted path
  recorded : ∀ path value, stack.effectiveConfig.at? path = some (.scalar value) →
    ∃ layer higher, IsHighest stack path layer higher value ∧
      stack.origins.lookup (dotted path) = some layer.metadata

/-- Above the highest layer with a scalar at a path, the layers have nothing on the path but tables, and only where that
layer has tables. -/
def KeepsScalars (stack : ConfigLayerStack) : Prop :=
  ∀ path layer higher value, IsHighest stack path layer higher value → ∀ other ∈ higher, ∀ front, front <+: path →
    ∀ replaced, other.normalizedConfig.at? front = some replaced →
      replaced.isTable = true ∧ ∃ own, layer.normalizedConfig.at? front = some own ∧ own.isTable = true

end Codrex.Config
