import Codrex.Config.Lemmas.Merge

/-!
# The origins that are recorded

Every scalar of a layer is recorded under the dotted path to it, and later layers overwrite. Without dots in the keys a
dotted path stands for one path.
-/

namespace Codrex.Config
open Text

/-! ## Dotted paths -/

theorem dotted_injective {first second : List Str} (hfirst : ∀ key ∈ first, '.' ∉ key) (hsecond : ∀ key ∈ second, '.' ∉ key)
    (hne : first ≠ []) (hne' : second ≠ []) (h : dotted first = dotted second) : first = second := by
  rw [dotted, dotted] at h
  rw [← List.splitOn_intercalate '.' hfirst hne, h, List.splitOn_intercalate '.' hsecond hne']

namespace TomlValue

theorem mem_numbered {items : List TomlValue} {idx : Nat} {entry : Str × TomlValue} (h : entry ∈ numbered items idx) :
    entry.2 ∈ items ∧ ∃ place : Nat, entry.1 = place.repr.toList := by
  obtain ⟨⟨item, place⟩, hmem, rfl⟩ := List.mem_map.mp h
  exact ⟨List.fst_mem_of_mem_zipIdx hmem, place, rfl⟩

theorem nodup_numbered (items : List TomlValue) (idx : Nat) : (Entries.keys (numbered items idx)).Nodup := by
  have hkeys : Entries.keys (numbered items idx) = (List.range' idx items.length).map fun place => place.repr.toList := by
    rw [← List.zipIdx_map_snd idx items, Entries.keys, numbered, List.map_map, List.map_map]
    rfl
  rw [hkeys]
  exact List.Nodup.map (fun _ _ h => repr_injective h) List.nodup_range'

theorem nodup_children {value : TomlValue} (h : value.WellFormed) : (Entries.keys value.children).Nodup := by
  cases h with
  | scalar => exact List.nodup_nil
  | array => exact nodup_numbered _ _
  | table hnodup => exact hnodup

theorem dotFree_of_lookup {value child : TomlValue} {key : Str} (h : value.DotFree)
    (hchild : value.children.lookup key = some child) : '.' ∉ key ∧ child.DotFree := by
  have hmem := Entries.mem_of_lookup hchild
  cases h with
  | scalar => cases hchild
  | array hbelow =>
      obtain ⟨hitem, place, hplace⟩ := mem_numbered hmem
      refine ⟨fun hdot => ?_, hbelow child hitem⟩
      have hkey : key = place.repr.toList := hplace
      rw [hkey] at hdot
      exact absurd (isDigit_of_mem_repr hdot) (by decide)
  | table hkeys hbelow => exact ⟨hkeys _ hmem, hbelow _ hmem⟩

/-- The keys on the way to a place have no dots. -/
theorem dotFree_of_at? {value found : TomlValue} {path : List Str} (h : value.DotFree) (hfound : value.at? path = some found) :
    ∀ key ∈ path, '.' ∉ key := by
  induction path generalizing value with
  | nil => exact fun key hkey => by cases hkey
  | cons first path ih =>
      obtain ⟨child, hchild, hbelow⟩ := Option.bind_eq_some_iff.mp hfound
      obtain ⟨hfirst, hdots⟩ := dotFree_of_lookup h hchild
      intro key hkey
      rcases List.mem_cons.mp hkey with rfl | hkey
      · exact hfirst
      · exact ih hdots hbelow key hkey

end TomlValue

theorem mem_normalizeKeyAliases_key {path : List Str} {table : TomlMap} {entry : Str × TomlValue}
    (h : entry ∈ normalizeKeyAliases path table) :
    entry ∈ table ∨ ∃ keyAlias ∈ configKeyAliases, entry.1 = keyAlias.canonicalKey := by
  rcases normalizeKeyAliases_cases path with hsame | ⟨keyAlias, hmem, hpath, happly⟩
  · rw [(hsame table).1] at h
    exact .inl h
  · rw [happly, ConfigKeyAlias.apply, if_pos hpath] at h
    split at h
    · dsimp only at h
      split at h
      · exact .inl (List.mem_filter.mp h).1
      · rcases List.mem_append.mp h with h | h
        · exact .inl (List.mem_filter.mp h).1
        · rw [List.mem_singleton.mp h]
          exact .inr ⟨keyAlias, hmem, rfl⟩
    · exact .inl h

variable {value : TomlValue}

theorem dotFree_normalized (h : value.DotFree) (path : List Str) : (normalizedWithKeyAliases path value).DotFree := by
  induction value using TomlValue.induct generalizing path with
  | scalar value => exact .scalar
  | array items ih =>
      rw [normalizedWithKeyAliases, normalizedItems_eq]
      cases h with
      | array hbelow =>
          refine .array fun item hitem => ?_
          obtain ⟨own, hown, rfl⟩ := List.mem_map.mp hitem
          exact ih own hown (hbelow own hown) path
  | table entries ih =>
      rw [normalizedWithKeyAliases_table]
      cases h with
      | table hkeys hbelow =>
          refine .table (fun entry hentry => ?_) fun entry hentry => ?_
          · obtain ⟨own, hown, rfl⟩ := List.mem_map.mp hentry
            rcases mem_normalizeKeyAliases_key hown with hmem | ⟨keyAlias, hmem, hcanonical⟩
            · exact hkeys own hmem
            · simp only [configKeyAliases, List.mem_cons, List.not_mem_nil, or_false] at hmem
              dsimp only
              rw [hcanonical]
              rcases hmem with rfl | rfl
              · decide
              · decide
          · obtain ⟨⟨key, own⟩, hown, rfl⟩ := List.mem_map.mp hentry
            obtain ⟨first, hfirst⟩ := mem_normalizeKeyAliases hown
            exact ih (first, own) hfirst (hbelow _ hfirst) (path ++ [key])

/-! ## What one layer records -/

/-- The key is recorded for a scalar of the value at the path. -/
def Records (path : List Str) (value : TomlValue) (key : Str) : Prop :=
  ∃ place leaf, value.at? place = some (.scalar leaf) ∧ path ++ place ≠ [] ∧ key = dotted (path ++ place)

variable {layerMeta : ConfigLayerMetadata} {key : Str}

theorem recordEntries_eq (path : List Str) (origins : Origins) (entries : TomlMap) :
    recordEntries layerMeta path origins entries =
      entries.foldl (fun origins entry => recordOrigins layerMeta (path ++ [entry.1]) origins entry.2) origins := by
  induction entries generalizing origins with
  | nil => rfl
  | cons entry entries ih =>
      obtain ⟨first, value⟩ := entry
      rw [recordEntries, ih]
      rfl

theorem recordItems_eq (path : List Str) (idx : Nat) (origins : Origins) (items : List TomlValue) :
    recordItems layerMeta path idx origins items = (TomlValue.numbered items idx).foldl
      (fun origins entry => recordOrigins layerMeta (path ++ [entry.1]) origins entry.2) origins := by
  induction items generalizing idx origins with
  | nil => rfl
  | cons item items ih =>
      rw [recordItems, ih]
      rfl

/-- A scalar inside is a scalar of one of the children. -/
theorem records_iff_children (hvalue : value.WellFormed) (hscalar : ∀ leaf, value ≠ .scalar leaf) (path : List Str) :
    Records path value key ↔ ∃ entry ∈ value.children, Records (path ++ [entry.1]) entry.2 key := by
  constructor
  · rintro ⟨place, leaf, hat, -, rfl⟩
    cases place with
    | nil => exact absurd (Option.some.inj hat) (hscalar leaf)
    | cons first place =>
        obtain ⟨child, hchild, hbelow⟩ := Option.bind_eq_some_iff.mp hat
        exact ⟨(first, child), Entries.mem_of_lookup hchild, place, leaf, hbelow, by simp, by simp⟩
  · rintro ⟨⟨first, child⟩, hmem, place, leaf, hat, -, rfl⟩
    refine ⟨first :: place, leaf, ?_, by simp, by simp⟩
    rw [TomlValue.at?, Entries.lookup_of_mem (TomlValue.nodup_children hvalue) hmem]
    exact hat

open Classical in
theorem lookup_foldl_record (path : List Str) {entries : TomlMap}
    (h : ∀ entry ∈ entries, ∀ origins : Origins, (recordOrigins layerMeta (path ++ [entry.1]) origins entry.2).lookup key =
      if Records (path ++ [entry.1]) entry.2 key then some layerMeta else origins.lookup key) (origins : Origins) :
    (entries.foldl (fun origins entry => recordOrigins layerMeta (path ++ [entry.1]) origins entry.2) origins).lookup key =
      if ∃ entry ∈ entries, Records (path ++ [entry.1]) entry.2 key then some layerMeta else origins.lookup key := by
  induction entries generalizing origins with
  | nil => simp
  | cons entry entries ih =>
      rw [List.foldl_cons, ih fun other hother => h other (List.mem_cons_of_mem _ hother),
        h entry List.mem_cons_self]
      by_cases hrest : ∃ other ∈ entries, Records (path ++ [other.1]) other.2 key
      · rw [if_pos hrest, if_pos]
        obtain ⟨other, hother, hrecords⟩ := hrest
        exact ⟨other, List.mem_cons_of_mem _ hother, hrecords⟩
      · rw [if_neg hrest]
        by_cases hhere : Records (path ++ [entry.1]) entry.2 key
        · rw [if_pos hhere, if_pos ⟨entry, List.mem_cons_self, hhere⟩]
        · rw [if_neg hhere, if_neg]
          rintro ⟨other, hother, hrecords⟩
          rcases List.mem_cons.mp hother with rfl | hother
          · exact hhere hrecords
          · exact hrest ⟨other, hother, hrecords⟩

open Classical in
/-- The keys of the scalars get the layer, and the others stay. -/
theorem lookup_recordOrigins (h : value.WellFormed) (path : List Str) (origins : Origins) :
    (recordOrigins layerMeta path origins value).lookup key =
      if Records path value key then some layerMeta else origins.lookup key := by
  induction value using TomlValue.induct generalizing path origins with
  | scalar leaf =>
      have hrecords : Records path (.scalar leaf) key ↔ path ≠ [] ∧ key = dotted path := by
        constructor
        · rintro ⟨place, found, hat, hne, rfl⟩
          cases place with
          | nil => exact ⟨by simpa using hne, by rw [List.append_nil]⟩
          | cons first place => cases hat
        · rintro ⟨hne, rfl⟩
          exact ⟨[], leaf, rfl, by simpa using hne, by rw [List.append_nil]⟩
      simp only [hrecords, recordOrigins]
      by_cases hpath : path = []
      · simp [hpath]
      · rw [if_pos hpath]
        by_cases hkey : key = dotted path
        · rw [if_pos ⟨hpath, hkey⟩, hkey, AList.lookup_insert]
        · rw [if_neg fun hboth => hkey hboth.2, AList.lookup_insert_ne hkey]
  | array items ih =>
      have hbelow : ∀ item ∈ items, item.WellFormed := by
        cases h with
        | array below => exact below
      rw [recordOrigins, recordItems_eq, lookup_foldl_record path fun entry hentry origins =>
        ih entry.2 (TomlValue.mem_numbered hentry).1 (hbelow _ (TomlValue.mem_numbered hentry).1) (path ++ [entry.1]) origins]
      simp only [records_iff_children h (fun _ => TomlValue.noConfusion), TomlValue.children]
  | table entries ih =>
      have hbelow : ∀ entry ∈ entries, entry.2.WellFormed := by
        cases h with
        | table _ below => exact below
      rw [recordOrigins, recordEntries_eq, lookup_foldl_record path fun entry hentry origins =>
        ih entry hentry (hbelow entry hentry) (path ++ [entry.1]) origins]
      simp only [records_iff_children h (fun _ => TomlValue.noConfusion), TomlValue.children]

/-! ## What many layers record -/

def LayerRecords (key : Str) (layer : ConfigLayerEntry) : Prop := Records [] layer.normalizedConfig key

theorem lookup_foldl_layers (layers : List ConfigLayerEntry) {found : ConfigLayerMetadata} :
    (layers.foldl (fun origins layer => recordOrigins layer.metadata [] origins layer.normalizedConfig)
        (∅ : Origins)).lookup key = some found ↔
      ∃ layer higher, LastWith (LayerRecords key) layers layer higher ∧
        layer.metadata = found := by
  induction layers using List.reverseRecOn with
  | nil =>
      constructor
      · exact fun h => by cases h
      · rintro ⟨layer, higher, hlast, -⟩
        exact absurd hlast.mem List.not_mem_nil
  | append_singleton layers next ih =>
      have hformed : next.normalizedConfig.WellFormed := wellFormed_normalized next.wellFormed []
      rw [List.foldl_append, List.foldl_cons, List.foldl_nil, lookup_recordOrigins hformed, ← LayerRecords]
      by_cases hnext : LayerRecords key next
      · rw [if_pos hnext, Option.some.injEq]
        constructor
        · exact fun h => ⟨next, [], LastWith.last hnext layers, h⟩
        · rintro ⟨layer, higher, hlast, rfl⟩
          obtain ⟨rfl, -⟩ := hlast.unique (LastWith.last hnext layers)
          rfl
      · rw [if_neg hnext, ih]
        constructor
        · rintro ⟨layer, higher, hlast, hfound⟩
          exact ⟨layer, higher ++ [next], hlast.concat hnext, hfound⟩
        · rintro ⟨layer, higher, hlast, hfound⟩
          rcases hlast.concat_cases with ⟨rfl, -⟩ | ⟨-, rest, -, hrest⟩
          · exact absurd hlast.here hnext
          · exact ⟨layer, rest, hrest, hfound⟩

/-- The layer of a dotted path is the last one that records it. -/
theorem lookup_origins_iff (stack : ConfigLayerStack) {found : ConfigLayerMetadata} :
    stack.origins.lookup key = some found ↔
      ∃ layer higher, LastWith (LayerRecords key) stack.getLayers layer higher ∧
        layer.metadata = found := lookup_foldl_layers stack.getLayers

theorem records_dotted_iff (hdots : value.DotFree) {path : List Str} (hpath : ∀ key ∈ path, '.' ∉ key)
    (hne : path ≠ []) : Records [] value (dotted path) ↔ ∃ leaf, value.at? path = some (.scalar leaf) := by
  constructor
  · rintro ⟨place, leaf, hat, hplace, heq⟩
    rw [List.nil_append] at hplace heq
    obtain rfl := dotted_injective hpath (TomlValue.dotFree_of_at? hdots hat) hne hplace heq
    exact ⟨leaf, hat⟩
  · rintro ⟨leaf, hat⟩
    exact ⟨path, leaf, hat, hne, rfl⟩

end Codrex.Config
