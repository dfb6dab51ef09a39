import Codrex.Config.Layers

/-!
# Legacy keys are replaced

An alias applies to one table of the first level, and below it nothing is renamed.
-/

namespace Codrex.Config
open Text

/-! ## Induction over values -/

theorem TomlValue.induct {motive : TomlValue → Prop} (scalar : ∀ value, motive (.scalar value))
    (array : ∀ items, (∀ item ∈ items, motive item) → motive (.array items))
    (table : ∀ entries : TomlMap, (∀ entry ∈ entries, motive entry.2) → motive (.table entries)) :
    ∀ value, motive value
  | .scalar value => scalar value
  | .array items => array items fun item _ => TomlValue.induct scalar array table item
  | .table entries => table entries fun entry _ => TomlValue.induct scalar array table entry.2
termination_by value => sizeOf value
decreasing_by
  · rename_i hmem
    have hlt := List.sizeOf_lt_of_mem hmem
    simp only [TomlValue.array.sizeOf_spec]
    omega
  · rename_i hmem
    have hlt := List.sizeOf_lt_of_mem hmem
    obtain ⟨key, value⟩ := entry
    simp only [Prod.mk.sizeOf_spec] at hlt
    simp only [TomlValue.table.sizeOf_spec]
    omega

theorem normalizedEntries_eq (path : List Str) (entries : TomlMap) :
    normalizedEntries path entries =
      entries.map fun entry => (entry.1, normalizedWithKeyAliases (path ++ [entry.1]) entry.2) := by
  induction entries with
  | nil => rfl
  | cons entry entries ih =>
      obtain ⟨key, child⟩ := entry
      rw [normalizedEntries, ih]
      rfl

theorem normalizedItems_eq (path : List Str) (items : List TomlValue) :
    normalizedItems path items = items.map (normalizedWithKeyAliases path) := by
  induction items with
  | nil => rfl
  | cons item items ih =>
      rw [normalizedItems, ih]
      rfl

/-! ## One table -/

variable {keyAlias : ConfigKeyAlias} {path : List Str} {table : TomlMap}

theorem legacyKey_ne (h : keyAlias ∈ configKeyAliases) : keyAlias.legacyKey ≠ keyAlias.canonicalKey := by
  simp only [configKeyAliases, List.mem_cons, List.not_mem_nil, or_false] at h
  rcases h with rfl | rfl
  · decide
  · decide

theorem length_tablePath (h : keyAlias ∈ configKeyAliases) : keyAlias.tablePath.length = 1 := by
  simp only [configKeyAliases, List.mem_cons, List.not_mem_nil, or_false] at h
  rcases h with rfl | rfl
  · rfl
  · rfl

theorem tablePath_injective {other : ConfigKeyAlias} (h : keyAlias ∈ configKeyAliases) (hother : other ∈ configKeyAliases)
    (heq : other.tablePath = keyAlias.tablePath) : other = keyAlias := by
  simp only [configKeyAliases, List.mem_cons, List.not_mem_nil, or_false] at h hother
  rcases h with rfl | rfl
  · rcases hother with rfl | rfl
    · rfl
    · exact absurd heq (by decide)
  · rcases hother with rfl | rfl
    · exact absurd heq (by decide)
    · rfl

/-- The table has no legacy key that would be replaced. -/
def IsCanonical (path : List Str) (table : TomlMap) : Prop :=
  ∀ keyAlias ∈ configKeyAliases, path = keyAlias.tablePath → table.lookup keyAlias.legacyKey = none

theorem apply_of_ne (h : path ≠ keyAlias.tablePath) (table : TomlMap) : keyAlias.apply path table = table := if_neg h

/-- At most one of the aliases applies. -/
theorem normalizeKeyAliases_cases (path : List Str) :
    (∀ table, normalizeKeyAliases path table = table ∧ IsCanonical path table) ∨
      ∃ keyAlias ∈ configKeyAliases, path = keyAlias.tablePath ∧
        ∀ table, normalizeKeyAliases path table = keyAlias.apply path table := by
  have hfold : ∀ table, normalizeKeyAliases path table =
      ConfigKeyAlias.apply (configKeyAliases.getLast (by decide)) path
        (ConfigKeyAlias.apply (configKeyAliases.head (by decide)) path table) := fun _ => rfl
  by_cases hfirst : path = (configKeyAliases.head (by decide)).tablePath
  · refine .inr ⟨_, List.head_mem _, hfirst, fun table => ?_⟩
    rw [hfold, apply_of_ne]
    rw [hfirst]
    decide
  · by_cases hlast : path = (configKeyAliases.getLast (by decide)).tablePath
    · refine .inr ⟨_, List.getLast_mem _, hlast, fun table => ?_⟩
      rw [hfold, apply_of_ne hfirst]
    · refine .inl fun table => ⟨by rw [hfold, apply_of_ne hfirst, apply_of_ne hlast], fun keyAlias hmem hpath => ?_⟩
      simp only [configKeyAliases, List.mem_cons, List.not_mem_nil, or_false] at hmem
      rcases hmem with rfl | rfl
      · exact absurd hpath hfirst
      · exact absurd hpath hlast

theorem nodup_apply (h : (Entries.keys table).Nodup) : (Entries.keys (keyAlias.apply path table)).Nodup := by
  rw [ConfigKeyAlias.apply]
  split
  · split
    · dsimp only
      have herase : (Entries.keys (Entries.erase keyAlias.legacyKey table)).Nodup := Entries.nodup_erase h
      split
      · exact herase
      next hnone => exact Entries.nodup_concat herase (Option.not_isSome_iff_eq_none.mp hnone)
    · exact h
  · exact h

theorem nodup_normalizeKeyAliases (h : (Entries.keys table).Nodup) :
    (Entries.keys (normalizeKeyAliases path table)).Nodup := by
  rcases normalizeKeyAliases_cases path with hsame | ⟨keyAlias, -, -, happly⟩
  · rw [(hsame table).1]
    exact h
  · rw [happly]
    exact nodup_apply h

theorem lookup_legacyKey_apply (hne : keyAlias.legacyKey ≠ keyAlias.canonicalKey) (h : path = keyAlias.tablePath)
    (table : TomlMap) : (keyAlias.apply path table).lookup keyAlias.legacyKey = none := by
  rw [ConfigKeyAlias.apply, if_pos h]
  split
  · dsimp only
    split
    · rw [Entries.lookup_erase, if_pos rfl]
    · rw [List.lookup_append, Entries.lookup_erase, if_pos rfl, Entries.lookup_cons_eq, if_neg hne]
      rfl
  next hnone => exact hnone

theorem isCanonical_normalizeKeyAliases (path : List Str) (table : TomlMap) :
    IsCanonical path (normalizeKeyAliases path table) := by
  rcases normalizeKeyAliases_cases path with hsame | ⟨keyAlias, hmem, hpath, happly⟩
  · exact (hsame _).2
  · intro other hother hotherPath
    obtain rfl := tablePath_injective hmem hother (hotherPath.symm.trans hpath)
    rw [happly]
    exact lookup_legacyKey_apply (legacyKey_ne hmem) hpath table

theorem normalizeKeyAliases_of_canonical (h : IsCanonical path table) : normalizeKeyAliases path table = table := by
  rcases normalizeKeyAliases_cases path with hsame | ⟨keyAlias, hmem, hpath, happly⟩
  · exact (hsame table).1
  · rw [happly, ConfigKeyAlias.apply, if_pos hpath, h keyAlias hmem hpath]

theorem isCanonical_of_length (h : path.length ≠ 1) (table : TomlMap) : IsCanonical path table :=
  fun _ hmem hpath => absurd (hpath ▸ length_tablePath hmem) h

/-- The values may be normalised first, if the two keys do not matter for that. -/
theorem normalizeKeyAliases_map (f : Str → TomlValue → TomlValue)
    (h : ∀ keyAlias ∈ configKeyAliases, path = keyAlias.tablePath →
      f keyAlias.legacyKey = f keyAlias.canonicalKey) (table : TomlMap) :
    normalizeKeyAliases path (table.map fun entry => (entry.1, f entry.1 entry.2)) =
      (normalizeKeyAliases path table).map fun entry => (entry.1, f entry.1 entry.2) := by
  rcases normalizeKeyAliases_cases path with hsame | ⟨keyAlias, hmem, hpath, happly⟩
  · rw [(hsame _).1, (hsame _).1]
  · have herase : Entries.erase keyAlias.legacyKey (table.map fun entry => (entry.1, f entry.1 entry.2)) =
        (Entries.erase keyAlias.legacyKey table).map fun entry => (entry.1, f entry.1 entry.2) := by
      rw [Entries.erase, List.filter_map]
      rfl
    rw [happly, happly, ConfigKeyAlias.apply, ConfigKeyAlias.apply, if_pos hpath, if_pos hpath, Entries.lookup_map]
    cases table.lookup keyAlias.legacyKey with
    | none => rfl
    | some value =>
        simp only [Option.map_some, herase, Entries.lookup_map, Option.isSome_map, h keyAlias hmem hpath]
        split
        · rfl
        · rw [List.map_append]
          rfl

/-! ## Deep down nothing is renamed -/

theorem normalizedWithKeyAliases_deep (value : TomlValue) {path : List Str} (h : 2 ≤ path.length) :
    normalizedWithKeyAliases path value = value := by
  induction value using TomlValue.induct generalizing path with
  | scalar value => rfl
  | array items ih =>
      rw [normalizedWithKeyAliases, normalizedItems_eq]
      congr 1
      exact (List.map_congr_left fun item hitem => ih item hitem h).trans (List.map_id' items)
  | table entries ih =>
      have hentries : normalizedEntries path entries = entries := by
        rw [normalizedEntries_eq]
        refine (List.map_congr_left fun entry hentry => ?_).trans (List.map_id' entries)
        rw [ih entry hentry (by simp only [List.length_append, List.length_cons, List.length_nil]; omega)]
      rw [normalizedWithKeyAliases, hentries, normalizeKeyAliases_of_canonical (isCanonical_of_length (by omega) _)]

/-- The table that is normalised has the normalised values of the table whose keys are replaced. -/
theorem normalizedWithKeyAliases_table (path : List Str) (entries : TomlMap) :
    normalizedWithKeyAliases path (.table entries) = .table ((normalizeKeyAliases path entries).map fun entry =>
      (entry.1, normalizedWithKeyAliases (path ++ [entry.1]) entry.2)) := by
  rw [normalizedWithKeyAliases, normalizedEntries_eq]
  congr 1
  refine normalizeKeyAliases_map (fun key => normalizedWithKeyAliases (path ++ [key])) ?_ entries
  intro keyAlias hmem hpath
  have hlength : path.length = 1 := hpath ▸ length_tablePath hmem
  funext value
  rw [normalizedWithKeyAliases_deep value (by simp [hlength]), normalizedWithKeyAliases_deep value (by simp [hlength])]

end Codrex.Config
