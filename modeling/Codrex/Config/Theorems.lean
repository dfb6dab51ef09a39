import Codrex.Config.Lemmas.Origins

/-!
# Origins and the effective config

The origins agree with the effective config exactly if no layer replaces a scalar of a lower one by anything but a scalar.
-/

namespace Codrex.Config
open Text Overlay

variable {stack : ConfigLayerStack} {path : List Str} {layer : ConfigLayerEntry} {value : Scalar}

theorem isTable_normalized {value : TomlValue} (h : value.isTable = true) (path : List Str) :
    (normalizedWithKeyAliases path value).isTable = true := by
  cases value with
  | scalar => cases h
  | array => cases h
  | table => rfl

/-- In a table there is a scalar only behind a key. -/
theorem path_ne_nil {value : TomlValue} (h : value.isTable = true) {leaf : Scalar}
    (hat : value.at? path = some (.scalar leaf)) : path ≠ [] := by
  rintro rfl
  rw [Option.some.inj hat] at h
  cases h

theorem mem_layers (h : layer ∈ stack.getLayers) : layer ∈ stack.layers :=
  (List.mem_filter.mp h).1

theorem PlainLayers.path_spec (h : PlainLayers stack) (hlayer : layer ∈ stack.getLayers)
    (hat : layer.normalizedConfig.at? path = some (.scalar value)) : path ≠ [] ∧ ∀ key ∈ path, '.' ∉ key :=
  ⟨path_ne_nil (isTable_normalized (h.tables layer (mem_layers hlayer)) []) hat,
    TomlValue.dotFree_of_at? (dotFree_normalized (h.dotFree layer (mem_layers hlayer)) []) hat⟩

/-- On a path that can be told from its dotted form, the layers that record it are those with a scalar there. -/
theorem PlainLayers.layerRecords_iff (h : PlainLayers stack) (hlayer : layer ∈ stack.getLayers) (hne : path ≠ [])
    (hpath : ∀ key ∈ path, '.' ∉ key) : LayerRecords (dotted path) layer ↔ HasScalar path layer :=
  records_dotted_iff (dotFree_normalized (h.dotFree layer (mem_layers hlayer)) []) hpath hne

theorem IsHighest.mem {higher : List ConfigLayerEntry} (h : IsHighest stack path layer higher value) :
    layer ∈ stack.getLayers ∧ ∀ other ∈ higher, other ∈ stack.getLayers := by
  obtain ⟨lower, hlayers⟩ := h.enabled
  rw [hlayers]
  exact ⟨by simp, fun other hother => by simp [hother]⟩

/-- The highest layer with a scalar at a path is its origin. -/
theorem PlainLayers.lookup_origins (h : PlainLayers stack) {higher : List ConfigLayerEntry}
    (hhighest : IsHighest stack path layer higher value) :
    stack.origins.lookup (dotted path) = some layer.metadata := by
  obtain ⟨hlayer, hhigher⟩ := hhighest.mem
  obtain ⟨hne, hpath⟩ := h.path_spec hlayer hhighest.here
  refine (lookup_origins_iff stack).mpr ⟨layer, higher, ?_, rfl⟩
  refine ⟨(h.layerRecords_iff hlayer hne hpath).mpr ⟨value, hhighest.here⟩, hhighest.enabled, fun other hother hrecords => ?_⟩
  obtain ⟨own, hown⟩ := (h.layerRecords_iff (hhigher other hother) hne hpath).mp hrecords
  exact hhighest.noneHigher other hother own hown

theorem PlainLayers.effective_path (h : PlainLayers stack)
    (hat : stack.effectiveConfig.at? path = some (.scalar value)) : path ≠ [] ∧ ∀ key ∈ path, '.' ∉ key := by
  obtain ⟨layer, higher, hhighest, -⟩ := (effective_scalar_iff stack).mp hat
  exact h.path_spec hhighest.mem.1 hhighest.here

theorem originsAgree_iff_keepsScalars (h : PlainLayers stack) : OriginsAgree stack ↔ KeepsScalars stack := by
  constructor
  · intro hagree path layer higher value hhighest other hother
    obtain ⟨hne, hpath⟩ := h.path_spec hhighest.mem.1 hhighest.here
    have hrecorded : (stack.origins.lookup (dotted path)).isSome := by
      rw [h.lookup_origins hhighest]
      rfl
    obtain ⟨found, own, hfound, heq⟩ := (hagree.keys _).mp hrecorded
    obtain ⟨hfoundNe, hfoundPath⟩ := h.effective_path hfound
    obtain rfl := dotted_injective hpath hfoundPath hne hfoundNe heq
    obtain ⟨top, above, htop, hkeeps⟩ := (effective_scalar_iff stack).mp hfound
    obtain ⟨rfl, rfl⟩ := (isHighest_iff.mp hhighest).2.unique (isHighest_iff.mp htop).2
    exact keeps_view_iff.mp (hkeeps other hother)
  · intro hkeeps
    constructor
    case keys =>
      intro key
      constructor
      · intro hsome
        obtain ⟨found, hfound⟩ := Option.isSome_iff_exists.mp hsome
        obtain ⟨layer, _, hlast, -⟩ := (lookup_origins_iff stack).mp hfound
        obtain ⟨path, leaf, hat, -, rfl⟩ := hlast.here
        have hscalar : HasScalar path layer := ⟨leaf, hat⟩
        obtain ⟨top, higher, htop⟩ := LastWith.exists_of_mem hlast.mem hscalar
        obtain ⟨value, hvalue⟩ := htop.here
        have hhighest : IsHighest stack path top higher value := isHighest_iff.mpr ⟨hvalue, htop⟩
        refine ⟨path, value, (effective_scalar_iff stack).mpr ⟨top, higher, hhighest, fun other hother => ?_⟩, rfl⟩
        exact keeps_view_iff.mpr (hkeeps path top higher value hhighest other hother)
      · rintro ⟨path, value, hat, rfl⟩
        obtain ⟨layer, higher, hhighest, -⟩ := (effective_scalar_iff stack).mp hat
        rw [h.lookup_origins hhighest]
        rfl
    case recorded =>
      intro path value hat
      obtain ⟨layer, higher, hhighest, -⟩ := (effective_scalar_iff stack).mp hat
      exact ⟨layer, higher, hhighest, h.lookup_origins hhighest⟩

/-! ## A shortened array -/

def notifyConfig (programs : List Str) : TomlValue :=
  .table [("notify", .array (programs.map fun program => .scalar (.string program)))]

theorem wellFormed_notifyConfig (programs : List Str) : (notifyConfig programs).WellFormed := by
  refine .table (by simp [Entries.keys]) fun entry hentry => ?_
  rw [List.mem_singleton.mp hentry]
  refine .array fun item hitem => ?_
  obtain ⟨program, -, rfl⟩ := List.mem_map.mp hitem
  exact .scalar

theorem dotFree_notifyConfig (programs : List Str) : (notifyConfig programs).DotFree := by
  refine .table (fun entry hentry => ?_) fun entry hentry => ?_
  · have hkey : '.' ∉ "notify".toList := by decide
    rw [List.mem_singleton.mp hentry]
    exact hkey
  · rw [List.mem_singleton.mp hentry]
    refine .array fun item hitem => ?_
    obtain ⟨program, -, rfl⟩ := List.mem_map.mp hitem
    exact .scalar

def notifyLayer (name : ExecPolicy.ConfigLayerSource) (programs : List Str) : ConfigLayerEntry :=
  ⟨name, notifyConfig programs, wellFormed_notifyConfig programs, "sha256:", none⟩

theorem plainLayers_notify {layers : List ConfigLayerEntry}
    (h : ∀ layer ∈ layers, ∃ programs, layer.config = notifyConfig programs) : PlainLayers ⟨layers⟩ := by
  constructor
  case tables =>
    intro layer hlayer
    obtain ⟨programs, hconfig⟩ := h layer hlayer
    rw [hconfig]
    rfl
  case dotFree =>
    intro layer hlayer
    obtain ⟨programs, hconfig⟩ := h layer hlayer
    rw [hconfig]
    exact dotFree_notifyConfig programs

theorem path_of_scalar {program : Str} (h : (notifyConfig [program]).at? path = some (.scalar value)) :
    path = ["notify".toList, "0".toList] := by
  cases path with
  | nil => cases h
  | cons key path =>
      obtain ⟨items, hitems, h⟩ := Option.bind_eq_some_iff.mp h
      obtain ⟨rfl, rfl⟩ := Prod.mk.inj (List.mem_singleton.mp (Entries.mem_of_lookup hitems))
      cases path with
      | nil => cases h
      | cons index path =>
          obtain ⟨item, hitem, h⟩ := Option.bind_eq_some_iff.mp h
          obtain ⟨rfl, rfl⟩ := Prod.mk.inj (List.mem_singleton.mp (Entries.mem_of_lookup hitem))
          cases path with
          | nil => rfl
          | cons other path => cases h

/-- The session flags replace the program of the managed layer. -/
theorem originsAgree_sessionFlags :
    OriginsAgree ⟨[notifyLayer (.mdm "com.openai.codex" "config_toml_base64") ["notify-send"],
      notifyLayer .sessionFlags ["say"]]⟩ := by
  refine (originsAgree_iff_keepsScalars (plainLayers_notify ?_)).mpr ?_
  · intro layer hlayer
    rcases List.mem_pair.mp hlayer with rfl | rfl
    · exact ⟨_, rfl⟩
    · exact ⟨_, rfl⟩
  · intro path layer higher value hhighest other hother
    -- Both layers have the one scalar, so there is none above the layer that has it last.
    have hpath : path = ["notify".toList, "0".toList] := by
      rcases List.mem_pair.mp hhighest.mem.1 with rfl | rfl
      · exact path_of_scalar hhighest.here
      · exact path_of_scalar hhighest.here
    subst hpath
    rcases List.mem_pair.mp (hhighest.mem.2 other hother) with rfl | rfl
    · exact absurd rfl (hhighest.noneHigher _ hother (.string "notify-send"))
    · exact absurd rfl (hhighest.noneHigher _ hother (.string "say"))

def shortenedStack : ConfigLayerStack :=
  ⟨[notifyLayer (.mdm "com.openai.codex" "config_toml_base64") ["notify-send", "Codex"],
    notifyLayer .sessionFlags ["say"]]⟩

/-- The second item of an array that a higher layer shortens keeps its origin. -/
theorem shortenedStack_staleOrigin : ¬ OriginsAgree shortenedStack := by
  intro h
  have hplain : PlainLayers shortenedStack := plainLayers_notify fun layer hlayer => by
    rcases List.mem_pair.mp hlayer with rfl | rfl
    · exact ⟨_, rfl⟩
    · exact ⟨_, rfl⟩
  obtain ⟨path, value, hat, hkey⟩ := (h.keys (dotted ["notify", "1"])).mp (by decide)
  obtain ⟨hne, hpath⟩ := hplain.effective_path hat
  rw [← dotted_injective (by decide) hpath (by decide) hne hkey] at hat
  have hnone : (shortenedStack.effectiveConfig.at? ["notify", "1"]).isNone = true := by decide +kernel
  rw [hat] at hnone
  cases hnone

end Codrex.Config
