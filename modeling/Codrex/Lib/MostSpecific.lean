import Mathlib.Data.List.Induction
import Mathlib.Data.Prod.Lex

/-!
# Rules on places

A place is a list of names, and a rule applies to all places under its own. Of the rules that apply the one with the
longest path decides, and among those of one path the one with the greatest mode.
-/

namespace MostSpecific

/-! ## The greatest element -/

section

variable {ε κ : Type} [LinearOrder κ] (key : ε → κ)

def keepGreater (best : Option ε) (next : ε) : Option ε :=
  match best with
  | none => some next
  | some best => if key best ≤ key next then some next else some best

/-- `Iterator::max_by_key`: the last of the elements with the greatest key. -/
def maxByKey (elements : List ε) : Option ε := elements.foldl (keepGreater key) none

variable {key}

theorem maxByKey_concat (elements : List ε) (next : ε) :
    maxByKey key (elements ++ [next]) = keepGreater key (maxByKey key elements) next := by
  simp [maxByKey]

theorem maxByKey_eq_none {elements : List ε} : maxByKey key elements = none ↔ elements = [] := by
  induction elements using List.reverseRecOn with
  | nil => simp [maxByKey]
  | append_singleton elements next ih =>
      rw [maxByKey_concat]
      cases maxByKey key elements with
      | none => simp [keepGreater]
      | some best =>
          rw [keepGreater]
          split
          · simp
          · simp

theorem maxByKey_spec {elements : List ε} {best : ε} (h : maxByKey key elements = some best) :
    best ∈ elements ∧ ∀ other ∈ elements, key other ≤ key best := by
  induction elements using List.reverseRecOn generalizing best with
  | nil => cases h
  | append_singleton elements next ih =>
      rw [maxByKey_concat] at h
      cases hmax : maxByKey key elements with
      | none =>
          obtain rfl := maxByKey_eq_none.mp hmax
          obtain rfl : next = best := by simpa [hmax, keepGreater] using h
          simp
      | some found =>
          obtain ⟨hmem, hgreatest⟩ := ih hmax
          rw [hmax, keepGreater] at h
          split at h
          next hle =>
            obtain rfl := Option.some.inj h
            refine ⟨by simp, fun other hother => ?_⟩
            rcases List.mem_append.mp hother with hother | hother
            · exact (hgreatest other hother).trans hle
            · rw [List.mem_singleton.mp hother]
          next hlt =>
            obtain rfl := Option.some.inj h
            refine ⟨List.mem_append_left _ hmem, fun other hother => ?_⟩
            rcases List.mem_append.mp hother with hother | hother
            · exact hgreatest other hother
            · rw [List.mem_singleton.mp hother]
              exact (not_le.mp hlt).le

end

/-! ## The rule that decides -/

section

variable {ε ν μ : Type} [LinearOrder μ] (path : ε → List ν) (mode : ε → μ)

/-- The rule applies to the place, and every other rule that does is less specific or not greater. -/
structure Decides (rules : List ε) (place : List ν) (rule : ε) : Prop where
  mem : rule ∈ rules
  applies : path rule <+: place
  greatest : ∀ other ∈ rules, path other <+: place →
    (path other).length < (path rule).length ∨ (path other).length = (path rule).length ∧ mode other ≤ mode rule

/-- A rule for this very place decides it, and its mode is good. -/
def IsRoot (good : μ → Prop) (rules : List ε) (place : List ν) : Prop :=
  ∃ rule, Decides path mode rules place rule ∧ path rule = place ∧ good (mode rule)

/-- A place under the root, where a rule for this very place decides and its mode is not good. -/
def IsCarveout (good : μ → Prop) (rules : List ε) (root place : List ν) : Prop :=
  root <+: place ∧ root ≠ place ∧ ∃ rule, Decides path mode rules place rule ∧ path rule = place ∧ ¬ good (mode rule)

variable {path mode} {rules : List ε} {place : List ν} {rule other : ε} {good : μ → Prop}

theorem Decides.of_path {base : List ν} (h : Decides path mode rules place rule) (hrule : path rule <+: base)
    (hbase : base <+: place) : Decides path mode rules base rule :=
  ⟨h.mem, hrule, fun other hother happlies => h.greatest other hother (happlies.trans hbase)⟩

theorem Decides.at_path (h : Decides path mode rules place rule) : Decides path mode rules (path rule) rule :=
  h.of_path (List.prefix_refl _) h.applies

theorem Decides.length_le (h : Decides path mode rules place rule) (hother : other ∈ rules)
    (happlies : path other <+: place) : (path other).length ≤ (path rule).length := by
  rcases h.greatest other hother happlies with hlt | ⟨heq, -⟩
  · exact Nat.le_of_lt hlt
  · exact Nat.le_of_eq heq

theorem Decides.prefix_path (h : Decides path mode rules place rule) (hother : other ∈ rules)
    (happlies : path other <+: place) : path other <+: path rule :=
  List.prefix_of_prefix_length_le happlies h.applies (h.length_le hother happlies)

/-- A rule for this very place is among the rules, so the one that decides is for this very place. -/
theorem Decides.path_eq (h : Decides path mode rules place rule) (hother : other ∈ rules) (hpath : path other = place) :
    path rule = place :=
  h.applies.eq_of_length_le (hpath ▸ h.length_le hother (hpath ▸ List.prefix_refl _))

theorem Decides.mode_eq (h : Decides path mode rules place rule) (hother : Decides path mode rules place other) :
    mode rule = mode other := by
  have hle := h.greatest other hother.mem hother.applies
  have hge := hother.greatest rule h.mem h.applies
  rcases hle with hlt | ⟨heq, hle⟩
  · have := hother.length_le h.mem h.applies
    omega
  · rcases hge with hlt | ⟨-, hge⟩
    · omega
    · exact le_antisymm hge hle

/-- The greatest of the rules that apply decides, where keys are compared by specificity and then by mode. -/
theorem decides_of_maxByKey {key : ε → ℕ ×ₗ μ} {base : Nat}
    (hkey : ∀ rule, key rule = toLex ((path rule).length + base, mode rule)) {applies : ε → Bool}
    (happlies : ∀ rule, applies rule = true ↔ path rule <+: place)
    (h : maxByKey key (rules.filter applies) = some rule) : Decides path mode rules place rule := by
  obtain ⟨hmem, hgreatest⟩ := maxByKey_spec h
  obtain ⟨hmem, hrule⟩ := List.mem_filter.mp hmem
  refine ⟨hmem, (happlies rule).mp hrule, fun other hother hpre => ?_⟩
  have hle := hgreatest other (List.mem_filter.mpr ⟨hother, (happlies other).mpr hpre⟩)
  rw [hkey, hkey, Prod.Lex.toLex_le_toLex] at hle
  rcases hle with hlt | ⟨heq, hmode⟩
  · exact .inl (Nat.lt_of_add_lt_add_right hlt)
  · exact .inr ⟨Nat.add_right_cancel heq, hmode⟩

theorem exists_decides (hmem : rule ∈ rules) (happlies : path rule <+: place) :
    ∃ best, Decides path mode rules place best := by
  classical
  cases h : maxByKey (fun rule => toLex ((path rule).length + 0, mode rule))
      (rules.filter fun rule => decide (path rule <+: place)) with
  | none =>
      have hnil := List.filter_eq_nil_iff.mp (maxByKey_eq_none.mp h) rule hmem
      exact absurd happlies (by simpa using hnil)
  | some best => exact ⟨best, decides_of_maxByKey (fun _ => rfl) (by simp) h⟩

theorem decides_congr {rules' : List ε} (h : ∀ rule, rule ∈ rules ↔ rule ∈ rules') :
    Decides path mode rules place rule ↔ Decides path mode rules' place rule := by
  constructor
  · intro hdecides
    exact ⟨(h rule).mp hdecides.mem, hdecides.applies, fun other hother => hdecides.greatest other ((h other).mpr hother)⟩
  · intro hdecides
    exact ⟨(h rule).mpr hdecides.mem, hdecides.applies, fun other hother => hdecides.greatest other ((h other).mp hother)⟩

theorem Decides.mode_le (h : Decides path mode rules place rule) (hother : other ∈ rules)
    (happlies : path other <+: place) (hlength : (path rule).length ≤ (path other).length) : mode other ≤ mode rule := by
  rcases h.greatest other hother happlies with hlt | ⟨-, hmode⟩
  · omega
  · exact hmode

/-- A good mode goes down from a base to a place, if what decides further down is good as well. -/
theorem decides_good_below (good : μ → Prop) {base : List ν} (hbase : base <+: place)
    (hgood : ∃ rule, Decides path mode rules base rule ∧ good (mode rule))
    (hbelow : ∀ rule, Decides path mode rules (path rule) rule → path rule <+: place →
      base.length < (path rule).length → good (mode rule)) :
    ∃ rule, Decides path mode rules place rule ∧ good (mode rule) := by
  obtain ⟨outer, houter, houterGood⟩ := hgood
  obtain ⟨best, hbest⟩ : ∃ best, Decides path mode rules place best :=
    exists_decides houter.mem (houter.applies.trans hbase)
  refine ⟨best, hbest, ?_⟩
  by_cases hlength : base.length < (path best).length
  · exact hbelow best hbest.at_path hbest.applies hlength
  · have hpath : path best <+: base := List.prefix_of_prefix_length_le hbest.applies hbase (Nat.le_of_not_lt hlength)
    rw [(hbest.of_path hpath hbase).mode_eq houter]
    exact houterGood

/-- The places where a good mode decides are those under a root and under none of its carveouts. -/
theorem decides_good_iff (path : ε → List ν) (mode : ε → μ) (good : μ → Prop) (rules : List ε) (place : List ν) :
    (∃ rule, Decides path mode rules place rule ∧ good (mode rule)) ↔
      ∃ root, IsRoot path mode good rules root ∧ root <+: place ∧
        ∀ carveout, IsCarveout path mode good rules root carveout → ¬ carveout <+: place := by
  constructor
  · rintro ⟨rule, h, hgood⟩
    refine ⟨path rule, ⟨rule, h.at_path, rfl, hgood⟩, h.applies, ?_⟩
    rintro carveout ⟨hunder, hne, inner, hinner, rfl, -⟩ happlies
    exact hne (hunder.eq_of_length_le (h.length_le hinner.mem happlies))
  · rintro ⟨root, ⟨outer, houter, rfl, hgood⟩, hunder, hcarveouts⟩
    obtain ⟨best, hbest⟩ : ∃ best, Decides path mode rules place best := exists_decides houter.mem hunder
    refine ⟨best, hbest, ?_⟩
    by_contra hbad
    refine hcarveouts (path best) ⟨hbest.prefix_path houter.mem hunder, ?_, best, hbest.at_path, rfl, hbad⟩ hbest.applies
    intro heq
    exact hbad ((heq ▸ houter).mode_eq hbest.at_path ▸ hgood)

/-! ## One more rule -/

/-- What decided still does, unless the new rule is more specific, or as specific and greater. -/
theorem Decides.concat (h : Decides path mode rules place rule) {new : ε}
    (hnew : path new <+: place →
      (path new).length < (path rule).length ∨ (path new).length = (path rule).length ∧ mode new ≤ mode rule) :
    Decides path mode (rules ++ [new]) place rule := by
  refine ⟨List.mem_append_left _ h.mem, h.applies, fun other hother happlies => ?_⟩
  rcases List.mem_append.mp hother with hother | hother
  · exact h.greatest other hother happlies
  · obtain rfl := List.mem_singleton.mp hother
    exact hnew happlies

theorem decides_new {new : ε} (happlies : path new <+: place)
    (hothers : ∀ other ∈ rules, path other <+: place →
      (path other).length < (path new).length ∨ (path other).length = (path new).length ∧ mode other ≤ mode new) :
    Decides path mode (rules ++ [new]) place new := by
  refine ⟨by simp, happlies, fun other hother hother' => ?_⟩
  rcases List.mem_append.mp hother with hother | hother
  · exact hothers other hother hother'
  · obtain rfl := List.mem_singleton.mp hother
    exact .inr ⟨rfl, le_rfl⟩

/-- The new rule decides where it applies, unless a rule that decided before is more specific, or for the same place and
at least as great. -/
theorem decides_concat_cases {new : ε} (happlies : path new <+: place) :
    Decides path mode (rules ++ [new]) place new ∨
    ∃ rule, Decides path mode rules place rule ∧ Decides path mode (rules ++ [new]) place rule ∧
      ((path new).length < (path rule).length ∨ path rule = path new ∧ mode new ≤ mode rule) := by
  by_cases hsome : ∃ rule, Decides path mode rules place rule
  · obtain ⟨rule, hrule⟩ := hsome
    rcases lt_trichotomy (path new).length (path rule).length with hlt | heq | hgt
    · exact .inr ⟨rule, hrule, hrule.concat fun _ => .inl hlt, .inl hlt⟩
    · have hpath : path rule = path new :=
        (List.prefix_of_prefix_length_le hrule.applies happlies heq.ge).eq_of_length heq.symm
      rcases le_total (mode new) (mode rule) with hmode | hmode
      · exact .inr ⟨rule, hrule, hrule.concat fun _ => .inr ⟨heq, hmode⟩, .inr ⟨hpath, hmode⟩⟩
      · refine .inl (decides_new happlies fun other hother hother' => ?_)
        rcases hrule.greatest other hother hother' with hlt | ⟨hlength, hle⟩
        · exact .inl (by omega)
        · exact .inr ⟨by omega, hle.trans hmode⟩
    · refine .inl (decides_new happlies fun other hother hother' => .inl ?_)
      exact (hrule.length_le hother hother').trans_lt hgt
  · refine .inl (decides_new happlies fun other hother hother' => ?_)
    exact absurd (exists_decides hother hother') hsome

end

end MostSpecific
