import Mathlib.Data.List.MinMax
import Codrex.NetworkProxy.Spec

/-!
# Domain lists and the mode over a run
-/

namespace Codrex.NetworkProxy

open Text Fallible

variable {env : Externals} {config : NetworkProxyConfig} {state : ConfigState}

/-! ## Entries in effect -/

/-- An entry that no other with its pattern outranks. -/
def Strongest (entries : List NetworkDomainPermissionEntry) (entry : NetworkDomainPermissionEntry) : Prop :=
  entry ∈ entries ∧ ∀ other ∈ entries, other.pattern = entry.pattern → other.permission.rank ≤ entry.permission.rank

theorem rank_injective {left right : NetworkDomainPermission} (h : left.rank = right.rank) : left = right := by
  cases left <;> cases right <;> first | rfl | cases h

theorem entry_eq {left right : NetworkDomainPermissionEntry} (hpattern : left.pattern = right.pattern)
    (hrank : left.permission.rank = right.permission.rank) : left = right := by
  cases left
  cases right
  simp only [NetworkDomainPermissionEntry.mk.injEq]
  exact ⟨hpattern, rank_injective hrank⟩

theorem exists_strongest {entries : List NetworkDomainPermissionEntry} {entry : NetworkDomainPermissionEntry}
    (h : entry ∈ entries) : ∃ strongest, Strongest entries strongest ∧ strongest.pattern = entry.pattern := by
  have hmem : ∀ {other : NetworkDomainPermissionEntry},
      other ∈ entries.filter (fun other => other.pattern = entry.pattern) ↔
        other ∈ entries ∧ other.pattern = entry.pattern := by
    simp
  cases hmax : (entries.filter fun other => other.pattern = entry.pattern).argmax fun other => other.permission.rank with
  | none =>
      have hnone := List.argmax_eq_none.mp hmax
      have hentry := hmem.mpr ⟨h, rfl⟩
      rw [hnone] at hentry
      cases hentry
  | some strongest =>
      obtain ⟨hstrongest, hpattern⟩ := hmem.mp (List.argmax_mem hmax)
      refine ⟨strongest, ⟨hstrongest, ?_⟩, hpattern⟩
      intro other hother hsame
      exact List.le_of_mem_argmax (f := fun other => other.permission.rank) (hmem.mpr ⟨hother, hsame.trans hpattern⟩) hmax

theorem strongest_append_iff {entries : List NetworkDomainPermissionEntry} {added entry : NetworkDomainPermissionEntry} :
    Strongest (entries ++ [added]) entry ↔
      (Strongest entries entry ∧ (added.pattern = entry.pattern → added.permission.rank ≤ entry.permission.rank)) ∨
        (entry = added ∧ ∀ other ∈ entries, other.pattern = added.pattern →
          other.permission.rank ≤ added.permission.rank) := by
  constructor
  · rintro ⟨hmem, hothers⟩
    have hold : ∀ other ∈ entries, other.pattern = entry.pattern → other.permission.rank ≤ entry.permission.rank :=
      fun other hother => hothers other (List.mem_append_left _ hother)
    rcases List.mem_append.mp hmem with hentry | hentry
    · exact Or.inl ⟨⟨hentry, hold⟩, hothers added (List.mem_append_right _ List.mem_cons_self)⟩
    · obtain rfl := List.mem_singleton.mp hentry
      exact Or.inr ⟨rfl, hold⟩
  · rintro (⟨⟨hentry, hold⟩, hadded⟩ | ⟨rfl, hold⟩)
    · refine ⟨List.mem_append_left _ hentry, ?_⟩
      intro other hother
      rcases List.mem_append.mp hother with hother | hother
      · exact hold other hother
      · obtain rfl := List.mem_singleton.mp hother
        exact hadded
    · refine ⟨List.mem_append_right _ List.mem_cons_self, ?_⟩
      intro other hother
      rcases List.mem_append.mp hother with hother | hother
      · exact hold other hother
      · obtain rfl := List.mem_singleton.mp hother
        exact fun _ => Nat.le_refl _

/-- One turn of the loop, if what was found so far are the strongest entries. -/
theorem mem_addEffective {entries effective : List NetworkDomainPermissionEntry}
    (heffective : ∀ entry, entry ∈ effective ↔ Strongest entries entry) (added entry : NetworkDomainPermissionEntry) :
    entry ∈ NetworkDomainPermissions.addEffective effective added ↔ Strongest (entries ++ [added]) entry := by
  unfold NetworkDomainPermissions.addEffective
  rw [strongest_append_iff]
  by_cases hany : ∃ existing ∈ effective, existing.pattern = added.pattern
  · rw [if_pos (by simpa using hany), List.mem_map]
    obtain ⟨existing, hexisting, hsame⟩ := hany
    have hstrongest := (heffective existing).mp hexisting
    constructor
    · rintro ⟨found, hfound, rfl⟩
      have hold := (heffective found).mp hfound
      split
      · next hweaker =>
          simp only [Bool.and_eq_true, decide_eq_true_eq] at hweaker
          exact Or.inr ⟨rfl, fun other hother hpattern =>
            Nat.le_trans (hold.2 other hother (hpattern.trans hweaker.1.symm)) (Nat.le_of_lt hweaker.2)⟩
      · next hkept =>
          simp only [Bool.and_eq_true, decide_eq_true_eq, not_and, Nat.not_lt] at hkept
          exact Or.inl ⟨hold, fun hpattern => hkept hpattern.symm⟩
    · rintro (⟨hold, hadded⟩ | ⟨rfl, hold⟩)
      · refine ⟨entry, (heffective entry).mpr hold, if_neg ?_⟩
        simp only [Bool.and_eq_true, decide_eq_true_eq, not_and, Nat.not_lt]
        exact fun hpattern => hadded hpattern.symm
      · refine ⟨existing, hexisting, ?_⟩
        split
        · rfl
        · next hkept =>
            simp only [Bool.and_eq_true, decide_eq_true_eq, not_and, Nat.not_lt] at hkept
            exact entry_eq hsame (Nat.le_antisymm (hold existing hstrongest.1 hsame) (hkept hsame))
  · rw [if_neg (by simpa using hany), List.mem_append, List.mem_singleton, heffective]
    have hnew : ∀ other ∈ entries, other.pattern ≠ added.pattern := by
      intro other hother hsame
      obtain ⟨strongest, hstrongest, hpattern⟩ := exists_strongest hother
      exact hany ⟨strongest, (heffective strongest).mpr hstrongest, hpattern.trans hsame⟩
    constructor
    · rintro (hold | rfl)
      · exact Or.inl ⟨hold, fun hpattern => absurd hpattern.symm (hnew entry hold.1)⟩
      · exact Or.inr ⟨rfl, fun other hother hpattern => absurd hpattern (hnew other hother)⟩
    · rintro (⟨hold, -⟩ | ⟨rfl, -⟩)
      · exact Or.inl hold
      · exact Or.inr rfl

theorem mem_effectiveEntries (domains : NetworkDomainPermissions) (entry : NetworkDomainPermissionEntry) :
    entry ∈ domains.effectiveEntries ↔ Strongest domains.entries entry := by
  unfold NetworkDomainPermissions.effectiveEntries
  induction domains.entries using List.reverseRecOn generalizing entry with
  | nil => simp [Strongest]
  | append_singleton entries added ih =>
      rw [List.foldl_append]
      exact mem_addEffective ih added entry

theorem mem_entries {target : DomainListKind} {network : NetworkProxySettings} {pattern : Str} :
    pattern ∈ target.entries network ↔
      Strongest ((network.domains.map (·.entries)).getD []) ⟨pattern, target.permission⟩ := by
  have hentries : target.entries network = (network.domainEntries target.permission).getD [] := by
    cases target <;> rfl
  rw [hentries, NetworkProxySettings.domainEntries]
  cases network.domains with
  | none => simp [Strongest]
  | some domains =>
      have hfilter : ∀ entries : List Str, (Option.filter (fun entries => !entries.isEmpty) (some entries)).getD [] =
          entries := by
        intro entries
        cases entries <;> rfl
      simp only [Option.map_some, hfilter, Option.getD_some, List.mem_map, List.mem_filter, decide_eq_true_eq,
        mem_effectiveEntries]
      constructor
      · rintro ⟨⟨other, permission⟩, ⟨hstrongest, rfl⟩, rfl⟩
        exact hstrongest
      · intro hstrongest
        exact ⟨_, ⟨hstrongest, rfl⟩, rfl⟩

/-! ## One call alone -/

section

variable {host other : Host} {target kind : DomainListKind} {network : NetworkProxySettings}

theorem permission_opposite (target : DomainListKind) : target.opposite.permission ≠ target.permission := by
  cases target <;> decide

theorem oppositeEntries_eq (target : DomainListKind) (network : NetworkProxySettings) :
    target.oppositeEntries network = target.opposite.entries network := by
  cases target <;> rfl

/-- Behind the update, the entries of the host are the new one. -/
theorem strongest_upsert_self (hhost : normalizeHost host.text = host.text) {entry : NetworkDomainPermissionEntry}
    (hentry : normalizeHost entry.pattern = host.text) :
    Strongest (((network.upsertDomainPermission host.text target.permission normalizeHost).domains.map (·.entries)).getD [])
      entry ↔ entry = ⟨host.text, target.permission⟩ := by
  have hremoved : entry ∉ ((network.domains.map (·.entries)).getD []).filter
      fun entry => normalizeHost entry.pattern ≠ normalizeHost host.text := by
    simp [hentry, hhost]
  simp only [NetworkProxySettings.upsertDomainPermission, Option.map_some, Option.getD_some, strongest_append_iff]
  constructor
  · rintro (⟨⟨hmem, -⟩, -⟩ | ⟨rfl, -⟩)
    · exact absurd hmem hremoved
    · rfl
  · rintro rfl
    refine Or.inr ⟨rfl, ?_⟩
    intro other hother hpattern
    have hkept := (List.mem_filter.mp hother).2
    rw [hpattern] at hkept
    simp at hkept

/-- The entries of another host are what they were. -/
theorem strongest_upsert_other (hhost : normalizeHost host.text = host.text) (hother : other ≠ host)
    {entry : NetworkDomainPermissionEntry} (hentry : normalizeHost entry.pattern = other.text) :
    Strongest (((network.upsertDomainPermission host.text target.permission normalizeHost).domains.map (·.entries)).getD [])
      entry ↔ Strongest ((network.domains.map (·.entries)).getD []) entry := by
  have htext : other.text ≠ host.text := by
    intro htext
    cases other
    cases host
    exact hother (by simpa using htext)
  have hkept : ∀ found : NetworkDomainPermissionEntry, found.pattern = entry.pattern →
      (found ∈ ((network.domains.map (·.entries)).getD []).filter
        (fun entry => normalizeHost entry.pattern ≠ normalizeHost host.text) ↔
          found ∈ (network.domains.map (·.entries)).getD []) := by
    intro found hfound
    rw [List.mem_filter, hfound, hentry, hhost]
    simp [htext]
  have hnew : host.text ≠ entry.pattern := by
    intro hnew
    rw [← hnew, hhost] at hentry
    exact htext hentry.symm
  simp only [NetworkProxySettings.upsertDomainPermission, Option.map_some, Option.getD_some, strongest_append_iff]
  constructor
  · rintro (⟨⟨hmem, hold⟩, -⟩ | ⟨rfl, -⟩)
    · exact ⟨(hkept entry rfl).mp hmem, fun found hfound hsame => hold found ((hkept found hsame).mpr hfound) hsame⟩
    · exact absurd rfl hnew
  · rintro ⟨hmem, hold⟩
    exact Or.inl ⟨⟨(hkept entry rfl).mpr hmem, fun found hfound hsame => hold found ((hkept found hsame).mp hfound) hsame⟩,
      fun hpattern => absurd hpattern hnew⟩

theorem setTo_upsert_self (hhost : normalizeHost host.text = host.text) :
    SetTo target host (network.upsertDomainPermission host.text target.permission normalizeHost) := by
  constructor
  · exact ⟨host.text, mem_entries.mpr ((strongest_upsert_self hhost hhost).mpr rfl), hhost⟩
  · intro entry hentry hsame
    have heq := (strongest_upsert_self hhost hsame).mp (mem_entries.mp hentry)
    exact permission_opposite target (congrArg NetworkDomainPermissionEntry.permission heq)

theorem setTo_upsert_other (hhost : normalizeHost host.text = host.text) (hother : other ≠ host) :
    SetTo kind other (network.upsertDomainPermission host.text target.permission normalizeHost) ↔
      SetTo kind other network := by
  have hentries : ∀ (kind : DomainListKind) (entry : Str), normalizeHost entry = other.text →
      (entry ∈ kind.entries (network.upsertDomainPermission host.text target.permission normalizeHost) ↔
        entry ∈ kind.entries network) := by
    intro kind entry hentry
    rw [mem_entries, mem_entries]
    exact strongest_upsert_other hhost hother hentry
  constructor
  · rintro ⟨⟨entry, hmem, hentry⟩, hopposite⟩
    exact ⟨⟨entry, (hentries kind entry hentry).mp hmem, hentry⟩, fun entry hmem hentry =>
      hopposite entry ((hentries _ entry hentry).mpr hmem) hentry⟩
  · rintro ⟨⟨entry, hmem, hentry⟩, hopposite⟩
    exact ⟨⟨entry, (hentries kind entry hentry).mpr hmem, hentry⟩, fun entry hmem hentry =>
      hopposite entry ((hentries _ entry hentry).mp hmem) hentry⟩

theorem setTo_setMode {mode : NetworkMode} : SetTo kind other { network with mode := mode } ↔ SetTo kind other network := by
  cases kind <;> rfl

end

/-! ## One call after the other -/

theorem lastSet_append (host : Host) (calls : List Call) (call : Call) :
    lastSet host (calls ++ [call]) = (lastSet host [call]).or (lastSet host calls) := by
  rw [lastSet, List.reverse_append, List.findSome?_append]
  rfl

theorem lastMode_append (calls : List Call) (call : Call) :
    lastMode (calls ++ [call]) = (lastMode [call]).or (lastMode calls) := by
  rw [lastMode, List.reverse_append, List.findSome?_append]
  rfl

theorem setTo_foldl {host : Host} {target : DomainListKind} {calls : List Call}
    (hcalls : ∀ call ∈ calls, call.OnNormalizedHost) (hlast : lastSet host calls = some target) :
    SetTo target host (calls.foldl Call.apply config).network := by
  induction calls using List.reverseRecOn generalizing target with
  | nil => cases hlast
  | append_singleton calls call ih =>
      rw [List.foldl_append]
      rw [lastSet_append] at hlast
      have hcall := hcalls call (List.mem_append_right _ List.mem_cons_self)
      replace ih : lastSet host calls = some target → SetTo target host (calls.foldl Call.apply config).network :=
        fun hlast => ih (fun call hmem => hcalls call (List.mem_append_left _ hmem)) hlast
      cases call with
      | updateDomainList other kind =>
          simp only [List.foldl_cons, List.foldl_nil, Call.apply]
          by_cases hother : other = host
          · obtain rfl := hother
            obtain rfl : kind = target := by simpa [lastSet] using hlast
            split
            · next hset => exact hset
            · exact setTo_upsert_self hcall
          · replace ih := ih (by simpa [lastSet, hother] using hlast)
            split
            · exact ih
            · exact (setTo_upsert_other hcall (Ne.symm hother)).mpr ih
      | setNetworkMode mode => exact setTo_setMode.mpr (ih hlast)
      | recordBlocked entry => exact ih hlast
      | drainBlocked => exact ih hlast
      | replaceConfigState newState => exact ih hlast
      | forceReload => exact ih hlast
      | observe => exact ih hlast

theorem mode_foldl {mode : NetworkMode} {calls : List Call} (hlast : lastMode calls = some mode) :
    (calls.foldl Call.apply config).network.mode = mode := by
  induction calls using List.reverseRecOn with
  | nil => cases hlast
  | append_singleton calls call ih =>
      rw [List.foldl_append]
      rw [lastMode_append] at hlast
      cases call with
      | setNetworkMode other =>
          obtain rfl : other = mode := by simpa [lastMode] using hlast
          rfl
      | updateDomainList host target =>
          simp only [List.foldl_cons, List.foldl_nil, Call.apply]
          split
          · exact ih hlast
          · exact ih hlast
      | recordBlocked entry => exact ih hlast
      | drainBlocked => exact ih hlast
      | replaceConfigState newState => exact ih hlast
      | forceReload => exact ih hlast
      | observe => exact ih hlast

/-! ## The check and the mode -/

/-- The mode is checked apart from everything else. -/
theorem validateMode_of_accepted {constraints : NetworkProxyConstraints}
    (h : validatePolicyAgainstConstraints env config constraints = .ok ()) :
    validateMode config.network.mode constraints.mode = .ok () := by
  unfold validatePolicyAgainstConstraints at h
  obtain ⟨⟨⟩, -, h⟩ := bind_eq_ok h
  obtain ⟨⟨⟩, -, h⟩ := bind_eq_ok h
  obtain ⟨⟨⟩, hmode, -⟩ := bind_eq_ok h
  exact hmode

theorem accepted_setMode {constraints : NetworkProxyConstraints} {mode : NetworkMode}
    (h : validatePolicyAgainstConstraints env config constraints = .ok ())
    (hmode : validateMode mode constraints.mode = .ok ()) :
    validatePolicyAgainstConstraints env ⟨{ config.network with mode := mode }⟩ constraints = .ok () := by
  unfold validatePolicyAgainstConstraints at h ⊢
  obtain ⟨⟨⟩, hdenied, h⟩ := bind_eq_ok h
  obtain ⟨⟨⟩, henabled, h⟩ := bind_eq_ok h
  obtain ⟨⟨⟩, -, h⟩ := bind_eq_ok h
  exact bind_ok hdenied (bind_ok henabled (bind_ok hmode h))

/-! ## Sections -/

theorem updatedDomains_test (host : Host) (target : DomainListKind) (network : NetworkProxySettings) :
    (((target.entries network).any fun entry => normalizeHost entry = host.text) &&
      !(target.oppositeEntries network).any fun entry => normalizeHost entry = host.text) = true ↔
      SetTo target host network := by
  rw [oppositeEntries_eq]
  simp [SetTo]

theorem buildConfigState_config {constraints : NetworkProxyConstraints}
    (h : buildConfigState env config constraints = .ok state) :
    state.config = config ∧ state.constraints = constraints := by
  unfold buildConfigState at h
  obtain ⟨-, -, h⟩ := bind_eq_ok h
  obtain ⟨-, -, h⟩ := bind_eq_ok h
  obtain ⟨denySet, -, h⟩ := bind_eq_ok h
  obtain ⟨allowSet, -, h⟩ := bind_eq_ok h
  obtain ⟨mitm, -, h⟩ := bind_eq_ok h
  obtain rfl := Except.ok.inj h
  exact ⟨rfl, rfl⟩

/-- A new state with what the call does to this config, and accepted. -/
structure Prepared (env : Externals) (host : Host) (target : DomainListKind) (config : NetworkProxyConfig)
    (constraints : NetworkProxyConstraints) (newState : ConfigState) : Prop where
  config_eq : newState.config = (Call.updateDomainList host target).apply config
  constraints_eq : newState.constraints = constraints
  accepted : validatePolicyAgainstConstraints env newState.config constraints = .ok ()

section

variable {host : Host} {target : DomainListKind} {state newState : ConfigState}

theorem setTo_of_unchanged (h : updatedDomains env host target state = .unchanged) :
    SetTo target host state.config.network := by
  simp only [updatedDomains] at h
  split at h
  · next htest => exact (updatedDomains_test _ _ _).mp htest
  · split at h
    · cases h
    · split at h
      · cases h
      · cases h

theorem prepared_of_replace (h : updatedDomains env host target state = .replace newState) :
    Prepared env host target state.config state.constraints newState := by
  simp only [updatedDomains] at h
  split at h
  · cases h
  · next htest =>
      replace htest := mt (updatedDomains_test host target state.config.network).mpr htest
      split at h
      · cases h
      · next haccepted =>
          split at h
          · cases h
          · next built hbuilt =>
              obtain rfl := DomainUpdate.replace.inj h
              obtain ⟨hconfig, hconstraints⟩ := buildConfigState_config hbuilt
              have happly : (built.withBlocked state).config = (Call.updateDomainList host target).apply state.config := by
                rw [Call.apply, if_neg htest]
                exact hconfig
              refine ⟨happly, hconstraints, ?_⟩
              exact (congrArg (validatePolicyAgainstConstraints env · state.constraints) hconfig).trans haccepted

end

/-- A call that leaves the state to the updates, on a normalised host if it is one. -/
def Call.Plain : Call → Prop
  | replaceConfigState _ => False
  | forceReload => False
  | call => call.OnNormalizedHost

/-- A section of such a call, with what was checked before it. -/
def Task.Sound (env : Externals) : Task → Prop
  | reloading call => call.Plain
  | ready call => call.Plain
  | updateWrite host target previousCfg constraints newState =>
      (Call.updateDomainList host target).Plain ∧ Prepared env host target previousCfg constraints newState
  | setModeWrite mode constraints => validateMode mode constraints.mode = .ok ()
  | _ => False

/-- The calls that succeed in a section that the task runs. -/
def World.succeeds (env : Externals) (world : World) (reply : Reply) (task : Task) : List Call :=
  if (world.runTask env reply task).2 = none && world.returnsOk env task then [task.call] else []

/-- A section changes the config only as its call does, and only if the call succeeds in it. -/
structure SoundSection (env : Externals) (world next : World) (calls : List Call) : Prop where
  constraints : next.state.constraints = world.state.constraints
  config : next.state.config = calls.foldl Call.apply world.state.config
  accepted : validatePolicyAgainstConstraints env world.state.config world.state.constraints = .ok () →
    validatePolicyAgainstConstraints env next.state.config world.state.constraints = .ok ()

variable {world : World} {reply : Reply} {task : Task} {returned : List (Call × Bool)}

section RunTask

attribute [local simp] World.runTask World.step World.returned World.returnsOk

theorem soundSection_of_same {next : World} {calls : List Call} (hconstraints : next.state.constraints = world.state.constraints)
    (hconfig : next.state.config = world.state.config)
    (hcalls : calls.foldl Call.apply world.state.config = world.state.config) : SoundSection env world next calls where
  constraints := hconstraints
  config := hconfig.trans hcalls.symm
  accepted := by
    rw [hconfig]
    exact id

theorem foldl_succeeds (h : task.call.apply world.state.config = world.state.config) :
    (world.succeeds env reply task).foldl Call.apply world.state.config = world.state.config := by
  unfold World.succeeds
  split
  · exact h
  · rfl

theorem soundSection_updateWrite {host : Host} {target : DomainListKind} {previousCfg : NetworkProxyConfig}
    {constraints : NetworkProxyConstraints} {newState : ConfigState}
    (h : Prepared env host target previousCfg constraints newState) :
    SoundSection env world (world.runTask env reply (.updateWrite host target previousCfg constraints newState)).1
      (world.succeeds env reply (.updateWrite host target previousCfg constraints newState)) := by
  simp only [World.succeeds, World.runTask, World.returnsOk]
  split
  · exact soundSection_of_same rfl rfl rfl
  · next hread =>
      simp only [Bool.or_eq_true, decide_eq_true_eq, not_or, ne_eq, Decidable.not_not] at hread
      obtain ⟨rfl, rfl⟩ := hread
      exact ⟨h.constraints_eq, h.config_eq, fun _ => h.accepted⟩

theorem soundSection_setModeWrite {mode : NetworkMode} {constraints : NetworkProxyConstraints}
    (h : validateMode mode constraints.mode = .ok ()) :
    SoundSection env world (world.runTask env reply (.setModeWrite mode constraints)).1
      (world.succeeds env reply (.setModeWrite mode constraints)) := by
  simp only [World.succeeds, World.runTask, World.returnsOk]
  split
  · exact soundSection_of_same rfl rfl rfl
  · next hread =>
      simp only [ne_eq, Decidable.not_not] at hread
      subst hread
      exact ⟨rfl, rfl, fun haccepted => accepted_setMode haccepted h⟩

theorem soundSection_update {host : Host} {target : DomainListKind} :
    SoundSection env world (world.runTask env reply (.ready (.updateDomainList host target))).1
      (world.succeeds env reply (.ready (.updateDomainList host target))) := by
  cases hupdate : updatedDomains env host target world.state with
  | unchanged =>
      have hsame : (Call.updateDomainList host target).apply world.state.config = world.state.config :=
        if_pos (setTo_of_unchanged hupdate)
      apply soundSection_of_same
      · simp only [World.runTask, hupdate]
      · simp only [World.runTask, hupdate]
      · exact foldl_succeeds hsame
  | failed =>
      apply soundSection_of_same
      · simp only [World.runTask, hupdate]
      · simp only [World.runTask, hupdate]
      · simp [World.succeeds, World.returnsOk, hupdate]
  | replace newState =>
      apply soundSection_of_same
      · simp only [World.runTask, hupdate]
      · simp only [World.runTask, hupdate]
      · simp [World.succeeds, World.returnsOk, hupdate]

theorem soundSection_runTask (h : task.Sound env) :
    SoundSection env world (world.runTask env reply task).1 (world.succeeds env reply task) := by
  cases task with
  | reloading call =>
      cases reply with
      | failed => exact soundSection_of_same rfl rfl rfl
      | unchanged => exact soundSection_of_same rfl rfl rfl
      | loaded newState => exact soundSection_of_same rfl rfl rfl
  | reloadRead call newState => cases h
  | reloadWrite call newState => cases h
  | ready call =>
      cases call with
      | recordBlocked entry =>
          apply soundSection_of_same
          · simp only [World.runTask, ConfigState.pushBlocked]
          · simp only [World.runTask, ConfigState.pushBlocked]
          · exact foldl_succeeds rfl
      | drainBlocked => exact soundSection_of_same rfl rfl (foldl_succeeds rfl)
      | updateDomainList host target => exact soundSection_update
      | setNetworkMode mode =>
          simp only [World.succeeds, World.runTask, World.returnsOk, Bool.and_false]
          split
          · exact soundSection_of_same rfl rfl rfl
          · exact soundSection_of_same rfl rfl rfl
      | replaceConfigState newState => cases h
      | forceReload => cases h
      | observe => exact soundSection_of_same rfl rfl (foldl_succeeds rfl)
  | updateWrite host target previousCfg constraints newState => exact soundSection_updateWrite h.2
  | setModeWrite mode constraints => exact soundSection_setModeWrite h
  | forceReloadWrite newState => cases h

/-- What is left of the call is again a section with its checks, if nothing is loaded. -/
theorem sound_runTask (hreply : ∀ newState, reply ≠ .loaded newState) (h : task.Sound env) {rest : Task}
    (hrest : (world.runTask env reply task).2 = some rest) : rest.Sound env := by
  cases task with
  | reloading call =>
      cases reply with
      | failed => cases hrest
      | unchanged =>
          obtain rfl := Option.some.inj hrest
          exact h
      | loaded newState => exact absurd rfl (hreply newState)
  | reloadRead call newState => cases h
  | reloadWrite call newState => cases h
  | ready call =>
      cases call with
      | recordBlocked entry => cases hrest
      | drainBlocked => cases hrest
      | updateDomainList host target =>
          simp only [World.runTask] at hrest
          split at hrest
          · cases hrest
          · cases hrest
          · next hreplace =>
              obtain rfl := Option.some.inj hrest
              exact ⟨h, prepared_of_replace hreplace⟩
      | setNetworkMode mode =>
          simp only [World.runTask] at hrest
          split at hrest
          · cases hrest
          · next haccepted =>
              obtain rfl := Option.some.inj hrest
              exact validateMode_of_accepted haccepted
      | replaceConfigState newState => cases h
      | forceReload => cases h
      | observe => cases hrest
  | updateWrite host target previousCfg constraints newState =>
      simp only [World.runTask] at hrest
      split at hrest
      · obtain rfl := Option.some.inj hrest
        exact h.1
      · cases hrest
  | setModeWrite mode constraints =>
      simp only [World.runTask] at hrest
      split at hrest
      · obtain rfl := Option.some.inj hrest
        exact trivial
      · cases hrest
  | forceReloadWrite newState => cases h

end RunTask

/-! ## Runs -/

/-- The calls in flight are sound, and the config is what the calls that succeeded make of the first one. -/
structure Tracks (env : Externals) (state : ConfigState) (world : World) (returned : List (Call × Bool)) : Prop where
  constraints : world.state.constraints = state.constraints
  accepted : validatePolicyAgainstConstraints env world.state.config state.constraints = .ok ()
  tasks : ∀ task ∈ world.tasks, task.Sound env
  hosts : ∀ call ∈ succeeded returned, call.OnNormalizedHost
  config : world.state.config = (succeeded returned).foldl Call.apply state.config

theorem succeeded_append (first second : List (Call × Bool)) :
    succeeded (first ++ second) = succeeded first ++ succeeded second := by
  simp [succeeded]

theorem Task.Sound.onNormalizedHost (h : task.Sound env) : task.call.OnNormalizedHost := by
  have hplain : ∀ {call : Call}, call.Plain → call.OnNormalizedHost := by
    intro call hcall
    cases call with
    | updateDomainList host target => exact hcall
    | _ => trivial
  cases task with
  | reloading call => exact hplain h
  | ready call => exact hplain h
  | updateWrite host target previousCfg constraints newState => exact hplain h.1
  | _ => trivial

theorem succeeded_returned {index : Nat} (htask : world.tasks[index]? = some task) :
    succeeded (world.returned env (.advance index reply)) = world.succeeds env reply task := by
  simp only [World.returned, htask, World.succeeds]
  by_cases hnone : (world.runTask env reply task).2 = none
  · cases hok : world.returnsOk env task <;> simp [hnone, succeeded]
  · simp [hnone, succeeded]

theorem soundSection_step (h : Tracks env state world returned) (action : Action) :
    SoundSection env world (world.step env action) (succeeded (world.returned env action)) := by
  cases action with
  | call call => exact soundSection_of_same rfl rfl rfl
  | advance index reply =>
      cases htask : world.tasks[index]? with
      | none =>
          simp only [World.step, World.returned, htask]
          exact soundSection_of_same rfl rfl rfl
      | some task =>
          have hsection : SoundSection env world (world.runTask env reply task).1 (world.succeeds env reply task) :=
            soundSection_runTask (h.tasks task (List.mem_of_getElem? htask))
          rw [succeeded_returned htask]
          simp only [World.step, htask]
          exact ⟨hsection.constraints, hsection.config, hsection.accepted⟩

theorem tracks_tasks_step (h : Tracks env state world returned) {action : Action} (hupdating : Updating action)
    (hhosts : OnNormalizedHosts action) : ∀ task ∈ (world.step env action).tasks, task.Sound env := by
  intro task hmem
  cases action with
  | call call =>
      rcases List.mem_append.mp hmem with hold | hnew
      · exact h.tasks task hold
      · obtain rfl := List.mem_singleton.mp hnew
        cases call with
        | replaceConfigState newState => cases hupdating
        | forceReload => cases hupdating
        | updateDomainList host target => exact hhosts
        | recordBlocked entry => trivial
        | drainBlocked => trivial
        | setNetworkMode mode => trivial
        | observe => trivial
  | advance index reply =>
      have hreply : ∀ newState, reply ≠ .loaded newState := by
        rintro newState rfl
        cases hupdating
      cases htask : world.tasks[index]? with
      | none =>
          simp only [World.step, htask] at hmem
          exact h.tasks task hmem
      | some current =>
          simp only [World.step, htask, List.mem_append, Option.mem_toList] at hmem
          rcases hmem with (hbefore | hrest) | hafter
          · exact h.tasks task (List.mem_of_mem_take hbefore)
          · exact sound_runTask hreply (h.tasks current (List.mem_of_getElem? htask)) hrest
          · exact h.tasks task (List.mem_of_mem_drop hafter)

theorem onNormalizedHost_returned (h : Tracks env state world returned) (action : Action) :
    ∀ call ∈ succeeded (world.returned env action), call.OnNormalizedHost := by
  intro call hcall
  cases action with
  | call call => cases hcall
  | advance index reply =>
      cases htask : world.tasks[index]? with
      | none =>
          simp only [World.returned, htask] at hcall
          cases hcall
      | some task =>
          rw [succeeded_returned htask, World.succeeds] at hcall
          split at hcall
          · obtain rfl := List.mem_singleton.mp hcall
            exact (h.tasks task (List.mem_of_getElem? htask)).onNormalizedHost
          · cases hcall

theorem tracks_step {action : Action} (hguard : Updating action ∧ OnNormalizedHosts action)
    (h : Tracks env state world returned) :
    Tracks env state (world.step env action) (returned ++ world.returned env action) := by
  have hsection := soundSection_step h action
  refine ⟨hsection.constraints.trans h.constraints, ?_, tracks_tasks_step h hguard.1 hguard.2, ?_, ?_⟩
  · rw [← h.constraints]
    apply hsection.accepted
    rw [h.constraints]
    exact h.accepted
  · intro call hcall
    rw [succeeded_append] at hcall
    rcases List.mem_append.mp hcall with hold | hnew
    · exact h.hosts call hold
    · exact onNormalizedHost_returned h action call hnew
  · rw [succeeded_append, List.foldl_append, ← h.config]
    exact hsection.config

theorem Tracks.updatesApplied (h : Tracks env state world returned) :
    UpdatesApplied env state world (succeeded returned) where
  accepted := h.accepted
  unchanged := by
    intro action hnone
    have hconfig := (soundSection_step h action).config
    rwa [hnone] at hconfig
  sequential := h.config
  hosts := by
    intro host target hlast
    rw [h.config]
    exact setTo_foldl h.hosts hlast
  mode := by
    intro mode hlast
    rw [h.config]
    exact mode_foldl hlast

end Codrex.NetworkProxy
