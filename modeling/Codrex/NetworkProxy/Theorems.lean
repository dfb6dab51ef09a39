import Codrex.Lib.Transition
import Codrex.NetworkProxy.Lemmas.Policy
import Codrex.NetworkProxy.Lemmas.Updates
import Codrex.NetworkProxy.Spec
import Mathlib.Data.List.Nodup

/-!
# The buffer of blocked requests over a run
-/

namespace Codrex.NetworkProxy

variable {env : Externals}

/-- The buffer holds what was recorded from `start` on. -/
structure Window (world : World) (start : Nat) : Prop where
  total : world.state.blockedTotal = world.recorded.length
  le : start ≤ world.recorded.length
  blocked : world.state.blocked = world.recorded.zipIdx.drop start
  drained : world.drained.flatten.Sublist (world.recorded.zipIdx.take start)
  gone : ∀ entry number, number < start → world.recorded[number]? = some entry →
    (entry, number) ∈ world.drained.flatten ∨ number + 1 + maxBlockedEvents ≤ world.recorded.length

variable {world next : World} {start : Nat}

theorem window_new {state : ConfigState} (hblocked : state.blocked = []) (htotal : state.blockedTotal = 0) :
    Window (.new state) 0 where
  total := htotal
  le := Nat.le_refl 0
  blocked := hblocked
  drained := List.Sublist.refl _
  gone := fun _ number hnumber => absurd hnumber (Nat.not_lt_zero number)

theorem buildConfigState_blocked {config : NetworkProxyConfig} {constraints : NetworkProxyConstraints}
    {state : ConfigState} (h : buildConfigState env config constraints = .ok state) :
    state.blocked = [] ∧ state.blockedTotal = 0 := by
  unfold buildConfigState at h
  obtain ⟨-, -, h⟩ := Fallible.bind_eq_ok h
  obtain ⟨-, -, h⟩ := Fallible.bind_eq_ok h
  obtain ⟨denySet, -, h⟩ := Fallible.bind_eq_ok h
  obtain ⟨allowSet, -, h⟩ := Fallible.bind_eq_ok h
  obtain ⟨mitm, -, h⟩ := Fallible.bind_eq_ok h
  obtain rfl := Except.ok.inj h
  exact ⟨rfl, rfl⟩

/-- A section that keeps the requests. -/
theorem Window.keep (h : Window world start) (hstate : SameBlocked next.state world.state)
    (hrecorded : next.recorded = world.recorded) (hdrained : next.drained = world.drained) : Window next start where
  total := by rw [hstate.2, hrecorded, h.total]
  le := by rw [hrecorded]; exact h.le
  blocked := by rw [hstate.1, hrecorded, h.blocked]
  drained := by rw [hrecorded, hdrained]; exact h.drained
  gone := by rw [hrecorded, hdrained]; exact h.gone

theorem zipIdx_concat (recorded : List BlockedRequest) (entry : BlockedRequest) :
    (recorded ++ [entry]).zipIdx = recorded.zipIdx ++ [(entry, recorded.length)] := by
  rw [List.zipIdx_append, Nat.zero_add]
  rfl

theorem mem_drop_zipIdx {recorded : List BlockedRequest} {entry : BlockedRequest} {number : Nat}
    (hentry : recorded[number]? = some entry) (h : start ≤ number) : (entry, number) ∈ recorded.zipIdx.drop start := by
  obtain ⟨skip, rfl⟩ := Nat.exists_eq_add_of_le h
  apply List.mem_of_getElem? (i := skip)
  rw [List.getElem?_drop, List.getElem?_zipIdx, hentry, Nat.zero_add]
  rfl

/-- A request is recorded; those that fall out of the buffer have enough newer ones. -/
theorem Window.record (h : Window world start) (htotal : world.state.blockedTotal < 2 ^ 64 - 1) (entry : BlockedRequest)
    (hstate : next.state = world.state.pushBlocked (entry, world.recorded.length))
    (hrecorded : next.recorded = world.recorded ++ [entry]) (hdrained : next.drained = world.drained) :
    ∃ start, Window next start := by
  have hlength : next.recorded.length = world.recorded.length + 1 := by simp [hrecorded]
  have hpushed : world.state.blocked ++ [(entry, world.recorded.length)] = next.recorded.zipIdx.drop start := by
    rw [hrecorded, zipIdx_concat, List.drop_append_of_le_length (by rw [List.length_zipIdx]; exact h.le), h.blocked]
  have hcount : (world.state.blocked ++ [(entry, world.recorded.length)]).length = next.recorded.length - start := by
    rw [hpushed, List.length_drop, List.length_zipIdx]
  have hle := h.le
  let skip := next.recorded.length - start - maxBlockedEvents
  refine ⟨start + skip, ?_, ?_, ?_, ?_, ?_⟩
  · rw [hstate, hlength, ← h.total]
    simp only [ConfigState.pushBlocked, Fallible.saturatingAdd]
    omega
  · omega
  · rw [hstate]
    simp only [ConfigState.pushBlocked]
    rw [hcount, hpushed, List.drop_drop]
  · rw [hdrained, hrecorded, zipIdx_concat]
    refine h.drained.trans (List.Sublist.trans ?_ (List.take_sublist_take_left (Nat.le_add_right start skip)))
    rw [List.take_append_of_le_length (by rw [List.length_zipIdx]; exact h.le)]
  · intro found number hnumber hfound
    rw [hdrained, hlength]
    by_cases hold : number < start
    · rw [hrecorded, List.getElem?_append_left (by omega)] at hfound
      rcases h.gone found number hold hfound with hgone | hnewer
      · exact Or.inl hgone
      · exact Or.inr (by omega)
    · exact Or.inr (by omega)

theorem Window.drain (h : Window world start) (hblocked : next.state.blocked = [])
    (htotal : next.state.blockedTotal = world.state.blockedTotal) (hrecorded : next.recorded = world.recorded)
    (hdrained : next.drained = world.drained ++ [world.state.blocked]) : Window next world.recorded.length := by
  have hflatten : next.drained.flatten = world.drained.flatten ++ world.recorded.zipIdx.drop start := by
    rw [hdrained, List.flatten_append, List.flatten_singleton, h.blocked]
  refine ⟨?_, ?_, ?_, ?_, ?_⟩
  · rw [htotal, hrecorded, h.total]
  · rw [hrecorded]
  · rw [hblocked, hrecorded, List.drop_eq_nil_of_le (by rw [List.length_zipIdx])]
  · rw [hflatten, hrecorded, List.take_of_length_le (by rw [List.length_zipIdx])]
    have happend := h.drained.append (List.Sublist.refl (world.recorded.zipIdx.drop start))
    rwa [List.take_append_drop] at happend
  · intro entry number hnumber hentry
    rw [hflatten, hrecorded]
    rw [hrecorded] at hentry
    by_cases hold : number < start
    · rcases h.gone entry number hold hentry with hgone | hnewer
      · exact Or.inl (List.mem_append_left _ hgone)
      · exact Or.inr hnewer
    · exact Or.inl (List.mem_append_right _ (mem_drop_zipIdx hentry (Nat.le_of_not_lt hold)))

/-- One section, if it meets the guard. -/
theorem window_runTask {index : Nat} {reply : Reply} {task : Task} (htask : world.tasks[index]? = some task)
    (hguard : world.KeepsBlocked (.advance index reply)) (h : Window world start) :
    ∃ start, Window (world.runTask env reply task).1 start := by
  have hsame : ∃ start, Window world start := ⟨start, h⟩
  rw [World.KeepsBlocked, htask] at hguard
  cases task with
  | reloading call =>
      cases reply with
      | failed => exact hsame
      | unchanged => exact hsame
      | loaded newState => exact hsame
  | reloadRead call newState => exact hsame
  | reloadWrite call newState => exact ⟨start, h.keep hguard rfl rfl⟩
  | ready call =>
      cases call with
      | recordBlocked entry =>
          rw [World.runTask]
          exact h.record hguard entry rfl rfl rfl
      | drainBlocked => exact ⟨_, h.drain rfl rfl rfl rfl⟩
      | updateDomainList host target =>
          simp only [World.runTask]
          split
          · exact hsame
          · exact hsame
          · exact hsame
      | setNetworkMode mode =>
          simp only [World.runTask]
          split
          · exact hsame
          · exact hsame
      | replaceConfigState newState => exact ⟨start, h.keep ⟨rfl, rfl⟩ rfl rfl⟩
      | forceReload =>
          cases reply with
          | failed => exact hsame
          | unchanged => exact hsame
          | loaded newState => exact hsame
      | observe => exact hsame
  | updateWrite host target previousCfg constraints newState =>
      simp only [World.runTask]
      split
      · exact hsame
      · next hunchanged =>
          simp only [Bool.or_eq_true, decide_eq_true_eq, not_or, ne_eq, Decidable.not_not] at hunchanged
          exact ⟨start, h.keep (hguard hunchanged.1 hunchanged.2) rfl rfl⟩
  | setModeWrite mode constraints =>
      simp only [World.runTask]
      split
      · exact hsame
      · exact ⟨start, h.keep ⟨rfl, rfl⟩ rfl rfl⟩
  | forceReloadWrite newState => exact ⟨start, h.keep ⟨rfl, hguard⟩ rfl rfl⟩

theorem window_step (action : Action) (hguard : world.KeepsBlocked action) (h : ∃ start, Window world start) :
    ∃ start, Window (world.step env action) start := by
  obtain ⟨start, h⟩ := h
  cases action with
  | call call => exact ⟨start, h.keep ⟨rfl, rfl⟩ rfl rfl⟩
  | advance index reply =>
      cases htask : world.tasks[index]? with
      | none => exact ⟨start, by simpa only [World.step, htask] using h⟩
      | some task =>
          obtain ⟨later, hlater⟩ := @window_runTask env _ _ _ _ _ htask hguard h
          refine ⟨later, ?_⟩
          simp only [World.step, htask]
          exact hlater.keep ⟨rfl, rfl⟩ rfl rfl

theorem Window.accounted (h : Window world start) : Accounted world := by
  have hwhole : (world.drained.flatten ++ world.state.blocked).Sublist world.recorded.zipIdx := by
    have happend := h.drained.append (List.Sublist.refl (world.recorded.zipIdx.drop start))
    rwa [List.take_append_drop, ← h.blocked] at happend
  refine ⟨h.total, ?_, ?_, ?_⟩
  · intro entry number hentry
    by_cases hold : number < start
    · exact Or.inr (h.gone entry number hold hentry)
    · left
      rw [h.blocked]
      exact mem_drop_zipIdx hentry (Nat.le_of_not_lt hold)
  · intro entry number hmem
    exact List.mk_mem_zipIdx_iff_getElem?.mp (hwhole.subset hmem)
  · apply hwhole.nodup
    apply List.Nodup.of_map Prod.snd
    rw [List.zipIdx_map_snd]
    exact List.nodup_range'

end Codrex.NetworkProxy

/-!
## The managed allowlist, the blocked requests and the updates of the policy
-/

namespace Codrex.NetworkProxy

open Text

/-- An accepted allowlist lets no other hosts through than the managed one if its entries are covered as they are
enforced; for literal domains only then. They are covered if they are plain and the check reads all entries as they are
enforced. -/
theorem allowlist_contained_of_covered {env : Externals} (hglobs : env.GlobsDocumented) {config : NetworkProxyConfig}
    {constraints : NetworkProxyConstraints} {managed entries : List Str} {set managedSet : GlobSet}
    (hmanaged : constraints.allowedDomains = some managed) (hexpansion : constraints.allowlistExpansionEnabled = none)
    (haccepted : validatePolicyAgainstConstraints env config constraints = .ok ())
    (hentries : config.network.allowedDomains.getD [] = entries)
    (hset : compileAllowlistGlobset env entries = .ok set)
    (hmanagedSet : compileAllowlistGlobset env managed = .ok managedSet) :
    (Covered managed entries → Contained env set managedSet) ∧
      ((∀ entry ∈ entries, IsDomain entry) → (∀ entry ∈ managed, IsLiteral (enforced entry).domain) →
        (Contained env set managedSet ↔ Covered managed entries)) ∧
      ((∀ entry ∈ entries, ReadAlike env entry ∧ HasFirstLabel entry ∧ PlainGlob (enforced entry).domain) →
        (∀ entry ∈ managed, ReadAlike env entry) → Covered managed entries) := by
  refine ⟨contained_of_covered hglobs hset hmanagedSet, ?_, ?_⟩
  · intro hdomains hliteral
    exact ⟨covered_of_contained hglobs hset hmanagedSet hdomains hliteral, contained_of_covered hglobs hset hmanagedSet⟩
  · intro hread hmanagedRead entry hentry pattern hpattern
    subst hentries
    obtain ⟨managedEntry, hmem, hallows⟩ := allows_of_accepted hmanaged hexpansion haccepted hentry
    obtain ⟨halike, hlabel, hplain⟩ := hread entry hentry
    unfold HasFirstLabel at hlabel
    rw [← halike] at hpattern hlabel hplain
    obtain ⟨managedPattern, hmanagedPattern, hcovers⟩ := covers_of_allows hallows hplain hlabel hpattern
    rw [hmanagedRead managedEntry hmem] at hmanagedPattern
    exact ⟨managedEntry, hmem, managedPattern, hmanagedPattern, hcovers⟩

def isForbiddenHostCodePoint (c : Char) : Bool :=
  c.toNat ≤ 0x20 || c.toNat = 0x7f || c ∈ "#/:<>?@[\\]^|%".toList

/-- Hosts of ASCII letters, digits, dots and hyphens, as `url` reads them, and plain globs. -/
def asciiExternals : Externals where
  parseUrlHost host := if host = [] || host.any isForbiddenHostCodePoint then none else some (toAsciiLowercase host)
  isGlob _ := true
  isGlobSet _ := true
  globMatches pattern text := Glob.isMatch Char.toLower (pattern.map globToken) text
  canIntercept _ := true

def allowing (entries : List Str) : NetworkProxyConfig :=
  ⟨{ NetworkProxySettings.default with domains := some ⟨entries.map fun entry => ⟨entry, .allow⟩⟩ }⟩

def managing (entries : List Str) : NetworkProxyConstraints :=
  { NetworkProxyConstraints.default with allowedDomains := some entries }

theorem asciiExternals_globsDocumented : asciiExternals.GlobsDocumented :=
  ⟨Char.toLower, fun _ _ _ _ => Iff.rfl, fun _ _ _ => rfl⟩

theorem allowlist_contained_subdomain :
    Covered ["*.example.com".toList] ["API.example.com.".toList] ∧
      Contained asciiExternals ⟨["api.example.com"]⟩ ⟨["?*.example.com"]⟩ := by
  obtain ⟨hcontained, -, hcovered⟩ :=
    @allowlist_contained_of_covered asciiExternals asciiExternals_globsDocumented (allowing ["API.example.com."]) (managing ["*.example.com"])
      ["*.example.com"] ["API.example.com."] ⟨["api.example.com"]⟩ ⟨["?*.example.com"]⟩
      rfl rfl (by decide) (by decide) (by decide) (by decide)
  have hread : ReadAlike asciiExternals "API.example.com.".toList := by
    unfold ReadAlike
    decide
  have hlabel : HasFirstLabel "API.example.com.".toList := by
    intro label rest hdomain
    have henforced : (enforced "API.example.com.".toList).domain = "api.example.com".toList := by decide
    rw [henforced] at hdomain
    cases label with
    | nil => cases hdomain
    | cons first label =>
        obtain rfl : 'a' = first := (List.cons.inj hdomain).1
        exact ⟨'a', List.mem_cons_self, by decide⟩
  have hmanagedRead : ReadAlike asciiExternals "*.example.com".toList := by
    unfold ReadAlike
    decide
  have hboth : Covered ["*.example.com".toList] ["API.example.com.".toList] :=
    hcovered (List.forall_mem_singleton.mpr ⟨hread, hlabel, by decide⟩) (List.forall_mem_singleton.mpr hmanagedRead)
  exact ⟨hboth, hcontained hboth⟩

/-- Two addresses in brackets are both read as the empty domain by the check. -/
theorem allowlist_widened_by_address :
    validatePolicyAgainstConstraints asciiExternals (allowing ["[2001:db8::1]"]) (managing ["[::1]"]) = .ok () ∧
      compileAllowlistGlobset asciiExternals ((allowing ["[2001:db8::1]"]).network.allowedDomains.getD []) =
        .ok ⟨["2001:db8::1"]⟩ ∧
      compileAllowlistGlobset asciiExternals ["[::1]".toList] = .ok ⟨["::1"]⟩ ∧
      ¬ Contained asciiExternals ⟨["2001:db8::1"]⟩ ⟨["::1"]⟩ := by
  refine ⟨by decide, by decide, by decide, ?_⟩
  intro hcontained
  have hmatch := hcontained "[2001:db8::1]" ⟨"2001:db8::1", by decide⟩ (by decide) (by decide)
  exact absurd hmatch (by decide)

/-- No request that was recorded is lost, in any order of the sections of any calls, as long as the state is only
overwritten with the requests it has. -/
theorem blocked_accounted {env : Externals} {config : NetworkProxyConfig} {constraints : NetworkProxyConstraints}
    {state : ConfigState} (hstate : buildConfigState env config constraints = .ok state) {actions : List Action}
    (hguard : Transition.Guarded (World.step env) World.KeepsBlocked (.new state) actions) {reached : List Action}
    (hreached : reached <+: actions) : Accounted (Transition.run (World.step env) (.new state) reached) := by
  obtain ⟨rest, rfl⟩ := hreached
  obtain ⟨hblocked, htotal⟩ := buildConfigState_blocked hstate
  obtain ⟨start, hwindow⟩ := hguard.of_append.invariant (fun _ action => window_step action)
    ⟨0, window_new hblocked htotal⟩
  exact hwindow.accounted

def blockedRequest (host : Str) : BlockedRequest :=
  ⟨host, "not_allowed", none, none, none, "http", none, none, some 80, 0⟩

def emptyState : ConfigState :=
  ⟨⟨NetworkProxySettings.default⟩, ⟨[]⟩, ⟨[]⟩, none, NetworkProxyConstraints.default, [], 0⟩

theorem blocked_accounted_record_drain :
    Accounted (Transition.run (World.step asciiExternals) (.new emptyState)
      [.call (.recordBlocked (blockedRequest "a")), .advance 0 .unchanged, .advance 0 .unchanged,
        .call .drainBlocked, .advance 0 .unchanged, .advance 0 .unchanged]) :=
  @blocked_accounted asciiExternals ⟨NetworkProxySettings.default⟩ NetworkProxyConstraints.default emptyState
    (by decide)
    [.call (.recordBlocked (blockedRequest "a")), .advance 0 .unchanged, .advance 0 .unchanged,
      .call .drainBlocked, .advance 0 .unchanged, .advance 0 .unchanged]
    ⟨trivial, trivial, (by decide : 0 < 2 ^ 64 - 1), trivial, trivial, trivial, trivial⟩ _ (List.prefix_refl _)

/-- A domain update reads the state, a request is recorded, and the update overwrites it. -/
def recordedDuringUpdate : List Action :=
  [.call (.updateDomainList ⟨"example.com", by decide⟩ .allow), .advance 0 .unchanged, .advance 0 .unchanged,
    .call (.recordBlocked (blockedRequest "a")), .advance 1 .unchanged, .advance 1 .unchanged, .advance 0 .unchanged]

theorem recordedDuringUpdate_not_accounted :
    buildConfigState asciiExternals ⟨NetworkProxySettings.default⟩ NetworkProxyConstraints.default = .ok emptyState ∧
      (Transition.run (World.step asciiExternals) (.new emptyState) recordedDuringUpdate).recorded =
        [blockedRequest "a"] ∧
      (Transition.run (World.step asciiExternals) (.new emptyState) recordedDuringUpdate).state.blocked = [] ∧
      ¬ Accounted (Transition.run (World.step asciiExternals) (.new emptyState) recordedDuringUpdate) := by
  refine ⟨by decide, by decide, by decide, ?_⟩
  intro haccounted
  have htotal := haccounted.total
  exact absurd htotal (by decide)

/-- In any order of the sections of the calls, the policy stays within the constraints, only a successful call changes it,
and it has what every successful call set last, if the calls are on hosts that are normalised. -/
theorem updates_applied {env : Externals} {state : ConfigState}
    (hstate : validatePolicyAgainstConstraints env state.config state.constraints = .ok ()) {actions : List Action}
    (hguard : Transition.Guarded (World.step env) (fun _ action => Updating action ∧ OnNormalizedHosts action)
      (.new state) actions) {reached : List Action} (hreached : reached <+: actions) :
    UpdatesApplied env state (Transition.run (World.step env) (.new state) reached)
      (succeeded (Transition.outputs (World.step env) (World.returned env) (.new state) reached)) := by
  obtain ⟨rest, rfl⟩ := hreached
  have hstart : Tracks env state (.new state) [] :=
    ⟨rfl, hstate, fun task hmem => absurd hmem List.not_mem_nil, fun call hmem => absurd hmem List.not_mem_nil, rfl⟩
  have hrun := hguard.of_append.invariant_outputs (fun _ _ _ hguard h => tracks_step hguard h) hstart
  exact hrun.updatesApplied

/-- A domain is denied while the mode is changed, then it is allowed. -/
def deniedThenAllowed : List Action :=
  [.call (.updateDomainList ⟨"a", by decide⟩ .deny), .call (.setNetworkMode .limited), .advance 0 .unchanged,
    .advance 1 .unchanged, .advance 0 .unchanged, .advance 1 .unchanged, .advance 1 .unchanged, .advance 0 .unchanged,
    .advance 0 .unchanged, .advance 0 .unchanged, .advance 0 .unchanged,
    .call (.updateDomainList ⟨"a", by decide⟩ .allow), .advance 0 .unchanged, .advance 0 .unchanged,
    .advance 0 .unchanged]

/-- The first update has to be tried again as the mode came between. -/
theorem updates_applied_deniedThenAllowed :
    succeeded (Transition.outputs (World.step asciiExternals) (World.returned asciiExternals) (.new emptyState)
        deniedThenAllowed) =
      [.setNetworkMode .limited, .updateDomainList ⟨"a", by decide⟩ .deny, .updateDomainList ⟨"a", by decide⟩ .allow] ∧
      UpdatesApplied asciiExternals emptyState
        (Transition.run (World.step asciiExternals) (.new emptyState) deniedThenAllowed)
        (succeeded (Transition.outputs (World.step asciiExternals) (World.returned asciiExternals) (.new emptyState)
          deniedThenAllowed)) := by
  refine ⟨by decide, ?_⟩
  have hparsed : ∀ target, ∃ input, Call.addDomain input target = some (.updateDomainList ⟨"a", by decide⟩ target) :=
    fun target => ⟨"a", by cases target <;> decide⟩
  have hnormalized : normalizeHost "a".toList = "a".toList := by decide
  have hadvance : ∀ index, Updating (.advance index .unchanged) ∧ OnNormalizedHosts (.advance index .unchanged) :=
    fun _ => ⟨trivial, trivial⟩
  refine updates_applied (by decide) ?_ (List.prefix_refl _)
  exact ⟨⟨hparsed .deny, hnormalized⟩, ⟨trivial, trivial⟩, hadvance 0, hadvance 1, hadvance 0, hadvance 1, hadvance 1,
    hadvance 0, hadvance 0, hadvance 0, hadvance 0, ⟨hparsed .allow, hnormalized⟩, hadvance 0, hadvance 0, hadvance 0,
    trivial⟩

/-- A host is denied, then the text between brackets is allowed, and both calls succeed. -/
def deniedThenBracketed : List Action :=
  [.call (.updateDomainList ⟨"a", by decide⟩ .deny), .advance 0 .unchanged, .advance 0 .unchanged, .advance 0 .unchanged,
    .call (.updateDomainList ⟨"a:80", by decide⟩ .allow), .advance 0 .unchanged, .advance 0 .unchanged,
    .advance 0 .unchanged]

theorem deniedThenBracketed_lost :
    Host.parse "[a:80]" = some ⟨"a:80", by decide⟩ ∧
      validatePolicyAgainstConstraints asciiExternals emptyState.config emptyState.constraints = .ok () ∧
      Transition.Guarded (World.step asciiExternals) (fun _ action => Updating action) (.new emptyState)
        deniedThenBracketed ∧
      succeeded (Transition.outputs (World.step asciiExternals) (World.returned asciiExternals) (.new emptyState)
          deniedThenBracketed) =
        [.updateDomainList ⟨"a", by decide⟩ .deny, .updateDomainList ⟨"a:80", by decide⟩ .allow] ∧
      (Transition.run (World.step asciiExternals) (.new emptyState) deniedThenBracketed).state.config.network.domains =
        some ⟨[⟨"a:80", .allow⟩]⟩ ∧
      ¬ UpdatesApplied asciiExternals emptyState
        (Transition.run (World.step asciiExternals) (.new emptyState) deniedThenBracketed)
        (succeeded (Transition.outputs (World.step asciiExternals) (World.returned asciiExternals) (.new emptyState)
          deniedThenBracketed)) := by
  refine ⟨by decide, by decide, ?_, by decide, by decide, ?_⟩
  · exact ⟨⟨"a", by decide⟩, trivial, trivial, trivial, ⟨"[a:80]", by decide⟩, trivial, trivial, trivial,
      trivial⟩
  · intro happlied
    have hdenied := happlied.hosts ⟨"a", by decide⟩ .deny (by decide)
    exact absurd hdenied (by decide)

end Codrex.NetworkProxy
