import Codrex.Lib.Glob
import Codrex.NetworkProxy.Runtime

/-!
# What the managed allowlist and the buffer of blocked requests are for

The hosts that a pattern lets through as it is enforced, and when the hosts of one list are hosts of another. What
became of each blocked request that was recorded. What is left of the policy updates that succeeded.
-/

namespace Codrex.NetworkProxy

open Text

/-! ## Globs -/

/-- Without classes, alternates, escapes and separators. -/
def PlainGlob (pattern : Str) : Prop := ∀ c ∈ pattern, c ∉ "[]\x7b\x7d\\/".toList

instance (pattern : Str) : Decidable (PlainGlob pattern) :=
  List.decidableBAll (fun c => c ∉ "[]\x7b\x7d\\/".toList) pattern

def globToken (c : Char) : Glob.Token Char :=
  if c = '*' then .any else if c = '?' then .one else .lit c

/-- What is documented of plain globs: `?` takes one character, `*` any number of them, and any other character takes
itself in either case. -/
def Externals.GlobsDocumented (env : Externals) : Prop :=
  ∃ fold : Char → Char,
    (∀ c d : Char, c.toNat < 128 → d.toNat < 128 → (fold c = fold d ↔ c.toLower = d.toLower)) ∧
    ∀ pattern text, PlainGlob pattern → env.globMatches pattern text = Glob.isMatch fold (pattern.map globToken) text

/-! ## Patterns as they are enforced -/

def DomainPattern.domain : DomainPattern → Str
  | apexAndSubdomains domain => domain
  | subdomainsOnly domain => domain
  | exact domain => domain

/-- One host, or the hosts below one. -/
inductive HostPattern
  | host (domain : Str)
  | below (domain : Str)
  deriving DecidableEq

def HostPattern.glob : HostPattern → Str
  | host domain => domain
  | below domain => "?*.".toList ++ domain

def DomainPattern.hostPatterns : DomainPattern → List HostPattern
  | exact domain => [.host domain]
  | subdomainsOnly domain => [.below domain]
  | apexAndSubdomains domain => [.host domain, .below domain]

/-- An entry as it is enforced. -/
def enforced (entry : Str) : DomainPattern := .parse (normalizePattern entry)

/-- A host is below a domain if a label stands in front of it, which must not be empty or only stars. Where a domain is
more than a plain glob, nothing but the pattern itself is known to cover it. -/
inductive HostPattern.Covers : HostPattern → HostPattern → Prop
  | same (pattern : HostPattern) : Covers pattern pattern
  | host (label domain : Str) : PlainGlob (label ++ '.' :: domain) → (∃ c ∈ label, c ≠ '*') →
      Covers (.below domain) (.host (label ++ '.' :: domain))
  | below (label domain : Str) : PlainGlob (label ++ '.' :: domain) →
      Covers (.below domain) (.below (label ++ '.' :: domain))

/-- Each entry, as it is enforced, is covered by a managed one, as it is enforced. -/
def Covered (managed entries : List Str) : Prop :=
  ∀ entry ∈ entries, ∀ pattern ∈ (enforced entry).hostPatterns,
    ∃ managedEntry ∈ managed, ∃ managedPattern ∈ (enforced managedEntry).hostPatterns, managedPattern.Covers pattern

/-- Every host of the one set is a host of the other. -/
def Contained (env : Externals) (set managedSet : GlobSet) : Prop :=
  ∀ input host, Host.parse input = some host → set.isMatch env host.text = true → managedSet.isMatch env host.text = true

/-! ## Two readings of an entry -/

/-- The domain as the constraint check compares it. -/
def DomainPattern.normalized : DomainPattern → DomainPattern
  | apexAndSubdomains domain => .apexAndSubdomains (normalizeDomain domain)
  | subdomainsOnly domain => .subdomainsOnly (normalizeDomain domain)
  | exact domain => .exact (normalizeDomain domain)

/-- The check reads the entry as it is enforced. -/
def ReadAlike (env : Externals) (entry : Str) : Prop := (DomainPattern.parseForConstraints env entry).normalized = enforced entry

/-- The first label of the domain is not empty and not only stars. -/
def HasFirstLabel (entry : Str) : Prop :=
  ∀ label rest, (enforced entry).domain = label ++ '.' :: rest → ∃ c ∈ label, c ≠ '*'

/-! ## Domains without wildcards -/

/-- ASCII characters that stand for themselves in a glob. -/
def IsLiteral (domain : Str) : Prop := ∀ c ∈ domain, c.toNat < 128 ∧ c ∉ "*?[]\x7b\x7d\\/".toList

/-- A domain that can be a host. -/
structure IsDomain (entry : Str) : Prop where
  literal : IsLiteral (enforced entry).domain
  ne_nil : (enforced entry).domain ≠ []
  last : (enforced entry).domain.getLast? ≠ some '.'

/-! ## Blocked requests -/

/-- Every recorded request is in the buffer or was drained, or enough newer ones came. None is handed out twice. -/
structure Accounted (world : World) : Prop where
  total : world.state.blockedTotal = world.recorded.length
  kept : ∀ entry number, world.recorded[number]? = some entry →
    (entry, number) ∈ world.state.blocked ∨ (entry, number) ∈ world.drained.flatten ∨
      number + 1 + maxBlockedEvents ≤ world.recorded.length
  genuine : ∀ entry number, (entry, number) ∈ world.drained.flatten ++ world.state.blocked →
    world.recorded[number]? = some entry
  once : (world.drained.flatten ++ world.state.blocked).Nodup

/-- The requests are those of the state that is overwritten. -/
def SameBlocked (newState state : ConfigState) : Prop :=
  newState.blocked = state.blocked ∧ newState.blockedTotal = state.blockedTotal

/-- The state is only overwritten by one that has its requests and its total, and the total can still grow. -/
def World.KeepsBlocked (world : World) : Action → Prop
  | .call _ => True
  | .advance index _ =>
      match world.tasks[index]? with
      | some (.reloadWrite _ newState) => SameBlocked newState world.state
      | some (.updateWrite _ _ previousCfg constraints newState) =>
          world.state.constraints = constraints → world.state.config = previousCfg → SameBlocked newState world.state
      | some (.forceReloadWrite newState) => newState.blockedTotal = world.state.blockedTotal
      | some (.ready (.recordBlocked _)) => world.state.blockedTotal < 2 ^ 64 - 1
      | _ => True

/-! ## Updates of the policy -/

def DomainListKind.opposite : DomainListKind → DomainListKind
  | allow => deny
  | deny => allow

/-- The host is in the entries of this kind and not in the opposite ones, as the update compares them. -/
def SetTo (target : DomainListKind) (host : Host) (network : NetworkProxySettings) : Prop :=
  (∃ entry ∈ target.entries network, normalizeHost entry = host.text) ∧
    ∀ entry ∈ target.opposite.entries network, normalizeHost entry ≠ host.text

instance (target : DomainListKind) (host : Host) (network : NetworkProxySettings) :
    Decidable (SetTo target host network) :=
  inferInstanceAs (Decidable (_ ∧ _))

/-- What a call does to the config if it succeeds and no other call runs. -/
def Call.apply (config : NetworkProxyConfig) : Call → NetworkProxyConfig
  | updateDomainList host target =>
      if SetTo target host config.network then config
      else ⟨config.network.upsertDomainPermission host.text target.permission normalizeHost⟩
  | setNetworkMode mode => ⟨{ config.network with mode := mode }⟩
  | _ => config

/-- The calls that returned `Ok`. -/
def succeeded (returned : List (Call × Bool)) : List Call := (returned.filter (·.2)).map (·.1)

/-- What the last of the calls on the host set it to. -/
def lastSet (host : Host) (calls : List Call) : Option DomainListKind :=
  calls.reverse.findSome? fun
    | .updateDomainList other target => if other = host then some target else none
    | _ => none

def lastMode (calls : List Call) : Option NetworkMode :=
  calls.reverse.findSome? fun
    | .setNetworkMode mode => some mode
    | _ => none

/-- No call replaces the state and the reloader loads nothing. The hosts are parsed. -/
def Updating : Action → Prop
  | .call (.updateDomainList host target) => ∃ input, Call.addDomain input target = some (.updateDomainList host target)
  | .call (.replaceConfigState _) => False
  | .call .forceReload => False
  | .call _ => True
  | .advance _ (.loaded _) => False
  | .advance _ _ => True

/-- The host of the call is normalised: to normalise it once more changes nothing. -/
def Call.OnNormalizedHost : Call → Prop
  | updateDomainList host _ => normalizeHost host.text = host.text
  | _ => True

def OnNormalizedHosts : Action → Prop
  | .call call => call.OnNormalizedHost
  | .advance _ _ => True

/-- A world that was reached from the state, and the calls that returned `Ok` on the way: the constraints hold, no section
changes the config but the one in which its call returns `Ok`, and the config has what the calls set last. -/
structure UpdatesApplied (env : Externals) (state : ConfigState) (reached : World) (calls : List Call) : Prop where
  accepted : validatePolicyAgainstConstraints env reached.state.config state.constraints = .ok ()
  unchanged : ∀ action, succeeded (reached.returned env action) = [] →
    (reached.step env action).state.config = reached.state.config
  sequential : reached.state.config = calls.foldl Call.apply state.config
  hosts : ∀ host target, lastSet host calls = some target → SetTo target host reached.state.config.network
  mode : ∀ mode, lastMode calls = some mode → reached.state.config.network.mode = mode

end Codrex.NetworkProxy
