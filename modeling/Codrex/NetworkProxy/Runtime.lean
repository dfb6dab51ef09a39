import Codrex.Lib.Transition
import Codrex.NetworkProxy.Policy

/-!
# Managed constraints (`network-proxy/src/state.rs`)
-/

namespace Codrex.NetworkProxy

open Text

structure NetworkProxyConstraints where
  enabled : Option Bool
  mode : Option NetworkMode
  allowUpstreamProxy : Option Bool
  dangerouslyAllowNonLoopbackProxy : Option Bool
  dangerouslyAllowAllUnixSockets : Option Bool
  allowedDomains : Option (List Str)
  allowlistExpansionEnabled : Option Bool
  deniedDomains : Option (List Str)
  denylistExpansionEnabled : Option Bool
  allowUnixSockets : Option (List Str)
  allowLocalBinding : Option Bool
  deriving DecidableEq

def NetworkProxyConstraints.default : NetworkProxyConstraints :=
  ⟨none, none, none, none, none, none, none, none, none, none, none⟩

/-- A value in an error: a text, or the list whose debug text is shown. -/
inductive Shown
  | text (text : Str)
  | list (entries : List Str)
  deriving DecidableEq

inductive NetworkProxyConstraintError
  | invalidValue (fieldName : Str) (candidate allowed : Shown)
  deriving DecidableEq

def networkModeRank : NetworkMode → Nat
  | .limited => 0
  | .full => 1

def networkModeName : NetworkMode → Str
  | .limited => "Limited"
  | .full => "Full"

def validateNonGlobalWildcardDomainPatterns (fieldName : Str) (patterns : List Str) :
    Except NetworkProxyConstraintError Unit :=
  match patterns.find? isGlobalWildcardDomainPattern with
  | some pattern =>
      .error (.invalidValue fieldName (.text (trim pattern))
        (.text "exact hosts or scoped wildcards like *.example.com or **.example.com"))
  | none => .ok ()

/-! ## The checks -/

/-- A flag that may be set only where the managed config lets it. -/
def validateFlag (fieldName : Str) (candidate allowed : Bool) : Except NetworkProxyConstraintError Unit :=
  if candidate && !allowed then
    .error (.invalidValue fieldName (.text "true") (.text "false (disabled by managed config)"))
  else .ok ()

def validateMode (candidate : NetworkMode) (maxMode : Option NetworkMode) : Except NetworkProxyConstraintError Unit :=
  match maxMode with
  | some maxMode =>
      if networkModeRank candidate > networkModeRank maxMode then
        .error (.invalidValue "network.mode" (.text (networkModeName candidate))
          (.text (networkModeName maxMode ++ " or more restrictive".toList)))
      else .ok ()
  | none => .ok ()

/-- The entries of `required` that are not in `candidate`, whatever the case of their letters. -/
def missingEntries (required candidate : List Str) : List Str :=
  ((required.map toAsciiLowercase).filter fun entry => entry ∉ candidate.map toAsciiLowercase).dedup

section

variable (env : Externals)

def isAllowedByManaged (managedPatterns : List DomainPattern) (entry : Str) : Bool :=
  managedPatterns.any fun managed => managed.allows (DomainPattern.parseForConstraints env entry)

def validateAllowedDomains (allowedDomains : List Str) (expansionEnabled : Option Bool) (candidate denied : List Str) :
    Except NetworkProxyConstraintError Unit :=
  match expansionEnabled with
  | some true =>
      let missing := (missingEntries allowedDomains candidate).filter fun entry => entry ∉ denied.map toAsciiLowercase
      if missing = [] then .ok ()
      else .error (.invalidValue "network.allowed_domains" (.text "missing managed allowed_domains entries") (.list missing))
  | some false =>
      let expected := (allowedDomains.map toAsciiLowercase).filter fun entry => entry ∉ denied.map toAsciiLowercase
      if missingEntries candidate expected = [] && missingEntries expected candidate = [] then .ok ()
      else
        .error (.invalidValue "network.allowed_domains" (.list candidate) (.text "must match managed allowed_domains"))
  | none =>
      let managedPatterns := allowedDomains.map (DomainPattern.parseForConstraints env)
      let invalid := candidate.filter fun entry => !isAllowedByManaged env managedPatterns entry
      if invalid = [] then .ok ()
      else .error (.invalidValue "network.allowed_domains" (.list invalid) (.text "subset of managed allowed_domains"))

def validateDeniedDomains (deniedDomains : List Str) (expansionEnabled : Option Bool) (candidate : List Str) :
    Except NetworkProxyConstraintError Unit :=
  match expansionEnabled with
  | some false =>
      if missingEntries candidate deniedDomains = [] && missingEntries deniedDomains candidate = [] then .ok ()
      else .error (.invalidValue "network.denied_domains" (.list candidate) (.text "must match managed denied_domains"))
  | _ =>
      let missing := missingEntries deniedDomains candidate
      if missing = [] then .ok ()
      else .error (.invalidValue "network.denied_domains" (.text "missing managed denied_domains entries") (.list missing))

def validateUnixSockets (allowUnixSockets candidate : List Str) : Except NetworkProxyConstraintError Unit :=
  let invalid := candidate.filter fun entry => toAsciiLowercase entry ∉ allowUnixSockets.map toAsciiLowercase
  if invalid = [] then .ok ()
  else
    .error (.invalidValue "network.allow_unix_sockets" (.list invalid) (.text "subset of managed allow_unix_sockets"))

/-- `if let Some(value) = …`, then a check. -/
def whenSome {α : Type} (value : Option α) (check : α → Except NetworkProxyConstraintError Unit) :
    Except NetworkProxyConstraintError Unit :=
  match value with
  | some value => check value
  | none => .ok ()

def validatePolicyAgainstConstraints (config : NetworkProxyConfig) (constraints : NetworkProxyConstraints) :
    Except NetworkProxyConstraintError Unit := do
  let network := config.network
  let allowed := network.allowedDomains.getD []
  let denied := network.deniedDomains.getD []
  validateNonGlobalWildcardDomainPatterns "network.denied_domains" denied
  whenSome constraints.enabled (validateFlag "network.enabled" network.enabled)
  validateMode network.mode constraints.mode
  validateFlag "network.allow_upstream_proxy" network.allowUpstreamProxy (constraints.allowUpstreamProxy.getD true)
  validateFlag "network.dangerously_allow_non_loopback_proxy" network.dangerouslyAllowNonLoopbackProxy
    (constraints.dangerouslyAllowNonLoopbackProxy.getD true)
  validateFlag "network.dangerously_allow_all_unix_sockets" network.dangerouslyAllowAllUnixSockets
    (constraints.dangerouslyAllowAllUnixSockets.getD constraints.allowUnixSockets.isNone)
  whenSome constraints.allowLocalBinding (validateFlag "network.allow_local_binding" network.allowLocalBinding)
  whenSome constraints.allowedDomains fun allowedDomains => do
    validateNonGlobalWildcardDomainPatterns "network.allowed_domains" allowedDomains
    validateAllowedDomains env allowedDomains constraints.allowlistExpansionEnabled allowed denied
  whenSome constraints.deniedDomains fun deniedDomains => do
    validateNonGlobalWildcardDomainPatterns "network.denied_domains" deniedDomains
    validateDeniedDomains deniedDomains constraints.denylistExpansionEnabled denied
  whenSome constraints.allowUnixSockets fun allowUnixSockets =>
    validateUnixSockets allowUnixSockets network.allowUnixSockets

end

/-! ## The state of the proxy -/

structure BlockedRequest where
  host : Str
  reason : Str
  client : Option Str
  method : Option Str
  mode : Option NetworkMode
  protocol : Str
  decision : Option Str
  source : Option Str
  port : Option UInt16
  timestamp : Int
  deriving DecidableEq

/-- A blocked request and the number of the write that recorded it. The number is not in the code; it tells requests
apart that are alike. -/
abbrev NumberedRequest := BlockedRequest × Nat

/-- What is kept of the state for intercepted connections. -/
structure MitmState where
  allowUpstreamProxy : Bool
  deriving DecidableEq

structure ConfigState where
  config : NetworkProxyConfig
  allowSet : GlobSet
  denySet : GlobSet
  mitm : Option MitmState
  constraints : NetworkProxyConstraints
  blocked : List NumberedRequest
  blockedTotal : Nat
  deriving DecidableEq

inductive BuildError
  | invalidUnixSocketPath (index : Nat)
  | constraint (error : NetworkProxyConstraintError)
  | globSet (error : GlobSetError)
  | mitm
  deriving DecidableEq

def newMitmState (env : Externals) (network : NetworkProxySettings) : Except BuildError (Option MitmState) :=
  if network.mitm then
    if env.canIntercept network.allowUpstreamProxy then .ok (some ⟨network.allowUpstreamProxy⟩) else .error .mitm
  else .ok none

def buildConfigState (env : Externals) (config : NetworkProxyConfig) (constraints : NetworkProxyConstraints) :
    Except BuildError ConfigState := do
  (validateUnixSocketAllowlistPaths config).mapError .invalidUnixSocketPath
  let allowedDomains := config.network.allowedDomains.getD []
  let deniedDomains := config.network.deniedDomains.getD []
  (validateNonGlobalWildcardDomainPatterns "network.denied_domains" deniedDomains).mapError .constraint
  let denySet ← (compileDenylistGlobset env deniedDomains).mapError .globSet
  let allowSet ← (compileAllowlistGlobset env allowedDomains).mapError .globSet
  let mitm ← newMitmState env config.network
  return ⟨config, allowSet, denySet, mitm, constraints, [], 0⟩

end Codrex.NetworkProxy

/-!
## The shared state of the proxy (`network-proxy/src/runtime.rs`)

Calls run side by side. Each holds the lock for one section at a time, and other calls may run between two sections.
-/

namespace Codrex.NetworkProxy

open Text Fallible

def maxBlockedEvents : Nat := 200

inductive DomainListKind
  | allow
  | deny
  deriving DecidableEq

namespace DomainListKind

def permission : DomainListKind → NetworkDomainPermission
  | allow => .allow
  | deny => .deny

def entries (target : DomainListKind) (network : NetworkProxySettings) : List Str :=
  match target with
  | allow => network.allowedDomains.getD []
  | deny => network.deniedDomains.getD []

def oppositeEntries (target : DomainListKind) (network : NetworkProxySettings) : List Str :=
  match target with
  | allow => network.deniedDomains.getD []
  | deny => network.allowedDomains.getD []

end DomainListKind

/-! ## Sections under the lock -/

namespace ConfigState

/-- The section of `record_blocked`. -/
def pushBlocked (state : ConfigState) (entry : NumberedRequest) : ConfigState :=
  let blocked := state.blocked ++ [entry]
  { state with
    blocked := blocked.drop (blocked.length - maxBlockedEvents)
    blockedTotal := saturatingAdd state.blockedTotal 1 }

/-- A new state with the requests of another one. -/
def withBlocked (newState state : ConfigState) : ConfigState :=
  { newState with blocked := state.blocked, blockedTotal := state.blockedTotal }

def setMode (state : ConfigState) (mode : NetworkMode) : ConfigState :=
  { state with config := ⟨{ state.config.network with mode := mode }⟩ }

end ConfigState

inductive DomainUpdate
  | unchanged
  | failed
  | replace (newState : ConfigState)
  deriving DecidableEq

/-- What `update_domain_list` makes of the state it read. -/
def updatedDomains (env : Externals) (host : Host) (target : DomainListKind) (state : ConfigState) : DomainUpdate :=
  let targetContains := (target.entries state.config.network).any fun entry => normalizeHost entry = host.text
  let oppositeContains := (target.oppositeEntries state.config.network).any fun entry => normalizeHost entry = host.text
  if targetContains && !oppositeContains then .unchanged
  else
    let candidate : NetworkProxyConfig :=
      ⟨state.config.network.upsertDomainPermission host.text target.permission normalizeHost⟩
    match validatePolicyAgainstConstraints env candidate state.constraints with
    | .error _ => .failed
    | .ok () =>
        match buildConfigState env candidate state.constraints with
        | .error _ => .failed
        | .ok newState => .replace (newState.withBlocked state)

/-! ## Calls -/

/-- `observe` stands for the calls that only read the state. -/
inductive Call
  | recordBlocked (entry : BlockedRequest)
  | drainBlocked
  | updateDomainList (host : Host) (target : DomainListKind)
  | setNetworkMode (mode : NetworkMode)
  | replaceConfigState (newState : ConfigState)
  | forceReload
  | observe
  deriving DecidableEq

/-- `add_allowed_domain` and `add_denied_domain`. A host that cannot be parsed is an error, and nothing else is done. -/
def Call.addDomain (host : Str) (target : DomainListKind) : Option Call :=
  (Host.parse host).map fun host => .updateDomainList host target

/-- Where a call is: before `reload_if_needed`, in it with a new state, behind it, or before its last section with what
it read or made. -/
inductive Task
  | reloading (call : Call)
  | reloadRead (call : Call) (newState : ConfigState)
  | reloadWrite (call : Call) (newState : ConfigState)
  | ready (call : Call)
  | updateWrite (host : Host) (target : DomainListKind) (previousCfg : NetworkProxyConfig)
      (constraints : NetworkProxyConstraints) (newState : ConfigState)
  | setModeWrite (mode : NetworkMode) (constraints : NetworkProxyConstraints)
  | forceReloadWrite (newState : ConfigState)
  deriving DecidableEq

def Task.call : Task → Call
  | reloading call => call
  | reloadRead call _ => call
  | reloadWrite call _ => call
  | ready call => call
  | updateWrite host target _ _ _ => .updateDomainList host target
  | setModeWrite mode _ => .setNetworkMode mode
  | forceReloadWrite _ => .forceReload

/-- The answer of the reloader: an error, no change, or a new state. -/
inductive Reply
  | failed
  | unchanged
  | loaded (newState : ConfigState)
  deriving DecidableEq

def Call.start : Call → Task
  | forceReload => .ready .forceReload
  | call => .reloading call

/-- The shared state and the calls that run. What was recorded and what the drains returned is kept as well. -/
structure World where
  state : ConfigState
  tasks : List Task
  recorded : List BlockedRequest
  drained : List (List NumberedRequest)
  deriving DecidableEq

namespace World

def new (state : ConfigState) : World := ⟨state, [], [], []⟩

/-- The section that a task is about to run, and where the call is behind it. A call that has returned is gone. -/
def runTask (env : Externals) (world : World) (reply : Reply) : Task → World × Option Task
  | .reloading call =>
      match reply with
      | .failed => (world, none)
      | .unchanged => (world, some (.ready call))
      | .loaded newState => (world, some (.reloadRead call newState))
  | .reloadRead call newState => (world, some (.reloadWrite call (newState.withBlocked world.state)))
  | .reloadWrite call newState => ({ world with state := newState }, some (.ready call))
  | .ready (.recordBlocked entry) =>
      ({ world with
          state := world.state.pushBlocked (entry, world.recorded.length)
          recorded := world.recorded ++ [entry] }, none)
  | .ready .drainBlocked =>
      ({ world with
          state := { world.state with blocked := [] }
          drained := world.drained ++ [world.state.blocked] }, none)
  | .ready (.updateDomainList host target) =>
      match updatedDomains env host target world.state with
      | .unchanged => (world, none)
      | .failed => (world, none)
      | .replace newState =>
          (world, some (.updateWrite host target world.state.config world.state.constraints newState))
  | .ready (.setNetworkMode mode) =>
      match validatePolicyAgainstConstraints env (world.state.setMode mode).config world.state.constraints with
      | .error _ => (world, none)
      | .ok () => (world, some (.setModeWrite mode world.state.constraints))
  | .ready (.replaceConfigState newState) => ({ world with state := newState.withBlocked world.state }, none)
  | .ready .forceReload =>
      match reply with
      | .failed => (world, none)
      | .unchanged => (world, some (.ready .forceReload))
      | .loaded newState => (world, some (.forceReloadWrite newState))
  | .ready .observe => (world, none)
  | .updateWrite host target previousCfg constraints newState =>
      if world.state.constraints ≠ constraints || world.state.config ≠ previousCfg then
        (world, some (.reloading (.updateDomainList host target)))
      else ({ world with state := newState }, none)
  | .setModeWrite mode constraints =>
      if world.state.constraints ≠ constraints then (world, some (.reloading (.setNetworkMode mode)))
      else ({ world with state := world.state.setMode mode }, none)
  | .forceReloadWrite newState =>
      ({ world with state := { newState with blocked := world.state.blocked } }, none)

/-- Whether a call that returns behind this section returns `Ok`. The sections before the last one only return errors,
but for an update that has nothing to change. -/
def returnsOk (env : Externals) (world : World) : Task → Bool
  | .reloading _ => false
  | .ready (.updateDomainList host target) => updatedDomains env host target world.state = .unchanged
  | .ready (.setNetworkMode _) => false
  | .ready .forceReload => false
  | _ => true

end World

/-- A call comes in, or one that runs gets the lock. -/
inductive Action
  | call (call : Call)
  | advance (index : Nat) (reply : Reply)
  deriving DecidableEq

def World.step (env : Externals) (world : World) : Action → World
  | .call call => { world with tasks := world.tasks ++ [call.start] }
  | .advance index reply =>
      match world.tasks[index]? with
      | none => world
      | some task =>
          let (next, task) := world.runTask env reply task
          { next with tasks := world.tasks.take index ++ task.toList ++ world.tasks.drop (index + 1) }

/-- The call that returns in a step, and whether it returns `Ok`. -/
def World.returned (env : Externals) (world : World) : Action → List (Call × Bool)
  | .call _ => []
  | .advance index reply =>
      match world.tasks[index]? with
      | none => []
      | some task =>
          if (world.runTask env reply task).2 = none then [(task.call, world.returnsOk env task)] else []

end Codrex.NetworkProxy
