import Codrex.Lib.Text

/-!
# The settings of the network proxy (`network-proxy/src/config.rs`)
-/

namespace Codrex.NetworkProxy

open Text

inductive NetworkMode
  | limited
  | full
  deriving DecidableEq

/-- In the order of precedence for entries with the same pattern. -/
inductive NetworkDomainPermission
  | none
  | allow
  | deny
  deriving DecidableEq

def NetworkDomainPermission.rank : NetworkDomainPermission → Nat
  | none => 0
  | allow => 1
  | deny => 2

structure NetworkDomainPermissionEntry where
  pattern : Str
  permission : NetworkDomainPermission
  deriving DecidableEq

structure NetworkDomainPermissions where
  entries : List NetworkDomainPermissionEntry
  deriving DecidableEq

namespace NetworkDomainPermissions

/-- One turn of the loop over the entries: a pattern stands where it was first, with its strongest permission. -/
def addEffective (effective : List NetworkDomainPermissionEntry) (entry : NetworkDomainPermissionEntry) :
    List NetworkDomainPermissionEntry :=
  if effective.any fun existing => existing.pattern = entry.pattern then
    effective.map fun existing =>
      if existing.pattern = entry.pattern && existing.permission.rank < entry.permission.rank then entry else existing
  else effective ++ [entry]

def effectiveEntries (domains : NetworkDomainPermissions) : List NetworkDomainPermissionEntry :=
  domains.entries.foldl addEffective []

end NetworkDomainPermissions

inductive NetworkUnixSocketPermission
  | allow
  | none
  deriving DecidableEq

/-- A `BTreeMap`: the paths are in order and each stands once. -/
structure NetworkUnixSocketPermissions where
  entries : List (Str × NetworkUnixSocketPermission)
  deriving DecidableEq

structure NetworkProxySettings where
  enabled : Bool
  proxyUrl : Str
  enableSocks5 : Bool
  socksUrl : Str
  enableSocks5Udp : Bool
  allowUpstreamProxy : Bool
  dangerouslyAllowNonLoopbackProxy : Bool
  dangerouslyAllowAllUnixSockets : Bool
  mode : NetworkMode
  domains : Option NetworkDomainPermissions
  unixSockets : Option NetworkUnixSocketPermissions
  allowLocalBinding : Bool
  mitm : Bool
  deriving DecidableEq

structure NetworkProxyConfig where
  network : NetworkProxySettings
  deriving DecidableEq

namespace NetworkProxySettings

def default : NetworkProxySettings :=
  { enabled := false
    proxyUrl := "http://127.0.0.1:3128"
    enableSocks5 := true
    socksUrl := "http://127.0.0.1:8081"
    enableSocks5Udp := true
    allowUpstreamProxy := true
    dangerouslyAllowNonLoopbackProxy := false
    dangerouslyAllowAllUnixSockets := false
    mode := .full
    domains := none
    unixSockets := none
    allowLocalBinding := false
    mitm := false }

def domainEntries (network : NetworkProxySettings) (permission : NetworkDomainPermission) : Option (List Str) :=
  (network.domains.map fun domains =>
    (domains.effectiveEntries.filter fun entry => entry.permission = permission).map (·.pattern)).filter
    fun entries => !entries.isEmpty

def allowedDomains (network : NetworkProxySettings) : Option (List Str) := network.domainEntries .allow

def deniedDomains (network : NetworkProxySettings) : Option (List Str) := network.domainEntries .deny

def allowUnixSockets (network : NetworkProxySettings) : List Str :=
  match network.unixSockets with
  | some unixSockets => (unixSockets.entries.filter fun entry => entry.2 = .allow).map (·.1)
  | none => []

def upsertDomainPermission (network : NetworkProxySettings) (host : Str) (permission : NetworkDomainPermission)
    (normalize : Str → Str) : NetworkProxySettings :=
  let entries := (network.domains.map (·.entries)).getD []
  let entries := entries.filter fun entry => normalize entry.pattern ≠ normalize host
  { network with domains := some ⟨entries ++ [⟨host, permission⟩]⟩ }

end NetworkProxySettings

/-- The index of the first path of a unix socket that is not absolute. -/
def validateUnixSocketAllowlistPaths (config : NetworkProxyConfig) : Except Nat Unit :=
  match config.network.allowUnixSockets.findIdx? fun path => path.head? ≠ some '/' with
  | some index => .error index
  | none => .ok ()

end Codrex.NetworkProxy

/-!
## Hosts and domain patterns (`network-proxy/src/policy.rs`)
-/

namespace Codrex.NetworkProxy

open Text

/-- What other crates decide: `url::Host::parse` with the text of the host it gives, which patterns `globset` can build,
alone and as a set, which texts a glob matches whatever their case, and whether the state of the interception can be
made. -/
structure Externals where
  parseUrlHost : Str → Option Str
  isGlob : Str → Bool
  isGlobSet : List Str → Bool
  globMatches : Str → Str → Bool
  canIntercept : Bool → Bool

/-! ## Hosts -/

def trimEndDots (s : Str) : Str := s.rdropWhile (· = '.')

def normalizeDnsHost (host : Str) : Str := trimEndDots (toAsciiLowercase host)

/-- Without space around it, brackets or a port, and in lower case. -/
def normalizeHost (host : Str) : Str :=
  let host := trim host
  if host.head? = some '[' && ']' ∈ host then normalizeDnsHost ((host.drop 1).takeWhile (· ≠ ']'))
  else if host.count ':' = 1 then normalizeDnsHost (host.takeWhile (· ≠ ':'))
  else normalizeDnsHost host

/-- A normalised host that is not empty. -/
structure Host where
  text : Str
  ne_nil : text ≠ []
  deriving DecidableEq

def Host.parse (input : Str) : Option Host :=
  if h : normalizeHost input ≠ [] then some ⟨normalizeHost input, h⟩ else none

/-! ## Patterns -/

inductive DomainPattern
  | apexAndSubdomains (domain : Str)
  | subdomainsOnly (domain : Str)
  | exact (domain : Str)
  deriving DecidableEq

def normalizePattern (pattern : Str) : Str :=
  let pattern := trim pattern
  if pattern = ['*'] then ['*']
  else
    match stripPrefix "**." pattern with
    | some domain => "**.".toList ++ normalizeHost domain
    | none =>
        match stripPrefix "*." pattern with
        | some domain => "*.".toList ++ normalizeHost domain
        | none => normalizeHost pattern

def normalizeDomain (domain : Str) : Str := toAsciiLowercase (trimEndDots domain)

def domainEq (left right : Str) : Bool := normalizeDomain left = normalizeDomain right

def isSubdomainOrEqual (child parent : Str) : Bool :=
  normalizeDomain child = normalizeDomain parent || ('.' :: normalizeDomain parent).isSuffixOf (normalizeDomain child)

def isStrictSubdomain (child parent : Str) : Bool :=
  normalizeDomain child ≠ normalizeDomain parent && ('.' :: normalizeDomain parent).isSuffixOf (normalizeDomain child)

namespace DomainPattern

def parseDomain (domain : Str) (build : Str → DomainPattern) : DomainPattern :=
  if trim domain = [] then .exact [] else build (trim domain)

def parse (input : Str) : DomainPattern :=
  let input := trim input
  if input = [] then .exact []
  else
    match stripPrefix "**." input with
    | some domain => parseDomain domain .apexAndSubdomains
    | none =>
        match stripPrefix "*." input with
        | some domain => parseDomain domain .subdomainsOnly
        | none => .exact input

def allows (managed candidate : DomainPattern) : Bool :=
  match managed, candidate with
  | exact domain, exact candidate => domainEq candidate domain
  | exact _, _ => false
  | subdomainsOnly domain, exact candidate => isStrictSubdomain candidate domain
  | subdomainsOnly domain, subdomainsOnly candidate => isSubdomainOrEqual candidate domain
  | subdomainsOnly domain, apexAndSubdomains candidate => isStrictSubdomain candidate domain
  | apexAndSubdomains domain, exact candidate => isSubdomainOrEqual candidate domain
  | apexAndSubdomains domain, subdomainsOnly candidate => isSubdomainOrEqual candidate domain
  | apexAndSubdomains domain, apexAndSubdomains candidate => isSubdomainOrEqual candidate domain

end DomainPattern

def expandDomainPattern (pattern : Str) : List Str :=
  match DomainPattern.parse pattern with
  | .exact domain => [domain]
  | .subdomainsOnly domain => ["?*.".toList ++ domain]
  | .apexAndSubdomains domain => [domain, "?*.".toList ++ domain]

def isGlobalWildcardDomainPattern (pattern : Str) : Bool := (expandDomainPattern (normalizePattern pattern)).any (· = ['*'])

section

variable (env : Externals)

/-- A text with wildcards or a zone is taken as it stands, and a text that is no host as the empty one. -/
def parseDomainForConstraints (domain : Str) : Str :=
  let domain := trimEndDots (trim domain)
  if domain = [] then []
  else
    let host :=
      if domain.head? = some '[' && domain.getLast? = some ']' then (domain.drop 1).dropLast else domain
    if '*' ∈ host || '?' ∈ host || '%' ∈ host then domain else (env.parseUrlHost host).getD []

def DomainPattern.parseForConstraints (input : Str) : DomainPattern :=
  let input := trim input
  if input = [] then .exact []
  else
    match stripPrefix "**." input with
    | some domain => .apexAndSubdomains (parseDomainForConstraints env domain)
    | none =>
        match stripPrefix "*." input with
        | some domain => .subdomainsOnly (parseDomainForConstraints env domain)
        | none => .exact (parseDomainForConstraints env input)

/-! ## Sets of globs -/

/-- A `GlobSet`, as the patterns it was built from. -/
structure GlobSet where
  patterns : List Str
  deriving DecidableEq

def GlobSet.isMatch (set : GlobSet) (text : Str) : Bool := set.patterns.any fun pattern => env.globMatches pattern text

inductive GlobalWildcard
  | allow
  | reject
  deriving DecidableEq

inductive GlobSetError
  | unsupportedGlobalWildcard
  | invalidGlob (candidate : Str)
  | notBuilt
  deriving DecidableEq

/-- A candidate that was seen is in the builder. -/
def addCandidate (builder : List Str) (candidate : Str) : Except GlobSetError (List Str) :=
  if candidate ∈ builder then .ok builder
  else if env.isGlob candidate then .ok (builder ++ [candidate])
  else .error (.invalidGlob candidate)

def addPattern (globalWildcard : GlobalWildcard) (builder : List Str) (pattern : Str) :
    Except GlobSetError (List Str) :=
  if globalWildcard = .reject && isGlobalWildcardDomainPattern pattern then .error .unsupportedGlobalWildcard
  else (expandDomainPattern (normalizePattern pattern)).foldlM (addCandidate env) builder

def compileGlobsetWithPolicy (patterns : List Str) (globalWildcard : GlobalWildcard) : Except GlobSetError GlobSet := do
  let builder ← patterns.foldlM (addPattern env globalWildcard) []
  if env.isGlobSet builder then .ok ⟨builder⟩ else .error .notBuilt

def compileAllowlistGlobset (patterns : List Str) : Except GlobSetError GlobSet :=
  compileGlobsetWithPolicy env patterns .allow

def compileDenylistGlobset (patterns : List Str) : Except GlobSetError GlobSet :=
  compileGlobsetWithPolicy env patterns .reject

end

end Codrex.NetworkProxy
