import Codrex.AbsolutePath
import Mathlib.Data.List.Sort
import Mathlib.Order.MinMax

/-!
# Exec policies (`execpolicy`)

Prefix rules, policies and the matching of a command against a policy.
-/

namespace Codrex.ExecPolicy
open Text

/-! ## Decisions -/

inductive Decision
  | allow
  | prompt
  | forbidden
  deriving DecidableEq

def Decision.rank : Decision → Nat
  | .allow => 0
  | .prompt => 1
  | .forbidden => 2

theorem Decision.rank_injective : Function.Injective Decision.rank := by
  intro a b h
  cases a <;> cases b <;> simp_all [Decision.rank]

/-- `Allow < Prompt < Forbidden`. -/
instance : LinearOrder Decision := LinearOrder.lift' Decision.rank Decision.rank_injective

/-! ## Rules -/

inductive PatternToken
  | single (expected : Str)
  | alts (alternatives : List Str)
  deriving DecidableEq

def PatternToken.matches (token : Str) : PatternToken → Bool
  | .single expected => expected == token
  | .alts alternatives => alternatives.any (· == token)

structure PrefixPattern where
  first : Str
  rest : List PatternToken
  deriving DecidableEq

def PrefixPattern.matchesPrefix (p : PrefixPattern) (cmd : List Str) : Option (List Str) :=
  let patternLength := p.rest.length + 1
  match cmd with
  | [] => none
  | program :: args =>
      if cmd.length < patternLength || program != p.first then none
      else if (p.rest.zip args).all fun (token, arg) => token.matches arg
      then some (cmd.take patternLength) else none

structure PrefixRule where
  pattern : PrefixPattern
  decision : Decision
  justification : Option Str
  deriving DecidableEq

inductive RuleMatch
  | prefixRuleMatch (matchedPrefix : List Str) (decision : Decision)
      (resolvedProgram : Option AbsolutePathBuf) (justification : Option Str)
  | heuristicsRuleMatch (command : List Str) (decision : Decision)
  deriving DecidableEq

def RuleMatch.decision : RuleMatch → Decision
  | .prefixRuleMatch _ decision _ _ => decision
  | .heuristicsRuleMatch _ decision => decision

def RuleMatch.withResolvedProgram (program : AbsolutePathBuf) : RuleMatch → RuleMatch
  | .prefixRuleMatch matchedPrefix decision _ justification =>
      .prefixRuleMatch matchedPrefix decision (some program) justification
  | other => other

@[simp] theorem RuleMatch.decision_withResolvedProgram (program : AbsolutePathBuf) (m : RuleMatch) :
    (m.withResolvedProgram program).decision = m.decision := by
  cases m <;> rfl

def PrefixRule.matches (rule : PrefixRule) (cmd : List Str) : Option RuleMatch :=
  (rule.pattern.matchesPrefix cmd).map fun matchedPrefix =>
    .prefixRuleMatch matchedPrefix rule.decision none rule.justification

inductive NetworkRuleProtocol
  | http
  | https
  | socks5Tcp
  | socks5Udp
  deriving DecidableEq

structure NetworkRule where
  host : Str
  protocol : NetworkRuleProtocol
  decision : Decision
  justification : Option Str
  deriving DecidableEq

/-! ## Policies -/

structure MatchOptions where
  resolveHostExecutables : Bool

/-- The rules are the entries of a multimap, oldest first; the host executables are the entries of a
map, newest first. -/
structure Policy where
  rulesByProgram : List (Str × PrefixRule)
  networkRules : List NetworkRule
  hostExecutablesByName : List (Str × List AbsolutePathBuf)

namespace Policy

def empty : Policy := ⟨[], [], []⟩

/-- `MultiMap::get_vec`, with the empty list for an absent key. -/
def getVec (p : Policy) (program : Str) : List PrefixRule :=
  (p.rulesByProgram.filter fun entry => entry.1 == program).map Prod.snd

def addPrefixRule (p : Policy) (tokens : List Str) (decision : Decision) : Except Str Policy :=
  match tokens with
  | [] => .error "prefix cannot be empty"
  | first :: rest =>
      .ok { p with rulesByProgram := p.rulesByProgram ++ [(first, ⟨⟨first, rest.map .single⟩, decision, none⟩)] }

/-- `merge_overlay`: the overlay's rules come after, and its host executables replace. -/
def mergeOverlay (p overlay : Policy) : Policy where
  rulesByProgram := p.rulesByProgram ++ overlay.rulesByProgram
  networkRules := p.networkRules ++ overlay.networkRules
  hostExecutablesByName := overlay.hostExecutablesByName ++ p.hostExecutablesByName

def matchExactRules (p : Policy) (cmd : List Str) : List RuleMatch :=
  match cmd with
  | [] => []
  | first :: _ => (p.getVec first).filterMap (·.matches cmd)

def hostExecutableAllowed (p : Policy) (basename : Str) (program : AbsolutePathBuf) : Bool :=
  match p.hostExecutablesByName.lookup basename with
  | some paths => paths.any (· == program)
  | none => true

/-- The program as an absolute path, with the key its rules are looked up by. On Unix
`executable_path_lookup_key` is the file name. -/
def resolveProgram (env : HostEnv) (first : Str) : Option (AbsolutePathBuf × Str) :=
  (AbsolutePathBuf.fromAbsolutePath env first).bind fun program =>
    program.fileName.map fun basename => (program, basename)

def matchHostExecutableRules (env : HostEnv) (p : Policy) (cmd : List Str) : List RuleMatch :=
  match cmd with
  | [] => []
  | first :: args =>
      match resolveProgram env first with
      | none => []
      | some (program, basename) =>
          if p.hostExecutableAllowed basename program then
            ((p.getVec basename).filterMap (·.matches (basename :: args))).map
              (·.withResolvedProgram program)
          else []

def matchesForCommandWithOptions (env : HostEnv) (p : Policy) (cmd : List Str)
    (heuristicsFallback : Option (List Str → Decision)) (options : MatchOptions) : List RuleMatch :=
  let exact := p.matchExactRules cmd
  let matchedRules :=
    if exact ≠ [] then exact
    else if options.resolveHostExecutables then p.matchHostExecutableRules env cmd
    else []
  match matchedRules, heuristicsFallback with
  | [], some fallback => [.heuristicsRuleMatch cmd (fallback cmd)]
  | matched, _ => matched

end Policy

def strictest (matched : List RuleMatch) : Option Decision := (matched.map RuleMatch.decision).max?

structure Evaluation where
  decision : Decision
  matchedRules : List RuleMatch

/-- `Evaluation::from_matches`; the source panics where this is `none`. -/
def Evaluation.fromMatches (matchedRules : List RuleMatch) : Option Evaluation :=
  (strictest matchedRules).map fun decision => ⟨decision, matchedRules⟩

def Policy.checkWithOptions (env : HostEnv) (p : Policy) (cmd : List Str)
    (heuristicsFallback : List Str → Decision) (options : MatchOptions) : Option Evaluation :=
  Evaluation.fromMatches (p.matchesForCommandWithOptions env cmd (some heuristicsFallback) options)

def Policy.checkMultipleWithOptions (env : HostEnv) (p : Policy) (commands : List (List Str))
    (heuristicsFallback : List Str → Decision) (options : MatchOptions) : Option Evaluation :=
  Evaluation.fromMatches
    (commands.flatMap fun command => p.matchesForCommandWithOptions env command (some heuristicsFallback) options)

end Codrex.ExecPolicy

/-!
## Loading the exec policy (`core/src/exec_policy.rs`)

The rules files of the enabled config layers are parsed into one policy, and the policy of the
managed requirements is laid over it. The rules parser is a parameter.
-/

namespace Codrex.ExecPolicy
open Text

/-! ## Config layers -/

inductive ConfigLayerSource
  | mdm (domain key : Str)
  | system (file : AbsolutePathBuf)
  | user (file : AbsolutePathBuf)
  | project (dotCodexFolder : AbsolutePathBuf)
  | sessionFlags
  | legacyManagedConfigTomlFromFile (file : AbsolutePathBuf)
  | legacyManagedConfigTomlFromMdm

structure ConfigLayerEntry where
  name : ConfigLayerSource
  disabledReason : Option Str

def ConfigLayerEntry.configFolder (layer : ConfigLayerEntry) : Option AbsolutePathBuf :=
  match layer.name with
  | .system file => file.parent
  | .user file => file.parent
  | .project dotCodexFolder => some dotCodexFolder
  | .mdm _ _ | .sessionFlags | .legacyManagedConfigTomlFromFile _ | .legacyManagedConfigTomlFromMdm =>
      none

def ConfigLayerEntry.isUserOrProject (layer : ConfigLayerEntry) : Bool :=
  match layer.name with
  | .user _ | .project _ => true
  | _ => false

/-- Layers are listed from the lowest precedence to the highest. Of the requirements only the exec
policy is read here. -/
structure ConfigLayerStack where
  layers : List ConfigLayerEntry
  requirementsExecPolicy : Option Policy
  ignoreUserAndProjectExecPolicyRules : Bool

/-- `get_layers(LowestPrecedenceFirst, include_disabled = false)`. -/
def ConfigLayerStack.getLayers (stack : ConfigLayerStack) : List ConfigLayerEntry :=
  stack.layers.filter (·.disabledReason.isNone)

/-! ## The rules files -/

inductive IoError
  | notFound
  | other (message : Str)

structure DirEntry where
  path : AbsolutePathBuf
  isFile : Bool

structure RulesFs where
  readDir : AbsolutePathBuf → Except IoError (List DirEntry)
  readToString : AbsolutePathBuf → Except IoError Str

structure PolicyBuilder where
  rules : List PrefixRule
  networkRules : List NetworkRule
  hostExecutables : List (Str × List AbsolutePathBuf)

/-- `add_rule` files every rule under the first word of its pattern. -/
def PolicyBuilder.build (b : PolicyBuilder) : Policy where
  rulesByProgram := b.rules.map fun rule => (rule.pattern.first, rule)
  networkRules := b.networkRules
  hostExecutablesByName := b.hostExecutables

/-- `PolicyParser::parse`: the builder, the identifier and the contents give a new builder or an error. -/
abbrev PolicyParser := PolicyBuilder → Str → Str → Except Str PolicyBuilder

inductive ExecPolicyError
  | readDir (dir : AbsolutePathBuf) (source : IoError)
  | readFile (path : AbsolutePathBuf) (source : IoError)
  | parsePolicy (path : Str) (source : Str)

/-- `path.extension()` is `rules`: the file name has a dot that is not its first character, and the
text after the last one is `rules`. -/
def hasRuleExtension (path : AbsolutePathBuf) : Bool :=
  match path.fileName with
  | none => false
  | some name =>
      let extension := (name.splitOn '.').getLast?
      extension == some "rules" && (name.splitOn '.').dropLast != [[]] && name.contains '.'

/-- `collect_policy_files`: the regular `.rules` files of the directory, sorted. -/
def collectPolicyFiles (fs : RulesFs) (dir : AbsolutePathBuf) :
    Except ExecPolicyError (List AbsolutePathBuf) :=
  match fs.readDir dir with
  | .error .notFound => .ok []
  | .error source => .error (.readDir dir source)
  | .ok entries =>
      let policyPaths := (entries.filter fun e => hasRuleExtension e.path && e.isFile).map DirEntry.path
      .ok (policyPaths.insertionSort fun a b => ¬ b.names < a.names)

def collectLayerFiles (fs : RulesFs) (ignoreUserAndProject : Bool) :
    List ConfigLayerEntry → Except ExecPolicyError (List AbsolutePathBuf)
  | [] => .ok []
  | layer :: layers =>
      if ignoreUserAndProject && layer.isUserOrProject then
        collectLayerFiles fs ignoreUserAndProject layers
      else
        match layer.configFolder with
        | none => collectLayerFiles fs ignoreUserAndProject layers
        | some configFolder =>
            match collectPolicyFiles fs (configFolder.push "rules" (by decide)) with
            | .error err => .error err
            | .ok layerPaths =>
                match collectLayerFiles fs ignoreUserAndProject layers with
                | .error err => .error err
                | .ok paths => .ok (layerPaths ++ paths)

def parsePolicyFiles (fs : RulesFs) (parse : PolicyParser) :
    PolicyBuilder → List AbsolutePathBuf → Except ExecPolicyError PolicyBuilder
  | builder, [] => .ok builder
  | builder, path :: paths =>
      match fs.readToString path with
      | .error source => .error (.readFile path source)
      | .ok contents =>
          match parse builder path.toPath contents with
          | .error source => .error (.parsePolicy path.toPath source)
          | .ok builder => parsePolicyFiles fs parse builder paths

def loadRulesFiles (fs : RulesFs) (parse : PolicyParser) (stack : ConfigLayerStack) :
    Except ExecPolicyError Policy :=
  match collectLayerFiles fs stack.ignoreUserAndProjectExecPolicyRules stack.getLayers with
  | .error err => .error err
  | .ok paths =>
      match parsePolicyFiles fs parse ⟨[], [], []⟩ paths with
      | .error err => .error err
      | .ok builder => .ok builder.build

/-! ## The loaded policy -/

def loadExecPolicy (fs : RulesFs) (parse : PolicyParser) (stack : ConfigLayerStack) :
    Except ExecPolicyError Policy :=
  match loadRulesFiles fs parse stack with
  | .error err => .error err
  | .ok policy =>
      match stack.requirementsExecPolicy with
      | none => .ok policy
      | some requirementsPolicy => .ok (policy.mergeOverlay requirementsPolicy)

/-- `load_exec_policy_with_warning`: a parse error gives the empty policy and a warning. -/
def loadExecPolicyWithWarning (fs : RulesFs) (parse : PolicyParser) (stack : ConfigLayerStack) :
    Except ExecPolicyError (Policy × Option ExecPolicyError) :=
  match loadExecPolicy fs parse stack with
  | .ok policy => .ok (policy, none)
  | .error (.parsePolicy path source) => .ok (.empty, some (.parsePolicy path source))
  | .error err => .error err

def ExecPolicyManager.load (fs : RulesFs) (parse : PolicyParser) (stack : ConfigLayerStack) :
    Except ExecPolicyError Policy :=
  match loadExecPolicyWithWarning fs parse stack with
  | .ok (policy, _) => .ok policy
  | .error err => .error err

end Codrex.ExecPolicy
