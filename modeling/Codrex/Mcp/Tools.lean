import Mathlib.Data.Char
import Mathlib.Data.Finset.Card
import Mathlib.Data.List.Lex
import Mathlib.Data.List.Sort
import Codrex.Lib.Entries
import Codrex.Lib.Text

/-!
# Names of MCP tools (`codex-mcp/src/tools.rs`)

What `qualify_tools` lists under which name. The hash sets and maps are asked for members only, so they are finite sets
and lists; the retry loop runs on fuel.
-/

namespace Codrex.Mcp

open Text

/-- The raw definition of a tool: its name goes back to the server, the rest is only carried along. -/
structure Tool (ρ : Type) where
  name : Str
  rest : ρ
  deriving DecidableEq

structure ToolInfo (ρ : Type) where
  serverName : Str
  callableName : Str
  callableNamespace : Str
  serverInstructions : Option Str
  tool : Tool ρ
  connectorId : Option Str
  connectorName : Option Str
  pluginDisplayNames : List Str
  connectorDescription : Option Str
  deriving DecidableEq

def hexDigits : List Char := "0123456789abcdef".toList

/-- `sha1_hex`: the digest that the `sha1` crate gives for a text, in 40 hex digits. -/
structure Sha1 where
  hex : Str → Str
  length : ∀ s, (hex s).length = 40
  digits : ∀ s, ∀ c ∈ hex s, c ∈ hexDigits

variable {ρ : Type}

/-! ## Names and their hash suffixes -/

def mcpToolNameDelimiter : Str := "__".toList

def maxToolNameLength : Nat := 64

def callableNameHashLen : Nat := 12

def sanitizeResponsesApiToolName (name : Str) : Str :=
  let sanitized := name.map fun c => if c.isAlphanum || c = '_' then c else '_'
  if sanitized = [] then "_".toList else sanitized

def callableNameHashSuffix (sha1 : Sha1) (rawIdentity : Str) : Str :=
  '_' :: (sha1.hex rawIdentity).take callableNameHashLen

def appendHashSuffix (sha1 : Sha1) (value rawIdentity : Str) : Str := value ++ callableNameHashSuffix sha1 rawIdentity

def appendNamespaceHashSuffix (sha1 : Sha1) (callableNamespace rawIdentity : Str) : Str :=
  match stripSuffix mcpToolNameDelimiter callableNamespace with
  | some stripped => stripped ++ callableNameHashSuffix sha1 rawIdentity ++ mcpToolNameDelimiter
  | none => appendHashSuffix sha1 callableNamespace rawIdentity

def truncateName (value : Str) (maxLen : Nat) : Str := value.take maxLen

def fitCallablePartsWithHash (sha1 : Sha1) (callableNamespace toolName rawIdentity : Str) : Str × Str :=
  let suffix := callableNameHashSuffix sha1 rawIdentity
  let maxToolLen := maxToolNameLength - byteLen callableNamespace
  if byteLen suffix ≤ maxToolLen then
    (callableNamespace, truncateName toolName (maxToolLen - byteLen suffix) ++ suffix)
  else (truncateName callableNamespace (maxToolNameLength - byteLen suffix), suffix)

/-! ## Unique names -/

def hashInput (rawIdentity : Str) (attempt : Nat) : Str :=
  if attempt = 0 then rawIdentity else rawIdentity ++ '\x00' :: (Nat.repr attempt).toList

/-- The loop of `unique_callable_parts`; `attempt` is a `u32`. -/
def retryCallableParts (sha1 : Sha1) (callableNamespace toolName rawIdentity : Str) (usedNames : List Str) :
    (fuel attempt : Nat) → Option (Str × Str)
  | 0, _ => none
  | fuel + 1, attempt =>
      let parts := fitCallablePartsWithHash sha1 callableNamespace toolName (hashInput rawIdentity attempt)
      if parts.1 ++ parts.2 ∉ usedNames then some parts
      else retryCallableParts sha1 callableNamespace toolName rawIdentity usedNames fuel
        (min (attempt + 1) (2 ^ 32 - 1))

def uniqueCallableParts (sha1 : Sha1) (fuel : Nat) (callableNamespace toolName rawIdentity : Str)
    (usedNames : List Str) : Option (Str × Str) :=
  if byteLen (callableNamespace ++ toolName) ≤ maxToolNameLength ∧ callableNamespace ++ toolName ∉ usedNames then
    some (callableNamespace, toolName)
  else retryCallableParts sha1 callableNamespace toolName rawIdentity usedNames fuel 0

/-! ## Qualifying -/

structure CallableToolCandidate (ρ : Type) where
  tool : ToolInfo ρ
  rawNamespaceIdentity : Str
  rawToolIdentity : Str
  callableNamespace : Str
  callableName : Str
  deriving DecidableEq

def rawNamespaceIdentity (tool : ToolInfo ρ) : Str :=
  tool.serverName ++ '\x00' :: tool.callableNamespace ++ '\x00' :: tool.connectorId.getD []

def rawToolIdentity (tool : ToolInfo ρ) : Str :=
  rawNamespaceIdentity tool ++ '\x00' :: tool.callableName ++ '\x00' :: tool.tool.name

def candidate (tool : ToolInfo ρ) : CallableToolCandidate ρ where
  tool := tool
  rawNamespaceIdentity := rawNamespaceIdentity tool
  rawToolIdentity := rawToolIdentity tool
  callableNamespace := sanitizeResponsesApiToolName tool.callableNamespace
  callableName := sanitizeResponsesApiToolName tool.callableName

/-- The tools whose identity was not seen before. -/
def candidates : List (ToolInfo ρ) → (seenRawNames : List Str) → List (CallableToolCandidate ρ)
  | [], _ => []
  | tool :: tools, seenRawNames =>
      if rawToolIdentity tool ∈ seenRawNames then candidates tools seenRawNames
      else candidate tool :: candidates tools (rawToolIdentity tool :: seenRawNames)

/-- More than one identity stands under the name that `base` is. -/
def collides {κ : Type} [DecidableEq κ] (name : CallableToolCandidate ρ → κ)
    (identity : CallableToolCandidate ρ → Str) (all : List (CallableToolCandidate ρ)) (base : κ) : Bool :=
  1 < ((all.filter fun other => name other = base).map identity).toFinset.card

def hashCollidingNamespaces (sha1 : Sha1) (all : List (CallableToolCandidate ρ)) : List (CallableToolCandidate ρ) :=
  all.map fun candidate =>
    if collides (·.callableNamespace) (·.rawNamespaceIdentity) all candidate.callableNamespace then
      { candidate with callableNamespace :=
          appendNamespaceHashSuffix sha1 candidate.callableNamespace candidate.rawNamespaceIdentity }
    else candidate

def hashCollidingTools (sha1 : Sha1) (all : List (CallableToolCandidate ρ)) : List (CallableToolCandidate ρ) :=
  all.map fun candidate =>
    if collides (fun other => (other.callableNamespace, other.callableName)) (·.rawToolIdentity) all
        (candidate.callableNamespace, candidate.callableName) then
      { candidate with callableName := appendHashSuffix sha1 candidate.callableName candidate.rawToolIdentity }
    else candidate

def sortCandidates (all : List (CallableToolCandidate ρ)) : List (CallableToolCandidate ρ) :=
  all.insertionSort fun left right => left.rawToolIdentity ≤ right.rawToolIdentity

def nameCandidates (sha1 : Sha1) (fuel : Nat) :
    List (CallableToolCandidate ρ) → (usedNames : List Str) → (qualifiedTools : List (Str × ToolInfo ρ)) →
      Option (List (Str × ToolInfo ρ))
  | [], _, qualifiedTools => some qualifiedTools
  | candidate :: rest, usedNames, qualifiedTools => do
      let (callableNamespace, callableName) ← uniqueCallableParts sha1 fuel candidate.callableNamespace
        candidate.callableName candidate.rawToolIdentity usedNames
      let qualifiedName := callableNamespace ++ callableName
      nameCandidates sha1 fuel rest (qualifiedName :: usedNames)
        (Entries.upsert qualifiedName { candidate.tool with callableNamespace, callableName } qualifiedTools)

def qualifyTools (sha1 : Sha1) (fuel : Nat) (tools : List (ToolInfo ρ)) : Option (List (Str × ToolInfo ρ)) :=
  nameCandidates sha1 fuel (sortCandidates (hashCollidingTools sha1 (hashCollidingNamespaces sha1 (candidates tools []))))
    [] []

/-! ## What it should do -/

/-- What tells raw tools apart. The source takes an absent connector for an empty one. -/
structure RawIdentity where
  serverName : Str
  callableNamespace : Str
  connectorId : Str
  callableName : Str
  toolName : Str
  deriving DecidableEq

def ToolInfo.identity (tool : ToolInfo ρ) : RawIdentity :=
  ⟨tool.serverName, tool.callableNamespace, tool.connectorId.getD [], tool.callableName, tool.tool.name⟩

/-- One tool of every identity, and no other. -/
structure OnePerIdentity (tools chosen : List (ToolInfo ρ)) : Prop where
  subset : chosen ⊆ tools
  apart : (chosen.map ToolInfo.identity).Nodup
  covers : ∀ tool ∈ tools, tool.identity ∈ chosen.map ToolInfo.identity

/-- A listed tool keeps everything but the names that the model sees; it is listed under these. -/
structure ListedAs (tool : ToolInfo ρ) (entry : Str × ToolInfo ρ) : Prop where
  keeps : entry.2 = { tool with
    callableNamespace := entry.2.callableNamespace, callableName := entry.2.callableName }
  key : entry.1 = entry.2.callableNamespace ++ entry.2.callableName
  fits : byteLen entry.1 ≤ maxToolNameLength

structure QualifiesTools (tools : List (ToolInfo ρ)) (qualified : List (Str × ToolInfo ρ)) : Prop where
  keysApart : (Entries.keys qualified).Nodup
  lists : ∃ chosen, OnePerIdentity tools chosen ∧ List.Forall₂ ListedAs chosen qualified

/-- No part of the identity has the separator in it. -/
structure NulFree (tool : ToolInfo ρ) : Prop where
  serverName : '\x00' ∉ tool.serverName
  callableNamespace : '\x00' ∉ tool.callableNamespace
  connectorId : '\x00' ∉ tool.connectorId.getD []
  callableName : '\x00' ∉ tool.callableName
  toolName : '\x00' ∉ tool.tool.name

/-- The texts that the retry loop may hash: no tool needs as many attempts as there are tools. -/
def hashInputs (tools : List (ToolInfo ρ)) : Set Str :=
  fun input => ∃ tool ∈ tools, ∃ attempt < min tools.length (2 ^ 32), input = hashInput (rawToolIdentity tool) attempt

end Codrex.Mcp
