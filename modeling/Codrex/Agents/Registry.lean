import Codrex.Lib.Entries
import Codrex.Lib.Text
import Codrex.Lib.Transition

/-!
# The registry of sub-agents (`core/src/agent/registry.rs`)

With the paths of `protocol/src/agent_path.rs`. Calls on one registry take turns; a call takes the lock once in a move,
and what it does to the counter is a move of its own.
-/

namespace Codrex.Agents

open Text

/-! ## Paths -/

def validateAgentName (agentName : Str) : Bool :=
  agentName ≠ [] && agentName ≠ "root".toList && agentName ≠ ".".toList && agentName ≠ "..".toList &&
    !agentName.contains '/' && agentName.all fun ch => ch.isLower || ch.isDigit || ch = '_'

def validateAbsolutePath (path : Str) : Bool :=
  path = "/morpheus".toList ||
    match path with
    | '/' :: stripped =>
        match stripped.splitOn '/' with
        | root :: segments =>
            root = "root".toList && stripped.getLast? ≠ some '/' && segments.all validateAgentName
        | [] => false
    | _ => false

structure AgentPath where
  text : Str
  valid : validateAbsolutePath text = true
  deriving DecidableEq

namespace AgentPath

def root : AgentPath := ⟨"/root", by decide⟩

def isRoot (path : AgentPath) : Bool := path.text = root.text

end AgentPath

/-! ## The registry -/

/-- The text of a thread id. -/
abbrev ThreadId := Str

structure AgentMetadata where
  agentId : Option ThreadId
  agentPath : Option AgentPath
  agentNickname : Option Str
  deriving DecidableEq

/-- With the nicknames that were given without a preference, and the names that they were chosen from. -/
structure AgentRegistry where
  agentTree : AList fun _ : Str => AgentMetadata
  usedAgentNicknames : List Str
  nicknameResetCount : Nat
  totalCount : Int
  issued : List (List Str × Str)

def ordinalSuffix (value : Nat) : Str :=
  if 11 ≤ value % 100 ∧ value % 100 ≤ 13 then "th"
  else
    match value % 10 with
    | 1 => "st"
    | 2 => "nd"
    | 3 => "rd"
    | _ => "th"

def formatAgentNickname (name : Str) (nicknameResetCount : Nat) : Str :=
  match nicknameResetCount with
  | 0 => name
  | resetCount =>
      let value := resetCount + 1
      name ++ " the ".toList ++ (Nat.repr value).toList ++ ordinalSuffix value

/-- A random choice: none of nothing. -/
def choose {α : Type} (elements : List α) (pick : Nat) : Option α := elements[pick % elements.length]?

namespace AgentRegistry

variable (registry : AgentRegistry)

def new : AgentRegistry := ⟨∅, [], 0, 0, []⟩

/-- The key under which an agent is registered. -/
def spawnedKey (threadId : ThreadId) (agentPath : Option AgentPath) : Str :=
  match agentPath with
  | some path => path.text
  | none => "thread:".toList ++ threadId

def registerSpawnedThread (agentMetadata : AgentMetadata) : AgentRegistry :=
  match agentMetadata.agentId with
  | none => registry
  | some threadId =>
      { registry with
        usedAgentNicknames := agentMetadata.agentNickname.toList ++ registry.usedAgentNicknames
        agentTree := registry.agentTree.insert (spawnedKey threadId agentMetadata.agentPath) agentMetadata }

def registerRootThread (threadId : ThreadId) : AgentRegistry :=
  match registry.agentTree.lookup AgentPath.root.text with
  | some _ => registry
  | none =>
      { registry with
        agentTree := registry.agentTree.insert AgentPath.root.text ⟨some threadId, some .root, none⟩ }

/-- The lock section of `release_spawned_thread`, and whether the agent that it removes counts. Of several agents with
the id the order of the map decides. -/
def removeSpawnedThread (threadId : ThreadId) (pick : Nat) : AgentRegistry × Bool :=
  match choose (registry.agentTree.entries.filter fun entry => entry.2.agentId = some threadId) pick with
  | none => (registry, false)
  | some ⟨key, metadata⟩ =>
      ({ registry with agentTree := registry.agentTree.erase key }, !metadata.agentPath.any AgentPath.isRoot)

def reserveAgentPath (agentPath : AgentPath) : AgentRegistry × Bool :=
  match registry.agentTree.lookup agentPath.text with
  | some _ => (registry, false)
  | none => ({ registry with agentTree := registry.agentTree.insert agentPath.text ⟨none, some agentPath, none⟩ }, true)

def releaseReservedAgentPath (agentPath : AgentPath) : AgentRegistry :=
  match registry.agentTree.lookup agentPath.text with
  | some metadata =>
      if metadata.agentId.isNone then { registry with agentTree := registry.agentTree.erase agentPath.text } else registry
  | none => registry

def reserveAgentNickname (names : List Str) (preferred : Option Str) (pick : Nat) : AgentRegistry :=
  match preferred with
  | some preferred => { registry with usedAgentNicknames := preferred :: registry.usedAgentNicknames }
  | none =>
      let availableNames := (names.map fun name => formatAgentNickname name registry.nicknameResetCount).filter
        fun name => name ∉ registry.usedAgentNicknames
      match choose availableNames pick, choose names pick with
      | some name, _ =>
          { registry with
            usedAgentNicknames := name :: registry.usedAgentNicknames
            issued := (names, name) :: registry.issued }
      | none, some name =>
          let nicknameResetCount := registry.nicknameResetCount + 1
          let name := formatAgentNickname name nicknameResetCount
          { registry with
            usedAgentNicknames := [name]
            nicknameResetCount := nicknameResetCount
            issued := (names, name) :: registry.issued }
      | none, none => registry

end AgentRegistry

/-! ## Calls -/

/-- Where a call stands, or a reservation with the path that it holds. -/
inductive AgentTask
  /-- `reserve_spawn_slot`, with the count that it has read. -/
  | reserving (current : Option Int)
  | reservation (reservedAgentPath : Option AgentPath)
  /-- A dropped reservation that still counts. -/
  | dropping
  | releasing (threadId : ThreadId)
  /-- A release that has removed its agent, which still counts. -/
  | decrementing
  | registeringRoot (threadId : ThreadId)
  | returned
  deriving DecidableEq

inductive AgentRequest
  | reserveSpawnSlot
  | releaseSpawnedThread (threadId : ThreadId)
  | registerRootThread (threadId : ThreadId)

def AgentRequest.start : AgentRequest → AgentTask
  | reserveSpawnSlot => .reserving none
  | releaseSpawnedThread threadId => .releasing threadId
  | registerRootThread threadId => .registeringRoot threadId

/-- What the owner of a reservation does with it. -/
inductive ReservationUse
  | reserveNickname (names : List Str) (preferred : Option Str)
  | reservePath (agentPath : AgentPath)
  | commit (agentMetadata : AgentMetadata)
  | drop

/-- What is left open to a move: the use of a reservation, random choices, and whether an exchange fails without a
reason. -/
structure AgentChoice where
  use : ReservationUse
  pick : Nat
  spurious : Bool

abbrev AgentState := Tasks.System AgentRegistry AgentTask

/-- The check of `try_increment_spawned` before an exchange. -/
def tryIncrement (maxThreads : Nat) (current : Int) : AgentTask :=
  if current ≥ maxThreads then .returned else .reserving (some current)

def useReservation (registry : AgentRegistry) (reservedAgentPath : Option AgentPath) (pick : Nat) :
    ReservationUse → AgentRegistry × AgentTask
  | .reserveNickname names preferred =>
      (registry.reserveAgentNickname names preferred pick, .reservation reservedAgentPath)
  | .reservePath agentPath =>
      let (registry, reserved) := registry.reserveAgentPath agentPath
      (registry, .reservation (if reserved then some agentPath else reservedAgentPath))
  | .commit agentMetadata => (registry.registerSpawnedThread agentMetadata, .returned)
  | .drop =>
      match reservedAgentPath with
      | some agentPath => (registry.releaseReservedAgentPath agentPath, .dropping)
      | none => (registry, .dropping)

def moveAgentTask (maxThreads : Option Nat) (registry : AgentRegistry) (choice : AgentChoice) :
    AgentTask → AgentRegistry × AgentTask
  | .reserving current =>
      match maxThreads, current with
      | none, _ => ({ registry with totalCount := registry.totalCount + 1 }, .reservation none)
      | some maxThreads, none => (registry, tryIncrement maxThreads registry.totalCount)
      | some maxThreads, some current =>
          if registry.totalCount = current ∧ choice.spurious = false then
            ({ registry with totalCount := current + 1 }, .reservation none)
          else (registry, tryIncrement maxThreads registry.totalCount)
  | .reservation reservedAgentPath => useReservation registry reservedAgentPath choice.pick choice.use
  | .dropping => ({ registry with totalCount := registry.totalCount - 1 }, .returned)
  | .releasing threadId =>
      let (registry, removedCountedAgent) := registry.removeSpawnedThread threadId choice.pick
      (registry, if removedCountedAgent then .decrementing else .returned)
  | .decrementing => ({ registry with totalCount := registry.totalCount - 1 }, .returned)
  | .registeringRoot threadId => (registry.registerRootThread threadId, .returned)
  | .returned => (registry, .returned)

abbrev AgentAction := Tasks.Action AgentRequest AgentChoice

def agentStep (maxThreads : Option Nat) : AgentState → AgentAction → AgentState :=
  Tasks.step AgentRequest.start fun state choice task =>
    let (registry, task) := moveAgentTask maxThreads state.shared choice task
    ⟨registry, task, []⟩

def startAgents : AgentState := ⟨.new, []⟩

/-! ## What the registry is for -/

namespace AgentTask

def isReservation : AgentTask → Bool
  | reservation _ => true
  | _ => false

/-- The entry is gone, and the counter has still to go down. -/
def pendingDecrement : AgentTask → Bool
  | dropping => true
  | decrementing => true
  | _ => false

def holds (path : AgentPath) (task : AgentTask) : Bool := task = reservation (some path)

end AgentTask

/-- An agent that is registered and not the root. -/
def AgentMetadata.isCounted (metadata : AgentMetadata) : Bool :=
  metadata.agentId.isSome && !metadata.agentPath.any AgentPath.isRoot

def AgentRegistry.countedAgents (registry : AgentRegistry) : Nat :=
  Assoc.sumValues (fun metadata => if metadata.isCounted then 1 else 0) registry.agentTree

/-- The name ends like a nickname that has been given again. -/
def HasOrdinal (name : Str) : Prop :=
  ∃ (base : Str) (value : Nat), name = base ++ " the ".toList ++ (Nat.repr value).toList ++ ordinalSuffix value

structure SlotsExact (maxThreads : Option Nat) (state : AgentState) : Prop where
  exact : state.shared.totalCount = state.tasks.countP AgentTask.isReservation + state.shared.countedAgents +
    state.tasks.countP AgentTask.pendingDecrement
  noUnderflow : 0 ≤ state.shared.totalCount
  bounded : ∀ max ∈ maxThreads, state.shared.totalCount ≤ max
  agentPaths : ∀ path key other, ∀ first ∈ state.shared.agentTree.lookup key,
    ∀ second ∈ state.shared.agentTree.lookup other, first.agentPath = some path → second.agentPath = some path →
      key = other
  reservedPaths : ∀ path, state.tasks.countP (AgentTask.holds path) ≤ 1
  apart : ∀ path, .reservation (some path) ∈ state.tasks → ∀ key, ∀ metadata ∈ state.shared.agentTree.lookup key,
    metadata.agentPath = some path → metadata.agentId = none
  nicknames : state.shared.issued.Pairwise fun later earlier =>
    (∀ name ∈ later.1, ¬ HasOrdinal name) → (∀ name ∈ earlier.1, ¬ HasOrdinal name) → later.2 ≠ earlier.2

/-- A commit is for a thread that is not registered, and for the path that the reservation holds. The root is never
reserved. -/
def UseAllowed (registry : AgentRegistry) (reservedAgentPath : Option AgentPath) : ReservationUse → Prop
  | .commit agentMetadata => agentMetadata.agentPath = reservedAgentPath ∧ ∃ threadId ∈ agentMetadata.agentId,
      ∀ entry ∈ registry.agentTree.entries, entry.2.agentId ≠ some threadId
  | .reservePath agentPath => agentPath.isRoot = false
  | _ => True

def MoveAllowed (registry : AgentRegistry) (use : ReservationUse) : Option AgentTask → Prop
  | some (.reservation path) => UseAllowed registry path use
  | _ => True

def AgentsAllowed (state : AgentState) : AgentAction → Prop
  | .move index choice => MoveAllowed state.shared choice.use state.tasks[index]?
  | .start _ => True

instance (registry : AgentRegistry) (path : Option AgentPath) : (use : ReservationUse) →
    Decidable (UseAllowed registry path use)
  | .commit agentMetadata =>
      inferInstanceAs (Decidable (agentMetadata.agentPath = path ∧ ∃ threadId ∈ agentMetadata.agentId,
        ∀ entry ∈ registry.agentTree.entries, entry.2.agentId ≠ some threadId))
  | .reservePath agentPath => inferInstanceAs (Decidable (agentPath.isRoot = false))
  | .reserveNickname _ _ => .isTrue trivial
  | .drop => .isTrue trivial

instance (registry : AgentRegistry) (use : ReservationUse) : (task : Option AgentTask) →
    Decidable (MoveAllowed registry use task)
  | some (.reservation path) => inferInstanceAs (Decidable (UseAllowed registry path use))
  | some (.reserving _) => .isTrue trivial
  | some .dropping => .isTrue trivial
  | some (.releasing _) => .isTrue trivial
  | some .decrementing => .isTrue trivial
  | some (.registeringRoot _) => .isTrue trivial
  | some .returned => .isTrue trivial
  | none => .isTrue trivial

instance (state : AgentState) : (action : AgentAction) → Decidable (AgentsAllowed state action)
  | .start _ => .isTrue trivial
  | .move index choice => inferInstanceAs (Decidable (MoveAllowed state.shared choice.use state.tasks[index]?))

end Codrex.Agents
