import Codrex.Agents.Registry

/-!
# Slots, paths and nicknames of sub-agents
-/

namespace Codrex.Agents

open Text Transition

/-! ## Keys -/

/-- An agent is registered under its path, or under its thread. -/
def KeyOf (key : Str) (metadata : AgentMetadata) : Prop :=
  (∃ path, metadata.agentPath = some path ∧ key = path.text) ∨
    metadata.agentPath = none ∧ ∃ threadId, metadata.agentId = some threadId ∧ key = "thread:".toList ++ threadId

theorem AgentPath.ext_text {first second : AgentPath} (h : first.text = second.text) : first = second := by
  cases first
  cases second
  cases h
  rfl

theorem head?_text (path : AgentPath) : path.text.head? = some '/' := by
  obtain ⟨text, hvalid⟩ := path
  change text.head? = some '/'
  unfold validateAbsolutePath at hvalid
  simp only [Bool.or_eq_true, decide_eq_true_eq] at hvalid
  rcases hvalid with hmorpheus | hsegments
  · rw [hmorpheus]
    decide
  · split at hsegments
    next => rfl
    next => cases hsegments

/-- A path begins with a slash, and so is no key of a thread. -/
theorem text_ne_threadKey (path : AgentPath) (threadId : ThreadId) : path.text ≠ "thread:".toList ++ threadId := by
  intro h
  have hslash := head?_text path
  have hthread : "thread:".toList.head? = some 't' := by decide
  rw [h, List.head?_append, hthread] at hslash
  cases hslash

theorem KeyOf.of_path {key : Str} {metadata : AgentMetadata} (h : KeyOf key metadata) {path : AgentPath}
    (hpath : metadata.agentPath = some path) : key = path.text := by
  rcases h with ⟨other, hother, rfl⟩ | ⟨hnone, -⟩
  · rw [Option.some.inj (hpath.symm.trans hother)]
  · cases hpath.symm.trans hnone

/-! ## Counted agents -/

namespace AgentRegistry

variable {registry : AgentRegistry} {tree : AList fun _ : Str => AgentMetadata} {key : Str}
  {metadata old : AgentMetadata}

def weight (metadata : AgentMetadata) : Nat := if metadata.isCounted then 1 else 0

theorem countedAgents_eq (registry : AgentRegistry) :
    registry.countedAgents = Assoc.sumValues weight registry.agentTree := rfl

theorem sumValues_insert_new (h : tree.lookup key = none) :
    Assoc.sumValues weight (tree.insert key metadata) = Assoc.sumValues weight tree + weight metadata := by
  rw [Assoc.sumValues_insert, @Assoc.sumValues_erase _ _ _ tree weight key, h]
  simp only [Option.map_none, Option.getD_none]
  omega

theorem sumValues_insert_old (h : tree.lookup key = some old) :
    Assoc.sumValues weight (tree.insert key metadata) + weight old =
      Assoc.sumValues weight tree + weight metadata := by
  rw [Assoc.sumValues_insert, @Assoc.sumValues_erase _ _ _ tree weight key, h]
  simp only [Option.map_some, Option.getD_some]
  omega

theorem sumValues_erase_old (h : tree.lookup key = some old) :
    Assoc.sumValues weight (tree.erase key) + weight old = Assoc.sumValues weight tree := by
  rw [@Assoc.sumValues_erase _ _ _ tree weight key, h]
  simp only [Option.map_some, Option.getD_some]
  omega

end AgentRegistry

open AgentRegistry

/-! ## Nicknames -/

theorem length_ordinalSuffix (value : Nat) : (ordinalSuffix value).length = 2 := by
  rw [ordinalSuffix]
  split
  · rfl
  · split <;> rfl

/-- The number in front of the last two letters can be read off. -/
theorem value_of_ordinal_eq {base other : Str} {value value' : Nat}
    (h : base ++ " the ".toList ++ (Nat.repr value).toList ++ ordinalSuffix value =
      other ++ " the ".toList ++ (Nat.repr value').toList ++ ordinalSuffix value') : value = value' := by
  have hfront := (List.append_inj' h (by rw [length_ordinalSuffix, length_ordinalSuffix])).1
  have hdigits (base : Str) (value : Nat) :
      ((base ++ " the ".toList ++ (Nat.repr value).toList).reverse.takeWhile Char.isDigit).reverse =
        (Nat.repr value).toList := by
    have hall : ∀ c ∈ (Nat.repr value).toList.reverse, c.isDigit = true :=
      fun c hc => isDigit_of_mem_repr (List.mem_reverse.mp hc)
    rw [List.reverse_append, List.takeWhile_append_of_pos hall, List.reverse_append]
    simp
  apply repr_injective
  rw [← hdigits base value, hfront, hdigits other value']

/-- Nicknames of different rounds are different, as long as no name looks like one that has been given again. -/
theorem count_of_nickname_eq {name other : Str} {count count' : Nat} (hname : ¬ HasOrdinal name)
    (hother : ¬ HasOrdinal other) (h : formatAgentNickname name count = formatAgentNickname other count') :
    count = count' := by
  cases count with
  | zero =>
      cases count' with
      | zero => rfl
      | succ count' => exact absurd ⟨other, count' + 1 + 1, h⟩ hname
  | succ count =>
      cases count' with
      | zero => exact absurd ⟨name, count + 1 + 1, h.symm⟩ hother
      | succ count' => exact Nat.succ.inj (value_of_ordinal_eq h)

/-- Every nickname that was given is a name of some round, and those of the present round are in use. -/
structure NicknamesInv (registry : AgentRegistry) : Prop where
  given : ∀ entry ∈ registry.issued, ∃ name ∈ entry.1, ∃ count ≤ registry.nicknameResetCount,
    entry.2 = formatAgentNickname name count ∧
      (count = registry.nicknameResetCount → entry.2 ∈ registry.usedAgentNicknames)
  apart : registry.issued.Pairwise fun later earlier =>
    (∀ name ∈ later.1, ¬ HasOrdinal name) → (∀ name ∈ earlier.1, ¬ HasOrdinal name) → later.2 ≠ earlier.2

theorem mem_of_choose {α : Type} {elements : List α} {pick : Nat} {element : α} (h : choose elements pick = some element) :
    element ∈ elements := List.mem_of_getElem? h

/-- More nicknames in use do no harm. -/
theorem NicknamesInv.more {registry registry' : AgentRegistry} (h : NicknamesInv registry)
    (hissued : registry'.issued = registry.issued) (hcount : registry'.nicknameResetCount = registry.nicknameResetCount)
    (hused : ∀ name ∈ registry.usedAgentNicknames, name ∈ registry'.usedAgentNicknames) : NicknamesInv registry' := by
  refine ⟨fun entry hentry => ?_, hissued ▸ h.apart⟩
  rw [hissued] at hentry
  obtain ⟨name, hname, count, hle, heq, hpresent⟩ := h.given entry hentry
  rw [hcount]
  exact ⟨name, hname, count, hle, heq, fun hsame => hused _ (hpresent hsame)⟩

theorem reserveAgentNickname_frame (registry : AgentRegistry) (names : List Str) (preferred : Option Str) (pick : Nat) :
    (registry.reserveAgentNickname names preferred pick).agentTree = registry.agentTree ∧
      (registry.reserveAgentNickname names preferred pick).totalCount = registry.totalCount := by
  cases preferred with
  | some preferred => exact ⟨rfl, rfl⟩
  | none =>
      rw [reserveAgentNickname]
      dsimp only
      split <;> exact ⟨rfl, rfl⟩

theorem NicknamesInv.reserve {registry : AgentRegistry} (h : NicknamesInv registry) (names : List Str)
    (preferred : Option Str) (pick : Nat) : NicknamesInv (registry.reserveAgentNickname names preferred pick) := by
  cases preferred with
  | some preferred => exact h.more rfl rfl fun name hname => List.mem_cons_of_mem _ hname
  | none =>
      rw [reserveAgentNickname]
      dsimp only
      split
      next nickname _ hchosen =>
        obtain ⟨hformed, hfree⟩ := List.mem_filter.mp (mem_of_choose hchosen)
        obtain ⟨name, hname, rfl⟩ := List.mem_map.mp hformed
        refine ⟨?_, List.pairwise_cons.mpr ⟨?_, h.apart⟩⟩
        · intro entry hentry
          rcases List.mem_cons.mp hentry with rfl | hold
          · exact ⟨name, hname, _, Nat.le_refl _, rfl, fun _ => List.mem_cons_self⟩
          · obtain ⟨other, hother, count, hle, heq, hpresent⟩ := h.given entry hold
            exact ⟨other, hother, count, hle, heq, fun hsame => List.mem_cons_of_mem _ (hpresent hsame)⟩
        · intro entry hentry hnames hothers heq
          obtain ⟨other, hother, count, -, hnickname, hpresent⟩ := h.given entry hentry
          have hsame : formatAgentNickname name registry.nicknameResetCount = formatAgentNickname other count :=
            heq.trans hnickname
          have hcount := count_of_nickname_eq (hnames name hname) (hothers other hother) hsame
          have hused := hpresent hcount.symm
          rw [← heq] at hused
          simp [hused] at hfree
      next name hnone hchosen =>
        have hname := mem_of_choose hchosen
        refine ⟨?_, List.pairwise_cons.mpr ⟨?_, h.apart⟩⟩
        · intro entry hentry
          rcases List.mem_cons.mp hentry with rfl | hold
          · exact ⟨name, hname, _, Nat.le_refl _, rfl, fun _ => List.mem_cons_self⟩
          · obtain ⟨other, hother, count, hle, heq, -⟩ := h.given entry hold
            exact ⟨other, hother, count, Nat.le_succ_of_le hle, heq, fun hsame => absurd hsame (by dsimp only; omega)⟩
        · intro entry hentry hnames hothers heq
          obtain ⟨other, hother, count, hle, hnickname, -⟩ := h.given entry hentry
          have hsame : formatAgentNickname name (registry.nicknameResetCount + 1) = formatAgentNickname other count :=
            heq.trans hnickname
          have hcount := count_of_nickname_eq (hnames name hname) (hothers other hother) hsame
          omega
      next => exact h

/-! ## The invariant -/

/-- The task counts in `total_count`. -/
def AgentTask.counts (task : AgentTask) : Bool := task.isReservation || task.pendingDecrement

def placeholder (path : AgentPath) : AgentMetadata := ⟨none, some path, none⟩

structure AgentsInv (maxThreads : Option Nat) (registry : AgentRegistry) (tasks : List AgentTask) : Prop where
  exact : registry.totalCount = tasks.countP AgentTask.counts + registry.countedAgents
  bounded : ∀ max ∈ maxThreads, registry.totalCount ≤ max
  loaded : ∀ current : Int, .reserving (some current) ∈ tasks → ∀ max ∈ maxThreads, current < max
  keys : ∀ key, ∀ metadata ∈ registry.agentTree.lookup key, KeyOf key metadata
  held : ∀ path, tasks.countP (AgentTask.holds path) ≠ 0 →
    registry.agentTree.lookup path.text = some (placeholder path) ∧ path.isRoot = false
  once : ∀ path, tasks.countP (AgentTask.holds path) ≤ 1
  nicknames : NicknamesInv registry

namespace AgentsInv

variable {maxThreads : Option Nat} {registry registry' : AgentRegistry} {tasks : List AgentTask} {index : Nat}
  {old new : AgentTask}

/-- A move keeps the invariant if the counter goes with what counts, and the paths that others hold stay reserved. -/
theorem moved (h : AgentsInv maxThreads registry tasks) (hold : tasks[index]? = some old)
    (hexact : registry'.totalCount + (if old.counts = true then 1 else 0) + registry.countedAgents =
      registry.totalCount + (if new.counts = true then 1 else 0) + registry'.countedAgents)
    (hbounded : ∀ max ∈ maxThreads, registry'.totalCount ≤ max)
    (hloaded : ∀ current : Int, new = .reserving (some current) → ∀ max ∈ maxThreads, current < max)
    (hkeys : ∀ key, ∀ metadata ∈ registry'.agentTree.lookup key, KeyOf key metadata)
    (hnew : ∀ path, new.holds path = true →
      (registry'.agentTree.lookup path.text = some (placeholder path) ∧ path.isRoot = false) ∧
        (old.holds path = true ∨ tasks.countP (AgentTask.holds path) = 0))
    (hothers : ∀ path, old.holds path = false → registry.agentTree.lookup path.text = some (placeholder path) →
      path.isRoot = false → registry'.agentTree.lookup path.text = some (placeholder path))
    (hnicknames : NicknamesInv registry') : AgentsInv maxThreads registry' (tasks.set index new ++ []) := by
  rw [List.append_nil]
  have hcounts := @Tasks.countP_set_add _ tasks index old new AgentTask.counts hold
  refine ⟨?_, hbounded, ?_, hkeys, ?_, ?_, hnicknames⟩
  · have hbefore := h.exact
    split at hexact <;> split at hexact <;> simp_all <;> omega
  · intro current hmem
    rcases List.mem_or_eq_of_mem_set hmem with hmem | heq
    · exact h.loaded current hmem
    · exact hloaded current heq.symm
  · intro path hpath
    have hholds := @Tasks.countP_set_add _ tasks index old new (AgentTask.holds path) hold
    have honce := h.once path
    cases hnewHolds : new.holds path with
    | true => exact (hnew path hnewHolds).1
    | false =>
        cases holdHolds : old.holds path with
        | true =>
            simp only [holdHolds, hnewHolds, if_true, Bool.false_eq_true, if_false] at hholds
            omega
        | false =>
            simp only [holdHolds, hnewHolds, Bool.false_eq_true, if_false] at hholds
            obtain ⟨hlookup, hroot⟩ := h.held path (by omega)
            exact ⟨hothers path holdHolds hlookup hroot, hroot⟩
  · intro path
    have hholds := @Tasks.countP_set_add _ tasks index old new (AgentTask.holds path) hold
    have honce := h.once path
    cases hnewHolds : new.holds path with
    | false =>
        simp only [hnewHolds, Bool.false_eq_true, if_false] at hholds
        omega
    | true =>
        simp only [hnewHolds, if_true] at hholds
        rcases (hnew path hnewHolds).2 with holdHolds | hzero
        · simp only [holdHolds, if_true] at hholds
          omega
        · omega

/-- A move that leaves the tree alone. -/
theorem counted (h : AgentsInv maxThreads registry tasks) (hold : tasks[index]? = some old)
    (htree : registry'.agentTree = registry.agentTree)
    (hexact : registry'.totalCount + (if old.counts = true then 1 else 0) =
      registry.totalCount + if new.counts = true then 1 else 0)
    (hbounded : ∀ max ∈ maxThreads, registry'.totalCount ≤ max)
    (hloaded : ∀ current : Int, new = .reserving (some current) → ∀ max ∈ maxThreads, current < max)
    (hnew : ∀ path, new.holds path = true → old.holds path = true)
    (hnicknames : NicknamesInv registry') : AgentsInv maxThreads registry' (tasks.set index new ++ []) := by
  have hcounted : registry'.countedAgents = registry.countedAgents := by
    rw [countedAgents_eq, countedAgents_eq, htree]
  refine h.moved hold ?_ hbounded hloaded (htree ▸ h.keys) ?_ (fun _ _ hlookup _ => htree ▸ hlookup) hnicknames
  · rw [hcounted]
    omega
  · intro path hpath
    have hholds := hnew path hpath
    have hmem : tasks.countP (AgentTask.holds path) ≠ 0 :=
      fun hzero => List.countP_eq_zero.mp hzero old (List.mem_of_getElem? hold) hholds
    exact ⟨htree ▸ h.held path hmem, .inl hholds⟩

theorem tryIncrement_loaded {max : Nat} {total current : Int} (h : tryIncrement max total = .reserving (some current)) :
    current < max := by
  rw [tryIncrement] at h
  split at h
  · cases h
  next hlt =>
    cases h
    omega

theorem tryIncrement_free (max : Nat) (total : Int) : (tryIncrement max total).counts = false ∧
    ∀ path, (tryIncrement max total).holds path = false := by
  rw [tryIncrement]
  split
  · exact ⟨rfl, fun path => by simp [AgentTask.holds]⟩
  · exact ⟨rfl, fun path => by simp [AgentTask.holds]⟩

/-! ## Moves -/

theorem reserving {current : Option Int} (choice : AgentChoice) (h : AgentsInv maxThreads registry tasks)
    (hold : tasks[index]? = some (.reserving current)) :
    AgentsInv maxThreads (moveAgentTask maxThreads registry choice (.reserving current)).1
      (tasks.set index (moveAgentTask maxThreads registry choice (.reserving current)).2 ++ []) := by
  have hnone : ∀ path, AgentTask.holds path (.reservation none) = true →
      AgentTask.holds path (.reserving current) = true := by
    intro path hholds
    simp [AgentTask.holds] at hholds
  cases maxThreads with
  | none =>
      rw [moveAgentTask]
      refine h.counted hold rfl ?_ (by simp) (by simp) hnone (h.nicknames.more rfl rfl fun _ hname => hname)
      simp [AgentTask.counts, AgentTask.isReservation, AgentTask.pendingDecrement]
  | some max =>
      -- Neither a look at the counter nor an exchange that fails changes anything.
      have hlook : AgentsInv (some max) registry (tasks.set index (tryIncrement max registry.totalCount) ++ []) := by
        obtain ⟨hcounts, hholds⟩ := tryIncrement_free max registry.totalCount
        refine h.counted hold rfl ?_ h.bounded ?_ ?_ h.nicknames
        · rw [hcounts]
          rfl
        · rintro current hloaded _ ⟨⟩
          exact tryIncrement_loaded hloaded
        · intro path hpath
          rw [hholds path] at hpath
          cases hpath
      cases current with
      | none => exact hlook
      | some current =>
          rw [moveAgentTask]
          split
          next hexchanged =>
            have hlt := h.loaded current (List.mem_of_getElem? hold) max rfl
            refine h.counted hold rfl ?_ ?_ (by simp) hnone (h.nicknames.more rfl rfl fun _ hname => hname)
            · rw [hexchanged.1]
              simp [AgentTask.counts, AgentTask.isReservation, AgentTask.pendingDecrement]
            · rintro _ ⟨⟩
              dsimp only
              omega
          next => exact hlook

theorem holds_self {path : AgentPath} (h : AgentsInv maxThreads registry tasks)
    (hold : tasks[index]? = some (.reservation (some path))) :
    registry.agentTree.lookup path.text = some (placeholder path) ∧ path.isRoot = false :=
  h.held path fun hzero => List.countP_eq_zero.mp hzero _ (List.mem_of_getElem? hold) (by simp [AgentTask.holds])

theorem reservedPath {path : Option AgentPath} {agentPath : AgentPath} (h : AgentsInv maxThreads registry tasks)
    (hold : tasks[index]? = some (.reservation path)) (hroot : agentPath.isRoot = false) (pick : Nat) :
    AgentsInv maxThreads (useReservation registry path pick (.reservePath agentPath)).1
      (tasks.set index (useReservation registry path pick (.reservePath agentPath)).2 ++ []) := by
  rw [useReservation, reserveAgentPath]
  cases hlookup : registry.agentTree.lookup agentPath.text with
  | some metadata => exact h.counted hold rfl rfl h.bounded (by simp) (fun _ hpath => hpath) h.nicknames
  | none =>
      have hcounted : AgentRegistry.countedAgents
          { registry with agentTree := registry.agentTree.insert agentPath.text (placeholder agentPath) } =
            registry.countedAgents := sumValues_insert_new hlookup
      refine h.moved hold ?_ h.bounded (by simp) ?_ ?_ ?_ (h.nicknames.more rfl rfl fun _ hname => hname)
      · exact congrArg (fun counted : Nat => registry.totalCount + 1 + (counted : Int)) hcounted.symm
      · intro key metadata hmem
        rcases Assoc.lookup_insert.mp hmem with ⟨rfl, rfl⟩ | ⟨-, hother⟩
        · exact .inl ⟨agentPath, rfl, rfl⟩
        · exact h.keys key metadata hother
      · intro other hother
        obtain rfl : agentPath = other := by simpa [AgentTask.holds] using hother
        refine ⟨⟨AList.lookup_insert _, hroot⟩, .inr ?_⟩
        by_contra hne
        cases hlookup.symm.trans (h.held agentPath hne).1
      · intro other _ hplaceholder _
        refine Assoc.lookup_insert.mpr (.inr ⟨?_, hplaceholder⟩)
        intro hsame
        cases hlookup.symm.trans (hsame ▸ hplaceholder)

theorem committed {path : Option AgentPath} {agentMetadata : AgentMetadata} (h : AgentsInv maxThreads registry tasks)
    (hold : tasks[index]? = some (.reservation path)) (hallowed : UseAllowed registry path (.commit agentMetadata))
    (pick : Nat) :
    AgentsInv maxThreads (useReservation registry path pick (.commit agentMetadata)).1
      (tasks.set index (useReservation registry path pick (.commit agentMetadata)).2 ++ []) := by
  obtain ⟨hsamePath, threadId, hthread, hfresh⟩ := hallowed
  obtain ⟨agentId, agentPath, agentNickname⟩ := agentMetadata
  cases hsamePath
  cases hthread
  rw [useReservation, registerSpawnedThread]
  dsimp only
  -- The key is that of the own placeholder, or it is free.
  have hcounted : Assoc.sumValues weight
      (registry.agentTree.insert (spawnedKey threadId agentPath) ⟨some threadId, agentPath, agentNickname⟩) =
        registry.countedAgents + 1 := by
    cases agentPath with
    | some path =>
        obtain ⟨hlookup, hroot⟩ := h.holds_self hold
        have hsum := @sumValues_insert_old registry.agentTree path.text ⟨some threadId, some path, agentNickname⟩ _ hlookup
        have hweight : weight ⟨some threadId, some path, agentNickname⟩ = 1 := by
          simp [weight, AgentMetadata.isCounted, hroot]
        rw [hweight] at hsum
        exact hsum
    | none =>
        have hlookup : registry.agentTree.lookup (spawnedKey threadId none) = none := by
          by_contra hsome
          obtain ⟨metadata, hmetadata⟩ := Option.ne_none_iff_exists'.mp hsome
          rcases h.keys _ metadata hmetadata with ⟨path, -, hkey⟩ | ⟨-, other, hother, hkey⟩
          · exact text_ne_threadKey path threadId hkey.symm
          · have hsame : threadId = other := List.append_cancel_left hkey
            exact hfresh _ (AList.mem_lookup_iff.mp hmetadata) (hother.trans (congrArg some hsame.symm))
        exact sumValues_insert_new hlookup
  refine h.moved hold ?_ h.bounded (by simp) ?_ (by simp [AgentTask.holds]) ?_ ?_
  · have hcast := congrArg (fun counted : Nat => registry.totalCount + (counted : Int)) hcounted
    simp only [AgentTask.counts, AgentTask.isReservation, AgentTask.pendingDecrement, countedAgents_eq] at hcast ⊢
    push_cast at hcast
    simp
    omega
  · intro key metadata hmem
    rcases Assoc.lookup_insert.mp hmem with ⟨rfl, rfl⟩ | ⟨-, hother⟩
    · cases agentPath with
      | some path => exact .inl ⟨path, rfl, rfl⟩
      | none => exact .inr ⟨rfl, threadId, rfl, rfl⟩
    · exact h.keys key metadata hother
  · intro other hother hplaceholder _
    refine Assoc.lookup_insert.mpr (.inr ⟨?_, hplaceholder⟩)
    intro hsame
    cases agentPath with
    | none => exact text_ne_threadKey other threadId hsame
    | some path =>
        obtain rfl := AgentPath.ext_text hsame
        simp [AgentTask.holds] at hother
  · exact h.nicknames.more rfl rfl fun name hname => List.mem_append_right _ hname

theorem dropped {path : Option AgentPath} (h : AgentsInv maxThreads registry tasks)
    (hold : tasks[index]? = some (.reservation path)) (pick : Nat) :
    AgentsInv maxThreads (useReservation registry path pick .drop).1
      (tasks.set index (useReservation registry path pick .drop).2 ++ []) := by
  cases path with
  | none =>
      exact h.counted hold rfl rfl h.bounded (by simp [useReservation]) (by simp [AgentTask.holds, useReservation])
        h.nicknames
  | some path =>
      obtain ⟨hlookup, -⟩ := h.holds_self hold
      have hcounted := sumValues_erase_old hlookup
      rw [useReservation, releaseReservedAgentPath, hlookup]
      simp only [placeholder, Option.isNone_none, if_true]
      refine h.moved hold ?_ h.bounded (by simp) ?_ (by simp [AgentTask.holds]) ?_ ?_
      · exact congrArg (fun counted : Nat => registry.totalCount + 1 + (counted : Int)) hcounted.symm
      · exact fun key metadata hmem => h.keys key metadata (Assoc.lookup_erase.mp hmem).2
      · intro other hother hplaceholder _
        refine Assoc.lookup_erase.mpr ⟨?_, hplaceholder⟩
        intro hsame
        obtain rfl := AgentPath.ext_text hsame
        simp [AgentTask.holds] at hother
      · exact h.nicknames.more rfl rfl fun _ hname => hname

theorem released {threadId : ThreadId} (choice : AgentChoice) (h : AgentsInv maxThreads registry tasks)
    (hold : tasks[index]? = some (.releasing threadId)) :
    AgentsInv maxThreads (moveAgentTask maxThreads registry choice (.releasing threadId)).1
      (tasks.set index (moveAgentTask maxThreads registry choice (.releasing threadId)).2 ++ []) := by
  rw [moveAgentTask, removeSpawnedThread]
  cases hchosen : choose (registry.agentTree.entries.filter fun entry => entry.2.agentId = some threadId) choice.pick with
  | none => exact h.counted hold rfl rfl h.bounded (by simp) (by simp [AgentTask.holds]) h.nicknames
  | some entry =>
      obtain ⟨key, metadata⟩ := entry
      obtain ⟨hmem, hid⟩ := List.mem_filter.mp (mem_of_choose hchosen)
      replace hid : metadata.agentId = some threadId := of_decide_eq_true hid
      have hlookup : registry.agentTree.lookup key = some metadata := AList.mem_lookup_iff.mpr hmem
      have hsum := sumValues_erase_old hlookup
      have hweight : weight metadata = if (!metadata.agentPath.any AgentPath.isRoot) = true then 1 else 0 := by
        rw [weight, AgentMetadata.isCounted, hid]
        rfl
      dsimp only
      refine h.moved hold ?_ h.bounded ?_ ?_ ?_ ?_ ?_
      · rw [countedAgents_eq, countedAgents_eq, ← hsum, hweight]
        cases !metadata.agentPath.any AgentPath.isRoot with
        | true =>
            simp [AgentTask.counts, AgentTask.isReservation, AgentTask.pendingDecrement]
            omega
        | false => simp [AgentTask.counts, AgentTask.isReservation, AgentTask.pendingDecrement]
      · intro current hnew
        split at hnew <;> cases hnew
      · exact fun other found hfound => h.keys other found (Assoc.lookup_erase.mp hfound).2
      · intro path hpath
        split at hpath <;> simp [AgentTask.holds] at hpath
      · intro path _ hplaceholder _
        refine Assoc.lookup_erase.mpr ⟨?_, hplaceholder⟩
        rintro rfl
        cases hlookup.symm.trans hplaceholder
        cases hid
      · exact h.nicknames.more rfl rfl fun _ hname => hname

theorem registeredRoot {threadId : ThreadId} (choice : AgentChoice) (h : AgentsInv maxThreads registry tasks)
    (hold : tasks[index]? = some (.registeringRoot threadId)) :
    AgentsInv maxThreads (moveAgentTask maxThreads registry choice (.registeringRoot threadId)).1
      (tasks.set index (moveAgentTask maxThreads registry choice (.registeringRoot threadId)).2 ++ []) := by
  rw [moveAgentTask, registerRootThread]
  cases hlookup : registry.agentTree.lookup AgentPath.root.text with
  | some metadata => exact h.counted hold rfl rfl h.bounded (by simp) (by simp [AgentTask.holds]) h.nicknames
  | none =>
      have hcounted := @sumValues_insert_new registry.agentTree _ ⟨some threadId, some .root, none⟩ hlookup
      have hweight : weight ⟨some threadId, some .root, none⟩ = 0 := by
        simp [weight, AgentMetadata.isCounted, AgentPath.isRoot]
      rw [hweight] at hcounted
      refine h.moved hold ?_ h.bounded (by simp) ?_ (by simp [AgentTask.holds]) ?_ ?_
      · exact congrArg (fun counted : Nat => registry.totalCount + 0 + (counted : Int)) hcounted.symm
      · intro key metadata hmem
        rcases Assoc.lookup_insert.mp hmem with ⟨rfl, rfl⟩ | ⟨-, hother⟩
        · exact .inl ⟨.root, rfl, rfl⟩
        · exact h.keys key metadata hother
      · intro path _ hplaceholder hroot
        refine Assoc.lookup_insert.mpr (.inr ⟨?_, hplaceholder⟩)
        intro hsame
        rw [AgentPath.isRoot, hsame] at hroot
        simp at hroot
      · exact h.nicknames.more rfl rfl fun _ hname => hname

/-- The counter goes down when a drop or a release comes to its end. -/
theorem decremented (h : AgentsInv maxThreads registry tasks) (hold : tasks[index]? = some old)
    (hcounts : old.counts = true) :
    AgentsInv maxThreads { registry with totalCount := registry.totalCount - 1 }
      (tasks.set index .returned ++ []) := by
  refine h.counted hold rfl ?_ ?_ (by simp) (by simp [AgentTask.holds]) (h.nicknames.more rfl rfl fun _ hname => hname)
  · rw [hcounts]
    simp [AgentTask.counts, AgentTask.isReservation, AgentTask.pendingDecrement]
  · intro max hmax
    have := h.bounded max hmax
    dsimp only
    omega

theorem started (h : AgentsInv maxThreads registry tasks) (request : AgentRequest) :
    AgentsInv maxThreads registry (tasks ++ [request.start]) := by
  have hcounts : AgentTask.counts request.start = false := by cases request <;> rfl
  have hholds : ∀ path, AgentTask.holds path request.start = false := by
    intro path
    cases request <;> simp [AgentRequest.start, AgentTask.holds]
  refine ⟨?_, h.bounded, ?_, h.keys, ?_, ?_, h.nicknames⟩
  · rw [List.countP_append, List.countP_singleton, hcounts]
    exact h.exact
  · intro current hmem
    rcases List.mem_append.mp hmem with hmem | hmem
    · exact h.loaded current hmem
    · cases request <;> cases List.mem_singleton.mp hmem
  · intro path hpath
    rw [List.countP_append, List.countP_singleton, hholds] at hpath
    exact h.held path hpath
  · intro path
    rw [List.countP_append, List.countP_singleton, hholds]
    exact h.once path

theorem step {state : AgentState} {action : AgentAction} (h : AgentsInv maxThreads state.shared state.tasks)
    (hallowed : AgentsAllowed state action) :
    AgentsInv maxThreads (agentStep maxThreads state action).shared (agentStep maxThreads state action).tasks := by
  refine Tasks.step_keeps (fun state : AgentState => AgentsInv maxThreads state.shared state.tasks) h ?_ ?_
  · exact fun request _ => h.started request
  · rintro index choice task rfl htask
    cases task with
    | reserving current => exact h.reserving choice htask
    | reservation path =>
        rw [AgentsAllowed, htask] at hallowed
        change UseAllowed state.shared path choice.use at hallowed
        dsimp only
        rw [moveAgentTask]
        cases huse : choice.use with
        | reserveNickname names preferred =>
            obtain ⟨htree, htotal⟩ := reserveAgentNickname_frame state.shared names preferred choice.pick
            refine h.counted htask htree ?_ ?_ (by simp [useReservation]) (fun _ hpath => hpath)
              (h.nicknames.reserve names preferred choice.pick)
            · rw [useReservation, htotal]
            · rw [useReservation, htotal]
              exact h.bounded
        | reservePath agentPath => exact h.reservedPath htask (by rw [huse] at hallowed; exact hallowed) _
        | commit agentMetadata => exact h.committed htask (by rw [huse] at hallowed; exact hallowed) _
        | drop => exact h.dropped htask _
    | dropping => exact h.decremented htask rfl
    | releasing threadId => exact h.released choice htask
    | decrementing => exact h.decremented htask rfl
    | registeringRoot threadId => exact h.registeredRoot choice htask
    | returned => exact h.counted htask rfl rfl h.bounded (by simp [moveAgentTask]) (fun _ hpath => hpath) h.nicknames

theorem start : AgentsInv maxThreads startAgents.shared startAgents.tasks where
  exact := rfl
  bounded := fun max _ => by simp [startAgents, AgentRegistry.new]
  loaded := fun _ hmem => by cases hmem
  keys := fun _ _ hmem => by cases hmem
  held := fun _ hne => absurd rfl hne
  once := fun _ => Nat.zero_le _
  nicknames := ⟨(fun _ hmem => by cases hmem), .nil⟩

theorem slotsExact {state : AgentState} (h : AgentsInv maxThreads state.shared state.tasks) :
    SlotsExact maxThreads state where
  exact := by
    have hsplit : state.tasks.countP AgentTask.counts =
        state.tasks.countP AgentTask.isReservation + state.tasks.countP AgentTask.pendingDecrement := by
      induction state.tasks with
      | nil => rfl
      | cons task tasks ih =>
          rw [List.countP_cons, List.countP_cons, List.countP_cons, ih]
          cases task <;> simp [AgentTask.counts, AgentTask.isReservation, AgentTask.pendingDecrement] <;> omega
    rw [h.exact, hsplit]
    push_cast
    omega
  noUnderflow := by
    rw [h.exact]
    omega
  bounded := h.bounded
  agentPaths := by
    intro path key other first hfirst second hsecond hpath hsame
    rw [(h.keys key first hfirst).of_path hpath, (h.keys other second hsecond).of_path hsame]
  reservedPaths := h.once
  apart := by
    intro path hmem key metadata hmetadata hpath
    have hheld := h.held path fun hzero => List.countP_eq_zero.mp hzero _ hmem (by simp [AgentTask.holds])
    obtain rfl := (h.keys key metadata hmetadata).of_path hpath
    cases hheld.1.symm.trans hmetadata
    rfl
  nicknames := h.nicknames.apart

end AgentsInv

/-- In any order of moves the counter is the number of reservations, agents and decrements still to come, it stays
within its bounds, no path is held twice, and no nickname is given twice. -/
theorem run_slotsExact {maxThreads : Option Nat} {actions : List AgentAction}
    (h : Guarded (agentStep maxThreads) AgentsAllowed startAgents actions) :
    SlotsExact maxThreads (run (agentStep maxThreads) startAgents actions) := by
  have hstep (state : AgentState) (action : AgentAction) (hallowed : AgentsAllowed state action)
      (hinv : AgentsInv maxThreads state.shared state.tasks) :
      AgentsInv maxThreads (agentStep maxThreads state action).shared (agentStep maxThreads state action).tasks :=
    hinv.step hallowed
  have hinv := @Guarded.invariant _ _ _ _ (fun state => AgentsInv maxThreads state.shared state.tasks) hstep _ _ h .start
  exact hinv.slotsExact

def use (use : ReservationUse) : AgentChoice := ⟨use, 0, false⟩

def workerPath : AgentPath := ⟨"/root/worker", by decide⟩

/-- A spawn that is committed and released, while a second one finds no slot. -/
def spawnRun : List AgentAction :=
  [.start .reserveSpawnSlot, .move 0 (use .drop), .move 0 (use .drop),
    .move 0 (use (.reserveNickname ["Ada".toList] none)), .move 0 (use (.reservePath workerPath)),
    .start .reserveSpawnSlot, .move 1 (use .drop),
    .move 0 (use (.commit ⟨some "1".toList, some workerPath, some "Ada".toList⟩)),
    .start (.releaseSpawnedThread "1".toList), .move 2 (use .drop), .move 2 (use .drop)]

theorem spawnRun_slotsExact : SlotsExact (some 1) (run (agentStep (some 1)) startAgents spawnRun) :=
  run_slotsExact (by decide)

/-- An agent that is spawned at the path of the root. -/
def rootRun : List AgentAction :=
  [.start .reserveSpawnSlot, .move 0 (use .drop), .move 0 (use (.reservePath .root)),
    .move 0 (use (.commit ⟨some "1".toList, some .root, none⟩))]

theorem rootRun_not_exact : ¬ SlotsExact none (run (agentStep none) startAgents rootRun) := by
  intro h
  have hexact := h.exact
  revert hexact
  decide

end Codrex.Agents
