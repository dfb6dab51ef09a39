import Mathlib.Algebra.Group.Nat.Defs
import Mathlib.Data.List.Basic
import Mathlib.Data.List.Perm.Basic
import Mathlib.Tactic.Common

/-!
# Runs of a transition function

A run is a list of actions. An action may be guarded by the state it is taken in.
-/

namespace Transition

variable {σ α : Type} (step : σ → α → σ)

def run (start : σ) (actions : List α) : σ := actions.foldl step start

/-- Every action of the run meets the guard in its state. -/
def Guarded (guard : σ → α → Prop) : σ → List α → Prop
  | _, [] => True
  | state, action :: rest => guard state action ∧ Guarded guard (step state action) rest

instance Guarded.decidable (guard : σ → α → Prop) [∀ state action, Decidable (guard state action)] :
    ∀ (start : σ) (actions : List α), Decidable (Guarded step guard start actions)
  | _, [] => .isTrue trivial
  | state, action :: rest =>
      have := Guarded.decidable guard (step state action) rest
      inferInstanceAs (Decidable (guard state action ∧ Guarded step guard (step state action) rest))

/-- What the actions of a run put out, one after the other. -/
def outputs {β : Type} (output : σ → α → List β) : σ → List α → List β
  | _, [] => []
  | state, action :: rest => output state action ++ outputs output (step state action) rest

variable {step}

theorem run_append (start : σ) (first second : List α) :
    run step start (first ++ second) = run step (run step start first) second :=
  List.foldl_append

theorem outputs_append {β : Type} (output : σ → α → List β) (start : σ) (first second : List α) :
    outputs step output start (first ++ second) =
      outputs step output start first ++ outputs step output (run step start first) second := by
  induction first generalizing start with
  | nil => rfl
  | cons action first ih =>
      simp only [List.cons_append, outputs, ih, List.append_assoc]
      rfl

theorem Guarded.of_append {guard : σ → α → Prop} {start : σ} {first second : List α}
    (h : Guarded step guard start (first ++ second)) : Guarded step guard start first := by
  induction first generalizing start with
  | nil => trivial
  | cons action first ih => exact ⟨h.1, ih h.2⟩

/-- A run is guarded if each of its actions is, in the state it is taken in. -/
theorem guarded_iff {guard : σ → α → Prop} {start : σ} {actions : List α} :
    Guarded step guard start actions ↔
      ∀ before action after, actions = before ++ action :: after → guard (run step start before) action := by
  induction actions generalizing start with
  | nil => simp [Guarded]
  | cons first actions ih =>
      rw [Guarded, ih]
      constructor
      · rintro ⟨hfirst, hrest⟩ before action after heq
        cases before with
        | nil =>
            obtain ⟨rfl, -⟩ := List.cons.inj heq
            exact hfirst
        | cons other before =>
            obtain ⟨rfl, rfl⟩ := List.cons.inj heq
            exact hrest before action after rfl
      · intro h
        exact ⟨h [] first actions rfl, fun before action after heq => h (first :: before) action after (by rw [heq]; rfl)⟩

/-- What guarded actions keep holds in every state that a guarded run reaches. -/
theorem Guarded.invariant {guard : σ → α → Prop} {Inv : σ → Prop}
    (hstep : ∀ state action, guard state action → Inv state → Inv (step state action)) {start : σ} {actions : List α}
    (h : Guarded step guard start actions) (hstart : Inv start) : Inv (run step start actions) := by
  induction actions generalizing start with
  | nil => exact hstart
  | cons action rest ih => exact ih h.2 (hstep start action h.1 hstart)

/-- The same for what holds of the state and of everything that was put out so far. -/
theorem Guarded.invariant_outputs {β : Type} {output : σ → α → List β} {guard : σ → α → Prop} {Inv : σ → List β → Prop}
    (hstep : ∀ state seen action, guard state action → Inv state seen →
      Inv (step state action) (seen ++ output state action))
    {start : σ} {actions : List α} (h : Guarded step guard start actions) {seen : List β} (hstart : Inv start seen) :
    Inv (run step start actions) (seen ++ outputs step output start actions) := by
  induction actions generalizing start seen with
  | nil => rwa [outputs, List.append_nil]
  | cons action rest ih =>
      rw [outputs, ← List.append_assoc]
      exact ih h.2 (hstep start seen action h.1 hstart)

/-- What every action keeps holds in every state that is reached. -/
theorem invariant {Inv : σ → Prop} (hstep : ∀ state action, Inv state → Inv (step state action)) {start : σ}
    (hstart : Inv start) (actions : List α) : Inv (run step start actions) := by
  induction actions generalizing start with
  | nil => exact hstart
  | cons action rest ih => exact ih (hstep start action hstart)

end Transition

/-!
## Tasks over a shared state

Any number of tasks take turns on one shared state. A task moves by one step at a time: it may change the shared
state and start further tasks, and the others keep their places.
-/

namespace Tasks

variable {σ τ κ χ : Type}

structure System (σ τ : Type) where
  shared : σ
  tasks : List τ

/-- What a move of a task makes of the shared state and of the task, and the tasks that it starts. -/
structure Moved (σ τ : Type) where
  shared : σ
  task : τ
  spawned : List τ := []

inductive Action (κ χ : Type)
  | start (kind : κ)
  | move (index : Nat) (choice : χ)

/-- A new task starts, or the task with an index moves, as far as there is one. -/
def step (start : κ → τ) (move : System σ τ → χ → τ → Moved σ τ) (system : System σ τ) :
    Action κ χ → System σ τ
  | .start kind => { system with tasks := system.tasks ++ [start kind] }
  | .move index choice =>
      match system.tasks[index]? with
      | none => system
      | some task =>
          let moved := move system choice task
          ⟨moved.shared, system.tasks.set index moved.task ++ moved.spawned⟩

variable {start : κ → τ} {move : System σ τ → χ → τ → Moved σ τ}

/-- An invariant is kept if it is kept by a new task and by a move of a task that is there. -/
theorem step_keeps (Inv : System σ τ → Prop) {system : System σ τ} {action : Action κ χ} (h : Inv system)
    (hstart : ∀ kind, action = .start kind → Inv { system with tasks := system.tasks ++ [start kind] })
    (hmove : ∀ index choice task, action = .move index choice → system.tasks[index]? = some task →
      Inv ⟨(move system choice task).shared,
        system.tasks.set index (move system choice task).task ++ (move system choice task).spawned⟩) :
    Inv (step start move system action) := by
  cases action with
  | start kind => exact hstart kind rfl
  | move index choice =>
      rw [step]
      split
      · exact h
      · rename_i task htask
        exact hmove index choice task rfl htask

theorem perm_cons_eraseIdx {l : List τ} {index : Nat} {task : τ} (h : l[index]? = some task) :
    l.Perm (task :: l.eraseIdx index) := by
  obtain ⟨hlt, rfl⟩ := List.getElem?_eq_some_iff.mp h
  exact (List.getElem_cons_eraseIdx_perm hlt).symm

theorem set_perm_cons_eraseIdx {l : List τ} {index : Nat} {old new : τ} (h : l[index]? = some old) :
    (l.set index new).Perm (new :: l.eraseIdx index) := by
  obtain ⟨hlt, -⟩ := List.getElem?_eq_some_iff.mp h
  exact List.set_perm_cons_eraseIdx hlt new

/-- The same for what does not depend on the order of the tasks: the task that moves can be taken to be the first. -/
theorem step_keeps_perm (Inv : σ → List τ → Prop) (hperm : ∀ shared l l', l.Perm l' → Inv shared l → Inv shared l')
    {system : System σ τ} {action : Action κ χ} (h : Inv system.shared system.tasks)
    (hstart : ∀ kind, action = .start kind → Inv system.shared (start kind :: system.tasks))
    (hmove : ∀ index choice task rest, action = .move index choice → system.tasks.Perm (task :: rest) →
      Inv system.shared (task :: rest) →
      Inv (move system choice task).shared ((move system choice task).task :: rest ++ (move system choice task).spawned)) :
    Inv (step start move system action).shared (step start move system action).tasks := by
  refine step_keeps (fun system : System σ τ => Inv system.shared system.tasks) h ?_ ?_
  · intro kind haction
    exact hperm _ _ _ (List.perm_append_singleton _ _).symm (hstart kind haction)
  · intro index choice task haction htask
    have hfirst := perm_cons_eraseIdx htask
    refine hperm _ _ _ ?_ (hmove index choice task _ haction hfirst (hperm _ _ _ hfirst h))
    exact (set_perm_cons_eraseIdx htask).symm.append_right _

variable {l spawned : List τ} {index : Nat} {old new task : τ}

theorem mem_set_of_ne (hold : l[index]? = some old) (h : task ∈ l) (hne : task ≠ old) : task ∈ l.set index new := by
  obtain ⟨i, hi⟩ := List.mem_iff_getElem?.mp h
  apply List.mem_iff_getElem?.mpr
  refine ⟨i, ?_⟩
  have hindex : index ≠ i := by
    rintro rfl
    exact hne (Option.some.inj (hi.symm.trans hold))
  rw [List.getElem?_set, if_neg hindex]
  exact hi

theorem new_mem_set (hold : l[index]? = some old) : new ∈ l.set index new := by
  obtain ⟨hlt, -⟩ := List.getElem?_eq_some_iff.mp hold
  exact List.mem_set hlt new

/-- A task after the move of another is the moved one, or one of another place. -/
theorem mem_set_cases (h : task ∈ l.set index new) : task = new ∨ task ∈ l ∧ ∀ other, task ∈ l.set index other := by
  obtain ⟨i, hi⟩ := List.mem_iff_getElem?.mp h
  rw [List.getElem?_set] at hi
  by_cases hindex : index = i
  · rw [if_pos hindex] at hi
    split at hi
    · exact .inl (Option.some.inj hi).symm
    · cases hi
  · rw [if_neg hindex] at hi
    refine .inr ⟨List.mem_of_getElem? hi, fun other => List.mem_iff_getElem?.mpr ⟨i, ?_⟩⟩
    rw [List.getElem?_set, if_neg hindex]
    exact hi

/-- A move changes the number of tasks with a property by the moved task. -/
theorem countP_set_add {p : τ → Bool} (hold : l[index]? = some old) :
    (l.set index new).countP p + (if p old = true then 1 else 0) = l.countP p + if p new = true then 1 else 0 := by
  obtain ⟨hlt, hget⟩ := List.getElem?_eq_some_iff.mp hold
  have hpos : (if p old = true then 1 else 0) ≤ l.countP p := by
    split
    · rename_i hp
      exact List.countP_pos_iff.mpr ⟨old, List.mem_of_getElem? hold, hp⟩
    · exact Nat.zero_le _
  rw [List.countP_set hlt, hget]
  omega

/-- A move that leaves a property of the task as it was leaves the number of tasks with the property. -/
theorem countP_set_eq {p : τ → Bool} (hold : l[index]? = some old) (hp : p new = p old) :
    (l.set index new).countP p = l.countP p := by
  have hcount := @countP_set_add _ l index old new p hold
  rw [hp] at hcount
  omega

end Tasks

/-!
## Steps in any order

Items are worked through one after the other. Two items that change places lead to states that count as the same;
then all orders do.
-/

namespace Commuting

variable {σ α : Type} {step : σ → α → σ} {same : σ → σ → Prop} {ready : σ → List α → Prop}

/-- `ready` says of a state and the items to come that each two of them may change places. -/
structure Interchange (step : σ → α → σ) (same : σ → σ → Prop) (ready : σ → List α → Prop) : Prop where
  refl : ∀ state, same state state
  trans : ∀ {first second third}, same first second → same second third → same first third
  congr : ∀ {first second} item, same first second → same (step first item) (step second item)
  perm : ∀ {state items others}, items.Perm others → ready state items → ready state others
  tail : ∀ {state item items}, ready state (item :: items) → ready (step state item) items
  swap : ∀ {state item next items}, ready state (item :: next :: items) →
    same (step (step state item) next) (step (step state next) item)

namespace Interchange

theorem foldl_congr (h : Interchange step same ready) {first second : σ} (hsame : same first second) (items : List α) :
    same (items.foldl step first) (items.foldl step second) := by
  induction items generalizing first second with
  | nil => exact hsame
  | cons item items ih => exact ih (h.congr item hsame)

theorem foldl_perm (h : Interchange step same ready) {items others : List α} (hperm : items.Perm others) :
    ∀ {state}, ready state items → same (items.foldl step state) (others.foldl step state) := by
  induction hperm with
  | nil => exact fun _ => h.refl _
  | cons item _ ih => exact fun hready => ih (h.tail hready)
  | swap item next items => exact fun hready => h.foldl_congr (h.swap hready) items
  | trans first _ ih ih' => exact fun hready => h.trans (ih hready) (ih' (h.perm first hready))

end Interchange

end Commuting

/-!
## Computations that may fail

What a successful `Except` computation says of its steps, and an addition that does not overflow.
-/

namespace Fallible

/-- The result of a function that may panic; `none` is the panic. -/
abbrev MayPanic (α : Type) := Option α

/-- `usize::MAX`, and `u64::MAX`. -/
def usizeMax : Nat := 2 ^ 64 - 1

/-- `saturating_add` of these types. -/
def saturatingAdd (a b : Nat) : Nat := min (a + b) (2 ^ 64 - 1)

theorem saturatingAdd_eq (a b : Nat) : saturatingAdd a b = min (a + b) usizeMax := rfl

variable {ε α β : Type}

theorem bind_eq_ok {x : Except ε α} {f : α → Except ε β} {b : β} (h : x >>= f = .ok b) :
    ∃ a, x = .ok a ∧ f a = .ok b := by
  cases x with
  | ok a => exact ⟨a, rfl, h⟩
  | error err => cases h

theorem bind_ok {x : Except ε α} {f : α → Except ε β} {a : α} {b : β} (hx : x = .ok a) (hf : f a = .ok b) :
    x >>= f = .ok b := by
  rw [hx]
  exact hf

theorem ok_bind (a : α) (f : α → Except ε β) : (Except.ok a >>= f) = f a := rfl

theorem error_bind (err : ε) (f : α → Except ε β) : (Except.error err >>= f) = .error err := rfl

theorem guard_eq_ok {p : Prop} [Decidable p] {err : ε} {x : Except ε α} {a : α}
    (h : (if p then .error err else x) = .ok a) : ¬ p ∧ x = .ok a := by
  by_cases hp : p
  · rw [if_pos hp] at h
    cases h
  · rw [if_neg hp] at h
    exact ⟨hp, h⟩

end Fallible
