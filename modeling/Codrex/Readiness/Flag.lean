import Codrex.Lib.Transition

/-!
# The readiness flag

`utils/readiness/src/lib.rs`. A call is a task; each load or store of an atomic, each section under the token
lock, each send and each subscription of the watch channel is one of its moves.
-/

namespace Codrex.Readiness

/-- `Token(i32)`; the number 0 is reserved. -/
abbrev Token := BitVec 32

inductive ReadinessError
  | tokenLockFailed
  | flagAlreadyReady
  deriving DecidableEq

/-- The flag, and the value in its watch channel. -/
structure ReadinessFlag where
  ready : Bool
  nextId : Token
  tokens : List Token
  watched : Bool
  deriving DecidableEq

def ReadinessFlag.new : ReadinessFlag := ⟨false, 1, [], false⟩

/-- `watch::Sender::send(true)`: without a live receiver the value stays. -/
def ReadinessFlag.send (flag : ReadinessFlag) (receivers : Nat) : ReadinessFlag :=
  if receivers = 0 then flag else { flag with watched := true }

/-- The loop of `subscribe`: the first number from `id` on that is neither 0 nor taken, and the number behind it.
The numbers wrap around, so after `2 ^ 32` of them the loop has seen all. -/
def nextToken (tokens : List Token) : Nat → Token → Option (Token × Token)
  | 0, _ => none
  | fuel + 1, id => if id ≠ 0 ∧ id ∉ tokens then some (id, id + 1) else nextToken tokens fuel (id + 1)

/-! ## Calls -/

/-- Where a call of `is_ready` stands. -/
inductive IsReady
  | loading
  | tryLocking
  | sending
  | reloading
  | returned (ready : Bool)
  deriving DecidableEq

inductive Subscribe
  | loading
  | locking
  | returned (result : Except ReadinessError Token)
  deriving DecidableEq

inductive MarkReady
  | loading
  | locking
  | sending
  | returned (result : Except ReadinessError Bool)
  deriving DecidableEq

/-- A call of `wait_ready`: its call of `is_ready`, then the subscription, the borrow of the value, and the wait in
`changed`. -/
inductive WaitReady
  | checking (call : IsReady)
  | subscribing
  | borrowing
  | parked
  | returned
  deriving DecidableEq

inductive Call
  | isReady (phase : IsReady)
  | subscribe (phase : Subscribe)
  | markReady (token : Token) (phase : MarkReady)
  | waitReady (phase : WaitReady)
  deriving DecidableEq

/-- Which function is called. -/
inductive Request
  | isReady
  | subscribe
  | markReady (token : Token)
  | waitReady
  deriving DecidableEq

def Request.start : Request → Call
  | isReady => .isReady .loading
  | subscribe => .subscribe .loading
  | markReady token => .markReady token .loading
  | waitReady => .waitReady (.checking .loading)

/-- The receiver of a waiting call is live from its subscription on. -/
def Call.holdsReceiver : Call → Bool
  | waitReady .borrowing => true
  | waitReady .parked => true
  | _ => false

/-! ## Moves -/

/-- A move of `is_ready`. The lock is not taken if another task holds it. -/
def moveIsReady (flag : ReadinessFlag) (receivers : Nat) (lockFails : Bool) : IsReady → ReadinessFlag × IsReady
  | .loading => (flag, if flag.ready then .returned true else .tryLocking)
  | .tryLocking =>
      if ¬ lockFails ∧ flag.tokens = [] then
        ({ flag with ready := true }, if flag.ready then .returned true else .sending)
      else (flag, .reloading)
  | .sending => (flag.send receivers, .returned true)
  | .reloading => (flag, .returned flag.ready)
  | .returned ready => (flag, .returned ready)

/-- A move of `subscribe`. The lock may time out. -/
def moveSubscribe (flag : ReadinessFlag) (lockFails : Bool) : Subscribe → ReadinessFlag × Subscribe
  | .loading => (flag, if flag.ready then .returned (.error .flagAlreadyReady) else .locking)
  | .locking =>
      if lockFails then (flag, .returned (.error .tokenLockFailed))
      else if flag.ready then (flag, .returned (.error .flagAlreadyReady))
      else
        match nextToken flag.tokens (2 ^ 32) flag.nextId with
        | some (token, nextId) =>
            ({ flag with nextId := nextId, tokens := token :: flag.tokens }, .returned (.ok token))
        -- All numbers are taken: the loop goes on for ever.
        | none => (flag, .locking)
  | .returned result => (flag, .returned result)

def moveMarkReady (flag : ReadinessFlag) (receivers : Nat) (lockFails : Bool) (token : Token) :
    MarkReady → ReadinessFlag × MarkReady
  | .loading => (flag, if flag.ready ∨ token = 0 then .returned (.ok false) else .locking)
  | .locking =>
      if lockFails then (flag, .returned (.error .tokenLockFailed))
      else if token ∉ flag.tokens then (flag, .returned (.ok false))
      else ({ flag with ready := true, tokens := [] }, .sending)
  | .sending => (flag.send receivers, .returned (.ok true))
  | .returned result => (flag, .returned result)

def moveWaitReady (flag : ReadinessFlag) (receivers : Nat) (lockFails : Bool) :
    WaitReady → ReadinessFlag × WaitReady
  | .checking call =>
      match moveIsReady flag receivers lockFails call with
      | (flag, .returned true) => (flag, .returned)
      | (flag, .returned false) => (flag, .subscribing)
      | (flag, call) => (flag, .checking call)
  | .subscribing => (flag, .borrowing)
  | .borrowing => (flag, if flag.watched then .returned else .parked)
  | .parked => (flag, if flag.watched then .returned else .parked)
  | .returned => (flag, .returned)

abbrev State := Tasks.System ReadinessFlag Call

def State.receivers (state : State) : Nat := state.tasks.countP Call.holdsReceiver

/-- A move of a call; the choice says whether the lock fails. -/
def move (state : State) (lockFails : Bool) : Call → Tasks.Moved ReadinessFlag Call
  | .isReady call =>
      let (flag, call) := moveIsReady state.shared state.receivers lockFails call
      ⟨flag, .isReady call, []⟩
  | .subscribe call =>
      let (flag, call) := moveSubscribe state.shared lockFails call
      ⟨flag, .subscribe call, []⟩
  | .markReady token call =>
      let (flag, call) := moveMarkReady state.shared state.receivers lockFails token call
      ⟨flag, .markReady token call, []⟩
  | .waitReady call =>
      let (flag, call) := moveWaitReady state.shared state.receivers lockFails call
      ⟨flag, .waitReady call, []⟩

abbrev Action := Tasks.Action Request Bool

def step : State → Action → State := Tasks.step Request.start move

def State.new : State := ⟨.new, []⟩

end Codrex.Readiness

/-!
## What the readiness flag is for
-/

namespace Codrex.Readiness

/-- A call stands before its send. -/
def Call.sends : Call → Bool
  | isReady .sending => true
  | markReady _ .sending => true
  | waitReady (.checking .sending) => true
  | _ => false

/-- No call of `mark_ready` or `is_ready`, not even one made by `wait_ready`, is under way. -/
def Call.settled : Call → Bool
  | isReady (.returned _) => true
  | isReady _ => false
  | markReady _ (.returned _) => true
  | markReady _ _ => false
  | waitReady (.checking _) => false
  | waitReady _ => true
  | subscribe _ => true

def Call.marked : Call → Bool
  | markReady _ (.returned (.ok true)) => true
  | _ => false

/-- A waiter is parked although the flag is ready, and no one is left to wake it. -/
def LostWakeUp (state : State) : Prop :=
  state.shared.ready = true ∧ (∀ call ∈ state.tasks, call.settled = true) ∧
    .waitReady .parked ∈ state.tasks ∧ state.shared.watched = false

structure Sound (state : State) : Prop where
  noLostWakeUp : ¬ LostWakeUp state
  markedOnce : state.tasks.countP Call.marked ≤ 1
  handedOut : ∀ token, .markReady token (.returned (.ok true)) ∈ state.tasks →
    .subscribe (.returned (.ok token)) ∈ state.tasks
  distinct : state.shared.tokens.Nodup
  nonZero : 0 ∉ state.shared.tokens
  /-- With less than `2 ^ 32 - 1` tokens outstanding a subscription gets one. -/
  subscribes : state.shared.tokens.length < 2 ^ 32 - 1 →
    (nextToken state.shared.tokens (2 ^ 32) state.shared.nextId).isSome

/-- A send finds a live receiver, or no waiter that saw the flag not ready has still to subscribe. -/
def SendsHeard (state : State) : Action → Prop
  | .start _ => True
  | .move index _ =>
      ∀ call, state.tasks[index]? = some call → call.sends = true →
        state.receivers ≠ 0 ∨ .waitReady .subscribing ∉ state.tasks

end Codrex.Readiness
