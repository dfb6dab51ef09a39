import Codrex.Readiness.Flag
import Mathlib.Data.List.FinRange

/-!
# The invariant of the readiness flag
-/

namespace Codrex.Readiness

/-! ## Tokens -/

theorem nextToken_eq_some {tokens : List Token} {fuel : Nat} {id token next : Token}
    (h : nextToken tokens fuel id = some (token, next)) : token ≠ 0 ∧ token ∉ tokens := by
  induction fuel generalizing id with
  | zero => cases h
  | succ fuel ih =>
      rw [nextToken] at h
      split at h
      · rename_i hfree
        obtain ⟨rfl, -⟩ := Prod.mk.inj (Option.some.inj h)
        exact hfree
      · exact ih h

theorem nextToken_eq_none {tokens : List Token} {fuel : Nat} {id : Token} (h : nextToken tokens fuel id = none) :
    ∀ k < fuel, id + BitVec.ofNat 32 k ∈ 0 :: tokens := by
  induction fuel generalizing id with
  | zero => simp
  | succ fuel ih =>
      rw [nextToken] at h
      split at h
      · cases h
      · rename_i hfree
        intro k hk
        cases k with
        | zero =>
            have : id = 0 ∨ id ∈ tokens := by
              by_contra hnot
              exact hfree ⟨fun h0 => hnot (.inl h0), fun hmem => hnot (.inr hmem)⟩
            simpa using this
        | succ k =>
            have hrest := ih h k (by omega)
            have hsum : id + 1 + BitVec.ofNat 32 k = id + BitVec.ofNat 32 (k + 1) := by
              rw [BitVec.add_assoc, Nat.add_comm k 1, BitVec.ofNat_add]
              rfl
            rwa [hsum] at hrest

/-- While a number is free, the loop of `subscribe` finds one. -/
theorem nextToken_isSome {tokens : List Token} (hlen : tokens.length < 2 ^ 32 - 1) (id : Token) :
    (nextToken tokens (2 ^ 32) id).isSome := by
  rw [Option.isSome_iff_ne_none]
  intro hnone
  have hall : ∀ token : Token, token ∈ 0 :: tokens := by
    intro token
    have hmem := nextToken_eq_none hnone (token - id).toNat (token - id).isLt
    rwa [BitVec.ofNat_toNat, BitVec.setWidth_eq, BitVec.add_comm, BitVec.sub_add_cancel] at hmem
  have hcard : 2 ^ 32 ≤ (0 :: tokens).length := by
    have hsub : (List.ofFn (BitVec.ofFin : Fin (2 ^ 32) → Token)) ⊆ 0 :: tokens := fun token _ => hall token
    have hnodup : (List.ofFn (BitVec.ofFin : Fin (2 ^ 32) → Token)).Nodup :=
      List.nodup_ofFn.mpr fun i j h => by simpa using h
    have hle := (List.subperm_of_subset hnodup hsub).length_le
    rwa [List.length_ofFn] at hle
  rw [List.length_cons] at hcard
  omega

/-! ## What a move does -/

/-- The token of a call of `mark_ready` that made the flag ready. -/
def Call.marking : Call → Option Token
  | markReady token .sending => some token
  | markReady token (.returned (.ok true)) => some token
  | _ => none

/-- A waiter that saw the flag not ready. -/
def Call.awaits : Call → Bool
  | waitReady .subscribing => true
  | waitReady .borrowing => true
  | waitReady .parked => true
  | _ => false

/-- All that a move can do to the flag and to the call. -/
inductive Effect (receivers : Nat) (flag : ReadinessFlag) (old : Call) : ReadinessFlag → Call → Prop
  | quiet {new : Call} (hsends : old.sends = false ∧ new.sends = false) (hmarking : new.marking = old.marking)
      (hawaits : new.awaits = true → old.awaits = true ∨ flag.ready = false) : Effect receivers flag old flag new
  | opened {new : Call} (hready : flag.ready = false) (htokens : flag.tokens = []) (hsends : new.sends = true)
      (hmarking : old.marking = none ∧ new.marking = none) (hawaits : new.awaits = false) :
      Effect receivers flag old { flag with ready := true } new
  | marked {token : Token} (hold : old = .markReady token .locking) (htoken : token ∈ flag.tokens) :
      Effect receivers flag old { flag with ready := true, tokens := [] } (.markReady token .sending)
  | sent {new : Call} (hold : old.sends = true) (hsends : new.sends = false) (hmarking : new.marking = old.marking)
      (hawaits : new.awaits = false) : Effect receivers flag old (flag.send receivers) new
  | subscribed {token next : Token} (hold : old = .subscribe .locking) (hready : flag.ready = false)
      (hzero : token ≠ 0) (hfresh : token ∉ flag.tokens) :
      Effect receivers flag old { flag with nextId := next, tokens := token :: flag.tokens }
        (.subscribe (.returned (.ok token)))

/-- What a move of `is_ready` does, for its own call and for one inside of `wait_ready`. -/
theorem moveIsReady_cases (flag : ReadinessFlag) (receivers : Nat) (lockFails : Bool) (call : IsReady) :
    (call = .sending ∧ moveIsReady flag receivers lockFails call = (flag.send receivers, .returned true)) ∨
      (flag.ready = false ∧ flag.tokens = [] ∧
        moveIsReady flag receivers lockFails call = ({ flag with ready := true }, .sending)) ∨
      (call ≠ .sending ∧ ∃ next, moveIsReady flag receivers lockFails call = (flag, next) ∧ next ≠ .sending ∧
        ∀ ready, next = .returned ready → call = .returned ready ∨ ready = flag.ready) := by
  cases call with
  | loading =>
      refine .inr (.inr ⟨nofun, _, rfl, ?_⟩)
      cases hready : flag.ready with
      | false => exact ⟨nofun, nofun⟩
      | true => exact ⟨nofun, fun ready h => .inr (IsReady.returned.inj h).symm⟩
  | tryLocking =>
      by_cases hfree : ¬ lockFails = true ∧ flag.tokens = []
      · have hmove : moveIsReady flag receivers lockFails .tryLocking =
            ({ flag with ready := true }, if flag.ready then .returned true else .sending) := if_pos hfree
        cases hready : flag.ready with
        | false =>
            rw [hready] at hmove
            exact .inr (.inl ⟨rfl, hfree.2, hmove⟩)
        | true =>
            rw [hready] at hmove
            have hsame : { flag with ready := true } = flag := by rw [← hready]
            rw [hsame] at hmove
            exact .inr (.inr ⟨nofun, _, hmove, nofun, fun ready h => .inr (IsReady.returned.inj h).symm⟩)
      · exact .inr (.inr ⟨nofun, _, if_neg hfree, nofun, nofun⟩)
  | sending => exact .inl ⟨rfl, rfl⟩
  | reloading => exact .inr (.inr ⟨nofun, _, rfl, nofun, fun ready h => .inr (IsReady.returned.inj h).symm⟩)
  | returned ready =>
      exact .inr (.inr ⟨nofun, _, rfl, nofun, fun ready' h => .inl (congrArg _ (IsReady.returned.inj h))⟩)

theorem move_effect (state : State) (lockFails : Bool) {call : Call}
    (hchecking : ∀ ready, call ≠ .waitReady (.checking (.returned ready))) :
    Effect state.receivers state.shared call (move state lockFails call).shared (move state lockFails call).task := by
  cases call with
  | isReady call =>
      rcases moveIsReady_cases state.shared state.receivers lockFails call with
        ⟨rfl, hmove⟩ | ⟨hready, htokens, hmove⟩ | ⟨hcall, next, hmove, hnext, -⟩
      · simp only [move, hmove]
        exact .sent rfl rfl rfl rfl
      · simp only [move, hmove]
        exact .opened hready htokens rfl ⟨rfl, rfl⟩ rfl
      · simp only [move, hmove]
        refine .quiet ⟨?_, ?_⟩ rfl nofun
        · cases call <;> first | rfl | exact absurd rfl hcall
        · cases next <;> first | rfl | exact absurd rfl hnext
  | subscribe call =>
      cases call with
      | loading =>
          refine .quiet ⟨rfl, ?_⟩ ?_ nofun
          · rfl
          · rfl
      | locking =>
          simp only [move, moveSubscribe]
          split
          · exact .quiet ⟨rfl, rfl⟩ rfl nofun
          split
          · exact .quiet ⟨rfl, rfl⟩ rfl nofun
          · rename_i hready
            split
            · rename_i token next hnext
              obtain ⟨hzero, hfresh⟩ := nextToken_eq_some hnext
              exact .subscribed rfl (Bool.eq_false_iff.mpr hready) hzero hfresh
            · exact .quiet ⟨rfl, rfl⟩ rfl nofun
      | returned result => exact .quiet ⟨rfl, rfl⟩ rfl nofun
  | markReady token call =>
      cases call with
      | loading =>
          simp only [move, moveMarkReady]
          split
          · exact .quiet ⟨rfl, rfl⟩ rfl nofun
          · exact .quiet ⟨rfl, rfl⟩ rfl nofun
      | locking =>
          simp only [move, moveMarkReady]
          split
          · exact .quiet ⟨rfl, rfl⟩ rfl nofun
          split
          · exact .quiet ⟨rfl, rfl⟩ rfl nofun
          · rename_i htoken
            exact .marked rfl (not_not.mp htoken)
      | sending => exact .sent rfl rfl rfl rfl
      | returned result => exact .quiet ⟨rfl, rfl⟩ rfl nofun
  | waitReady call =>
      cases call with
      | checking call =>
          rcases moveIsReady_cases state.shared state.receivers lockFails call with
            ⟨rfl, hmove⟩ | ⟨hready, htokens, hmove⟩ | ⟨hcall, next, hmove, hnext, hreturned⟩
          · simp only [move, moveWaitReady, hmove]
            exact .sent rfl rfl rfl rfl
          · simp only [move, moveWaitReady, hmove]
            exact .opened hready htokens rfl ⟨rfl, rfl⟩ rfl
          · have hold : (Call.waitReady (.checking call)).sends = false := by
              cases call <;> first | rfl | exact absurd rfl hcall
            simp only [move, moveWaitReady, hmove]
            cases next with
            | sending => exact absurd rfl hnext
            | returned ready =>
                cases ready with
                | true => exact .quiet ⟨hold, rfl⟩ rfl nofun
                | false =>
                    -- The waiter goes on only after it saw the flag not ready.
                    rcases hreturned false rfl with rfl | hready
                    · exact absurd rfl (hchecking false)
                    · exact .quiet ⟨hold, rfl⟩ rfl fun _ => .inr hready.symm
            | loading => exact .quiet ⟨hold, rfl⟩ rfl nofun
            | tryLocking => exact .quiet ⟨hold, rfl⟩ rfl nofun
            | reloading => exact .quiet ⟨hold, rfl⟩ rfl nofun
      | subscribing => exact .quiet ⟨rfl, rfl⟩ rfl fun _ => .inl rfl
      | borrowing =>
          simp only [move, moveWaitReady]
          split
          · exact .quiet ⟨rfl, rfl⟩ rfl nofun
          · exact .quiet ⟨rfl, rfl⟩ rfl fun _ => .inl rfl
      | parked =>
          simp only [move, moveWaitReady]
          split
          · exact .quiet ⟨rfl, rfl⟩ rfl nofun
          · exact .quiet ⟨rfl, rfl⟩ rfl fun _ => .inl rfl
      | returned => exact .quiet ⟨rfl, rfl⟩ rfl nofun

theorem move_task_ne_checking (state : State) (lockFails : Bool) (call : Call) (ready : Bool) :
    (move state lockFails call).task ≠ .waitReady (.checking (.returned ready)) := by
  cases call with
  | isReady call => exact nofun
  | subscribe call => exact nofun
  | markReady token call => exact nofun
  | waitReady call =>
      simp only [move, ne_eq, Call.waitReady.injEq]
      cases call with
      | checking call =>
          simp only [moveWaitReady]
          generalize moveIsReady state.shared state.receivers lockFails call = moved
          obtain ⟨flag, next⟩ := moved
          cases next with
          | returned ready => cases ready <;> exact nofun
          | loading => exact nofun
          | tryLocking => exact nofun
          | sending => exact nofun
          | reloading => exact nofun
      | subscribing => exact nofun
      | borrowing =>
          simp only [moveWaitReady]
          split <;> exact nofun
      | parked =>
          simp only [moveWaitReady]
          split <;> exact nofun
      | returned => exact nofun

/-! ## The invariant -/

structure Inv (state : State) : Prop where
  distinct : state.shared.tokens.Nodup
  nonZero : 0 ∉ state.shared.tokens
  outstanding : ∀ token ∈ state.shared.tokens, .subscribe (.returned (.ok token)) ∈ state.tasks
  cleared : state.shared.ready = true → state.shared.tokens = []
  unsent : state.shared.ready = false → ∀ call ∈ state.tasks, call.sends = false ∧ call.marking = none
  markedOnce : state.tasks.countP (·.marking.isSome) ≤ 1
  handedOut : ∀ call ∈ state.tasks, ∀ token, call.marking = some token →
    .subscribe (.returned (.ok token)) ∈ state.tasks
  checking : ∀ ready, .waitReady (.checking (.returned ready)) ∉ state.tasks
  /-- Once the flag is ready, the waiters see it in the channel, or a send is to come, or none waits. -/
  heard : state.shared.ready = true → state.shared.watched = true ∨ (∃ call ∈ state.tasks, call.sends = true) ∨
    ∀ call ∈ state.tasks, call.awaits = false

theorem inv_new : Inv .new where
  distinct := List.nodup_nil
  nonZero := List.not_mem_nil
  outstanding := nofun
  cleared := nofun
  unsent := fun _ => nofun
  markedOnce := Nat.zero_le 1
  handedOut := nofun
  checking := fun _ => List.not_mem_nil
  heard := nofun

theorem Request.start_quiet (request : Request) :
    request.start.sends = false ∧ request.start.marking = none ∧ request.start.awaits = false ∧
      ∀ ready, request.start ≠ .waitReady (.checking (.returned ready)) := by
  cases request <;> exact ⟨rfl, rfl, rfl, nofun⟩

theorem Inv.start {state : State} (h : Inv state) (request : Request) :
    Inv { state with tasks := state.tasks ++ [request.start] } := by
  obtain ⟨hsends, hmarking, hawaits, hchecking⟩ := request.start_quiet
  have hold : ∀ {call}, call ∈ state.tasks → call ∈ state.tasks ++ [request.start] := List.mem_append_left _
  refine ⟨h.distinct, h.nonZero, fun token ht => hold (h.outstanding token ht), h.cleared, ?_, ?_, ?_, ?_, ?_⟩
  · intro hready call hcall
    rcases List.mem_append.mp hcall with hcall | hcall
    · exact h.unsent hready call hcall
    · rw [List.mem_singleton.mp hcall]
      exact ⟨hsends, hmarking⟩
  · rw [List.countP_append, List.countP_singleton, hmarking]
    exact h.markedOnce
  · intro call hcall token htoken
    rcases List.mem_append.mp hcall with hcall | hcall
    · exact hold (h.handedOut call hcall token htoken)
    · rw [List.mem_singleton.mp hcall, hmarking] at htoken
      cases htoken
  · intro ready hmem
    rcases List.mem_append.mp hmem with hmem | hmem
    · exact h.checking ready hmem
    · exact hchecking ready (List.mem_singleton.mp hmem).symm
  · intro hready
    rcases h.heard hready with hwatched | ⟨call, hcall, hcsends⟩ | hnone
    · exact .inl hwatched
    · exact .inr (.inl ⟨call, hold hcall, hcsends⟩)
    · refine .inr (.inr fun call hcall => ?_)
      rcases List.mem_append.mp hcall with hcall | hcall
      · exact hnone call hcall
      · rw [List.mem_singleton.mp hcall]
        exact hawaits

/-- A token that was handed out stays so, whichever call moves. -/
theorem mem_subscribed_set {state : State} {index : Nat} {call : Call} (lockFails : Bool) {token : Token}
    (hcall : state.tasks[index]? = some call) (h : .subscribe (.returned (.ok token)) ∈ state.tasks) :
    .subscribe (.returned (.ok token)) ∈ state.tasks.set index (move state lockFails call).task := by
  by_cases heq : .subscribe (.returned (.ok token)) = call
  · have hmove : (move state lockFails call).task = .subscribe (.returned (.ok token)) := by
      rw [← heq]
      rfl
    rw [hmove]
    exact Tasks.new_mem_set hcall
  · exact Tasks.mem_set_of_ne hcall h heq

section

variable {state : State} {index : Nat} {call new : Call} {flag : ReadinessFlag}

theorem forall_mem_set {p : Call → Prop} (hnew : p new) (hall : ∀ other ∈ state.tasks, p other) :
    ∀ other ∈ state.tasks.set index new, p other := by
  intro other hother
  rcases List.mem_or_eq_of_mem_set hother with hother | rfl
  · exact hall other hother
  · exact hnew

theorem markedOnce_set (h : Inv state) (hcall : state.tasks[index]? = some call)
    (hmarking : new.marking = call.marking) : (state.tasks.set index new).countP (·.marking.isSome) ≤ 1 := by
  rw [Tasks.countP_set_eq hcall (by rw [hmarking])]
  exact h.markedOnce

theorem awaits_false_of_receivers (hreceivers : state.receivers = 0) (hsubscribing : .waitReady .subscribing ∉ state.tasks) :
    ∀ other ∈ state.tasks, other.awaits = false := by
  intro other hother
  have hnone : other.holdsReceiver = false := by
    rw [State.receivers, List.countP_eq_zero] at hreceivers
    exact Bool.eq_false_iff.mpr (hreceivers other hother)
  cases other with
  | waitReady call =>
      cases call with
      | subscribing => exact absurd hother hsubscribing
      | borrowing => exact absurd hnone (by decide)
      | parked => exact absurd hnone (by decide)
      | checking call => rfl
      | returned => rfl
  | isReady call => rfl
  | subscribe call => rfl
  | markReady token call => rfl

theorem Inv.effect (h : Inv state) (hcall : state.tasks[index]? = some call)
    (heffect : Effect state.receivers state.shared call flag new)
    (hsubscribed : ∀ token, .subscribe (.returned (.ok token)) ∈ state.tasks →
      .subscribe (.returned (.ok token)) ∈ state.tasks.set index new)
    (hchecking : ∀ ready, new ≠ .waitReady (.checking (.returned ready)))
    (hheard : call.sends = true → state.receivers ≠ 0 ∨ .waitReady .subscribing ∉ state.tasks) :
    Inv ⟨flag, state.tasks.set index new⟩ := by
  have hmem : call ∈ state.tasks := List.mem_of_getElem? hcall
  have hset : ∀ ready, .waitReady (.checking (.returned ready)) ∉ state.tasks.set index new := by
    intro ready hother
    rcases List.mem_or_eq_of_mem_set hother with hother | heq
    · exact h.checking ready hother
    · exact hchecking ready heq.symm
  have hkept : ∀ other ∈ state.tasks, ∀ token, other.marking = some token →
      .subscribe (.returned (.ok token)) ∈ state.tasks.set index new :=
    fun other hother token htoken => hsubscribed token (h.handedOut other hother token htoken)
  have houtstanding : ∀ token ∈ state.shared.tokens,
      .subscribe (.returned (.ok token)) ∈ state.tasks.set index new :=
    fun token htoken => hsubscribed token (h.outstanding token htoken)
  cases heffect with
  | quiet hsends hmarking hawaits =>
      refine ⟨h.distinct, h.nonZero, houtstanding, h.cleared, ?_, markedOnce_set h hcall hmarking, ?_, hset, ?_⟩
      · intro hready
        have hunsent := h.unsent hready
        exact forall_mem_set ⟨hsends.2, hmarking.trans (hunsent call hmem).2⟩ hunsent
      · exact forall_mem_set (fun token htoken => hkept call hmem token (hmarking ▸ htoken)) hkept
      · intro hready
        rcases h.heard hready with hwatched | ⟨other, hother, hosends⟩ | hnone
        · exact .inl hwatched
        · refine .inr (.inl ⟨other, Tasks.mem_set_of_ne hcall hother ?_, hosends⟩)
          rintro rfl
          exact Bool.false_ne_true (hsends.1.symm.trans hosends)
        · refine .inr (.inr (forall_mem_set ?_ hnone))
          rw [← Bool.not_eq_true]
          intro hnew
          rcases hawaits hnew with hold | hready'
          · exact Bool.false_ne_true ((hnone call hmem).symm.trans hold)
          · exact Bool.false_ne_true (hready'.symm.trans hready)
  | opened hready htokens hsends hmarking hawaits =>
      refine ⟨h.distinct, h.nonZero, houtstanding, fun _ => htokens, nofun,
        markedOnce_set h hcall (hmarking.2.trans hmarking.1.symm), ?_, hset, ?_⟩
      · exact forall_mem_set (fun token htoken => absurd (hmarking.2.symm.trans htoken) nofun) hkept
      · exact fun _ => .inr (.inl ⟨new, Tasks.new_mem_set hcall, hsends⟩)
  | @marked token hold htoken =>
      have hready : state.shared.ready = false := by
        rw [← Bool.not_eq_true]
        intro hready
        rw [h.cleared hready] at htoken
        cases htoken
      refine ⟨List.nodup_nil, List.not_mem_nil, nofun, fun _ => rfl, nofun, ?_, ?_, hset, ?_⟩
      · -- No other call has marked the flag: it was not ready.
        obtain ⟨hlt, hget⟩ := List.getElem?_eq_some_iff.mp hcall
        have hzero : state.tasks.countP (·.marking.isSome) = 0 := by
          rw [List.countP_eq_zero]
          intro other hother
          rw [(h.unsent hready other hother).2]
          exact Bool.false_ne_true
        rw [List.countP_set hlt, hzero, hget, hold]
        exact Nat.le_refl 1
      · refine forall_mem_set (fun token' htoken' => ?_) hkept
        rw [← Option.some.inj htoken']
        exact houtstanding token htoken
      · exact fun _ => .inr (.inl ⟨_, Tasks.new_mem_set hcall, rfl⟩)
  | sent hold hsends hmarking hawaits =>
      have hready : state.shared.ready = true := by
        rw [← Bool.not_eq_false]
        intro hready
        exact Bool.false_ne_true ((h.unsent hready call hmem).1.symm.trans hold)
      have hflag : (state.shared.send state.receivers).tokens = state.shared.tokens ∧
          (state.shared.send state.receivers).ready = state.shared.ready := by
        rw [ReadinessFlag.send]
        split <;> exact ⟨rfl, rfl⟩
      refine ⟨?_, ?_, ?_, ?_, ?_, markedOnce_set h hcall hmarking, ?_, hset, ?_⟩
      · exact hflag.1 ▸ h.distinct
      · exact hflag.1 ▸ h.nonZero
      · exact hflag.1 ▸ houtstanding
      · exact fun _ => hflag.1.trans (h.cleared hready)
      · exact fun hready' => absurd (hflag.2.symm.trans hready') (by rw [hready]; exact nofun)
      · exact forall_mem_set (fun token htoken => hkept call hmem token (hmarking ▸ htoken)) hkept
      · intro _
        by_cases hreceivers : state.receivers = 0
        · have hnone := awaits_false_of_receivers hreceivers ((hheard hold).resolve_left (not_not.mpr hreceivers))
          exact .inr (.inr (forall_mem_set hawaits hnone))
        · refine .inl ?_
          rw [ReadinessFlag.send, if_neg hreceivers]
  | @subscribed token next hold hready hzero hfresh =>
      refine ⟨List.nodup_cons.mpr ⟨hfresh, h.distinct⟩, ?_, ?_, ?_, ?_, ?_, ?_, hset, ?_⟩
      · intro hmem0
        rcases List.mem_cons.mp hmem0 with heq | hmem0
        · exact hzero heq.symm
        · exact h.nonZero hmem0
      · intro token' htoken'
        rcases List.mem_cons.mp htoken' with rfl | htoken'
        · exact Tasks.new_mem_set hcall
        · exact houtstanding token' htoken'
      · exact fun hready' => absurd (hready.symm.trans hready') Bool.false_ne_true
      · exact fun _ => forall_mem_set ⟨rfl, rfl⟩ (h.unsent hready)
      · exact markedOnce_set h hcall (by rw [hold]; rfl)
      · exact forall_mem_set nofun hkept
      · exact fun hready' => absurd (hready.symm.trans hready') Bool.false_ne_true

theorem Inv.step_call (h : Inv state) (lockFails : Bool) (hcall : state.tasks[index]? = some call)
    (hheard : call.sends = true → state.receivers ≠ 0 ∨ .waitReady .subscribing ∉ state.tasks) :
    Inv ⟨(move state lockFails call).shared, state.tasks.set index (move state lockFails call).task⟩ := by
  have hcheck : ∀ ready, call ≠ .waitReady (.checking (.returned ready)) := by
    rintro ready rfl
    exact h.checking ready (List.mem_of_getElem? hcall)
  exact h.effect hcall (move_effect state lockFails hcheck) (fun _ => mem_subscribed_set lockFails hcall)
    (move_task_ne_checking state lockFails call) hheard

theorem move_spawned (state : State) (lockFails : Bool) (call : Call) : (move state lockFails call).spawned = [] := by
  cases call <;> rfl

theorem Inv.step {action : Action} (h : Inv state) (hguard : SendsHeard state action) : Inv (step state action) := by
  refine Tasks.step_keeps Inv h (fun request _ => h.start request) ?_
  rintro index lockFails call rfl hcall
  rw [move_spawned, List.append_nil]
  exact h.step_call lockFails hcall (hguard call hcall)

end

end Codrex.Readiness

/-!
## Results for the readiness flag
-/

namespace Codrex.Readiness

open Transition

theorem send_ready (flag : ReadinessFlag) (receivers : Nat) : (flag.send receivers).ready = flag.ready := by
  rw [ReadinessFlag.send]
  split <;> rfl

theorem moveIsReady_ready {flag : ReadinessFlag} (receivers : Nat) (lockFails : Bool) (call : IsReady)
    (h : flag.ready = true) : (moveIsReady flag receivers lockFails call).1.ready = true := by
  rcases moveIsReady_cases flag receivers lockFails call with ⟨-, hmove⟩ | ⟨-, -, hmove⟩ | ⟨-, next, hmove, -⟩
  · rw [hmove, send_ready]
    exact h
  · rw [hmove]
  · rw [hmove]
    exact h

theorem move_ready {state : State} (lockFails : Bool) (call : Call) (h : state.shared.ready = true) :
    (move state lockFails call).shared.ready = true := by
  cases call with
  | isReady call => exact moveIsReady_ready state.receivers lockFails call h
  | subscribe call =>
      cases call with
      | loading => exact h
      | locking =>
          simp only [move, moveSubscribe, h, if_true]
          split <;> exact h
      | returned result => exact h
  | markReady token call =>
      cases call with
      | loading => exact h
      | locking =>
          simp only [move, moveMarkReady]
          split
          · exact h
          split
          · exact h
          · rfl
      | sending => exact (send_ready _ _).trans h
      | returned result => exact h
  | waitReady call =>
      cases call with
      | checking call =>
          have hready := moveIsReady_ready state.receivers lockFails call h
          simp only [move, moveWaitReady]
          generalize moveIsReady state.shared state.receivers lockFails call = moved at hready ⊢
          obtain ⟨flag, next⟩ := moved
          cases next with
          | returned ready => cases ready <;> exact hready
          | loading => exact hready
          | tryLocking => exact hready
          | sending => exact hready
          | reloading => exact hready
      | subscribing => exact h
      | borrowing => exact h
      | parked => exact h
      | returned => exact h

theorem step_ready {state : State} {action : Action} (h : state.shared.ready = true) :
    (step state action).shared.ready = true := by
  refine Tasks.step_keeps (fun state : State => state.shared.ready = true) h (fun _ _ => h) ?_
  intro index lockFails call _ _
  exact move_ready lockFails call h

theorem not_settled_of_sends {call : Call} (h : call.sends = true) : call.settled = false := by
  cases call with
  | isReady call => cases call <;> first | rfl | cases h
  | subscribe call => cases h
  | markReady token call => cases call <;> first | rfl | cases h
  | waitReady call => cases call <;> first | rfl | cases h

theorem marking_of_marked {call : Call} (h : call.marked = true) : call.marking.isSome = true := by
  cases call with
  | isReady call => cases h
  | subscribe call => cases h
  | markReady token call =>
      cases call with
      | returned result => cases result with
        | error err => cases h
        | ok marked => cases marked <;> first | rfl | cases h
      | loading => cases h
      | locking => cases h
      | sending => rfl
  | waitReady call => cases h

theorem Inv.sound {state : State} (h : Inv state) : Sound state where
  noLostWakeUp := by
    intro hlost
    obtain ⟨hready, hsettled, hparked, hwatched⟩ := hlost
    rcases h.heard hready with hheard | ⟨call, hcall, hsends⟩ | hnone
    · exact Bool.false_ne_true (hwatched.symm.trans hheard)
    · exact Bool.false_ne_true ((not_settled_of_sends hsends).symm.trans (hsettled call hcall))
    · exact absurd (hnone _ hparked) (by decide)
  markedOnce := by
    refine Nat.le_trans (List.countP_mono_left ?_) h.markedOnce
    exact fun call _ hmarked => marking_of_marked hmarked
  handedOut := fun token htoken => h.handedOut _ htoken token rfl
  distinct := h.distinct
  nonZero := h.nonZero
  subscribes := fun hlen => nextToken_isSome hlen _

/-- If in a run every send finds a live receiver, or no waiter between its look at the flag and its
subscription, then no state reached has a lost wake-up; the flag stays ready, one call at most marks it, with a
token that was handed out, and the tokens outstanding are distinct and not zero. -/
theorem readiness_sound {actions : List Action} (h : Guarded step SendsHeard .new actions) :
    Sound (run step .new actions) ∧
      ∀ more, (run step .new actions).shared.ready = true →
        (run step .new (actions ++ more)).shared.ready = true := by
  refine ⟨(h.invariant (fun _ _ hguard hinv => hinv.step hguard) inv_new).sound, ?_⟩
  intro more hready
  have hkeep : ∀ state action, (fun state : State => state.shared.ready = true) state →
      (fun state : State => state.shared.ready = true) (step state action) := fun _ _ => step_ready
  rw [run, List.foldl_append]
  exact invariant hkeep hready more

/-- A waiter subscribes, then the flag is marked ready. -/
def heardRun : List Action :=
  [.start .subscribe, .move 0 false, .move 0 false, .start .waitReady, .move 1 false, .move 1 false, .move 1 false,
    .move 1 false, .move 1 false, .start (.markReady 1), .move 2 false, .move 2 false, .move 2 false, .move 1 false]

theorem heardRun_sound :
    Sound (run step .new heardRun) ∧
      ∀ more, (run step .new heardRun).shared.ready = true →
        (run step .new (heardRun ++ more)).shared.ready = true := by
  apply readiness_sound
  refine ⟨trivial, ?_, ?_, trivial, ?_, ?_, ?_, ?_, ?_, trivial, ?_, ?_, ?_, ?_, trivial⟩
  all_goals
    rintro call ⟨⟩
    decide

/-- The flag is marked between the waiter's look at it and the waiter's subscription. -/
def lostRun : List Action :=
  [.start .subscribe, .move 0 false, .move 0 false, .start .waitReady, .move 1 false, .move 1 false, .move 1 false,
    .start (.markReady 1), .move 2 false, .move 2 false, .move 2 false, .move 1 false, .move 1 false]

theorem lostRun_lostWakeUp : LostWakeUp (run step .new lostRun) := by
  unfold LostWakeUp
  decide

end Codrex.Readiness
