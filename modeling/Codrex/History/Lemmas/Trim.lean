import Codrex.History.Lemmas.Normalize

/-!
# What trimming takes away
-/

namespace Codrex.History

open Text

/-! ## The counterpart -/

theorem perm_cons_eraseP {α : Type} {p : α → Bool} {l : List α} (h : ∃ x ∈ l, p x = true) :
    ∃ x, p x = true ∧ l.Perm (x :: l.eraseP p) := by
  obtain ⟨x, hx, hp⟩ := h
  obtain ⟨found, before, after, -, hfound, hl, herase⟩ := List.exists_of_eraseP hx hp
  refine ⟨found, hfound, ?_⟩
  rw [herase, hl]
  exact List.perm_middle

theorem callKey_of_outputKey {item : ResponseItem} {key : OutputKind × Str} (h : item.outputKey = some key) :
    item.callKey = none := by
  cases hcall : item.callKey with
  | none => rfl
  | some other =>
      rw [outputKey_of_callKey hcall] at h
      cases h

theorem pairKey_eq_none {item : ResponseItem} (h : item.pairKey = none) : item.callKey = none ∧ item.outputKey = none :=
  Option.or_eq_none_iff.mp h

theorem pairKey_eq_some {item : ResponseItem} {key : OutputKind × Str} (h : item.pairKey = some key) :
    item.callKey = some key ∨ item.outputKey = some key := by
  rcases Option.or_eq_some_iff.mp h with hcall | ⟨-, houtput⟩
  · exact .inl hcall
  · exact .inr houtput

theorem isCustomToolCallFor_iff (callId : Str) (item : ResponseItem) :
    isCustomToolCallFor callId item = true ↔ item.callKey = some (.custom, callId) := by
  cases item with
  | localShellCall id existing => cases existing <;> simp [isCustomToolCallFor, ResponseItem.callKey]
  | toolSearchCall id existing status execution arguments =>
      cases existing <;> simp [isCustomToolCallFor, ResponseItem.callKey]
  | _ => simp [isCustomToolCallFor, ResponseItem.callKey]

theorem isToolSearchCallFor_iff (callId : Str) (item : ResponseItem) :
    isToolSearchCallFor callId item = true ↔ item.callKey = some (.toolSearch, callId) := by
  cases item with
  | localShellCall id existing => cases existing <;> simp [isToolSearchCallFor, ResponseItem.callKey]
  | toolSearchCall id existing status execution arguments =>
      cases existing <;> simp [isToolSearchCallFor, ResponseItem.callKey]
  | _ => simp [isToolSearchCallFor, ResponseItem.callKey]

/-- The output of a function may be wanted by a function call or by a local shell call. -/
theorem callKey_function_iff (callId : Str) (item : ResponseItem) :
    item.callKey = some (.function, callId) ↔
      isFunctionCallFor callId item = true ∨ isLocalShellCallFor callId item = true := by
  cases item with
  | localShellCall id existing =>
      cases existing <;> simp [isFunctionCallFor, isLocalShellCallFor, ResponseItem.callKey]
  | toolSearchCall id existing status execution arguments =>
      cases existing <;> simp [isFunctionCallFor, isLocalShellCallFor, ResponseItem.callKey]
  | _ => simp [isFunctionCallFor, isLocalShellCallFor, ResponseItem.callKey]

section Removed

variable {items : List ResponseItem} {removed : ResponseItem} {key : OutputKind × Str}

theorem removeCorrespondingFor_plain (items : List ResponseItem) (h : removed.pairKey = none) :
    removeCorrespondingFor items removed = items := by
  obtain ⟨hcall, houtput⟩ := pairKey_eq_none h
  cases removed with
  | functionCall id name space arguments callId => cases hcall
  | customToolCall id status callId name input => cases hcall
  | functionCallOutput callId output => cases houtput
  | customToolCallOutput callId name output => cases houtput
  | localShellCall id callId =>
      cases callId with
      | none => rfl
      | some callId => cases hcall
  | toolSearchCall id callId status execution arguments =>
      cases callId with
      | none => rfl
      | some callId => cases hcall
  | toolSearchOutput callId status execution tools =>
      cases callId with
      | none => rfl
      | some callId => cases houtput
  | _ => rfl

/-- With a call goes an output. -/
theorem removeCorrespondingFor_call (hcall : removed.callKey = some key)
    (h : ∃ output ∈ items, output.outputKey = some key) :
    ∃ output, output.outputKey = some key ∧ items.Perm (output :: removeCorrespondingFor items removed) := by
  cases removed with
  | functionCall id name space arguments callId =>
      obtain rfl := Option.some.inj hcall
      simp only [← isFunctionCallOutputFor_iff] at h ⊢
      exact perm_cons_eraseP h
  | customToolCall id status callId name input =>
      obtain rfl := Option.some.inj hcall
      simp only [← isCustomToolCallOutputFor_iff] at h ⊢
      exact perm_cons_eraseP h
  | localShellCall id callId =>
      cases callId with
      | none => cases hcall
      | some callId =>
          obtain rfl := Option.some.inj hcall
          simp only [← isFunctionCallOutputFor_iff] at h ⊢
          exact perm_cons_eraseP h
  | toolSearchCall id callId status execution arguments =>
      cases callId with
      | none => cases hcall
      | some callId =>
          obtain rfl := Option.some.inj hcall
          simp only [← isToolSearchOutputFor_iff] at h ⊢
          exact perm_cons_eraseP h
  | _ => cases hcall

/-- With an output goes a call. -/
theorem removeCorrespondingFor_output (houtput : removed.outputKey = some key)
    (h : ∃ call ∈ items, call.callKey = some key) :
    ∃ call, call.callKey = some key ∧ items.Perm (call :: removeCorrespondingFor items removed) := by
  cases removed with
  | functionCallOutput callId output =>
      obtain rfl := Option.some.inj houtput
      simp only [callKey_function_iff] at h ⊢
      by_cases hany : items.any (isFunctionCallFor callId) = true
      · obtain ⟨call, hcall, hperm⟩ := perm_cons_eraseP (List.any_eq_true.mp hany)
        rw [removeCorrespondingFor, if_pos hany]
        exact ⟨call, .inl hcall, hperm⟩
      · have hshell : ∃ call ∈ items, isLocalShellCallFor callId call = true := by
          obtain ⟨call, hmem, hfunction | hshell⟩ := h
          · exact absurd (List.any_eq_true.mpr ⟨call, hmem, hfunction⟩) hany
          · exact ⟨call, hmem, hshell⟩
        obtain ⟨call, hcall, hperm⟩ := perm_cons_eraseP hshell
        rw [removeCorrespondingFor, if_neg hany]
        exact ⟨call, .inr hcall, hperm⟩
  | customToolCallOutput callId name output =>
      obtain rfl := Option.some.inj houtput
      simp only [← isCustomToolCallFor_iff] at h ⊢
      exact perm_cons_eraseP h
  | toolSearchOutput callId status execution tools =>
      cases callId with
      | none => cases houtput
      | some callId =>
          obtain rfl := Option.some.inj houtput
          simp only [← isToolSearchCallFor_iff] at h ⊢
          exact perm_cons_eraseP h
  | _ => cases houtput

end Removed

/-! ## One step -/

/-- What a step leaves of a history in which calls and outputs pair up. -/
inductive Trimmed (items left : List ResponseItem) : Option (OutputKind × Str) → Prop
  | plain (item : ResponseItem) : item.callKey = none → item.outputKey = none →
      items.Perm (item :: left) → Trimmed items left none
  | pair (call output : ResponseItem) (key : OutputKind × Str) : call.callKey = some key →
      output.outputKey = some key → items.Perm (call :: output :: left) → Trimmed items left (some key)

theorem PairsUp.trimmed {items rest : List ResponseItem} {removed : ResponseItem} (h : PairsUp items)
    (hitems : items.Perm (removed :: rest)) : Trimmed items (removeCorrespondingFor rest removed) removed.pairKey := by
  have hmem : removed ∈ items := hitems.mem_iff.mpr List.mem_cons_self
  cases hkey : removed.pairKey with
  | none =>
      obtain ⟨hcall, houtput⟩ := pairKey_eq_none hkey
      rw [removeCorrespondingFor_plain rest hkey]
      exact .plain removed hcall houtput hitems
  | some key =>
      rcases pairKey_eq_some hkey with hcall | houtput
      · have hrest : ∃ output ∈ rest, output.outputKey = some key := by
          obtain ⟨output, houtput, hfound⟩ := h.answered removed hmem key hcall
          rcases List.mem_cons.mp (hitems.mem_iff.mp houtput) with rfl | hlater
          · rw [outputKey_of_callKey hcall] at hfound
            cases hfound
          · exact ⟨output, hlater, hfound⟩
        obtain ⟨output, houtput, hperm⟩ := removeCorrespondingFor_call hcall hrest
        exact .pair removed output key hcall houtput (hitems.trans (hperm.cons removed))
      · have hrest : ∃ call ∈ rest, call.callKey = some key := by
          obtain ⟨call, hcall, hfound⟩ := h.called removed hmem key houtput
          rcases List.mem_cons.mp (hitems.mem_iff.mp hcall) with rfl | hlater
          · rw [callKey_of_outputKey houtput] at hfound
            cases hfound
          · exact ⟨call, hlater, hfound⟩
        obtain ⟨call, hcall, hperm⟩ := removeCorrespondingFor_output houtput hrest
        refine .pair call removed key hcall houtput (hitems.trans ?_)
        exact (hperm.cons removed).trans (List.Perm.swap call removed _)

variable {history : ContextManager}

theorem PairsUp.trimmed_apply (h : PairsUp history.items) (step : TrimStep) {removed : ResponseItem}
    (hremoved : step.removed history.items = some removed) :
    Trimmed history.items (step.apply history).items removed.pairKey := by
  cases step with
  | first =>
      cases hitems : history.items with
      | nil => simp [TrimStep.removed, hitems] at hremoved
      | cons first rest =>
          obtain rfl : first = removed := by simpa [TrimStep.removed, hitems] using hremoved
          have hleft : (TrimStep.first.apply history).items = removeCorrespondingFor rest first := by
            simp [TrimStep.apply, ContextManager.removeFirstItem, hitems]
          rw [hleft, ← hitems]
          exact h.trimmed (by rw [hitems])
  | last =>
      have hlast : history.items.getLast? = some removed := hremoved
      have hleft : (TrimStep.last.apply history).items = removeCorrespondingFor history.items.dropLast removed := by
        simp [TrimStep.apply, ContextManager.removeLastItem, hlast]
      rw [hleft]
      apply h.trimmed
      conv_lhs => rw [← List.dropLast_append_getLast? removed hlast]
      exact List.perm_append_singleton _ _

theorem apply_eq_self {step : TrimStep} (h : step.removed history.items = none) : step.apply history = history := by
  cases step with
  | first =>
      have hnil : history.items = [] := by simpa [TrimStep.removed] using h
      simp [TrimStep.apply, ContextManager.removeFirstItem, hnil]
  | last =>
      have hnil : history.items = [] := by simpa [TrimStep.removed] using h
      simp [TrimStep.apply, ContextManager.removeLastItem, hnil]

/-! ## How often a key occurs -/

section Counts

variable {items left : List ResponseItem} {key : OutputKind × Str}

theorem callCount_pos_iff : 0 < callCount items key ↔ ∃ call ∈ items, call.callKey = some key := by
  simp [callCount, List.countP_pos_iff]

theorem outputCount_pos_iff : 0 < outputCount items key ↔ ∃ output ∈ items, output.outputKey = some key := by
  simp [outputCount, List.countP_pos_iff]

theorem pairsUp_iff : PairsUp items ↔ ∀ key, 0 < callCount items key ↔ 0 < outputCount items key := by
  simp only [callCount_pos_iff, outputCount_pos_iff]
  constructor
  · intro h key
    constructor
    · rintro ⟨call, hcall, hkey⟩
      exact h.answered call hcall key hkey
    · rintro ⟨output, houtput, hkey⟩
      exact h.called output houtput key hkey
  · intro h
    constructor
    · intro call hcall key hkey
      exact (h key).mp ⟨call, hcall, hkey⟩
    · intro output houtput key hkey
      exact (h key).mpr ⟨output, houtput, hkey⟩

/-- Calls and outputs are taken away together, and only under the key of the step. -/
theorem Trimmed.counts {trimmedKey : Option (OutputKind × Str)} (h : Trimmed items left trimmedKey)
    (key : OutputKind × Str) :
    callCount items key = callCount left key + (if trimmedKey = some key then 1 else 0) ∧
      outputCount items key = outputCount left key + (if trimmedKey = some key then 1 else 0) := by
  cases h with
  | plain item hcall houtput hperm =>
      simp [callCount, outputCount, hperm.countP_eq, hcall, houtput]
  | pair call output key' hcall houtput hperm =>
      simp [callCount, outputCount, hperm.countP_eq, List.countP_cons, hcall, houtput, outputKey_of_callKey hcall,
        callKey_of_outputKey houtput]

theorem Trimmed.pairsUp_iff {trimmedKey : Option (OutputKind × Str)} (h : Trimmed items left trimmedKey)
    (hitems : PairsUp items) :
    PairsUp left ↔ ∀ key, trimmedKey = some key → (callCount items key = 1 ↔ outputCount items key = 1) := by
  rw [History.pairsUp_iff]
  constructor
  · intro hleft key hkey
    have hpos := hleft key
    obtain ⟨hcalls, houtputs⟩ := h.counts key
    rw [if_pos hkey] at hcalls houtputs
    omega
  · intro hone key
    have hpos := History.pairsUp_iff.mp hitems key
    obtain ⟨hcalls, houtputs⟩ := h.counts key
    by_cases hkey : trimmedKey = some key
    · have hone' := hone key hkey
      rw [if_pos hkey] at hcalls houtputs
      omega
    · rw [if_neg hkey, Nat.add_zero] at hcalls houtputs
      rw [hcalls, houtputs] at hpos
      exact hpos

theorem Trimmed.length_lt {trimmedKey : Option (OutputKind × Str)} (h : Trimmed items left trimmedKey) :
    left.length < items.length := by
  cases h with
  | plain item hcall houtput hperm =>
      rw [hperm.length_eq, List.length_cons]
      exact Nat.lt_succ_self _
  | pair call output key' hcall houtput hperm =>
      rw [hperm.length_eq, List.length_cons, List.length_cons]
      omega

theorem pairsUp_of_counts_eq (h : ∀ key, callCount items key = outputCount items key) : PairsUp items := by
  rw [pairsUp_iff]
  intro key
  rw [h key]

end Counts

/-! ## Step after step -/

/-- As many calls as outputs under every key stay as many. -/
theorem trim_counts_eq (h : ∀ key, callCount history.items key = outputCount history.items key) (steps : List TrimStep)
    (key : OutputKind × Str) :
    callCount (trim history steps).items key = outputCount (trim history steps).items key := by
  induction steps generalizing history with
  | nil => exact h key
  | cons step steps ih =>
      rw [trim, List.foldl_cons, ← trim]
      apply ih
      intro other
      cases hremoved : step.removed history.items with
      | none =>
          rw [apply_eq_self hremoved]
          exact h other
      | some removed =>
          obtain ⟨hcalls, houtputs⟩ := ((pairsUp_of_counts_eq h).trimmed_apply step hremoved).counts other
          have heq := h other
          omega

/-- More of one than of the other under some key are left over in the end. -/
theorem exists_trim_not_pairsUp (h : PairsUp history.items) {key : OutputKind × Str}
    (hne : callCount history.items key ≠ outputCount history.items key) :
    ∃ steps, ¬ PairsUp (trim history steps).items := by
  induction hlength : history.items.length using Nat.strong_induction_on generalizing history with
  | _ n ih =>
      cases hremoved : TrimStep.first.removed history.items with
      | none =>
          have hnil : history.items = [] := by simpa [TrimStep.removed] using hremoved
          rw [hnil] at hne
          exact absurd rfl hne
      | some removed =>
          have htrimmed := h.trimmed_apply .first hremoved
          by_cases hleft : PairsUp (TrimStep.first.apply history).items
          · have hstill : callCount (TrimStep.first.apply history).items key ≠
                outputCount (TrimStep.first.apply history).items key := by
              obtain ⟨hcalls, houtputs⟩ := htrimmed.counts key
              omega
            obtain ⟨steps, hsteps⟩ := ih _ (hlength ▸ htrimmed.length_lt) hleft hstill rfl
            exact ⟨.first :: steps, hsteps⟩
          · exact ⟨[.first], hleft⟩

end Codrex.History
