import Mathlib.Data.Fintype.BigOperators
import Mathlib.Data.Fintype.Prod
import Codrex.Mcp.Tools

/-!
# Every MCP tool gets a name of its own

The retry loop ends because the suffixes of its attempts differ: one more attempt than there are used names finds a name
that is free.
-/

namespace Codrex.Mcp

open Text

variable {ρ : Type} {sha1 : Sha1} {tool other : ToolInfo ρ} {tools chosen : List (ToolInfo ρ)} {s t : Str}
  {all : List (CallableToolCandidate ρ)}

/-! ## ASCII names -/

def Ascii (s : Str) : Prop := ∀ c ∈ s, c.utf8Size = 1

instance : Decidable (Ascii s) := List.decidableBAll (fun c : Char => c.utf8Size = 1) s

theorem Ascii.byteLen (h : Ascii s) : byteLen s = s.length := by
  have hsizes : s.map Char.utf8Size = s.map fun _ => 1 := List.map_congr_left h
  rw [Text.byteLen, hsizes]
  simp

theorem Ascii.append (hs : Ascii s) (ht : Ascii t) : Ascii (s ++ t) := by
  intro c hc
  rcases List.mem_append.mp hc with hc | hc
  · exact hs c hc
  · exact ht c hc

theorem Ascii.subset (h : Ascii s) (hsub : t ⊆ s) : Ascii t := fun c hc => h c (hsub hc)

theorem utf8Size_of_isAlphanum {c : Char} (h : c.isAlphanum = true) : c.utf8Size = 1 := by
  unfold Char.isAlphanum Char.isAlpha Char.isUpper Char.isLower Char.isDigit at h
  simp only [Bool.or_eq_true, Bool.and_eq_true, decide_eq_true_eq, UInt32.le_iff_toNat_le, ge_iff_le] at h
  have hle : c.val.toNat ≤ 127 := by
    rcases h with (⟨-, hle⟩ | ⟨-, hle⟩) | ⟨-, hle⟩ <;> exact hle.trans (by decide)
  rw [Char.utf8Size, if_pos]
  exact UInt32.le_iff_toNat_le.mpr hle

theorem ascii_sanitize (name : Str) : Ascii (sanitizeResponsesApiToolName name) := by
  rw [sanitizeResponsesApiToolName]
  split
  · decide
  · intro c hc
    obtain ⟨d, -, rfl⟩ := List.mem_map.mp hc
    split
    · next h =>
        rcases Bool.or_eq_true _ _ |>.mp h with h | h
        · exact utf8Size_of_isAlphanum h
        · rw [of_decide_eq_true h]
          decide
    · decide

theorem length_suffix (sha1 : Sha1) (input : Str) : (callableNameHashSuffix sha1 input).length = 13 := by
  simp [callableNameHashSuffix, callableNameHashLen, sha1.length]

theorem ascii_suffix (sha1 : Sha1) (input : Str) : Ascii (callableNameHashSuffix sha1 input) := by
  have hdigits : Ascii hexDigits := by decide
  intro c hc
  rcases List.mem_cons.mp hc with rfl | hc
  · decide
  · exact hdigits c (sha1.digits input c (List.mem_of_mem_take hc))

theorem ascii_appendHashSuffix (h : Ascii s) (input : Str) : Ascii (appendHashSuffix sha1 s input) :=
  h.append (ascii_suffix sha1 input)

theorem ascii_appendNamespaceHashSuffix (h : Ascii s) (input : Str) :
    Ascii (appendNamespaceHashSuffix sha1 s input) := by
  rw [appendNamespaceHashSuffix]
  split
  · next stripped hstrip =>
      have hsub : stripped ⊆ s := by
        rw [stripSuffix, Option.ite_none_right_eq_some] at hstrip
        obtain ⟨-, hstrip⟩ := hstrip
        cases hstrip
        exact List.take_subset _ _
      exact ((h.subset hsub).append (ascii_suffix sha1 input)).append (by decide)
  · exact ascii_appendHashSuffix h input

/-! ## Fitted names -/

theorem fit_fits (hnamespace : Ascii s) (hname : Ascii t) (input : Str) :
    byteLen ((fitCallablePartsWithHash sha1 s t input).1 ++ (fitCallablePartsWithHash sha1 s t input).2) ≤
      maxToolNameLength := by
  have hsuffix := ascii_suffix sha1 input
  have hlen : byteLen (callableNameHashSuffix sha1 input) = 13 := by rw [hsuffix.byteLen, length_suffix]
  rw [fitCallablePartsWithHash, hlen]
  split
  · next hle =>
      have hcut : byteLen (truncateName t (maxToolNameLength - byteLen s - 13)) ≤ maxToolNameLength - byteLen s - 13 := by
        rw [truncateName, (hname.subset (List.take_subset _ _)).byteLen]
        exact List.length_take_le _ _
      simp only [byteLen_append, hlen]
      omega
  · have hcut : byteLen (truncateName s (maxToolNameLength - 13)) ≤ maxToolNameLength - 13 := by
      rw [truncateName, (hnamespace.subset (List.take_subset _ _)).byteLen]
      exact List.length_take_le _ _
    simp only [byteLen_append, hlen]
    rw [maxToolNameLength] at *
    omega

theorem fit_ends (sha1 : Sha1) (s t input : Str) :
    ∃ front, (fitCallablePartsWithHash sha1 s t input).1 ++ (fitCallablePartsWithHash sha1 s t input).2 =
      front ++ callableNameHashSuffix sha1 input := by
  rw [fitCallablePartsWithHash]
  split
  · exact ⟨_, (List.append_assoc _ _ _).symm⟩
  · exact ⟨_, rfl⟩

theorem suffix_eq_of_fit_eq {input input' : Str}
    (h : (fitCallablePartsWithHash sha1 s t input).1 ++ (fitCallablePartsWithHash sha1 s t input).2 =
      (fitCallablePartsWithHash sha1 s t input').1 ++ (fitCallablePartsWithHash sha1 s t input').2) :
    callableNameHashSuffix sha1 input = callableNameHashSuffix sha1 input' := by
  obtain ⟨front, hfront⟩ := fit_ends sha1 s t input
  obtain ⟨front', hfront'⟩ := fit_ends sha1 s t input'
  rw [hfront, hfront'] at h
  exact (List.append_inj' h (by rw [length_suffix, length_suffix])).2

/-! ## Identities -/

def inputParts (tool : ToolInfo ρ) (attempt : Nat) : List Str :=
  [tool.serverName, tool.callableNamespace, tool.connectorId.getD [], tool.callableName, tool.tool.name] ++
    if attempt = 0 then [] else [(Nat.repr attempt).toList]

theorem hashInput_eq (tool : ToolInfo ρ) (attempt : Nat) :
    hashInput (rawToolIdentity tool) attempt = ['\x00'].intercalate (inputParts tool attempt) := by
  rw [hashInput, inputParts, rawToolIdentity, rawNamespaceIdentity]
  split <;> simp [List.intercalate]

theorem NulFree.inputParts (h : NulFree tool) (attempt : Nat) : ∀ part ∈ inputParts tool attempt, '\x00' ∉ part := by
  have hrepr : '\x00' ∉ (Nat.repr attempt).toList := fun hmem => absurd (isDigit_of_mem_repr hmem) (by decide)
  obtain ⟨hserver, hnamespace, hconnector, hname, htool⟩ := h
  rw [Mcp.inputParts]
  split <;> simp_all

theorem identity_eq_of_hashInput_eq (h : NulFree tool) (h' : NulFree other) {attempt attempt' : Nat}
    (heq : hashInput (rawToolIdentity tool) attempt = hashInput (rawToolIdentity other) attempt') :
    tool.identity = other.identity ∧ attempt = attempt' := by
  have hparts : inputParts tool attempt = inputParts other attempt' :=
    calc inputParts tool attempt = (hashInput (rawToolIdentity tool) attempt).splitOn '\x00' := by
          rw [hashInput_eq, List.splitOn_intercalate '\x00' (h.inputParts attempt) (by simp [inputParts])]
      _ = (hashInput (rawToolIdentity other) attempt').splitOn '\x00' := by rw [heq]
      _ = inputParts other attempt' := by
          rw [hashInput_eq, List.splitOn_intercalate '\x00' (h'.inputParts attempt') (by simp [inputParts])]
  obtain ⟨hidentity, hattempt⟩ := List.append_inj hparts rfl
  refine ⟨by simpa [ToolInfo.identity] using hidentity, ?_⟩
  split at hattempt <;> split at hattempt
  · omega
  · cases hattempt
  · cases hattempt
  · exact repr_injective (List.singleton_inj.mp hattempt)

theorem rawToolIdentity_eq_iff (h : NulFree tool) (h' : NulFree other) :
    rawToolIdentity tool = rawToolIdentity other ↔ tool.identity = other.identity := by
  constructor
  · intro heq
    exact (@identity_eq_of_hashInput_eq ρ tool other h h' 0 0 (by simpa [hashInput] using heq)).1
  · intro heq
    simp only [ToolInfo.identity, RawIdentity.mk.injEq] at heq
    obtain ⟨hserver, hnamespace, hconnector, hname, htool⟩ := heq
    rw [rawToolIdentity, rawNamespaceIdentity, rawToolIdentity, rawNamespaceIdentity, hserver, hnamespace, hconnector,
      hname, htool]

/-! ## The retry loop ends -/

/-- Texts of `n` digits over an alphabet: there are only so many. -/
theorem card_le_of_digits {α : Type} {inputs : Finset α} {digest : α → Str} {n : Nat} {alphabet : List Char}
    (hlength : ∀ x ∈ inputs, (digest x).length = n) (hdigits : ∀ x ∈ inputs, ∀ c ∈ digest x, c ∈ alphabet)
    (hinj : Set.InjOn digest inputs) : inputs.card ≤ alphabet.toFinset.card ^ n := by
  have hcard : (Fintype.piFinset fun _ : Fin n => alphabet.toFinset).card = alphabet.toFinset.card ^ n := by simp
  rw [← hcard]
  refine Finset.card_le_card_of_injOn (fun x i => (digest x).getD i ' ') ?_ ?_
  · intro x hx
    simp only [Finset.mem_coe, Fintype.mem_piFinset, List.mem_toFinset]
    intro i
    have hi : i < (digest x).length := by
      rw [hlength x hx]
      exact i.isLt
    rw [List.getD_eq_getElem?_getD, List.getElem?_eq_getElem hi, Option.getD_some]
    exact hdigits x hx _ (List.getElem_mem hi)
  · intro x hx y hy heq
    refine hinj hx hy (List.ext_getElem (by rw [hlength x hx, hlength y hy]) fun i hi hi' => ?_)
    have hn : i < n := by rwa [hlength x hx] at hi
    have hdigit := congrFun heq ⟨i, hn⟩
    simpa [List.getElem?_eq_getElem hi, List.getElem?_eq_getElem hi'] using hdigit

/-- Twelve digits do not tell the attempts of more than `2 ^ 32` tools apart, so `attempt` never saturates. -/
theorem length_le_of_injOn (hinj : Set.InjOn (callableNameHashSuffix sha1) (hashInputs tools))
    (hnul : ∀ tool ∈ tools, NulFree tool) (hone : OnePerIdentity tools chosen) : chosen.length ≤ 2 ^ 32 := by
  by_contra hmany
  have hchosen : chosen.length ≤ tools.length := ((List.Nodup.of_map _ hone.apart).subperm hone.subset).length_le
  let digest : Fin chosen.length × Nat → Str := fun input =>
    (sha1.hex (hashInput (rawToolIdentity chosen[input.1]) input.2)).take callableNameHashLen
  have hmem (input : Fin chosen.length × Nat) (h : input.2 < 2 ^ 32) :
      hashInput (rawToolIdentity chosen[input.1]) input.2 ∈ hashInputs tools :=
    ⟨chosen[input.1], hone.subset (List.getElem_mem _), input.2, by omega, rfl⟩
  have hcard : (Finset.univ ×ˢ Finset.range (2 ^ 32) : Finset (Fin chosen.length × Nat)).card ≤
      hexDigits.toFinset.card ^ callableNameHashLen := by
    refine @card_le_of_digits _ _ digest _ _ ?_ ?_ ?_
    · intro input _
      simp [digest, callableNameHashLen, sha1.length]
    · intro input _ c hc
      exact sha1.digits _ c (List.mem_of_mem_take hc)
    · intro input hinput input' hinput' heq
      simp only [Finset.coe_product, Set.mem_prod, Finset.mem_coe, Finset.mem_range] at hinput hinput'
      have hhash := hinj (hmem input hinput.2) (hmem input' hinput'.2) (congrArg ('_' :: ·) heq)
      obtain ⟨hidentity, hattempt⟩ := identity_eq_of_hashInput_eq (hnul _ (hone.subset (List.getElem_mem _)))
        (hnul _ (hone.subset (List.getElem_mem _))) hhash
      have hindex : input.1 = input'.1 := by
        refine Fin.ext ((List.getElem?_inj (by simp) hone.apart).mp ?_)
        simpa using hidentity
      exact Prod.ext hindex hattempt
  have hdigits : hexDigits.toFinset.card = 16 := by decide
  rw [Finset.card_product, Finset.card_univ, Fintype.card_fin, Finset.card_range, hdigits, callableNameHashLen] at hcard
  omega

/-- One more candidate than there are used names: one is free. -/
theorem exists_notMem_of_injOn {name : Nat → Str} {usedNames : List Str}
    (hinj : Set.InjOn name {attempt | attempt ≤ usedNames.length}) : ∃ attempt ≤ usedNames.length, name attempt ∉ usedNames := by
  have hcard : usedNames.toFinset.card < ((Finset.range (usedNames.length + 1)).image name).card := by
    have himage : ((Finset.range (usedNames.length + 1)).image name).card = usedNames.length + 1 := by
      rw [Finset.card_image_of_injOn, Finset.card_range]
      intro attempt hattempt attempt' hattempt'
      simp only [Finset.mem_coe, Finset.mem_range] at hattempt hattempt'
      exact hinj (Nat.lt_succ_iff.mp hattempt) (Nat.lt_succ_iff.mp hattempt')
    have hused := usedNames.toFinset_card_le
    omega
  obtain ⟨free, hfree, hnot⟩ := Finset.exists_mem_notMem_of_card_lt_card hcard
  obtain ⟨attempt, hattempt, rfl⟩ := Finset.mem_image.mp hfree
  exact ⟨attempt, Nat.lt_succ_iff.mp (Finset.mem_range.mp hattempt), by simpa using hnot⟩

/-- The loop ends at the first attempt whose name is free. -/
theorem retryCallableParts_of_notMem {rawIdentity : Str} {usedNames : List Str} (rounds : Nat) {attempt : Nat}
    (hfree : (fitCallablePartsWithHash sha1 s t (hashInput rawIdentity (attempt + rounds))).1 ++
      (fitCallablePartsWithHash sha1 s t (hashInput rawIdentity (attempt + rounds))).2 ∉ usedNames)
    (hmax : attempt + rounds < 2 ^ 32) :
    ∃ input, (fitCallablePartsWithHash sha1 s t input).1 ++ (fitCallablePartsWithHash sha1 s t input).2 ∉ usedNames ∧
      ∀ fuel > rounds, retryCallableParts sha1 s t rawIdentity usedNames fuel attempt =
        some (fitCallablePartsWithHash sha1 s t input) := by
  induction rounds generalizing attempt with
  | zero =>
      refine ⟨_, hfree, fun fuel hfuel => ?_⟩
      obtain ⟨fuel, rfl⟩ := Nat.exists_eq_succ_of_ne_zero hfuel.ne'
      rw [retryCallableParts]
      exact if_pos hfree
  | succ rounds ih =>
      by_cases hnow : (fitCallablePartsWithHash sha1 s t (hashInput rawIdentity attempt)).1 ++
          (fitCallablePartsWithHash sha1 s t (hashInput rawIdentity attempt)).2 ∉ usedNames
      · refine ⟨_, hnow, fun fuel hfuel => ?_⟩
        obtain ⟨fuel, rfl⟩ := Nat.exists_eq_succ_of_ne_zero (Nat.ne_of_gt (Nat.zero_lt_of_lt hfuel))
        rw [retryCallableParts]
        exact if_pos hnow
      · have hnext : min (attempt + 1) (2 ^ 32 - 1) = attempt + 1 := by omega
        obtain ⟨input, hinput, hruns⟩ := @ih (attempt + 1) (by rwa [Nat.add_right_comm]) (by omega)
        refine ⟨input, hinput, fun fuel hfuel => ?_⟩
        obtain ⟨fuel, rfl⟩ := Nat.exists_eq_succ_of_ne_zero (Nat.ne_of_gt (Nat.zero_lt_of_lt hfuel))
        rw [retryCallableParts, if_neg hnow, hnext]
        exact hruns fuel (by omega)

/-! ## Naming -/

/-- What is kept of a tool through all passes. -/
structure Sound (candidate : CallableToolCandidate ρ) : Prop where
  raw : candidate.rawToolIdentity = rawToolIdentity candidate.tool
  asciiNamespace : Ascii candidate.callableNamespace
  asciiName : Ascii candidate.callableName

/-- Every attempt that a tool may make hashes to a suffix of its own. -/
def AttemptsApart (sha1 : Sha1) (limit : Nat) (rawIdentity : Str) : Prop :=
  Set.InjOn (fun attempt => callableNameHashSuffix sha1 (hashInput rawIdentity attempt)) {attempt | attempt < limit}

theorem uniqueCallableParts_of_attemptsApart {rawIdentity : Str} {usedNames : List Str} {limit : Nat}
    (hnamespace : Ascii s) (hname : Ascii t) (hapart : AttemptsApart sha1 limit rawIdentity)
    (hused : usedNames.length < limit) (hlimit : limit ≤ 2 ^ 32) :
    ∃ parts : Str × Str, parts.1 ++ parts.2 ∉ usedNames ∧ byteLen (parts.1 ++ parts.2) ≤ maxToolNameLength ∧
      ∀ fuel ≥ limit, uniqueCallableParts sha1 fuel s t rawIdentity usedNames = some parts := by
  by_cases hplain : byteLen (s ++ t) ≤ maxToolNameLength ∧ s ++ t ∉ usedNames
  · exact ⟨(s, t), hplain.2, hplain.1, fun _ _ => if_pos hplain⟩
  · have hinj : Set.InjOn (fun attempt =>
        (fitCallablePartsWithHash sha1 s t (hashInput rawIdentity attempt)).1 ++
          (fitCallablePartsWithHash sha1 s t (hashInput rawIdentity attempt)).2)
        {attempt | attempt ≤ usedNames.length} := by
      intro attempt hattempt attempt' hattempt' heq
      exact hapart (Nat.lt_of_le_of_lt hattempt hused) (Nat.lt_of_le_of_lt hattempt' hused) (suffix_eq_of_fit_eq heq)
    obtain ⟨rounds, hrounds, hfree⟩ := exists_notMem_of_injOn hinj
    obtain ⟨input, hinput, hruns⟩ := @retryCallableParts_of_notMem sha1 s t rawIdentity usedNames rounds 0
      (by rwa [Nat.zero_add]) (by omega)
    refine ⟨_, hinput, fit_fits hnamespace hname input, fun fuel hfuel => ?_⟩
    rw [uniqueCallableParts, if_neg hplain]
    exact hruns fuel (by omega)

/-- Each candidate in turn gets a name that no earlier one has. -/
theorem nameCandidates_lists {usedNames : List Str} {qualified : List (Str × ToolInfo ρ)} {limit : Nat}
    (hsound : ∀ candidate ∈ all, Sound candidate)
    (hapart : ∀ candidate ∈ all, AttemptsApart sha1 limit candidate.rawToolIdentity)
    (hroom : usedNames.length + all.length ≤ limit) (hlimit : limit ≤ 2 ^ 32)
    (hused : ∀ key ∈ Entries.keys qualified, key ∈ usedNames) :
    ∃ listed, (∀ fuel ≥ limit, nameCandidates sha1 fuel all usedNames qualified = some (qualified ++ listed)) ∧
      List.Forall₂ ListedAs (all.map CallableToolCandidate.tool) listed ∧ (Entries.keys listed).Nodup ∧
      ∀ key ∈ Entries.keys listed, key ∉ usedNames := by
  induction all generalizing usedNames qualified with
  | nil => exact ⟨[], fun _ _ => by simp [nameCandidates], .nil, List.nodup_nil, nofun⟩
  | cons candidate all ih =>
      obtain ⟨hraw, hnamespace, hname⟩ := hsound candidate (List.mem_cons_self ..)
      rw [List.length_cons] at hroom
      obtain ⟨parts, hfree, hfits, hparts⟩ := @uniqueCallableParts_of_attemptsApart sha1 _ _ _ usedNames _ hnamespace
        hname (hapart candidate (List.mem_cons_self ..)) (by omega) hlimit
      let named := { candidate.tool with callableNamespace := parts.1, callableName := parts.2 }
      have hlookup : qualified.lookup (parts.1 ++ parts.2) = none :=
        Entries.lookup_eq_none.mpr fun hkey => hfree (hused _ hkey)
      have hupsert : Entries.upsert (parts.1 ++ parts.2) named qualified = qualified ++ [(parts.1 ++ parts.2, named)] := by
        simp [Entries.upsert, hlookup]
      obtain ⟨listed, hruns, hlisted, hnodup, hnew⟩ := @ih ((parts.1 ++ parts.2) :: usedNames)
        (qualified ++ [(parts.1 ++ parts.2, named)]) (fun other hother => hsound other (List.mem_cons_of_mem _ hother))
        (fun other hother => hapart other (List.mem_cons_of_mem _ hother)) (by rw [List.length_cons]; omega)
        (by
          intro key hkey
          rw [Entries.keys, List.map_append] at hkey
          rcases List.mem_append.mp hkey with hkey | hkey
          · exact List.mem_cons_of_mem _ (hused key hkey)
          · exact List.mem_cons.mpr (.inl (List.mem_singleton.mp hkey)))
      refine ⟨(parts.1 ++ parts.2, named) :: listed, fun fuel hfuel => ?_, .cons ⟨rfl, rfl, hfits⟩ hlisted,
        List.nodup_cons.mpr ⟨fun hkey => hnew _ hkey (List.mem_cons_self ..), hnodup⟩, ?_⟩
      · rw [nameCandidates, hparts fuel hfuel]
        show nameCandidates sha1 fuel all ((parts.1 ++ parts.2) :: usedNames)
          (Entries.upsert (parts.1 ++ parts.2) named qualified) = _
        rw [hupsert, hruns fuel hfuel, List.append_assoc, List.singleton_append]
      · intro key hkey
        rcases List.mem_cons.mp hkey with rfl | hkey
        · exact hfree
        · exact fun hmem => hnew key hkey (List.mem_cons_of_mem _ hmem)

/-! ## The passes before -/

theorem mem_candidates {seenRawNames : List Str} {candidate : CallableToolCandidate ρ}
    (h : candidate ∈ candidates tools seenRawNames) : ∃ tool ∈ tools, candidate = Mcp.candidate tool := by
  induction tools generalizing seenRawNames with
  | nil => cases h
  | cons tool tools ih =>
      rw [candidates] at h
      split at h
      · obtain ⟨found, hfound, heq⟩ := ih h
        exact ⟨found, List.mem_cons_of_mem _ hfound, heq⟩
      · rcases List.mem_cons.mp h with rfl | h
        · exact ⟨tool, List.mem_cons_self .., rfl⟩
        · obtain ⟨found, hfound, heq⟩ := ih h
          exact ⟨found, List.mem_cons_of_mem _ hfound, heq⟩

theorem candidates_covers {seenRawNames : List Str} (h : tool ∈ tools) :
    rawToolIdentity tool ∈ seenRawNames ∨
      ∃ candidate ∈ candidates tools seenRawNames, candidate.rawToolIdentity = rawToolIdentity tool := by
  induction tools generalizing seenRawNames with
  | nil => cases h
  | cons first tools ih =>
      rw [candidates]
      rcases List.mem_cons.mp h with rfl | h
      · split
        · next hseen => exact .inl hseen
        · exact .inr ⟨candidate tool, List.mem_cons_self .., rfl⟩
      · split
        · exact ih h
        · rcases @ih (rawToolIdentity first :: seenRawNames) h with hseen | ⟨found, hfound, heq⟩
          · rcases List.mem_cons.mp hseen with heq | hseen
            · exact .inr ⟨candidate first, List.mem_cons_self .., heq.symm⟩
            · exact .inl hseen
          · exact .inr ⟨found, List.mem_cons_of_mem _ hfound, heq⟩

theorem candidates_apart (tools : List (ToolInfo ρ)) (seenRawNames : List Str) :
    seenRawNames.Nodup → ((candidates tools seenRawNames).map (·.rawToolIdentity) ++ seenRawNames).Nodup := by
  induction tools generalizing seenRawNames with
  | nil => exact fun h => by simpa [candidates] using h
  | cons tool tools ih =>
      intro h
      rw [candidates]
      split
      · exact ih seenRawNames h
      · next hnew =>
          have hrest := ih (rawToolIdentity tool :: seenRawNames) (List.nodup_cons.mpr ⟨hnew, h⟩)
          exact (List.perm_middle.nodup_iff).mp hrest

theorem onePerIdentity_candidates (hnul : ∀ tool ∈ tools, NulFree tool) :
    OnePerIdentity tools ((candidates tools []).map CallableToolCandidate.tool) where
  subset := by
    intro tool h
    obtain ⟨candidate, hcandidate, rfl⟩ := List.mem_map.mp h
    obtain ⟨tool, htool, rfl⟩ := mem_candidates hcandidate
    exact htool
  apart := by
    have hraw := candidates_apart tools [] List.nodup_nil
    rw [List.append_nil] at hraw
    rw [List.Nodup, List.pairwise_map] at hraw
    rw [List.map_map, List.Nodup, List.pairwise_map]
    refine hraw.imp_of_mem fun {first second} hfirst hsecond hne heq => hne ?_
    obtain ⟨tool, htool, rfl⟩ := mem_candidates hfirst
    obtain ⟨other, hother, rfl⟩ := mem_candidates hsecond
    exact (rawToolIdentity_eq_iff (hnul _ htool) (hnul _ hother)).mpr heq
  covers := by
    intro tool h
    rcases @candidates_covers _ tool tools [] h with hseen | ⟨found, hfound, heq⟩
    · cases hseen
    · obtain ⟨other, hother, rfl⟩ := mem_candidates hfound
      rw [List.map_map]
      refine List.mem_map.mpr ⟨candidate other, hfound, ?_⟩
      exact (rawToolIdentity_eq_iff (hnul _ hother) (hnul _ h)).mp heq

theorem hashed_sound (h : ∀ candidate ∈ all, Sound candidate) :
    ∀ candidate ∈ hashCollidingTools sha1 (hashCollidingNamespaces sha1 all), Sound candidate := by
  have hnamespaces : ∀ candidate ∈ hashCollidingNamespaces sha1 all, Sound candidate := by
    intro hashed hmem
    obtain ⟨candidate, hcandidate, rfl⟩ := List.mem_map.mp hmem
    obtain ⟨hraw, hnamespace, hname⟩ := h candidate hcandidate
    split
    · exact ⟨hraw, ascii_appendNamespaceHashSuffix hnamespace _, hname⟩
    · exact ⟨hraw, hnamespace, hname⟩
  intro hashed hmem
  obtain ⟨candidate, hcandidate, rfl⟩ := List.mem_map.mp hmem
  obtain ⟨hraw, hnamespace, hname⟩ := hnamespaces candidate hcandidate
  split
  · exact ⟨hraw, hnamespace, ascii_appendHashSuffix hname _⟩
  · exact ⟨hraw, hnamespace, hname⟩

theorem hashed_tools (sha1 : Sha1) (all : List (CallableToolCandidate ρ)) :
    (hashCollidingTools sha1 (hashCollidingNamespaces sha1 all)).map CallableToolCandidate.tool =
      all.map CallableToolCandidate.tool := by
  rw [hashCollidingTools, hashCollidingNamespaces, List.map_map, List.map_map]
  refine List.map_congr_left fun candidate _ => ?_
  simp only [Function.comp_apply]
  split <;> split <;> rfl

theorem candidates_sound {candidate : CallableToolCandidate ρ} (h : candidate ∈ candidates tools []) :
    Sound candidate := by
  obtain ⟨tool, -, rfl⟩ := mem_candidates h
  exact ⟨rfl, ascii_sanitize _, ascii_sanitize _⟩

theorem OnePerIdentity.perm {other : List (ToolInfo ρ)} (h : OnePerIdentity tools chosen) (hperm : other.Perm chosen) :
    OnePerIdentity tools other where
  subset := fun _ hmem => h.subset (hperm.subset hmem)
  apart := (hperm.map _).nodup_iff.mpr h.apart
  covers := fun tool htool => (hperm.map _).mem_iff.mpr (h.covers tool htool)

/-! ## Any order of the tools gives the same map -/

theorem collides_perm {κ : Type} [DecidableEq κ] {all' : List (CallableToolCandidate ρ)} (h : all.Perm all')
    (name : CallableToolCandidate ρ → κ) (identity : CallableToolCandidate ρ → Str) (base : κ) :
    collides name identity all base = collides name identity all' base := by
  rw [collides, collides, List.toFinset_eq_of_perm _ _ ((h.filter _).map identity)]

theorem hashed_perm {all' : List (CallableToolCandidate ρ)} (h : all.Perm all') :
    (hashCollidingTools sha1 (hashCollidingNamespaces sha1 all)).Perm
      (hashCollidingTools sha1 (hashCollidingNamespaces sha1 all')) := by
  have hnamespaces : (hashCollidingNamespaces sha1 all).Perm (hashCollidingNamespaces sha1 all') := by
    simp only [hashCollidingNamespaces, collides_perm h]
    exact h.map _
  rw [hashCollidingTools, hashCollidingTools]
  simp only [collides_perm hnamespaces]
  exact hnamespaces.map _

theorem sortCandidates_perm {all' : List (CallableToolCandidate ρ)} (h : all.Perm all')
    (hapart : (all.map (·.rawToolIdentity)).Nodup) : sortCandidates all = sortCandidates all' := by
  have hsorted (all : List (CallableToolCandidate ρ)) :
      (sortCandidates all).Pairwise fun left right => left.rawToolIdentity ≤ right.rawToolIdentity := by
    have : Std.Total fun left right : CallableToolCandidate ρ => left.rawToolIdentity ≤ right.rawToolIdentity :=
      ⟨fun _ _ => le_total _ _⟩
    have : IsTrans (CallableToolCandidate ρ) fun left right => left.rawToolIdentity ≤ right.rawToolIdentity :=
      ⟨fun _ _ _ => le_trans⟩
    exact List.pairwise_insertionSort _ all
  have hmem {all : List (CallableToolCandidate ρ)} {candidate : CallableToolCandidate ρ} :
      candidate ∈ sortCandidates all ↔ candidate ∈ all := List.mem_insertionSort _
  refine List.Perm.eq_of_pairwise ?_ (hsorted all) (hsorted all') ?_
  · intro first second hfirst hsecond hle hge
    exact List.inj_on_of_nodup_map hapart (hmem.mp hfirst) (h.mem_iff.mpr (hmem.mp hsecond)) (le_antisymm hle hge)
  · exact (List.perm_insertionSort _ all).trans (h.trans (List.perm_insertionSort _ all').symm)

theorem candidates_of_nodup (tools : List (ToolInfo ρ)) (seenRawNames : List Str)
    (h : (seenRawNames ++ tools.map rawToolIdentity).Nodup) : candidates tools seenRawNames = tools.map candidate := by
  induction tools generalizing seenRawNames with
  | nil => rfl
  | cons tool tools ih =>
      have hrest : ((rawToolIdentity tool :: seenRawNames) ++ tools.map rawToolIdentity).Nodup :=
        List.perm_middle.nodup_iff.mp h
      have hnew : rawToolIdentity tool ∉ seenRawNames :=
        fun hmem => (List.nodup_cons.mp hrest).1 (List.mem_append_left _ hmem)
      rw [candidates, if_neg hnew, ih _ hrest, List.map_cons]

theorem qualifyTools_perm {tools tools' : List (ToolInfo ρ)} (hperm : tools.Perm tools')
    (hnodup : (tools.map rawToolIdentity).Nodup) (fuel : Nat) :
    qualifyTools sha1 fuel tools = qualifyTools sha1 fuel tools' := by
  have hnodup' : (tools'.map rawToolIdentity).Nodup := (hperm.map _).nodup_iff.mp hnodup
  have hraws (all : List (CallableToolCandidate ρ)) :
      (hashCollidingTools sha1 (hashCollidingNamespaces sha1 all)).map (·.rawToolIdentity) =
        all.map (·.rawToolIdentity) := by
    rw [hashCollidingTools, hashCollidingNamespaces, List.map_map, List.map_map]
    refine List.map_congr_left fun candidate _ => ?_
    simp only [Function.comp_apply]
    split <;> split <;> rfl
  rw [qualifyTools, qualifyTools, candidates_of_nodup tools [] hnodup, candidates_of_nodup tools' [] hnodup',
    sortCandidates_perm (hashed_perm (hperm.map candidate))]
  rw [hraws, List.map_map]
  exact hnodup

/-! ## The result -/

theorem qualifyTools_qualifies (sha1 : Sha1) (tools : List (ToolInfo ρ)) (hnul : ∀ tool ∈ tools, NulFree tool)
    (hinj : Set.InjOn (callableNameHashSuffix sha1) (hashInputs tools)) :
    (∃ qualified, (∀ fuel ≥ tools.length, qualifyTools sha1 fuel tools = some qualified) ∧
      QualifiesTools tools qualified) ∧
    ((tools.map ToolInfo.identity).Nodup → ∀ tools', tools.Perm tools' → ∀ fuel,
      qualifyTools sha1 fuel tools' = qualifyTools sha1 fuel tools) := by
  constructor
  · let hashed := hashCollidingTools sha1 (hashCollidingNamespaces sha1 (candidates tools []))
    have hperm : (sortCandidates hashed).Perm hashed := List.perm_insertionSort _ _
    have hone : OnePerIdentity tools ((sortCandidates hashed).map CallableToolCandidate.tool) := by
      refine (onePerIdentity_candidates hnul).perm ?_
      rw [← hashed_tools sha1 (candidates tools [])]
      exact hperm.map _
    have hmany : (sortCandidates hashed).length ≤ 2 ^ 32 := by simpa using length_le_of_injOn hinj hnul hone
    have hfew : (sortCandidates hashed).length ≤ tools.length := by
      simpa using ((List.Nodup.of_map _ hone.apart).subperm hone.subset).length_le
    have hsound : ∀ candidate ∈ sortCandidates hashed, Sound candidate := fun candidate hmem =>
      hashed_sound (fun _ h => candidates_sound h) candidate (hperm.mem_iff.mp hmem)
    have hapart : ∀ candidate ∈ sortCandidates hashed,
        AttemptsApart sha1 (sortCandidates hashed).length candidate.rawToolIdentity := by
      intro candidate hmem attempt hattempt attempt' hattempt' heq
      have htool : candidate.tool ∈ tools := hone.subset (List.mem_map_of_mem hmem)
      rw [(hsound candidate hmem).raw] at heq
      simp only [Set.mem_ofPred_eq] at hattempt hattempt'
      have hhash := hinj ⟨_, htool, attempt, by omega, rfl⟩ ⟨_, htool, attempt', by omega, rfl⟩ heq
      exact (identity_eq_of_hashInput_eq (hnul _ htool) (hnul _ htool) hhash).2
    obtain ⟨qualified, hruns, hlisted, hnodup, -⟩ := @nameCandidates_lists ρ sha1 (sortCandidates hashed) [] [] _ hsound
      hapart (by simp) hmany nofun
    exact ⟨qualified, fun fuel hfuel => hruns fuel (hfew.trans hfuel), hnodup, _, hone, hlisted⟩
  · intro hnodup tools' hperm fuel
    refine (qualifyTools_perm hperm ?_ fuel).symm
    rw [List.Nodup, List.pairwise_map] at hnodup ⊢
    refine hnodup.imp_of_mem fun {first second} hfirst hsecond hne heq => hne ?_
    exact (rawToolIdentity_eq_iff (hnul _ hfirst) (hnul _ hsecond)).mp heq

/-! Two tools of one server whose names are the same once they are sanitised. -/

def docsTool (name : Str) : ToolInfo Unit where
  serverName := "docs".toList
  callableName := name
  callableNamespace := "mcp__docs__".toList
  serverInstructions := none
  tool := ⟨name, ()⟩
  connectorId := none
  connectorName := none
  pluginDisplayNames := []
  connectorDescription := none

def readDotFile : ToolInfo Unit := docsTool "read.file".toList

def readDashFile : ToolInfo Unit := docsTool "read-file".toList

/-- The digests of the texts that these two tools may hash. -/
def docsDigests : List (Str × Str) :=
  [(hashInput (rawToolIdentity readDotFile) 0, "5fa0755f90cd84c39fded6786c0839f6c4b03f49".toList),
    (hashInput (rawToolIdentity readDotFile) 1, "fb4e1bb08499b607065611f89f570af97786c04b".toList),
    (hashInput (rawToolIdentity readDashFile) 0, "150ee2acab4827eed411a77855ef25143b9cdc61".toList),
    (hashInput (rawToolIdentity readDashFile) 1, "31e91a96f9759edaa540b202af97db0fd1d4272c".toList)]

def docsSha1 : Sha1 where
  hex := fun input => (docsDigests.lookup input).getD (List.replicate 40 '0')
  length := by
    have hall : ∀ entry ∈ docsDigests, entry.2.length = 40 := by decide
    intro input
    cases h : docsDigests.lookup input with
    | none => rfl
    | some digest => exact hall _ (Entries.mem_of_lookup h)
  digits := by
    have hall : ∀ entry ∈ docsDigests, ∀ c ∈ entry.2, c ∈ hexDigits := by
      have hcheck : (docsDigests.all fun entry => entry.2.all hexDigits.contains) = true := by decide
      simpa using hcheck
    intro input
    cases h : docsDigests.lookup input with
    | none =>
        intro c hc
        rw [List.eq_of_mem_replicate hc]
        decide
    | some digest => exact hall _ (Entries.mem_of_lookup h)

theorem docs_nulFree : ∀ tool ∈ [readDotFile, readDashFile], NulFree tool := by
  intro tool h
  simp only [List.mem_cons, List.not_mem_nil, or_false] at h
  rcases h with rfl | rfl <;> exact ⟨by decide, by decide, nofun, by decide, by decide⟩

theorem docs_injOn : Set.InjOn (callableNameHashSuffix docsSha1) (hashInputs [readDotFile, readDashFile]) := by
  have hinputs : ∀ input ∈ hashInputs [readDotFile, readDashFile], input ∈ Entries.keys docsDigests := by
    rintro _ ⟨tool, htool, attempt, hattempt, rfl⟩
    have hsmall : attempt = 0 ∨ attempt = 1 := by
      simp only [List.length_cons, List.length_nil] at hattempt
      omega
    simp only [List.mem_cons, List.not_mem_nil, or_false] at htool
    rcases htool with rfl | rfl <;> rcases hsmall with rfl | rfl <;> simp [Entries.keys, docsDigests]
  have hnodup : ((Entries.keys docsDigests).map (callableNameHashSuffix docsSha1)).Nodup := by decide
  exact fun input hinput other hother => List.inj_on_of_nodup_map hnodup (hinputs _ hinput) (hinputs _ hother)

theorem docs_qualified :
    (∃ qualified, (∀ fuel ≥ 2, qualifyTools docsSha1 fuel [readDotFile, readDashFile] = some qualified) ∧
      QualifiesTools [readDotFile, readDashFile] qualified) ∧
    ∀ fuel, qualifyTools docsSha1 fuel [readDashFile, readDotFile] =
      qualifyTools docsSha1 fuel [readDotFile, readDashFile] :=
  have h := qualifyTools_qualifies docsSha1 [readDotFile, readDashFile] docs_nulFree docs_injOn
  ⟨h.1, h.2 (by decide) _ (List.Perm.swap ..)⟩

end Codrex.Mcp
