import Codrex.History.Spec
import Codrex.Lib.Splice
import Mathlib.Data.List.Flatten

/-!
# What normalising keeps and adds
-/

namespace Codrex.History

open Text

/-! ## Lists -/

/-- Inserting behind remembered indices, the last one first, is inserting behind each item. -/
theorem foldl_insertIdx {α : Type} (f : α → Option α) (done items : List α) :
    ((items.zipIdx done.length).filterMap fun (item, idx) => (f item).map fun output => (idx, output)).reverse.foldl
        (fun items (idx, output) => items.insertIdx (idx + 1) output) (done ++ items) =
      done ++ items.flatMap fun item => item :: (f item).toList := by
  induction items generalizing done with
  | nil => simp
  | cons item rest ih =>
      have hrest := ih (done ++ [item])
      rw [List.length_append, List.length_singleton, List.append_assoc, List.singleton_append] at hrest
      cases hf : f item with
      | none =>
          rw [List.zipIdx_cons, List.filterMap_cons_none (by simp [hf]), hrest]
          simp [hf]
      | some output =>
          rw [List.zipIdx_cons, List.filterMap_cons]
          simp only [hf, Option.map_some]
          rw [List.reverse_cons, List.foldl_append, hrest]
          simp only [List.foldl_cons, List.foldl_nil, List.flatMap_cons, hf]
          have hinsert := Splice.insertIdx_append_length (done ++ [item]) output (rest.flatMap fun item => item :: (f item).toList)
          rw [List.length_append, List.length_singleton] at hinsert
          simpa using hinsert

/-- Where an element of a `flatMap` comes from. -/
theorem flatMap_eq_append_cons {α β : Type} {f : α → List β} {items : List α} {before after : List β} {x : β}
    (h : items.flatMap f = before ++ x :: after) :
    ∃ front item rest inner outer, items = front ++ item :: rest ∧ f item = inner ++ x :: outer ∧
      before = front.flatMap f ++ inner ∧ after = outer ++ rest.flatMap f := by
  induction items generalizing before with
  | nil => simp at h
  | cons item rest ih =>
      rw [List.flatMap_cons, List.append_eq_append_iff] at h
      rcases h with ⟨mid, hbefore, hrest⟩ | ⟨mid, hitem, hmid⟩
      · obtain ⟨front, other, tail, inner, outer, rfl, hf, hmid, hafter⟩ := ih hrest
        exact ⟨item :: front, other, tail, inner, outer, rfl, hf, by simp [hbefore, hmid], hafter⟩
      · cases mid with
        | nil =>
            rw [List.append_nil] at hitem
            rw [List.nil_append] at hmid
            obtain ⟨front, other, tail, inner, outer, rfl, hf, hinner, hafter⟩ := @ih [] hmid.symm
            refine ⟨item :: front, other, tail, inner, outer, rfl, hf, ?_, hafter⟩
            rw [List.flatMap_cons, List.append_assoc, ← hinner, hitem, List.append_nil]
        | cons y outer =>
            rw [List.cons_append, List.cons.injEq] at hmid
            obtain ⟨rfl, rfl⟩ := hmid
            exact ⟨[], item, rest, before, outer, rfl, hitem, rfl, rfl⟩

/-! ## Keys -/

theorem outputKey_synthetic (key : OutputKind × Str) : (synthetic key).outputKey = some key := by
  obtain ⟨kind, callId⟩ := key
  cases kind <;> rfl

theorem callKey_synthetic (key : OutputKind × Str) : (synthetic key).callKey = none := by
  obtain ⟨kind, callId⟩ := key
  cases kind <;> rfl

variable {item call : ResponseItem} {key : OutputKind × Str} {items : List ResponseItem}

/-- A call is no output. -/
theorem outputKey_of_callKey (h : item.callKey = some key) : item.outputKey = none := by
  cases item <;> first | rfl | cases h

theorem outputKey_of_neededKey (h : item.neededKey = some key) : item.outputKey = some key := by
  cases item with
  | toolSearchOutput callId status execution tools =>
      by_cases hserver : execution = "server".toList
      · simp only [ResponseItem.neededKey, hserver, if_true, reduceCtorEq] at h
      · simp only [ResponseItem.neededKey, hserver, if_false] at h
        cases callId with
        | none => cases h
        | some callId => exact h
  | _ => exact h

theorem isFunctionCallOutputFor_iff (callId : Str) (item : ResponseItem) :
    isFunctionCallOutputFor callId item = true ↔ item.outputKey = some (.function, callId) := by
  cases item with
  | toolSearchOutput existing status execution tools =>
      cases existing <;> simp [isFunctionCallOutputFor, ResponseItem.outputKey]
  | _ => simp [isFunctionCallOutputFor, ResponseItem.outputKey]

theorem isCustomToolCallOutputFor_iff (callId : Str) (item : ResponseItem) :
    isCustomToolCallOutputFor callId item = true ↔ item.outputKey = some (.custom, callId) := by
  cases item with
  | toolSearchOutput existing status execution tools =>
      cases existing <;> simp [isCustomToolCallOutputFor, ResponseItem.outputKey]
  | _ => simp [isCustomToolCallOutputFor, ResponseItem.outputKey]

theorem isToolSearchOutputFor_iff (callId : Str) (item : ResponseItem) :
    isToolSearchOutputFor callId item = true ↔ item.outputKey = some (.toolSearch, callId) := by
  cases item with
  | toolSearchOutput existing status execution tools =>
      cases existing <;> simp [isToolSearchOutputFor, ResponseItem.outputKey]
  | _ => simp [isToolSearchOutputFor, ResponseItem.outputKey]

/-- One arm of the loop, for any kind of call. -/
theorem missing_arm {p : ResponseItem → Bool} {output added : ResponseItem}
    (hp : ∀ item, p item = true ↔ item.outputKey = some key) :
    (if items.any p then none else some added) = some output ↔
      (∀ found ∈ items, found.outputKey ≠ some key) ∧ output = added := by
  have hany : items.any p = true ↔ ∃ found ∈ items, found.outputKey = some key := by
    simp only [List.any_eq_true, hp]
  by_cases h : items.any p = true
  · obtain ⟨found, hfound, hkey⟩ := hany.mp h
    simp only [h, if_true, reduceCtorEq, false_iff, not_and]
    exact fun hnone => absurd hkey (hnone found hfound)
  · have hnone : ∀ found ∈ items, found.outputKey ≠ some key :=
      fun found hfound hkey => h (hany.mpr ⟨found, hfound, hkey⟩)
    simp only [h, Bool.false_eq_true, if_false, Option.some.injEq]
    exact ⟨fun heq => ⟨hnone, heq.symm⟩, fun hboth => hboth.2.symm⟩

/-- An item that is a call gets an output where there is none. -/
theorem missingOutput_eq_some {output : ResponseItem} :
    missingOutput items item = some output ↔
      ∃ key, item.callKey = some key ∧ (∀ found ∈ items, found.outputKey ≠ some key) ∧ output = synthetic key := by
  have arm : ∀ {p : ResponseItem → Bool} {key : OutputKind × Str},
      (∀ item, p item = true ↔ item.outputKey = some key) →
        ((if items.any p then none else some (synthetic key)) = some output ↔
          ∃ found, some key = some found ∧ (∀ item ∈ items, item.outputKey ≠ some found) ∧ output = synthetic found) := by
    intro p key hp
    rw [missing_arm hp]
    simp
  cases item with
  | functionCall id name space arguments callId => exact arm (isFunctionCallOutputFor_iff callId)
  | localShellCall id callId =>
      cases callId with
      | none => simp [missingOutput, ResponseItem.callKey]
      | some callId => exact arm (isFunctionCallOutputFor_iff callId)
  | customToolCall id status callId name input => exact arm (isCustomToolCallOutputFor_iff callId)
  | toolSearchCall id callId status execution arguments =>
      cases callId with
      | none => simp [missingOutput, ResponseItem.callKey]
      | some callId => exact arm (isToolSearchOutputFor_iff callId)
  | _ => simp [missingOutput, ResponseItem.callKey]

theorem ensureCallOutputsPresent_eq (items : List ResponseItem) :
    ensureCallOutputsPresent items = items.flatMap fun item => item :: (missingOutput items item).toList :=
  foldl_insertIdx (missingOutput items) [] items

theorem not_isOrphan_iff :
    ¬ item.IsOrphan items ↔ ∀ key, item.neededKey = some key → ∃ call ∈ items, call.callKey = some key := by
  simp [ResponseItem.IsOrphan]

theorem mem_functionCallIds {callId : Str} :
    callId ∈ functionCallIds items ∨ callId ∈ localShellCallIds items ↔
      ∃ call ∈ items, call.callKey = some (.function, callId) := by
  unfold functionCallIds localShellCallIds
  rw [List.mem_filterMap, List.mem_filterMap, ← exists_or]
  apply exists_congr
  intro call
  rw [← and_or_left]
  apply and_congr_right'
  cases call with
  | localShellCall id shellId => cases shellId <;> simp [ResponseItem.callKey]
  | toolSearchCall id searchId status execution arguments => cases searchId <;> simp [ResponseItem.callKey]
  | _ => simp [ResponseItem.callKey]

theorem mem_customToolCallIds {callId : Str} :
    callId ∈ customToolCallIds items ↔ ∃ call ∈ items, call.callKey = some (.custom, callId) := by
  unfold customToolCallIds
  rw [List.mem_filterMap]
  apply exists_congr
  intro call
  apply and_congr_right'
  cases call with
  | localShellCall id shellId => cases shellId <;> simp [ResponseItem.callKey]
  | toolSearchCall id searchId status execution arguments => cases searchId <;> simp [ResponseItem.callKey]
  | _ => simp [ResponseItem.callKey]

theorem mem_toolSearchCallIds {callId : Str} :
    callId ∈ toolSearchCallIds items ↔ ∃ call ∈ items, call.callKey = some (.toolSearch, callId) := by
  unfold toolSearchCallIds
  rw [List.mem_filterMap]
  apply exists_congr
  intro call
  apply and_congr_right'
  cases call with
  | localShellCall id shellId => cases shellId <;> simp [ResponseItem.callKey]
  | toolSearchCall id searchId status execution arguments => cases searchId <;> simp [ResponseItem.callKey]
  | _ => simp [ResponseItem.callKey]

/-- What `retain` keeps: everything but orphans. -/
theorem hasMatch_iff : hasMatch items item = true ↔ ¬ item.IsOrphan items := by
  rw [not_isOrphan_iff]
  cases item with
  | functionCallOutput callId output =>
      simp [hasMatch, ResponseItem.neededKey, ResponseItem.outputKey, mem_functionCallIds]
  | customToolCallOutput callId name output =>
      simp [hasMatch, ResponseItem.neededKey, ResponseItem.outputKey, mem_customToolCallIds]
  | toolSearchOutput callId status execution tools =>
      by_cases hserver : execution = "server".toList
      · simp [hasMatch, ResponseItem.neededKey, hserver]
      · simp only [hasMatch, ResponseItem.neededKey, hserver, if_false]
        cases callId with
        | none => simp
        | some callId => simp [mem_toolSearchCallIds]
  | _ => simp [hasMatch, ResponseItem.neededKey, ResponseItem.outputKey]

/-- Every call has an output and every output has the call it needs. -/
structure Paired (items : List ResponseItem) : Prop where
  answered : ∀ call ∈ items, ∀ key, call.callKey = some key → ∃ output ∈ items, output.outputKey = some key
  called : ∀ output ∈ items, ∀ key, output.neededKey = some key → ∃ call ∈ items, call.callKey = some key

/-! ## Images -/

section Strip

variable (item : ResponseItem)

@[simp] theorem callKey_stripImages : item.stripImages.callKey = item.callKey := by
  cases item <;> rfl

@[simp] theorem outputKey_stripImages : item.stripImages.outputKey = item.outputKey := by
  cases item <;> rfl

@[simp] theorem neededKey_stripImages : item.stripImages.neededKey = item.neededKey := by
  cases item <;> rfl

@[simp] theorem isGhostSnapshot_stripImages : item.stripImages.isGhostSnapshot = item.isGhostSnapshot := by
  cases item <;> rfl

theorem stripImages_stripImages : item.stripImages.stripImages = item.stripImages := by
  have hcontent : ∀ content : ContentItem, content.stripImage.stripImage = content.stripImage := by
    intro content
    cases content <;> rfl
  have houtput : ∀ output : FunctionCallOutputPayload, output.stripImages.stripImages = output.stripImages := by
    rintro ⟨body, success⟩
    cases body with
    | text content => rfl
    | contentItems items =>
        have hitem : ∀ content : FunctionCallOutputContentItem, content.stripImage.stripImage = content.stripImage := by
          intro content
          cases content <;> rfl
        simp [FunctionCallOutputPayload.stripImages, hitem]
  cases item with
  | message id role content phase => simp [ResponseItem.stripImages, hcontent]
  | functionCallOutput callId output => simp [ResponseItem.stripImages, houtput]
  | customToolCallOutput callId name output => simp [ResponseItem.stripImages, houtput]
  | _ => rfl

theorem hasImage_output_stripImages (output : FunctionCallOutputPayload) : output.stripImages.hasImage = false := by
  obtain ⟨body, success⟩ := output
  cases body with
  | text content => rfl
  | contentItems items =>
      simp only [FunctionCallOutputPayload.stripImages, FunctionCallOutputPayload.hasImage, List.any_map,
        List.any_eq_false]
      intro content _
      cases content <;> exact Bool.false_ne_true

theorem hasImage_stripImages : item.stripImages.hasImage = false := by
  cases item with
  | message id role content phase =>
      simp only [ResponseItem.stripImages, ResponseItem.hasImage, List.any_map, List.any_eq_false]
      intro content _
      cases content <;> exact Bool.false_ne_true
  | functionCallOutput callId output => exact hasImage_output_stripImages output
  | customToolCallOutput callId name output => exact hasImage_output_stripImages output
  | _ => rfl

variable {item} in
theorem stripImages_of_callKey {key : OutputKind × Str} (h : item.callKey = some key) : item.stripImages = item := by
  cases item <;> first | rfl | cases h

end Strip

theorem stripImagesWhenUnsupported_eq (inputModalities : List InputModality) (items : List ResponseItem) :
    stripImagesWhenUnsupported inputModalities items = items.map (strip inputModalities) := by
  unfold stripImagesWhenUnsupported strip
  split
  · simp
  · rfl

section

variable {inputModalities : List InputModality} (item : ResponseItem)

@[simp] theorem callKey_strip : (strip inputModalities item).callKey = item.callKey := by
  unfold strip
  split <;> simp

@[simp] theorem outputKey_strip : (strip inputModalities item).outputKey = item.outputKey := by
  unfold strip
  split <;> simp

@[simp] theorem neededKey_strip : (strip inputModalities item).neededKey = item.neededKey := by
  unfold strip
  split <;> simp

@[simp] theorem isGhostSnapshot_strip : (strip inputModalities item).isGhostSnapshot = item.isGhostSnapshot := by
  unfold strip
  split <;> simp

theorem strip_strip : strip inputModalities (strip inputModalities item) = strip inputModalities item := by
  unfold strip
  split
  · rfl
  · exact stripImages_stripImages item

variable {item} in
theorem strip_of_callKey {key : OutputKind × Str} (h : item.callKey = some key) :
    strip inputModalities item = item := by
  unfold strip
  split
  · rfl
  · exact stripImages_of_callKey h

end

/-! ## Pairs -/

theorem mem_ensureCallOutputsPresent :
    item ∈ ensureCallOutputsPresent items ↔ item ∈ items ∨ ∃ call ∈ items, missingOutput items call = some item := by
  rw [ensureCallOutputsPresent_eq, List.mem_flatMap]
  constructor
  · rintro ⟨call, hcall, hitem⟩
    rcases List.mem_cons.mp hitem with rfl | hitem
    · exact Or.inl hcall
    · exact Or.inr ⟨call, hcall, Option.mem_toList.mp hitem⟩
  · rintro (hitem | ⟨call, hcall, hitem⟩)
    · exact ⟨item, hitem, List.mem_cons_self⟩
    · exact ⟨call, hcall, List.mem_cons_of_mem _ (Option.mem_toList.mpr hitem)⟩

/-- No call is added. -/
theorem isOrphan_ensureCallOutputsPresent : item.IsOrphan (ensureCallOutputsPresent items) ↔ item.IsOrphan items := by
  unfold ResponseItem.IsOrphan
  apply exists_congr
  intro key
  apply and_congr_right'
  constructor
  · intro h call hcall
    exact h call (mem_ensureCallOutputsPresent.mpr (Or.inl hcall))
  · intro h call hcall
    rcases mem_ensureCallOutputsPresent.mp hcall with hcall | ⟨source, -, hadded⟩
    · exact h call hcall
    · obtain ⟨other, -, -, rfl⟩ := missingOutput_eq_some.mp hadded
      rw [callKey_synthetic]
      exact Option.some_ne_none key |>.symm

/-- An item that answers a call that is there is no orphan. -/
theorem not_isOrphan_of_outputKey {output : ResponseItem} (hcall : call ∈ items) (hkey : call.callKey = some key)
    (houtput : output.outputKey = some key) : ¬ output.IsOrphan items := by
  rw [not_isOrphan_iff]
  intro other hother
  rw [outputKey_of_neededKey hother] at houtput
  cases houtput
  exact ⟨call, hcall, hkey⟩

theorem mem_normalizeHistory {inputModalities : List InputModality} :
    item ∈ normalizeHistory inputModalities items ↔
      ∃ source ∈ ensureCallOutputsPresent items, ¬ source.IsOrphan items ∧ strip inputModalities source = item := by
  rw [normalizeHistory, stripImagesWhenUnsupported_eq, removeOrphanOutputs, List.mem_map]
  simp only [List.mem_filter, hasMatch_iff, isOrphan_ensureCallOutputsPresent, and_assoc]

/-- A call has an output, of the history or a synthetic one. -/
theorem exists_output (hcall : call ∈ items) (hkey : call.callKey = some key) :
    ∃ output ∈ ensureCallOutputsPresent items, output.outputKey = some key := by
  by_cases hnone : ∀ found ∈ items, found.outputKey ≠ some key
  · have hadded : missingOutput items call = some (synthetic key) :=
      missingOutput_eq_some.mpr ⟨key, hkey, hnone, rfl⟩
    exact ⟨synthetic key, mem_ensureCallOutputsPresent.mpr (Or.inr ⟨call, hcall, hadded⟩), outputKey_synthetic key⟩
  · push Not at hnone
    obtain ⟨output, houtput, hfound⟩ := hnone
    exact ⟨output, mem_ensureCallOutputsPresent.mpr (Or.inl houtput), hfound⟩

theorem not_isOrphan_of_callKey (hkey : call.callKey = some key) : ¬ call.IsOrphan items := by
  rintro ⟨other, hneeded, -⟩
  have hnone := outputKey_of_callKey hkey
  rw [outputKey_of_neededKey hneeded] at hnone
  cases hnone

/-- A call of the result is one of the history. -/
theorem mem_of_callKey (hcall : call ∈ ensureCallOutputsPresent items) (hkey : call.callKey = some key) :
    call ∈ items := by
  rcases mem_ensureCallOutputsPresent.mp hcall with hcall | ⟨source, -, hadded⟩
  · exact hcall
  · obtain ⟨other, -, -, rfl⟩ := missingOutput_eq_some.mp hadded
    rw [callKey_synthetic] at hkey
    cases hkey

theorem paired_normalizeHistory (inputModalities : List InputModality) (items : List ResponseItem) :
    Paired (normalizeHistory inputModalities items) := by
  constructor
  case answered =>
    intro call hcall key hkey
    obtain ⟨source, hsource, -, rfl⟩ := mem_normalizeHistory.mp hcall
    rw [callKey_strip] at hkey
    have hmem := mem_of_callKey hsource hkey
    obtain ⟨output, houtput, hanswer⟩ := exists_output hmem hkey
    refine ⟨strip inputModalities output, mem_normalizeHistory.mpr ⟨output, houtput, ?_, rfl⟩, ?_⟩
    · exact not_isOrphan_of_outputKey hmem hkey hanswer
    · rw [outputKey_strip, hanswer]
  case called =>
    intro output houtput key hneeded
    obtain ⟨source, -, hkept, rfl⟩ := mem_normalizeHistory.mp houtput
    rw [neededKey_strip] at hneeded
    obtain ⟨call, hcall, hkey⟩ := not_isOrphan_iff.mp hkept key hneeded
    refine ⟨strip inputModalities call, mem_normalizeHistory.mpr ⟨call, ?_, ?_, rfl⟩, ?_⟩
    · exact mem_ensureCallOutputsPresent.mpr (Or.inl hcall)
    · exact not_isOrphan_of_callKey hkey
    · rw [callKey_strip, hkey]

theorem not_isGhostSnapshot_of_callKey (h : item.callKey = some key) : item.isGhostSnapshot = false := by
  cases item <;> first | rfl | cases h

theorem not_isGhostSnapshot_of_outputKey (h : item.outputKey = some key) : item.isGhostSnapshot = false := by
  cases item <;> first | rfl | cases h

theorem Paired.filter_not_ghost (h : Paired items) : Paired (items.filter fun item => !item.isGhostSnapshot) := by
  constructor
  case answered =>
    intro call hcall key hkey
    obtain ⟨output, houtput, hanswer⟩ := h.answered call (List.mem_filter.mp hcall).1 key hkey
    exact ⟨output, List.mem_filter.mpr ⟨houtput, by simp [not_isGhostSnapshot_of_outputKey hanswer]⟩, hanswer⟩
  case called =>
    intro output houtput key hneeded
    obtain ⟨call, hcall, hkey⟩ := h.called output (List.mem_filter.mp houtput).1 key hneeded
    exact ⟨call, List.mem_filter.mpr ⟨hcall, by simp [not_isGhostSnapshot_of_callKey hkey]⟩, hkey⟩

theorem ensureCallOutputsPresent_of_paired (h : Paired items) : ensureCallOutputsPresent items = items := by
  have hnone : ∀ item ∈ items, missingOutput items item = none := by
    intro item hitem
    rw [Option.eq_none_iff_forall_ne_some]
    intro added hadded
    obtain ⟨key, hkey, hmissing, -⟩ := missingOutput_eq_some.mp hadded
    obtain ⟨output, houtput, hanswer⟩ := h.answered item hitem key hkey
    exact hmissing output houtput hanswer
  rw [ensureCallOutputsPresent_eq]
  calc
    items.flatMap (fun item => item :: (missingOutput items item).toList) = items.flatMap fun item => [item] := by
      apply List.flatMap_congr
      intro item hitem
      rw [hnone item hitem]
      rfl
    _ = items := by simp

theorem normalizeHistory_of_paired {inputModalities : List InputModality} (h : Paired items)
    (hstrip : ∀ item ∈ items, strip inputModalities item = item) : normalizeHistory inputModalities items = items := by
  have hkept : removeOrphanOutputs items = items := by
    apply List.filter_eq_self.mpr
    intro item hitem
    rw [hasMatch_iff, not_isOrphan_iff]
    exact h.called item hitem
  rw [normalizeHistory, ensureCallOutputsPresent_of_paired h, hkept, stripImagesWhenUnsupported_eq]
  exact (List.map_congr_left hstrip).trans (List.map_id items)

/-! ## The place of the outputs -/

variable {inputModalities : List InputModality} {items : List ResponseItem}

theorem forPrompt_eq (inputModalities : List InputModality) (items : List ResponseItem) :
    forPrompt inputModalities items = items.flatMap (render inputModalities items) := by
  have hmatch : hasMatch (ensureCallOutputsPresent items) = hasMatch items := by
    funext item
    rw [Bool.eq_iff_iff, hasMatch_iff, hasMatch_iff, isOrphan_ensureCallOutputsPresent]
  rw [forPrompt, normalizeHistory, stripImagesWhenUnsupported_eq, removeOrphanOutputs, hmatch,
    ensureCallOutputsPresent_eq]
  simp only [List.filter_flatMap, List.map_flatMap]
  rfl

theorem mem_render {shown : ResponseItem} :
    shown ∈ render inputModalities items item ↔
      ∃ source, (source = item ∨ missingOutput items item = some source) ∧ ¬ source.IsOrphan items ∧
        source.isGhostSnapshot = false ∧ strip inputModalities source = shown := by
  simp only [render, List.mem_filter, List.mem_map, List.mem_cons, Option.mem_toList, hasMatch_iff]
  constructor
  · rintro ⟨⟨source, ⟨hsource, hkept⟩, rfl⟩, hghost⟩
    exact ⟨source, hsource, hkept, by simpa using hghost, rfl⟩
  · rintro ⟨source, hsource, hkept, hghost, rfl⟩
    exact ⟨⟨source, ⟨hsource, hkept⟩, rfl⟩, by simpa using hghost⟩

/-- A call stands for itself, with its synthetic output behind it. -/
theorem render_of_callKey (hcall : call ∈ items) (hkey : call.callKey = some key) :
    render inputModalities items call = call :: ((missingOutput items call).toList.map (strip inputModalities)) := by
  have hself : hasMatch items call = true := hasMatch_iff.mpr (not_isOrphan_of_callKey hkey)
  have hghost : call.isGhostSnapshot = false := not_isGhostSnapshot_of_callKey hkey
  cases hmissing : missingOutput items call with
  | none => simp [render, hmissing, hself, hghost, strip_of_callKey hkey]
  | some added =>
      obtain ⟨other, hother, -, rfl⟩ := missingOutput_eq_some.mp hmissing
      have hadded : hasMatch items (synthetic other) = true :=
        hasMatch_iff.mpr (not_isOrphan_of_outputKey hcall hother (outputKey_synthetic other))
      have hsynthetic := not_isGhostSnapshot_of_outputKey (outputKey_synthetic other)
      simp [render, hmissing, hself, hghost, hadded, hsynthetic, strip_of_callKey hkey]

theorem exists_mem_flatMap_render (inputModalities : List InputModality) {part : List ResponseItem}
    (hcalled : ∃ call ∈ items, call.callKey = some key) (h : ∃ output ∈ part, output.outputKey = some key) :
    ∃ output ∈ part.flatMap (render inputModalities items), output.outputKey = some key := by
  obtain ⟨output, houtput, hanswer⟩ := h
  obtain ⟨call, hcall, hkey⟩ := hcalled
  refine ⟨strip inputModalities output, List.mem_flatMap.mpr ⟨output, houtput, mem_render.mpr ?_⟩, ?_⟩
  · exact ⟨output, Or.inl rfl, not_isOrphan_of_outputKey hcall hkey hanswer,
      not_isGhostSnapshot_of_outputKey hanswer, rfl⟩
  · rw [outputKey_strip, hanswer]

theorem callKey_of_synthetic {added : ResponseItem} (h : missingOutput items item = some added) :
    added.callKey = none := by
  obtain ⟨other, -, -, rfl⟩ := missingOutput_eq_some.mp h
  exact callKey_synthetic other

/-- Of the calls none is added and none is left out. -/
theorem calls_render (hitem : item ∈ items) :
    (render inputModalities items item).filter ResponseItem.isCall = [item].filter ResponseItem.isCall := by
  cases hkey : item.callKey with
  | some key =>
      have hadded : ((missingOutput items item).toList.map (strip inputModalities)).filter ResponseItem.isCall = [] := by
        rw [List.filter_eq_nil_iff]
        intro shown hshown
        obtain ⟨added, hmem, rfl⟩ := List.mem_map.mp hshown
        simp [ResponseItem.isCall, callKey_of_synthetic (Option.mem_toList.mp hmem)]
      have hcall : item.isCall = true := by simp [ResponseItem.isCall, hkey]
      rw [render_of_callKey hitem hkey, List.filter_cons_of_pos hcall, hadded, List.filter_cons_of_pos hcall,
        List.filter_nil]
  | none =>
      have hcall : ¬ item.isCall = true := by simp [ResponseItem.isCall, hkey]
      rw [List.filter_cons_of_neg hcall, List.filter_nil, List.filter_eq_nil_iff]
      intro shown hshown
      obtain ⟨source, rfl | hadded, -, -, rfl⟩ := mem_render.mp hshown
      · simp [ResponseItem.isCall, hkey]
      · simp [ResponseItem.isCall, callKey_of_synthetic hadded]

theorem calls_flatMap_render {front : List ResponseItem} (hfront : ∀ item ∈ front, item ∈ items) :
    (front.flatMap (render inputModalities items)).filter ResponseItem.isCall = front.filter ResponseItem.isCall := by
  induction front with
  | nil => rfl
  | cons item front ih =>
      obtain ⟨hitem, hrest⟩ := List.forall_mem_cons.mp hfront
      rw [List.flatMap_cons, List.filter_append, calls_render hitem, ih hrest, ← List.filter_append,
        List.singleton_append]

/-- A call is shown first, and behind it the output that is put in for it. -/
theorem render_split {inner outer : List ResponseItem} (hmem : item ∈ items)
    (hrender : render inputModalities items item = inner ++ call :: outer) (hkey : call.callKey = some key) :
    call = item ∧ inner = [] ∧ outer = (missingOutput items call).toList.map (strip inputModalities) := by
  have hshown : call ∈ render inputModalities items item := by simp [hrender]
  obtain ⟨source, hsource, -, -, hstrip⟩ := mem_render.mp hshown
  have hsourceKey : source.callKey = some key := by rw [← hstrip, callKey_strip] at hkey; exact hkey
  have hitem : source = item := by
    rcases hsource with rfl | hadded
    · rfl
    · rw [callKey_of_synthetic hadded] at hsourceKey
      cases hsourceKey
  obtain rfl : call = item := by rw [← hstrip, ← hitem, strip_of_callKey hsourceKey]
  rw [render_of_callKey hmem hkey] at hrender
  cases inner with
  | nil => exact ⟨rfl, rfl, (List.cons.inj hrender).2.symm⟩
  | cons head tail =>
      have hcall : call ∈ (missingOutput items call).toList.map (strip inputModalities) := by
        simp [(List.cons.inj hrender).2]
      obtain ⟨added, hadded, rfl⟩ := List.mem_map.mp hcall
      rw [callKey_strip, callKey_of_synthetic (Option.mem_toList.mp hadded)] at hkey
      cases hkey

/-- An output is put in only where nothing in the history answers the call. -/
theorem unanswered_of_missing {added : ResponseItem} (hadded : missingOutput items call = some added)
    (hanswer : added.outputKey = some key) : ∀ output ∈ items, output.outputKey ≠ some key := by
  obtain ⟨other, -, hnone, rfl⟩ := missingOutput_eq_some.mp hadded
  rw [outputKey_synthetic] at hanswer
  cases hanswer
  exact hnone

/-- A call of the prompt is the one of the history with the same calls in front. It has an output behind it if it had
one, or if no output had its id. -/
theorem output_behind_call {before after : List ResponseItem}
    (h : forPrompt inputModalities items = before ++ call :: after) (hkey : call.callKey = some key) :
    ∃ front rest, items = front ++ call :: rest ∧
      before.filter ResponseItem.isCall = front.filter ResponseItem.isCall ∧
      ((∃ output ∈ after, output.outputKey = some key) ↔
        (∃ output ∈ rest, output.outputKey = some key) ∨ ∀ output ∈ items, output.outputKey ≠ some key) := by
  rw [forPrompt_eq] at h
  obtain ⟨front, item, rest, inner, outer, hitems, hrender, rfl, rfl⟩ := flatMap_eq_append_cons h
  have hmem : item ∈ items := by simp [hitems]
  obtain ⟨rfl, rfl, houter⟩ := render_split hmem hrender hkey
  have hcalls := @calls_flatMap_render inputModalities items front fun item hfront => by simp [hitems, hfront]
  refine ⟨front, rest, hitems, by rw [List.append_nil, hcalls], ?_, ?_⟩
  · -- What follows the call comes from a later item, or is synthetic, and then nothing in the history answers it.
    rintro ⟨output, houtput, hanswer⟩
    rcases List.mem_append.mp houtput with houtput | houtput
    · rw [houter] at houtput
      obtain ⟨added, hadded, rfl⟩ := List.mem_map.mp houtput
      rw [outputKey_strip] at hanswer
      exact Or.inr (unanswered_of_missing (Option.mem_toList.mp hadded) hanswer)
    · obtain ⟨later, hlater, hshown⟩ := List.mem_flatMap.mp houtput
      obtain ⟨source, hsource, -, -, rfl⟩ := mem_render.mp hshown
      rw [outputKey_strip] at hanswer
      rcases hsource with rfl | hadded
      · exact Or.inl ⟨source, hlater, hanswer⟩
      · exact Or.inr (unanswered_of_missing hadded hanswer)
  · rintro (hlater | hnone)
    · obtain ⟨output, houtput, hanswer⟩ :=
        exists_mem_flatMap_render inputModalities ⟨call, hmem, hkey⟩ hlater
      exact ⟨output, List.mem_append_right _ houtput, hanswer⟩
    · have hadded : missingOutput items call = some (synthetic key) :=
        missingOutput_eq_some.mpr ⟨key, hkey, hnone, rfl⟩
      refine ⟨strip inputModalities (synthetic key), List.mem_append_left _ ?_, ?_⟩
      · rw [houter, hadded]
        exact List.mem_singleton_self _
      · rw [outputKey_strip, outputKey_synthetic]

/-- The items that are kept stay in their order. -/
theorem map_strip_sublist {kept : List ResponseItem} (hsub : kept.Sublist items)
    (hkept : ∀ item ∈ kept, item.isGhostSnapshot = false ∧ ¬ item.IsOrphan items) :
    (kept.map (strip inputModalities)).Sublist (forPrompt inputModalities items) := by
  have hhead : ∀ item ∈ kept, [strip inputModalities item].Sublist (render inputModalities items item) := by
    intro item hitem
    obtain ⟨hghost, horphan⟩ := hkept item hitem
    simp [render, hasMatch_iff.mpr horphan, hghost]
  have hmap : kept.map (strip inputModalities) = kept.flatMap fun item => [strip inputModalities item] :=
    List.map_eq_flatMap
  rw [forPrompt_eq, hmap]
  exact (List.Sublist.flatMap_right kept hhead).trans (hsub.flatMap _)

end Codrex.History
