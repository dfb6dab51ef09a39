import Codrex.Streaming.Controller

/-!
# What a stream emits

At one width the lines of all ticks and of the end are the render of the source. A resize keeps to that where it makes
the render no longer.
-/

namespace Codrex.Streaming

open Text

variable {Line : Type} {render : Renderer Line} {core core' : StreamCore Line} {controller : StreamController Line}
  {deltas raw rest : Str} {emitted : List Line} {width : Option Nat}

/-! ## Runs -/

def Op.delta : Op → Str
  | .push delta => delta
  | _ => []

/-- The controllers that come of a new one, each step within the guard, with the lines that have been emitted. -/
inductive Streamed (render : Renderer Line) (guard : StreamController Line → Op → Prop) (width : Option Nat) :
    List Op → List Line → StreamController Line → Prop
  | new : Streamed render guard width [] [] (.new width)
  | step {ops : List Op} {emitted lines : List Line} {controller controller' : StreamController Line} {op : Op}
      (h : Streamed render guard width ops emitted controller) (hguard : guard controller op)
      (hstep : step render controller op = some (lines, controller')) :
      Streamed render guard width (ops ++ [op]) (emitted ++ lines) controller'

/-- The source as a whole: all deltas, with a newline at the end. -/
def sourceOf (deltas : Str) : Option Str :=
  if deltas = [] then none else some (if deltas.getLast? = some '\n' then deltas else deltas ++ ['\n'])

/-! ## The counters -/

/-- The source up to the last newline has been committed, and no line is counted that has not been enqueued. -/
structure Sound (core : StreamCore Line) (deltas : Str) : Prop where
  buffer : core.state.collector.buffer = deltas
  committed : core.state.collector.committedSourceLen = byteLen core.rawSource
  parts : ∃ rest, deltas = core.rawSource ++ rest ∧ '\n' ∉ rest
  terminated : Terminated core.rawSource
  counters : core.emittedLen + core.queuedLines ≤ core.enqueuedLen

theorem sound_new (width : Option Nat) : Sound (StreamCore.new width : StreamCore Line) [] :=
  ⟨rfl, rfl, ⟨[], rfl, List.not_mem_nil⟩, Terminated.nil, Nat.le_refl _⟩

theorem commitCompleteSource_spec {collector : MarkdownStreamCollector} (hbuffer : collector.buffer = raw ++ rest)
    (hcommitted : collector.committedSourceLen = byteLen raw) (hnewline : '\n' ∈ rest) :
    ∃ front after, rest = front ++ '\n' :: after ∧ '\n' ∉ after ∧ collector.commitCompleteSource =
      some (some (front ++ ['\n']), { collector with committedSourceLen := byteLen (raw ++ front ++ ['\n']) }) := by
  cases hfind : rfindNewline (raw ++ rest) with
  | none => exact absurd (List.mem_append_right raw hnewline) (rfindNewline_eq_none hfind)
  | some idx =>
      obtain ⟨before, after, hparts, rfl, hafter⟩ := rfindNewline_eq_some hfind
      -- the last newline stands behind what has been committed
      obtain ⟨front, hbefore, hrest⟩ : ∃ front, before = raw ++ front ∧ rest = front ++ '\n' :: after := by
        rcases List.append_eq_append_iff.mp hparts with ⟨front, hbefore, hrest⟩ | ⟨tail, hraw, htail⟩
        · exact ⟨front, hbefore, hrest⟩
        · cases tail with
          | nil => exact ⟨[], by simpa using hraw.symm, by simpa using htail.symm⟩
          | cons c tail =>
              obtain ⟨-, rfl⟩ := List.cons.inj htail
              exact absurd (List.mem_append_right tail hnewline) hafter
      refine ⟨front, after, hrest, hafter, ?_⟩
      have hend : byteLen before + 1 = byteLen (raw ++ front ++ ['\n']) := by rw [byteLen_newline, hbefore]
      have hslice : slice (raw ++ rest) (byteLen raw) (byteLen (raw ++ front ++ ['\n'])) = some (front ++ ['\n']) := by
        have hcut := slice_append raw (front ++ ['\n']) after
        rw [hrest]
        simpa using hcut
      have hlt : ¬ byteLen (raw ++ front ++ ['\n']) ≤ byteLen raw := by
        rw [byteLen_newline, byteLen_append]
        omega
      simp only [MarkdownStreamCollector.commitCompleteSource, hbuffer, hfind, Option.map_some, hend, hcommitted,
        if_neg hlt, hslice]

theorem finalizeAndDrainSource_spec {collector : MarkdownStreamCollector} (hbuffer : collector.buffer = raw ++ rest)
    (hcommitted : collector.committedSourceLen = byteLen raw) (hrest : '\n' ∉ rest) :
    collector.finalizeAndDrainSource = some (if rest = [] then [] else rest ++ ['\n'], collector.clear) := by
  rw [MarkdownStreamCollector.finalizeAndDrainSource, hbuffer, hcommitted, byteLen_append]
  split
  · next hle => rw [if_pos (byteLen_eq_zero.mp (by omega))]
  · next hlt =>
      have hne : rest ≠ [] := by
        rintro rfl
        exact hlt (Nat.le_refl _)
      have hslice : slice (raw ++ rest) (byteLen raw) (byteLen raw + byteLen rest) = some rest := by
        have hcut := slice_append raw rest []
        rwa [List.append_nil, byteLen_append] at hcut
      have hlast : rest.getLast? ≠ some '\n' := fun hlast => hrest (List.mem_of_getLast? hlast)
      rw [hslice, Option.map_some, if_neg hlast, if_neg hne]

/-- The queue is what has been rendered and not emitted. -/
theorem rebuildQueueFromRender_eq (core : StreamCore Line) : core.rebuildQueueFromRender =
    some { core with
      state := { core.state with queuedLines := core.renderedLines.drop core.emittedLen }
      enqueuedLen := max core.renderedLines.length core.emittedLen } := by
  simp only [StreamCore.rebuildQueueFromRender]
  split
  · next hlt =>
      have hmax : max core.renderedLines.length core.emittedLen = core.renderedLines.length := by omega
      rw [sliceLines, if_pos (by omega), Option.map_some, hmax, List.take_length]
      rfl
  · next hge =>
      rw [List.drop_eq_nil_of_le (by omega)]
      rfl

theorem syncQueueToRender_spec (h : core.emittedLen + core.queuedLines ≤ core.enqueuedLen) :
    ∃ changed lines enqueuedLen, core.syncQueueToRender = some (changed, { core with
        state := { core.state with queuedLines := lines }, enqueuedLen := enqueuedLen }) ∧
      core.emittedLen + lines.length ≤ enqueuedLen ∧ (core.enqueuedLen ≤ core.renderedLines.length →
        lines = core.state.queuedLines ++ core.renderedLines.drop core.enqueuedLen ∧
          enqueuedLen = core.renderedLines.length) := by
  rw [StreamCore.queuedLines, StreamState.queuedLen] at h
  simp only [StreamCore.syncQueueToRender]
  split
  · next hlt =>
      rw [rebuildQueueFromRender_eq, Option.map_some]
      refine ⟨_, _, _, rfl, ?_, fun hle => by omega⟩
      rw [List.length_drop]
      omega
  · split
    · next heq =>
        refine ⟨false, core.state.queuedLines, core.enqueuedLen, rfl, h, fun hle => ⟨?_, by omega⟩⟩
        rw [List.drop_eq_nil_of_le (by omega), List.append_nil]
    · have hmax : max core.renderedLines.length core.emittedLen = core.renderedLines.length := by omega
      rw [hmax, sliceLines, if_pos (by omega), Option.map_some, List.take_length]
      refine ⟨true, _, _, rfl, ?_, fun _ => ⟨rfl, rfl⟩⟩
      rw [List.length_append, List.length_drop]
      omega

/-! ## Steps of the core -/

/-- A delta without a newline only fills the buffer. Another one brings whole lines of source, and the lines of the
render that are new are enqueued. -/
inductive Pushed (render : Renderer Line) (core core' : StreamCore Line) : Prop
  | waiting (hraw : core'.rawSource = core.rawSource) (hrendered : core'.renderedLines = core.renderedLines)
      (hqueue : core'.state.queuedLines = core.state.queuedLines) (henqueued : core'.enqueuedLen = core.enqueuedLen)
  | rendered (front : Str) (hraw : core'.rawSource = core.rawSource ++ (front ++ ['\n']))
      (hrendered : core'.renderedLines = render core'.rawSource core.width)
      (hqueue : core.enqueuedLen ≤ core'.renderedLines.length →
        core'.state.queuedLines = core.state.queuedLines ++ core'.renderedLines.drop core.enqueuedLen ∧
          core'.enqueuedLen = core'.renderedLines.length)

theorem pushDelta_spec (render : Renderer Line) (h : Sound core deltas) (delta : Str) :
    ∃ changed core', core.pushDelta render delta = some (changed, core') ∧ Sound core' (deltas ++ delta) ∧
      core'.width = core.width ∧ core'.emittedLen = core.emittedLen ∧ Pushed render core core' := by
  obtain ⟨hbuffer, hcommitted, ⟨rest, hparts, hrest⟩, hterminated, hcounters⟩ := h
  have hbuffer' : core.state.collector.buffer ++ delta = core.rawSource ++ (rest ++ delta) := by
    rw [hbuffer, hparts, List.append_assoc]
  simp only [StreamCore.pushDelta]
  split
  · next hnone =>
      refine ⟨_, _, rfl, ⟨?_, hcommitted, ⟨rest ++ delta, ?_, ?_⟩, hterminated, hcounters⟩, rfl, rfl,
        .waiting rfl rfl rfl rfl⟩
      · show core.state.collector.buffer ++ delta = _
        rw [hbuffer]
      · rw [hparts, List.append_assoc]
      · exact fun hmem => (List.mem_append.mp hmem).elim hrest hnone
  · next hsome =>
      have hnewline : '\n' ∈ rest ++ delta := List.mem_append_right _ (not_not.mp hsome)
      obtain ⟨front, after, hfront, hafter, hcommit⟩ := @commitCompleteSource_spec _ _
        (core.state.collector.pushDelta delta) hbuffer' hcommitted hnewline
      rw [hcommit, Option.bind_some]
      obtain ⟨changed, lines, enqueuedLen, hsync, hle, hqueue⟩ := @syncQueueToRender_spec Line
        ({ core with
          state := { core.state with
            collector := { core.state.collector.pushDelta delta with
              committedSourceLen := byteLen (core.rawSource ++ front ++ ['\n']) }
            hasSeenDelta := core.state.hasSeenDelta || delta ≠ [] }
          rawSource := core.rawSource ++ (front ++ ['\n']) }.recomputeRender render) hcounters
      refine ⟨changed, _, hsync, ⟨?_, ?_, ⟨after, ?_, hafter⟩, ?_, hle⟩, rfl, rfl, .rendered front rfl rfl hqueue⟩
      · show core.state.collector.buffer ++ delta = _
        rw [hbuffer]
      · show byteLen (core.rawSource ++ front ++ ['\n']) = byteLen (core.rawSource ++ (front ++ ['\n']))
        rw [List.append_assoc]
      · show deltas ++ delta = core.rawSource ++ (front ++ ['\n']) ++ after
        rw [hparts, List.append_assoc, hfront]
        simp
      · refine hterminated.append fun last hlast => ?_
        simpa using hlast.symm

/-- Taking lines off the queue. -/
def StreamCore.drain (core : StreamCore Line) (n : Nat) : List Line × StreamCore Line :=
  (core.state.queuedLines.take n, { core with
    state := { core.state with queuedLines := core.state.queuedLines.drop n }
    emittedLen := core.emittedLen + (core.state.queuedLines.take n).length })

theorem tick_eq (core : StreamCore Line) : core.tick = core.drain 1 := rfl

theorem tickBatch_eq (core : StreamCore Line) (maxLines : Nat) : core.tickBatch maxLines = core.drain maxLines := by
  rw [StreamCore.tickBatch, StreamCore.drain]
  split
  · next hzero =>
      subst hzero
      rfl
  · simp only [StreamState.drainN, ← List.take_eq_take_min, ← List.drop_eq_drop_min]

theorem Sound.drain (h : Sound core deltas) (n : Nat) : Sound (core.drain n).2 deltas := by
  refine ⟨h.buffer, h.committed, h.parts, h.terminated, ?_⟩
  have hcounters := h.counters
  simp only [StreamCore.drain, StreamCore.queuedLines, StreamState.queuedLen, List.length_take, List.length_drop] at hcounters ⊢
  omega

theorem Sound.clearQueue (h : Sound core deltas) : Sound core.clearQueue deltas :=
  ⟨h.buffer, h.committed, h.parts, h.terminated, Nat.le_refl _⟩

theorem resizedLen_le (emittedLen renderedLen : Nat) (hadPendingQueue : Bool) :
    StreamCore.resizedLen emittedLen renderedLen hadPendingQueue ≤ renderedLen := by
  simp only [StreamCore.resizedLen]
  split <;> omega

theorem setWidth_spec (render : Renderer Line) (h : Sound core deltas) (width : Option Nat) :
    ∃ core', core.setWidth render width = some core' ∧ Sound core' deltas := by
  have hcounters := h.counters
  simp only [StreamCore.setWidth]
  split
  · exact ⟨core, rfl, h⟩
  · split
    · exact ⟨_, rfl, h.buffer, h.committed, h.parts, h.terminated, hcounters⟩
    · split
      · refine ⟨_, rfl, h.buffer, h.committed, h.parts, h.terminated, ?_⟩
        exact resizedLen_le _ _ _
      · rw [rebuildQueueFromRender_eq]
        refine ⟨_, rfl, h.buffer, h.committed, h.parts, h.terminated, ?_⟩
        simp only [StreamCore.queuedLines, StreamState.queuedLen, List.length_drop]
        omega

theorem finalizeRemaining_spec (render : Renderer Line) (h : Sound core deltas) : ∃ rest, deltas = core.rawSource ++ rest ∧ '\n' ∉ rest ∧
    core.finalizeRemaining render = some
      ((render (core.rawSource ++ if rest = [] then [] else rest ++ ['\n']) core.width).drop core.emittedLen, { core with
        state := { core.state with collector := core.state.collector.clear }
        rawSource := core.rawSource ++ if rest = [] then [] else rest ++ ['\n'] }) := by
  obtain ⟨rest, hparts, hrest⟩ := h.parts
  refine ⟨rest, hparts, hrest, ?_⟩
  simp only [StreamCore.finalizeRemaining, finalizeAndDrainSource_spec (h.buffer.trans hparts) h.committed hrest,
    Option.bind_some]
  generalize (if rest = [] then [] else rest ++ ['\n']) = remainder
  split
  · next hle => rw [List.drop_eq_nil_of_le hle]
  · next hlt => rw [sliceLines, if_pos (by omega), Option.map_some, List.take_length]

/-! ## Steps of the controller -/

theorem emit_lines (controller : StreamController Line) (lines : List Line) :
    (((controller.emit lines).1.map (·.lines)).getD [] = lines) ∧ (controller.emit lines).2.core = controller.core := by
  rw [StreamController.emit]
  split
  · next hnil => exact ⟨hnil.symm, rfl⟩
  · exact ⟨rfl, rfl⟩

def coreStep (render : Renderer Line) (core : StreamCore Line) : Op → Option (List Line × StreamCore Line)
  | .push delta => (core.pushDelta render delta).map fun (_, core) => ([], core)
  | .onCommitTick => some (core.drain 1)
  | .onCommitTickBatch maxLines => some (core.drain maxLines)
  | .clearQueue => some ([], core.clearQueue)
  | .setWidth width => (core.setWidth render width).map fun core => ([], core)

/-- The controller adds only the cell to what the core does. -/
theorem step_core (render : Renderer Line) (controller : StreamController Line) (op : Op) :
    (step render controller op).map (fun found => (found.1, found.2.core)) = coreStep render controller.core op := by
  cases op with
  | push delta => simp only [step, coreStep, StreamController.push, Option.map_map, Function.comp_def]
  | onCommitTick =>
      obtain ⟨hlines, hcore⟩ := emit_lines { controller with core := (controller.core.drain 1).2 } (controller.core.drain 1).1
      simp only [step, StreamController.onCommitTick, tick_eq, Option.map_some, hlines, hcore, coreStep]
  | onCommitTickBatch maxLines =>
      obtain ⟨hlines, hcore⟩ := emit_lines { controller with core := (controller.core.drain maxLines).2 }
        (controller.core.drain maxLines).1
      simp only [step, StreamController.onCommitTickBatch, tickBatch_eq, Option.map_some, hlines, hcore, coreStep]
  | clearQueue => rfl
  | setWidth width => simp only [step, coreStep, StreamController.setWidth, Option.map_map, Function.comp_def]

theorem coreStep_spec (render : Renderer Line) (h : Sound core deltas) (op : Op) :
    ∃ lines core', coreStep render core op = some (lines, core') ∧ Sound core' (deltas ++ op.delta) := by
  cases op with
  | push delta =>
      obtain ⟨changed, core', hpush, hsound, -⟩ := pushDelta_spec render h delta
      exact ⟨[], core', by rw [coreStep, hpush]; rfl, hsound⟩
  | onCommitTick => exact ⟨_, _, rfl, (List.append_nil deltas).symm ▸ h.drain 1⟩
  | onCommitTickBatch maxLines => exact ⟨_, _, rfl, (List.append_nil deltas).symm ▸ h.drain maxLines⟩
  | clearQueue => exact ⟨_, _, rfl, (List.append_nil deltas).symm ▸ h.clearQueue⟩
  | setWidth width =>
      obtain ⟨core', hwidth, hsound⟩ := setWidth_spec render h width
      exact ⟨[], core', by rw [coreStep, hwidth]; rfl, (List.append_nil deltas).symm ▸ hsound⟩

/-- Every step succeeds, so no slice panics. -/
theorem exists_step (render : Renderer Line) (h : Sound controller.core deltas) (op : Op) :
    ∃ next, step render controller op = some next := by
  obtain ⟨lines, core', hstep, -⟩ := coreStep_spec render h op
  rw [← step_core] at hstep
  obtain ⟨next, hnext, -⟩ := Option.map_eq_some_iff.mp hstep
  exact ⟨next, hnext⟩

theorem coreStep_of_step {lines : List Line} {controller' : StreamController Line} {op : Op}
    (h : step render controller op = some (lines, controller')) :
    coreStep render controller.core op = some (lines, controller'.core) := by
  rw [← step_core, h]
  rfl

theorem Streamed.sound {guard : StreamController Line → Op → Prop} {ops : List Op}
    (h : Streamed render guard width ops emitted controller) : Sound controller.core (ops.flatMap Op.delta) := by
  induction h with
  | new => exact sound_new width
  | step h hguard hstep ih =>
      obtain ⟨lines, core', hcore, hsound⟩ := coreStep_spec render ih _
      cases (coreStep_of_step hstep).symm.trans hcore
      rw [List.flatMap_append, List.flatMap_singleton]
      exact hsound

/-! ## The end -/

theorem sourceOf_eq (hterminated : Terminated raw) (hrest : '\n' ∉ rest) : sourceOf (raw ++ rest) =
    if raw ++ (if rest = [] then [] else rest ++ ['\n']) = [] then none
    else some (raw ++ if rest = [] then [] else rest ++ ['\n']) := by
  rw [sourceOf]
  by_cases hnil : rest = []
  · rw [hnil, if_pos rfl, List.append_nil]
    split
    · rfl
    · next hne =>
        obtain hraw | ⟨front, rfl⟩ := hterminated.eq_nil_or_concat
        · exact absurd hraw hne
        · simp
  · have hlast : (raw ++ rest).getLast? ≠ some '\n' := by
      rw [List.getLast?_append_of_ne_nil _ hnil]
      exact fun hlast => hrest (List.mem_of_getLast? hlast)
    rw [if_neg hnil, if_neg (by simp [hnil]), if_neg hlast, if_neg (by simp), List.append_assoc]

/-- The end gives back the whole source, and emits the lines of its render that have not been emitted. -/
theorem finalize_spec (render : Renderer Line) (h : Sound controller.core deltas) : ∃ rest cell controller',
    deltas = controller.core.rawSource ++ rest ∧ '\n' ∉ rest ∧
    controller.finalize render = some ((cell, sourceOf deltas), controller') ∧
    (cell.map (·.lines)).getD [] = ((sourceOf deltas).map fun source =>
      (render source controller.core.width).drop controller.core.emittedLen).getD [] := by
  obtain ⟨rest, hparts, hrest, hfinal⟩ := finalizeRemaining_spec render h
  have hsource := sourceOf_eq h.terminated hrest
  rw [← hparts] at hsource
  rw [hsource]
  simp only [StreamController.finalize, hfinal, Option.map_some]
  generalize controller.core.rawSource ++ (if rest = [] then [] else rest ++ ['\n']) = source
  split
  · exact ⟨rest, none, _, hparts, hrest, rfl, rfl⟩
  · refine ⟨rest, _, _, hparts, hrest, rfl, ?_⟩
    exact (emit_lines _ _).1

/-! ## One width -/

/-- More source behind a newline leaves the render that there is as it is. -/
def PrefixStable (render : Renderer Line) : Prop :=
  ∀ front more width, render (front ++ ['\n']) width <+: render (front ++ ['\n'] ++ more) width

/-- What has been emitted and what is queued are the front of the render. -/
structure Exact (render : Renderer Line) (width : Option Nat) (core : StreamCore Line) (emitted : List Line) : Prop where
  sameWidth : core.width = width
  rendered : core.renderedLines = if core.rawSource = [] then [] else render core.rawSource width
  front : emitted ++ core.state.queuedLines = core.renderedLines.take core.enqueuedLen
  length : emitted.length = core.emittedLen
  enqueued : core.enqueuedLen ≤ core.renderedLines.length

theorem rendered_starts (hstable : PrefixStable render) (hterminated : Terminated raw) (more : Str) (width : Option Nat) :
    (if raw = [] then [] else render raw width) <+: render (raw ++ more) width := by
  obtain rfl | ⟨front, rfl⟩ := hterminated.eq_nil_or_concat
  · exact List.nil_prefix
  · rw [if_neg (by simp)]
    exact hstable front more width

theorem Exact.pushDelta (h : Exact render width core emitted) (hstable : PrefixStable render)
    (hterminated : Terminated core.rawSource) (hwidth : core'.width = core.width)
    (hlen : core'.emittedLen = core.emittedLen) (hpush : Pushed render core core') :
    Exact render width core' emitted := by
  cases hpush with
  | waiting hraw hrendered hqueue henqueued =>
      exact ⟨hwidth.trans h.sameWidth, by rw [hrendered, hraw, h.rendered], by rw [hqueue, hrendered, henqueued, h.front],
        by rw [hlen, h.length], by rw [henqueued, hrendered]; exact h.enqueued⟩
  | rendered front hraw hrendered hqueue =>
      have hstarts := rendered_starts hstable hterminated (front ++ ['\n']) core.width
      rw [h.sameWidth, ← h.rendered, ← hraw, ← h.sameWidth, ← hrendered] at hstarts
      obtain ⟨hlines, henqueued⟩ := hqueue (h.enqueued.trans hstarts.length_le)
      refine ⟨hwidth.trans h.sameWidth, ?_, ?_, by rw [hlen, h.length], Nat.le_of_eq henqueued⟩
      · rw [hrendered, if_neg (by simp [hraw]), h.sameWidth]
      · obtain ⟨more, hmore⟩ := hstarts
        rw [hlines, henqueued, ← List.append_assoc, h.front, List.take_length]
        have htake : core.renderedLines.take core.enqueuedLen = core'.renderedLines.take core.enqueuedLen := by
          rw [← hmore, List.take_append_of_le_length h.enqueued]
        rw [htake, List.take_append_drop]

theorem Exact.emitted_eq (h : Exact render width core emitted)
    (hcounters : core.emittedLen + core.queuedLines ≤ core.enqueuedLen) :
    emitted = core.renderedLines.take core.emittedLen := by
  have hfront := congrArg (List.take emitted.length) h.front
  rw [List.take_left' rfl, List.take_take, h.length, Nat.min_eq_left (by omega)] at hfront
  exact hfront

theorem Exact.drain (h : Exact render width core emitted) (n : Nat) :
    Exact render width (core.drain n).2 (emitted ++ (core.drain n).1) where
  sameWidth := h.sameWidth
  rendered := h.rendered
  front := by
    simp only [StreamCore.drain]
    rw [List.append_assoc, List.take_append_drop, h.front]
  length := by
    rw [List.length_append, h.length]
    rfl
  enqueued := h.enqueued

theorem Exact.clearQueue (h : Exact render width core emitted)
    (hcounters : core.emittedLen + core.queuedLines ≤ core.enqueuedLen) :
    Exact render width core.clearQueue emitted where
  sameWidth := h.sameWidth
  rendered := h.rendered
  front := (List.append_nil emitted).trans (h.emitted_eq hcounters)
  length := h.length
  enqueued := by
    have henqueued := h.enqueued
    show core.emittedLen ≤ core.renderedLines.length
    omega

theorem Exact.coreStep {op : Op} {lines : List Line} (h : Exact render width core emitted)
    (hstable : PrefixStable render) (hsound : Sound core deltas) (hop : ∀ other, op = .setWidth other → other = width)
    (hstep : coreStep render core op = some (lines, core')) : Exact render width core' (emitted ++ lines) := by
  cases op with
  | push delta =>
      obtain ⟨changed, pushed, hpush, -, hwidth, hlen, hcases⟩ := pushDelta_spec render hsound delta
      rw [Streaming.coreStep, hpush] at hstep
      cases hstep
      rw [List.append_nil]
      exact h.pushDelta hstable hsound.terminated hwidth hlen hcases
  | onCommitTick =>
      cases hstep
      exact h.drain 1
  | onCommitTickBatch maxLines =>
      cases hstep
      exact h.drain maxLines
  | clearQueue =>
      cases hstep
      rw [List.append_nil]
      exact h.clearQueue hsound.counters
  | setWidth other =>
      obtain rfl := hop other rfl
      rw [Streaming.coreStep, StreamCore.setWidth, if_pos h.sameWidth] at hstep
      cases hstep
      rwa [List.append_nil]

theorem Streamed.exact {guard : StreamController Line → Op → Prop} {ops : List Op}
    (h : Streamed render guard width ops emitted controller) (hstable : PrefixStable render)
    (hops : ∀ other, .setWidth other ∈ ops → other = width) : Exact render width controller.core emitted := by
  induction h with
  | new => exact ⟨rfl, rfl, rfl, rfl, Nat.le_refl 0⟩
  | step h hguard hstep ih =>
      refine (ih fun other hother => hops other (List.mem_append_left _ hother)).coreStep hstable h.sound ?_
        (coreStep_of_step hstep)
      rintro other rfl
      exact hops other (List.mem_append_right _ (List.mem_singleton_self _))

/-- Lines that are the front of a render are followed by the rest of it. -/
theorem Exact.append_drop (h : Exact render width core emitted) {rendered : List Line}
    (hcounters : core.emittedLen + core.queuedLines ≤ core.enqueuedLen) (hstarts : core.renderedLines <+: rendered) :
    emitted ++ rendered.drop core.emittedLen = rendered := by
  obtain ⟨more, hmore⟩ := hstarts
  have hle : core.emittedLen ≤ core.renderedLines.length := by
    have henqueued := h.enqueued
    omega
  have hemitted : emitted = rendered.take core.emittedLen := by
    rw [h.emitted_eq hcounters, ← hmore, List.take_append_of_le_length hle]
  rw [hemitted, List.take_append_drop]

/-- Every step succeeds, no line is counted twice, and the end gives back the source. At one width all lines together
are its render. -/
theorem stream_exact {width : Option Nat} {ops : List Op}
    (h : Streamed render (fun _ _ => True) width ops emitted controller) :
    (∀ op, ∃ next, step render controller op = some next) ∧
    controller.core.emittedLen + controller.queuedLines ≤ controller.core.enqueuedLen ∧
    ∃ cell controller', controller.finalize render = some ((cell, sourceOf (ops.flatMap Op.delta)), controller') ∧
      (PrefixStable render → (∀ other, .setWidth other ∈ ops → other = width) →
        emitted ++ (cell.map (·.lines)).getD [] =
          ((sourceOf (ops.flatMap Op.delta)).map fun source => render source width).getD []) := by
  have hsound := h.sound
  obtain ⟨rest, cell, controller', hparts, hrest, hfinal, hlines⟩ := finalize_spec render hsound
  refine ⟨exists_step render hsound, hsound.counters, cell, controller', hfinal, fun hstable hops => ?_⟩
  have hexact := h.exact hstable hops
  have hsource := sourceOf_eq hsound.terminated hrest
  rw [← hparts] at hsource
  rw [hlines, hsource, hexact.sameWidth]
  by_cases hnil : controller.core.rawSource ++ (if rest = [] then [] else rest ++ ['\n']) = []
  · have hraw := (List.append_eq_nil_iff.mp hnil).1
    have hrendered : controller.core.renderedLines <+: [] := by
      rw [hexact.rendered, if_pos hraw]
    rw [if_pos hnil]
    simpa using hexact.append_drop hsound.counters hrendered
  · rw [if_neg hnil]
    refine hexact.append_drop hsound.counters ?_
    rw [hexact.rendered]
    exact rendered_starts hstable hsound.terminated _ width

/-! ## Resizing -/

/-- The lines of a source that end with a newline, without it. -/
def sourceLines (source : Str) : List Str := (source.splitOn '\n').dropLast

/-- Each line of the source is wrapped by itself, into rows that spell it at every width. -/
structure LineWrapper (Line : Type) where
  wrap : Str → Option Nat → List Line
  text : Line → Str
  wrap_ne_nil : ∀ line width, wrap line width ≠ []
  wrap_text : ∀ line width, (wrap line width).flatMap text = line

def LineWrapper.renderer (wrapper : LineWrapper Line) : Renderer Line :=
  fun source width => (sourceLines source).flatMap fun line => wrapper.wrap line width

/-- The rows are those of the lines, line by line, each line wrapped as it may be. -/
def LineWrapper.Spells (wrapper : LineWrapper Line) (rows : List Line) (lines : List Str) : Prop :=
  ∃ groups : List (List Line), groups.flatten = rows ∧ groups.map (fun rows => rows.flatMap wrapper.text) = lines

/-- The width changes only when no line is queued, and the queue is not cleared. -/
def IdleResizes (controller : StreamController Line) : Op → Prop
  | .setWidth _ => controller.queuedLines = 0
  | .clearQueue => False
  | _ => True

/-- The new width makes the render no longer. -/
def NoLonger (render : Renderer Line) (controller : StreamController Line) : Op → Prop
  | .setWidth width =>
      (render controller.core.rawSource width).length ≤
        (render controller.core.rawSource controller.core.width).length
  | _ => True

variable {wrapper : LineWrapper Line}

theorem sourceLines_append (hterminated : Terminated raw) (more : Str) :
    sourceLines (raw ++ more) = sourceLines raw ++ sourceLines more := by
  obtain rfl | ⟨front, rfl⟩ := hterminated.eq_nil_or_concat
  · simp [sourceLines]
  · have hne := List.splitOn_ne_nil '\n' more
    rw [List.append_assoc, List.singleton_append, sourceLines, List.splitOn_append_cons_self,
      List.dropLast_append_of_ne_nil hne, sourceLines, List.splitOn_append_cons_self]
    simp [sourceLines]

theorem LineWrapper.renderer_append (wrapper : LineWrapper Line) (hterminated : Terminated raw) (more : Str)
    (width : Option Nat) : wrapper.renderer (raw ++ more) width = wrapper.renderer raw width ++ wrapper.renderer more width := by
  rw [renderer, sourceLines_append hterminated, List.flatMap_append]
  rfl

theorem LineWrapper.prefixStable (wrapper : LineWrapper Line) : PrefixStable wrapper.renderer := by
  intro front more width
  have hterminated : Terminated (front ++ ['\n']) := by simp [Terminated]
  rw [wrapper.renderer_append hterminated more width]
  exact List.prefix_append _ _

theorem LineWrapper.renderer_pos (wrapper : LineWrapper Line) (hterminated : Terminated raw) (hne : raw ≠ [])
    (width : Option Nat) : 0 < (wrapper.renderer raw width).length := by
  obtain rfl | ⟨front, rfl⟩ := hterminated.eq_nil_or_concat
  · exact absurd rfl hne
  · refine List.length_pos_iff.mpr fun hnil => ?_
    obtain ⟨line, hline⟩ := List.exists_mem_of_ne_nil _ (List.splitOn_ne_nil '\n' front)
    have hmem : line ∈ sourceLines (front ++ ['\n']) := by
      rw [sourceLines, List.splitOn_append_cons_self]
      simpa using hline
    exact wrapper.wrap_ne_nil line width (List.flatMap_eq_nil_iff.mp hnil line hmem)

theorem LineWrapper.Spells.append {rows : List Line} {lines : List Str} (h : wrapper.Spells rows lines) (more : Str)
    (width : Option Nat) : wrapper.Spells (rows ++ wrapper.renderer more width) (lines ++ sourceLines more) := by
  obtain ⟨groups, rfl, rfl⟩ := h
  refine ⟨groups ++ (sourceLines more).map fun line => wrapper.wrap line width, ?_, ?_⟩
  · rw [List.flatten_append, renderer, List.flatMap_def]
  · rw [List.map_append, List.map_map]
    congr 1
    exact (List.map_congr_left fun line _ => wrapper.wrap_text line width).trans (List.map_id _)

theorem LineWrapper.Spells.texts {rows : List Line} {lines : List Str} (h : wrapper.Spells rows lines) :
    rows.flatMap wrapper.text = lines.flatten := by
  obtain ⟨groups, rfl, rfl⟩ := h
  simp only [List.flatMap_def, List.map_flatten, List.flatten_flatten, List.map_map, Function.comp_def]

/-- What is queued is the rest of the render, and with what has been emitted it spells the source. -/
structure Rowed (wrapper : LineWrapper Line) (core : StreamCore Line) (emitted : List Line) : Prop where
  rendered : core.renderedLines = wrapper.renderer core.rawSource core.width
  queued : core.state.queuedLines = core.renderedLines.drop core.emittedLen
  emittedLen : core.emittedLen ≤ core.renderedLines.length
  enqueued : core.enqueuedLen = core.renderedLines.length
  spells : wrapper.Spells (emitted ++ core.state.queuedLines) (sourceLines core.rawSource)

theorem Rowed.pushDelta (h : Rowed wrapper core emitted) (hterminated : Terminated core.rawSource)
    (hwidth : core'.width = core.width) (hlen : core'.emittedLen = core.emittedLen)
    (hpush : Pushed wrapper.renderer core core') : Rowed wrapper core' emitted := by
  cases hpush with
  | waiting hraw hrendered hqueue henqueued =>
      refine ⟨?_, ?_, ?_, ?_, ?_⟩
      · rw [hrendered, hraw, hwidth, h.rendered]
      · rw [hqueue, hrendered, hlen, h.queued]
      · rw [hlen, hrendered]
        exact h.emittedLen
      · rw [henqueued, hrendered, h.enqueued]
      · rw [hqueue, hraw]
        exact h.spells
  | rendered front hraw hrendered hqueue =>
      have happend : core'.renderedLines = core.renderedLines ++ wrapper.renderer (front ++ ['\n']) core.width := by
        rw [hrendered, hraw, wrapper.renderer_append hterminated, h.rendered]
      have hle : core.enqueuedLen ≤ core'.renderedLines.length := by
        rw [happend, List.length_append, h.enqueued]
        exact Nat.le_add_right _ _
      obtain ⟨hlines, henqueued⟩ := hqueue hle
      rw [happend, h.enqueued, List.drop_left' rfl] at hlines
      refine ⟨?_, ?_, ?_, henqueued, ?_⟩
      · rw [hrendered, hwidth]
      · rw [hlines, happend, hlen, h.queued, List.drop_append_of_le_length h.emittedLen]
      · rw [happend, List.length_append, hlen]
        exact h.emittedLen.trans (Nat.le_add_right _ _)
      · rw [hlines, hraw, sourceLines_append hterminated, ← List.append_assoc]
        exact h.spells.append _ _

theorem Rowed.drain (h : Rowed wrapper core emitted) (n : Nat) : Rowed wrapper (core.drain n).2 (emitted ++ (core.drain n).1) where
  rendered := h.rendered
  queued := by
    simp only [StreamCore.drain, h.queued, List.drop_drop, List.length_take, List.length_drop]
    rcases Nat.le_total n (core.renderedLines.length - core.emittedLen) with hle | hge
    · rw [Nat.min_eq_left hle]
    · rw [Nat.min_eq_right hge, List.drop_eq_nil_of_le (by omega), List.drop_eq_nil_of_le (by omega)]
  emittedLen := by
    have hlen := h.emittedLen
    simp only [StreamCore.drain, h.queued, List.length_take, List.length_drop]
    omega
  enqueued := h.enqueued
  spells := by
    have hspells := h.spells
    rwa [← List.take_append_drop n core.state.queuedLines, ← List.append_assoc] at hspells

/-- Where nothing is queued and the render grows no longer, all of it counts as emitted again. -/
theorem Rowed.setWidth (h : Rowed wrapper core emitted) (hterminated : Terminated core.rawSource)
    (hidle : core.state.queuedLen = 0)
    (hshort : (wrapper.renderer core.rawSource width).length ≤ (wrapper.renderer core.rawSource core.width).length)
    (hstep : core.setWidth wrapper.renderer width = some core') : Rowed wrapper core' emitted := by
  have hnil : core.state.queuedLines = [] := List.length_eq_zero_iff.mp hidle
  have hall : core.emittedLen = core.renderedLines.length := by
    have hqueued := h.queued
    rw [hnil] at hqueued
    have hle := List.drop_eq_nil_iff.mp hqueued.symm
    exact Nat.le_antisymm h.emittedLen hle
  simp only [StreamCore.setWidth] at hstep
  split at hstep
  · cases hstep
    exact h
  · split at hstep
    · next hraw =>
        cases hstep
        have hrendered : core.renderedLines = [] := by
          rw [h.rendered, hraw]
          rfl
        refine ⟨?_, h.queued, h.emittedLen, h.enqueued, h.spells⟩
        simp only at hraw ⊢
        rw [hrendered, hraw]
        rfl
    · next hraw =>
        have hpos := wrapper.renderer_pos hterminated hraw width
        rw [h.rendered] at hall
        have hlen : StreamCore.resizedLen core.emittedLen (wrapper.renderer core.rawSource width).length false =
            (wrapper.renderer core.rawSource width).length := by
          rw [StreamCore.resizedLen, if_neg (by simp), hall, Nat.min_eq_right hshort]
        simp only [StreamCore.recomputeRender, hidle, Nat.lt_irrefl, decide_false, hlen, hpos, Bool.not_false, and_self,
          if_true] at hstep
        cases hstep
        have hspells := h.spells
        rw [hnil] at hspells
        refine ⟨rfl, ?_, Nat.le_refl _, rfl, hspells⟩
        exact (List.drop_eq_nil_of_le (Nat.le_refl _)).symm

theorem Rowed.coreStep {op : Op} {lines : List Line} (h : Rowed wrapper core emitted) (hsound : Sound core deltas)
    (hidle : IdleResizes ⟨core, false⟩ op) (hshort : NoLonger wrapper.renderer ⟨core, false⟩ op)
    (hstep : coreStep wrapper.renderer core op = some (lines, core')) : Rowed wrapper core' (emitted ++ lines) := by
  cases op with
  | push delta =>
      obtain ⟨changed, pushed, hpush, -, hwidth, hlen, hcases⟩ := pushDelta_spec wrapper.renderer hsound delta
      rw [Streaming.coreStep, hpush] at hstep
      cases hstep
      rw [List.append_nil]
      exact h.pushDelta hsound.terminated hwidth hlen hcases
  | onCommitTick =>
      cases hstep
      exact h.drain 1
  | onCommitTickBatch maxLines =>
      cases hstep
      exact h.drain maxLines
  | clearQueue => exact hidle.elim
  | setWidth width =>
      obtain ⟨resized, hwidth, hfound⟩ := Option.map_eq_some_iff.mp hstep
      cases hfound
      rw [List.append_nil]
      exact h.setWidth hsound.terminated hidle hshort hwidth

theorem Streamed.rowed {ops : List Op}
    (h : Streamed wrapper.renderer (fun controller op => IdleResizes controller op ∧
      NoLonger wrapper.renderer controller op) width ops emitted controller) :
    Rowed wrapper controller.core emitted := by
  induction h with
  | new => exact ⟨rfl, rfl, Nat.le_refl 0, rfl, [], rfl, rfl⟩
  | step h hguard hstep ih => exact ih.coreStep h.sound hguard.1 hguard.2 (coreStep_of_step hstep)

/-- Where no resize makes the render longer, the rows of the ticks and of the end spell each line of the source once.
After one that does, the count of emitted rows is too small, and the end repeats rows. -/
theorem resized_stream_spells {width : Option Nat} {ops : List Op}
    (h : Streamed wrapper.renderer (fun controller op =>
      IdleResizes controller op ∧ NoLonger wrapper.renderer controller op) width ops emitted controller) :
    ∃ cell controller', controller.finalize wrapper.renderer =
        some ((cell, sourceOf (ops.flatMap Op.delta)), controller') ∧
      wrapper.Spells (emitted ++ (cell.map (·.lines)).getD [])
        (sourceLines ((sourceOf (ops.flatMap Op.delta)).getD [])) := by
  have hsound := h.sound
  have hrowed := h.rowed
  obtain ⟨rest, cell, controller', hparts, hrest, hfinal, hlines⟩ := finalize_spec wrapper.renderer hsound
  refine ⟨cell, controller', hfinal, ?_⟩
  have hsource := sourceOf_eq hsound.terminated hrest
  rw [← hparts] at hsource
  generalize (if rest = [] then [] else rest ++ ['\n']) = more at hsource
  -- behind what is queued the end adds the render of the last line
  have hspells := hrowed.spells.append more controller.core.width
  rw [← sourceLines_append hsound.terminated, hrowed.queued, List.append_assoc,
    ← List.drop_append_of_le_length hrowed.emittedLen, hrowed.rendered,
    ← wrapper.renderer_append hsound.terminated] at hspells
  rw [hlines, hsource]
  split
  · next hnil =>
      have hempty : wrapper.renderer [] controller.core.width = [] := rfl
      rw [hnil, hempty, List.drop_nil] at hspells
      exact hspells
  · exact hspells

/-! ## A line in two rows -/

def twoRows : LineWrapper Str where
  wrap line width := match width with
    | none => [line]
    | some n => if n < line.length then [line.take n, line.drop n] else [line]
  text := id
  wrap_ne_nil line width := by
    cases width with
    | none => simp
    | some n =>
        dsimp only
        split <;> simp
  wrap_text line width := by
    cases width with
    | none => simp
    | some n =>
        dsimp only
        split <;> simp

def letters : Str := ['a', 'b', 'c', 'd']

theorem letters_exact : ∃ controller : StreamController Str,
    Streamed twoRows.renderer (fun _ _ => True) (some 2) [.push (letters ++ ['\n']), .onCommitTick] [['a', 'b']] controller ∧
    ∃ cell controller', controller.finalize twoRows.renderer = some ((cell, some (letters ++ ['\n'])), controller') ∧
      [['a', 'b']] ++ (cell.map (·.lines)).getD [] = twoRows.renderer (letters ++ ['\n']) (some 2) := by
  have hrun : ∃ controller, Streamed twoRows.renderer (fun _ _ => True) (some 2)
      ([] ++ [.push (letters ++ ['\n'])] ++ [.onCommitTick]) ([] ++ [] ++ [['a', 'b']]) controller :=
    ⟨_, .step (.step .new trivial rfl) trivial rfl⟩
  obtain ⟨controller, h⟩ := hrun
  obtain ⟨-, -, cell, controller', hfinal, hexact⟩ := stream_exact h
  exact ⟨controller, h, cell, controller', hfinal, hexact twoRows.prefixStable (by simp)⟩

theorem letters_spelled : ∃ controller : StreamController Str,
    Streamed twoRows.renderer (fun controller op => IdleResizes controller op ∧ NoLonger twoRows.renderer controller op)
      (some 2) [.push (letters ++ ['\n']), .onCommitTickBatch 2, .setWidth (some 4)] [['a', 'b'], ['c', 'd']] controller ∧
    ∃ cell controller', controller.finalize twoRows.renderer = some ((cell, some (letters ++ ['\n'])), controller') ∧
      twoRows.Spells ([['a', 'b'], ['c', 'd']] ++ (cell.map (·.lines)).getD []) [letters] := by
  have hrun : ∃ controller, Streamed twoRows.renderer
      (fun controller op => IdleResizes controller op ∧ NoLonger twoRows.renderer controller op) (some 2)
      ([] ++ [.push (letters ++ ['\n'])] ++ [.onCommitTickBatch 2] ++ [.setWidth (some 4)])
      ([] ++ [] ++ [['a', 'b'], ['c', 'd']] ++ []) controller :=
    ⟨_, .step (.step (.step .new ⟨trivial, trivial⟩ rfl) ⟨trivial, trivial⟩ rfl) ⟨rfl, Nat.le_of_ble_eq_true rfl⟩ rfl⟩
  obtain ⟨controller, h⟩ := hrun
  obtain ⟨cell, controller', hfinal, hspells⟩ := resized_stream_spells h
  exact ⟨controller, h, cell, controller', hfinal, hspells⟩

/-- A row has been emitted, and the narrower render has two: the end emits the second one. -/
theorem letters_repeated : ∃ (controller controller' : StreamController Str) (cell : Option (AgentMessageCell Str)),
    Streamed twoRows.renderer IdleResizes (some 4) [.push (letters ++ ['\n']), .onCommitTick, .setWidth (some 2)]
      [letters] controller ∧
    controller.finalize twoRows.renderer = some ((cell, some (letters ++ ['\n'])), controller') ∧
    ¬ twoRows.Spells ([letters] ++ (cell.map (·.lines)).getD []) [letters] := by
  have hrun : ∃ controller, Streamed twoRows.renderer IdleResizes (some 4)
      ([] ++ [.push (letters ++ ['\n'])] ++ [.onCommitTick] ++ [.setWidth (some 2)]) ([] ++ [] ++ [letters] ++ [])
      controller ∧ (controller.finalize twoRows.renderer).map (fun found => ((found.1.1.map (·.lines)).getD [], found.1.2)) =
        some ([['c', 'd']], some (letters ++ ['\n'])) :=
    ⟨_, .step (.step (.step .new trivial rfl) trivial rfl) rfl rfl, rfl⟩
  obtain ⟨controller, h, hfinal⟩ := hrun
  obtain ⟨⟨⟨cell, source⟩, controller'⟩, hfinal, hfound⟩ := Option.map_eq_some_iff.mp hfinal
  obtain ⟨hlines, rfl⟩ := Prod.mk.inj hfound
  refine ⟨controller, controller', cell, h, hfinal, ?_⟩
  rw [hlines]
  intro hspells
  exact absurd hspells.texts (by decide)

end Codrex.Streaming
