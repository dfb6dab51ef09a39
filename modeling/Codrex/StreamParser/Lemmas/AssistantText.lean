import Codrex.StreamParser.Lemmas.InlineHiddenTag
import Codrex.StreamParser.Lemmas.TaggedLine

/-!
# The two parsers behind each other

What a stream brings out depends on its text only, up to the cuts between segments.
-/

namespace Codrex.StreamParser

open Text

/-! ## Segments of a plan -/

theorem planParts_append (first second : List (Part PlanTag)) :
    planParts (first ++ second) = planParts first ++ planParts second :=
  List.map_append

theorem foldr_joinSegment_merges {last segment merged : TaggedLineSegment PlanTag} (h : Merges last segment merged)
    (rest : List ProposedPlanSegment) :
    joinSegment (mapSegment last) (joinSegment (mapSegment segment) rest) = joinSegment (mapSegment merged) rest := by
  cases h with
  | normal first second =>
      cases rest with
      | nil => rfl
      | cons head tail => cases head <;> simp [mapSegment, joinSegment]
  | tagDelta tag first second =>
      cases tag
      cases rest with
      | nil => rfl
      | cons head tail => cases head <;> simp [mapSegment, joinSegment]

theorem visible_merges {last segment merged : TaggedLineSegment PlanTag} (h : Merges last segment merged) :
    (mapSegment merged).visible = (mapSegment last).visible ++ (mapSegment segment).visible := by
  cases h with
  | normal first second => rfl
  | tagDelta tag first second => rfl

/-- The segments make up the parts: the same visible text, and the same segments once they are joined. -/
structure MakesUp (segments : List ProposedPlanSegment) (parts : List (Part PlanTag)) : Prop where
  visible : segments.flatMap (·.visible) = (planParts parts).flatMap (·.visible)
  joined : ∀ rest, segments.foldr joinSegment rest = (planParts parts).foldr joinSegment rest

variable {parts : List (Part PlanTag)} {segments : List (TaggedLineSegment PlanTag)}

theorem MakesUp.append {first second : List ProposedPlanSegment} {others : List (Part PlanTag)}
    (hfirst : MakesUp first parts) (hsecond : MakesUp second others) : MakesUp (first ++ second) (parts ++ others) := by
  constructor
  · rw [planParts_append, List.flatMap_append, List.flatMap_append, hfirst.visible, hsecond.visible]
  · intro rest
    rw [planParts_append, List.foldr_append, List.foldr_append, hfirst.joined, hsecond.joined]

theorem MakesUp.pushSegment (h : MakesUp (segments.map mapSegment) parts) {part : Part PlanTag}
    (hpart : part.segment.NotEmpty) :
    MakesUp ((pushSegment segments part.segment).map mapSegment) (parts ++ [part]) := by
  have happend : MakesUp ((segments ++ [part.segment]).map mapSegment) (parts ++ [part]) := by
    rw [List.map_append]
    exact h.append ⟨rfl, fun _ => rfl⟩
  rcases pushSegment_cases segments part.segment with
    ⟨hempty, -⟩ | ⟨-, hpush⟩ | ⟨-, front, last, merged, rfl, hmerges, hpush⟩
  · exact absurd hpart hempty
  · rw [hpush]
    exact happend
  · rw [hpush]
    constructor
    · rw [← happend.visible]
      simp [visible_merges hmerges]
    · intro rest
      rw [← happend.joined]
      simp [foldr_joinSegment_merges hmerges]

theorem makesUp_pushParts {before : List (Part PlanTag)} (h : MakesUp (segments.map mapSegment) before)
    (hparts : ∀ part ∈ parts, part.segment.NotEmpty) :
    MakesUp ((pushParts segments parts).map mapSegment) (before ++ parts) := by
  induction parts generalizing segments before with
  | nil => simpa [pushParts] using h
  | cons part parts ih =>
      have hpush := h.pushSegment (hparts part List.mem_cons_self)
      have hrest := ih hpush (fun other hother => hparts other (List.mem_cons_of_mem _ hother))
      rw [List.append_assoc] at hrest
      exact hrest

theorem makesUp_parts (hparts : ∀ part ∈ parts, part.segment.NotEmpty) :
    MakesUp ((pushParts [] parts).map mapSegment) parts :=
  @makesUp_pushParts parts [] [] ⟨rfl, fun _ => rfl⟩ hparts

/-! ## Starts and ends of a plan -/

/-- Whether a plan is open behind the segments, if each may stand where it does. -/
def insideAfter : Bool → List ProposedPlanSegment → Option Bool
  | inside, [] => some inside
  | false, .normal _ :: rest => insideAfter false rest
  | false, .proposedPlanStart :: rest => insideAfter true rest
  | true, .proposedPlanDelta _ :: rest => insideAfter true rest
  | true, .proposedPlanEnd :: rest => insideAfter false rest
  | _, _ :: _ => none

theorem insideAfter_append {inside between : Bool} {first : List ProposedPlanSegment}
    (h : insideAfter inside first = some between) (second : List ProposedPlanSegment) :
    insideAfter inside (first ++ second) = insideAfter between second := by
  induction first generalizing inside with
  | nil =>
      cases h
      rfl
  | cons segment rest ih =>
      cases inside <;> cases segment <;> simp only [insideAfter, List.cons_append, reduceCtorEq] at h ⊢ <;> exact ih h

theorem insideAfter_of_openAfter {active next : Option PlanTag} (h : openAfter active segments = some next) :
    insideAfter active.isSome (segments.map mapSegment) = some next.isSome := by
  induction segments generalizing active with
  | nil =>
      cases h
      rfl
  | cons segment rest ih =>
      rw [openAfter, List.foldlM_cons] at h
      obtain ⟨mid, hmid, hrest⟩ := Option.bind_eq_some_iff.mp h
      have hnext := ih hrest
      rcases active with - | ⟨⟨⟩⟩ <;> rcases segment with _ | ⟨⟨⟩⟩ | ⟨⟨⟩, _⟩ | ⟨⟨⟩⟩ <;>
        simp [TaggedLineSegment.after] at hmid <;> subst hmid <;> exact hnext

/-- Inside a plan, the segments go on with plan text and its end. -/
theorem matched_of_insideAfter {inside : Bool} {segments : List ProposedPlanSegment}
    (h : insideAfter inside segments = some false) :
    if inside then
      ∃ (deltas : List Str) (rest : List ProposedPlanSegment),
        segments = deltas.map .proposedPlanDelta ++ .proposedPlanEnd :: rest ∧ Matched rest
    else Matched segments := by
  induction segments generalizing inside with
  | nil =>
      cases h
      exact .nil
  | cons segment rest ih =>
      cases inside with
      | false =>
          cases segment with
          | normal text => exact .normal text (ih h)
          | proposedPlanStart =>
              obtain ⟨deltas, after, rfl, hafter⟩ := ih h
              exact .plan deltas hafter
          | proposedPlanDelta text => cases h
          | proposedPlanEnd => cases h
      | true =>
          cases segment with
          | normal text => cases h
          | proposedPlanStart => cases h
          | proposedPlanDelta text =>
              obtain ⟨deltas, after, rfl, hafter⟩ := ih h
              exact ⟨text :: deltas, after, rfl, hafter⟩
          | proposedPlanEnd => exact ⟨[], rest, rfl, ih h⟩

/-! ## One parser for plans -/

/-- From one state to another, the plan parser read this text and brought out these segments. -/
structure PlanReads (plan : ProposedPlanParser) (text : Str) (plan' : ProposedPlanParser)
    (segments : List ProposedPlanSegment) : Prop where
  state : plan'.parser = (plan.parser.readAll text).1
  makesUp : MakesUp segments (plan.parser.readAll text).2
  inside : insideAfter plan.parser.activeTag.isSome segments = some plan'.parser.activeTag.isSome

theorem openAfter_pushParts {start active next : Option PlanTag} (h : openAfter start segments = some active)
    (hparts : openAfter active (parts.map (·.segment)) = some next) (hne : ∀ part ∈ parts, part.segment.NotEmpty) :
    openAfter start (pushParts segments parts) = some next := by
  induction parts generalizing segments active with
  | nil =>
      cases hparts
      exact h
  | cons part parts ih =>
      rw [List.map_cons, openAfter, List.foldlM_cons] at hparts
      obtain ⟨mid, hmid, hrest⟩ := Option.bind_eq_some_iff.mp hparts
      exact ih (openAfter_pushSegment h hmid (hne part List.mem_cons_self)) hrest
        (fun other hother => hne other (List.mem_cons_of_mem _ hother))

theorem insideAfter_parts {active next : Option PlanTag} (h : openAfter active (parts.map (·.segment)) = some next)
    (hne : ∀ part ∈ parts, part.segment.NotEmpty) :
    insideAfter active.isSome ((pushParts [] parts).map mapSegment) = some next.isSome := by
  have hnil : openAfter active [] = some active := rfl
  exact insideAfter_of_openAfter (openAfter_pushParts hnil h hne)

namespace ProposedPlanParser

theorem pushStr_reads {plan : ProposedPlanParser} (h : plan.parser.Buffers) (text : Str) :
    PlanReads plan text (plan.pushStr text).1 (plan.pushStr text).2.extracted := by
  have hparse : plan.parser.parse text = ((plan.parser.readAll text).1, pushParts [] (plan.parser.readAll text).2) := by
    rw [TaggedLineParser.parse, TaggedLineParser.parseLoop_eq _ _ _ _ (fun _ => rfl),
      TaggedLineParser.pushSegment_text_nil]
  have hconsumes := TaggedLineParser.readAll_consumes h text
  have hne : ∀ part ∈ (plan.parser.readAll text).2, part.segment.NotEmpty :=
    fun part hpart => (hconsumes.wellFormed part hpart).notEmpty
  constructor
  · simp [pushStr, hparse]
  · simpa [pushStr, hparse, mapSegments] using makesUp_parts hne
  · simpa [pushStr, hparse, mapSegments] using insideAfter_parts hconsumes.openAfter hne

theorem visibleText_pushStr (plan : ProposedPlanParser) (text : Str) :
    (plan.pushStr text).2.visibleText = (plan.pushStr text).2.extracted.flatMap (·.visible) :=
  rfl

theorem visibleText_finish (plan : ProposedPlanParser) :
    plan.finish.2.visibleText = plan.finish.2.extracted.flatMap (·.visible) :=
  rfl

theorem finish_makesUp (plan : ProposedPlanParser) :
    MakesUp plan.finish.2.extracted plan.parser.lastParts ∧
      insideAfter plan.parser.activeTag.isSome plan.finish.2.extracted = some false := by
  obtain ⟨-, hwell, hopen⟩ := plan.parser.lastParts_spec
  have hne : ∀ part ∈ plan.parser.lastParts, part.segment.NotEmpty := fun part hpart => (hwell part hpart).notEmpty
  have hsegments : plan.finish.2.extracted = (pushParts [] plan.parser.lastParts).map mapSegment := by
    rw [← TaggedLineParser.finish_eq]
    rfl
  rw [hsegments]
  constructor
  · exact makesUp_parts hne
  · exact insideAfter_parts hopen hne

end ProposedPlanParser

theorem PlanReads.trans {plan next last : ProposedPlanParser} {first second : Str} {segments others : List ProposedPlanSegment}
    (hfirst : PlanReads plan first next segments) (hsecond : PlanReads next second last others) :
    PlanReads plan (first ++ second) last (segments ++ others) := by
  constructor
  · rw [hsecond.state, hfirst.state, TaggedLineParser.readAll_append]
  · rw [TaggedLineParser.readAll_append, ← hfirst.state]
    exact hfirst.makesUp.append hsecond.makesUp
  · rw [insideAfter_append hfirst.inside, hsecond.inside]

/-! ## Both parsers -/

/-- What is still to come out of the citation parser when this text is pushed. -/
def CitationStreamParser.outcome (citations : CitationStreamParser) (text : Str) : StreamTextChunk Str :=
  StreamParser.outcome citationSpec citations.inner.active (citations.inner.pending ++ text)

/-- Both parsers are in a state that pushing text leaves them in. -/
structure Ready (parser : AssistantTextStreamParser) : Prop where
  isFor : parser.citations.inner.For citationSpec
  waiting : parser.citations.inner.Waiting citationSpec
  buffers : parser.plan.parser.Buffers

/-- What comes out of the text without citations: in plan mode, what the plan parser reads in it. -/
def ShowsText (parser : AssistantTextStreamParser) (text : Str) (parser' : AssistantTextStreamParser)
    (out : AssistantTextChunk) : Prop :=
  if parser.planMode then
    PlanReads parser.plan text parser'.plan out.planSegments ∧ out.visibleText = out.planSegments.flatMap (·.visible)
  else out.visibleText = text ∧ out.planSegments = []

/-- From one state to another, the parser read this text and brought this out. -/
structure Streams (parser : AssistantTextStreamParser) (text : Str) (parser' : AssistantTextStreamParser)
    (out : AssistantTextChunk) : Prop where
  ready : Ready parser'
  planMode : parser'.planMode = parser.planMode
  shows : ∃ plain, ShowsText parser plain parser' out ∧
    ∀ future, parser.citations.outcome (text ++ future) =
      StreamTextChunk.append ⟨plain, out.citations⟩ (parser'.citations.outcome future)

theorem Streams.refl {parser : AssistantTextStreamParser} (h : Ready parser) : Streams parser [] parser ⟨[], [], []⟩ := by
  refine ⟨h, rfl, [], ?_, fun future => by simp [StreamTextChunk.append]⟩
  unfold ShowsText
  split
  · exact ⟨⟨rfl, ⟨rfl, fun _ => rfl⟩, rfl⟩, rfl⟩
  · exact ⟨rfl, rfl⟩

theorem Streams.trans {parser next last : AssistantTextStreamParser} {first second : Str} {out rest : AssistantTextChunk}
    (hfirst : Streams parser first next out) (hsecond : Streams next second last rest) :
    Streams parser (first ++ second) last (out.append rest) := by
  obtain ⟨plain, hshows, houtcome⟩ := hfirst.shows
  obtain ⟨others, hothers, hrest⟩ := hsecond.shows
  refine ⟨hsecond.ready, hsecond.planMode.trans hfirst.planMode, plain ++ others, ?_, ?_⟩
  · unfold ShowsText at *
    rw [hfirst.planMode] at hothers
    split
    · next hmode =>
        rw [if_pos hmode] at hshows hothers
        exact ⟨hshows.1.trans hothers.1, by simp [AssistantTextChunk.append, hshows.2, hothers.2]⟩
    · next hmode =>
        rw [if_neg hmode] at hshows hothers
        simp [AssistantTextChunk.append, hshows, hothers]
  · intro future
    rw [List.append_assoc, houtcome, hrest]
    simp [StreamTextChunk.append, AssistantTextChunk.append]

namespace AssistantTextStreamParser

variable {parser : AssistantTextStreamParser}

theorem parseVisibleText_spec (h : parser.plan.parser.Buffers) (text : Str) :
    ShowsText parser text (parser.parseVisibleText text).1 (parser.parseVisibleText text).2 ∧
      (parser.parseVisibleText text).1.planMode = parser.planMode ∧
      (parser.parseVisibleText text).1.citations = parser.citations ∧
      (parser.parseVisibleText text).1.plan.parser.Buffers := by
  unfold parseVisibleText ShowsText
  cases hmode : parser.planMode with
  | true =>
      have hreads := ProposedPlanParser.pushStr_reads h text
      have hbuffers := (TaggedLineParser.readAll_consumes h text).buffers
      rw [← hreads.state] at hbuffers
      exact ⟨⟨hreads, rfl⟩, rfl, rfl, hbuffers⟩
  | false => exact ⟨⟨rfl, rfl⟩, hmode, rfl, h⟩

theorem pushStr_streams (h : Ready parser) (chunk : Str) :
    Streams parser chunk (parser.pushStr chunk).1 (parser.pushStr chunk).2 := by
  have hopen : 0 < citationSpec.openTag.length := by decide
  have hclose : 0 < citationSpec.closeTag.length := by decide
  obtain ⟨hfor, hwaiting, houtcome⟩ := InlineHiddenTagParser.pushStr_reads hopen hclose h.isFor chunk
  obtain ⟨hshows, hmode, hcitations, hbuffers⟩ :=
    @parseVisibleText_spec { parser with citations := (parser.citations.pushStr chunk).1 } h.buffers
      (parser.citations.pushStr chunk).2.visibleText
  constructor
  case ready =>
    refine ⟨?_, ?_, hbuffers⟩
    · rw [show (parser.pushStr chunk).1.citations = _ from hcitations]
      exact hfor
    · rw [show (parser.pushStr chunk).1.citations = _ from hcitations]
      exact hwaiting
  case planMode => exact hmode
  case shows =>
    refine ⟨_, hshows, ?_⟩
    intro future
    rw [show (parser.pushStr chunk).1.citations = _ from hcitations]
    unfold CitationStreamParser.outcome
    rw [← List.append_assoc, houtcome future]
    rfl

theorem pushAll_streams (h : Ready parser) (chunks : List Str) :
    Streams parser chunks.flatten (parser.pushAll chunks).1 (parser.pushAll chunks).2 := by
  induction chunks generalizing parser with
  | nil => exact .refl h
  | cons chunk chunks ih =>
      have hchunk := pushStr_streams h chunk
      exact hchunk.trans (ih hchunk.ready)

/-! ## Whole streams -/

theorem outcome_finish (h : Ready parser) : parser.citations.finish.2 = parser.citations.outcome [] := by
  have hcontents := InlineHiddenTagParser.contents_finish h.waiting
  rw [CitationStreamParser.outcome, List.append_nil, ← hcontents]
  rfl

/-- The end of the stream brings out the text that was held back, and in plan mode the last parts behind it. -/
def ShowsEnd (parser : AssistantTextStreamParser) (text : Str) (out : AssistantTextChunk) : Prop :=
  if parser.planMode then
    ∃ plan segments, PlanReads parser.plan text plan segments ∧
      out.planSegments = segments ++ plan.finish.2.extracted ∧
      out.visibleText = out.planSegments.flatMap (·.visible)
  else out.visibleText = text ∧ out.planSegments = []

theorem append_tail (visible : Str) (citations : List Str) (segments : List ProposedPlanSegment)
    (tail : StreamTextChunk ProposedPlanSegment) :
    (if (!tail.isEmpty) = true then
      (⟨visible ++ tail.visibleText, citations, segments ++ tail.extracted⟩ : AssistantTextChunk)
    else ⟨visible, citations, segments⟩) = ⟨visible ++ tail.visibleText, citations, segments ++ tail.extracted⟩ := by
  split
  · rfl
  · next hempty =>
      have htail : tail.visibleText = [] ∧ tail.extracted = [] := by
        simpa [StreamTextChunk.isEmpty] using hempty
      rw [htail.1, htail.2, List.append_nil, List.append_nil]

theorem finish_spec (h : Ready parser) :
    parser.finish.2.citations = (parser.citations.outcome []).extracted ∧
      ShowsEnd parser (parser.citations.outcome []).visibleText parser.finish.2 := by
  rw [← outcome_finish h]
  refine ⟨rfl, ?_⟩
  obtain ⟨planMode, citations, plan⟩ := parser
  cases planMode with
  | false => exact ⟨rfl, rfl⟩
  | true =>
      have hreads := ProposedPlanParser.pushStr_reads h.buffers citations.finish.2.visibleText
      refine ⟨_, _, hreads, ?_⟩
      simp only [finish, parseVisibleText, if_true, append_tail]
      rw [ProposedPlanParser.visibleText_pushStr, ProposedPlanParser.visibleText_finish, List.flatMap_append]
      exact ⟨trivial, rfl⟩

/-- The parts of a text without citations. -/
def partsOf (text : Str) : List (Part PlanTag) :=
  (ProposedPlanParser.new.parser.readAll text).2 ++ (ProposedPlanParser.new.parser.readAll text).1.lastParts

theorem partsOf_spec (text : Str) :
    (partsOf text).flatMap (·.spelling) = text ∧
      ∀ part ∈ partsOf text, part.WellFormed ProposedPlanParser.new.parser.specs := by
  have hbuffers : ProposedPlanParser.new.parser.Buffers := nofun
  have hconsumes := TaggedLineParser.readAll_consumes hbuffers text
  obtain ⟨hspelling, hwell, -⟩ := (ProposedPlanParser.new.parser.readAll text).1.lastParts_spec
  constructor
  · rw [partsOf, List.flatMap_append, hspelling, ← hconsumes.spelling]
    rfl
  · intro part hpart
    rcases List.mem_append.mp hpart with hpart | hpart
    · exact hconsumes.wellFormed part hpart
    · rw [← hconsumes.specs]
      exact hwell part hpart

/-- What a stream brings out of a text without citations. -/
def Shows (planMode : Bool) (text : Str) (out : AssistantTextChunk) : Prop :=
  if planMode then
    MakesUp out.planSegments (partsOf text) ∧ out.visibleText = out.planSegments.flatMap (·.visible) ∧
      insideAfter false out.planSegments = some false
  else out.visibleText = text ∧ out.planSegments = []

theorem run_spec (planMode : Bool) (chunks : List Str) :
    (run planMode chunks).citations = (hidden (citationPieces chunks.flatten)).extracted ∧
      Shows planMode (hidden (citationPieces chunks.flatten)).visibleText (run planMode chunks) := by
  have hready : Ready (new planMode) := by
    refine ⟨⟨rfl, ?_⟩, ?_, nofun⟩
    · intro active hactive
      cases hactive
    · exact (by decide : find citationOpen [] = none)
  obtain ⟨hready', hmode, plain, hshows, houtcome⟩ := pushAll_streams hready chunks
  have hpieces : hidden (citationPieces chunks.flatten) =
      StreamTextChunk.append ⟨plain, ((new planMode).pushAll chunks).2.citations⟩
        (((new planMode).pushAll chunks).1.citations.outcome []) := by
    rw [← houtcome []]
    simp [CitationStreamParser.outcome, new, CitationStreamParser.new, outcome, citationPieces]
  obtain ⟨hcitations, hend⟩ := finish_spec hready'
  rw [hpieces]
  constructor
  · simp only [run, AssistantTextChunk.append, StreamTextChunk.append, hcitations]
  · unfold ShowsEnd at hend
    unfold ShowsText at hshows
    unfold Shows
    rw [hmode] at hend
    have hnew : (new planMode).planMode = planMode := rfl
    rw [hnew] at hend hshows
    cases planMode with
    | false =>
        rw [if_neg Bool.false_ne_true] at hend hshows ⊢
        simp only [run, AssistantTextChunk.append, StreamTextChunk.append, hshows, hend]
        exact ⟨trivial, rfl⟩
    | true =>
        rw [if_pos rfl] at hend hshows ⊢
        obtain ⟨plan, segments, hlast, hsegments, hvisible⟩ := hend
        have hreads := hshows.1.trans hlast
        have hstate : (ProposedPlanParser.new.parser.readAll
            (plain ++ (((new true).pushAll chunks).1.citations.outcome []).visibleText)).1 = plan.parser :=
          hreads.state.symm
        obtain ⟨hmakes, hinside⟩ := plan.finish_makesUp
        simp only [run, AssistantTextChunk.append, StreamTextChunk.append]
        refine ⟨?_, ?_, ?_⟩
        · rw [hsegments, ← List.append_assoc, partsOf, hstate]
          exact hreads.makesUp.append hmakes
        · rw [hshows.2, hvisible, List.flatMap_append]
        · rw [hsegments, ← List.append_assoc]
          exact (insideAfter_append hreads.inside _).trans hinside

end AssistantTextStreamParser

end Codrex.StreamParser
