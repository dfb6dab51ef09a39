import Codrex.StreamParser.Lemmas.AssistantText
import Codrex.StreamParser.Lemmas.HiddenTags

/-!
# Streamed assistant text
-/

namespace Codrex.StreamParser

open Text AssistantTextStreamParser

/-- However the text is cut into chunks, the same comes out of it, every character is accounted for once, and the plans
that start also end. -/
theorem run_accounts (planMode : Bool) (chunks : List Str) :
    ((run planMode chunks).visibleText = (run planMode [chunks.flatten]).visibleText ∧
        (run planMode chunks).citations = (run planMode [chunks.flatten]).citations ∧
        coalesce (run planMode chunks).planSegments = coalesce (run planMode [chunks.flatten]).planSegments) ∧
      Accounts planMode chunks.flatten (run planMode chunks) ∧ Matched (run planMode chunks).planSegments := by
  obtain ⟨hcitations, hshows⟩ := run_spec planMode chunks
  obtain ⟨hcitations', hshows'⟩ := run_spec planMode [chunks.flatten]
  rw [List.flatten_singleton] at hcitations' hshows'
  have hrebuild : TagScan.rebuild citationSpec.tagAfter (citationPieces chunks.flatten) = chunks.flatten := by
    apply TagScan.rebuild_pieces
    decide
  cases planMode with
  | false =>
      refine ⟨⟨hshows.1.trans hshows'.1.symm, hcitations.trans hcitations'.symm, ?_⟩, ?_, ?_⟩
      · rw [hshows.2, hshows'.2]
      · exact ⟨hrebuild, hcitations, fun _ => hshows, nofun⟩
      · rw [hshows.2]
        exact .nil
  | true =>
      obtain ⟨hmakes, hvisible, hinside⟩ := hshows
      obtain ⟨hmakes', hvisible', -⟩ := hshows'
      obtain ⟨hspelling, hwell⟩ := partsOf_spec (hidden (citationPieces chunks.flatten)).visibleText
      refine ⟨⟨?_, hcitations.trans hcitations'.symm, (hmakes.joined []).trans (hmakes'.joined []).symm⟩, ?_, ?_⟩
      · rw [hvisible, hvisible', hmakes.visible, hmakes'.visible]
      · refine ⟨hrebuild, hcitations, nofun, fun _ => ⟨_, hwell, hspelling, ?_, hmakes.joined []⟩⟩
        rw [hvisible, hmakes.visible]
      · exact matched_of_insideAfter hinside

/-- The text of the plans. -/
def planText (segments : List ProposedPlanSegment) : Str :=
  segments.flatMap fun segment => match segment with
    | .proposedPlanDelta text => text
    | _ => []

/-- The line break behind a tag is in no text and in no tag. -/
theorem run_drops_line_break :
    ¬ ∃ tags : List Str,
      (∀ tag ∈ tags, tag ∈ [citationOpen, citationClose, planOpen, planClose]) ∧
        (planOpen ++ ['\n']).Perm
          ((run true [planOpen ++ ['\n']]).visibleText ++ (run true [planOpen ++ ['\n']]).citations.flatten ++
            planText (run true [planOpen ++ ['\n']]).planSegments ++ tags.flatten) := by
  rintro ⟨tags, htags, hperm⟩
  have hrun : run true [planOpen ++ ['\n']] = ⟨[], [], [.proposedPlanStart, .proposedPlanEnd]⟩ := by decide
  rw [hrun] at hperm
  have hmem : '\n' ∈ tags.flatten := by
    have := hperm.mem_iff.mp (show '\n' ∈ planOpen ++ ['\n'] by simp)
    simpa [planText] using this
  obtain ⟨tag, htag, hch⟩ := List.mem_flatten.mp hmem
  have hno : ∀ tag ∈ [citationOpen, citationClose, planOpen, planClose], '\n' ∉ tag := by decide
  exact hno tag (htags tag htag) hch

/-! ## Several hidden tags -/

/-- In one chunk the leftmost and then longest open tag of the whole text is taken. In chunks the same is, if no open tag
occurs inside of an unfinished other one. -/
theorem hiddenTags_chunkingInvariant_iff {τ : Type} {specs : List (InlineTagSpec τ)} {parser : InlineHiddenTagParser τ}
    (h : InlineHiddenTagParser.new specs = some parser) :
    (∀ text, Takes specs (· = ·) none text (whole parser [text])) ∧
      (ChunkingInvariant parser ↔
        ∀ spec ∈ specs, ∀ other ∈ specs, ¬ spec.openTag <:+: other.openTag.dropLast) := by
  have hproper : Proper specs ∧ parser = ⟨specs, [], none⟩ := by
    rw [InlineHiddenTagParser.new] at h
    split at h
    · cases h
    · rename_i hvalid
      refine ⟨fun spec hspec => ?_, (Option.some.inj h).symm⟩
      simp only [Bool.or_eq_true, List.any_eq_true, not_or, not_exists, not_and, List.isEmpty_iff] at hvalid
      exact hvalid.2 spec hspec
  obtain ⟨hproper, rfl⟩ := hproper
  refine ⟨takes_unsplit hproper, ?_, ?_⟩
  · intro hinvariant spec hspec other hother hinside
    apply not_chunkingInvariant_of_nested hproper _ hinvariant
    exact ⟨_, List.mem_map_of_mem hspec, _, List.mem_map_of_mem hother, hinside⟩
  · intro hapart texts others hflatten
    have hnested : ¬ TagScan.Nested (specs.map (·.openTag)) := by
      rintro ⟨tag, htag, otherTag, hotherTag, hinside⟩
      obtain ⟨spec, hspec, rfl⟩ := List.mem_map.mp htag
      obtain ⟨other, hother, rfl⟩ := List.mem_map.mp hotherTag
      exact hapart spec hspec other hother hinside
    have hnone : ∀ spec ∈ specs, find spec.openTag [] = none := by
      intro spec hspec
      rw [find_eq_none]
      intro j _ hstarts
      rw [List.drop_nil] at hstarts
      exact (hproper spec hspec).1 (List.prefix_nil.mp hstarts)
    have htakes (chunks : List Str) : Takes specs (· <+: ·) none chunks.flatten
        (whole (⟨specs, [], none⟩ : InlineHiddenTagParser τ) chunks) :=
      takes_whole hproper ⟨specs, [], none⟩ ⟨rfl, nofun⟩ hnone chunks
    have hothers := htakes others
    rw [← hflatten] at hothers
    exact (htakes texts).unique hproper hnested hothers

/-- The tags of two kinds, as they are usually written. -/
def boldAndCode : List (InlineTagSpec Bool) := [⟨true, "<b>", "</b>"⟩, ⟨false, "<code>", "</code>"⟩]

theorem hiddenTags_boldAndCode :
    InlineHiddenTagParser.new boldAndCode = some ⟨boldAndCode, [], none⟩ ∧
      (ChunkingInvariant (⟨boldAndCode, [], none⟩ : InlineHiddenTagParser Bool) ↔
        ∀ spec ∈ boldAndCode, ∀ other ∈ boldAndCode, ¬ spec.openTag <:+: other.openTag.dropLast) := by
  have hnew : InlineHiddenTagParser.new boldAndCode = some ⟨boldAndCode, [], none⟩ := by decide
  exact ⟨hnew, (hiddenTags_chunkingInvariant_iff hnew).2⟩

/-- The longer tag is not recognised when it comes in two chunks. -/
theorem hiddenTags_longer_tag_split :
    InlineHiddenTagParser.new [⟨true, "<b", "/"⟩, ⟨false, "<b>", "/"⟩] =
        some ⟨[⟨true, "<b", "/"⟩, ⟨false, "<b>", "/"⟩], [], none⟩ ∧
      ¬ ChunkingInvariant
        (⟨[⟨true, "<b", "/"⟩, ⟨false, "<b>", "/"⟩], [], none⟩ : InlineHiddenTagParser Bool) := by
  refine ⟨by decide, fun h => ?_⟩
  have hsame := h ["<b", ">"] ["<b>"] (by decide)
  revert hsame
  decide

/-! ## Bytes -/

/-- Bytes reach the parser of text as the longest text they start with. What can be no text is refused and forgotten,
and how the bytes were cut is not seen in the end. -/
theorem stream_decodes (chunks : List Utf8.Bytes) :
    ∃ texts : List Str, ∀ {π ε : Type} [StreamTextParser π ε] (inner : π), Decodes inner texts (stream inner chunks) := by
  obtain ⟨accepted, pending, texts, hkeeps, hstream⟩ := stream_keeps chunks
  refine ⟨texts, fun inner => ?_⟩
  rw [hstream inner]
  exact hkeeps.decodes rfl

end Codrex.StreamParser
