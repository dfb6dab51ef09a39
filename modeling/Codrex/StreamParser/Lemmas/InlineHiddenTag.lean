import Codrex.StreamParser.AssistantText

/-!
# One hidden tag

With a single spec, what is pushed in chunks is taken apart as the whole text is.
-/

namespace Codrex.StreamParser

open Text TagScan

variable {τ : Type} {spec : InlineTagSpec τ}

theorem holdsBack_longestSuffixPrefixLen (s : Str) {needle : Str} (hpos : 0 < needle.length) :
    HoldsBack needle s (s.length - longestSuffixPrefixLen s needle) := by
  obtain ⟨hle, hbest, hmax⟩ := find?_reverse_range' (fun k => (needle.take k).isSuffixOf s)
    (min s.length (needle.length - 1))
  change longestSuffixPrefixLen s needle ≤ _ at hle
  change longestSuffixPrefixLen s needle = 0 ∨
    (needle.take (longestSuffixPrefixLen s needle)).isSuffixOf s = true at hbest
  change ∀ j, 0 < j → _ → _ → j ≤ longestSuffixPrefixLen s needle at hmax
  generalize longestSuffixPrefixLen s needle = k at *
  have hlen : (needle.take k).length = k := by rw [List.length_take]; omega
  constructor
  case le_length => exact Nat.sub_le _ _
  case isPartial =>
    have hdrop : s.drop (s.length - k) = needle.take k := by
      rcases hbest with rfl | hsuf
      · simp
      · obtain ⟨front, rfl⟩ := List.isSuffixOf_iff_suffix.mp hsuf
        rw [List.length_append, hlen, Nat.add_sub_cancel, List.drop_left]
    rw [hdrop]
    exact ⟨List.take_prefix _ _, by omega⟩
  case least =>
    intro j hj hp
    by_cases heq : j = s.length
    · omega
    · have hlength : (s.drop j).length = s.length - j := List.length_drop
      have htake : needle.take (s.length - j) = s.drop j := by
        rw [← hlength]
        exact (List.prefix_iff_eq_take.mp hp.1).symm
      have hshort := hp.2
      have := hmax (s.length - j) (by omega) (by omega)
        (List.isSuffixOf_iff_suffix.mpr (htake ▸ List.drop_suffix _ _))
      omega

/-! ## What the pieces of a text stand for -/

def prepend (text : Str) : List (Bool × Str) → List (Bool × Str)
  | [] => []
  | (inside, piece) :: rest => (inside, text ++ piece) :: rest

/-- What is still to come out of a text behind the state of the parser. -/
def outcome (spec : InlineTagSpec τ) (active : Option (ActiveTag τ)) (text : Str) : StreamTextChunk Str :=
  match active with
  | none => hidden (pieces spec.tagAfter false text)
  | some active => hidden (prepend active.content (pieces spec.tagAfter true text))

def contents (chunk : StreamTextChunk (ExtractedInlineTag τ)) : StreamTextChunk Str :=
  ⟨chunk.visibleText, chunk.extracted.map (·.content)⟩

namespace InlineHiddenTagParser

/-- A parser for one spec: its tags are not empty, and it waits for the close tag of that spec. -/
structure For (spec : InlineTagSpec τ) (parser : InlineHiddenTagParser τ) : Prop where
  specs : parser.specs = [spec]
  active : ∀ active, parser.active = some active → active.closeTag = spec.closeTag

/-- No tag is in the buffer. -/
def Waiting (spec : InlineTagSpec τ) (parser : InlineHiddenTagParser τ) : Prop :=
  find (spec.tagAfter parser.active.isSome) parser.pending = none

theorem findNextOpen_single (pending : Str) (active : Option (ActiveTag τ)) :
    findNextOpen ⟨[spec], pending, active⟩ = (find spec.openTag pending).map fun pos => (pos, 0) := by
  cases h : find spec.openTag pending with
  | none => simp [findNextOpen, h]
  | some pos => simp [findNextOpen, h]

theorem maxOpenPrefixSuffixLen_single (pending : Str) (active : Option (ActiveTag τ)) :
    maxOpenPrefixSuffixLen ⟨[spec], pending, active⟩ = longestSuffixPrefixLen pending spec.openTag := by
  simp [maxOpenPrefixSuffixLen]

/-- One call leaves a parser that waits; what it brings out and what is still to come make up the whole. -/
structure Reads (spec : InlineTagSpec τ) (parser : InlineHiddenTagParser τ)
    (out : StreamTextChunk (ExtractedInlineTag τ)) (parser' : InlineHiddenTagParser τ)
    (out' : StreamTextChunk (ExtractedInlineTag τ)) : Prop where
  isFor : parser'.For spec
  waiting : parser'.Waiting spec
  outcome : ∀ future, (contents out).append (outcome spec parser.active (parser.pending ++ future)) =
    (contents out').append (StreamParser.outcome spec parser'.active (parser'.pending ++ future))

variable {parser : InlineHiddenTagParser τ}

/-- A turn that goes on takes over what is still to come. -/
theorem Reads.of_turn {next parser' : InlineHiddenTagParser τ} {out out₁ out' : StreamTextChunk (ExtractedInlineTag τ)}
    (hturn : ∀ future, (contents out).append (StreamParser.outcome spec parser.active (parser.pending ++ future)) =
      (contents out₁).append (StreamParser.outcome spec next.active (next.pending ++ future)))
    (h : Reads spec next out₁ parser' out') : Reads spec parser out parser' out' :=
  ⟨h.isFor, h.waiting, fun future => (hturn future).trans (h.outcome future)⟩

section Turns

variable {pending : Str} {idx : Nat} (out : StreamTextChunk (ExtractedInlineTag τ))

theorem outcome_open (hopen : 0 < spec.openTag.length) (h : find spec.openTag pending = some idx) (future : Str) :
    (contents out).append (StreamParser.outcome spec none (pending ++ future)) =
      (contents { out with visibleText := out.visibleText ++ pending.take idx }).append
        (StreamParser.outcome spec (some ⟨spec.tag, spec.closeTag, []⟩)
          (pending.drop (idx + spec.openTag.length) ++ future)) := by
  have hpieces := pieces_append_of_some spec.tagAfter false hopen h future
  simp only [StreamParser.outcome, hpieces]
  obtain ⟨p, rest, hrest⟩ := List.exists_cons_of_ne_nil
    (pieces_ne_nil spec.tagAfter true (pending.drop (idx + spec.openTag.length) ++ future))
  have htag : spec.tagAfter false = spec.openTag := rfl
  rw [htag, Bool.not_false, hrest, prepend, hidden]
  simp [StreamTextChunk.append, contents]

theorem outcome_close (hclose : 0 < spec.closeTag.length) (h : find spec.closeTag pending = some idx)
    (active : ActiveTag τ) (tag : τ) (future : Str) :
    (contents out).append (StreamParser.outcome spec (some active) (pending ++ future)) =
      (contents { out with extracted := out.extracted ++ [⟨tag, active.content ++ pending.take idx⟩] }).append
        (StreamParser.outcome spec none (pending.drop (idx + spec.closeTag.length) ++ future)) := by
  have hpieces := pieces_append_of_some spec.tagAfter true hclose h future
  have htag : spec.tagAfter true = spec.closeTag := rfl
  simp only [StreamParser.outcome, hpieces, prepend, hidden]
  rw [htag, Bool.not_true]
  simp [StreamTextChunk.append, contents]

theorem outcome_visible (hopen : 0 < spec.openTag.length) (hheld : HoldsBack spec.openTag pending idx)
    (h : find spec.openTag pending = none) (future : Str) :
    (contents out).append (StreamParser.outcome spec none (pending ++ future)) =
      (contents { out with visibleText := out.visibleText ++ pending.take idx }).append
        (StreamParser.outcome spec none (pending.drop idx ++ future)) := by
  obtain ⟨head, rest, hrest, hpieces⟩ :=
    pieces_append_of_none spec.tagAfter false hopen hheld h future
  simp only [StreamParser.outcome, hpieces, hrest, hidden]
  simp [StreamTextChunk.append, contents]

theorem outcome_content (hclose : 0 < spec.closeTag.length) (hheld : HoldsBack spec.closeTag pending idx)
    (h : find spec.closeTag pending = none) (active : ActiveTag τ) (future : Str) :
    StreamParser.outcome spec (some active) (pending ++ future) =
      StreamParser.outcome spec (some { active with content := active.content ++ pending.take idx })
        (pending.drop idx ++ future) := by
  obtain ⟨head, rest, hrest, hpieces⟩ :=
    pieces_append_of_none spec.tagAfter true hclose hheld h future
  simp only [StreamParser.outcome, hpieces, hrest, prepend, List.append_assoc]

end Turns

theorem pushLoop_reads (hopen : 0 < spec.openTag.length) (hclose : 0 < spec.closeTag.length) {fuel : Nat}
    (hfor : parser.For spec) (hfuel : parser.pending.length < fuel) (out : StreamTextChunk (ExtractedInlineTag τ)) :
    Reads spec parser out (pushLoop fuel parser out).1 (pushLoop fuel parser out).2 := by
  induction fuel generalizing parser out with
  | zero => exact absurd hfuel (Nat.not_lt_zero _)
  | succ fuel ih =>
      obtain ⟨specs, pending, active⟩ := parser
      obtain ⟨rfl, hactive⟩ := hfor
      simp only at hfuel hactive
      cases active with
      | some active =>
          obtain ⟨tag, closeTag, content⟩ := active
          obtain rfl := hactive _ rfl
          cases h : find spec.closeTag pending with
          | some idx =>
              have hlen := length_le_of_find h
              simp only [pushLoop, h]
              refine Reads.of_turn ?_ (ih ?_ ?_ _)
              · exact outcome_close out hclose h _ tag
              · exact ⟨rfl, fun _ hnone => by cases hnone⟩
              · simp only [List.length_drop]
                omega
          | none =>
              have hheld := holdsBack_longestSuffixPrefixLen pending hclose
              simp only [pushLoop, h]
              refine ⟨⟨rfl, ?_⟩, hheld.find_drop h, ?_⟩
              · rintro _ ⟨⟩
                rfl
              · intro future
                rw [outcome_content hclose hheld h]
      | none =>
          cases h : find spec.openTag pending with
          | some idx =>
              have hlen := length_le_of_find h
              simp only [pushLoop, findNextOpen_single, h, Option.map_some, List.getElem?_cons_zero]
              refine Reads.of_turn ?_ (ih ?_ ?_ _)
              · exact outcome_open out hopen h
              · refine ⟨rfl, ?_⟩
                rintro _ ⟨⟩
                rfl
              · simp only [List.length_drop]
                omega
          | none =>
              have hheld := holdsBack_longestSuffixPrefixLen pending hopen
              simp only [pushLoop, findNextOpen_single, h, Option.map_none, maxOpenPrefixSuffixLen_single]
              refine ⟨⟨rfl, fun _ hnone => by cases hnone⟩, hheld.find_drop h, ?_⟩
              exact outcome_visible out hopen hheld h

theorem pushStr_reads (hopen : 0 < spec.openTag.length) (hclose : 0 < spec.closeTag.length) (hfor : parser.For spec)
    (chunk : Str) :
    (parser.pushStr chunk).1.For spec ∧ (parser.pushStr chunk).1.Waiting spec ∧
      ∀ future, StreamParser.outcome spec parser.active (parser.pending ++ chunk ++ future) =
        (contents (parser.pushStr chunk).2).append
          (StreamParser.outcome spec (parser.pushStr chunk).1.active ((parser.pushStr chunk).1.pending ++ future)) := by
  have hreads := pushLoop_reads hopen hclose
    (show For spec { parser with pending := parser.pending ++ chunk } from ⟨hfor.specs, hfor.active⟩) (Nat.lt_succ_self _) .default
  exact ⟨hreads.isFor, hreads.waiting, hreads.outcome⟩

theorem contents_finish (hwait : parser.Waiting spec) :
    contents parser.finish.2 = StreamParser.outcome spec parser.active parser.pending := by
  obtain ⟨specs, pending, active⟩ := parser
  cases active with
  | none =>
      have hpieces : pieces spec.tagAfter false pending = [(false, pending)] := pieces_of_none hwait
      rw [StreamParser.outcome, hpieces]
      simp [finish, contents, hidden, StreamTextChunk.default]
  | some active =>
      have hpieces : pieces spec.tagAfter true pending = [(true, pending)] := pieces_of_none hwait
      simp only [StreamParser.outcome, hpieces]
      simp [finish, contents, hidden, prepend, StreamTextChunk.default]

end InlineHiddenTagParser

end Codrex.StreamParser
