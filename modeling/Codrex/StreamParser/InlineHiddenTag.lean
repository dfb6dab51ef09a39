import Codrex.Lib.Transition
import Codrex.Lib.Text

/-!
# Inline hidden tags (`utils/stream-parser/src/inline_hidden_tag.rs`)

The parser that takes configured tags out of streamed text, and its use for citations (`citation.rs`).
-/

namespace Codrex.StreamParser

open Text Fallible

structure StreamTextChunk (α : Type) where
  visibleText : Str
  extracted : List α
  deriving DecidableEq

namespace StreamTextChunk

variable {α : Type}

def default : StreamTextChunk α := ⟨[], []⟩

def isEmpty (chunk : StreamTextChunk α) : Bool := chunk.visibleText.isEmpty && chunk.extracted.isEmpty

def append (first second : StreamTextChunk α) : StreamTextChunk α :=
  ⟨first.visibleText ++ second.visibleText, first.extracted ++ second.extracted⟩

end StreamTextChunk

structure ExtractedInlineTag (τ : Type) where
  tag : τ
  content : Str
  deriving DecidableEq

structure InlineTagSpec (τ : Type) where
  tag : τ
  openTag : Str
  closeTag : Str
  deriving DecidableEq

structure ActiveTag (τ : Type) where
  tag : τ
  closeTag : Str
  content : Str
  deriving DecidableEq

structure InlineHiddenTagParser (τ : Type) where
  specs : List (InlineTagSpec τ)
  pending : Str
  active : Option (ActiveTag τ)
  deriving DecidableEq

/-- The source counts bytes and skips what is no character boundary of the needle. -/
def longestSuffixPrefixLen (s needle : Str) : Nat :=
  let max := min s.length (needle.length - 1)
  ((List.range' 1 max).reverse.find? fun k => (needle.take k).isSuffixOf s).getD 0

namespace InlineHiddenTagParser

variable {τ : Type}

/-- The assertions panic. -/
def new (specs : List (InlineTagSpec τ)) : MayPanic (InlineHiddenTagParser τ) :=
  if specs.isEmpty || specs.any (fun spec => spec.openTag.isEmpty || spec.closeTag.isEmpty) then none
  else some ⟨specs, [], none⟩

/-- Where an open tag was found: its position, its length and the index of its spec. -/
structure OpenMatch where
  pos : Nat
  len : Nat
  idx : Nat

/-- The leftmost match comes first, of these the longest, of these the one listed first. -/
def OpenMatch.before (a b : OpenMatch) : Bool :=
  decide (a.pos < b.pos) || (a.pos == b.pos && (decide (b.len < a.len) || (a.len == b.len && decide (a.idx ≤ b.idx))))

def findNextOpen (parser : InlineHiddenTagParser τ) : Option (Nat × Nat) :=
  let found := parser.specs.zipIdx.filterMap fun (spec, idx) =>
    (find spec.openTag parser.pending).map fun pos => OpenMatch.mk pos (byteLen spec.openTag) idx
  match found with
  | [] => none
  | first :: rest =>
      let best := rest.foldl (fun best candidate => if best.before candidate then best else candidate) first
      some (best.pos, best.idx)

def maxOpenPrefixSuffixLen (parser : InlineHiddenTagParser τ) : Nat :=
  ((parser.specs.map fun spec => longestSuffixPrefixLen parser.pending spec.openTag).max?).getD 0

/-- The loop of `push_str`. A turn that goes on takes a whole tag from `pending`. -/
def pushLoop : Nat → InlineHiddenTagParser τ → StreamTextChunk (ExtractedInlineTag τ) →
    InlineHiddenTagParser τ × StreamTextChunk (ExtractedInlineTag τ)
  | 0, parser, out => (parser, out)
  | fuel + 1, parser, out =>
      match parser.active with
      | some active =>
          match find active.closeTag parser.pending with
          | some closeIdx =>
              let tag := ⟨active.tag, active.content ++ parser.pending.take closeIdx⟩
              pushLoop fuel { parser with
                  pending := parser.pending.drop (closeIdx + active.closeTag.length), active := none }
                { out with extracted := out.extracted ++ [tag] }
          | none =>
              let keep := longestSuffixPrefixLen parser.pending active.closeTag
              let take := parser.pending.length - keep
              ({ parser with
                  pending := parser.pending.drop take
                  active := some { active with content := active.content ++ parser.pending.take take } }, out)
      | none =>
          match parser.findNextOpen with
          | some (openIdx, specIdx) =>
              match parser.specs[specIdx]? with
              | none => (parser, out)
              | some spec =>
                  pushLoop fuel { parser with
                      pending := parser.pending.drop (openIdx + spec.openTag.length)
                      active := some ⟨spec.tag, spec.closeTag, []⟩ }
                    { out with visibleText := out.visibleText ++ parser.pending.take openIdx }
          | none =>
              let take := parser.pending.length - parser.maxOpenPrefixSuffixLen
              ({ parser with pending := parser.pending.drop take },
                { out with visibleText := out.visibleText ++ parser.pending.take take })

def pushStr (parser : InlineHiddenTagParser τ) (chunk : Str) :
    InlineHiddenTagParser τ × StreamTextChunk (ExtractedInlineTag τ) :=
  let pending := parser.pending ++ chunk
  pushLoop (pending.length + 1) { parser with pending := pending } .default

def finish (parser : InlineHiddenTagParser τ) : InlineHiddenTagParser τ × StreamTextChunk (ExtractedInlineTag τ) :=
  match parser.active with
  | some active => (⟨parser.specs, [], none⟩, ⟨[], [⟨active.tag, active.content ++ parser.pending⟩]⟩)
  | none => (⟨parser.specs, [], none⟩, ⟨parser.pending, []⟩)

end InlineHiddenTagParser

/-! ## Citations -/

inductive CitationTag
  | citation
  deriving DecidableEq

def citationOpen : Str := "<oai-mem-citation>"

def citationClose : Str := "</oai-mem-citation>"

def citationSpec : InlineTagSpec CitationTag := ⟨.citation, citationOpen, citationClose⟩

structure CitationStreamParser where
  inner : InlineHiddenTagParser CitationTag
  deriving DecidableEq

namespace CitationStreamParser

/-- The assertions of `InlineHiddenTagParser::new` hold for the one spec. -/
def new : CitationStreamParser := ⟨⟨[citationSpec], [], none⟩⟩

example : InlineHiddenTagParser.new [citationSpec] = some new.inner := by decide

def contents (chunk : StreamTextChunk (ExtractedInlineTag CitationTag)) : StreamTextChunk Str :=
  ⟨chunk.visibleText, chunk.extracted.map (·.content)⟩

def pushStr (parser : CitationStreamParser) (chunk : Str) : CitationStreamParser × StreamTextChunk Str :=
  let (inner, out) := parser.inner.pushStr chunk
  (⟨inner⟩, contents out)

def finish (parser : CitationStreamParser) : CitationStreamParser × StreamTextChunk Str :=
  let (inner, out) := parser.inner.finish
  (⟨inner⟩, contents out)

end CitationStreamParser

end Codrex.StreamParser

/-!
## Tags on lines of their own (`utils/stream-parser/src/tagged_line_parser.rs`)

The parser that buffers a line until it is no tag, and its use for proposed plans (`proposed_plan.rs`).
-/

namespace Codrex.StreamParser

open Text

structure TagSpec (τ : Type) where
  openTag : Str
  closeTag : Str
  tag : τ
  deriving DecidableEq

inductive TaggedLineSegment (τ : Type)
  | normal (text : Str)
  | tagStart (tag : τ)
  | tagDelta (tag : τ) (text : Str)
  | tagEnd (tag : τ)
  deriving DecidableEq

structure TaggedLineParser (τ : Type) where
  specs : List (TagSpec τ)
  activeTag : Option τ
  detectTag : Bool
  lineBuffer : Str
  deriving DecidableEq

section

variable {τ : Type} [DecidableEq τ]

def pushSegment (segments : List (TaggedLineSegment τ)) (segment : TaggedLineSegment τ) :
    List (TaggedLineSegment τ) :=
  match segment with
  | .normal delta =>
      if delta = [] then segments
      else match segments.getLast? with
        | some (.normal existing) => segments.dropLast ++ [.normal (existing ++ delta)]
        | _ => segments ++ [.normal delta]
  | .tagDelta tag delta =>
      if delta = [] then segments
      else match segments.getLast? with
        | some (.tagDelta existingTag existing) =>
            if existingTag = tag then segments.dropLast ++ [.tagDelta existingTag (existing ++ delta)]
            else segments ++ [.tagDelta tag delta]
        | _ => segments ++ [.tagDelta tag delta]
  | .tagStart tag => segments ++ [.tagStart tag]
  | .tagEnd tag => segments ++ [.tagEnd tag]

namespace TaggedLineParser

def new (specs : List (TagSpec τ)) : TaggedLineParser τ := ⟨specs, none, true, []⟩

def pushText (parser : TaggedLineParser τ) (text : Str) (segments : List (TaggedLineSegment τ)) :
    List (TaggedLineSegment τ) :=
  match parser.activeTag with
  | some tag => pushSegment segments (.tagDelta tag text)
  | none => pushSegment segments (.normal text)

def isTagPrefix (parser : TaggedLineParser τ) (slug : Str) : Bool :=
  let slug := trimEnd slug
  parser.specs.any fun spec => slug.isPrefixOf spec.openTag || slug.isPrefixOf spec.closeTag

def matchOpen (parser : TaggedLineParser τ) (slug : Str) : Option τ :=
  (parser.specs.find? fun spec => spec.openTag = slug).map (·.tag)

def matchClose (parser : TaggedLineParser τ) (slug : Str) : Option τ :=
  (parser.specs.find? fun spec => spec.closeTag = slug).map (·.tag)

def stripNewline (line : Str) : Str := if line.getLast? = some '\n' then line.dropLast else line

def lineSlug (line : Str) : Str := trimEnd (trimStart (stripNewline line))

def finishLine (parser : TaggedLineParser τ) (segments : List (TaggedLineSegment τ)) :
    TaggedLineParser τ × List (TaggedLineSegment τ) :=
  let line := parser.lineBuffer
  let slug := lineSlug line
  let parser := { parser with lineBuffer := [], detectTag := true }
  match parser.matchOpen slug, parser.matchClose slug, parser.activeTag with
  | some tag, _, none => ({ parser with activeTag := some tag }, pushSegment segments (.tagStart tag))
  | _, some tag, some active =>
      if active = tag then ({ parser with activeTag := none }, pushSegment segments (.tagEnd tag))
      else (parser, parser.pushText line segments)
  | _, _, _ => (parser, parser.pushText line segments)

/-- The loop over the characters; `run` is text that is not pushed yet. -/
def parseLoop : Str → TaggedLineParser τ → Str → List (TaggedLineSegment τ) →
    TaggedLineParser τ × List (TaggedLineSegment τ)
  | [], parser, run, segments => (parser, if run = [] then segments else parser.pushText run segments)
  | ch :: rest, parser, run, segments =>
      if parser.detectTag then
        let segments := if run = [] then segments else parser.pushText run segments
        let parser := { parser with lineBuffer := parser.lineBuffer ++ [ch] }
        if ch = '\n' then
          let (parser, segments) := parser.finishLine segments
          parseLoop rest parser [] segments
        else
          let slug := trimStart parser.lineBuffer
          if slug = [] || parser.isTagPrefix slug then parseLoop rest parser [] segments
          else
            let buffered := parser.lineBuffer
            let parser := { parser with lineBuffer := [], detectTag := false }
            parseLoop rest parser [] (parser.pushText buffered segments)
      else
        let run := run ++ [ch]
        if ch = '\n' then parseLoop rest { parser with detectTag := true } [] (parser.pushText run segments)
        else parseLoop rest parser run segments

def parse (parser : TaggedLineParser τ) (delta : Str) : TaggedLineParser τ × List (TaggedLineSegment τ) :=
  parseLoop delta parser [] []

/-- The last line is read as `finishLine` reads one, and an open tag is closed. -/
def finish (parser : TaggedLineParser τ) : TaggedLineParser τ × List (TaggedLineSegment τ) :=
  let (parser, segments) :=
    if parser.lineBuffer = [] then (parser, [])
    else
      let buffered := parser.lineBuffer
      let slug := lineSlug buffered
      let parser := { parser with lineBuffer := [] }
      match parser.matchOpen slug, parser.matchClose slug, parser.activeTag with
      | some tag, _, none => ({ parser with activeTag := some tag }, pushSegment [] (.tagStart tag))
      | _, some tag, some active =>
          if active = tag then ({ parser with activeTag := none }, pushSegment [] (.tagEnd tag))
          else (parser, parser.pushText buffered [])
      | _, _, _ => (parser, parser.pushText buffered [])
  let segments := match parser.activeTag with
    | some tag => pushSegment segments (.tagEnd tag)
    | none => segments
  ({ parser with activeTag := none, detectTag := true }, segments)

end TaggedLineParser

end

/-! ## Proposed plans -/

def planOpen : Str := "<proposed_plan>"

def planClose : Str := "</proposed_plan>"

inductive PlanTag
  | proposedPlan
  deriving DecidableEq

inductive ProposedPlanSegment
  | normal (text : Str)
  | proposedPlanStart
  | proposedPlanDelta (text : Str)
  | proposedPlanEnd
  deriving DecidableEq

structure ProposedPlanParser where
  parser : TaggedLineParser PlanTag
  deriving DecidableEq

def mapSegment : TaggedLineSegment PlanTag → ProposedPlanSegment
  | .normal text => .normal text
  | .tagStart .proposedPlan => .proposedPlanStart
  | .tagDelta .proposedPlan text => .proposedPlanDelta text
  | .tagEnd .proposedPlan => .proposedPlanEnd

def ProposedPlanSegment.visible : ProposedPlanSegment → Str
  | normal text => text
  | _ => []

def mapSegments (segments : List (TaggedLineSegment PlanTag)) : StreamTextChunk ProposedPlanSegment :=
  ⟨(segments.map mapSegment).flatMap (·.visible), segments.map mapSegment⟩

namespace ProposedPlanParser

def new : ProposedPlanParser := ⟨.new [⟨planOpen, planClose, .proposedPlan⟩]⟩

def pushStr (plan : ProposedPlanParser) (chunk : Str) : ProposedPlanParser × StreamTextChunk ProposedPlanSegment :=
  let (parser, segments) := plan.parser.parse chunk
  (⟨parser⟩, mapSegments segments)

def finish (plan : ProposedPlanParser) : ProposedPlanParser × StreamTextChunk ProposedPlanSegment :=
  let (parser, segments) := plan.parser.finish
  (⟨parser⟩, mapSegments segments)

end ProposedPlanParser

end Codrex.StreamParser
