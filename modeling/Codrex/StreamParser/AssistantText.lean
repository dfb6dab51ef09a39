import Codrex.Lib.TagScan
import Codrex.StreamParser.InlineHiddenTag
import Codrex.StreamParser.Utf8Stream

/-!
# Assistant text (`utils/stream-parser/src/assistant_text.rs`)

The citations are taken out of the text, and in plan mode the proposed plans out of what is left.
-/

namespace Codrex.StreamParser

open Text

structure AssistantTextChunk where
  visibleText : Str
  citations : List Str
  planSegments : List ProposedPlanSegment
  deriving DecidableEq

def AssistantTextChunk.append (first second : AssistantTextChunk) : AssistantTextChunk :=
  ⟨first.visibleText ++ second.visibleText, first.citations ++ second.citations,
    first.planSegments ++ second.planSegments⟩

structure AssistantTextStreamParser where
  planMode : Bool
  citations : CitationStreamParser
  plan : ProposedPlanParser
  deriving DecidableEq

namespace AssistantTextStreamParser

def new (planMode : Bool) : AssistantTextStreamParser := ⟨planMode, .new, .new⟩

def parseVisibleText (parser : AssistantTextStreamParser) (visibleText : Str) :
    AssistantTextStreamParser × AssistantTextChunk :=
  if parser.planMode then
    let (plan, planChunk) := parser.plan.pushStr visibleText
    ({ parser with plan := plan }, ⟨planChunk.visibleText, [], planChunk.extracted⟩)
  else (parser, ⟨visibleText, [], []⟩)

def pushStr (parser : AssistantTextStreamParser) (chunk : Str) : AssistantTextStreamParser × AssistantTextChunk :=
  let (citations, citationChunk) := parser.citations.pushStr chunk
  let (parser, out) := parseVisibleText { parser with citations := citations } citationChunk.visibleText
  (parser, { out with citations := citationChunk.extracted })

def finish (parser : AssistantTextStreamParser) : AssistantTextStreamParser × AssistantTextChunk :=
  let (citations, citationChunk) := parser.citations.finish
  let (parser, out) := parseVisibleText { parser with citations := citations } citationChunk.visibleText
  let (parser, out) :=
    if parser.planMode then
      let (plan, tail) := parser.plan.finish
      ({ parser with plan := plan },
        if !tail.isEmpty then
          { out with
            visibleText := out.visibleText ++ tail.visibleText, planSegments := out.planSegments ++ tail.extracted }
        else out)
    else (parser, out)
  (parser, { out with citations := citationChunk.extracted })

def pushAll : AssistantTextStreamParser → List Str → AssistantTextStreamParser × AssistantTextChunk
  | parser, [] => (parser, ⟨[], [], []⟩)
  | parser, chunk :: chunks =>
      let (parser, out) := parser.pushStr chunk
      let (parser, rest) := pushAll parser chunks
      (parser, out.append rest)

/-- A whole stream: every chunk is pushed, then the parser is finished. -/
def run (planMode : Bool) (chunks : List Str) : AssistantTextChunk :=
  let (parser, out) := pushAll (new planMode) chunks
  out.append parser.finish.2

end AssistantTextStreamParser

end Codrex.StreamParser

/-!
## How a text is taken apart

The pieces between the citation tags and the parts of a text with tag lines, with no regard to chunks.
-/

namespace Codrex.StreamParser

open Text

variable {τ : Type}

/-! ## Hidden tags -/

def InlineTagSpec.tagAfter (spec : InlineTagSpec τ) (inside : Bool) : Str :=
  if inside then spec.closeTag else spec.openTag

/-- The visible pieces and the contents of the tags. A tag at the end that is not closed counts. -/
def hidden : List (Bool × Str) → StreamTextChunk Str
  | [] => .default
  | (false, text) :: rest => ⟨text ++ (hidden rest).visibleText, (hidden rest).extracted⟩
  | (true, content) :: rest => ⟨(hidden rest).visibleText, content :: (hidden rest).extracted⟩

/-- How a text is taken apart with several specs. A tag is chosen by what is seen of the text. -/
inductive Takes (specs : List (InlineTagSpec τ)) (sees : Str → Str → Prop) :
    Option (ActiveTag τ) → Str → StreamTextChunk (ExtractedInlineTag τ) → Prop
  | visible {text} : (∀ spec ∈ specs, find spec.openTag text = none) → Takes specs sees none text ⟨text, []⟩
  | opened {text seen pos idx spec out} : sees seen text →
      TagScan.Best (specs.map (·.openTag)) seen pos idx spec.openTag → specs[idx]? = some spec →
      Takes specs sees (some ⟨spec.tag, spec.closeTag, []⟩) (text.drop (pos + spec.openTag.length)) out →
      Takes specs sees none text ⟨text.take pos ++ out.visibleText, out.extracted⟩
  | unclosed {active text} : find active.closeTag text = none →
      Takes specs sees (some active) text ⟨[], [⟨active.tag, active.content ++ text⟩]⟩
  | closed {active text idx out} : find active.closeTag text = some idx →
      Takes specs sees none (text.drop (idx + active.closeTag.length)) out →
      Takes specs sees (some active) text
        ⟨out.visibleText, ⟨active.tag, active.content ++ text.take idx⟩ :: out.extracted⟩

/-! ## Tag lines -/

/-- What a stretch of the text was read as; `closed` is an end that no text stands for. -/
inductive Part (τ : Type)
  | text (active : Option τ) (content : Str)
  | openLine (tag : τ) (line : Str)
  | closeLine (tag : τ) (line : Str)
  | closed (tag : τ)

namespace Part

def spelling : Part τ → Str
  | text _ content => content
  | openLine _ line => line
  | closeLine _ line => line
  | closed _ => []

def segment : Part τ → TaggedLineSegment τ
  | text (some tag) content => .tagDelta tag content
  | text none content => .normal content
  | openLine tag _ => .tagStart tag
  | closeLine tag _ => .tagEnd tag
  | closed tag => .tagEnd tag

/-- Text is not empty, and a tag line is the tag of a spec with white space around it. -/
def WellFormed (specs : List (TagSpec τ)) : Part τ → Prop
  | text _ content => content ≠ []
  | openLine tag line => ∃ spec ∈ specs, spec.tag = tag ∧ TaggedLineParser.lineSlug line = spec.openTag
  | closeLine tag line => ∃ spec ∈ specs, spec.tag = tag ∧ TaggedLineParser.lineSlug line = spec.closeTag
  | closed _ => True

end Part

/-! ## Plan segments -/

def planParts (parts : List (Part PlanTag)) : List ProposedPlanSegment := parts.map fun part => mapSegment part.segment

/-- A segment in front of others; text next to text of its kind is one segment. -/
def joinSegment : ProposedPlanSegment → List ProposedPlanSegment → List ProposedPlanSegment
  | .normal first, .normal second :: rest => .normal (first ++ second) :: rest
  | .proposedPlanDelta first, .proposedPlanDelta second :: rest => .proposedPlanDelta (first ++ second) :: rest
  | segment, rest => segment :: rest

def coalesce (segments : List ProposedPlanSegment) : List ProposedPlanSegment := segments.foldr joinSegment []

/-- Every start has its end, with nothing but plan text between them. -/
inductive Matched : List ProposedPlanSegment → Prop
  | nil : Matched []
  | normal (text : Str) {rest} : Matched rest → Matched (.normal text :: rest)
  | plan (deltas : List Str) {rest} :
      Matched rest →
        Matched (.proposedPlanStart :: deltas.map .proposedPlanDelta ++ .proposedPlanEnd :: rest)

/-! ## Accounting for a text -/

/-- The pieces between the citation tags. -/
def citationPieces (text : Str) : List (Bool × Str) := TagScan.pieces citationSpec.tagAfter false text

/-- Every character of the text has one place: in the pieces between the citation tags or in the tags, and in plan mode
those outside of citations in visible text, in plan text or in a tag line. -/
structure Accounts (planMode : Bool) (text : Str) (out : AssistantTextChunk) : Prop where
  rebuild : TagScan.rebuild citationSpec.tagAfter (citationPieces text) = text
  citations : out.citations = (hidden (citationPieces text)).extracted
  plain : planMode = false → out.visibleText = (hidden (citationPieces text)).visibleText ∧ out.planSegments = []
  plan : planMode = true → ∃ parts,
    (∀ part ∈ parts, part.WellFormed ProposedPlanParser.new.parser.specs) ∧
      parts.flatMap (·.spelling) = (hidden (citationPieces text)).visibleText ∧
      out.visibleText = (planParts parts).flatMap (·.visible) ∧
      coalesce out.planSegments = coalesce (planParts parts)

/-! ## Streamed bytes -/

section Streamed

open Utf8

variable {π ε : Type} [StreamTextParser π ε]

/-- The parser of text after some texts, with all that came out of it. -/
def feed (inner : π) (texts : List Str) : π × StreamTextChunk ε :=
  texts.foldl (fun fed text =>
    ((StreamTextParser.pushStr fed.1 text).1, fed.2.append (StreamTextParser.pushStr fed.1 text).2)) (inner, .default)

def whole (inner : π) (texts : List Str) : StreamTextChunk ε :=
  (feed inner texts).2.append (StreamTextParser.finish (feed inner texts).1).2

/-- How a text is cut makes no difference in the end. -/
def ChunkingInvariant (inner : π) : Prop :=
  ∀ texts others : List Str, texts.flatten = others.flatten → whole inner texts = whole inner others

/-- A parser of bytes in use, with the chunks it did not refuse and what came out of it. -/
structure Streamed (π ε : Type) where
  parser : Utf8StreamParser π
  accepted : Bytes
  output : StreamTextChunk ε

def Streamed.push (streamed : Streamed π ε) (chunk : Bytes) : Streamed π ε :=
  match streamed.parser.pushBytes chunk with
  | (parser, .ok out) => ⟨parser, streamed.accepted ++ chunk, streamed.output.append out⟩
  | (parser, .error _) => { streamed with parser }

def stream (inner : π) (chunks : List Bytes) : Streamed π ε :=
  chunks.foldl Streamed.push ⟨.new inner, [], .default⟩

/-- The texts are those that the parser of text was given. -/
structure Decodes (inner : π) (texts : List Str) (streamed : Streamed π ε) : Prop where
  fed : feed inner texts = (streamed.parser.inner, streamed.output)
  longest : Longest streamed.accepted texts.flatten
  pending : streamed.accepted = encode texts.flatten ++ streamed.parser.pendingUtf8
  heldBack : streamed.parser.pendingUtf8.length ≤ 3
  refuses : ∀ chunk, (∃ validUpTo errorLen,
      (streamed.parser.pushBytes chunk).2 = .error (.invalidUtf8 validUpTo errorLen)) ↔
    Hopeless (streamed.parser.pendingUtf8 ++ chunk)
  accepts : ∀ chunk, ¬ Hopeless (streamed.parser.pendingUtf8 ++ chunk) →
    ∃ out, (streamed.parser.pushBytes chunk).2 = .ok out
  rollback : ∀ chunk, Hopeless (streamed.parser.pendingUtf8 ++ chunk) →
    (streamed.parser.pushBytes chunk).1 = streamed.parser
  incomplete : (∃ err, streamed.parser.finish.2 = .error err) ↔
    ∃ text rest, streamed.accepted = encode text ++ rest ∧ Starts rest
  result : ∀ out, streamed.parser.finish.2 = .ok out →
    streamed.output.append out = whole inner texts ∧
      ∃ text, streamed.accepted = encode text ∧ texts.flatten = text ∧
        (ChunkingInvariant inner → streamed.output.append out = whole inner [text])

end Streamed

end Codrex.StreamParser
