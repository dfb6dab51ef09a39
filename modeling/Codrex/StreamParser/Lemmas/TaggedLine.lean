import Codrex.StreamParser.AssistantText

/-!
# Lines with tags, character by character

The line parser is compared with one that looks at a character at a time and keeps no run of text. The latter does not
see the chunks.
-/

namespace Codrex.StreamParser

open Text

variable {τ : Type} [DecidableEq τ]

/-! ## Segments next to each other -/

/-- Two segments of one kind next to each other are one. -/
inductive Merges : TaggedLineSegment τ → TaggedLineSegment τ → TaggedLineSegment τ → Prop
  | normal (first second : Str) : Merges (.normal first) (.normal second) (.normal (first ++ second))
  | tagDelta (tag : τ) (first second : Str) :
      Merges (.tagDelta tag first) (.tagDelta tag second) (.tagDelta tag (first ++ second))

/-- The segment has text, if it is one that carries text. -/
def TaggedLineSegment.NotEmpty : TaggedLineSegment τ → Prop
  | normal text => text ≠ []
  | tagDelta _ text => text ≠ []
  | tagStart _ => True
  | tagEnd _ => True

theorem pushSegment_cases (segments : List (TaggedLineSegment τ)) (segment : TaggedLineSegment τ) :
    (¬ segment.NotEmpty ∧ pushSegment segments segment = segments) ∨
      (segment.NotEmpty ∧ pushSegment segments segment = segments ++ [segment]) ∨
      (segment.NotEmpty ∧ ∃ front last merged, segments = front ++ [last] ∧ Merges last segment merged ∧
        pushSegment segments segment = front ++ [merged]) := by
  cases segment with
  | tagStart tag => exact Or.inr (Or.inl ⟨trivial, rfl⟩)
  | tagEnd tag => exact Or.inr (Or.inl ⟨trivial, rfl⟩)
  | normal text =>
      by_cases htext : text = []
      · exact Or.inl ⟨fun h => h htext, by simp [pushSegment, htext]⟩
      · rcases List.eq_nil_or_concat segments with rfl | ⟨front, last, rfl⟩
        · exact Or.inr (Or.inl ⟨htext, by simp [pushSegment, htext]⟩)
        · cases last with
          | normal existing =>
              exact Or.inr (Or.inr ⟨htext, front, _, _, by simp, .normal existing text, by simp [pushSegment, htext]⟩)
          | tagDelta tag existing => exact Or.inr (Or.inl ⟨htext, by simp [pushSegment, htext]⟩)
          | tagStart tag => exact Or.inr (Or.inl ⟨htext, by simp [pushSegment, htext]⟩)
          | tagEnd tag => exact Or.inr (Or.inl ⟨htext, by simp [pushSegment, htext]⟩)
  | tagDelta tag text =>
      by_cases htext : text = []
      · exact Or.inl ⟨fun h => h htext, by simp [pushSegment, htext]⟩
      · rcases List.eq_nil_or_concat segments with rfl | ⟨front, last, rfl⟩
        · exact Or.inr (Or.inl ⟨htext, by simp [pushSegment, htext]⟩)
        · cases last with
          | tagDelta existingTag existing =>
              by_cases htag : existingTag = tag
              · subst htag
                exact Or.inr (Or.inr ⟨htext, front, _, _, by simp, .tagDelta existingTag existing text,
                  by simp [pushSegment, htext]⟩)
              · exact Or.inr (Or.inl ⟨htext, by simp [pushSegment, htext, htag]⟩)
          | normal existing => exact Or.inr (Or.inl ⟨htext, by simp [pushSegment, htext]⟩)
          | tagStart tag => exact Or.inr (Or.inl ⟨htext, by simp [pushSegment, htext]⟩)
          | tagEnd tag => exact Or.inr (Or.inl ⟨htext, by simp [pushSegment, htext]⟩)

/-- Text that is pushed behind text of its kind goes into the same segment. -/
theorem pushSegment_of_merges {last segment merged : TaggedLineSegment τ} (hmerges : Merges last segment merged)
    (hlast : last.NotEmpty) (hsegment : segment.NotEmpty) (segments : List (TaggedLineSegment τ)) :
    pushSegment (pushSegment segments last) segment = pushSegment segments merged := by
  cases hmerges with
  | normal first second =>
      have hfirst : first ≠ [] := hlast
      have hsecond : second ≠ [] := hsegment
      rcases List.eq_nil_or_concat segments with rfl | ⟨front, existing, rfl⟩
      · simp [pushSegment, hfirst, hsecond]
      · cases existing with
        | normal text => simp [pushSegment, hfirst, hsecond]
        | tagDelta tag text => simp [pushSegment, hfirst, hsecond]
        | tagStart tag => simp [pushSegment, hfirst, hsecond]
        | tagEnd tag => simp [pushSegment, hfirst, hsecond]
  | tagDelta tag first second =>
      have hfirst : first ≠ [] := hlast
      have hsecond : second ≠ [] := hsegment
      rcases List.eq_nil_or_concat segments with rfl | ⟨front, existing, rfl⟩
      · simp [pushSegment, hfirst, hsecond]
      · cases existing with
        | normal text => simp [pushSegment, hfirst, hsecond]
        | tagDelta other text =>
            by_cases htag : other = tag
            · simp [pushSegment, hfirst, hsecond, htag]
            · simp [pushSegment, hfirst, hsecond, htag]
        | tagStart tag => simp [pushSegment, hfirst, hsecond]
        | tagEnd tag => simp [pushSegment, hfirst, hsecond]

/-! ## Starts and ends -/

/-- The tag that is open behind a segment, if the segment may stand where `active` is open. -/
def TaggedLineSegment.after (active : Option τ) : TaggedLineSegment τ → Option (Option τ)
  | normal _ => if active = none then some none else none
  | tagStart tag => if active = none then some (some tag) else none
  | tagDelta tag _ => if active = some tag then some active else none
  | tagEnd tag => if active = some tag then some none else none

def openAfter (active : Option τ) (segments : List (TaggedLineSegment τ)) : Option (Option τ) :=
  segments.foldlM (fun active segment => segment.after active) active

theorem openAfter_append {start active : Option τ} {first : List (TaggedLineSegment τ)}
    (h : openAfter start first = some active) (second : List (TaggedLineSegment τ)) :
    openAfter start (first ++ second) = openAfter active second := by
  unfold openAfter at h ⊢
  rw [List.foldlM_append, h]
  rfl

theorem openAfter_concat {start active : Option τ} {segments : List (TaggedLineSegment τ)}
    {segment : TaggedLineSegment τ} :
    openAfter start (segments ++ [segment]) = some active ↔
      ∃ mid, openAfter start segments = some mid ∧ segment.after mid = some active := by
  simp [openAfter, List.foldlM_append, Option.bind_eq_some_iff]

theorem openAfter_pushSegment {start active next : Option τ} {segments : List (TaggedLineSegment τ)}
    {segment : TaggedLineSegment τ} (h : openAfter start segments = some active)
    (hafter : segment.after active = some next) (hnext : segment.NotEmpty) :
    openAfter start (pushSegment segments segment) = some next := by
  rcases pushSegment_cases segments segment with
    ⟨hempty, -⟩ | ⟨-, hpush⟩ | ⟨-, front, last, merged, rfl, hmerges, hpush⟩
  · exact absurd hnext hempty
  · rw [hpush, openAfter_append h]
    simpa [openAfter] using hafter
  · rw [hpush, openAfter_concat]
    obtain ⟨mid, hmid, hlast⟩ := openAfter_concat.mp h
    refine ⟨mid, hmid, ?_⟩
    cases hmerges with
    | normal first second =>
        simp only [TaggedLineSegment.after] at hlast hafter ⊢
        grind
    | tagDelta tag first second =>
        simp only [TaggedLineSegment.after] at hlast hafter ⊢
        grind

/-! ## The parts of a text -/

omit [DecidableEq τ] in
@[simp] theorem Part.spelling_closed (tag : τ) : (Part.closed tag).spelling = [] := rfl

omit [DecidableEq τ] in
@[simp] theorem Part.wellFormed_closed (specs : List (TagSpec τ)) (tag : τ) : (Part.closed tag).WellFormed specs :=
  trivial

omit [DecidableEq τ] in
theorem Part.WellFormed.notEmpty {specs : List (TagSpec τ)} {part : Part τ} (h : part.WellFormed specs) :
    part.segment.NotEmpty := by
  cases part with
  | text active content =>
      cases active with
      | none => exact h
      | some tag => exact h
  | openLine tag line => trivial
  | closeLine tag line => trivial
  | closed tag => trivial

def pushParts (segments : List (TaggedLineSegment τ)) (parts : List (Part τ)) : List (TaggedLineSegment τ) :=
  parts.foldl (fun segments part => pushSegment segments part.segment) segments

namespace TaggedLineParser

theorem pushText_eq (parser : TaggedLineParser τ) (content : Str) (segments : List (TaggedLineSegment τ)) :
    parser.pushText content segments = pushSegment segments (Part.text parser.activeTag content).segment := by
  unfold pushText
  cases parser.activeTag with
  | none => rfl
  | some tag => rfl

@[simp] theorem pushSegment_text_nil (active : Option τ) (segments : List (TaggedLineSegment τ)) :
    pushSegment segments (Part.text active []).segment = segments := by
  cases active with
  | none => rfl
  | some tag => rfl

theorem pushSegment_text_append (active : Option τ) {run : Str} {ch : Char} (segments : List (TaggedLineSegment τ)) :
    pushSegment (pushSegment segments (Part.text active run).segment) (Part.text active [ch]).segment =
      pushSegment segments (Part.text active (run ++ [ch])).segment := by
  by_cases hrun : run = []
  · rw [hrun, pushSegment_text_nil, List.nil_append]
  · cases active with
    | none => exact pushSegment_of_merges (.normal run [ch]) hrun (List.cons_ne_nil _ _) segments
    | some tag => exact pushSegment_of_merges (.tagDelta tag run [ch]) hrun (List.cons_ne_nil _ _) segments

theorem flush_run (parser : TaggedLineParser τ) (run : Str) (segments : List (TaggedLineSegment τ)) :
    (if run = [] then segments else parser.pushText run segments) =
      pushSegment segments (Part.text parser.activeTag run).segment := by
  split
  · next hrun => rw [hrun, pushSegment_text_nil]
  · exact pushText_eq parser run segments

/-- How a whole line is read, and the tag that is open behind it. -/
def readLine (parser : TaggedLineParser τ) (line : Str) : Option τ × Part τ :=
  match parser.matchOpen (lineSlug line), parser.matchClose (lineSlug line), parser.activeTag with
  | some tag, _, none => (some tag, .openLine tag line)
  | _, some tag, some active =>
      if active = tag then (none, .closeLine tag line) else (parser.activeTag, .text parser.activeTag line)
  | _, _, _ => (parser.activeTag, .text parser.activeTag line)

theorem finishLine_eq (parser : TaggedLineParser τ) (segments : List (TaggedLineSegment τ)) :
    parser.finishLine segments =
      (⟨parser.specs, (parser.readLine parser.lineBuffer).1, true, []⟩,
        pushSegment segments (parser.readLine parser.lineBuffer).2.segment) := by
  obtain ⟨specs, activeTag, detectTag, lineBuffer⟩ := parser
  simp only [finishLine, readLine, matchOpen, matchClose, pushText_eq]
  generalize (specs.find? fun spec => decide (spec.openTag = lineSlug lineBuffer)).map (·.tag) = opened
  generalize (specs.find? fun spec => decide (spec.closeTag = lineSlug lineBuffer)).map (·.tag) = ended
  cases opened <;> cases ended <;> cases activeTag <;> try rfl
  all_goals
    dsimp only
    split <;> rfl

/-- One character, with no run of text. -/
def readChar (parser : TaggedLineParser τ) (ch : Char) : TaggedLineParser τ × List (Part τ) :=
  if parser.detectTag then
    let line := parser.lineBuffer ++ [ch]
    if ch = '\n' then
      (⟨parser.specs, (parser.readLine line).1, true, []⟩, [(parser.readLine line).2])
    else if trimStart line = [] || parser.isTagPrefix (trimStart line) then ({ parser with lineBuffer := line }, [])
    else ({ parser with lineBuffer := [], detectTag := false }, [.text parser.activeTag line])
  else ({ parser with detectTag := ch = '\n' }, [.text parser.activeTag [ch]])

def readAll : TaggedLineParser τ → Str → TaggedLineParser τ × List (Part τ)
  | parser, [] => (parser, [])
  | parser, ch :: rest =>
      let (parser, parts) := parser.readChar ch
      let (parser, others) := readAll parser rest
      (parser, parts ++ others)

omit [DecidableEq τ] in
theorem isTagPrefix_buffer (lineBuffer other : Str) (specs : List (TagSpec τ)) (activeTag : Option τ) (detectTag : Bool)
    (slug : Str) :
    isTagPrefix ⟨specs, activeTag, detectTag, other⟩ slug = isTagPrefix ⟨specs, activeTag, detectTag, lineBuffer⟩ slug :=
  rfl

theorem readAll_append (parser : TaggedLineParser τ) (first second : Str) :
    parser.readAll (first ++ second) =
      (((parser.readAll first).1.readAll second).1,
        (parser.readAll first).2 ++ ((parser.readAll first).1.readAll second).2) := by
  induction first generalizing parser with
  | nil => rfl
  | cons ch rest ih => simp [readAll, ih]

/-- The loop pushes the parts of the text; the run is text that waits to be pushed in front of them. -/
theorem parseLoop_eq (delta : Str) (parser : TaggedLineParser τ) (run : Str) (segments : List (TaggedLineSegment τ))
    (h : parser.detectTag = true → run = []) :
    parseLoop delta parser run segments =
      ((parser.readAll delta).1,
        pushParts (pushSegment segments (Part.text parser.activeTag run).segment) (parser.readAll delta).2) := by
  induction delta generalizing parser run segments with
  | nil => simp [parseLoop, readAll, pushParts, flush_run]
  | cons ch rest ih =>
      obtain ⟨specs, activeTag, detectTag, lineBuffer⟩ := parser
      cases detectTag with
      | true =>
          obtain rfl := h rfl
          by_cases hch : ch = '\n'
          · simp only [parseLoop, readAll, readChar, hch, if_true, finishLine_eq]
            rw [ih _ _ _ (fun _ => rfl)]
            simp [pushParts, readLine, matchOpen, matchClose]
          · simp only [parseLoop, readAll, readChar, hch, if_true, if_false, isTagPrefix_buffer lineBuffer]
            split
            · rw [ih _ _ _ (fun _ => rfl)]
              simp [pushParts]
            · rw [ih _ _ _ (fun _ => rfl), pushText_eq]
              simp [pushParts]
      | false =>
          by_cases hch : ch = '\n'
          · simp only [parseLoop, readAll, readChar, hch, if_true, Bool.false_eq_true, if_false]
            rw [ih _ _ _ (fun _ => rfl), pushText_eq, ← pushSegment_text_append]
            simp [pushParts]
          · simp only [parseLoop, readAll, readChar, hch, Bool.false_eq_true, if_false]
            rw [ih _ _ _ (fun hd => absurd hd Bool.false_ne_true), ← pushSegment_text_append]
            simp [pushParts]

/-! ## What the parts spell -/

variable {parser : TaggedLineParser τ}

omit [DecidableEq τ] in
theorem matchOpen_eq {slug : Str} {tag : τ} (h : parser.matchOpen slug = some tag) :
    ∃ spec ∈ parser.specs, slug = spec.openTag ∧ spec.tag = tag := by
  obtain ⟨spec, hfind, htag⟩ := Option.map_eq_some_iff.mp h
  have hslug := List.find?_some hfind
  exact ⟨spec, List.mem_of_find?_eq_some hfind, (of_decide_eq_true hslug).symm, htag⟩

omit [DecidableEq τ] in
theorem matchClose_eq {slug : Str} {tag : τ} (h : parser.matchClose slug = some tag) :
    ∃ spec ∈ parser.specs, slug = spec.closeTag ∧ spec.tag = tag := by
  obtain ⟨spec, hfind, htag⟩ := Option.map_eq_some_iff.mp h
  have hslug := List.find?_some hfind
  exact ⟨spec, List.mem_of_find?_eq_some hfind, (of_decide_eq_true hslug).symm, htag⟩

theorem readLine_spec (parser : TaggedLineParser τ) {line : Str} (h : line ≠ []) :
    (parser.readLine line).2.spelling = line ∧ (parser.readLine line).2.WellFormed parser.specs ∧
      (parser.readLine line).2.segment.after parser.activeTag = some (parser.readLine line).1 := by
  have htext : (Part.text parser.activeTag line).segment.after parser.activeTag = some parser.activeTag := by
    cases parser.activeTag with
    | none => rfl
    | some tag => simp [Part.segment, TaggedLineSegment.after]
  unfold readLine
  split
  · next tag hopen hactive =>
      obtain ⟨spec, hspec, hslug, htag⟩ := matchOpen_eq hopen
      rw [hactive]
      exact ⟨rfl, ⟨spec, hspec, htag, hslug⟩, rfl⟩
  · next tag active hclose hactive =>
      by_cases htag : active = tag
      · obtain ⟨spec, hspec, hslug, hspecTag⟩ := matchClose_eq hclose
        rw [hactive, if_pos htag, htag]
        exact ⟨rfl, ⟨spec, hspec, hspecTag, hslug⟩, by simp [Part.segment, TaggedLineSegment.after]⟩
      · rw [if_neg htag]
        exact ⟨rfl, h, htext⟩
  · exact ⟨rfl, h, htext⟩

/-- A line is buffered only where a tag may stand. -/
def Buffers (parser : TaggedLineParser τ) : Prop := parser.detectTag = false → parser.lineBuffer = []

/-- The buffer and the new text are the parts that were read and the buffer behind them. -/
structure Consumes (parser : TaggedLineParser τ) (text : Str) (parser' : TaggedLineParser τ) (parts : List (Part τ)) :
    Prop where
  specs : parser'.specs = parser.specs
  buffers : parser'.Buffers
  spelling : parser.lineBuffer ++ text = parts.flatMap (·.spelling) ++ parser'.lineBuffer
  wellFormed : ∀ part ∈ parts, part.WellFormed parser.specs
  openAfter : openAfter parser.activeTag (parts.map (·.segment)) = some parser'.activeTag

theorem readChar_consumes (h : parser.Buffers) (ch : Char) :
    Consumes parser [ch] (parser.readChar ch).1 (parser.readChar ch).2 := by
  obtain ⟨specs, activeTag, detectTag, lineBuffer⟩ := parser
  have htext : ∀ content, openAfter activeTag [(Part.text activeTag content).segment] = some activeTag := by
    intro content
    cases activeTag with
    | none => rfl
    | some tag => simp [openAfter, Part.segment, TaggedLineSegment.after]
  cases detectTag with
  | true =>
      simp only [readChar, if_true]
      split
      · have hline : lineBuffer ++ [ch] ≠ [] := List.append_ne_nil_of_right_ne_nil _ (List.cons_ne_nil _ _)
        obtain ⟨hspelling, hwell, hafter⟩ := readLine_spec ⟨specs, activeTag, true, lineBuffer⟩ hline
        exact ⟨rfl, fun _ => rfl, by simp [hspelling], by simpa using hwell, by simpa [openAfter] using hafter⟩
      · split
        · exact ⟨rfl, nofun, by simp, nofun, rfl⟩
        · exact ⟨rfl, fun _ => rfl, by simp [Part.spelling], by simp [Part.WellFormed], htext _⟩
  | false =>
      obtain rfl : lineBuffer = [] := h rfl
      exact ⟨rfl, fun _ => rfl, rfl, by simp [readChar, Part.WellFormed], htext _⟩

theorem Consumes.trans {next last : TaggedLineParser τ} {first second : Str} {parts others : List (Part τ)}
    (hfirst : Consumes parser first next parts) (hsecond : Consumes next second last others) :
    Consumes parser (first ++ second) last (parts ++ others) := by
  constructor
  case specs => rw [hsecond.specs, hfirst.specs]
  case buffers => exact hsecond.buffers
  case spelling =>
    rw [← List.append_assoc, hfirst.spelling, List.append_assoc, hsecond.spelling, List.flatMap_append,
      List.append_assoc]
  case wellFormed =>
    intro part hpart
    rcases List.mem_append.mp hpart with hpart | hpart
    · exact hfirst.wellFormed part hpart
    · rw [← hfirst.specs]
      exact hsecond.wellFormed part hpart
  case openAfter => rw [List.map_append, openAfter_append hfirst.openAfter, hsecond.openAfter]

theorem readAll_consumes (h : parser.Buffers) (text : Str) :
    Consumes parser text (parser.readAll text).1 (parser.readAll text).2 := by
  induction text generalizing parser with
  | nil => exact ⟨rfl, h, by simp [readAll], by simp [readAll], rfl⟩
  | cons ch rest ih =>
      have hchar := readChar_consumes h ch
      exact hchar.trans (ih hchar.buffers)

/-! ## The end of the text -/

/-- The parts that the end of the text adds. -/
def lastParts (parser : TaggedLineParser τ) : List (Part τ) :=
  let (activeTag, parts) :=
    if parser.lineBuffer = [] then (parser.activeTag, [])
    else ((parser.readLine parser.lineBuffer).1, [(parser.readLine parser.lineBuffer).2])
  parts ++ activeTag.toList.map .closed

theorem finish_eq (parser : TaggedLineParser τ) :
    parser.finish.2 = pushParts [] parser.lastParts := by
  obtain ⟨specs, activeTag, detectTag, lineBuffer⟩ := parser
  by_cases hbuffer : lineBuffer = []
  · cases activeTag with
    | none => simp [finish, lastParts, hbuffer, pushParts]
    | some tag => simp [finish, lastParts, hbuffer, pushParts, Part.segment]
  · simp only [finish, lastParts, readLine, hbuffer, if_false, matchOpen, matchClose, pushText_eq]
    generalize (specs.find? fun spec => decide (spec.openTag = lineSlug lineBuffer)).map (·.tag) = opened
    generalize (specs.find? fun spec => decide (spec.closeTag = lineSlug lineBuffer)).map (·.tag) = ended
    cases opened <;> cases ended <;> cases activeTag <;> try rfl
    all_goals
      rename_i tag active
      by_cases htag : active = tag
      · simp only [htag, if_true]
        rfl
      · simp only [htag, if_false]
        rfl

theorem lastParts_spec (parser : TaggedLineParser τ) :
    parser.lastParts.flatMap (·.spelling) = parser.lineBuffer ∧
      (∀ part ∈ parser.lastParts, part.WellFormed parser.specs) ∧
      openAfter parser.activeTag (parser.lastParts.map (·.segment)) = some none := by
  have hclosed : ∀ active : Option τ, openAfter active ((active.toList.map Part.closed).map (·.segment)) = some none := by
    intro active
    cases active with
    | none => rfl
    | some tag => simp [openAfter, Part.segment, TaggedLineSegment.after]
  by_cases hbuffer : parser.lineBuffer = []
  · simp only [lastParts, hbuffer, if_true, List.nil_append]
    exact ⟨by simp, by simp, hclosed _⟩
  · obtain ⟨hspelling, hwell, hafter⟩ := readLine_spec parser hbuffer
    simp only [lastParts, hbuffer, if_false]
    refine ⟨?_, ?_, ?_⟩
    · simp [hspelling]
    · simp [hwell]
    · have hline : openAfter parser.activeTag [(parser.readLine parser.lineBuffer).2.segment] =
          some (parser.readLine parser.lineBuffer).1 := by
        simpa [openAfter] using hafter
      rw [List.map_append, List.map_singleton, openAfter_append hline]
      exact hclosed _

end TaggedLineParser

end Codrex.StreamParser
