import Codrex.Lib.LineEndings
import Codrex.Lib.Text
import Mathlib.Data.Char
import Mathlib.Data.Finset.Sort
import Mathlib.Data.List.AList
import Mathlib.Data.List.Lex

/-!
# Templates (`utils/template`)

Text with placeholders: `{{ name }}` stands for a value, and doubled delimiters stand for themselves. A `BTreeSet` is a
finite set that is read in order, a `BTreeMap` an association list.
-/

namespace Codrex.Templates
open Text

/-- The places are byte offsets of the source. -/
inductive TemplateParseError
  | emptyPlaceholder (start : Nat)
  | nestedPlaceholder (start : Nat)
  | unmatchedClosingDelimiter (start : Nat)
  | unterminatedPlaceholder (start : Nat)
  deriving DecidableEq

inductive TemplateRenderError
  | duplicateValue (name : Str)
  | extraValue (name : Str)
  | missingValue (name : Str)
  deriving DecidableEq

inductive Segment
  | literal (text : Str)
  | placeholder (name : Str)
  deriving DecidableEq

structure Template where
  placeholders : Finset Str
  segments : List Segment
  deriving DecidableEq

/-! ## Parsing -/

def pushLiteral (segments : List Segment) (literal : Str) : List Segment :=
  if literal = [] then segments
  else match segments.getLast? with
    | some (.literal existing) => segments.dropLast ++ [.literal (existing ++ literal)]
    | _ => segments ++ [.literal literal]

/-- The text is what stands between the delimiter and the cursor. The result is the name, the next cursor and the rest of
the source. -/
def parsePlaceholder (start cursor : Nat) (text : Str) : Str → Except TemplateParseError (Str × Nat × Str)
  | [] => .error (.unterminatedPlaceholder start)
  | c :: rest =>
      if ['{', '{'] <+: c :: rest then .error (.nestedPlaceholder start)
      else if ['}', '}'] <+: c :: rest then
        if trim text = [] then .error (.emptyPlaceholder start) else .ok (trim text, cursor + 2, rest.drop 1)
      else parsePlaceholder start (cursor + c.utf8Size) (text ++ [c]) rest

attribute [local simp] parsePlaceholder

theorem length_parsePlaceholder {start cursor next : Nat} {text rest name after : Str}
    (h : parsePlaceholder start cursor text rest = .ok (name, next, after)) : after.length < rest.length := by
  induction rest generalizing cursor text with
  | nil => cases h
  | cons c rest ih =>
      rw [parsePlaceholder] at h
      split at h
      · cases h
      · split at h
        · split at h
          · cases h
          · cases h
            simp only [List.length_drop, List.length_cons]
            omega
        · exact (ih h).trans (Nat.lt_succ_self _)

/-- The literal is what stands between `literal_start` and the cursor. -/
def parseLoop (cursor : Nat) (literal : Str) (placeholders : Finset Str) (segments : List Segment) (rest : Str) :
    Except TemplateParseError Template :=
  match rest with
  | [] => .ok ⟨placeholders, pushLiteral segments literal⟩
  | c :: after =>
      if ['{', '{', '{', '{'] <+: c :: after then
        parseLoop (cursor + 4) [] placeholders (pushLiteral (pushLiteral segments literal) ['{', '{']) (after.drop 3)
      else if ['}', '}', '}', '}'] <+: c :: after then
        parseLoop (cursor + 4) [] placeholders (pushLiteral (pushLiteral segments literal) ['}', '}']) (after.drop 3)
      else if ['{', '{'] <+: c :: after then
        match h : parsePlaceholder cursor (cursor + 2) [] (after.drop 1) with
        | .error err => .error err
        | .ok (placeholder, nextCursor, next) =>
            parseLoop nextCursor [] (insert placeholder placeholders)
              (pushLiteral segments literal ++ [.placeholder placeholder]) next
      else if ['}', '}'] <+: c :: after then .error (.unmatchedClosingDelimiter cursor)
      else parseLoop (cursor + c.utf8Size) (literal ++ [c]) placeholders segments after
termination_by rest.length
decreasing_by
  · simp only [List.length_drop, List.length_cons]
    omega
  · simp only [List.length_drop, List.length_cons]
    omega
  · have hshorter := length_parsePlaceholder h
    simp only [List.length_drop, List.length_cons] at hshorter ⊢
    omega
  · simp only [List.length_cons]
    omega

namespace Template

def parse (source : Str) : Except TemplateParseError Template := parseLoop 0 [] ∅ [] source

/-- `placeholders()`: the names in order. -/
def placeholderNames (template : Template) : List Str := template.placeholders.sort

end Template

/-! ## Rendering -/

abbrev VariableMap := AList fun _ : Str => Str

def insertVariable (map : VariableMap) (entry : Str × Str) : Except TemplateRenderError VariableMap :=
  if (map.lookup entry.1).isSome then .error (.duplicateValue entry.1) else .ok (map.insert entry.1 entry.2)

def buildVariableMap (given : List (Str × Str)) : Except TemplateRenderError VariableMap := given.foldlM insertVariable ∅

def renderSegment (map : VariableMap) (rendered : Str) : Segment → Except TemplateRenderError Str
  | .literal literal => .ok (rendered ++ literal)
  | .placeholder name =>
      match map.lookup name with
      | none => .error (.missingValue name)
      | some value => .ok (rendered ++ value)

def Template.render (template : Template) (given : List (Str × Str)) : Except TemplateRenderError Str := do
  let map ← buildVariableMap given
  match template.placeholderNames.find? fun placeholder => (map.lookup placeholder).isNone with
  | some placeholder => .error (.missingValue placeholder)
  | none =>
      match map.keys.toFinset.sort.find? fun name => name ∉ template.placeholders with
      | some name => .error (.extraValue name)
      | none => template.segments.foldlM (renderSegment map) []

end Codrex.Templates

/-!
## Templates as their authors write them

The source text of a list of segments: delimiters in literals are doubled, and placeholders are written with blanks.
-/

namespace Codrex.Templates
open Text

/-- Every delimiter is doubled, from left to right. -/
def escape : Str → Str
  | '{' :: '{' :: rest => ['{', '{', '{', '{'] ++ escape rest
  | '}' :: '}' :: rest => ['}', '}', '}', '}'] ++ escape rest
  | c :: rest => c :: escape rest
  | [] => []

attribute [local simp] escape

def Segment.source : Segment → Str
  | .literal text => escape text
  | .placeholder name => "\x7b\x7b ".toList ++ name ++ " \x7d\x7d".toList

def sourceOf (segments : List Segment) : Str := segments.flatMap Segment.source

def namesOf (segments : List Segment) : List Str :=
  segments.filterMap fun
    | .literal _ => none
    | .placeholder name => some name

/-- A placeholder's name: not empty, trimmed and without braces. -/
structure IsName (name : Str) : Prop where
  nonempty : name ≠ []
  trimmed : trim name = name
  noOpening : '{' ∉ name
  noClosing : '}' ∉ name

/-- The last of the braces at the end of the text is left over when they are paired from the left. -/
def EndsUnpaired (brace : Char) (text : Str) : Prop := (text.rtakeWhile (· == brace)).length % 2 = 1

instance (brace : Char) (text : Str) : Decidable (EndsUnpaired brace text) := inferInstanceAs (Decidable (_ = _))

/-- What `brace` begins in the text `before` is not completed by `next`. -/
def Apart (before next : Str) : Prop := ∀ brace ∈ ['{', '}'], EndsUnpaired brace before → next.head? ≠ some brace

instance (before next : Str) : Decidable (Apart before next) :=
  List.decidableBAll (fun brace => EndsUnpaired brace before → next.head? ≠ some brace) ['{', '}']

/-- No segment completes a delimiter that the literal text before it begins. -/
def Separated (before : Str) : List Segment → Prop
  | [] => True
  | .literal text :: rest => Apart before text ∧ Separated (before ++ text) rest
  | .placeholder _ :: rest => ¬ EndsUnpaired '{' before ∧ Separated [] rest

attribute [local simp] Separated

/-- The segments with the values in place of the placeholders. -/
def fill (value : Str → Str) (segments : List Segment) : Str :=
  segments.flatMap fun
    | .literal text => text
    | .placeholder name => value name

/-- The template is the one of the segments. -/
structure RendersAs (segments : List Segment) (template : Template) : Prop where
  sorted : template.placeholderNames.Pairwise (· < ·)
  names : ∀ name, name ∈ template.placeholderNames ↔ name ∈ namesOf segments
  renders : ∀ given : List (Str × Str), (given.map Prod.fst).Nodup →
    (∀ name, name ∈ given.map Prod.fst ↔ name ∈ namesOf segments) →
    template.render given = .ok (fill (fun name => (given.lookup name).getD []) segments)
  fails : ∀ given : List (Str × Str), (∃ error, template.render given = .error error) ↔
    (∃ name ∈ namesOf segments, name ∉ given.map Prod.fst) ∨ (∃ name ∈ given.map Prod.fst, name ∉ namesOf segments) ∨
      ¬ (given.map Prod.fst).Nodup

end Codrex.Templates

/-!
## Reading a source text back

The scanner takes the delimiters of an escaped text in the pairs in which they were doubled, if what follows does not
complete the last brace of the text.
-/

namespace Codrex.Templates
open Text

/-! ## Pairs of braces -/

def Alone (c : Char) (rest : Str) : Prop := ∀ brace ∈ ['{', '}'], c = brace → rest.head? ≠ some brace

/-- A text is read in pairs of braces and single characters. -/
theorem pairs_induction {motive : Str → Prop} (nil : motive [])
    (pair : ∀ brace ∈ ['{', '}'], ∀ rest, motive rest → motive (brace :: brace :: rest))
    (single : ∀ c rest, Alone c rest → motive rest → motive (c :: rest)) (text : Str) : motive text := by
  induction text using escape.induct with
  | case1 rest ih => exact pair '{' (by simp) rest ih
  | case2 rest ih => exact pair '}' (by simp) rest ih
  | case3 c rest hopen hclose ih =>
      refine single c rest (fun brace hbrace hc hhead => ?_) ih
      subst hc
      obtain ⟨after, rfl⟩ : ∃ after, rest = c :: after := List.head?_eq_some_iff.mp hhead
      rcases List.mem_pair.mp hbrace with rfl | rfl
      · exact hopen after rfl rfl
      · exact hclose after rfl rfl
  | case4 => exact nil

variable {brace c : Char} {rest : Str}

theorem escape_pair (h : brace ∈ ['{', '}']) (rest : Str) :
    escape (brace :: brace :: rest) = brace :: brace :: brace :: brace :: escape rest := by
  rcases List.mem_pair.mp h with rfl | rfl
  · rw [escape]
    rfl
  · rw [escape]
    rfl

theorem escape_single (h : Alone c rest) : escape (c :: rest) = c :: escape rest := by
  rw [escape]
  · rintro after rfl rfl
    exact h '{' (by simp) rfl rfl
  · rintro after rfl rfl
    exact h '}' (by simp) rfl rfl

theorem head?_escape (text : Str) : (escape text).head? = text.head? := by
  induction text using pairs_induction with
  | nil => rfl
  | pair brace hbrace rest _ => rw [escape_pair hbrace]; rfl
  | single c rest halone _ => rw [escape_single halone]; rfl

/-! ## The brace at the end -/

theorem rtakeWhile_cons_of_all {p : Char → Bool} (h : ∀ d ∈ rest, p d = true) :
    (c :: rest).rtakeWhile p = if p c then c :: rest else rest := by
  rw [List.rtakeWhile, List.reverse_cons, List.takeWhile_append_of_pos (by simpa using h)]
  by_cases hc : p c = true
  · simp [hc]
  · simp [hc]

theorem rtakeWhile_cons_of_not_all {p : Char → Bool} (h : ¬ ∀ d ∈ rest, p d = true) :
    (c :: rest).rtakeWhile p = rest.rtakeWhile p := by
  have hlength : (rest.reverse.takeWhile p).length ≠ rest.reverse.length := by
    intro hlength
    apply h
    have hall := List.takeWhile_eq_self_iff.mp ((List.takeWhile_prefix p).eq_of_length hlength)
    simpa using hall
  rw [List.rtakeWhile, List.reverse_cons, List.takeWhile_append, if_neg hlength, List.rtakeWhile]

theorem endsUnpaired_of_all {text : Str} (h : ∀ d ∈ text, (d == brace) = true) :
    EndsUnpaired brace text ↔ text.length % 2 = 1 := by
  rw [EndsUnpaired, List.rtakeWhile, List.takeWhile_eq_self_iff.mpr (by simpa using h), List.reverse_reverse]

theorem endsUnpaired_pair {other : Char} : EndsUnpaired brace (other :: other :: rest) ↔ EndsUnpaired brace rest := by
  by_cases hall : ∀ d ∈ rest, (d == brace) = true
  · rw [endsUnpaired_of_all hall]
    by_cases hother : (other == brace) = true
    · obtain rfl : other = brace := by simpa using hother
      rw [endsUnpaired_of_all (by simpa using hall)]
      simp only [List.length_cons]
      omega
    · have hnot : ¬ ∀ d ∈ other :: rest, (d == brace) = true := fun h => hother (h other List.mem_cons_self)
      rw [EndsUnpaired, rtakeWhile_cons_of_not_all hnot, rtakeWhile_cons_of_all hall, if_neg hother]
  · have hnot : ¬ ∀ d ∈ other :: rest, (d == brace) = true := fun h =>
      hall fun d hd => h d (List.mem_cons_of_mem _ hd)
    rw [EndsUnpaired, rtakeWhile_cons_of_not_all hnot, rtakeWhile_cons_of_not_all hall, EndsUnpaired]

theorem endsUnpaired_single (hbrace : brace ∈ ['{', '}']) (halone : Alone c rest) (h : EndsUnpaired brace rest) :
    EndsUnpaired brace (c :: rest) := by
  by_cases hall : ∀ d ∈ rest, (d == brace) = true
  · -- The text is not empty and starts with the brace, so the character before it is another one.
    cases rest with
    | nil => cases h
    | cons d rest =>
        obtain rfl : d = brace := by simpa using hall d List.mem_cons_self
        have hc : ¬ (c == d) = true := fun hcd => halone d hbrace (by simpa using hcd) rfl
        rw [EndsUnpaired, rtakeWhile_cons_of_all hall, if_neg hc]
        exact (endsUnpaired_of_all hall).mp h
  · rw [EndsUnpaired, rtakeWhile_cons_of_not_all hall]
    exact h

theorem apart_of_pair {next : Str} (h : Apart (brace :: brace :: rest) next) : Apart rest next :=
  fun other hother hends => h other hother (endsUnpaired_pair.mpr hends)

theorem apart_of_single {next : Str} (halone : Alone c rest) (h : Apart (c :: rest) next) : Apart rest next :=
  fun brace hbrace hends => h brace hbrace (endsUnpaired_single hbrace halone hends)

/-- Nothing that follows the text makes a pair with a character that stands alone in it. -/
theorem alone_append {next : Str} (halone : Alone c rest) (h : Apart (c :: rest) next) : Alone c (rest ++ next) := by
  cases rest with
  | nil =>
      rintro brace hbrace rfl
      exact h c hbrace (by simp [EndsUnpaired, List.rtakeWhile])
  | cons d rest => exact halone

theorem alone_escape {next : Str} (h : Alone c (rest ++ next)) : Alone c (escape rest ++ next) := by
  intro brace hbrace hc
  rw [List.head?_append, head?_escape, ← List.head?_append]
  exact h brace hbrace hc

theorem escape_append {before next : Str} (h : Apart before next) : escape (before ++ next) = escape before ++ escape next := by
  induction before using pairs_induction with
  | nil => rfl
  | pair brace hbrace rest ih =>
      rw [escape_pair hbrace, List.cons_append, List.cons_append, escape_pair hbrace, ih (apart_of_pair h)]
      rfl
  | single c rest halone ih =>
      rw [escape_single halone, List.cons_append, escape_single (alone_append halone h),
        ih (apart_of_single halone h)]
      rfl

/-! ## Segments -/

theorem pushLiteral_nil (segments : List Segment) : pushLiteral segments [] = segments := rfl

theorem pushLiteral_concat (segments : List Segment) (existing : Str) {literal : Str} :
    pushLiteral (segments ++ [.literal existing]) literal = segments ++ [.literal (existing ++ literal)] := by
  rw [pushLiteral]
  split
  next h => simp [h]
  next => simp

theorem pushLiteral_new {segments : List Segment} {literal : Str} (hne : literal ≠ [])
    (h : ∀ existing, segments.getLast? ≠ some (.literal existing)) :
    pushLiteral segments literal = segments ++ [.literal literal] := by
  rw [pushLiteral, if_neg hne]
  split
  next existing hlast => exact absurd hlast (h existing)
  next => rfl

theorem pushLiteral_pushLiteral (segments : List Segment) (first second : Str) :
    pushLiteral (pushLiteral segments first) second = pushLiteral segments (first ++ second) := by
  by_cases hfirst : first = []
  · subst hfirst
    rfl
  · by_cases hlast : ∃ existing, segments.getLast? = some (.literal existing)
    · obtain ⟨existing, hlast⟩ := hlast
      obtain ⟨front, rfl⟩ := List.getLast?_eq_some_iff.mp hlast
      rw [pushLiteral_concat, pushLiteral_concat, pushLiteral_concat, List.append_assoc]
    · have hnew := not_exists.mp hlast
      rw [pushLiteral_new hfirst hnew, pushLiteral_new (by simp [hfirst]) hnew, pushLiteral_concat]

/-! ## Steps of the scanner -/

variable {cursor : Nat} {literal : Str} {placeholders : Finset Str} {segments : List Segment}

theorem parseLoop_pair (h : brace ∈ ['{', '}']) (rest : Str) :
    parseLoop cursor literal placeholders segments (brace :: brace :: brace :: brace :: rest) =
      parseLoop (cursor + 4) [] placeholders (pushLiteral (pushLiteral segments literal) [brace, brace]) rest := by
  rw [parseLoop]
  rcases List.mem_pair.mp h with rfl | rfl
  · rw [if_pos (by simp)]
    rfl
  · rw [if_neg (by simp), if_pos (by simp)]
    rfl

theorem parseLoop_single (h : Alone c rest) :
    parseLoop cursor literal placeholders segments (c :: rest) =
      parseLoop (cursor + c.utf8Size) (literal ++ [c]) placeholders segments rest := by
  have hpair : ∀ brace ∈ ['{', '}'], ¬ [brace, brace] <+: c :: rest := by
    rintro brace hbrace ⟨after, hafter⟩
    obtain ⟨rfl, rfl⟩ := List.cons.inj hafter
    exact h brace hbrace rfl rfl
  have hfour : ∀ brace ∈ ['{', '}'], ¬ [brace, brace, brace, brace] <+: c :: rest := fun brace hbrace hprefix =>
    hpair brace hbrace ((List.prefix_append [brace, brace] [brace, brace]).trans hprefix)
  rw [parseLoop, if_neg (hfour '{' (by simp)), if_neg (hfour '}' (by simp)), if_neg (hpair '{' (by simp)),
    if_neg (hpair '}' (by simp))]

theorem parsePlaceholder_char {start : Nat} {text : Str} (hopen : c ≠ '{') (hclose : c ≠ '}') :
    parsePlaceholder start cursor text (c :: rest) =
      parsePlaceholder start (cursor + c.utf8Size) (text ++ [c]) rest := by
  rw [parsePlaceholder, if_neg (by simp [hopen.symm]), if_neg (by simp [hclose.symm])]

theorem parsePlaceholder_append {start : Nat} {name : Str} (hopen : '{' ∉ name) (hclose : '}' ∉ name) (cursor : Nat)
    (text rest : Str) : ∃ next, parsePlaceholder start cursor text (name ++ rest) =
      parsePlaceholder start next (text ++ name) rest := by
  induction name generalizing cursor text with
  | nil => exact ⟨cursor, by simp⟩
  | cons c name ih =>
      simp only [List.mem_cons, not_or] at hopen hclose
      obtain ⟨next, hnext⟩ := ih hopen.2 hclose.2 (cursor + c.utf8Size) (text ++ [c])
      refine ⟨next, ?_⟩
      rw [List.cons_append, parsePlaceholder_char (Ne.symm hopen.1) (Ne.symm hclose.1), hnext, List.append_assoc]
      rfl

/-- A placeholder as it is written is read back. -/
theorem parsePlaceholder_source {name : Str} (h : IsName name) (start cursor : Nat) (rest : Str) :
    ∃ next, parsePlaceholder start cursor [] (' ' :: (name ++ ' ' :: '}' :: '}' :: rest)) = .ok (name, next, rest) := by
  obtain ⟨next, hnext⟩ := parsePlaceholder_append h.noOpening h.noClosing (cursor + Char.utf8Size ' ') [' ']
    (' ' :: '}' :: '}' :: rest)
  have htrim : trim (' ' :: (name ++ [' '])) = name := by
    have hblank : ∀ c ∈ [' '], isWhitespace c = true := by simp [isWhitespace]
    have hboth : ' ' :: (name ++ [' ']) = [' '] ++ (name ++ [' ']) := rfl
    rw [hboth, trim_ws_append hblank, trim_append_of_ws name hblank, h.trimmed]
  refine ⟨next + Char.utf8Size ' ' + 2, ?_⟩
  rw [parsePlaceholder_char (by decide) (by decide), List.nil_append, hnext,
    parsePlaceholder_char (by decide) (by decide), parsePlaceholder, if_neg (by simp), if_pos (by simp)]
  rw [List.singleton_append, List.cons_append, htrim, if_neg h.nonempty]
  rfl

theorem parseLoop_placeholder {name : Str} (h : IsName name) (rest : Str) :
    ∃ next, parseLoop cursor literal placeholders segments ((Segment.placeholder name).source ++ rest) =
      parseLoop next [] (insert name placeholders) (pushLiteral segments literal ++ [.placeholder name]) rest := by
  obtain ⟨next, hnext⟩ := parsePlaceholder_source h cursor (cursor + 2) rest
  refine ⟨next, ?_⟩
  have hsource : (Segment.placeholder name).source ++ rest = '{' :: '{' :: ' ' :: (name ++ ' ' :: '}' :: '}' :: rest) := by
    simp [Segment.source]
  rw [hsource, parseLoop, if_neg (by simp), if_neg (by simp), if_pos (by simp)]
  split
  next err herr => exact absurd (herr.symm.trans hnext) (by simp)
  next found foundNext after hfound =>
    obtain ⟨rfl, rfl, rfl⟩ : found = name ∧ foundNext = next ∧ after = rest := by
      simpa using hfound.symm.trans hnext
    rfl

/-! ## The whole source -/

theorem apart_nil (before : Str) : Apart before [] := fun _ _ _ => by simp

theorem apart_placeholder {before name : Str} (h : ¬ EndsUnpaired '{' before) :
    Apart before ((Segment.placeholder name).source ++ rest) := by
  intro brace hbrace hends
  rcases List.mem_pair.mp hbrace with rfl | rfl
  · exact absurd hends h
  · simp [Segment.source]

theorem parseLoop_escape {before tail : Str} (h : Apart before tail) (cursor : Nat) (literal : Str)
    (placeholders : Finset Str) (segments : List Segment) :
    ∃ next rest pushed, parseLoop cursor literal placeholders segments (escape before ++ tail) =
        parseLoop next rest placeholders pushed tail ∧
      pushLiteral pushed rest = pushLiteral segments (literal ++ before) := by
  induction before using pairs_induction generalizing cursor literal segments with
  | nil => exact ⟨cursor, literal, segments, rfl, by rw [List.append_nil]⟩
  | pair brace hbrace text ih =>
      obtain ⟨next, rest, pushed, hloop, hpushed⟩ := ih (apart_of_pair h) (cursor + 4) []
        (pushLiteral (pushLiteral segments literal) [brace, brace])
      refine ⟨next, rest, pushed, ?_, ?_⟩
      · rw [escape_pair hbrace, List.cons_append, List.cons_append, List.cons_append, List.cons_append,
          parseLoop_pair hbrace, hloop]
      · rw [hpushed, pushLiteral_pushLiteral, pushLiteral_pushLiteral]
        simp
  | single c text halone ih =>
      obtain ⟨next, rest, pushed, hloop, hpushed⟩ := ih (apart_of_single halone h) (cursor + c.utf8Size)
        (literal ++ [c]) segments
      refine ⟨next, rest, pushed, ?_, ?_⟩
      · rw [escape_single halone, List.cons_append, parseLoop_single (alone_escape (alone_append halone h)), hloop]
      · rw [hpushed, List.append_assoc]
        rfl

/-- The segments with adjacent literals joined, behind those that are there. -/
def joinOnto (joined : List Segment) : List Segment → List Segment
  | [] => joined
  | .literal text :: rest => joinOnto (pushLiteral joined text) rest
  | .placeholder name :: rest => joinOnto (joined ++ [.placeholder name]) rest

attribute [local simp] joinOnto

theorem parseLoop_sourceOf {segments : List Segment} {before : Str} (hsep : Separated before segments)
    (hnames : ∀ name ∈ namesOf segments, IsName name) (cursor : Nat) (placeholders : Finset Str)
    (pushed : List Segment) :
    parseLoop cursor [] placeholders pushed (escape before ++ sourceOf segments) =
      .ok ⟨placeholders ∪ (namesOf segments).toFinset, joinOnto (pushLiteral pushed before) segments⟩ := by
  induction segments generalizing before cursor placeholders pushed with
  | nil =>
      obtain ⟨next, rest, held, hloop, hheld⟩ := parseLoop_escape (apart_nil before) cursor [] placeholders pushed
      rw [List.nil_append] at hheld
      have hsource : sourceOf [] = [] := rfl
      have hnone : (namesOf []).toFinset = ∅ := rfl
      rw [hsource, hloop, parseLoop, hheld, hnone, Finset.union_empty]
      rfl
  | cons segment segments ih =>
      cases segment with
      | literal text =>
          obtain ⟨hapart, hrest⟩ := hsep
          have hsource : sourceOf (.literal text :: segments) = escape text ++ sourceOf segments := rfl
          rw [hsource, ← List.append_assoc, ← escape_append hapart, ih hrest hnames, ← pushLiteral_pushLiteral]
          rfl
      | placeholder name =>
          obtain ⟨hunpaired, hrest⟩ := hsep
          have hsource : sourceOf (.placeholder name :: segments) =
              (Segment.placeholder name).source ++ sourceOf segments := rfl
          obtain ⟨next, rest, held, hloop, hheld⟩ := parseLoop_escape (apart_placeholder hunpaired) cursor []
            placeholders pushed
          obtain ⟨behind, hbehind⟩ : ∃ behind, parseLoop next rest placeholders held
              ((Segment.placeholder name).source ++ sourceOf segments) = parseLoop behind [] (insert name placeholders)
                (pushLiteral held rest ++ [.placeholder name]) (sourceOf segments) :=
            parseLoop_placeholder (hnames name List.mem_cons_self) (sourceOf segments)
          have hnext := ih hrest (fun other hother => hnames other (List.mem_cons_of_mem _ hother)) behind
            (insert name placeholders) (pushLiteral held rest ++ [.placeholder name])
          have hnamesOf : namesOf (.placeholder name :: segments) = name :: namesOf segments := rfl
          rw [hsource, hloop, hbehind]
          refine hnext.trans ?_
          rw [pushLiteral_nil, hheld, List.nil_append, hnamesOf, List.toFinset_cons, Finset.insert_union,
            Finset.union_insert]
          rfl

end Codrex.Templates
